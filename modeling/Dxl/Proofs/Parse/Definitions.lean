import Dxl.Proofs.Name.Nearest
import Dxl.Proofs.Name.Succession
import Dxl.Proofs.Parse.Forms
import Dxl.Proofs.Parse.Names

/-! Definitions in a source text: which declaration or assignment a name has as its definition, and where that stands. -/

namespace Dxl

open Place

variable {text : String} {parsed : Parsed} {offset : Nat} {reference token definition : Place}

/-- Every offset that belongs to a name has the nearest declaration of the name as its definition: of all declarations and lists of parameters beside the path to the name that start before it, the one that starts last, and of those that start together the innermost. If there is none, it has the nearest plain assignment to the name, and else no definition. -/
theorem definition_nearest (parses : parseText text = .ok parsed) (base : Nat)
    (inside : Below reference (root parsed.tree base)) (names : reference.isNameRef = true)
    (first : reference.firstToken? = some token) (after : token.start < offset)
    (upTo : offset ≤ token.stop) :
    (∃ node, Nearest (declares? token.text) reference token node
        ∧ (root parsed.tree base).definitionAt? offset = node.declares? token.text)
      ∨ (∀ node, ¬ Candidate (declares? token.text) reference token node)
        ∧ ((∃ node, Nearest (assigns? token.text) reference token node
            ∧ (root parsed.tree base).definitionAt? offset = node.assigns? token.text)
          ∨ (∀ node, ¬ Candidate (assigns? token.text) reference token node)
            ∧ (root parsed.tree base).definitionAt? offset = none) :=
  definitionAt?_nearest (rooted_of_parseText parses base) (trimmed_of_parseText parses) inside
    (use?_eq_some_iff.mpr ⟨names, first, rfl⟩) after upTo

/-- In the body of a function a name has the parameter of that name as its definition, not the variable declared before the function. -/
theorem definition_nearest_parameter :
    ∃ parsed reference token node definition,
      parseText "int a = 1\nvoid f(int a) { print a }" = .ok parsed
        ∧ Below reference (root parsed.tree 0) ∧ reference.firstToken? = some token
        ∧ token.start = 32 ∧ Nearest (declares? token.text) reference token node
        ∧ (root parsed.tree 0).definitionAt? 33 = node.declares? token.text
        ∧ node.declares? token.text = some definition ∧ definition.start = 21 := by
  obtain ⟨parsed, parses, passes⟩ : ∃ parsed,
      parseText "int a = 1\nvoid f(int a) { print a }" = .ok parsed
        ∧ (((root parsed.tree 0).nodeAt? 33).any fun reference =>
          reference.isNameRef && (reference.firstToken?.any fun token => token.start == 32
            && token.stop == 33 && reference.ancestors.any fun outer => outer.nodes.any fun node =>
              decide (node.start < token.start) && (node.declares? token.text).isSome)
            && ((root parsed.tree 0).definitionAt? 33).any fun definition =>
              definition.start == 21) = true :=
    exists_ok_of_any (by decide +kernel)
  simp only [Option.any_eq_true, List.any_eq_true, Bool.and_eq_true, beq_iff_eq,
    decide_eq_true_eq] at passes
  obtain ⟨reference, located, ⟨names, token, first, ⟨starts, stops⟩, outer, above, node, member,
    earlier, gives⟩, definition, defined, defines⟩ := passes
  have inside := below_of_nodeAt? (rooted_of_parseText parses 0) located names
  have after : token.start < 33 := by omega
  -- That no node declares the name is excluded by the parameter that was found.
  rcases definition_nearest parses 0 inside names first after (by omega) with
    ⟨nearest, isNearest, same⟩ | ⟨none, -⟩
  · exact ⟨parsed, reference, token, nearest, definition, parses, inside, first, starts, isNearest,
      same, same ▸ defined, defines⟩
  · exact absurd ⟨⟨outer, above, member⟩, earlier, gives⟩ (none node)

/-- A definition does not come after a use of it just if no row of names or parameters has the use in a member before the one with the definition. -/
theorem definition_start_le_iff (parses : parseText text = .ok parsed) (base : Nat)
    (inside : Below reference (root parsed.tree base)) (names : reference.isNameRef = true)
    (first : reference.firstToken? = some token)
    (defined : (root parsed.tree base).definitionAt? token.stop = some definition) :
    definition.start ≤ token.start ↔ ¬ ∃ row earlier later, row.Within (root parsed.tree base)
      ∧ Anticipates row earlier later reference definition := by
  have rooted := rooted_of_parseText parses base
  have uses : reference.use? token.text = some token :=
    use?_eq_some_iff.mpr ⟨names, first, rfl⟩
  rw [definitionAt?_stop rooted inside uses] at defined
  exact start_le_iff rooted (formed_of_parseText parses) inside uses defined

/-- A value given to one name uses the name that is declared after it, as both names are in one row. -/
theorem definition_start_le_iff_later :
    ∃ parsed reference token definition row earlier later,
      parseText "int a, b = c, c" = .ok parsed ∧ Below reference (root parsed.tree 0)
        ∧ reference.firstToken? = some token ∧ token.start = 11
        ∧ (root parsed.tree 0).definitionAt? token.stop = some definition ∧ definition.start = 14
        ∧ Anticipates row earlier later reference definition := by
  obtain ⟨parsed, parses, passes⟩ : ∃ parsed, parseText "int a, b = c, c" = .ok parsed
      ∧ (((root parsed.tree 0).nodeAt? 12).any fun reference =>
        reference.isNameRef && reference.firstToken?.any fun token => token.start == 11
          && ((root parsed.tree 0).definitionAt? token.stop).any (·.start == 14)) = true :=
    exists_ok_of_any (by decide +kernel)
  simp only [Option.any_eq_true, Bool.and_eq_true, beq_iff_eq] at passes
  obtain ⟨reference, located, names, token, first, starts, definition, defined, defines⟩ := passes
  have inside := below_of_nodeAt? (rooted_of_parseText parses 0) located names
  have condition := definition_start_le_iff parses 0 inside names first defined
  have later : ¬ definition.start ≤ token.start := by omega
  obtain ⟨row, earlier, later, -, anticipates⟩ := not_not.mp (mt condition.mpr later)
  exact ⟨parsed, reference, token, definition, row, earlier, later, parses, inside, first, starts,
    defined, defines, anticipates⟩

end Dxl
