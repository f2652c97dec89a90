import Dxl.Proofs.Name.RoundTrip
import Dxl.Proofs.Parse.Lossless
import Dxl.Proofs.Parse.Safety

/-! Names in a source text: which uses are listed for a definition, and which definition the listed uses have. -/

namespace Dxl

open Place

/-- The tree of a source text is rooted, wherever it starts. -/
theorem rooted_of_parseText {text : String} {parsed : Parsed}
    (parses : parseText text = .ok parsed) (base : Nat) : (root parsed.tree base).Rooted := by
  obtain ⟨_, _, children, -, -, -, isRoot, -, flawless⟩ := root_of_parseText parses
  refine ⟨rfl, ?_, sound_of_parseText parses, flawless⟩
  rw [root, Place.kind, isRoot]
  rfl

variable {text : String} {parsed : Parsed} {offset : Nat} {uses : List Place}
  {reference token definition : Place}

/-- A reference is among the uses listed for its own definition just if the definition resolves to something that does not come after the reference, than which neither the definition nor the reference opens a deeper declaration, and the reference is inside of the parameter if that something is a function which is a parameter. -/
theorem mem_references_of_definition_iff (parses : parseText text = .ok parsed) (base : Nat)
    (inside : Below reference (root parsed.tree base)) (names : reference.isNameRef = true)
    (first : reference.firstToken? = some token)
    (defined : (root parsed.tree base).definitionAt? token.stop = some definition) :
    (∃ uses, (root parsed.tree base).referencesAt? definition.stop = some uses ∧ token ∈ uses)
      ↔ ∃ origin, (root parsed.tree base).definitionAt? definition.stop = some origin
        ∧ origin.start ≤ token.start ∧ definition.opensDeeper origin.level = false
        ∧ token.opensDeeper origin.level = false
        ∧ ∀ parameter, origin.functionParameter? = some parameter → Below reference parameter :=
  mem_referencesAt?_iff (rooted_of_parseText parses base) inside
    (use?_eq_some_iff.mpr ⟨names, first, rfl⟩) defined

/-- A variable that is declared after its type is used among the uses that are listed for it. -/
theorem mem_references_of_definition_typed :
    ∃ parsed reference token definition, parseText "int a = 1\nprint a" = .ok parsed
      ∧ Below reference (root parsed.tree 0) ∧ reference.firstToken? = some token
      ∧ token.start = 16 ∧ (root parsed.tree 0).definitionAt? token.stop = some definition
      ∧ ∃ uses, (root parsed.tree 0).referencesAt? definition.stop = some uses ∧ token ∈ uses := by
  let check (parsed : Parsed) : Bool := ((root parsed.tree 0).nodeAt? 17).any fun reference =>
    reference.isNameRef && reference.firstToken?.any fun token => token.start == 16
      && ((root parsed.tree 0).definitionAt? token.stop).any fun definition =>
        ((root parsed.tree 0).definitionAt? definition.stop).any fun origin =>
          origin.start ≤ token.start && !definition.opensDeeper origin.level
            && !token.opensDeeper origin.level && origin.functionParameter?.isNone
  have passes : (parseText "int a = 1\nprint a").toOption.any check = true := by decide +kernel
  obtain ⟨parsed, parses, passes⟩ := exists_ok_of_any passes
  simp only [check, Option.any_eq_true, Bool.and_eq_true, beq_iff_eq, decide_eq_true_eq,
    Bool.not_eq_true', Option.isNone_iff_eq_none] at passes
  obtain ⟨reference, located, names, token, first, starts, definition, defined, origin, resolved,
    ⟨⟨before, shallowDefinition⟩, shallow⟩, unconfined⟩ := passes
  have inside := below_of_nodeAt? (rooted_of_parseText parses 0) located names
  exact ⟨parsed, reference, token, definition, parses, inside, first, starts, defined,
    (mem_references_of_definition_iff parses 0 inside names first defined).mpr
      ⟨origin, resolved, before, shallowDefinition, shallow, by simp [unconfined]⟩⟩

-- A name that is only assigned to does not resolve where it is first assigned, so nothing is listed there.
example : (parseText "a = 1\nprint a").toOption.any (fun parsed =>
    ((root parsed.tree 0).definitionAt? 13).any (·.stop == 1)
      && ((root parsed.tree 0).referencesAt? 1).isNone) = true := by decide +kernel

/-- A use that is listed at an offset has the definition at that offset just if the definition governs it. -/
theorem definition_of_mem_references_iff (parses : parseText text = .ok parsed) (base : Nat)
    (listed : (root parsed.tree base).referencesAt? offset = some uses) (member : token ∈ uses) :
    (root parsed.tree base).definitionAt? token.stop = (root parsed.tree base).definitionAt? offset
      ↔ ∃ definition, (root parsed.tree base).definitionAt? offset = some definition
        ∧ definition.Governs token := by
  obtain ⟨definition, defined, -⟩ := Option.bind_eq_some_iff.mp listed
  rw [defined, definitionAt?_eq_iff_governs (rooted_of_parseText parses base) defined listed member]
  simp

/-- A variable that is declared once more at the same level has uses of the second declaration among those listed for the first, which does not govern them. -/
theorem definition_of_mem_references_redeclared :
    ∃ parsed uses token, parseText "int a = 1\nprint a\nint a = 2\nprint a" = .ok parsed
      ∧ (root parsed.tree 0).referencesAt? 5 = some uses ∧ token ∈ uses ∧ token.start = 34
      ∧ ¬ ∃ definition, (root parsed.tree 0).definitionAt? 5 = some definition
        ∧ definition.Governs token := by
  let check (parsed : Parsed) : Bool := ((root parsed.tree 0).referencesAt? 5).any fun uses =>
    uses.any fun token => token.start == 34
      && ((root parsed.tree 0).definitionAt? token.stop).any (·.start == 22)
      && ((root parsed.tree 0).definitionAt? 5).any (·.start == 4)
  have passes : (parseText "int a = 1\nprint a\nint a = 2\nprint a").toOption.any check = true := by
    decide +kernel
  obtain ⟨parsed, parses, passes⟩ := exists_ok_of_any passes
  simp only [check, Option.any_eq_true, List.any_eq_true, Bool.and_eq_true, beq_iff_eq] at passes
  obtain ⟨uses, listed, token, member, ⟨starts, second, last, lastStart⟩, first, found,
    firstStart⟩ := passes
  refine ⟨parsed, uses, token, parses, listed, member, starts, fun governs => ?_⟩
  -- The use would have the first declaration, but it has the second one.
  have same := (definition_of_mem_references_iff parses 0 listed member).mpr governs
  rw [last, found] at same
  cases same
  omega

end Dxl
