import Dxl.Proofs.Name.Listing
import Dxl.Proofs.Parse.Names

/-! References in a source text: the order in which the uses of a definition are listed, and which uses are listed for themselves. -/

namespace Dxl

open Place

variable {text : String} {parsed : Parsed} {offset : Nat} {uses : List Place}
  {reference token definition : Place}

/-- The uses that are listed at an offset begin with the definition there, come in the order of the source text without repeats, and are the tokens of names with the text of the definition. -/
theorem references_ordered (parses : parseText text = .ok parsed) (base : Nat)
    (listed : (root parsed.tree base).referencesAt? offset = some uses) :
    ∃ definition rest, (root parsed.tree base).definitionAt? offset = some definition
      ∧ uses = definition :: rest
      ∧ uses.Pairwise (fun left right => left.start < right.start)
      ∧ ∀ token ∈ uses, ∃ reference, Below reference (root parsed.tree base)
          ∧ reference.isNameRef = true ∧ reference.firstToken? = some token
          ∧ token.text = definition.text := by
  obtain ⟨definition, rest, defined, split, ordered, names⟩ :=
    referencesAt?_ordered (rooted_of_parseText parses base) listed
  refine ⟨definition, rest, defined, split, ordered, ?_⟩
  intro token member
  obtain ⟨reference, inside, refers⟩ := names token member
  exact ⟨reference, inside, use?_eq_some_iff.mp refers⟩

/-- A parameter that is used in the body of its function is listed before its uses there, also where it is looked for at one of them. -/
theorem references_ordered_parameter :
    ∃ parsed uses definition rest, parseText "int a = 1\nvoid f(int a) { print a }" = .ok parsed
      ∧ (root parsed.tree 0).referencesAt? 33 = some uses
      ∧ (root parsed.tree 0).definitionAt? 33 = some definition ∧ uses = definition :: rest
      ∧ definition.start = 21 ∧ ∃ token ∈ uses, token.start = 32 := by
  let check (parsed : Parsed) : Bool := ((root parsed.tree 0).referencesAt? 33).any fun uses =>
    uses.any (fun token => token.start == 32)
      && ((root parsed.tree 0).definitionAt? 33).any (·.start == 21)
  obtain ⟨parsed, parses, passes⟩ : ∃ parsed,
      parseText "int a = 1\nvoid f(int a) { print a }" = .ok parsed ∧ check parsed = true :=
    exists_ok_of_any (by decide +kernel)
  simp only [check, Option.any_eq_true, List.any_eq_true, Bool.and_eq_true, beq_iff_eq] at passes
  obtain ⟨uses, listed, ⟨token, member, starts⟩, definition, defined, first⟩ := passes
  obtain ⟨same, rest, found, split, -, -⟩ := references_ordered parses 0 listed
  obtain rfl := Option.some.inj (found.symm.trans defined)
  exact ⟨parsed, uses, same, rest, parses, listed, defined, split, first, token, member, starts⟩

/-- A reference is among the uses that are listed at its own end just if its definition does not come after it, it opens no deeper declaration of its name, and it is inside of the parameter if the definition names a function that is a parameter. -/
theorem mem_references_iff (parses : parseText text = .ok parsed) (base : Nat)
    (inside : Below reference (root parsed.tree base)) (names : reference.isNameRef = true)
    (first : reference.firstToken? = some token)
    (defined : (root parsed.tree base).definitionAt? token.stop = some definition) :
    (∃ uses, (root parsed.tree base).referencesAt? token.stop = some uses ∧ token ∈ uses)
      ↔ definition.start ≤ token.start ∧ token.opensDeeper definition.level = false
        ∧ ∀ parameter, definition.functionParameter? = some parameter →
            Below reference parameter :=
  mem_referencesAt?_stop_iff (rooted_of_parseText parses base) inside
    (use?_eq_some_iff.mpr ⟨names, first, rfl⟩) defined

/-- A function that is a parameter is called in the body of the function that has the parameter, and the call is not listed for itself although the definition comes before it. -/
theorem mem_references_iff_called :
    ∃ parsed reference token definition, parseText "void f(int g(int x)) { g(1) }" = .ok parsed
      ∧ Below reference (root parsed.tree 0) ∧ reference.isNameRef = true
      ∧ reference.firstToken? = some token ∧ token.start = 23
      ∧ (root parsed.tree 0).definitionAt? token.stop = some definition
      ∧ definition.start ≤ token.start
      ∧ ¬ ∃ uses, (root parsed.tree 0).referencesAt? token.stop = some uses ∧ token ∈ uses := by
  let check (parsed : Parsed) : Bool := ((root parsed.tree 0).nodeAt? 24).any fun reference =>
    reference.isNameRef && reference.firstToken?.any fun token => token.start == 23
      && ((root parsed.tree 0).definitionAt? token.stop).any fun definition =>
        definition.start ≤ token.start
          && definition.functionParameter?.any (·.stop ≤ reference.start)
  obtain ⟨parsed, parses, passes⟩ : ∃ parsed,
      parseText "void f(int g(int x)) { g(1) }" = .ok parsed ∧ check parsed = true :=
    exists_ok_of_any (by decide +kernel)
  simp only [check, Option.any_eq_true, Bool.and_eq_true, beq_iff_eq, decide_eq_true_eq] at passes
  obtain ⟨reference, located, names, token, first, starts, definition, defined, before,
    parameter, found, ends⟩ := passes
  have inside := below_of_nodeAt? (rooted_of_parseText parses 0) located names
  refine ⟨parsed, reference, token, definition, parses, inside, names, first, starts, defined,
    before, ?_⟩
  intro listed
  -- The reference would have to be inside of the parameter, which ends before it.
  obtain ⟨-, -, confined⟩ := (mem_references_iff parses 0 inside names first defined).mp listed
  have range := Within.range (.inr (confined parameter found))
  have nonempty := start_lt_stop_of_isNameRef
    ((rooted_of_parseText parses 0).proper.of_within (.inr inside)) names
  omega

-- A parameter without a type opens a declaration of its own name, so it is not listed for the variable that it refers to.
example : (parseText "int a = 1\nvoid f(a) {}").toOption.any (fun parsed =>
    ((root parsed.tree 0).definitionAt? 18).any (·.start == 4)
      && ((root parsed.tree 0).referencesAt? 18).any (·.all (·.start == 4))) = true := by
  decide +kernel

end Dxl
