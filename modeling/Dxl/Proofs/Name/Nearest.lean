import Dxl.Proofs.Form.Atom
import Dxl.Proofs.Name.Definition
import Dxl.Proofs.Name.Walk

/-! The nearest declaration: which of the nodes beside the path to a name gives the name its definition, without regard to the order in which they are searched. -/

namespace Dxl.Place

variable {top place node reference token : Place} {offset : Nat} {kind : NodeKind} {name : String}
  {give : Place → Option Place}

/-- A node stands right below something around a reference, starts before the token of the reference, and gives something. -/
structure Candidate (give : Place → Option Place) (reference token node : Place) : Prop where
  beside : ∃ outer ∈ reference.ancestors, node ∈ outer.nodes
  earlier : node.start < token.start
  gives : (give node).isSome = true

/-- Of all that give something the node starts last, and those that start with it are around it. -/
structure Nearest (give : Place → Option Place) (reference token node : Place) : Prop where
  candidate : Candidate give reference token node
  last : ∀ other, Candidate give reference token other →
    other.start < node.start ∨ other.start = node.start ∧ node.Within other

/-- Only one of the nodes is the nearest. -/
theorem Nearest.eq {other : Place} (one : Nearest give reference token node)
    (another : Nearest give reference token other) : node = other := by
  -- Neither starts after the other, so each is within the other.
  rcases one.last other another.candidate with before | ⟨same, inner⟩
  · rcases another.last node one.candidate with after | ⟨same, -⟩ <;> omega
  · rcases another.last node one.candidate with after | ⟨-, outer⟩
    · omega
    · exact inner.antisymm outer

/-- A node that holds a single token starts with it, as it holds no trivia. -/
theorem Proper.start_of_firstToken? (proper : place.Proper) (trimmed : place.tree.Trimmed)
    (isNode : place.kind = .node kind) (atom : kind.isAtom = true)
    (first : place.firstToken? = some token) : token.start = place.start := by
  have member := (List.mem_filter.mp (List.mem_of_find?_eq_some first)).1
  obtain ⟨tokenKind, text, same, -⟩ := proper.tree_of_isAtom trimmed isNode atom
  rw [children, same, Tree.children, row, row, List.mem_singleton] at member
  rw [member]

/-- What stands beside the path to a reference and starts before its token is what is searched for the definition of the reference. -/
theorem candidate_iff (starts : token.start = reference.start) :
    Candidate give reference token node ↔ node ∈ reference.previous ∧ (give node).isSome = true := by
  simp only [previous, List.mem_flatMap, List.mem_reverse, List.mem_filter, decide_eq_true_eq]
  constructor
  · rintro ⟨⟨outer, above, member⟩, earlier, gives⟩
    exact ⟨⟨outer, above, member, starts ▸ earlier⟩, gives⟩
  · rintro ⟨⟨outer, above, member, earlier⟩, gives⟩
    exact ⟨⟨outer, above, member⟩, starts ▸ earlier, gives⟩

/-- The search through the earlier nodes finds what the nearest candidate gives, as long as no candidate is empty, and nothing if there is no candidate. -/
theorem findSome?_previous (give : Place → Option Place) (topmost : top.above = [])
    (inside : Below reference top) (composite : reference.tree.isLeaf = false) (starts : token.start = reference.start)
    (nonempty : ∀ node ∈ reference.previous, (give node).isSome = true → node.start < node.stop) :
    (∃ node, Nearest give reference token node
        ∧ reference.previous.findSome? give = give node)
      ∨ (∀ node, ¬ Candidate give reference token node)
        ∧ reference.previous.findSome? give = none := by
  cases found : reference.previous.findSome? give with
  | none =>
    refine .inr ⟨fun node candidate => ?_, rfl⟩
    obtain ⟨member, gives⟩ := (candidate_iff starts).mp candidate
    simp [List.findSome?_eq_none_iff.mp found node member] at gives
  | some given =>
    obtain ⟨node, member, gives, nearest⟩ :=
      exists_of_findSome?_previous topmost (.inr inside) composite found
    refine .inl ⟨node, ⟨(candidate_iff starts).mpr ⟨member, by simp [gives]⟩, ?_⟩, gives.symm⟩
    intro other candidate
    obtain ⟨otherMember, otherGives⟩ := (candidate_iff starts).mp candidate
    obtain ⟨outer, path, leads⟩ := nearest other otherMember otherGives
    have range := leads.within.range
    -- Another candidate is around the node, or ends before it starts.
    rcases leads.first with rfl | before
    · rcases Nat.lt_or_eq_of_le range.1 with earlier | same
      · exact .inl earlier
      · exact .inr ⟨same, leads.within⟩
    · have := nonempty other otherMember otherGives
      exact .inl (by omega)

/-- A statement that assigns to a name is not empty. -/
theorem start_lt_stop_of_assigns (proper : node.Proper)
    (assigns : node.assigns? name = some token) : node.start < node.stop := by
  obtain ⟨reference, assigned, uses⟩ := exists_assigns assigns
  have range := Within.range (.inr assigned.below)
  have nonempty := start_lt_stop_of_isNameRef (proper.of_within (.inr assigned.below))
    (use?_eq_some_iff.mp uses).1
  omega

/-- An offset that belongs to a use of a name has the nearest declaration of the name as its definition, or if there is none the nearest assignment to it, if any. -/
theorem definitionAt?_nearest (rooted : top.Rooted) (trimmed : top.tree.Trimmed)
    (inside : Below reference top) (uses : reference.use? name = some token)
    (after : token.start < offset) (upTo : offset ≤ token.stop) :
    (∃ node, Nearest (declares? name) reference token node
        ∧ top.definitionAt? offset = node.declares? name)
      ∨ (∀ node, ¬ Candidate (declares? name) reference token node)
        ∧ ((∃ node, Nearest (assigns? name) reference token node
            ∧ top.definitionAt? offset = node.assigns? name)
          ∨ (∀ node, ¬ Candidate (assigns? name) reference token node)
            ∧ top.definitionAt? offset = none) := by
  obtain ⟨names, first, -⟩ := use?_eq_some_iff.mp uses
  have proper := rooted.proper.of_within (.inr inside)
  have composite := isLeaf_of_isNameRef proper names
  obtain ⟨kind, isNode, -, atom⟩ := exists_kind_of_isNameRef names
  have within : reference.Within top := .inr inside
  have starts := proper.start_of_firstToken? (within.trimmed trimmed) isNode atom first
  have earlier (node : Place) (member : node ∈ reference.previous) : node.Proper := by
    obtain ⟨-, outer, path, leads⟩ :=
      (mem_previous_iff rooted.topmost (.inr inside) composite).mp member
    exact rooted.proper.of_within (.inr (leads.inside rooted.topmost inside))
  rw [definitionAt?_of_use? rooted inside uses after upTo, definitionOf?_eq rooted inside names]
  -- No declaration and no assignment is empty, so each search finds the nearest candidate.
  have declared := findSome?_previous (declares? name) rooted.topmost inside composite starts
    fun node member gives => by
      obtain ⟨definition, declares⟩ := Option.isSome_iff_exists.mp gives
      exact start_lt_stop_of_declares (earlier node member) declares
  have assigned := findSome?_previous (assigns? name) rooted.topmost inside composite starts
    fun node member gives => by
      obtain ⟨definition, assigns⟩ := Option.isSome_iff_exists.mp gives
      exact start_lt_stop_of_assigns (earlier node member) assigns
  rcases declared with ⟨node, nearest, found⟩ | ⟨undeclared, missing⟩
  · obtain ⟨definition, declares⟩ := Option.isSome_iff_exists.mp nearest.candidate.gives
    exact .inl ⟨node, nearest, by rw [found, declares, Option.some_or]⟩
  · rw [missing, Option.none_or]
    exact .inr ⟨undeclared, assigned⟩

end Dxl.Place
