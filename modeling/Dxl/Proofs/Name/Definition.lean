import Dxl.Proofs.Name.Visibility

/-! Definitions: what is at the end of a reference, and how a reference comes to its definition. -/

namespace Dxl.Place

variable {top place node reference definition token : Place} {name : String} {offset : Nat}

/-- What leads to a place in a tree is in the tree. -/
theorem Leads.inside {outer path : Place} (topmost : top.above = []) (inside : Below place top)
    (leads : Leads outer node path place) : Below node top :=
  Within.below (below_of_mem_nodes leads.member) (within_of_below topmost inside leads.below)

/-- A reference ends with its token. -/
theorem stop_of_use? (proper : reference.Proper) (uses : reference.use? name = some token) :
    token.stop = reference.stop ∧ reference.start ≤ token.start ∧ token.start < token.stop := by
  obtain ⟨names, first, -⟩ := use?_eq_some_iff.mp uses
  obtain ⟨other, same, member, stop, nonempty⟩ := exists_token_of_isNameRef proper names
  rw [first] at same
  cases same
  exact ⟨stop, (range_of_mem_children (List.mem_filter.mp member).1).1, nonempty⟩

/-- The definition at an offset that belongs to a use is the definition of the reference. -/
theorem definitionAt?_of_use? (rooted : top.Rooted) (inside : Below reference top)
    (uses : reference.use? name = some token) (after : token.start < offset)
    (upTo : offset ≤ token.stop) : top.definitionAt? offset = reference.definitionOf? name := by
  obtain ⟨names, first, -⟩ := use?_eq_some_iff.mp uses
  obtain ⟨kind, isNode, -, atom⟩ := exists_kind_of_isNameRef names
  rw [definitionAt?, nodeAt?_of_firstToken? rooted.proper inside isNode atom first after upTo,
    Option.bind_some, (parent?_of_use? uses).2.2, Option.bind_some]

/-- The definition at the end of a use is the definition of the reference. -/
theorem definitionAt?_stop (rooted : top.Rooted) (inside : Below reference top)
    (uses : reference.use? name = some token) :
    top.definitionAt? token.stop = reference.definitionOf? name :=
  definitionAt?_of_use? rooted inside uses
    (stop_of_use? (rooted.proper.of_within (.inr inside)) uses).2.2 (Nat.le_refl _)

/-- A reference that is located lies below the root. -/
theorem below_of_nodeAt? (rooted : top.Rooted) (located : top.nodeAt? offset = some place)
    (names : place.isNameRef = true) : Below place top := by
  rcases within_of_nodeAt? located with rfl | below
  · rw [isNameRef, rooted.isRoot] at names
    cases names
  · exact below

/-- A definition at an offset is that of a reference to its name. -/
theorem exists_reference_of_definitionAt? (rooted : top.Rooted)
    (defined : top.definitionAt? offset = some definition) :
    ∃ place name, Below place top ∧ place.isNameRef = true
      ∧ place.definitionOf? name = some definition := by
  obtain ⟨place, located, rest⟩ := Option.bind_eq_some_iff.mp defined
  obtain ⟨name, refers, defines⟩ := Option.bind_eq_some_iff.mp rest
  have names : place.isNameRef = true := by
    unfold referredName? at refers
    split at refers
    · assumption
    · cases refers
  exact ⟨place, name, below_of_nodeAt? rooted located names, names, defines⟩

/-- How a reference has a definition: by the nearest earlier node that declares the name, or if there is none by an earlier assignment. -/
inductive Resolves (name : String) (place definition : Place) : Prop
  | declared {node holder : Place} (member : node ∈ place.previous)
      (declares : node.declares? name = some definition) (held : Introduces node holder)
      (uses : holder.use? name = some definition)
      (nearest : ∀ other ∈ place.previous, (other.declares? name).isSome →
        ∃ outer path, Leads outer other path node)
  | assigned {node holder : Place} (member : node ∈ place.previous)
      (assigns : node.assigns? name = some definition) (held : Assigns node holder)
      (uses : holder.use? name = some definition)
      (undeclared : ∀ other ∈ place.previous, other.declares? name = none)

/-- A reference has a definition only as it resolves to it. -/
theorem resolves_of_definitionOf? (rooted : top.Rooted) (inside : Below place top)
    (names : place.isNameRef = true) (defines : place.definitionOf? name = some definition) :
    Resolves name place definition := by
  have composite := isLeaf_of_isNameRef (rooted.proper.of_within (.inr inside)) names
  rw [definitionOf?_eq rooted inside names, Option.or_eq_some_iff] at defines
  -- A declaration is looked for first, and an assignment only where no earlier node declares the
  -- name.
  rcases defines with declared | ⟨undeclared, assigned⟩
  · obtain ⟨node, member, declares, nearest⟩ :=
      exists_of_findSome?_previous rooted.topmost (.inr inside) composite declared
    obtain ⟨holder, held, uses⟩ := exists_introduces declares
    exact .declared member declares held uses nearest
  · obtain ⟨node, member, assigns⟩ := List.exists_of_findSome?_eq_some assigned
    obtain ⟨holder, held, uses⟩ := exists_assigns assigns
    exact .assigned member assigns held uses (List.findSome?_eq_none_iff.mp undeclared)

/-- Two references with the same token are the same. -/
theorem eq_of_use? {one other : Place} {otherName : String} (uses : one.use? name = some token)
    (alike : other.use? otherName = some token) : one = other :=
  Option.some.inj ((parent?_of_use? uses).1.symm.trans (parent?_of_use? alike).1)

/-- What a reference resolves to is held by a node below the top of the tree. -/
theorem Resolves.exists_holder (rooted : top.Rooted) (inside : Below place top)
    (names : place.isNameRef = true) (resolves : Resolves name place definition) :
    ∃ holder, Below holder top ∧ holder.use? name = some definition := by
  have composite := isLeaf_of_isNameRef (rooted.proper.of_within (.inr inside)) names
  -- The holder is below an earlier node, and those are all below the top.
  have earlier : ∀ node ∈ place.previous, Below node top := by
    intro node member
    obtain ⟨-, outer, path, leads⟩ :=
      (mem_previous_iff rooted.topmost (.inr inside) composite).mp member
    exact leads.inside rooted.topmost inside
  cases resolves with
  | declared member _ held uses _ => exact ⟨_, held.below.trans (earlier _ member), uses⟩
  | assigned member _ held uses _ => exact ⟨_, held.below.trans (earlier _ member), uses⟩

end Dxl.Place
