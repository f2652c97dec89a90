import Mathlib.Logic.Function.Iterate
import Dxl.Proofs.Tree.Leaves
import Dxl.Tree.Flaw

/-! The search for flaws: it comes to an end, finds nothing just in a flawless tree, and else finds the first flaw from behind. -/

namespace Dxl

namespace MeasuredTree

/-- How far a search has come. -/
inductive Search where
  /-- There are trees left to look at, the next one first. -/
  | pending (trees : List MeasuredTree)
  /-- The search is over, with what it has found. -/
  | over (found : Option Flaw)

/-- One turn of a search looks at one element. -/
def Search.turn : Search → Search
  | .pending [] => .over none
  | .pending (tree :: rest) =>
    match tree.ownFlaw? with
    | some flaw => .over (some flaw)
    | none => .pending (tree.children.reverse ++ rest)
  | .over found => .over found

/-- A search takes a turn for each element at most, and one more to end. -/
theorem exists_turns (trees : List MeasuredTree) :
    ∃ turns ≤ sizeAll trees + 1, Search.turn^[turns] (.pending trees) = .over (flawAmong? trees) := by
  -- Each turn that finds nothing leaves one element fewer.
  induction trees using flawAmong?.induct with
  | case1 => exact ⟨1, Nat.le_refl 1, by simp [Search.turn, flawAmong?]⟩
  | case2 tree rest flaw found =>
    exact ⟨1, by omega, by simp [Search.turn, flawAmong?, found]⟩
  | case3 tree rest found ih =>
    obtain ⟨turns, bound, ends⟩ := ih
    have fewer := sizeAll_children_append tree rest
    refine ⟨turns + 1, by omega, ?_⟩
    rw [Function.iterate_succ_apply, Search.turn, found, flawAmong?, found]
    exact ends

end MeasuredTree

namespace Tree

/-- A measured leaf is a new leaf. -/
theorem measure_leaf (kind : Kind) (text : String) :
    (leaf kind text).measure = .newLeaf kind text := rfl

/-- A measured node is a new node. -/
theorem measure_node (kind : Kind) (children : List Tree) :
    (node kind children).measure = .newNode kind (children.map measure) := by
  simp only [measure, fold_node]

/-- The children of a tree are measured with it. -/
theorem children_measure (tree : Tree) : tree.measure.children = tree.children.map measure := by
  cases tree with
  | leaf kind text => rfl
  | node kind children => rw [measure_node]; rfl

/-- Measuring a tree does not change its size. -/
theorem size_measure (tree : Tree) : tree.measure.size = tree.size := by
  -- The sizes of the children add up on both sides.
  induction tree with
  | leaf kind text => rfl
  | node kind children ih =>
    rw [measure_node, MeasuredTree.newNode, MeasuredTree.size, MeasuredTree.sizeAll_eq_total,
      List.map_map, size_node]
    exact congrArg (total · + 1) (List.map_congr_left ih)

/-- What there is to say against an element: against a leaf that it has text, or else that it is empty. -/
inductive Offends : Tree → String → Prop
  | hasChildren {kind : TokenKind} {children : List Tree} :
    Offends (.node (.token kind) children) (kind.dumpName ++ " has children")
  | hasText {kind : NodeKind} {text : String} :
    Offends (.leaf (.node kind) text) (kind.dumpName ++ " has text")
  | isEmpty {kind : TokenKind} : Offends (.leaf (.token kind) "") (kind.dumpName ++ " is empty")

/-- The widths of a measured tree are right. -/
theorem ownFlaw?_measure (tree : Tree) : tree.measure.ownFlaw? = tree.measure.misfit? := by
  have right : tree.measure.width = tree.measure.actualWidth := by
    cases tree with
    | leaf kind text => rfl
    | node kind children => rw [measure_node]; rfl
  simp [MeasuredTree.ownFlaw?, right]

/-- The flaw of a measured element is what there is to say against it. -/
theorem message_ownFlaw?_measure {tree : Tree} {message : String} :
    tree.measure.ownFlaw?.map Flaw.message = some message ↔ tree.Offends message := by
  rw [ownFlaw?_measure]
  constructor
  · intro told
    -- The kind of the topmost element decides what can be wrong with it.
    rcases tree with ⟨kind | kind, text⟩ | ⟨kind | kind, children⟩
    · rw [measure_leaf] at told
      by_cases empty : text = ""
      · subst empty
        cases told
        exact .isEmpty
      · simp [MeasuredTree.newLeaf, MeasuredTree.misfit?, Kind.isNode, Kind.isToken, empty] at told
    · cases told
      exact .hasText
    · rw [measure_node] at told
      cases told
      exact .hasChildren
    · rw [measure_node] at told
      cases told
  · rintro (_ | _ | _)
    · rw [measure_node]; rfl
    · rfl
    · rfl

/-- A measured element has no flaw just if there is nothing to say against it. -/
theorem ownFlaw?_measure_eq_none_iff (tree : Tree) :
    tree.measure.ownFlaw? = none ↔ ∀ message, ¬ tree.Offends message := by
  simp only [← message_ownFlaw?_measure]
  cases tree.measure.ownFlaw? <;> simp

mutual

/-- The elements of a tree, each before its children, and of these the last one with all below it first. -/
def backwards : Tree → List Tree
  | .leaf kind text => [.leaf kind text]
  | .node kind children => .node kind children :: backwardsAll children

/-- The elements of several trees, those of the last one first. -/
def backwardsAll : List Tree → List Tree
  | [] => []
  | tree :: rest => backwardsAll rest ++ backwards tree

end

/-- A tree comes first, and what is below it follows from behind. -/
theorem backwards_eq (tree : Tree) :
    tree.backwards = tree :: tree.children.reverse.flatMap backwards := by
  have all (trees : List Tree) : backwardsAll trees = trees.reverse.flatMap backwards := by
    induction trees with
    | nil => rfl
    | cons tree rest ih => simp [backwardsAll, ih]
  cases tree with
  | leaf kind text => rfl
  | node kind children => rw [backwards, all]; rfl

/-- Searching measured trees finds the first flaw among their elements from behind. -/
theorem flawAmong?_map_measure (trees : List Tree) :
    MeasuredTree.flawAmong? (trees.map measure)
      = (trees.flatMap backwards).findSome? (·.measure.ownFlaw?) := by
  generalize pending : trees.map measure = measured
  -- The search replaces a tree by its children, and so does the order of the elements.
  induction measured using MeasuredTree.flawAmong?.induct generalizing trees with
  | case1 =>
    rw [List.map_eq_nil_iff.mp pending, MeasuredTree.flawAmong?]
    rfl
  | case2 first others flaw found =>
    obtain ⟨tree, rest, rfl, rfl, rfl⟩ := List.map_eq_cons_iff.mp pending
    simp [MeasuredTree.flawAmong?, found, backwards_eq tree]
  | case3 first others found ih =>
    obtain ⟨tree, rest, rfl, rfl, rfl⟩ := List.map_eq_cons_iff.mp pending
    have below := ih (tree.children.reverse ++ rest) (by simp [children_measure])
    rw [MeasuredTree.flawAmong?, found, List.flatMap_cons, backwards_eq tree, List.cons_append,
      List.findSome?_cons, found, ← List.flatMap_append]
    exact below

/-- The search finds the first flaw among the elements of a tree from behind. -/
theorem flaw?_eq_findSome? (tree : Tree) :
    tree.flaw? = tree.backwards.findSome? (·.measure.ownFlaw?) := by
  have search := flawAmong?_map_measure [tree]
  rwa [List.flatMap_singleton] at search

/-- A tree is flawless just if there is nothing to say against any of its elements. -/
theorem flawless_iff (tree : Tree) :
    tree.Flawless ↔ ∀ element ∈ tree.backwards, ∀ message, ¬ element.Offends message := by
  -- A tree is flawless if it is so at the top and in its children, in whichever order these are.
  induction tree with
  | leaf kind text =>
    rw [backwards_eq]
    constructor
    · rintro ⟨nonempty⟩ element member message offends
      cases List.mem_singleton.mp member
      cases offends
      exact nonempty rfl
    · intro clean
      have clean := clean _ (List.mem_singleton_self _)
      rcases kind with kind | kind
      · refine .leaf fun empty => ?_
        subst empty
        exact clean _ .isEmpty
      · exact absurd .hasText (clean _)
  | node kind children ih =>
    have below : (∀ child ∈ children, child.Flawless) ↔
        ∀ element ∈ children.reverse.flatMap backwards, ∀ message, ¬ element.Offends message := by
      simp only [List.mem_flatMap, List.mem_reverse]
      constructor
      · rintro flawless element ⟨child, member, inside⟩
        exact (ih child member).mp (flawless child member) element inside
      · intro clean child member
        exact (ih child member).mpr fun element inside => clean element ⟨child, member, inside⟩
    rw [backwards_eq, List.forall_mem_cons, Tree.children, ← below]
    constructor
    · intro flawless
      cases flawless with
      | node flawless => exact ⟨by rintro message ⟨⟩, flawless⟩
    · rintro ⟨clean, flawless⟩
      rcases kind with kind | kind
      · exact absurd .hasChildren (clean _)
      · exact .node flawless

/-- The search finds no flaw just if there is none. -/
theorem flaw?_eq_none_iff (tree : Tree) : tree.flaw? = none ↔ tree.Flawless := by
  rw [flaw?_eq_findSome?, List.findSome?_eq_none_iff, flawless_iff]
  simp only [ownFlaw?_measure_eq_none_iff]

/-- Looking through a tree for flaws comes to an end, finds none just if there is none, and else complains about the first element from behind that offends. -/
theorem flaw?_decides (tree : Tree) :
    (∃ turns ≤ tree.size + 1,
        MeasuredTree.Search.turn^[turns] (.pending [tree.measure]) = .over tree.flaw?)
      ∧ (tree.flaw? = none ↔ tree.Flawless)
      ∧ ∀ message, tree.flaw?.map Flaw.message = some message ↔
          ∃ before element after, tree.backwards = before ++ element :: after
            ∧ (∀ earlier ∈ before, ∀ other, ¬ earlier.Offends other)
            ∧ element.Offends message := by
  refine ⟨?_, tree.flaw?_eq_none_iff, fun message => ?_⟩
  · -- A single tree is searched in as many turns as it has elements, and one more.
    have ends := MeasuredTree.exists_turns [tree.measure]
    rwa [MeasuredTree.sizeAll, MeasuredTree.sizeAll, size_measure] at ends
  · -- The first flaw is that of an element before which none has one.
    simp only [flaw?_eq_findSome?, Option.map_eq_some_iff, List.findSome?_eq_some_iff]
    constructor
    · rintro ⟨flaw, ⟨before, element, after, split, found, earlier⟩, told⟩
      refine ⟨before, element, after, split, fun element member => ?_, ?_⟩
      · exact (ownFlaw?_measure_eq_none_iff element).mp (earlier element member)
      · exact message_ownFlaw?_measure.mp (by rw [found, Option.map_some, told])
    · rintro ⟨before, element, after, split, earlier, offends⟩
      obtain ⟨flaw, found, told⟩ := Option.map_eq_some_iff.mp (message_ownFlaw?_measure.mpr offends)
      refine ⟨flaw, ⟨before, element, after, split, found, fun element member => ?_⟩, told⟩
      exact (ownFlaw?_measure_eq_none_iff element).mpr (earlier element member)

end Tree

end Dxl
