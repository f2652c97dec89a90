import Dxl.Proofs.Form.Basic
import Dxl.Proofs.Place.Proper
import Dxl.View.Basic

/-! Places of constituents: the children of a place that carry meaning are those that its kind demands. -/

namespace Dxl

/-- Operands are viewed as expressions. -/
theorem NodeKind.isExpression_of_isOperand {kind : NodeKind} (operand : kind.isOperand = true) :
    kind.isExpression = true := by
  cases kind <;> first | rfl | cases operand

namespace Place

/-- The children that carry meaning. -/
def significant (place : Place) : List Place :=
  place.children.filter fun child => !child.kind.passes TokenKind.isTrivia

/-- A place is what a constituent tells of it. -/
def Matches (place : Place) : Constituent → Prop
  | .token kind => place.kind = .token kind ∧ place.isToken = true
  | .node kind first => place.kind = .node kind ∧ place.isToken = false ∧ place.tree.first? = first

variable {place child : Place} {clean : Prop}

/-- In a row of trees that are formed, the places that carry meaning are the constituents. -/
theorem forall₂_row {above : List (Tree × Nat)} (inside : above ≠ []) {trees : List Tree}
    (formed : ∀ tree ∈ trees, tree.Formed clean) (start : Nat) :
    List.Forall₂ Matches
      ((row above start trees).filter fun child => !child.kind.passes TokenKind.isTrivia)
      (Tree.constituents trees) := by
  -- The trees of the row are laid out one after the other, as the constituents are listed.
  induction trees generalizing start with
  | nil => exact .nil
  | cons tree rest ih =>
    have others := ih (fun other member => formed other (by simp [member])) (start + tree.width)
    rw [row, Tree.constituents_cons, List.filter_cons]
    cases formed tree (by simp) with
    | leaf kind text =>
      -- Trivia is left out on both sides, and any other leaf is a token on both sides.
      by_cases trivia : kind.isTrivia = true
      · simpa [Place.kind, Tree.kind, Kind.passes, Tree.constituent?, Kind.proper?, trivia]
          using others
      · simpa [Place.kind, Tree.kind, Kind.passes, Tree.constituent?, Kind.proper?, trivia, Matches,
          isToken, Tree.isLeaf, inside] using others
    | node => simpa [Place.kind, Tree.kind, Kind.passes, Tree.constituent?, Matches, isToken,
        Tree.isLeaf] using others

/-- What is right below a place that is formed is formed. -/
theorem formed_of_mem_children (formed : place.tree.Formed clean) (member : child ∈ place.children) :
    child.tree.Formed clean := by
  have below := tree_of_mem_row member
  obtain ⟨tree, start, above⟩ := place
  cases formed with
  | leaf => cases below
  | node formed => exact formed _ below

/-- What is below a place that is formed is formed. -/
theorem formed_of_within {inner outer : Place} (formed : outer.tree.Formed clean)
    (within : inner.Within outer) : inner.tree.Formed clean := by
  -- The property goes from a tree to its children, and so to everything within.
  refine within.inherit (fun whole below => ?_) formed
  cases whole with
  | leaf => cases below
  | node each => exact each _ below

/-- A place that is formed is no leaf if it has the kind of a node. -/
theorem isLeaf_of_formed {kind : NodeKind} (formed : place.tree.Formed clean)
    (isNode : place.kind = .node kind) : place.tree.isLeaf = false := by
  obtain ⟨tree, start, above⟩ := place
  cases formed with
  | leaf => cases isNode
  | node => rfl

/-- The children that carry meaning are the constituents of a place that is formed. -/
theorem forall₂_significant (formed : place.tree.Formed clean) :
    List.Forall₂ Matches place.significant (Tree.constituents place.tree.children) := by
  obtain ⟨tree, start, above⟩ := place
  cases formed with
  | leaf => exact .nil
  | node formed => exact forall₂_row (List.cons_ne_nil _ _) formed start

/-- Each of several places is what some constituent tells of it. -/
theorem exists_matches {places : List Place} {constituents : List Constituent}
    (matched : List.Forall₂ Matches places constituents)
    (member : child ∈ places) : ∃ constituent ∈ constituents, child.Matches constituent := by
  induction matched with
  | nil => cases member
  | cons same _ ih =>
    rcases List.mem_cons.mp member with rfl | further
    · exact ⟨_, by simp, same⟩
    · obtain ⟨constituent, among, same⟩ := ih further
      exact ⟨constituent, by simp [among], same⟩

/-- A node right below a place that is formed is one of its constituents. -/
theorem exists_constituent {kind : NodeKind} (formed : place.tree.Formed clean)
    (member : child ∈ place.children) (isNode : child.kind = .node kind) :
    ∃ first, Constituent.node kind first ∈ Tree.constituents place.tree.children := by
  -- A node is no trivia, so it is among the children that carry meaning.
  have among : child ∈ place.significant :=
    List.mem_filter.mpr ⟨member, by simp [isNode, Kind.passes]⟩
  obtain ⟨constituent, inside, same⟩ := exists_matches (forall₂_significant formed) among
  cases constituent with
  | token other => cases isNode.symm.trans same.1
  | node other first =>
    cases isNode.symm.trans same.1
    exact ⟨first, inside⟩

/-- A place that is formed is put together as its kind demands. -/
theorem forms_of_kind {kind : NodeKind} (formed : place.tree.Formed clean)
    (isNode : place.kind = .node kind) :
    kind.Forms clean (Tree.constituents place.tree.children) := by
  obtain ⟨tree, start, above⟩ := place
  cases formed with
  | leaf => cases isNode
  | node _ forms =>
    cases isNode
    exact forms

/-- Among the children of a place, those that are nodes of certain kinds carry meaning. -/
theorem filter_nodes (formed : place.tree.Formed clean) (test : NodeKind → Bool) :
    (place.nodes.filter fun child => child.kind.isNodeWith test)
      = place.significant.filter fun child => child.kind.isNodeWith test := by
  rw [nodes, significant, List.filter_filter, List.filter_filter]
  refine List.filter_congr fun child member => ?_
  have formedChild := formed_of_mem_children formed member
  obtain ⟨tree, start, above⟩ := child
  -- A leaf is a token, and a node is no trivia.
  cases formedChild with
  | leaf kind text => rfl
  | node => simp [Place.kind, Tree.kind, Kind.passes, isToken, Tree.isLeaf]

/-- The statements right below a place carry meaning. -/
theorem statements_eq_significant (formed : place.tree.Formed clean) :
    place.statements = place.significant.filter isStatement :=
  filter_nodes formed NodeKind.isStatement

/-- An operand is an expression. -/
theorem isExpression_of_operand {kind : NodeKind} (isNode : place.kind = .node kind)
    (operand : kind.isOperand = true) : place.isExpression = true := by
  rw [Place.isExpression, isNode]
  exact NodeKind.isExpression_of_isOperand operand

/-- The expressions right below a place carry meaning. -/
theorem expressions_eq_significant (formed : place.tree.Formed clean) :
    place.expressions = place.significant.filter isExpression :=
  filter_nodes formed NodeKind.isExpression

/-- The nodes of one kind right below a place carry meaning. -/
theorem nodesOf_eq_significant (formed : place.tree.Formed clean) (kind : NodeKind) :
    place.nodesOf kind = place.significant.filter (isA kind) := by
  -- Being of one kind is a test on the kind of a node.
  have same : isA kind = fun child : Place => child.kind.isNodeWith (· == kind) := by
    funext child
    rw [isA]
    cases child.kind with
    | token other => rfl
    | node other => by_cases same : other = kind <;> simp [Kind.isNodeWith, same]
  rw [nodesOf, same]
  exact filter_nodes formed (· == kind)

/-- Places for two portions of constituents are two portions. -/
theorem exists_append_of_forall₂ {places : List Place} {left right : List Constituent}
    (matched : List.Forall₂ Matches places (left ++ right)) :
    ∃ before after, places = before ++ after
      ∧ List.Forall₂ Matches before left ∧ List.Forall₂ Matches after right :=
  ⟨places.take left.length, places.drop left.length, (List.take_append_drop _ _).symm,
    List.forall₂_take_append _ _ _ matched, List.forall₂_drop_append _ _ _ matched⟩

end Place

end Dxl
