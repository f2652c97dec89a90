import Dxl.Proofs.Tree.Leaves
import Dxl.Tree.Storage

/-! Sharing: small nodes that are alike are stored at one place, and no others are. -/

namespace Dxl

namespace StoredTree

/-- What holds of leaves, and of a node if it holds of its children, holds of every stored tree. -/
@[elab_as_elim, induction_eliminator]
theorem induct {motive : StoredTree → Prop} (leaf : ∀ kind text, motive (.leaf kind text))
    (node : ∀ place kind children, (∀ child ∈ children, motive child) →
      motive (.node place kind children))
    (tree : StoredTree) : motive tree := by
  match tree with
  | .leaf kind text => exact leaf kind text
  | .node place kind children => exact node place kind children fun child _ => induct leaf node child
termination_by tree

/-- The kind of the topmost element. -/
def kind : StoredTree → Kind
  | .leaf kind _ => kind
  | .node _ kind _ => kind

/-- The children of a node; a leaf has none. -/
def children : StoredTree → List StoredTree
  | .leaf _ _ => []
  | .node _ _ children => children

/-- Whether the tree is a single leaf. -/
def isLeaf : StoredTree → Bool
  | .leaf _ _ => true
  | .node _ _ _ => false

mutual

/-- The tree that is stored, wherever that is. -/
def erase : StoredTree → Tree
  | .leaf kind text => .leaf kind text
  | .node _ kind children => .node kind (eraseAll children)

/-- The trees that are stored. -/
def eraseAll : List StoredTree → List Tree
  | [] => []
  | tree :: rest => erase tree :: eraseAll rest

end

/-- Each of the stored trees is one of the trees. -/
theorem eraseAll_eq_map (trees : List StoredTree) : eraseAll trees = trees.map erase := by
  induction trees with
  | nil => rfl
  | cons tree rest ih => rw [eraseAll, ih, List.map_cons]

mutual

/-- The nodes of a tree, parents before children. -/
def nodes : StoredTree → List StoredTree
  | .leaf _ _ => []
  | .node place kind children => .node place kind children :: nodesAll children

/-- The nodes of several trees. -/
def nodesAll : List StoredTree → List StoredTree
  | [] => []
  | tree :: rest => nodes tree ++ nodesAll rest

end

/-- Two nodes are alike if they have the same kind and the same children, which are a few leaves. -/
def Alike (first second : StoredTree) : Prop :=
  first.kind = second.kind ∧ first.children.map erase = second.children.map erase
    ∧ first.children.length ≤ 3 ∧ ∀ child ∈ first.children, child.isLeaf = true

/-- Only a leaf has the kind and the text of one. -/
theorem leaf?_eq_some {tree : StoredTree} {kind : Kind} {text : String} :
    tree.leaf? = some (kind, text) ↔ tree = .leaf kind text := by
  cases tree <;> simp [leaf?]

/-- A row of leaves is known from their kinds and texts. -/
theorem mapM_leaf?_eq_some {trees : List StoredTree} {leaves : List (Kind × String)} :
    trees.mapM leaf? = some leaves ↔ trees = leaves.map fun (kind, text) => .leaf kind text := by
  -- Both rows are taken apart together, one leaf at a time.
  induction trees generalizing leaves with
  | nil => cases leaves <;> simp
  | cons tree rest ih =>
    simp only [List.mapM_cons, Option.bind_eq_bind, Option.bind_eq_some_iff, Option.pure_def,
      Option.some.injEq, Prod.exists, leaf?_eq_some, ih]
    constructor
    · rintro ⟨kind, text, rfl, others, rfl, rfl⟩
      rfl
    · intro same
      cases leaves with
      | nil => cases same
      | cons leaf others =>
        obtain ⟨rfl, rfl⟩ := List.cons.inj same
        exact ⟨leaf.1, leaf.2, rfl, others, rfl, rfl⟩

/-- Leaves make a row of their kinds and texts. -/
theorem exists_mapM_leaf? {trees : List StoredTree} (leaves : ∀ tree ∈ trees, tree.isLeaf = true) :
    ∃ row, trees.mapM leaf? = some row := by
  induction trees with
  | nil => exact ⟨[], rfl⟩
  | cons tree rest ih =>
    obtain ⟨row, same⟩ := ih fun other member => leaves other (List.mem_cons_of_mem tree member)
    cases tree with
    | leaf kind text => exact ⟨(kind, text) :: row, by simp [leaf?, same]⟩
    | node place kind children => cases leaves _ List.mem_cons_self

/-- Whether trees are a row of leaves does not depend on where they are stored. -/
theorem mapM_leaf?_congr {first second : List StoredTree}
    (same : first.map erase = second.map erase) : first.mapM leaf? = second.mapM leaf? := by
  -- Trees that are stored apart are both leaves of one kind and text, or both nodes.
  induction first generalizing second with
  | nil => rw [List.map_eq_nil_iff.mp same.symm]
  | cons tree rest ih =>
    cases second with
    | nil => cases same
    | cons other others =>
      obtain ⟨head, tail⟩ := List.cons.inj same
      have alike : tree.leaf? = other.leaf? := by
        cases tree <;> cases other <;> simp_all [erase, leaf?]
      rw [List.mapM_cons, List.mapM_cons, alike, ih tail]

end StoredTree

/-- A small node is known from its kind and its leaves. -/
theorem smallNode?_eq_some {kind other : Kind} {children : List StoredTree}
    {leaves : List (Kind × String)} :
    smallNode? kind children = some (other, leaves) ↔ children.length ≤ 3 ∧ kind = other
      ∧ children = leaves.map fun (kind, text) => .leaf kind text := by
  unfold smallNode?
  split
  · rename_i few
    simp [← StoredTree.mapM_leaf?_eq_some, show children.length ≤ 3 from few, and_comm]
  · rename_i many
    simp [show ¬ children.length ≤ 3 from many]

namespace StoredTree

/-- Nodes are alike just if they are the same small node. -/
theorem alike_iff {place other : Nat} {kind otherKind : Kind}
    {children otherChildren : List StoredTree} :
    (node place kind children).Alike (node other otherKind otherChildren)
      ↔ ∃ small, smallNode? kind children = some small
        ∧ smallNode? otherKind otherChildren = some small := by
  constructor
  · rintro ⟨sameKind, same, few, leaves⟩
    obtain ⟨row, rowed⟩ := exists_mapM_leaf? leaves
    refine ⟨(kind, row), ?_, ?_⟩
    · exact smallNode?_eq_some.mpr ⟨few, rfl, mapM_leaf?_eq_some.mp rowed⟩
    · -- The other node has as many children, which are the same leaves.
      have others : otherChildren.mapM leaf? = some row := (mapM_leaf?_congr same).symm.trans rowed
      have lengths := congrArg List.length same
      simp only [List.length_map] at lengths
      exact smallNode?_eq_some.mpr ⟨lengths ▸ few, sameKind.symm, mapM_leaf?_eq_some.mp others⟩
  · rintro ⟨⟨smallKind, row⟩, first, second⟩
    obtain ⟨few, rfl, rfl⟩ := smallNode?_eq_some.mp first
    obtain ⟨-, rfl, rfl⟩ := smallNode?_eq_some.mp second
    refine ⟨rfl, rfl, few, fun child member => ?_⟩
    obtain ⟨leaf, -, rfl⟩ := List.mem_map.mp member
    rfl

/-- Being alike goes both ways. -/
theorem Alike.symm {first second : StoredTree} (alike : first.Alike second) :
    second.Alike first := by
  cases first with
  | leaf kind text =>
    obtain ⟨sameKind, same, few, leaves⟩ := alike
    -- A leaf has no children, so neither has what is like it.
    have none : second.children = [] := List.map_eq_nil_iff.mp same.symm
    exact ⟨sameKind.symm, same.symm, by simp [none], by simp [none]⟩
  | node place kind children =>
    cases second with
    | leaf other text =>
      obtain ⟨sameKind, same, few, leaves⟩ := alike
      exact ⟨sameKind.symm, same.symm, Nat.zero_le 3, fun child member => nomatch member⟩
    | node otherPlace other others =>
      obtain ⟨small, isFirst, isSecond⟩ := alike_iff.mp alike
      exact alike_iff.mpr ⟨small, isSecond, isFirst⟩

/-- Sharing goes both ways. -/
theorem shares_comm (first second : StoredTree) : first.shares second = second.shares first := by
  cases first <;> cases second <;> simp [shares, eq_comm]

/-- Two trees share exactly if they are alike. -/
def Exact (first second : StoredTree) : Prop :=
  first.shares second = true ↔ first.Alike second

/-- Exactness goes both ways. -/
theorem Exact.symm {first second : StoredTree} (exactly : first.Exact second) :
    second.Exact first := by
  unfold Exact
  rw [shares_comm]
  exact exactly.trans ⟨Alike.symm, Alike.symm⟩

instance : Std.Symm Exact := ⟨fun _ _ => Exact.symm⟩

end StoredTree

open StoredTree

namespace Storage

/-- The storage knows what is made: every small node is found in it, and nodes share exactly if they are alike. -/
structure Keeps (storage : Storage) (made : List StoredTree) : Prop where
  /-- A known leaf is the one that is asked for. -/
  leaves : ∀ kind text found, storage.leaves.lookup (kind, text) = some found →
    found = .leaf kind text
  /-- All that is made are nodes, at places that are in use. -/
  placed : ∀ node ∈ made, ∃ place kind children, node = .node place kind children
    ∧ place < storage.used
  /-- A known small node is one of those made, and the one that is asked for. -/
  found : ∀ small node, storage.small.lookup small = some node → node ∈ made
    ∧ ∃ place kind children, node = .node place kind children
      ∧ smallNode? kind children = some small
  /-- Every small node that is made is known. -/
  listed : ∀ place kind children, .node place kind children ∈ made →
    ∀ small, smallNode? kind children = some small → (storage.small.lookup small).isSome
  /-- Any two nodes that are made share just if they are alike. -/
  exactly : made.Pairwise Exact

namespace Keeps

variable {storage : Storage} {made : List StoredTree}

/-- There is nothing to know about nothing. -/
theorem empty : Storage.empty.Keeps [] where
  leaves _ _ _ found := nomatch found
  placed _ member := nomatch member
  found _ _ found := nomatch found
  listed _ _ _ member := nomatch member
  exactly := List.Pairwise.nil

/-- It does not matter in which order the nodes are listed. -/
theorem perm {others : List StoredTree} (keeps : storage.Keeps made) (same : made.Perm others) :
    storage.Keeps others where
  leaves := keeps.leaves
  placed node member := keeps.placed node (same.mem_iff.mpr member)
  found small node found := (keeps.found small node found).imp_left same.mem_iff.mp
  listed place kind children member :=
    keeps.listed place kind children (same.mem_iff.mpr member)
  exactly := (same.pairwise_iff Exact.symm).mp keeps.exactly

/-- A leaf is what it is asked to be, and nothing else changes. -/
theorem leaf (keeps : storage.Keeps made) (kind : Kind) (text : String) :
    (storage.leaf kind text).1 = .leaf kind text ∧ (storage.leaf kind text).2.Keeps made := by
  unfold Storage.leaf
  cases known : storage.leaves.lookup (kind, text) with
  | some found => exact ⟨keeps.leaves kind text found known, keeps⟩
  | none =>
    refine ⟨rfl, { keeps with leaves := ?_ }⟩
    intro other otherText found listed
    -- The leaf that is asked for is either the new one or one from before.
    rw [List.lookup_cons] at listed
    split at listed
    · rename_i same
      obtain ⟨rfl, rfl⟩ := Prod.mk.inj (beq_iff_eq.mp same)
      exact (Option.some.inj listed).symm
    · exact keeps.leaves other otherText found listed

/-- A node at a place of its own shares with no other, and is alike to no other unless a small node is there already. -/
theorem exact_fresh (keeps : storage.Keeps made) {kind : Kind} {children : List StoredTree}
    (new : ∀ small, smallNode? kind children = some small → storage.small.lookup small = none) :
    ∀ node ∈ made, Exact (.node storage.used kind children) node := by
  intro node member
  obtain ⟨place, other, others, rfl, below⟩ := keeps.placed node member
  unfold Exact
  rw [alike_iff]
  constructor
  · -- Its place is beyond those of all the others.
    intro shared
    have : storage.used = place := by simpa [shares] using shared
    omega
  · -- The other one would be listed, if it were the same small node.
    rintro ⟨small, first, second⟩
    have listed := keeps.listed place other others member small second
    rw [new small first] at listed
    cases listed

/-- A node at a place of its own is known from then on, once the small nodes are listed with it. -/
theorem fresh (keeps : storage.Keeps made) {kind : Kind} {children : List StoredTree}
    (new : ∀ small, smallNode? kind children = some small → storage.small.lookup small = none)
    {table : List (SmallNode × StoredTree)}
    (found : ∀ small node, table.lookup small = some node →
      storage.small.lookup small = some node
        ∨ node = .node storage.used kind children ∧ smallNode? kind children = some small)
    (listed : ∀ small, (storage.small.lookup small).isSome
      ∨ smallNode? kind children = some small → (table.lookup small).isSome) :
    Keeps { storage with used := storage.used + 1, small := table }
      (.node storage.used kind children :: made) where
  leaves := keeps.leaves
  placed node member := by
    rcases List.mem_cons.mp member with rfl | before
    · exact ⟨storage.used, kind, children, rfl, Nat.lt_succ_self _⟩
    · obtain ⟨place, other, others, same, below⟩ := keeps.placed node before
      exact ⟨place, other, others, same, Nat.lt_succ_of_lt below⟩
  found small node stored := by
    -- A small node was known before, or is the new one.
    rcases found small node stored with before | ⟨rfl, isSmall⟩
    · exact (keeps.found small node before).imp_left (List.mem_cons_of_mem _)
    · exact ⟨List.mem_cons_self, storage.used, kind, children, rfl, isSmall⟩
  listed place other others member small isSmall := by
    rcases List.mem_cons.mp member with same | before
    · obtain ⟨rfl, rfl, rfl⟩ := StoredTree.node.inj same
      exact listed small (.inr isSmall)
    · exact listed small (.inl (keeps.listed place other others before small isSmall))
  exactly := List.Pairwise.cons (keeps.exact_fresh new) keeps.exactly

/-- A node that is found among the small ones is what is asked for, and comes once more. -/
theorem again (keeps : storage.Keeps made) {kind : Kind} {children : List StoredTree}
    {small : SmallNode} {node : StoredTree} (size : smallNode? kind children = some small)
    (known : storage.small.lookup small = some node) :
    ∃ place, node = .node place kind children
      ∧ storage.Keeps (.node place kind children :: made) := by
  obtain ⟨member, place, other, others, rfl, same⟩ := keeps.found small node known
  -- A small node is known from its kind and its leaves.
  obtain ⟨-, sameKind, sameLeaves⟩ := smallNode?_eq_some.mp same
  obtain ⟨-, askedKind, askedLeaves⟩ := smallNode?_eq_some.mp size
  obtain rfl := sameKind.trans askedKind.symm
  obtain rfl := sameLeaves.trans askedLeaves.symm
  -- It was made before, so all that is new is that it comes twice.
  refine ⟨place, rfl, { keeps with placed := ?_, found := ?_, listed := ?_, exactly := ?_ }⟩
  · intro node before
    rcases List.mem_cons.mp before with rfl | before
    · exact keeps.placed _ member
    · exact keeps.placed node before
  · intro otherSmall node stored
    exact (keeps.found otherSmall node stored).imp_left (List.mem_cons_of_mem _)
  · intro otherPlace otherKind otherChildren before
    rcases List.mem_cons.mp before with same | before
    · exact keeps.listed otherPlace otherKind otherChildren (same ▸ member)
    · exact keeps.listed otherPlace otherKind otherChildren before
  · -- It is like itself, and to the others it is as it was before.
    refine List.Pairwise.cons (fun node before => ?_) keeps.exactly
    by_cases itself : StoredTree.node place other others = node
    · subst itself
      exact iff_of_true (by simp [shares]) (alike_iff.mpr ⟨small, same, same⟩)
    · exact keeps.exactly.forall member before itself

/-- A node is what it is asked to be, at some place, and is known from then on. -/
theorem node (keeps : storage.Keeps made) (kind : Kind) (children : List StoredTree) :
    ∃ place, (storage.node kind children).1 = .node place kind children
      ∧ (storage.node kind children).2.Keeps (.node place kind children :: made) := by
  unfold Storage.node
  cases size : smallNode? kind children with
  | none =>
    -- A node that is not small is stored for itself and is not listed.
    refine ⟨storage.used, rfl, keeps.fresh ?_ (fun _ _ => .inl) ?_⟩
    · intro small isSmall
      rw [size] at isSmall
      cases isSmall
    · rintro small (listed | isSmall)
      · exact listed
      · rw [size] at isSmall
        cases isSmall
  | some small =>
    cases known : storage.small.lookup small with
    | some found =>
      simp only [known]
      exact keeps.again size known
    | none =>
      -- The first of its like is listed for those that come later.
      simp only [known]
      refine ⟨storage.used, rfl, keeps.fresh ?_ ?_ ?_⟩
      · intro other isSmall
        rw [← Option.some.inj (size.symm.trans isSmall)]
        exact known
      · intro other node stored
        rw [List.lookup_cons] at stored
        split at stored
        · rename_i same
          rw [beq_iff_eq.mp same]
          exact .inr ⟨(Option.some.inj stored).symm, size⟩
        · exact .inl stored
      · intro other listed
        rw [List.lookup_cons]
        split
        · rfl
        · rename_i differs
          refine listed.resolve_right fun isSmall => ?_
          rw [Option.some.inj (size.symm.trans isSmall), beq_self_eq_true] at differs
          cases differs

end Keeps

/-- A tree is made as it is, whatever is stored before, and all its nodes are known then. -/
def Makes (tree : Tree) : Prop :=
  ∀ {storage : Storage} {made : List StoredTree}, storage.Keeps made →
    ∃ (stored : StoredTree) (after : Storage), tree.makeIn storage = (stored, after)
      ∧ stored.erase = tree ∧ after.Keeps (stored.nodes ++ made)

/-- Trees are made as they are one after the other, and all their nodes are known then. -/
theorem makes_all {trees : List Tree} (each : ∀ tree ∈ trees, Makes tree) {storage : Storage}
    {made : List StoredTree} (keeps : storage.Keeps made) :
    ∃ (stored : List StoredTree) (after : Storage), Tree.makeAllIn storage trees = (stored, after)
      ∧ eraseAll stored = trees ∧ after.Keeps (nodesAll stored ++ made) := by
  induction trees generalizing storage made with
  | nil => exact ⟨[], storage, rfl, rfl, keeps⟩
  | cons tree rest ih =>
    obtain ⟨first, between, firstMade, firstErased, known⟩ := each tree List.mem_cons_self keeps
    obtain ⟨others, after, othersMade, othersErased, allKnown⟩ :=
      ih (fun other member => each other (List.mem_cons_of_mem tree member)) known
    refine ⟨first :: others, after, ?_, ?_, ?_⟩
    · simp only [Tree.makeAllIn, firstMade, othersMade]
    · rw [eraseAll, firstErased, othersErased]
    · -- The nodes of the first tree were known before those of the others.
      refine allKnown.perm ?_
      rw [nodesAll, List.append_assoc]
      exact List.perm_append_comm_assoc _ _ _

/-- Every tree is made as it is. -/
theorem makes (tree : Tree) : Makes tree := by
  induction tree with
  | leaf kind text =>
    intro storage made keeps
    obtain ⟨same, known⟩ := keeps.leaf kind text
    exact ⟨.leaf kind text, (storage.leaf kind text).2, Prod.ext same rfl, rfl, known⟩
  | node kind children ih =>
    intro storage made keeps
    obtain ⟨row, between, rowMade, erased, rowKnown⟩ := makes_all ih keeps
    obtain ⟨place, same, known⟩ := rowKnown.node kind row
    refine ⟨.node place kind row, (between.node kind row).2, ?_, ?_, known⟩
    · rw [Tree.makeIn, rowMade]
      exact Prod.ext same rfl
    · rw [erase, erased]

end Storage

/-- A tree is stored as it is; below its top nodes share exactly if they are alike, and the top shares with none of them. -/
theorem Tree.exists_store (kind : Kind) (children : List Tree) :
    ∃ place stored, store (.node kind children) = .node place kind stored
      ∧ eraseAll stored = children ∧ (nodesAll stored).Pairwise Exact
      ∧ ∀ inner ∈ nodesAll stored, (StoredTree.node place kind stored).shares inner = false := by
  obtain ⟨stored, after, made, erased, known⟩ :=
    Storage.makes_all (fun child (_ : child ∈ children) => Storage.makes child) .empty
  rw [List.append_nil] at known
  refine ⟨after.used, stored, ?_, erased, known.exactly, ?_⟩
  · rw [store, make, show Cache.empty StoredTree = Storage.empty from rfl, made]
    rfl
  · -- The root is stored last, at a place that was not in use.
    intro inner member
    obtain ⟨place, other, others, rfl, below⟩ := known.placed inner member
    exact beq_false_of_ne (Nat.ne_of_gt below)

end Dxl
