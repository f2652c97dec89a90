import Dxl.Tree.Cache

/-! Storage of trees: small nodes that are alike are stored once. -/

namespace Dxl

/-- A tree whose nodes know where their children are stored. -/
inductive StoredTree where
  | leaf (kind : Kind) (text : String)
  | node (storage : Nat) (kind : Kind) (children : List StoredTree)

namespace StoredTree

/-- The kind and the text of a leaf. -/
def leaf? : StoredTree → Option (Kind × String)
  | .leaf kind text => some (kind, text)
  | .node _ _ _ => none

/-- Whether the children of two nodes are stored at one place; leaves have none to share. -/
def shares : StoredTree → StoredTree → Bool
  | .node place _ _, .node other _ _ => place == other
  | _, _ => false

end StoredTree

/-- A small node: its kind and its children, all of which are leaves. -/
abbrev SmallNode := Kind × List (Kind × String)

/-- At most this many leaves make a node small. -/
def smallSize : Nat := 3

/-- The node as a small one, if it is small. -/
def smallNode? (kind : Kind) (children : List StoredTree) : Option SmallNode :=
  if children.length ≤ smallSize then (children.mapM StoredTree.leaf?).map fun leaves => (kind, leaves)
  else none

/-- The storage in use: how much of it there is, and the leaves and small nodes in it. -/
structure Storage where
  used : Nat
  leaves : List ((Kind × String) × StoredTree)
  small : List (SmallNode × StoredTree)

namespace Storage

/-- Nothing is stored yet. -/
def empty : Storage := ⟨0, [], []⟩

/-- The leaf of a token, which is stored once. -/
def leaf (kind : Kind) (text : String) (storage : Storage) : StoredTree × Storage :=
  match storage.leaves.lookup (kind, text) with
  | some found => (found, storage)
  | none =>
    let leaf := .leaf kind text
    (leaf, { storage with leaves := ((kind, text), leaf) :: storage.leaves })

/-- A node whose children are stored at a place of their own. -/
def fresh (kind : Kind) (children : List StoredTree) (storage : Storage) : StoredTree × Storage :=
  (.node storage.used kind children, { storage with used := storage.used + 1 })

/-- A node, which is stored once with those like it if it is small. -/
def node (kind : Kind) (children : List StoredTree) (storage : Storage) : StoredTree × Storage :=
  match smallNode? kind children with
  | none => storage.fresh kind children
  | some small =>
    match storage.small.lookup small with
    | some found => (found, storage)
    | none =>
      let (node, storage) := storage.fresh kind children
      (node, { storage with small := (small, node) :: storage.small })

end Storage

/-- A stored tree is made with the storage in use, and its root shares nothing. -/
instance : Cache StoredTree Storage where
  empty := Storage.empty
  leaf := Storage.leaf
  node := Storage.node
  root kind children storage := (storage.fresh kind children).1

/-- Stores a whole tree. -/
def Tree.store (tree : Tree) : StoredTree := tree.make

namespace StoredTree

mutual

/-- The kind and the storage of each node, parents before children. -/
def places : StoredTree → List (Kind × Nat)
  | .leaf _ _ => []
  | .node storage kind children => (kind, storage) :: placesAll children

/-- The kind and the storage of each node of several trees. -/
def placesAll : List StoredTree → List (Kind × Nat)
  | [] => []
  | tree :: rest => places tree ++ placesAll rest

end

/-- Each node with the number of its storage, which counts storages in the order they first appear. -/
def classes (tree : StoredTree) : List (Kind × Nat) :=
  -- The distinct storages, first appearances first, number themselves.
  let order := (tree.places.map Prod.snd).eraseDups
  tree.places.map fun (kind, storage) => (kind, order.idxOf storage)

end StoredTree

end Dxl
