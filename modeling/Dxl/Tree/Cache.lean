import Dxl.Tree.Basic

/-! Caches: what is remembered while the elements of a tree are made one by one. -/

namespace Dxl

/-- A way to make the elements of a tree, each from those below it and from what is remembered of those made before. -/
class Cache (ν : Type) (κ : outParam Type) where
  /-- Nothing is remembered yet. -/
  empty : κ
  /-- Makes the leaf of a token. -/
  leaf : Kind → String → κ → ν × κ
  /-- Makes a node from its children. -/
  node : Kind → List ν → κ → ν × κ
  /-- Makes the root, which is the last node. -/
  root : Kind → List ν → κ → ν

/-- A plain tree is made with nothing to remember. -/
instance : Cache Tree Unit where
  empty := ()
  leaf kind text _ := (.leaf kind text, ())
  node kind children _ := (.node kind children, ())
  root kind children _ := .node kind children

/-- A plain leaf is made of what is asked for. -/
@[simp] theorem Cache.leaf_plain (kind : Kind) (text : String) (cache : Unit) :
    (Cache.leaf kind text cache : Tree × Unit) = (.leaf kind text, ()) := rfl

/-- A plain node is made of what is asked for. -/
@[simp] theorem Cache.node_plain (kind : Kind) (children : List Tree) (cache : Unit) :
    Cache.node kind children cache = (Tree.node kind children, ()) := rfl

/-- A plain root is made of what is asked for. -/
@[simp] theorem Cache.root_plain (kind : Kind) (children : List Tree) (cache : Unit) :
    Cache.root kind children cache = Tree.node kind children := rfl

namespace Tree

variable {ν κ : Type} [Cache ν κ]

mutual

/-- Makes a tree once more, from its leaves upwards. -/
def makeIn (cache : κ) : Tree → ν × κ
  | .leaf kind text => Cache.leaf kind text cache
  | .node kind children =>
    let (made, cache) := makeAllIn cache children
    Cache.node kind made cache

/-- Makes trees once more, one after the other. -/
def makeAllIn (cache : κ) : List Tree → List ν × κ
  | [] => ([], cache)
  | tree :: rest =>
    let (first, cache) := makeIn cache tree
    let (others, cache) := makeAllIn cache rest
    (first :: others, cache)

end

/-- Makes a whole tree once more, with nothing remembered at first. -/
def make : Tree → ν
  | .leaf kind text => (Cache.leaf kind text (Cache.empty ν)).1
  | .node kind children =>
    let (made, cache) := makeAllIn (Cache.empty ν) children
    Cache.root kind made cache

end Tree

end Dxl
