import Dxl.Grammar.Failure
import Dxl.Tree.Cache

/-! Builders: trees put together from nodes that are opened and closed and from leaves between them. -/

namespace Dxl

/-- The leaf that holds a token. -/
def Token.leaf (token : Token) : Tree :=
  .leaf (.token token.kind) token.text

/-- A tree under construction, a plain one unless its elements are made otherwise. -/
structure Builder (ν : Type := Tree) (κ : Type := Unit) where
  /-- The kinds of the open nodes, innermost first, each with the trees before it in its parent, latest first. -/
  parents : List (NodeKind × List ν)
  /-- The trees in the innermost open node, latest first. -/
  children : List ν
  cache : κ

namespace Builder

variable {ν κ : Type} [Cache ν κ]

/-- Nothing is open and nothing is built. -/
def empty : Builder ν κ := ⟨[], [], Cache.empty ν⟩

/-- Opens a node. -/
def startNode (kind : NodeKind) (builder : Builder ν κ) : Builder ν κ :=
  ⟨(kind, builder.children) :: builder.parents, [], builder.cache⟩

/-- Closes the innermost open node. -/
def finishNode (builder : Builder ν κ) : Except Failure (Builder ν κ) :=
  match builder.parents with
  | [] => .error .neverOpened
  | (kind, siblings) :: parents =>
    let (node, cache) := Cache.node (.node kind) builder.children.reverse builder.cache
    .ok ⟨parents, node :: siblings, cache⟩

/-- Puts a leaf into the innermost open node. -/
def addLeaf (token : Token) (builder : Builder ν κ) : Builder ν κ :=
  let (leaf, cache) := Cache.leaf (.token token.kind) token.text builder.cache
  { builder with children := leaf :: builder.children, cache }

/-- Closes the root, which must be the only open node and stand alone. -/
def finish (builder : Builder ν κ) : Except Failure ν :=
  match builder.parents with
  | [(kind, siblings)] =>
    if siblings.isEmpty then
      .ok (Cache.root (.node kind) builder.children.reverse builder.cache)
    else .error .rootSiblings
  | _ => .error .unbalanced

end Builder

end Dxl
