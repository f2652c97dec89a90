import Dxl.Tree.Measured

/-! Flaws that a tree put together by hand can have, and the search for the first of them. -/

namespace Dxl

/-- What is wrong with one element of a tree. -/
inductive Flaw where
  /-- An element remembers a width that is not its own. -/
  | wrongWidth (kind : Kind) (remembered actual : Nat)
  /-- A node has the kind of a token. -/
  | hasChildren (kind : Kind)
  /-- A leaf has the kind of a node. -/
  | hasText (kind : Kind)
  /-- A leaf has no characters. -/
  | isEmpty (kind : Kind)
deriving DecidableEq

/-- The wording of a flaw; of two widths that differ, it shows both. -/
def Flaw.message : Flaw → String
  | .wrongWidth kind remembered actual =>
    "assertion `left == right` failed: " ++ kind.dumpName ++ " has the wrong width\n  left: "
      ++ toString remembered ++ "\n right: " ++ toString actual
  | .hasChildren kind => kind.dumpName ++ " has children"
  | .hasText kind => kind.dumpName ++ " has text"
  | .isEmpty kind => kind.dumpName ++ " is empty"

namespace MeasuredTree

/-- What is wrong with the topmost element, apart from its width. -/
def misfit? : MeasuredTree → Option Flaw
  | .leaf _ kind text =>
    if kind.isNode then some (.hasText kind)
    else if text.isEmpty then some (.isEmpty kind)
    else none
  | .node _ kind _ => if kind.isToken then some (.hasChildren kind) else none

/-- The flaw of the topmost element alone; its width is looked at first. -/
def ownFlaw? (tree : MeasuredTree) : Option Flaw :=
  if tree.width == tree.actualWidth then tree.misfit?
  else some (.wrongWidth tree.kind tree.width tree.actualWidth)

/-- The first flaw among trees still to be searched, the last child of a node before the others. -/
def flawAmong? (pending : List MeasuredTree) : Option Flaw :=
  -- A tree is replaced by its children, and one element fewer is left.
  match pending with
  | [] => none
  | tree :: rest =>
    match tree.ownFlaw? with
    | some flaw => some flaw
    | none => flawAmong? (tree.children.reverse ++ rest)
termination_by sizeAll pending
decreasing_by
  have fewer := sizeAll_children_append tree rest
  omega

end MeasuredTree

/-- The first flaw of a tree. -/
def Tree.flaw? (tree : Tree) : Option Flaw :=
  MeasuredTree.flawAmong? [tree.measure]

end Dxl
