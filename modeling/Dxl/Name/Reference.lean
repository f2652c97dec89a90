import Dxl.Name.Definition

/-! References: all uses of a name that share one definition. -/

namespace Dxl

/-- Which uses are looked for: those of a name, after an offset, which no deeper declaration hides. -/
structure UseQuery where
  name : String
  offset : Nat
  level : Nat

namespace UseQuery

/-- Whether a node declares the name anew at a deeper level. -/
def isHiddenBy (query : UseQuery) (node : Place) : Bool :=
  ((node.declares? query.name).filter fun token => query.level < token.level).isSome

/-- Up to where uses are hidden once a node declares the name anew. -/
def hiddenUntil (node : Place) (before : Nat) : Nat :=
  -- At the top of a tree nothing but the declaration itself is passed over.
  if node.scope.isA .root then before else node.scope.stop

/-- The uses among nodes that follow each other, each given with the uses below it; nodes that end by the given offset are passed over. -/
def among (query : UseQuery) (until_ : Nat) : List (Place × List Place) → List Place
  | [] => []
  | (node, below) :: rest =>
    if node.stop ≤ until_ then query.among until_ rest
    else if query.isHiddenBy node then query.among (hiddenUntil node until_) rest
    else (node.use? query.name).toList ++ below ++ query.among until_ rest

/-- The uses below a place, in the order of the source text. -/
def below (query : UseQuery) (place : Place) : List Place :=
  place.fold fun element uses =>
    query.among query.offset
      ((element.children.zip uses).filter fun (child, _) => !child.isToken)

end UseQuery

namespace Place

/-- The node in which all uses of a definition lie. -/
def searched (node : Place) : Place :=
  -- Parameters are used in the body beside them, and functions wherever they are declared.
  if node.scope.isA .funcDecl || node.scope.isA .paramList then
    node.scope.parent?.getD node.scope
  else node.scope

/-- All uses that share the definition of the name at an offset, the definition included. -/
def referencesAt? (offset : Nat) (root : Place) : Option (List Place) :=
  (root.definitionAt? offset).bind fun definition =>
    definition.parent?.bind fun node =>
      node.referredName?.map fun name =>
        UseQuery.below ⟨name, node.start, node.level⟩ node.searched

end Place

end Dxl
