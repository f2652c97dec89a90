import Dxl.View.Basic

/-! Scopes: how deeply a place is nested, and which node around it may hold its declarations. -/

namespace Dxl

/-- Nodes that count as one level of nesting. -/
def NodeKind.isLevel : NodeKind → Bool
  | .root | .ifStmt | .forStmt | .whileStmt | .block | .paramList => true
  | _ => false

/-- Nodes that may hold declarations. -/
def NodeKind.isScope (kind : NodeKind) : Bool :=
  -- A function holds its parameters without being a level of its own.
  kind.isLevel || kind == .funcDecl

namespace Place

/-- The number of levels around a place. -/
def level (place : Place) : Nat :=
  place.ancestors.countP fun ancestor => ancestor.kind.isNodeWith NodeKind.isLevel

/-- The nearest scope around a place, or the place itself if there is none. -/
def scope (place : Place) : Place :=
  (place.ancestors.find? fun ancestor => ancestor.kind.isNodeWith NodeKind.isScope).getD place

end Place

end Dxl
