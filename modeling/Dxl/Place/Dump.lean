import Dxl.Place.Basic

/-! Labels of places, and the dump of a tree with one line for each element. -/

namespace Dxl.Place

/-- The kind and the range of an element, as labels show them. -/
def span (place : Place) : String :=
  place.kind.dumpName ++ "@" ++ toString place.start ++ ".." ++ toString place.stop

/-- The label of an element; that of a token ends with its text, unless it is a line break. -/
def label (place : Place) : String :=
  if place.isToken then
    match place.kind with
    | .token .hardBreak | .token .softBreak => "Leaf " ++ place.span
    | _ => "Leaf " ++ place.span ++ " \"" ++ place.text ++ "\""
  else "Node " ++ place.span

/-- The labels of a place and of everything below it, indented by two spaces for each level. -/
def dumpLines (place : Place) : List String :=
  place.fold fun element below => element.label :: below.flatten.map ("  " ++ ·)

/-- The dump of a place. -/
def dump (place : Place) : String :=
  "\n".intercalate place.dumpLines

end Dxl.Place
