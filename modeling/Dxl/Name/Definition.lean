import Dxl.Name.Scope
import Dxl.Place.Locate
import Dxl.View.Parts

/-! Definitions: which declaration or assignment a name in the source text refers to. -/

namespace Dxl.Place

/-- The token of a reference to the given name. -/
def use? (name : String) (place : Place) : Option Place :=
  if place.isNameRef then place.firstToken?.filter (fun token => token.text == name) else none

/-- The name that a place refers to. -/
def referredName? (place : Place) : Option String :=
  if place.isNameRef then place.firstToken?.map text else none

/-- The token of a declaration of one name. -/
def declaredUse? (name : String) (place : Place) : Option Place :=
  place.leadingName?.bind (use? name)

/-- The token by which a node declares the given name. -/
def declares? (name : String) (place : Place) : Option Place :=
  match place.kind with
  | .node .varDecl =>
    match place.declaredNames? with
    | some names => names.findSome? (use? name)
    | none => place.declaredUse? name
  | .node .arrayDecl | .node .funcDecl => place.declaredUse? name
  | .node .paramList =>
    (place.nodesOf .param).findSome? fun param => param.parameterDecl?.bind (declaredUse? name)
  | _ => none

/-- The token by which a statement plainly assigns to the given name. -/
def assigns? (name : String) (place : Place) : Option Place :=
  -- Operators that also read the name define nothing.
  (place.content?.filter (isA .assignment)).bind fun assignment =>
    (assignment.operator?.filter (fun operator => operator.kind == .token (.sign .equal))).bind
      fun _ => assignment.declaredUse? name

/-- Whether a token is nested at most as deeply as the given level. -/
def isVisibleFrom (level : Nat) (token : Place) : Bool :=
  token.level ≤ level

/-- The definition that the reference at this place has: the nearest visible declaration before it, or else the nearest visible assignment. -/
def definitionOf? (place : Place) (name : String) : Option Place :=
  let visible := isVisibleFrom place.level
  (place.previous.findSome? fun node => (node.declares? name).filter visible) <|>
    (place.previous.findSome? fun node => (node.assigns? name).filter visible)

/-- The token that defines the name at an offset. -/
def definitionAt? (offset : Nat) (root : Place) : Option Place :=
  (root.nodeAt? offset).bind fun node =>
    node.referredName?.bind fun name => node.definitionOf? name

end Dxl.Place
