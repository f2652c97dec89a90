import Mathlib
import Dxl.Grammar.Rules

/-! Disciplines: what can be told of a parser without running it, step by step, in terms of what is known at each point. -/

namespace Dxl

/-- What each step of a parser needs, and which states it can lead to; a state holds what is known of the run so far. -/
structure Discipline (State : Type) where
  look : State → (Symbol → State → Prop) → Prop
  bump : State → (State → Prop) → Prop
  report : Mistake → State → (State → Prop) → Prop
  /-- The state in which the body of a node begins, given the state before the node. -/
  enter : State → State
  /-- What follows when a node is closed, given the state after its body. -/
  close : NodeKind → State → (State → Prop) → Prop
  /-- What follows when a body is tested for progress, given the states before and after it. -/
  progress : State → State → (Bool → State → Prop) → Prop
  call : Rule → State → (State → Prop) → Prop

/-- A parser only takes steps that a discipline allows, and in the end its value and the state are as they should be. -/
def Parser.Obeys {State : Type} (discipline : Discipline State) {α : Type} (parser : Parser α)
    (state : State) (post : α → State → Prop) : Prop :=
  match parser with
  | .done value => post value state
  | .andThen first next =>
    first.Obeys discipline state fun value after => (next value).Obeys discipline after post
  | .look => discipline.look state post
  | .bump => discipline.bump state (post ())
  | .report mistake => discipline.report mistake state (post ())
  | .node body | .wrap body =>
    body.Obeys discipline (discipline.enter state) fun kind inner =>
      discipline.close kind inner (post kind)
  | .frame body => body.Obeys discipline state post
  | .progress body =>
    body.Obeys discipline state fun _ inner => discipline.progress state inner post
  | .call rule => discipline.call rule state (post ())

namespace Parser

variable {State : Type} {discipline : Discipline State} {state : State} {α β : Type}

/-- Of two parsers the second one starts in the state that the first one leads to. -/
@[simp] theorem obeys_bind (first : Parser α) (next : α → Parser β) (post : β → State → Prop) :
    (first >>= next).Obeys discipline state post
      ↔ first.Obeys discipline state fun value after =>
          (next value).Obeys discipline after post := Iff.rfl

/-- A parser that does nothing ends in the state in which it begins. -/
@[simp] theorem obeys_pure (value : α) (post : α → State → Prop) :
    (pure value : Parser α).Obeys discipline state post ↔ post value state := Iff.rfl

/-- A choice obeys if the branch that is taken does. -/
@[simp] theorem obeys_ite (condition : Prop) [Decidable condition] (yes no : Parser α)
    (post : α → State → Prop) :
    (if condition then yes else no).Obeys discipline state post
      ↔ (condition → yes.Obeys discipline state post)
        ∧ (¬ condition → no.Obeys discipline state post) := by
  split <;> simp [*]

/-- A look obeys as the discipline says. -/
@[simp] theorem obeys_look (post : Symbol → State → Prop) :
    look.Obeys discipline state post ↔ discipline.look state post := Iff.rfl

/-- Reading a token obeys as the discipline says. -/
@[simp] theorem obeys_bump (post : Unit → State → Prop) :
    bump.Obeys discipline state post ↔ discipline.bump state (post ()) := Iff.rfl

/-- Noting a mistake obeys as the discipline says. -/
@[simp] theorem obeys_report (mistake : Mistake) (post : Unit → State → Prop) :
    (report mistake).Obeys discipline state post
      ↔ discipline.report mistake state (post ()) := Iff.rfl

/-- A node obeys if its body does and it may be closed. -/
@[simp] theorem obeys_node (body : Parser NodeKind) (post : NodeKind → State → Prop) :
    (node body).Obeys discipline state post
      ↔ body.Obeys discipline (discipline.enter state) fun kind inner =>
          discipline.close kind inner (post kind) := Iff.rfl

/-- A node around an operand obeys if its body does and it may be closed. -/
@[simp] theorem obeys_wrap (body : Parser NodeKind) (post : NodeKind → State → Prop) :
    (wrap body).Obeys discipline state post
      ↔ body.Obeys discipline (discipline.enter state) fun kind inner =>
          discipline.close kind inner (post kind) := Iff.rfl

/-- A frame makes no difference. -/
@[simp] theorem obeys_frame (body : Parser α) (post : α → State → Prop) :
    (frame body).Obeys discipline state post ↔ body.Obeys discipline state post := Iff.rfl

/-- A body that is tested for progress obeys if it does without the test. -/
@[simp] theorem obeys_progress (body : Parser Unit) (post : Bool → State → Prop) :
    (progress body).Obeys discipline state post
      ↔ body.Obeys discipline state fun _ inner => discipline.progress state inner post := Iff.rfl

/-- A call of a rule obeys as the discipline says. -/
@[simp] theorem obeys_call (rule : Rule) (post : Unit → State → Prop) :
    (call rule).Obeys discipline state post ↔ discipline.call rule state (post ()) := Iff.rfl

/-- A node of one kind obeys if its body does and the kind may be closed. -/
@[simp] theorem obeys_nodeOf (kind : NodeKind) (body : Parser Unit) (post : Unit → State → Prop) :
    (nodeOf kind body).Obeys discipline state post
      ↔ body.Obeys discipline (discipline.enter state) fun _ inner =>
          discipline.close kind inner (post ()) := Iff.rfl

/-- A node of one kind around an operand obeys if its body does and the kind may be closed. -/
@[simp] theorem obeys_wrapIn (kind : NodeKind) (body : Parser Unit) (post : Unit → State → Prop) :
    (wrapIn kind body).Obeys discipline state post
      ↔ body.Obeys discipline (discipline.enter state) fun _ inner =>
          discipline.close kind inner (post ()) := Iff.rfl

/-- A node of one token obeys if the token may be read and the kind may be closed. -/
@[simp] theorem obeys_bumpAs (kind : NodeKind) (post : Unit → State → Prop) :
    (bumpAs kind).Obeys discipline state post
      ↔ discipline.bump (discipline.enter state) fun inner =>
          discipline.close kind inner (post ()) := Iff.rfl

/-- Testing the kind of the next token is a look. -/
@[simp] theorem obeys_nextIs (kind : TokenKind) (post : Bool → State → Prop) :
    (nextIs kind).Obeys discipline state post
      ↔ discipline.look state fun symbol => post (symbol.kind == kind) := Iff.rfl

/-- Comparing the kind of the next token with several is a look. -/
@[simp] theorem obeys_nextIsOneOf (kinds : List TokenKind) (post : Bool → State → Prop) :
    (nextIsOneOf kinds).Obeys discipline state post
      ↔ discipline.look state fun symbol => post (kinds.contains symbol.kind) := Iff.rfl

/-- Testing for the end of the text is a look. -/
@[simp] theorem obeys_atEnd (post : Bool → State → Prop) :
    atEnd.Obeys discipline state post
      ↔ discipline.look state fun symbol => post (symbol.kind == .endOfText) := Iff.rfl

/-- Testing for the end of a statement is a look. -/
@[simp] theorem obeys_atStatementEnd (post : Bool → State → Prop) :
    atStatementEnd.Obeys discipline state post
      ↔ discipline.look state fun symbol => post symbol.kind.endsStatement := Iff.rfl

/-- Testing for a type is a look. -/
@[simp] theorem obeys_atType (post : Bool → State → Prop) :
    atType.Obeys discipline state post
      ↔ discipline.look state fun symbol => post symbol.namesType := Iff.rfl

/-- A token is read after a look if it is of the given kind. -/
@[simp] theorem obeys_accept (kind : TokenKind) (post : Bool → State → Prop) :
    (accept kind).Obeys discipline state post
      ↔ discipline.look state fun symbol after =>
          (symbol.kind = kind → discipline.bump after (post true))
            ∧ (symbol.kind ≠ kind → post false after) := by
  simp [accept]

/-- A missing token is noted after a look at what is there instead. -/
@[simp] theorem obeys_missing (kind : TokenKind) (post : Unit → State → Prop) :
    (missing kind).Obeys discipline state post
      ↔ discipline.look state fun symbol after =>
          discipline.report (.expected kind symbol.kind) after (post ()) := Iff.rfl

/-- A token is read after a look at it, or noted as missing after a second look. -/
theorem obeys_require (kind : TokenKind) (post : Unit → State → Prop) :
    (require kind).Obeys discipline state post
      ↔ discipline.look state fun symbol after =>
          (symbol.kind = kind → discipline.bump after (post ()))
            ∧ (symbol.kind ≠ kind → discipline.look after fun next further =>
              discipline.report (.expected kind next.kind) further (post ())) := by
  simp [require, expect]

end Parser

end Dxl
