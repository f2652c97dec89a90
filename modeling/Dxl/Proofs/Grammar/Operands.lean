import Dxl.Proofs.Grammar.Flagging
import Dxl.Proofs.Grammar.Spreading

/-! Operands: without errors, an operator lacks an operand only where an empty one or the end of a statement stands in its place. -/

namespace Dxl

/-- Tokens that end a statement without belonging to it. -/
def TokenKind.cutsOff : TokenKind → Bool
  | .hardBreak | .endOfText => true
  | _ => false

namespace Tree

/-- Whether a tree is a node that is viewed as an expression. -/
def isExpression : Tree → Bool
  | .node kind _ => kind.isNodeWith NodeKind.isExpression
  | .leaf _ _ => false

/-- Whether a tree is a semicolon, which stands for an empty operand. -/
def isSemicolon : Tree → Bool
  | .leaf (.token (.sign .semicolon)) _ => true
  | _ => false

end Tree

/-- The number of expressions among trees. -/
def expressionCount (trees : List Tree) : Nat :=
  trees.countP Tree.isExpression

/-- The number of operands among trees, empty ones included. -/
def operandTotal (trees : List Tree) : Nat :=
  expressionCount trees + trees.countP Tree.isSemicolon

section

variable (left right trees : List Tree)

/-- Expressions are counted in two portions. -/
@[simp] theorem expressionCount_append :
    expressionCount (left ++ right) = expressionCount left + expressionCount right :=
  List.countP_append

/-- The order of trees does not matter to how many expressions there are. -/
@[simp] theorem expressionCount_reverse : expressionCount trees.reverse = expressionCount trees :=
  List.countP_reverse

/-- Every expression is an operand. -/
theorem expressionCount_le_operandTotal : expressionCount trees ≤ operandTotal trees :=
  Nat.le_add_right _ _

/-- Operands are counted in two portions. -/
@[simp] theorem operandTotal_append :
    operandTotal (left ++ right) = operandTotal left + operandTotal right := by
  simp only [operandTotal, expressionCount_append, List.countP_append]
  omega

/-- The order of trees does not matter to how many operands there are. -/
@[simp] theorem operandTotal_reverse : operandTotal trees.reverse = operandTotal trees := by
  rw [operandTotal, expressionCount_reverse, List.countP_reverse, operandTotal]

end

/-- A node of the given kind that stops at the given offset has all of its operands, some of which may be empty, or lacks only the last one, which is cut off by the end of a statement. -/
inductive Complete (tokens : List Token) (stop : Nat) (kind : NodeKind) (children : List Tree) :
    Prop where
  | all : kind.operandCount ≤ expressionCount children → Complete tokens stop kind children
  | empty : kind ≠ .concat → kind.operandCount ≤ operandTotal children →
    Complete tokens stop kind children
  | cutOff : kind ≠ .concat → kind ≠ .index → kind.operandCount ≤ operandTotal children + 1 →
    (∃ token ∈ tokens, token.kind.cutsOff = true ∧ token.start = stop) →
    Complete tokens stop kind children

/-- Nodes that need no operands are complete. -/
theorem Complete.of_isSimple {tokens : List Token} {stop : Nat} {kind : NodeKind}
    {children : List Tree} (isSimple : kind.IsSimple) : Complete tokens stop kind children :=
  .all (by rw [isSimple]; exact Nat.zero_le _)

/-- A node has all the operands that it needs, as far as it is complete. -/
def CompleteAt (tokens : List Token) : Tree × Nat → Prop
  | (.node (.node kind) children, start) =>
    Complete tokens (start + total (children.map Tree.width)) kind children
  | _ => True

namespace Growth

/-- All nodes in the frame that starts at the base are complete, unless there are errors. -/
structure Whole (tokens : List Token) (base : Nat) (growth : Growth) : Prop where
  along : growth.Along tokens
  placed : base + total (growth.siblings.reverse.map Tree.width) = growth.offset
  complete : growth.report.errors = [] →
    ∀ spot ∈ spotsOfRow base growth.siblings.reverse, CompleteAt tokens spot

variable {tokens : List Token} {growth between after inner : Growth} {base : Nat} {kind : NodeKind}

namespace Whole

/-- As long as there are no errors, all elements in the frame are complete. -/
theorem spread (whole : growth.Whole tokens base) :
    growth.Spread (fun spot => growth.report.errors = [] → CompleteAt tokens spot) base :=
  ⟨whole.placed, fun spot member none => whole.complete none spot member⟩

/-- A frame is whole if all elements in it are complete as long as there are no errors. -/
theorem of_spread (along : growth.Along tokens)
    (spread : growth.Spread (fun spot => growth.report.errors = [] → CompleteAt tokens spot) base) :
    growth.Whole tokens base :=
  ⟨along, spread.placed, fun none spot member => spread.each spot member none⟩

/-- How often the next token was looked at and what the frame begins with make no difference. -/
theorem congr (whole : growth.Whole tokens base) (rest : after.rest = growth.rest)
    (offset : after.offset = growth.offset) (siblings : after.siblings = growth.siblings)
    (report : after.report = growth.report) : after.Whole tokens base := by
  obtain ⟨⟨suffix, adjoining⟩, placed, complete⟩ := whole
  refine ⟨⟨?_, ?_⟩, ?_, ?_⟩ <;> simpa only [rest, offset, siblings, report]

/-- A token that is read is no node. -/
theorem addLeaf (whole : growth.Whole tokens base) {token : Token} {rest : List Token}
    (found : growth.rest = token :: rest) : (growth.addLeaf token).Whole tokens base :=
  .of_spread
    ⟨(List.tail_suffix _).trans whole.along.rest, adjoining_addLeaf found whole.along.adjoining⟩
    (whole.spread.addLeaf (fun _ _ _ _ => trivial) token)

/-- Trivia is no node. -/
theorem eatTrivia (whole : growth.Whole tokens base) : growth.eatTrivia.Whole tokens base :=
  eatTrivia_induction whole fun _ _ _ found _ before => before.addLeaf found

/-- Nothing is in a new frame. -/
theorem enter (whole : growth.Whole tokens base) : growth.enter.Whole tokens growth.offset :=
  .of_spread ⟨whole.along.rest, whole.along.adjoining⟩ (.enter growth)

/-- What an inner frame holds in the end is held by the outer one. -/
theorem leave (whole : growth.Whole tokens base)
    (kept : inner.report.errors = [] → growth.report.errors = [])
    (within : inner.Whole tokens growth.offset) : (growth.leave inner).Whole tokens base := by
  refine .of_spread ⟨within.along.rest, within.along.adjoining⟩ (Spread.leave ?_ within.spread)
  exact whole.spread.imp fun spot complete none => complete (kept none)

/-- A node is complete if it is so where it is closed. -/
theorem close (within : inner.Whole tokens base)
    (complete : inner.report.errors = [] →
      Complete tokens inner.offset kind inner.siblings.reverse) :
    (inner.close kind).Whole tokens base := by
  refine .of_spread ⟨within.along.rest, within.along.adjoining⟩ (within.spread.close fun none => ?_)
  rw [CompleteAt, within.placed]
  exact complete none

end Whole

/-- Errors stay, and nodes stay complete in every frame. -/
structure Onward (tokens : List Token) (growth after : Growth) : Prop where
  errors : after.report.errors = [] → growth.report.errors = []
  whole : ∀ base, growth.Whole tokens base → after.Whole tokens base

namespace Onward

/-- Nothing is lost when nothing is done. -/
theorem refl (growth : Growth) : growth.Onward tokens growth :=
  ⟨id, fun _ whole => whole⟩

/-- Going on is passed on. -/
theorem trans (first : growth.Onward tokens between) (second : between.Onward tokens after) :
    growth.Onward tokens after :=
  ⟨fun none => first.errors (second.errors none),
    fun base whole => second.whole base (first.whole base whole)⟩

/-- A look goes on. -/
theorem look {limit : Option Nat} {symbol : Symbol} (looked : growth.look limit = .ok (symbol, after)) :
    growth.Onward tokens after := by
  refine ⟨fun none => by rwa [(look_keeps looked).1] at none, fun base whole => ?_⟩
  obtain ⟨token, rest, -, -, rfl, rfl⟩ := exists_of_look looked
  exact whole.eatTrivia.congr rfl rfl rfl rfl

/-- Reading a token goes on. -/
theorem bump (bumped : growth.bump = .ok after) : growth.Onward tokens after := by
  refine ⟨fun none => by rwa [(bump_keeps bumped).1] at none, fun base whole => ?_⟩
  obtain ⟨token, rest, found, -, rfl⟩ := exists_of_bump bumped
  exact (whole.eatTrivia.addLeaf found).congr rfl rfl rfl rfl

/-- Noting a mistake goes on, and there is an error after it unless it is a warning. -/
theorem addMistake (mistake : Mistake) : growth.Onward tokens (growth.addMistake mistake) := by
  have none : (growth.addMistake mistake).report.errors = [] → growth.report.errors = [] := by
    simp only [Report.errors, Growth.addMistake, Report.add, List.filter_append,
      List.append_eq_nil_iff]
    exact And.left
  exact ⟨none, fun base whole => ⟨⟨whole.along.rest, whole.along.adjoining⟩, whole.placed,
    fun clean => whole.complete (none clean)⟩⟩

/-- What goes on in an inner frame goes on in the outer one. -/
theorem frame (within : growth.enter.Onward tokens inner) :
    growth.Onward tokens (growth.leave inner) :=
  ⟨within.errors, fun _ whole => whole.leave within.errors (within.whole _ whole.enter)⟩

/-- A node goes on that is complete where it is closed. -/
theorem node (within : growth.enter.Onward tokens inner)
    (complete : inner.report.errors = [] → inner.Along tokens →
      Complete tokens inner.offset kind inner.siblings.reverse) :
    growth.Onward tokens (growth.leave (inner.close kind)) := by
  refine ⟨within.errors, fun base whole => whole.leave within.errors ?_⟩
  have ends := within.whole _ whole.enter
  exact ends.close fun none => complete none ends.along

/-- A node around the operand of the frame goes on that is complete where it is closed. -/
theorem wrap (within : growth.enter.Onward tokens inner)
    (complete : inner.report.errors = [] → inner.Along tokens →
      Complete tokens inner.offset kind (growth.siblings.reverse ++ inner.siblings.reverse)) :
    growth.Onward tokens ((growth.leave inner).close kind) := by
  refine ⟨within.errors, fun base whole => ?_⟩
  have ends := whole.leave within.errors (within.whole _ whole.enter)
  refine ends.close fun none => ?_
  rw [leave, List.reverse_append]
  exact complete none (within.whole _ whole.enter).along

end Onward

/-- Every careful step that makes only nodes without need for operands goes on. -/
theorem kept_onward (tokens : List Token) (limit : Option Nat) :
    Course.Kept (fun _ growth _ after => growth.Onward tokens after) NodeKind.IsSimple limit where
  stay _ _ := .refl _
  further first second := first.trans second
  calm _ _ := .refl _
  pass _ _ := .refl _
  look looked := .look looked
  bump _ _ bumped := .bump bumped
  -- It does not matter here whether a token was expected.
  skip _ bumped := .bump bumped
  report _ _ _ _ := .addMistake _
  node _ isSimple _ within := within.node fun _ _ => .of_isSimple isSimple
  frame within := within.frame
  wrap _ _ isSimple _ within := within.wrap fun _ _ => .of_isSimple isSimple
  warn _ _ _ bumped := (Onward.addMistake _).trans
    ((Onward.bump bumped).node fun _ _ => .of_isSimple rfl)

end Growth

end Dxl
