import Dxl.Proofs.Form.Expression
import Dxl.Proofs.Grammar.Course
import Dxl.Proofs.Grammar.Prefix
import Dxl.Proofs.Grammar.Spreading

/-! Choices: the parenthesis that closes the header of a choice is read by the rule for choices, and by nothing else. -/

namespace Dxl

/-- A parser makes only nodes of certain kinds, whatever else it does. -/
def making (makes : NodeKind → Prop) : Discipline Unit where
  look _ post := ∀ symbol, post symbol ()
  bump _ post := post ()
  report _ _ post := post ()
  enter := id
  close kind _ post := makes kind ∧ post ()
  progress _ _ post := ∀ progressed, post progressed ()
  call _ _ post := post ()

section

variable {makes : NodeKind → Prop} {state : Unit}

/-- A look may see anything. -/
@[simp] theorem making_look (post : Symbol → Unit → Prop) :
    (making makes).look state post ↔ ∀ symbol, post symbol () := Iff.rfl

/-- Reading a token makes no node. -/
@[simp] theorem making_bump (post : Unit → Prop) :
    (making makes).bump state post ↔ post () := Iff.rfl

/-- Noting a mistake makes no node. -/
@[simp] theorem making_report (mistake : Mistake) (post : Unit → Prop) :
    (making makes).report mistake state post ↔ post () := Iff.rfl

/-- A node must be of a kind that may be made. -/
@[simp] theorem making_close (kind : NodeKind) (post : Unit → Prop) :
    (making makes).close kind state post ↔ makes kind ∧ post () := Iff.rfl

/-- A body may read something or nothing. -/
@[simp] theorem making_progress (before : Unit) (post : Bool → Unit → Prop) :
    (making makes).progress before state post ↔ ∀ progressed, post progressed () := Iff.rfl

/-- Any rule may be called. -/
@[simp] theorem making_call (rule : Rule) (post : Unit → Prop) :
    (making makes).call rule state post ↔ post () := Iff.rfl

end

namespace Grammar

open Dxl.Parser

/-- A jump is no choice. -/
theorem jumpNode_ne (kind : TokenKind) : jumpNode kind ≠ .ifStmt := by
  unfold jumpNode
  split <;> simp

/-- A warning makes no node. -/
theorem obeys_making_warnOfQualifier (kind : TokenKind) {post : Unit → Unit → Prop} :
    (warnOfQualifier kind).Obeys (making (· ≠ .ifStmt)) () post ↔ post () () := by
  unfold warnOfQualifier
  split <;> exact Iff.rfl

/-- Rules other than that for choices make no choice by themselves. -/
theorem obeys_making {rule : Rule} (other : rule ≠ .conditional) :
    rule.body.Obeys (making (· ≠ .ifStmt)) () fun _ _ => True := by
  cases rule with
  | conditional => exact absurd rfl other
  | expression power =>
    -- An operand is an atom, a group or a prefixed one.
    simp only [Rule.body, expression, obeys_bind, obeys_look, making_look]
    intro symbol
    split
    case h_1 made starts =>
      have different : made ≠ .ifStmt := by
        rcases TokenKind.eq_of_atom starts with rfl | rfl | rfl <;> decide
      simp [different]
    all_goals simp [group, acceptType, require, expect]
  | operators operand power =>
    -- Whatever takes in the operand becomes a compound, which no choice is.
    simp only [Rule.body, operators, obeys_bind, obeys_look, making_look]
    intro symbol
    have spec := symbol.kind.continuation_spec operand
    split <;> rename_i continues <;> rw [continues] at spec
    case h_4 made =>
      have different : made ≠ .ifStmt := by
        rintro rfl
        cases spec.2
      simp [rightOperand, different]
    case h_8 form =>
      cases form with
      | binary made =>
        have different : made ≠ .ifStmt := by
          rintro rfl
          cases spec.2 _ rfl
        simp [infixed, rightOperand, different]
      | _ => simp [infixed, branches, upperEnd, adjoined, expect]
    all_goals
      simp [application, indexed, sliceEnd, adjoined, group, acceptType, argumentList,
        expressionStatement, require, expect]
  | statement =>
    -- A choice is read by calling its rule, and other statements are nodes of other kinds.
    simp only [Rule.body, statement, obeys_bind, obeys_look, making_look]
    intro symbol
    unfold simpleStatement
    split <;>
      simp [block, whileLoop, loopBody, forLoop, countingRest, furtherClauses, memberRest, member,
        memberStep, jump, jumpValue, jumpNode_ne, pragma, inclusion, expressionStatement, require,
        expect]
  | declaration =>
    simp [Rule.body, declaration, qualifier, typedDeclaration, declarator, functionRest,
      functionBody, parameterList, variableRest, variableEnd, nameList, nameless, arrayRest,
      arraySize, arrayValues, block, expressionStatement, require, expect, skip,
      obeys_making_warnOfQualifier]
  | _ =>
    simp [Rule.body, program, blockItems, furtherNames, furtherName, initialValue,
      arrayItems, arrayItem, arguments, argument, statementEnds, lineEnds, pathParts, recovery,
      expressionStatement, require, expect, skip, parameters, parameter, declarator,
      functionRest, functionBody, parameterList, variableRest, variableEnd, nameless, arrayRest,
      arraySize, arrayValues, block]

/-- What follows a block on its condition makes no choice by itself. -/
@[simp] theorem obeys_making_alternative :
    alternative.Obeys (making (· ≠ .ifStmt)) () fun _ _ => True := by
  simp only [alternative, obeys_bind, obeys_accept, making_look, making_bump]
  intro symbol
  refine ⟨fun _ => ?_, fun _ => trivial⟩
  simp only [if_true, obeys_bind, obeys_look, making_look]
  intro next
  split <;> simp [block, require, expect]

/-- What comes after the keyword of a choice. -/
def choiceRest : Parser Unit := do
  if ← accept (.sign .leftParen) then
    expressionStatement
    if ← expect (.sign .rightParen) then conditionalBody
  else
    expressionStatement
    if ← accept (.keyword .thenWord) then expressionStatement

/-- The keyword of a choice and what comes after it. -/
def choice : Parser Unit := do
  require (.keyword .ifWord)
  choiceRest

/-- A choice is a node of its keyword and what comes after it. -/
theorem conditional_eq : conditional = nodeOf .ifStmt choice := rfl

/-- Nothing in a choice but calls of its rule makes further choices. -/
theorem obeys_making_choice : choice.Obeys (making (· ≠ .ifStmt)) () fun _ _ => True := by
  simp [choice, choiceRest, conditionalBody, expressionStatement, require, expect]

end Grammar

/-- A choice has its first closing parenthesis at the given offset. -/
def ClosesChoice (place : Nat) (spot : Tree × Nat) : Prop :=
  ∃ before text after,
    spot.1 = .node (.node .ifStmt) (before ++ .leaf (.token (.sign .rightParen)) text :: after)
    ∧ text ≠ "" ∧ (∀ tree ∈ before, tree.kind ≠ .token (.sign .rightParen))
    ∧ spot.2 + total (before.map Tree.width) = place

/-- No choice has its first closing parenthesis at the given offset. -/
def Elsewhere (place : Nat) (spot : Tree × Nat) : Prop :=
  ¬ ClosesChoice place spot

variable {place : Nat}

/-- A leaf is no choice. -/
theorem elsewhere_leaf (place : Nat) : Growth.OfLeaves (Elsewhere place) := by
  rintro kind text start ⟨before, closing, after, same, -⟩
  cases same

/-- A node of another kind is no choice. -/
theorem elsewhere_of_ne {kind : NodeKind} (other : kind ≠ .ifStmt) (children : List Tree)
    (start : Nat) : Elsewhere place (.node (.node kind) children, start) := by
  rintro ⟨before, closing, after, same, -⟩
  simp only [Tree.node.injEq, Kind.node.injEq] at same
  exact other same.1

/-- The first closing parenthesis of a choice lies within it. -/
theorem elsewhere_of_far {children : List Tree} {start : Nat}
    (far : start + total (children.map Tree.width) ≤ place ∨ place < start) :
    Elsewhere place (.node (.node .ifStmt) children, start) := by
  rintro ⟨before, closing, after, same, solid, -, reach⟩
  simp only [Tree.node.injEq, true_and] at same
  -- The parenthesis takes up room between the start of the node and its end.
  have length : 0 < closing.utf8ByteSize := by
    rw [Nat.pos_iff_ne_zero, ne_eq, String.utf8ByteSize_eq_zero_iff]
    exact solid
  have width : (Tree.leaf (.token (.sign .rightParen)) closing).width = closing.utf8ByteSize := rfl
  rw [same, List.map_append, total_append, List.map_cons, total_cons, width] at far
  dsimp only at reach
  omega

namespace Growth

/-- All choices that are made have their first closing parentheses elsewhere if those before had, and tokens were read in order. -/
structure Spares (place : Nat) (growth after : Growth) : Prop where
  paces : growth.Paces after
  spares : after.offset ≤ place ∨ place < growth.offset → ∀ base,
    growth.Spread (Elsewhere place) base → after.Spread (Elsewhere place) base

/-- Whatever is made outside of a choice spares a place that it does not reach. -/
theorem steers_spares {call : Rule → Growth → Except Failure Growth} {limit : Option Nat}
    (calls : ∀ {rule growth after}, call rule growth = .ok after → growth.Spares place after) :
    (making (· ≠ .ifStmt)).Steers call limit (fun _ _ => True)
      fun _ growth _ after => growth.Spares place after where
  stay _ growth := ⟨.of_eq rfl rfl, fun _ _ spread => spread⟩
  -- A place that is not reached on the whole is reached by neither part.
  further {_ _ _ growth middle after} first second := by
    refine ⟨first.paces.trans second.paces, fun far base spread => ?_⟩
    have early := first.paces.offset_le
    have late := second.paces.offset_le
    exact second.spares (by omega) base (first.spares (by omega) base spread)
  begin _ := trivial
  enter _ := trivial
  look _ obeys looked :=
    ⟨(), obeys _, trivial, .look looked,
      fun _ _ spread => spread.look (elsewhere_leaf place) looked⟩
  bump _ obeys bumped :=
    ⟨(), obeys, trivial, .bump bumped,
      fun _ _ spread => spread.bump (elsewhere_leaf place) bumped⟩
  report _ obeys := ⟨(), obeys, trivial, .of_eq rfl rfl, fun _ _ spread => spread.congr rfl rfl⟩
  node {kind _ _ growth inner _} _ within closes := by
    obtain ⟨other, post⟩ := closes
    -- A node of another kind reaches as far as what was read in it.
    have paces : growth.Paces (growth.leave (inner.close kind)) := within.paces
    refine ⟨(), post, trivial, paces, fun far base spread => ?_⟩
    have made := within.spares far growth.offset (.enter growth)
    exact spread.leave (made.close (elsewhere_of_ne other _ _))
  frame {_ _ growth inner} _ within := by
    have paces : growth.Paces (growth.leave inner) := within.paces
    refine ⟨trivial, paces, fun far base spread => ?_⟩
    exact spread.leave (within.spares far growth.offset (.enter growth))
  wrap {kind _ _ growth inner _} _ _ within closes := by
    obtain ⟨other, post⟩ := closes
    -- The node takes in what was in the frame before, of which nothing else is asked.
    have paces : growth.Paces ((growth.leave inner).close kind) := within.paces
    refine ⟨(), post, trivial, paces, fun far base spread => ?_⟩
    have made := within.spares far growth.offset (.enter growth)
    exact (spread.leave made).close (elsewhere_of_ne other _ _)
  progress post _ within := ⟨(), post _, trivial, within⟩
  call _ obeys called := ⟨(), obeys, trivial, calls called⟩

end Growth

/-- What is made outside of a choice spares every place that it does not reach, if the rules that it calls do. -/
theorem Parser.spares_grow {call : Rule → Growth → Except Failure Growth} {limit : Option Nat}
    {α : Type} {parser : Parser α} {growth after : Growth} {value : α}
    {post : α → Unit → Prop} (grown : parser.grow call limit growth = .ok (value, after))
    (obeys : parser.Obeys (making (· ≠ .ifStmt)) () post)
    (calls : ∀ {rule growth after}, call rule growth = .ok after → growth.Spares place after) :
    post value () ∧ growth.Spares place after := by
  obtain ⟨ending, holds, -, spares⟩ := grow_course (Growth.steers_spares calls) obeys trivial grown
  exact ⟨holds, spares⟩

/-- A rule spares every place that it does not reach. -/
theorem Rule.spares_grow {limit : Option Nat} {rule : Rule} {depth : Nat} {growth after : Growth}
    (grown : rule.grow limit depth growth = .ok after) : growth.Spares place after := by
  induction depth generalizing rule growth after with
  | zero => cases grown
  | succ depth ih =>
    have body := Rule.grow_ok.mp grown
    by_cases choice : rule = .conditional
    · subst choice
      rw [Rule.body, Grammar.conditional_eq] at body
      obtain ⟨inner, within, rfl⟩ := Parser.grow_nodeOf_ok body
      obtain ⟨-, spares⟩ :=
        Parser.spares_grow within Grammar.obeys_making_choice fun called => ih called
      refine ⟨spares.paces, fun far base spread => ?_⟩
      -- The node covers what was read in it, which does not reach the place.
      have made := spares.spares far growth.offset (.enter growth)
      refine spread.leave (made.close (elsewhere_of_far ?_))
      rw [made.placed]
      exact far
    · exact (Parser.spares_grow body (Grammar.obeys_making choice) fun called => ih called).2

end Dxl
