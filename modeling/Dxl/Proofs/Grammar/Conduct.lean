import Dxl.Proofs.Grammar.Course
import Dxl.Proofs.Grammar.Operator
import Dxl.Proofs.Tree.Operator

/-! Conduct: rules note mistakes only at a token that they have just looked at, and only some of them make nodes of two operands. -/

namespace Dxl

/-- A mistake tells of a token of the given kind. -/
def Mistake.TellsOf : Mistake → TokenKind → Prop
  | .expected _ got, kind | .expectedExpression got, kind => got = kind
  | .ignoredQualifier word, kind => kind = .keyword word

/-- A symbol can come next if it is the one that was just seen, as far as any was. -/
def Symbol.Fits (symbol : Symbol) (seen : Option Symbol) : Prop :=
  ∀ known, seen = some known → symbol = known

/-- Every symbol can come next when none was seen. -/
@[simp] theorem Symbol.fits_none (symbol : Symbol) : symbol.Fits none := by
  simp [Fits]

/-- Only the symbol that was seen can come next. -/
@[simp] theorem Symbol.fits_some (symbol known : Symbol) :
    symbol.Fits (some known) ↔ symbol = known := by
  simp [Fits]

/-- A parser makes only nodes of certain kinds, calls only certain rules, and notes mistakes only right after a look at the token that they tell of; the state is what was seen since a token was read. -/
def conduct (makes : NodeKind → Prop) (calls : Rule → Prop) : Discipline (Option Symbol) where
  look seen post := ∀ symbol : Symbol, symbol.Fits seen → post symbol (some symbol)
  bump _ post := post none
  report mistake seen post :=
    (∃ symbol, seen = some symbol ∧ mistake.TellsOf symbol.kind) ∧ post seen
  enter seen := seen
  close kind seen post := makes kind ∧ post seen
  progress _ seen post := ∀ progressed, post progressed seen
  call rule _ post := calls rule ∧ post none

section

variable {makes : NodeKind → Prop} {calls : Rule → Prop} {seen : Option Symbol}

/-- A look sees a symbol that can come next. -/
@[simp] theorem conduct_look (post : Symbol → Option Symbol → Prop) :
    (conduct makes calls).look seen post
      ↔ ∀ symbol : Symbol, symbol.Fits seen → post symbol (some symbol) := Iff.rfl

/-- Nothing is seen of the token after the one that is read. -/
@[simp] theorem conduct_bump (post : Option Symbol → Prop) :
    (conduct makes calls).bump seen post ↔ post none := Iff.rfl

/-- A mistake is noted of what was seen. -/
@[simp] theorem conduct_report (mistake : Mistake) (post : Option Symbol → Prop) :
    (conduct makes calls).report mistake seen post
      ↔ (∃ symbol, seen = some symbol ∧ mistake.TellsOf symbol.kind) ∧ post seen := Iff.rfl

/-- What was seen is still there in a new body. -/
@[simp] theorem conduct_enter : (conduct makes calls).enter seen = seen := rfl

/-- A node must be of a kind that may be made. -/
@[simp] theorem conduct_close (kind : NodeKind) (post : Option Symbol → Prop) :
    (conduct makes calls).close kind seen post ↔ makes kind ∧ post seen := Iff.rfl

/-- Whether anything was read is not told apart. -/
@[simp] theorem conduct_progress (before : Option Symbol) (post : Bool → Option Symbol → Prop) :
    (conduct makes calls).progress before seen post ↔ ∀ progressed, post progressed seen := Iff.rfl

/-- Nothing is seen of the token after what a rule reads. -/
@[simp] theorem conduct_call (rule : Rule) (post : Option Symbol → Prop) :
    (conduct makes calls).call rule seen post ↔ calls rule ∧ post none := Iff.rfl

end

/-- Nodes other than those of two operands. -/
def NodeKind.IsPlain (kind : NodeKind) : Prop :=
  kind.isInfix = false

/-- Rules other than the operators after an operand. -/
def Rule.IsPlain : Rule → Prop
  | .operators _ _ => False
  | _ => True

/-- No node of two operands is made, and no operators are called that could make one. -/
def plainly : Discipline (Option Symbol) :=
  conduct NodeKind.IsPlain Rule.IsPlain

/-- Only the operators after an operand make nodes of two operands, and only an operand is followed by operators. -/
def Rule.conduct : Rule → Discipline (Option Symbol)
  | .operators _ _ => Dxl.conduct (fun _ => True) fun _ => True
  | .expression _ => Dxl.conduct NodeKind.IsPlain fun _ => True
  | _ => plainly

/-- Whatever nodes a rule makes and whatever rules it calls, it notes mistakes where they are made. -/
theorem Rule.exists_conduct (rule : Rule) :
    ∃ makes calls, rule.conduct = Dxl.conduct makes calls := by
  cases rule <;> exact ⟨_, _, rfl⟩

/-- A token that is an operand by itself does not make a node of two operands. -/
theorem TokenKind.isInfix_atom {kind : TokenKind} {made : NodeKind}
    (starts : kind.operandStart = .atom made) : made.isInfix = false := by
  rcases eq_of_atom starts with rfl | rfl | rfl <;> rfl

end Dxl

namespace Dxl.Grammar

open Dxl.Parser

/-- A warning tells of the qualifier that was seen. -/
theorem obeys_warnOfQualifier {makes : NodeKind → Prop} {calls : Rule → Prop} {symbol : Symbol}
    (word : symbol.kind = .keyword .constWord ∨ symbol.kind = .keyword .staticWord)
    {post : Unit → Option Symbol → Prop} (after : post () (some symbol)) :
    (warnOfQualifier symbol.kind).Obeys (conduct makes calls) (some symbol) post := by
  rcases word with isConst | isStatic
  · simpa [isConst, warnOfQualifier, Mistake.TellsOf] using after
  · simpa [isStatic, warnOfQualifier, Mistake.TellsOf] using after

/-- An operand makes nodes of at most one operand, and a mistake tells of the token that cannot begin it. -/
theorem obeys_expression (power : Nat) :
    (expression power).Obeys (Rule.expression power).conduct none fun _ _ => True := by
  simp only [expression, obeys_bind, obeys_look, Rule.conduct, conduct_look, Symbol.fits_none,
    true_imp_iff]
  intro symbol
  -- Each beginning of an operand is followed by operators, unless it is empty or missing.
  split
  case h_1 starts => simp [NodeKind.IsPlain, TokenKind.isInfix_atom starts]
  case h_2 =>
    simp [group, acceptType, require, expect, NodeKind.IsPlain, NodeKind.isInfix,
      Mistake.TellsOf]
  case h_3 => simp
  case h_4 => simp [NodeKind.IsPlain, NodeKind.isInfix]
  case h_5 => simp [NodeKind.IsPlain, NodeKind.isInfix, Mistake.TellsOf]

/-- The operators after an operand note mistakes where they are made. -/
theorem obeys_operators (operand : NodeKind) (power : Nat) :
    (operators operand power).Obeys (Rule.operators operand power).conduct none
      fun _ _ => True := by
  simp only [operators, obeys_bind, obeys_look, Rule.conduct, conduct_look, Symbol.fits_none,
    true_imp_iff]
  intro symbol
  -- Binary operators come in several forms, and every other continuation makes one node.
  split
  case h_8 left right form _ =>
    cases form <;>
      simp [infixed, rightOperand, branches, upperEnd, adjoined, expect, Mistake.TellsOf]
  all_goals
    simp [application, indexed, rightOperand, adjoined, group, acceptType, argumentList,
      expressionStatement, sliceEnd, require, expect, Mistake.TellsOf]

/-- A statement makes no node of two operands by itself, and notes mistakes where they are made. -/
theorem obeys_statement :
    statement.Obeys Rule.statement.conduct none fun _ _ => True := by
  simp only [statement, obeys_bind, obeys_look, Rule.conduct, plainly, conduct_look,
    Symbol.fits_none, true_imp_iff]
  intro symbol
  unfold simpleStatement
  -- Each way to begin a statement makes its own nodes, and reports only what it has just looked at.
  split <;> rename_i found <;>
    simp [found, block, whileLoop, loopBody, forLoop, countingRest, furtherClauses, memberRest,
      member, memberStep, jump, jumpValue, jumpNode, pragma, inclusion, expressionStatement,
      require, expect, Rule.IsPlain, NodeKind.IsPlain, NodeKind.isInfix, Mistake.TellsOf]

/-- What follows a block on a condition makes no node of two operands by itself. -/
theorem obeys_alternative :
    alternative.Obeys (conduct NodeKind.IsPlain Rule.IsPlain) none fun _ _ => True := by
  simp only [alternative, obeys_bind, obeys_accept, obeys_ite, obeys_look, conduct_look,
    conduct_bump]
  refine fun symbol _ => ⟨fun _ => ⟨fun _ next _ => ?_, by simp⟩, by simp⟩
  split <;>
    simp [block, require, expect, Rule.IsPlain, NodeKind.IsPlain, NodeKind.isInfix, Mistake.TellsOf]

/-- A choice makes no node of two operands by itself, and notes mistakes where they are made. -/
theorem obeys_conditional :
    conditional.Obeys Rule.conditional.conduct none fun _ _ => True := by
  simp [Rule.conduct, conditional, conditionalBody, expressionStatement, require, expect,
    obeys_alternative, plainly, Rule.IsPlain, NodeKind.IsPlain, NodeKind.isInfix, Mistake.TellsOf]

/-- A declaration makes no node of two operands by itself, and notes mistakes where they are made. -/
theorem obeys_declaration :
    declaration.Obeys Rule.declaration.conduct none fun _ _ => True := by
  simp [Rule.conduct, declaration, qualifier, typedDeclaration, declarator, functionRest,
    functionBody, parameterList, variableRest, variableEnd, nameList, nameless, arrayRest, arraySize,
    arrayValues, block, expressionStatement, require, expect, skip, plainly, Rule.IsPlain,
    NodeKind.IsPlain, NodeKind.isInfix, Mistake.TellsOf]
  -- A qualifier is the only thing that is warned of.
  exact fun symbol word => obeys_warnOfQualifier word (by simp)

/-- Every rule keeps to its discipline, whatever was seen before it. -/
theorem obeys_conduct (rule : Rule) : rule.body.Obeys rule.conduct none fun _ _ => True := by
  cases rule with
  | operators operand power => exact obeys_operators operand power
  | expression power => exact obeys_expression power
  | declaration => exact obeys_declaration
  | statement => exact obeys_statement
  | conditional => exact obeys_conditional
  | parameters =>
    simp [Rule.body, Rule.conduct, parameters, parameter, declarator, functionRest, functionBody,
      parameterList, variableRest, variableEnd, nameless, arrayRest, arraySize, arrayValues, block,
      expressionStatement, require, expect, skip, plainly, Rule.IsPlain, NodeKind.IsPlain,
      NodeKind.isInfix, Mistake.TellsOf]
  | _ =>
    -- The other rules are small enough to be followed step by step.
    simp [Rule.body, Rule.conduct, program, blockItems, furtherNames, furtherName, initialValue,
      arrayItems, arrayItem, arguments, argument, statementEnds, lineEnds, pathParts, recovery,
      expressionStatement, require, expect, skip, plainly, Rule.IsPlain, NodeKind.IsPlain,
      NodeKind.isInfix, Mistake.TellsOf]

end Dxl.Grammar

namespace Dxl

namespace Growth

variable {growth after : Growth} {seen : Option Symbol}

/-- What was seen is still the next token, with no trivia before it. -/
def Sees (growth : Growth) (seen : Option Symbol) : Prop :=
  ∀ symbol, seen = some symbol → ∃ token rest, growth.rest = token :: rest
    ∧ token.kind.isTrivia = false ∧ token.symbol = symbol

/-- Nothing need be seen. -/
theorem sees_none (growth : Growth) : growth.Sees none := by
  rintro _ ⟨⟩

/-- A new frame makes no difference to what was seen. -/
theorem Sees.enter (sees : growth.Sees seen) : growth.enter.Sees seen :=
  sees

/-- What was seen is what comes next after any trivia. -/
theorem Sees.fits (sees : growth.Sees seen) {token : Token} {rest : List Token}
    (found : growth.eatTrivia.rest = token :: rest) : token.symbol.Fits seen := by
  rintro known rfl
  obtain ⟨first, others, left, proper, same⟩ := sees known rfl
  -- There is no trivia before the token that was seen.
  rw [rest_eatTrivia, left, List.dropWhile_cons_of_neg (by simp [proper]), List.cons.injEq] at found
  rw [← found.1, same]

/-- A look sees what was seen before, as far as anything was. -/
theorem Sees.look {limit : Option Nat} {symbol : Symbol} (sees : growth.Sees seen)
    (looked : growth.look limit = .ok (symbol, after)) :
    symbol.Fits seen ∧ after.Sees (some symbol) := by
  obtain ⟨token, rest, found, -, rfl, rfl⟩ := exists_of_look looked
  refine ⟨sees.fits found, ?_⟩
  -- The trivia before the token was passed over, so it comes next at once.
  rintro _ ⟨⟩
  exact ⟨token, rest, found, (next_eq found).2, rfl⟩

/-- Every tree in the frame has a property. -/
def Each (growth : Growth) (property : Tree → Prop) : Prop :=
  ∀ tree ∈ growth.siblings, property tree

namespace Each

variable {property : Tree → Prop}

/-- A property is not lost when trees are added that have it. -/
theorem adds (each : growth.Each property) (adds : growth.Adds after property) :
    after.Each property := by
  obtain ⟨added, siblings, fresh⟩ := adds
  intro tree member
  rw [siblings] at member
  rcases List.mem_append.mp member with new | earlier
  · exact fresh tree new
  · exact each tree earlier

/-- A property of leaves is a property of trivia. -/
theorem of_isTrivia (leaf : ∀ kind text, property (.leaf (.token kind) text)) {tree : Tree}
    (trivia : tree.isTrivia = true) : property tree := by
  -- Only a leaf with the kind of a token is trivia.
  rcases tree with ⟨kind | kind, text⟩ | ⟨kind, children⟩
  · exact leaf kind text
  · cases trivia
  · cases trivia

/-- A look adds only leaves. -/
theorem look (each : growth.Each property) (leaf : ∀ kind text, property (.leaf (.token kind) text))
    {limit : Option Nat} {symbol : Symbol} (looked : growth.look limit = .ok (symbol, after)) :
    after.Each property := by
  obtain ⟨-, -, trivia, siblings, passed⟩ := look_ok looked
  exact each.adds ⟨trivia, siblings, fun tree member => of_isTrivia leaf (passed tree member)⟩

/-- Reading a token adds only leaves. -/
theorem bump (each : growth.Each property) (leaf : ∀ kind text, property (.leaf (.token kind) text))
    (bumped : growth.bump = .ok after) : after.Each property := by
  obtain ⟨token, trivia, -, -, siblings, passed⟩ := bump_ok bumped
  refine each.adds ⟨token.leaf :: trivia, siblings, fun tree member => ?_⟩
  rcases List.mem_cons.mp member with rfl | earlier
  · exact leaf _ _
  · exact of_isTrivia leaf (passed tree earlier)

/-- Trees of an inner frame join those of the outer one. -/
theorem leave {outer inner : Growth} (each : outer.Each property) (within : inner.Each property) :
    (outer.leave inner).Each property :=
  each.adds ⟨inner.siblings, rfl, within⟩

/-- A closed node is the only tree in its frame. -/
theorem close {kind : NodeKind} {inner : Growth}
    (holds : property (.node (.node kind) inner.siblings.reverse)) :
    (inner.close kind).Each property := by
  intro tree member
  rw [Growth.close, List.mem_singleton] at member
  exact member ▸ holds

end Each

end Growth

open Growth in
/-- A discipline on what is made steers every property of leaves, and of nodes whose children have it, if rules keep it that are called. -/
theorem steers_each {call : Rule → Growth → Except Failure Growth} {limit : Option Nat}
    {makes : NodeKind → Prop} {calls : Rule → Prop} {property : Tree → Prop}
    (leaf : ∀ kind text, property (.leaf (.token kind) text))
    (node : ∀ kind children, makes kind → (∀ child ∈ children, property child) →
      property (.node (.node kind) children))
    (called : ∀ rule growth after, calls rule → call rule growth = .ok after →
      growth.Each property → after.Each property) :
    (conduct makes calls).Steers call limit (fun seen growth => growth.Sees seen)
      fun _ growth _ after => growth.Each property → after.Each property where
  stay _ _ each := each
  further first second each := second (first each)
  begin sees := sees.enter
  enter sees := sees
  look sees obeys looked := by
    obtain ⟨fits, seesAfter⟩ := sees.look looked
    exact ⟨_, obeys _ fits, seesAfter, fun each => each.look leaf looked⟩
  bump _ obeys bumped := ⟨_, obeys, sees_none _, fun each => each.bump leaf bumped⟩
  report sees obeys := ⟨_, obeys.2, sees, fun each => each⟩
  node {_ _ _ _ inner _} sees within obeys := by
    obtain ⟨made, holds⟩ := obeys
    -- All that the node holds was made in a new frame.
    have inside : inner.Each property := within nofun
    refine ⟨_, holds, sees, fun each => each.leave (.close (node _ _ made ?_))⟩
    exact fun child member => inside child (List.mem_reverse.mp member)
  frame sees within := ⟨sees, fun each => each.leave (within nofun)⟩
  wrap {_ _ _ _ inner _} _ sees within obeys := by
    obtain ⟨made, holds⟩ := obeys
    have inside : inner.Each property := within nofun
    -- The node takes in what was in the frame before.
    refine ⟨_, holds, sees, fun each => .close (node _ _ made ?_)⟩
    exact fun child member => each.leave inside child (List.mem_reverse.mp member)
  progress obeys sees each := ⟨_, obeys _, sees, each⟩
  call _ obeys ended := ⟨_, obeys.2, sees_none _, called _ _ _ obeys.1 ended⟩

/-- A property of leaves, and of nodes whose children have it, is a property of all that a parser grows if it is one of all that the rules grow which it calls. -/
theorem Parser.grow_each {call : Rule → Growth → Except Failure Growth} {limit : Option Nat}
    {makes : NodeKind → Prop} {calls : Rule → Prop} {property : Tree → Prop}
    (leaf : ∀ kind text, property (.leaf (.token kind) text))
    (node : ∀ kind children, makes kind → (∀ child ∈ children, property child) →
      property (.node (.node kind) children))
    (called : ∀ rule growth after, calls rule → call rule growth = .ok after →
      growth.Each property → after.Each property)
    {α : Type} {parser : Parser α} {seen : Option Symbol} {post : α → Option Symbol → Prop}
    (obeys : parser.Obeys (conduct makes calls) seen post) {growth after : Growth} {value : α}
    (sees : growth.Sees seen) (each : growth.Each property)
    (grown : parser.grow call limit growth = .ok (value, after)) :
    after.Each property ∧ ∃ known, post value known ∧ after.Sees known := by
  obtain ⟨known, holds, seesAfter, kept⟩ :=
    grow_course (steers_each leaf node called) obeys sees grown
  exact ⟨kept each, known, holds, seesAfter⟩

end Dxl
