import Dxl.Proofs.Grammar.Care
import Dxl.Proofs.Grammar.Precedence

/-! Careful rules: every rule of the grammar but the one for qualifiers, which has a warning of its own, passes over tokens only after an error. -/

namespace Dxl

/-- The number of operands that an operator has to have in its node. -/
def NodeKind.operandCount : NodeKind → Nat
  | .prefixed => 1
  | .arrow | .assignment | .binary | .comparison | .equality | .logical | .shift | .property
  | .index | .concat => 2
  | .ternary => 3
  | _ => 0

/-- Nodes that need no operands. -/
def NodeKind.IsSimple (kind : NodeKind) : Prop :=
  kind.operandCount = 0

/-- Nodes that need no operands and do not go with a remark. -/
def NodeKind.isOrdinary (kind : NodeKind) : Bool :=
  kind.operandCount == 0 && kind != .ignored && kind != .skipped

/-- Rules that read neither operands, nor qualifiers, nor tokens that are passed over. -/
def Rule.isStatement : Rule → Bool
  | .declaration | .expression _ | .operators _ _ | .recovery => false
  | _ => true

/-- A token is of use if it is of one of several kinds that are. -/
theorem TokenKind.isForeign_of_contains {kind : TokenKind} {kinds : List TokenKind}
    (found : kinds.contains kind = true) (useful : kinds.all (!·.isForeign) = true) :
    kind.isForeign = false := by
  have member := List.all_eq_true.mp useful kind (List.contains_iff_mem.mp found)
  simpa using member

/-- A token is of use if it is of a kind that is. -/
theorem TokenKind.isForeign_of_beq {kind wanted : TokenKind} (same : (kind == wanted) = true)
    (useful : wanted.isForeign = false) : kind.isForeign = false := by
  rwa [beq_iff_eq.mp same]

/-- What begins an operand is of use. -/
theorem TokenKind.isForeign_of_operandStart {kind : TokenKind} (begins : kind.operandStart ≠ .nothing) :
    kind.isForeign = false := by
  -- Every token that is of no use begins nothing, whichever group it belongs to.
  unfold operandStart at begins
  cases kind with
  | sign mark => cases mark <;> first | rfl | simp [isPrefixOperator] at begins
  | keyword word => cases word <;> first | rfl | simp [isPrefixOperator] at begins
  | _ => first | rfl | simp [isPrefixOperator] at begins

/-- What goes on with an operand is of use. -/
theorem TokenKind.isForeign_of_continuation {kind : TokenKind} {operand : NodeKind}
    (goesOn : kind.continuation operand ≠ .stop) : kind.isForeign = false := by
  -- A token that is of no use is neither an argument nor an operator.
  unfold continuation at goesOn
  cases kind with
  | sign mark => cases mark <;> first | rfl | simp [startsArgument, infixPower?] at goesOn
  | keyword word => cases word <;> first | rfl | simp [startsArgument, infixPower?] at goesOn
  | _ => first | rfl | simp [startsArgument, infixPower?] at goesOn

/-- A token that is an operand by itself makes an ordinary node. -/
theorem TokenKind.isOrdinary_atom {kind : TokenKind} {made : NodeKind}
    (starts : kind.operandStart = .atom made) : made.isOrdinary = true := by
  rcases eq_of_atom starts with rfl | rfl | rfl <;> rfl

end Dxl

namespace Dxl.Grammar

open Dxl.Parser

section

variable {makes : NodeKind → Prop} {calls : Rule → Prop} {symbol : Symbol}
  (simple : ∀ kind : NodeKind, kind.IsSimple → makes kind) (plain : ∀ rule : Rule, rule.IsPlain → calls rule)

include simple in
/-- An ordinary node may be made where nothing is passed over. -/
theorem isProper_of_isOrdinary (kind : NodeKind) (ordinary : kind.isOrdinary = true) :
    kind.IsProper makes := by
  simp only [NodeKind.isOrdinary, Bool.and_eq_true, beq_iff_eq, bne_iff_ne] at ordinary
  obtain ⟨⟨isSimple, unmarked⟩, kept⟩ := ordinary
  exact ⟨simple kind isSimple, unmarked, kept⟩

include plain in
/-- Rules other than operators and the one that passes over tokens are called with care. -/
theorem careful_rule (rule : Rule) (isPlain : rule.IsPlain) (calm : rule.phase = .calm) :
    (call rule).Careful makes calls fun _ => True :=
  careful_call (plain rule isPlain) calm

include simple plain

/-- An expression in the place of a statement is read with care. -/
theorem careful_expressionStatement : expressionStatement.Careful makes calls fun _ => True :=
  careful_nodeOf (isProper_of_isOrdinary simple .exprStmt rfl) (careful_rule plain (.expression 0) trivial rfl)

/-- A block is read with care. -/
theorem careful_block : block.Careful makes calls fun _ => True := by
  refine careful_nodeOf (isProper_of_isOrdinary simple .block rfl) ?_
  refine (careful_require rfl).bind fun _ _ => ?_
  exact (careful_rule plain .blockItems trivial rfl).bind fun _ _ => careful_require rfl

/-- Parameters are read with care. -/
theorem careful_parameterList : parameterList.Careful makes calls fun _ => True := by
  -- Without an opening parenthesis nothing more is read.
  refine (careful_expect rfl).bind fun _ _ => careful_when (careful_unless ?_)
  exact careful_nodeOf (isProper_of_isOrdinary simple .paramList rfl)
    (careful_rule plain .parameters trivial rfl)

/-- What follows the name of a function is read with care. -/
theorem careful_functionRest : functionRest.Careful makes calls fun kind => kind.IsProper makes := by
  refine (careful_parameterList simple plain).bind fun _ _ => ?_
  refine (careful_require rfl).bind fun _ _ => ?_
  have body : functionBody.Careful makes calls fun _ => True :=
    careful_if fun _ _ _ => (careful_block simple plain).at
  exact body.bind fun _ _ => careful_pure (isProper_of_isOrdinary simple _ rfl)

/-- A value given to a name is read with care. -/
theorem careful_initialValue : initialValue.Careful makes calls fun _ => True :=
  (careful_accept rfl).bind fun _ _ =>
    careful_when (careful_expressionStatement simple plain)

omit plain in
/-- A node of the next token alone is made with care if the token is of the kind that was asked for. -/
theorem carefulAt_bumpAs_of_beq {kind : NodeKind} {wanted : TokenKind}
    (ordinary : kind.isOrdinary = true) (useful : wanted.isForeign = false) (same : (symbol.kind == wanted) = true) :
    (bumpAs kind).CarefulAt makes calls symbol fun _ => True :=
  carefulAt_bumpAs (isProper_of_isOrdinary simple kind ordinary)
    (TokenKind.isForeign_of_beq same useful)

/-- Further names are read with care. -/
theorem careful_furtherNames : furtherNames.Careful makes calls fun _ => True := by
  refine (careful_accept rfl).bind fun _ _ => careful_when ?_
  have name : furtherName.Careful makes calls fun _ => True :=
    careful_if fun _ _ same => carefulAt_bumpAs_of_beq simple rfl rfl same
  refine name.bind fun _ _ => ?_
  exact (careful_initialValue simple plain).bind fun _ _ => careful_rule plain .furtherNames trivial rfl

/-- The end of a declared variable is read with care. -/
theorem careful_variableEnd (several : Bool) :
    (variableEnd several).Careful makes calls fun kind => kind.IsProper makes := by
  have proper : NodeKind.varDecl.IsProper makes := isProper_of_isOrdinary simple _ rfl
  refine careful_ite ?_ (careful_pure proper)
  have names : nameList.Careful makes calls fun _ => True :=
    -- More names make one node around the first of them.
    careful_if fun _ _ _ => (careful_wrapIn (isProper_of_isOrdinary simple .nameList rfl)
      (careful_rule plain .furtherNames trivial rfl)).at
  exact names.bind fun _ _ => careful_pure proper

/-- The size and the items of an array are read with care. -/
theorem careful_arrayRest : arrayRest.Careful makes calls fun kind => kind.IsProper makes := by
  -- The size is left out, or it is an expression before a closing bracket.
  have size : arraySize.Careful makes calls fun _ => True :=
    (careful_accept rfl).bind fun _ _ => careful_ite (careful_pure trivial)
      ((careful_expressionStatement simple plain).bind fun _ _ => careful_require rfl)
  have items : (nodeOf .argList (call .arrayItems)).Careful makes calls fun _ => True :=
    careful_nodeOf (isProper_of_isOrdinary simple .argList rfl) (careful_rule plain .arrayItems trivial rfl)
  -- The values stand between braces after a sign.
  have values : arrayValues.Careful makes calls fun _ => True := by
    refine (careful_accept rfl).bind fun _ _ => careful_when ?_
    refine (careful_expect rfl).bind fun _ _ => careful_when ?_
    exact items.bind fun _ _ => careful_require rfl
  exact size.bind fun _ _ => values.bind fun _ _ =>
    careful_pure (isProper_of_isOrdinary simple _ rfl)

/-- What follows the name of a variable is read with care. -/
theorem careful_variableRest (several : Bool) :
    (variableRest several).Careful makes calls fun kind => kind.IsProper makes := by
  have ending := careful_variableEnd simple plain several
  refine (careful_accept rfl).bind fun _ _ => careful_ite ?_ ?_
  · exact (careful_expressionStatement simple plain).bind fun _ _ => ending
  · exact (careful_accept rfl).bind fun _ _ => careful_ite (careful_arrayRest simple plain) ending

omit simple in
/-- A missing name is noted, and what stands in its place is passed over. -/
theorem recoversAt_nameless : nameless.RecoversAt makes calls symbol := by
  intro post _ missed found fits _
  exact ⟨rfl, rfl, ⟨found, rfl, rfl⟩, plain .recovery trivial, rfl, missed _ rfl⟩

/-- A declared name and all that follows it are read with care. -/
theorem carefulAt_declarator (several : Bool) (same : (symbol.kind == .name) = true) :
    (declarator several).CarefulAt makes calls symbol fun kind => kind.IsProper makes := by
  refine CarefulAt.frame ((carefulAt_bumpAs_of_beq simple rfl rfl same).bind fun _ _ => ?_)
  exact careful_choice (fun _ _ _ => (careful_functionRest simple plain).at)
    fun _ _ _ => (careful_variableRest simple plain several).at

/-- A declaration with a type is read with care, and a missing name goes with an error. -/
theorem carefulAt_typedDeclaration (useful : symbol.kind.isForeign = false) :
    typedDeclaration.CarefulAt makes calls symbol fun _ => True := by
  refine RecoversAt.node (simple _ rfl) ?_
  refine (carefulAt_bumpAs (isProper_of_isOrdinary simple _ rfl) useful).recovers fun _ _ => ?_
  -- The name decides whether there is a declaration or something to be passed over.
  refine (careful_skip rfl).recovers fun _ _ => recovers_choice (fun _ _ same => ?_) fun _ _ _ => ?_
  · exact (carefulAt_declarator simple plain true same).recoversAt
  · exact recoversAt_nameless plain

/-- A parameter is read with care, and a missing name goes with an error. -/
theorem careful_parameter : parameter.Careful makes calls fun _ => True := by
  refine careful_node_of_recovers (simple _ rfl) ?_
  refine recovers_choice (fun symbol sane names => ?_) fun symbol _ _ => ?_
  · -- A type is of use, and may be followed by a name.
    refine (carefulAt_bumpAs (isProper_of_isOrdinary simple _ rfl) (sane names)).recovers
      fun _ _ => ?_
    refine (careful_skip rfl).recovers fun _ _ => recovers_choice (fun _ _ same => ?_) fun _ _ _ => ?_
    · exact (carefulAt_declarator simple plain false same).recoversAt
    · exact (careful_pure (isProper_of_isOrdinary simple _ rfl)).at.recoversAt
  · -- Without a type there has to be a name.
    refine (careful_skip rfl).at.recovers fun _ _ => recovers_choice (fun _ _ same => ?_) fun _ _ _ => ?_
    · refine CarefulAt.recoversAt ?_
      refine (carefulAt_bumpAs_of_beq simple rfl rfl same).bind fun _ _ => ?_
      exact careful_variableRest simple plain false
    · exact recoversAt_nameless plain

/-- Parameters are read with care. -/
theorem careful_parameters : parameters.Careful makes calls fun _ => True := by
  have one : (nodeOf .param do
      if ← nextIsOneOf [.sign .comma, .sign .rightParen] then pure ()
      else let _ ← parameter).Careful makes calls fun _ => True := by
    -- A parameter may be empty before a comma or the closing parenthesis.
    refine careful_nodeOf (isProper_of_isOrdinary simple _ rfl) ?_
    exact careful_unless ((careful_parameter simple plain).bind fun _ _ => careful_pure trivial)
  refine one.bind fun _ _ => (careful_accept rfl).bind fun _ _ => ?_
  exact careful_when (careful_rule plain .parameters trivial rfl)

/-- The items of an array are read with care. -/
theorem careful_arrayItems : arrayItems.Careful makes calls fun _ => True := by
  have item : arrayItem.Careful makes calls fun _ => True := by
    -- The first item is a type or a value, perhaps with a mark.
    refine careful_choice (fun _ sane names => carefulAt_bump (sane names)) fun _ _ _ => ?_
    exact ((careful_skip rfl).bind fun _ _ => careful_expressionStatement simple plain).at
  refine careful_unless ?_
  refine careful_unless ?_
  refine item.bind fun _ _ => (careful_accept rfl).bind fun _ _ => ?_
  exact careful_when (careful_rule plain .arrayItems trivial rfl)

omit plain in
/-- A directive is read with care. -/
theorem careful_pragma : pragma.Careful makes calls fun _ => True := by
  refine careful_nodeOf (isProper_of_isOrdinary simple _ rfl) ?_
  -- Each part of the directive is only read if the one before it was there.
  refine (careful_require rfl).bind fun _ _ => ?_
  refine (careful_expect rfl).bind fun _ _ => careful_when ?_
  refine (careful_expect rfl).bind fun _ _ => careful_when ?_
  exact careful_if fun symbol _ value => carefulAt_bump (TokenKind.isForeign_of_contains value rfl)

/-- An inclusion is read with care. -/
theorem careful_inclusion : inclusion.Careful makes calls fun _ => True := by
  refine careful_nodeOf (isProper_of_isOrdinary simple _ rfl) ?_
  refine (careful_require rfl).bind fun _ _ => (careful_accept rfl).bind fun _ _ => ?_
  refine careful_ite ?_ (careful_require rfl)
  exact (careful_rule plain .pathParts trivial rfl).bind fun _ _ => careful_require rfl

omit simple in
/-- The parts of a path are read with care. -/
theorem careful_pathParts : pathParts.Careful makes calls fun _ => True := by
  refine careful_unless ?_
  refine careful_unless ?_
  -- A part of a path is one of a few tokens, all of which are of use.
  refine careful_if fun symbol _ part => ?_
  refine (carefulAt_bump (TokenKind.isForeign_of_contains part rfl)).bind fun _ _ => ?_
  exact careful_rule plain .pathParts trivial rfl

/-- A jump is read with care. -/
theorem carefulAt_jump (useful : symbol.kind.isForeign = false) :
    jump.CarefulAt makes calls symbol fun _ => True := by
  have value (keyword : TokenKind) : (jumpValue keyword).Careful makes calls fun _ => True := by
    -- A value follows only if neither the statement, nor the block, nor the text ends there.
    refine careful_when ?_
    refine careful_unless ?_
    refine careful_unless ?_
    refine careful_unless ?_
    exact careful_expressionStatement simple plain
  refine CarefulAt.node (carefulAt_look ?_)
  refine (carefulAt_bump useful).bind fun _ _ => (value _).bind fun _ _ => careful_pure ?_
  -- Each keyword makes an ordinary node.
  refine isProper_of_isOrdinary simple _ ?_
  unfold jumpNode
  split <;> rfl

/-- What follows a block on a condition is read with care. -/
theorem careful_alternative : alternative.Careful makes calls fun _ => True := by
  refine (careful_accept rfl).bind fun _ _ => careful_when ?_
  -- Another choice, a block and any other statement can follow.
  refine careful_look fun symbol _ => ?_
  split
  · exact (careful_rule plain .conditional trivial rfl).at
  · exact (careful_block simple plain).at
  · exact (careful_rule plain .statement trivial rfl).at

/-- What follows a condition between parentheses is read with care. -/
theorem careful_conditionalBody : conditionalBody.Careful makes calls fun _ => True := by
  have statement : (call .statement).Careful makes calls fun _ => True :=
    careful_rule plain .statement trivial rfl
  refine (careful_rule plain .lineEnds trivial rfl).bind fun _ _ => ?_
  -- A block and any other body go on differently.
  refine careful_choice (fun _ _ _ => Careful.at ?_) fun _ _ _ => Careful.at ?_
  · exact statement.bind fun _ _ => careful_alternative simple plain
  · refine (careful_accept rfl).bind fun _ _ => ?_
    refine careful_ite (careful_expressionStatement simple plain) (statement.bind fun _ _ => ?_)
    exact (careful_accept rfl).bind fun _ _ => careful_when statement

/-- A choice is read with care. -/
theorem careful_conditional : conditional.Careful makes calls fun _ => True := by
  have condition := careful_expressionStatement simple plain
  refine careful_nodeOf (isProper_of_isOrdinary simple _ rfl) ?_
  refine (careful_require rfl).bind fun _ _ => (careful_accept rfl).bind fun _ _ => ?_
  -- With parentheses the branches follow, and without them only one expression can.
  refine careful_ite (condition.bind fun _ _ => ?_) (condition.bind fun _ _ => ?_)
  · exact (careful_expect rfl).bind fun _ _ =>
      careful_when (careful_conditionalBody simple plain)
  · exact (careful_accept rfl).bind fun _ _ => careful_when condition

/-- The body of a loop is read with care. -/
theorem careful_loopBody : loopBody.Careful makes calls fun _ => True :=
  careful_choice (fun _ _ _ => (careful_block simple plain).at)
    fun _ _ _ => (careful_rule plain .statement trivial rfl).at

/-- A loop with a condition is read with care. -/
theorem careful_whileLoop : whileLoop.Careful makes calls fun _ => True := by
  refine careful_nodeOf (isProper_of_isOrdinary simple _ rfl) ?_
  refine (careful_require rfl).bind fun _ _ => (careful_expect rfl).bind fun _ _ => ?_
  refine careful_when ((careful_expressionStatement simple plain).bind fun _ _ => ?_)
  exact (careful_expect rfl).bind fun _ _ =>
    careful_when (careful_loopBody simple plain)

/-- The rest of a counting loop is read with care. -/
theorem careful_countingRest : countingRest.Careful makes calls fun _ => True := by
  have clause := careful_expressionStatement simple plain
  have further : furtherClauses.Careful makes calls fun _ => True := by
    refine (careful_accept rfl).bind fun _ _ => careful_when ?_
    refine clause.bind fun _ _ => (careful_accept rfl).bind fun _ _ => ?_
    exact careful_when clause
  refine clause.bind fun _ _ => further.bind fun _ _ => (careful_expect rfl).bind fun _ _ => ?_
  exact careful_when (careful_loopBody simple plain)

/-- The rest of a loop over members is read with care. -/
theorem careful_memberRest : memberRest.Careful makes calls fun _ => True := by
  have value := careful_expressionStatement simple plain
  -- The item and the step end in a statement that may be missing.
  have item : member.Careful makes calls fun _ => True := by
    refine careful_if fun _ _ _ => Careful.at ?_
    exact value.bind fun _ _ => (careful_expect rfl).bind fun _ _ =>
      careful_when value
  have step : memberStep.Careful makes calls fun _ => True :=
    (careful_accept rfl).bind fun _ _ => careful_when value
  refine item.bind fun _ _ => step.bind fun _ _ => (careful_require rfl).bind fun _ _ => ?_
  exact careful_rule plain .declaration trivial rfl

/-- A loop of either form is read with care. -/
theorem careful_forLoop : forLoop.Careful makes calls fun _ => True := by
  refine careful_node ((careful_require rfl).bind fun _ _ => (careful_accept rfl).bind fun _ _ => ?_)
  refine careful_ite ?_ ?_
  · exact (careful_countingRest simple plain).bind fun _ _ =>
      careful_pure (isProper_of_isOrdinary simple _ rfl)
  · exact (careful_memberRest simple plain).bind fun _ _ =>
      careful_pure (isProper_of_isOrdinary simple _ rfl)

/-- A statement is read with care, whatever it begins with. -/
theorem careful_statement : statement.Careful makes calls fun _ => True := by
  refine careful_look fun symbol _ => ?_
  -- Whatever the statement is, its ends follow it.
  suffices simple : (simpleStatement symbol.kind).CarefulAt makes calls symbol fun _ => True from
    simple.bind fun _ _ => careful_rule plain .statementEnds trivial rfl
  unfold simpleStatement
  split
  case h_1 => exact (careful_block simple plain).at
  case h_2 => exact (careful_rule plain .conditional trivial rfl).at
  case h_3 => exact (careful_whileLoop simple plain).at
  case h_4 => exact ((careful_forLoop simple plain).bind fun _ _ => careful_pure trivial).at
  case h_8 => exact (careful_pragma simple).at
  case h_9 => exact (careful_inclusion simple plain).at
  case h_10 => exact (careful_expressionStatement simple plain).at
  -- The three jumps are left, whose keywords are of use.
  all_goals
    rename_i same
    refine (carefulAt_jump simple plain ?_).bind fun _ _ => careful_pure trivial
    rw [same]
    rfl

omit simple in
/-- What ends statements is read with care. -/
theorem careful_statementEnds : statementEnds.Careful makes calls fun _ => True := by
  refine careful_if fun symbol _ ends => ?_
  refine (carefulAt_bump (TokenKind.isForeign_of_endsStatement ends)).bind fun _ _ => ?_
  exact careful_rule plain .statementEnds trivial rfl

omit simple in
/-- What ends lines is read with care. -/
theorem careful_lineEnds : lineEnds.Careful makes calls fun _ => True :=
  (careful_accept rfl).bind fun _ _ => careful_when (careful_rule plain .lineEnds trivial rfl)

omit simple in
/-- A declaration and what comes after it are read with care, and so is what ends a statement. -/
theorem careful_items {rule : Rule} (isPlain : rule.IsPlain) (calm : rule.phase = .calm) :
    (do
      if ← atStatementEnd then
        bump
        call rule
      else
        call .declaration
        call rule : Parser Unit).Careful makes calls fun _ => True := by
  have further : (call rule).Careful makes calls fun _ => True :=
    careful_rule plain rule isPlain calm
  -- Items are ends of statements or declarations, after which the same rule goes on.
  refine careful_choice (fun symbol _ ends => ?_) fun _ _ _ => Careful.at ?_
  · refine (carefulAt_bump (TokenKind.isForeign_of_endsStatement ends)).bind fun _ _ => further
  · exact (careful_rule plain .declaration trivial rfl).bind fun _ _ => further

omit simple in
/-- What stands in a block is read with care. -/
theorem careful_blockItems : blockItems.Careful makes calls fun _ => True :=
  careful_unless (careful_unless (careful_items plain trivial rfl))

omit simple in
/-- A program is read with care. -/
theorem careful_program : program.Careful makes calls fun _ => True :=
  careful_unless (careful_items plain trivial rfl)

/-- What follows the qualifiers of a declaration is read with care. -/
theorem careful_qualified :
    (do
      if ← atType then
        let _ ← typedDeclaration
      else
        call .statement
        call .statementEnds : Parser Unit).Careful makes calls fun _ => True := by
  -- A type begins a declaration, and anything else a statement with its ends.
  refine careful_choice (fun symbol sane names => ?_) fun _ _ _ => Careful.at ?_
  · exact (carefulAt_typedDeclaration simple plain (sane names)).bind fun _ _ => careful_pure trivial
  · exact (careful_rule plain .statement trivial rfl).bind fun _ _ =>
      careful_rule plain .statementEnds trivial rfl

/-- The arguments of a call are read with care. -/
theorem careful_arguments : arguments.Careful makes calls fun _ => True := by
  have one : argument.Careful makes calls fun _ => True := by
    refine careful_nodeOf (isProper_of_isOrdinary simple _ rfl) ?_
    refine (careful_expressionStatement simple plain).bind fun _ _ => ?_
    exact careful_unless (careful_require rfl)
  -- A next argument is looked for only after some progress.
  refine careful_unless (careful_unless ((careful_progress one).bind fun _ _ => ?_))
  exact careful_when (careful_rule plain .arguments trivial rfl)

/-- The arguments between parentheses, or the single one without them, are read with care. -/
theorem careful_argumentList : argumentList.Careful makes calls fun _ => True := by
  refine careful_nodeOf (isProper_of_isOrdinary simple _ rfl) ?_
  refine (careful_accept rfl).bind fun _ _ => careful_ite ?_ ?_
  · exact (careful_rule plain .arguments trivial rfl).bind fun _ _ => careful_require rfl
  · exact careful_nodeOf (isProper_of_isOrdinary simple _ rfl)
      (careful_expressionStatement simple plain)

/-- A group or a cast is read with care. -/
theorem careful_group :
    group.Careful makes calls fun kind => kind = .cast ∨ kind = .grouping := by
  have type : acceptType.Careful makes calls fun _ => True := by
    refine careful_choice (fun symbol sane names => ?_) fun _ _ _ => (careful_pure trivial).at
    exact (carefulAt_bumpAs (isProper_of_isOrdinary simple _ rfl) (sane names)).bind fun _ _ =>
      careful_pure trivial
  -- Both kinds of groups are ordinary nodes.
  refine careful_node_of ?_ ((careful_require rfl).bind fun _ _ => type.bind fun isCast _ => ?_)
  · rintro _ (rfl | rfl) <;> exact isProper_of_isOrdinary simple _ rfl
  · refine (careful_rule plain (.expression 0) trivial rfl).bind fun _ _ => ?_
    refine (careful_require rfl).bind fun _ _ => careful_pure ?_
    cases isCast
    · exact .inr rfl
    · exact .inl rfl

/-- A call or a cast of an operand is read with care. -/
theorem careful_application :
    application.Careful makes calls fun kind => kind = .cast ∨ kind = .call := by
  refine careful_wrap_of ?_ (careful_choice (fun symbol sane names => ?_) fun _ _ _ => Careful.at ?_)
  · rintro _ (rfl | rfl) <;> exact isProper_of_isOrdinary simple _ rfl
  · exact (carefulAt_bumpAs (isProper_of_isOrdinary simple _ rfl) (sane names)).bind fun _ _ =>
      careful_pure (.inl rfl)
  · exact (careful_argumentList simple plain).bind fun _ _ => careful_pure (.inr rfl)

end

/-- Every node may be made and every rule may be called. -/
abbrev CarefulAnywhere {α : Type} (parser : Parser α) : Prop :=
  parser.Careful (fun _ => True) (fun _ => True) fun _ => True

/-- The operators after an operand are called with care. -/
theorem careful_operators_call (operand : NodeKind) (power : Nat) :
    CarefulAnywhere (call (.operators operand power)) :=
  careful_call trivial rfl

/-- An operand is called with care. -/
theorem careful_expression_call (power : Nat) : CarefulAnywhere (call (.expression power)) :=
  careful_call trivial rfl

/-- An operator and its right operand are read with care after a look at an operator of use. -/
theorem carefulAt_rightOperand {symbol : Symbol} (useful : symbol.kind.isForeign = false)
    (power : Nat) {kind : NodeKind} (unmarked : kind ≠ .ignored) (kept : kind ≠ .skipped) :
    (rightOperand power kind).CarefulAt (fun _ => True) (fun _ => True) symbol fun _ => True :=
  CarefulAt.wrapIn ⟨trivial, unmarked, kept⟩
    ((carefulAt_bump useful).bind fun _ _ => careful_expression_call power)

/-- A joined operand is read with care. -/
theorem careful_adjoined (power : Nat) : CarefulAnywhere (adjoined power) :=
  careful_wrapIn ⟨trivial, nofun, nofun⟩ (careful_expression_call power)

/-- A binary operator and what it takes are read with care. -/
theorem carefulAt_infixed {symbol : Symbol} {operand : NodeKind} {power right : Nat}
    {form : InfixForm} (useful : symbol.kind.isForeign = false)
    (forms : symbol.kind.infixForm? = some form) :
    (infixed operand power right form).CarefulAt (fun _ => True) (fun _ => True) symbol
      fun _ => True := by
  cases form with
  | binary made =>
    -- No binary operator makes a node for what is ignored or passed over.
    have kinds : made ≠ .ignored ∧ made ≠ .skipped := by
      have isInfix := TokenKind.isInfix_of_infixNode? (TokenKind.infixForm?_binary forms).1
      constructor <;> (rintro rfl; cases isInfix)
    exact (carefulAt_rightOperand useful right kinds.1 kinds.2).bind fun _ _ =>
      careful_operators_call made power
  | choice =>
    refine CarefulAt.bind (CarefulAt.wrapIn ⟨trivial, nofun, nofun⟩ ?_) fun _ _ =>
      careful_operators_call .ternary power
    -- Both branches are operands, the second of which may be missing.
    refine (carefulAt_bump useful).bind fun _ _ => (careful_expression_call right).bind fun _ _ => ?_
    exact (careful_expect rfl).bind fun _ _ => careful_when (careful_expression_call right)
  | range =>
    refine CarefulAt.bind (CarefulAt.wrapIn ⟨trivial, nofun, nofun⟩ ?_) fun _ _ =>
      careful_operators_call .range power
    exact (carefulAt_bump useful).bind fun _ _ => careful_unless (careful_expression_call right)
  | name =>
    refine Careful.at (careful_when ?_)
    exact careful_if fun _ _ _ => (careful_adjoined right).at

/-- An index or a slice is read with care. -/
theorem careful_indexed : CarefulAnywhere indexed := by
  refine careful_wrapIn ⟨trivial, nofun, nofun⟩ ((careful_require rfl).bind fun _ _ => ?_)
  refine (careful_expression_call 0).bind fun _ _ => ?_
  have upper : CarefulAnywhere sliceEnd :=
    (careful_accept rfl).bind fun _ _ => careful_when (careful_unless (careful_expression_call 0))
  exact upper.bind fun _ _ => careful_require rfl

/-- The operators after an operand are read with care. -/
theorem careful_operators (operand : NodeKind) (power : Nat) :
    CarefulAnywhere (operators operand power) := by
  refine careful_look fun symbol _ => ?_
  have useful (goesOn : symbol.kind.continuation operand ≠ .stop) : symbol.kind.isForeign = false :=
    TokenKind.isForeign_of_continuation goesOn
  -- Every way to go on reads tokens of use, makes proper nodes and calls operators again.
  dsimp only
  cases continues : symbol.kind.continuation operand with
  | stop => exact (careful_pure trivial).at
  | call =>
    exact ((careful_application (fun _ _ => trivial) fun _ _ => trivial).bind fun _ _ =>
      careful_operators_call _ power).at
  | index => exact (careful_indexed.bind fun _ _ => careful_operators_call _ power).at
  | access made =>
    have kinds : made ≠ .ignored ∧ made ≠ .skipped := by
      rcases TokenKind.eq_of_access continues with rfl | rfl <;> exact ⟨nofun, nofun⟩
    exact (carefulAt_rightOperand (useful (by simp [continues])) _ kinds.1 kinds.2).bind fun _ _ =>
      careful_operators_call _ power
  | step =>
    have proper : NodeKind.postfixed.IsProper fun _ => True := ⟨trivial, nofun, nofun⟩
    exact (CarefulAt.wrapIn proper (carefulAt_bump (useful (by simp [continues])))).bind
      fun _ _ => careful_operators_call _ power
  | string =>
    exact ((careful_adjoined _).bind fun _ _ => careful_operators_call _ power).at
  | regroup =>
    exact ((careful_group (fun _ _ => trivial) fun _ _ => trivial).bind fun _ _ =>
      careful_operators_call _ power).at.frame
  | infixed left right form =>
    -- An operator that binds too loosely is left for an outer call.
    by_cases loose : left < power
    · simp only [loose, if_true]
      exact (careful_pure trivial).at
    · simp only [loose, if_false]
      exact carefulAt_infixed (useful (by simp [continues]))
        (TokenKind.continuation_infixed continues).2

/-- A token that cannot begin an operand is passed over with an error, unless it ends the statement. -/
theorem carefulAt_missing {symbol : Symbol} :
    (do
      if ← atStatementEnd then return
      else if ← atEnd then return
      else
        report (.expectedExpression symbol.kind)
        bumpAs .skipped : Parser Unit).CarefulAt (fun _ => True) (fun _ => True) symbol
        fun _ => True := by
  intro post after
  simp only [obeys_bind, obeys_atStatementEnd, obeys_atEnd, obeys_ite, obeys_pure, care_look,
    Symbol.fits_some, Phase.looked]
  -- Further looks see the same token, which is what the error tells of.
  rintro _ rfl _
  refine ⟨fun _ => after () _ trivial rfl, fun _ => ?_⟩
  rintro _ rfl _
  refine ⟨fun _ => after () _ trivial rfl, fun _ => ?_⟩
  exact ⟨rfl, rfl, ⟨_, rfl, rfl⟩, by simp, trivial, rfl, after () _ trivial rfl⟩

/-- An operand is read with care, and a token that cannot begin it goes with an error. -/
theorem careful_expression (power : Nat) : CarefulAnywhere (expression power) := by
  refine careful_look fun symbol _ => ?_
  -- Whatever can begin an operand is of use to the grammar.
  have useful (begins : symbol.kind.operandStart ≠ .nothing) : symbol.kind.isForeign = false :=
    TokenKind.isForeign_of_operandStart begins
  dsimp only
  cases begins : symbol.kind.operandStart with
  | atom made =>
    have proper : made.IsProper fun _ => True :=
      isProper_of_isOrdinary (fun _ _ => trivial) made (TokenKind.isOrdinary_atom begins)
    exact ((carefulAt_bumpAs proper (useful (by simp [begins]))).bind fun _ _ =>
      careful_operators_call _ power).frame
  | group =>
    exact ((careful_group (fun _ _ => trivial) fun _ _ => trivial).bind fun _ _ =>
      careful_operators_call _ power).at.frame
  | empty => exact carefulAt_bump (useful (by simp [begins]))
  -- After an operator, its operand is read with the power of prefixes.
  | operator =>
    refine CarefulAt.frame (CarefulAt.bind (CarefulAt.nodeOf ⟨trivial, nofun, nofun⟩ ?_)
      fun _ _ => careful_operators_call _ power)
    exact (carefulAt_bump (useful (by simp [begins]))).bind fun _ _ =>
      careful_expression_call prefixPower
  -- Nothing begins here, which is noted at the token that was seen.
  | nothing => exact carefulAt_missing

section

variable {makes : NodeKind → Prop} {calls : Rule → Prop}

/-- Tokens are passed over to the end. -/
theorem obeys_recovery (plain : ∀ rule : Rule, rule.IsPlain → calls rule) :
    recovery.Obeys (care makes calls) ⟨none, .passing⟩ fun _ after => after.phase = .passing := by
  simp [recovery, Phase.looked, Phase.Calls, Phase.isPassable, Rule.phase,
    plain .recovery trivial]

/-- Rules that read neither operands, nor qualifiers, nor whatever comes are careful. -/
theorem careful_body (simple : ∀ kind : NodeKind, kind.IsSimple → makes kind)
    (plain : ∀ rule : Rule, rule.IsPlain → calls rule) {rule : Rule}
    (isStatement : rule.isStatement = true) :
    rule.body.Careful makes calls fun _ => True := by
  -- Each rule has a lemma of its own above.
  cases rule with
  | program => exact careful_program plain
  | declaration | expression | operators | recovery => cases isStatement
  | statement => exact careful_statement simple plain
  | blockItems => exact careful_blockItems plain
  | conditional => exact careful_conditional simple plain
  | parameters => exact careful_parameters simple plain
  | furtherNames => exact careful_furtherNames simple plain
  | arrayItems => exact careful_arrayItems simple plain
  | arguments => exact careful_arguments simple plain
  | statementEnds => exact careful_statementEnds plain
  | lineEnds => exact careful_lineEnds plain
  | pathParts => exact careful_pathParts plain

end

end Dxl.Grammar
