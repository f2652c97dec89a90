import Dxl.Proofs.Grammar.Operator
import Dxl.Proofs.Grammar.Promise

/-! Expressions: what the rules for expressions promise. -/

namespace Dxl

/-- A token that names a type is not the end of the text. -/
theorem Growth.Good.ne_endOfText_of_namesType {growth : Growth} (good : growth.Good)
    (type : growth.next.namesType = true) : growth.next.kind ≠ .endOfText := by
  obtain ⟨token, rest, -, seen, -⟩ := good.exists_next
  rw [seen] at type ⊢
  intro final
  have final : token.kind = .endOfText := final
  simp [Token.symbol, Token.namesType, final, TokenKind.namesType] at type

/-- What a token begins as an operand fits its kind. -/
theorem TokenKind.operandStart_spec (kind : TokenKind) :
    match kind.operandStart with
    | .atom made => made.isOperand = true ∧ made.admits [] = true ∧ kind ≠ .endOfText
    | .group => kind = .sign .leftParen
    | .empty => kind ≠ .endOfText
    | .operator => kind ≠ .endOfText
    | .nothing => True := by
  -- Only a few signs and keywords begin anything.
  cases kind with
  | sign mark => cases mark <;> simp [operandStart, isPrefixOperator]
  | keyword word =>
    cases word <;> simp [operandStart, isPrefixOperator, NodeKind.isOperand, NodeKind.admits]
  | _ => simp [operandStart, isPrefixOperator, NodeKind.isOperand, NodeKind.admits]

/-- A token that makes an argument of itself ends nothing. -/
theorem TokenKind.goesOn_of_startsArgument (kind : TokenKind)
    (argument : kind.startsArgument = true) : kind.GoesOn := by
  cases kind with
  | keyword word => simp [GoesOn, endsStatement]
  | _ => first | exact Bool.noConfusion argument | simp [GoesOn, endsStatement]

/-- What a token does to an operand before it fits its kind. -/
theorem TokenKind.continuation_spec (kind : TokenKind) (operand : NodeKind) :
    match kind.continuation operand with
    | .stop => True
    | .call => kind.GoesOn
    | .index => kind = .sign .leftBracket
    | .access made => kind ≠ .endOfText ∧ made.isCompound = true
    | .step => kind ≠ .endOfText
    | .string => kind.GoesOn
    | .regroup => kind = .sign .leftParen
    | .infixed _ _ form =>
      kind ≠ .endOfText ∧ ∀ made, form = .binary made → made.isCompound = true := by
  unfold continuation
  -- An operand that can be called takes in arguments before anything else.
  by_cases argument : (operand.isCallee && kind.startsArgument) = true
  · rw [if_pos argument]
    simp only [Bool.and_eq_true] at argument
    exact kind.goesOn_of_startsArgument argument.2
  · rw [if_neg argument]
    cases kind with
    | sign mark =>
      cases mark with
      -- A parenthesis makes a call of some operands, and a new group after all others.
      | leftParen =>
        cases operand.takesParentheses <;> simp [GoesOn, endsStatement]
      | _ => simp [infixPower?, infixForm?, infixNode?, NodeKind.isCompound]
    | keyword word => cases word <;> simp [infixPower?, infixForm?, infixNode?, NodeKind.isCompound]
    | _ => simp [infixPower?, infixForm?, infixNode?, GoesOn, endsStatement]

namespace Grammar

open Dxl.Parser

variable {call : Rule → Growth → Except Failure Growth} {limit : Option Nat} {budget : Nat}
  {growth : Growth} (keeps : Keeps call limit budget) (good : growth.Good)
include keeps good

/-- An expression in the place of a statement makes one node. -/
theorem ensures_expressionStatement (cheap : 8 * growth.rest.length < budget) :
    expressionStatement.Ensures call limit growth fun _ after =>
      growth.Extends after [.exprStmt] growth.next.kind.GoesOn :=
  ensures_nodeOf good ((keeps (.expression 0) growth.enter good.enter trivial cheap).mono
    fun _ _ ⟨_, extended, terms⟩ => extended.close terms (by simp [NodeKind.isAtom]))

omit keeps in
/-- The type of a cast makes a node, if it is there. -/
theorem ensures_acceptType :
    acceptType.Ensures call limit growth fun _ after =>
      ∃ added, growth.Extends after added False ∧ added.all NodeKind.isPart = true := by
  refine (ensures_atType good).ite (fun between settles type => ?_) fun between settles _ => ?_
  · have further := settles.good.ne_endOfText_of_namesType (settles.next ▸ type)
    refine (ensures_bumpAs settles.good further rfl).bind fun _ after extended => ensures_pure ?_
    exact ⟨_, (settles.extend extended).imp False.elim, rfl⟩
  · exact ensures_pure ⟨[], settles.extended, rfl⟩

/-- Parentheses around an expression make one operand. -/
theorem ensures_group (next : growth.next.kind = .sign .leftParen)
    (cheap : 8 * growth.rest.length ≤ budget) :
    group.Ensures call limit growth.enter fun kind after =>
      kind.isOperand = true ∧ growth.enter.Becomes after [kind] True := by
  -- The parenthesis and the type leave fewer tokens for the expression, so that it may be called.
  refine ensures_first ((ensures_require good.enter (by simp)).bind fun _ opened paren => ?_)
  refine (ensures_acceptType paren.good).bind fun isCast typed ⟨types, type, areTypes⟩ => ?_
  have shorter := paren.shorter next
  have fewer := type.fewer
  refine (keeps (.expression 0) typed type.good trivial ?_).bind
    fun _ filled ⟨terms, content, areTerms⟩ => ?_
  · simp only [Growth.enter, Rule.rank] at shorter ⊢
    omega
  · refine (ensures_require content.good (by simp)).bind fun _ closed close => ensures_pure ?_
    -- Of all that is read only the parenthesis is sure to be there.
    have whole := ((paren.trans type).trans (content.trans close)).imp
      fun _ : True => .inl (.inl next)
    -- A group holds at most a type and terms, which are parts of it.
    have parts : ([] ++ types ++ (terms ++ [])).all NodeKind.isPart = true := by
      simp [areTypes, NodeKind.all_imp areTerms fun _ => NodeKind.isPart_of_isTerm]
    cases isCast with
    | true => exact ⟨rfl, whole.close parts (by simp [NodeKind.isAtom])⟩
    | false => exact ⟨rfl, whole.close parts (by simp [NodeKind.isAtom])⟩

omit keeps in
/-- What a frame leaves of an operand and its operators is added to the frame around it. -/
theorem ensures_operands {body : Parser Unit} {reads : Prop}
    (ensures : body.Ensures call limit growth.enter fun _ inner =>
      ∃ left, growth.enter.Becomes inner left reads ∧ left.all NodeKind.isOperand = true) :
    (frame body).Ensures call limit growth fun _ after =>
      ∃ added, growth.Extends after added reads ∧ added.all NodeKind.isOperand = true :=
  ensures_frame ensures fun _ _ ⟨left, becomes, areOperands⟩ =>
    ⟨left, becomes.toExtends.leave good, areOperands⟩

/-- One argument makes one node. -/
theorem ensures_argument (cheap : 8 * growth.rest.length < budget) :
    argument.Ensures call limit growth fun _ after => growth.Extends after [.arg] False := by
  refine ensures_nodeOf good ((ensures_expressionStatement keeps good.enter cheap).bind
    fun _ stated statement => ?_)
  refine (ensures_nextIs statement.good _).ite (fun after settles _ => ?_) fun after settles _ => ?_
  · -- The next token closes the arguments, so that no comma is needed.
    exact ensures_pure (((statement.trans settles.extended).imp False.elim).close rfl
      (by simp [NodeKind.isAtom]))
  · -- Otherwise a comma is read or noted as missing.
    exact (ensures_require settles.good (by simp)).mono fun _ _ comma =>
      ((statement.trans (settles.extend comma)).imp False.elim).close rfl
        (by simp [NodeKind.isAtom])

/-- Arguments make a node each. -/
theorem ensures_arguments (cheap : 8 * growth.rest.length + 1 ≤ budget) :
    arguments.Ensures call limit growth fun _ after => Rule.arguments.Promises growth after := by
  -- The arguments end before a parenthesis and at the end of the text.
  refine (ensures_nextIs good _).ite (fun _ settles _ => ?_) fun looked settles _ => ?_
  · exact ensures_pure ⟨[], settles.extended, rfl⟩
  refine (ensures_atEnd settles.good).ite (fun _ ends _ => ?_) fun inside ends _ => ?_
  · exact ensures_pure ⟨[], (settles.trans ends).extended, rfl⟩
  have start := settles.trans ends
  have fewer := start.extended.fewer
  -- Only an argument that reads something is followed by others.
  refine (ensures_progress (ensures_argument keeps ends.good (by omega))).bind
    fun progressed read ⟨argument, shorter⟩ => ?_
  cases progressed with
  | false =>
    exact ensures_pure ⟨_, start.extend argument, rfl⟩
  | true =>
    have shorter := shorter rfl
    refine (keeps .arguments read argument.good trivial (by simp only [Rule.rank]; omega)).mono
      fun _ after ⟨others, further, areArguments⟩ => ?_
    exact ⟨_, (start.extend (argument.trans further)).imp False.elim, by simpa using areArguments⟩

/-- The arguments of a call make one node. -/
theorem ensures_argumentList (cheap : 8 * growth.rest.length < budget) :
    argumentList.Ensures call limit growth fun _ after =>
      growth.Extends after [.argList] growth.next.kind.GoesOn := by
  refine ensures_nodeOf good ((ensures_accept good.enter (by simp)).iteRead
    (fun opened paren _ => ?_) fun between settles _ => ?_)
  · -- After a parenthesis the arguments come with fewer tokens left.
    have shorter := paren.shorter trivial
    refine (keeps .arguments opened paren.good trivial ?_).bind
      fun _ filled ⟨inside, content, areArguments⟩ => ?_
    · simp only [Growth.enter, Rule.rank] at shorter ⊢
      omega
    · have admitted : inside.all (fun kind => kind == .arg || kind == .exprStmt) = true :=
        NodeKind.all_imp areArguments (by simp)
      exact (ensures_require content.good (by simp)).mono fun _ after close =>
        ((paren.trans (content.trans close)).imp fun _ => .inl trivial).close
          (by simpa [NodeKind.admits] using admitted) (by simp [NodeKind.isAtom])
  · -- Without a parenthesis there is one argument, which is an expression statement.
    have fewer := settles.extended.fewer
    have argument := @ensures_nodeOf call limit between settles.good .arg _ _
      ((ensures_expressionStatement keeps settles.good.enter (by
        simp only [Growth.enter] at fewer ⊢
        omega)).mono fun _ _ statement => statement.close rfl (by simp [NodeKind.isAtom]))
    exact argument.mono fun _ _ extended =>
      ((settles.extend extended).imp fun goesOn => settles.next.symm ▸ goesOn).close rfl
        (by simp [NodeKind.isAtom])

section

variable (operand : growth.opening = .node)
  (operands : growth.kinds.all NodeKind.isOperand = true)

omit keeps in
include operands in
/-- Parts that follow an operand can be wrapped together with it. -/
theorem becomes_compound {kind : NodeKind} {inner : Growth} {added : List NodeKind} {reads : Prop}
    (compound : kind.isCompound = true) (extended : growth.enter.Extends inner added reads)
    (parts : added.all NodeKind.isPart = true) :
    growth.Becomes ((growth.leave inner).close kind) [kind] reads := by
  refine extended.closeAround good (NodeKind.admits_of_isCompound compound ?_)
    (NodeKind.isAtom_of_isCompound compound)
  -- The operand before the parts is a part as well.
  rw [List.all_append, parts, Bool.and_true]
  exact NodeKind.all_imp operands fun _ operand =>
    NodeKind.isPart_of_isTerm (NodeKind.isTerm_of_isOperand operand)

include operand operands

/-- A call or a cast takes in the operand before it. -/
theorem ensures_application (cheap : 8 * growth.rest.length < budget) :
    application.Ensures call limit growth fun kind after =>
      kind.isCompound = true ∧ growth.Becomes after [kind] growth.next.kind.GoesOn := by
  refine @ensures_wrap call limit growth _ (fun kind inner => kind.isCompound = true
    ∧ ∃ added, growth.enter.Extends inner added growth.next.kind.GoesOn
      ∧ added.all NodeKind.isPart = true) _ operand ?_ fun kind inner ⟨compound, added, extended, parts⟩ =>
    ⟨compound, becomes_compound good operands compound extended parts⟩
  -- A type makes a cast, and anything else is taken as arguments.
  refine (ensures_atType good.enter).ite (fun between settles type => ?_) fun between settles _ => ?_
  · have further := settles.good.ne_endOfText_of_namesType (settles.next ▸ type)
    exact (ensures_bumpAs settles.good further rfl).bind fun _ after extended => ensures_pure
      ⟨rfl, _, (settles.extend extended).imp fun _ => trivial, rfl⟩
  · have fewer := settles.extended.fewer
    refine (ensures_argumentList keeps settles.good ?_).bind fun _ after extended => ensures_pure
      ⟨rfl, _, (settles.extend extended).imp fun goesOn => settles.next.symm ▸ goesOn, rfl⟩
    simp only [Growth.enter] at fewer ⊢
    omega

omit operand operands in
/-- The upper end of a slice is an expression, if it is there. -/
theorem ensures_sliceEnd (cheap : 8 * growth.rest.length ≤ budget) :
    sliceEnd.Ensures call limit growth fun _ after =>
      ∃ added, growth.Extends after added False ∧ added.all NodeKind.isTerm = true := by
  refine (ensures_accept good (by simp)).iteRead (fun marked colon _ => ?_) fun after settles _ => ?_
  · -- After a colon the slice may be open, or its end is another expression.
    refine (ensures_nextIs colon.good _).ite (fun after settles _ => ?_) fun between settles _ => ?_
    · exact ensures_pure ⟨[], (colon.trans settles.extended).imp False.elim, rfl⟩
    · have shorter := colon.shorter trivial
      have fewer := settles.extended.fewer
      exact (keeps (.expression 0) between settles.good trivial (by simp only [Rule.rank]; omega)).mono
        fun _ after ⟨added, extended, terms⟩ =>
          ⟨added, (colon.trans (settles.extend extended)).imp False.elim, terms⟩
  · exact ensures_pure ⟨[], settles.extended, rfl⟩

/-- An index takes in the operand before it. -/
theorem ensures_indexed (next : growth.next.kind = .sign .leftBracket)
    (cheap : 8 * growth.rest.length ≤ budget) :
    indexed.Ensures call limit growth fun _ after => growth.Becomes after [.index] True := by
  refine ensures_wrapIn operand ?_
  -- The opening bracket is read, which pays for the calls after it.
  refine (ensures_require good.enter (by simp)).bind fun _ opened bracket => ?_
  have shorter := bracket.shorter next
  simp only [Growth.enter] at shorter
  refine (keeps (.expression 0) opened bracket.good trivial (by simp only [Rule.rank]; omega)).bind
    fun _ lower inside => ?_
  obtain ⟨terms, first, areTerms⟩ := inside
  have fewer := first.fewer
  refine (ensures_sliceEnd keeps first.good (by omega)).bind fun _ upper inside => ?_
  obtain ⟨others, second, areOthers⟩ := inside
  refine (ensures_require second.good (by simp)).mono fun _ after close => ?_
  refine becomes_compound good operands rfl
    (((bracket.trans first).trans (second.trans close)).imp fun _ => .inl (.inl next)) ?_
  -- Operands become the parts of the index.
  simp [NodeKind.all_imp areTerms fun _ => NodeKind.isPart_of_isTerm,
    NodeKind.all_imp areOthers fun _ => NodeKind.isPart_of_isTerm]

/-- An operator takes in the operands on both sides. -/
theorem ensures_rightOperand {kind : NodeKind} (compound : kind.isCompound = true)
    (further : growth.next.kind ≠ .endOfText) (power : Nat)
    (cheap : 8 * growth.rest.length ≤ budget) :
    (rightOperand power kind).Ensures call limit growth fun _ after =>
      growth.Becomes after [kind] True := by
  refine ensures_wrapIn operand ((ensures_bump good.enter further).bind fun _ read operator => ?_)
  -- The operator is read, which pays for the call after it.
  have shorter := operator.shorter trivial
  simp only [Growth.enter] at shorter
  refine (keeps (.expression power) read operator.good trivial
    (by simp only [Rule.rank]; omega)).mono fun _ after inside => ?_
  obtain ⟨terms, extended, areTerms⟩ := inside
  exact becomes_compound good operands compound ((operator.trans extended).imp .inl) (by
    simpa using NodeKind.all_imp areTerms fun _ => NodeKind.isPart_of_isTerm)

/-- A joined operand takes in the one before it. -/
theorem ensures_adjoined (power : Nat) (cheap : 8 * growth.rest.length < budget) :
    (adjoined power).Ensures call limit growth fun _ after =>
      growth.Becomes after [.concat] growth.next.kind.GoesOn :=
  ensures_wrapIn operand ((keeps (.expression power) growth.enter good.enter trivial cheap).mono
    fun _ _ ⟨_, extended, areTerms⟩ => becomes_compound good operands rfl extended
      (NodeKind.all_imp areTerms fun _ => NodeKind.isPart_of_isTerm))

/-- A choice takes in its condition and its branches. -/
theorem ensures_branches (further : growth.next.kind ≠ .endOfText) (power : Nat)
    (cheap : 8 * growth.rest.length ≤ budget) :
    (branches power).Ensures call limit growth fun _ after =>
      growth.Becomes after [.ternary] True := by
  refine ensures_wrapIn operand ((ensures_bump good.enter further).bind fun _ read operator => ?_)
  have shorter := operator.shorter trivial
  simp only [Growth.enter] at shorter
  refine (keeps (.expression power) read operator.good trivial (by simp only [Rule.rank]; omega)).bind
    fun _ between inside => ?_
  obtain ⟨terms, first, areTerms⟩ := inside
  have fewer := first.fewer
  -- The branches become the parts of the choice, the second of them after its colon.
  have parts := NodeKind.all_imp areTerms fun _ => NodeKind.isPart_of_isTerm
  refine (ensures_expect first.good (by simp)).iteRead (fun colon read _ => ?_)
    fun after settles _ => ?_
  · have shorterThen := read.shorter trivial
    refine (keeps (.expression power) colon read.good trivial
      (by simp only [Rule.rank]; omega)).mono fun _ after inside => ?_
    obtain ⟨others, second, areOthers⟩ := inside
    refine becomes_compound good operands rfl
      ((operator.trans (first.trans (read.trans second))).imp .inl) ?_
    simp [parts, NodeKind.all_imp areOthers fun _ => NodeKind.isPart_of_isTerm]
  · -- Without a colon the choice is left with one branch.
    exact ensures_pure (becomes_compound good operands rfl
      ((operator.trans (first.trans settles.extended)).imp .inl) (by simpa using parts))

/-- A range takes in its ends. -/
theorem ensures_upperEnd (further : growth.next.kind ≠ .endOfText) (power : Nat)
    (cheap : 8 * growth.rest.length ≤ budget) :
    (upperEnd power).Ensures call limit growth fun _ after =>
      growth.Becomes after [.range] True := by
  refine ensures_wrapIn operand ((ensures_bump good.enter further).bind fun _ read operator => ?_)
  have shorter := operator.shorter trivial
  simp only [Growth.enter] at shorter
  refine (ensures_nextIs operator.good _).ite (fun after settles _ => ?_) fun between settles _ => ?_
  · -- The upper end is left out.
    exact ensures_pure (becomes_compound good operands rfl
      ((operator.trans settles.extended).imp .inl) rfl)
  · -- The upper end is another term.
    have fewer := settles.extended.fewer
    refine (keeps (.expression power) between settles.good trivial
      (by simp only [Rule.rank]; omega)).mono fun _ after inside => ?_
    obtain ⟨terms, extended, areTerms⟩ := inside
    exact becomes_compound good operands rfl ((operator.trans (settles.extend extended)).imp .inl)
      (by simpa using NodeKind.all_imp areTerms fun _ => NodeKind.isPart_of_isTerm)

omit operand operands good in
/-- Operators go on with an operand that was just made. -/
theorem ensures_operators_after {between : Growth} {kind : NodeKind} {reads : Prop}
    (becomes : growth.Becomes between [kind] reads) (made : kind.isOperand = true)
    (left : NodeKind) (power : Nat) (cheap : 8 * between.rest.length + 1 < budget) :
    (Parser.call (.operators left power)).Ensures call limit between fun _ after =>
      ∃ left, growth.Becomes after left reads ∧ left.all NodeKind.isOperand = true :=
  (keeps (.operators left power) between becomes.good
    ⟨becomes.operand, by simpa [becomes.kinds] using made⟩ cheap).mono
      fun _ _ ⟨left, further, areOperands⟩ => ⟨left, (becomes.trans further).imp .inl, areOperands⟩

/-- A binary operator leaves operands. -/
theorem ensures_infixed {form : InfixForm} (further : growth.next.kind ≠ .endOfText)
    (compound : ∀ made, form = .binary made → made.isCompound = true) (before : NodeKind)
    (power right : Nat) (cheap : 8 * growth.rest.length < budget) :
    (infixed before power right form).Ensures call limit growth fun _ after =>
      ∃ left, growth.Becomes after left False ∧ left.all NodeKind.isOperand = true := by
  -- In every case a token is read before operators are called again.
  cases form with
  | binary made =>
    have isCompound := compound made rfl
    refine (ensures_rightOperand keeps good operand operands isCompound further right
      (by omega)).bind fun _ between becomes => ?_
    have shorter := becomes.shorter trivial
    exact ensures_operators_after keeps (becomes.imp False.elim)
      (NodeKind.isOperand_of_isCompound isCompound) made power (by omega)
  | choice =>
    refine (ensures_branches keeps good operand operands further right (by omega)).bind
      fun _ between becomes => ?_
    have shorter := becomes.shorter trivial
    exact ensures_operators_after keeps (becomes.imp False.elim) rfl .ternary power (by omega)
  | range =>
    refine (ensures_upperEnd keeps good operand operands further right (by omega)).bind
      fun _ between becomes => ?_
    have shorter := becomes.shorter trivial
    exact ensures_operators_after keeps (becomes.imp False.elim) rfl .range power (by omega)
  | name =>
    rw [infixed]
    split
    · -- Where the left operand takes names, another operand may be joined to it.
      refine (ensures_nextIsOneOf good _).ite (fun between settles _ => ?_) fun after settles _ => ?_
      · have fewer := settles.extended.fewer
        have kinds : between.kinds = growth.kinds := by simpa using settles.extended.kinds
        refine (ensures_adjoined keeps settles.good (settles.extended.operand operand)
          (kinds ▸ operands) right (by omega)).mono fun _ after becomes => ?_
        exact ⟨_, (settles.becomes becomes).imp False.elim, rfl⟩
      · exact ensures_pure ⟨_, ((Growth.Becomes.refl good operand).extend settles.extended).imp
          False.elim, by simpa using operands⟩
    · -- Where it does not, the name is left alone.
      exact ensures_pure ⟨_, .refl good operand, operands⟩

/-- The operators after an operand leave operands. -/
theorem ensures_operators (before : NodeKind) (power : Nat)
    (cheap : 8 * growth.rest.length + 1 ≤ budget) :
    (operators before power).Ensures call limit growth fun _ after =>
      (Rule.operators before power).Promises growth after := by
  refine (ensures_look good).bind fun symbol between ⟨seen, settles⟩ => ?_
  subst seen
  have fewer := settles.extended.fewer
  have opening := settles.extended.operand operand
  have kinds : between.kinds.all NodeKind.isOperand = true := by
    simpa [settles.extended.kinds] using operands
  have inside := settles.good
  -- What the token does next decides which operand is made.
  have spec := growth.next.kind.continuation_spec before
  rw [← settles.next] at spec ⊢
  refine Ensures.mono (?_ : Ensures call limit _ between fun _ after =>
    ∃ left, between.Becomes after left False ∧ left.all NodeKind.isOperand = true)
    fun _ _ ⟨left, becomes, areOperands⟩ => ⟨left, settles.becomes becomes, areOperands⟩
  dsimp only
  cases continuation : between.next.kind.continuation before with
  -- The operand is complete.
  | stop => exact ensures_pure ⟨_, .refl inside opening, kinds⟩
  | call =>
    rw [continuation] at spec
    refine (ensures_application keeps inside opening kinds (by omega)).bind
      fun made next ⟨compound, becomes⟩ => ?_
    have shorter := becomes.shorter spec
    exact ensures_operators_after keeps (becomes.imp False.elim)
      (NodeKind.isOperand_of_isCompound compound) made power (by omega)
  | index =>
    rw [continuation] at spec
    refine (ensures_indexed keeps inside opening kinds spec (by omega)).bind
      fun _ next becomes => ?_
    have shorter := becomes.shorter trivial
    exact ensures_operators_after keeps (becomes.imp False.elim) rfl .index power (by omega)
  | access made =>
    rw [continuation] at spec
    refine (ensures_rightOperand keeps inside opening kinds spec.2 spec.1 accessPower
      (by omega)).bind fun _ next becomes => ?_
    have shorter := becomes.shorter trivial
    exact ensures_operators_after keeps (becomes.imp False.elim)
      (NodeKind.isOperand_of_isCompound spec.2) made power (by omega)
  | step =>
    rw [continuation] at spec
    refine (ensures_wrapIn opening ((ensures_bump inside.enter spec).mono fun _ _ read =>
      becomes_compound inside kinds rfl read rfl)).bind fun _ next becomes => ?_
    have shorter := becomes.shorter trivial
    exact ensures_operators_after keeps (becomes.imp False.elim) rfl .postfixed power (by omega)
  | string =>
    rw [continuation] at spec
    refine (ensures_adjoined keeps inside opening kinds stringPower (by omega)).bind
      fun _ next becomes => ?_
    have shorter := becomes.shorter spec
    exact ensures_operators_after keeps (becomes.imp False.elim) rfl .concat power (by omega)
  | regroup =>
    rw [continuation] at spec
    -- The group and what follows it stand beside the operand.
    refine (@ensures_operands call limit between inside _ True ((ensures_group keeps inside spec
      (by omega)).bind fun made next ⟨isOperand, becomes⟩ => ?_)).mono
        fun _ after ⟨left, extended, areOperands⟩ => ?_
    · have shorter := becomes.shorter trivial
      simp only [Growth.enter] at shorter
      exact ensures_operators_after keeps becomes isOperand made power (by omega)
    · exact ⟨_, ((Growth.Becomes.refl inside opening).extend extended).imp False.elim, by
        simp [kinds, areOperands]⟩
  | infixed left right form =>
    rw [continuation] at spec
    dsimp only
    split
    · -- The operator is too loose.
      exact ensures_pure ⟨_, .refl inside opening, kinds⟩
    · exact ensures_infixed keeps inside opening kinds spec.1 spec.2 before power right (by omega)

end

/-- An operator before its operand makes an operand together with it. -/
theorem ensures_prefixed (further : growth.next.kind ≠ .endOfText)
    (cheap : 8 * growth.rest.length ≤ budget) :
    (nodeOf .prefixed do
      bump
      Parser.call (.expression prefixPower)).Ensures call limit growth.enter fun _ after =>
        growth.enter.Becomes after [.prefixed] True := by
  refine ensures_firstOf ((ensures_bump good.enter further).bind fun _ read operator => ?_)
  have shorter := operator.shorter trivial
  -- The operator was read, so that fewer tokens are left for the operand.
  simp only [Growth.enter] at shorter
  refine (keeps (.expression prefixPower) read operator.good trivial
    (by simp only [Rule.rank]; omega)).mono fun _ _ inside => ?_
  obtain ⟨_, extended, areTerms⟩ := inside
  exact ((operator.trans extended).imp .inl).close
    (NodeKind.all_imp areTerms fun _ => NodeKind.isPart_of_isTerm) (by simp [NodeKind.isAtom])

/-- An operand and the operators after it leave operands. -/
theorem ensures_expression (power : Nat) (cheap : 8 * growth.rest.length ≤ budget) :
    (expression power).Ensures call limit growth fun _ after =>
      (Rule.expression power).Promises growth after := by
  refine (ensures_look good).bind fun symbol between ⟨seen, settles⟩ => ?_
  subst seen
  have fewer := settles.extended.fewer
  have inside := settles.good
  have spec := growth.next.kind.operandStart_spec
  -- Whatever reads a token and leaves terms is fine.
  have reading : ∀ (body : Parser Unit), body.Ensures call limit between (fun _ after =>
      ∃ added, between.Extends after added True ∧ added.all NodeKind.isOperand = true) →
      body.Ensures call limit between fun _ after =>
        (Rule.expression power).Promises growth after := fun body ensures =>
    ensures.mono fun _ _ ⟨added, extended, areOperands⟩ => ⟨added,
      (settles.extend extended).imp fun _ => trivial,
      NodeKind.all_imp areOperands fun _ => NodeKind.isTerm_of_isOperand⟩
  dsimp only
  cases start : growth.next.kind.operandStart with
  | atom made =>
    rw [start] at spec
    refine reading _ (ensures_operands inside ((ensures_bumpAs_first inside
      (settles.next ▸ spec.2.2) spec.2.1).bind fun _ next becomes => ?_))
    have shorter := becomes.shorter trivial
    simp only [Growth.enter] at shorter
    exact ensures_operators_after keeps becomes spec.1 made power (by omega)
  | group =>
    rw [start] at spec
    refine reading _ (ensures_operands inside ((ensures_group keeps inside
      (settles.next ▸ spec) (by omega)).bind fun made next grouped => ?_))
    -- The group is read in a frame of its own, in which operators then follow it.
    obtain ⟨isOperand, becomes⟩ := grouped
    have shorter := becomes.shorter trivial
    simp only [Growth.enter] at shorter
    exact ensures_operators_after keeps becomes isOperand made power (by omega)
  | empty =>
    rw [start] at spec
    exact reading _ ((ensures_bump inside (settles.next ▸ spec)).mono fun _ _ read =>
      ⟨[], read, rfl⟩)
  | operator =>
    rw [start] at spec
    refine reading _ (ensures_operands inside ((ensures_prefixed keeps inside
      (settles.next ▸ spec) (by omega)).bind fun _ next becomes => ?_))
    have shorter := becomes.shorter trivial
    simp only [Growth.enter] at shorter
    exact ensures_operators_after keeps becomes rfl .prefixed power (by omega)
  | nothing =>
    refine (ensures_atStatementEnd inside).ite (fun after ends atStop => ?_)
      fun middle ends goes => ?_
    · -- Nothing begins here, and the statement ends.
      rw [settles.next] at atStop
      exact ensures_pure ⟨[], (settles.trans ends).extended.imp fun goesOn =>
        absurd goesOn.2 (by simp [atStop]), rfl⟩
    refine (ensures_atEnd ends.good).ite (fun after last atStop => ?_) fun within last goes => ?_
    · -- Nothing begins here, and the text ends.
      rw [ends.next, settles.next] at atStop
      exact ensures_pure ⟨[], ((settles.trans ends).trans last).extended.imp fun goesOn =>
        absurd atStop goesOn.1, rfl⟩
    · -- Any other token is passed over in a node of its own, after an error.
      refine (ensures_report last.good _).bind fun _ noted report => ?_
      have seen := ((settles.trans ends).trans last).trans report
      refine (ensures_bumpAs report.good ?_ rfl).mono fun _ after extended =>
        ⟨_, (seen.extend extended).imp fun _ => trivial, rfl⟩
      rwa [report.next, last.next]

end Grammar

end Dxl
