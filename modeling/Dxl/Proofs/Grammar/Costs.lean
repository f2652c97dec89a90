import Dxl.Proofs.Grammar.Expression
import Dxl.Proofs.Grammar.Thrift

/-! Costs: no rule spends more looks than it costs, and none calls itself again without reading anything. -/

namespace Dxl

/-- A rule is thrifty if it pays for what it spends when nothing is spent before it. -/
def Rule.Thrifty (rule : Rule) : Prop :=
  rule.body.Obeys (thrift rule.reach) ⟨false, 0, none⟩ fun _ => rule.Pays

/-- Of the tokens that end a statement only a line break is no operand. -/
theorem TokenKind.eq_hardBreak_of_endsStatement (kind : TokenKind)
    (starts : kind.operandStart = .nothing) (ends : kind.endsStatement = true) :
    kind = .hardBreak := by
  cases kind with
  | sign mark => cases mark <;> simp_all [endsStatement, operandStart]
  | _ => simp_all [endsStatement]

/-- A token with which something goes on is none at which an expression reads nothing. -/
theorem TokenKind.GoesOn.not_idleAt {kind : TokenKind} (further : kind.GoesOn) (power : Nat) :
    ¬ (Rule.expression power).IdleAt kind := by
  rintro (final | broken)
  · exact further.1 final
  · simpa [broken, TokenKind.endsStatement] using further.2

end Dxl

namespace Dxl.Grammar

open Dxl.Parser

variable {reach spent start : Nat} {state : Spending} {symbol : Symbol}

/-- An expression in the place of a statement costs as much as one that reads nothing. -/
theorem spends_expressionStatement {stop : Nat} (enough : start ≤ 32) (costs : start + 3 ≤ stop) :
    expressionStatement.Spends start stop := by
  apply spends_nodeOf
  -- The node makes up for the six looks that it costs to enter it.
  refine spends_call ?_ ⟨?_, ?_⟩
  · simp only [Rule.reach, allowance]
    omega
  · simp only [Rule.idleCost]
    omega
  · simp only [Rule.busyCost]
    omega

/-- The type of a cast is read, or a look is spent. -/
theorem spends_acceptType : acceptType.Spends 0 1 :=
  spends_choice (by simp) (spends_bumpAs.bind fun _ => spends_pure true (by simp))
    (spends_pure false (by simp))

/-- A group makes up for what is spent in it. -/
theorem advances_group (known : symbol.kind = .sign .leftParen) {read : Bool}
    (enough : spent + 6 < lookCap reach read) :
    group.Advances reach ⟨read, spent, some symbol⟩ 0 := by
  have inner : (call (.expression 0)).Spends 1 4 := spends_call (by simp) (by simp)
  have closing : (require (.sign .rightParen)).Spends 4 6 := spends_require (by simp) (by simp)
  -- The parenthesis is there, so that only what follows it is counted.
  refine advances_node ((advances_require known enough).bind fun _ => ?_)
  exact spends_acceptType.bind fun _ => inner.bind fun _ => closing.bind fun _ =>
    spends_pure _ (by simp)

/-- The operators after an operand cost two looks. -/
theorem advances_operators {α : Type} {parser : Parser α} {made : α → NodeKind} {power : Nat}
    (advances : parser.Advances reach state 0) :
    (parser >>= fun value => call (.operators (made value) power)).Advances reach state 2 :=
  advances.bind fun _ => spends_call (by simp) (by simp)

/-- A rule for operands pays for what it spends. -/
theorem thrifty_expression (power : Nat) : (Rule.expression power).Thrifty := by
  simp only [Rule.Thrifty, Rule.body, expression, obeys_bind, obeys_look, thrift_look]
  refine ⟨by simp, ?_⟩
  intro symbol _
  -- The first look tells what the operand begins with.
  have spec := symbol.kind.operandStart_spec
  cases starts : symbol.kind.operandStart with
  | atom made => exact (advances_operators advances_bumpAs).pays (by simp)
  | group =>
    rw [starts] at spec
    exact (advances_operators (advances_group spec (by simp))).pays (by simp)
  | empty => exact advances_bump.pays (by simp)
  | operator =>
    refine (advances_operators (advances_nodeOf (advances_bump.bind fun _ => ?_))).pays (by simp)
    exact spends_call (by simp) (by simp)
  | nothing =>
    have ends : symbol.kind.endsStatement = true → symbol.kind = .hardBreak :=
      symbol.kind.eq_hardBreak_of_endsStatement starts
    -- Nothing is read at the end of a line or of the text; any other token is passed over.
    simpa [Rule.Pays] using ⟨fun holds => .inr (ends holds), fun _ final => .inl final⟩

/-- An operand is read at a token with which something goes on. -/
theorem advances_operand {power : Nat} (further : symbol.kind.GoesOn) (enough : spent + 8 ≤ reach) :
    (call (.expression power)).Advances reach ⟨false, spent, some symbol⟩ 2 := by
  refine advances_call (by simpa using enough) ?_ (by simp)
  simp only [Symbol.fits_some]
  rintro _ rfl
  exact further.not_idleAt power

/-- What follows a callee is an argument or the arguments between parentheses. -/
theorem advances_argumentList (further : symbol.kind.GoesOn) (enough : spent + 27 ≤ reach) :
    argumentList.Advances reach ⟨false, spent, some symbol⟩ 4 := by
  have inner : (call .arguments).Spends 0 8 := spends_call (by simp) (by simp)
  have closing : (require (.sign .rightParen)).Spends 8 10 := spends_require (by simp) (by simp)
  refine advances_nodeOf (advances_accept (by simp; omega) (inner.bind fun _ => closing) ?_)
  simp only [Symbol.fits_some]
  rintro _ rfl -
  -- Without parentheses the argument is the operand that was seen.
  refine advances_nodeOf (advances_nodeOf ?_)
  exact (advances_operand further (by simp; omega)).weaken (by simp)

/-- A callee is followed by a type or by arguments. -/
theorem advances_application (further : symbol.kind.GoesOn) :
    application.Advances 35 ⟨false, 1, some symbol⟩ 0 := by
  refine advances_wrap (advances_choice (by simp) (fun _ _ _ => ?_) ?_)
  · exact advances_bumpAs.bind fun _ => spends_pure _ (by simp)
  · simp only [Symbol.fits_some]
    rintro _ rfl -
    exact (advances_argumentList further (by simp)).bind fun _ => spends_pure _ (by simp)

/-- An index or a slice makes up for what is spent in it. -/
theorem advances_indexed (known : symbol.kind = .sign .leftBracket) :
    indexed.Advances 35 ⟨false, 1, some symbol⟩ 0 := by
  have lower : (call (.expression 0)).Spends 0 3 := spends_call (by simp) (by simp)
  have upper : (call (.expression 0)).Spends 1 4 := spends_call (by simp) (by simp)
  have rest : sliceEnd.Spends 3 4 :=
    spends_accept (by simp) (spends_choice (by simp) (spends_pure _ (by simp)) upper)
      (spends_pure _ (by simp))
  have closing : (require (.sign .rightBracket)).Spends 4 6 := spends_require (by simp) (by simp)
  refine advances_wrapIn ((advances_require known (by simp)).bind fun _ => ?_)
  exact lower.bind fun _ => rest.bind fun _ => closing

/-- The node of an operator makes up for what is spent on its right operand. -/
theorem advances_rightOperand (power : Nat) (kind : NodeKind) :
    (rightOperand power kind).Advances reach state 0 :=
  advances_wrapIn (advances_bump.bind fun _ => spends_call (by simp) (by simp))

/-- An operand is joined to the one before it. -/
theorem advances_adjoined {power : Nat} (further : symbol.kind.GoesOn)
    (enough : spent + 14 ≤ reach) :
    (adjoined power).Advances reach ⟨false, spent, some symbol⟩ 0 :=
  advances_wrapIn ((advances_operand further (by simp; omega)).weaken (by simp))

/-- The branches of a choice make up for what is spent on them. -/
theorem advances_branches (power : Nat) : (branches power).Advances reach state 0 := by
  have first : (call (.expression power)).Spends 0 3 := spends_call (by simp) (by simp)
  have second : (call (.expression power)).Spends 0 6 := spends_call (by simp) (by simp)
  refine advances_wrapIn (advances_bump.bind fun _ => first.bind fun _ => ?_)
  exact spends_expect (by simp) second (spends_pure _ (by simp))

/-- A range makes up for what is spent on its upper end. -/
theorem advances_upperEnd (power : Nat) : (upperEnd power).Advances reach state 0 := by
  have bound : (call (.expression power)).Spends 1 6 := spends_call (by simp) (by simp)
  refine advances_wrapIn (advances_bump.bind fun _ => ?_)
  exact spends_choice (by simp) (spends_pure _ (by simp)) bound

/-- A rule for the operators after an operand pays for what it spends. -/
theorem thrifty_operators (operand : NodeKind) (power : Nat) :
    (Rule.operators operand power).Thrifty := by
  simp only [Rule.Thrifty, Rule.body, operators, obeys_bind, obeys_look, thrift_look]
  refine ⟨by simp, ?_⟩
  intro symbol _
  -- The first look tells how the operand goes on, and each way but the end reads something.
  have spec := symbol.kind.continuation_spec operand
  cases continues : symbol.kind.continuation operand with
  | stop => simp [Rule.Pays]
  | call =>
    rw [continues] at spec
    exact (advances_operators (advances_application spec)).pays (by simp)
  | index =>
    rw [continues] at spec
    exact (advances_operators (advances_indexed spec)).pays (by simp)
  | access made => exact (advances_operators (advances_rightOperand _ made)).pays (by simp)
  | step =>
    have made : (wrapIn .postfixed bump).Advances 35 ⟨false, 1, some symbol⟩ 0 :=
      advances_wrapIn (advances_bump.weaken (by simp))
    exact (advances_operators made).pays (by simp)
  | string =>
    rw [continues] at spec
    exact (advances_operators (advances_adjoined spec (by simp))).pays (by simp)
  | regroup =>
    rw [continues] at spec
    exact (advances_operators (advances_group spec (by simp))).pays (by simp)
  | infixed left right form =>
    rw [continues] at spec
    simp only [obeys_ite]
    refine ⟨fun _ => by simp [Rule.Pays], fun _ => ?_⟩
    cases form with
    | binary made => exact (advances_operators (advances_rightOperand right made)).pays (by simp)
    | choice => exact (advances_operators (advances_branches right)).pays (by simp)
    | range => exact (advances_operators (advances_upperEnd right)).pays (by simp)
    | name =>
      -- Only a name or a number is joined to the operand.
      simp only [infixed, obeys_ite, obeys_bind, obeys_nextIsOneOf, obeys_pure, thrift_look]
      refine ⟨fun _ => ⟨by simp, ?_⟩, by simp [Rule.Pays]⟩
      simp only [Symbol.fits_some]
      rintro _ rfl
      refine ⟨fun joins => (advances_adjoined ?_ (by simp)).pays (by simp), by simp [Rule.Pays]⟩
      simp only [List.contains_cons, List.contains_nil, Bool.or_eq_true, beq_iff_eq] at joins
      rcases joins with named | whole | fraction | absurdly
      · simp [named, TokenKind.GoesOn, TokenKind.endsStatement]
      · simp [whole, TokenKind.GoesOn, TokenKind.endsStatement]
      · simp [fraction, TokenKind.GoesOn, TokenKind.endsStatement]
      · exact Bool.noConfusion absurdly

/-- A block makes up for some of what is spent in it. -/
theorem advances_block (known : symbol.kind = .sign .leftBrace) {read : Bool}
    (enough : spent + 6 < lookCap reach read) :
    block.Advances reach ⟨read, spent, some symbol⟩ 12 := by
  have items : (call .blockItems).Spends 0 16 := spends_call (by simp) (by simp)
  have closing : (require (.sign .rightBrace)).Spends 16 18 := spends_require (by simp) (by simp)
  refine advances_nodeOf ((advances_require known enough).bind fun _ => ?_)
  exact items.bind fun _ => closing

/-- A block after one look at its brace, or something else. -/
theorem spends_block_or {stop : Nat} {other : Parser Unit} (few : start ≤ 38) (enough : 12 ≤ stop)
    (rest : other.Spends (start + 1) stop) :
    (nextIs (.sign .leftBrace) >>= fun found => if found = true then block else other).Spends start
      stop := by
  intro reach spent seen within
  -- The look at the brace makes sure that the block reads it.
  refine advances_choice ?_ (fun symbol _ found => ?_) fun symbol _ _ => ?_
  · exact Nat.lt_of_le_of_lt (Nat.le_trans within few) (by simp)
  · refine (advances_block (beq_iff_eq.mp found) ?_).weaken enough
    show spent + 1 + 6 < 46
    omega
  · exact rest reach (spent + 1) _ (by omega)

/-- The body of a loop costs as much as a statement. -/
theorem spends_loopBody : loopBody.Spends 0 13 :=
  spends_block_or (by simp) (by simp) (spends_call (by simp) (by simp))

/-- A loop with a condition costs no more than a statement in its body. -/
theorem advances_whileLoop (known : symbol.kind = .keyword .whileWord) :
    whileLoop.Advances 24 ⟨false, 1, some symbol⟩ 12 := by
  have condition : expressionStatement.Spends 0 3 := spends_expressionStatement (by simp) (by simp)
  have body : loopBody.Spends 0 18 := spends_loopBody.weaken le_rfl (by simp)
  refine advances_nodeOf ((advances_require known (by simp)).bind fun _ => ?_)
  refine spends_expect (by simp) (condition.bind fun _ => ?_) (spends_pure _ (by simp))
  exact spends_expect (by simp) body (spends_pure _ (by simp))

/-- The clauses of a counting loop after the first cost a look besides an expression. -/
theorem spends_furtherClauses : furtherClauses.Spends 3 4 := by
  have clause : expressionStatement.Spends 0 3 := spends_expressionStatement (by simp) (by simp)
  have last : expressionStatement.Spends 0 4 := spends_expressionStatement (by simp) (by simp)
  refine spends_accept (by simp) (clause.bind fun _ => ?_) (spends_pure _ (by simp))
  exact spends_accept (by simp) last (spends_pure _ (by simp))

/-- A counting loop costs as much as a statement in its body. -/
theorem spends_countingRest : countingRest.Spends 0 13 := by
  have first : expressionStatement.Spends 0 3 := spends_expressionStatement (by simp) (by simp)
  refine first.bind fun _ => spends_furtherClauses.bind fun _ => ?_
  exact spends_expect (by simp) spends_loopBody (spends_pure _ (by simp))

/-- The item of a loop over members costs at most two looks besides an expression. -/
theorem spends_member : member.Spends 1 7 := by
  have item : expressionStatement.Spends 2 5 := spends_expressionStatement (by simp) (by simp)
  have whole : expressionStatement.Spends 0 7 := spends_expressionStatement (by simp) (by simp)
  refine spends_choice (by simp) (item.bind fun _ => ?_) (spends_pure _ (by simp))
  exact spends_expect (by simp) whole (spends_pure _ (by simp))

/-- A loop over members may cost the looks for all of its parts. -/
theorem spends_memberRest : memberRest.Spends 1 18 := by
  -- None of the parts need be there, and each that is missing leaves its looks to the next.
  have stride : expressionStatement.Spends 0 8 := spends_expressionStatement (by simp) (by simp)
  have step : memberStep.Spends 7 8 := spends_accept (by simp) stride (spends_pure _ (by simp))
  have leads : (require (.keyword .doWord)).Spends 8 10 := spends_require (by simp) (by simp)
  have body : (call .declaration).Spends 10 18 := spends_call (by simp) (by simp)
  exact spends_member.bind fun _ => step.bind fun _ => leads.bind fun _ => body

/-- A loop that counts or goes over members costs no more than the latter. -/
theorem advances_forLoop (known : symbol.kind = .keyword .forWord) :
    forLoop.Advances 24 ⟨false, 1, some symbol⟩ 12 := by
  refine advances_node ((advances_require known (by simp)).bind fun _ => ?_)
  refine spends_accept (by simp) (spends_countingRest.bind fun _ => ?_)
    (spends_memberRest.bind fun _ => ?_)
  · exact spends_pure _ (by simp)
  · exact spends_pure _ (by simp)

/-- The value after a jump costs three looks besides an expression. -/
theorem spends_jumpValue (keyword : TokenKind) : (jumpValue keyword).Spends 0 6 := by
  have value : expressionStatement.Spends 3 6 := spends_expressionStatement (by simp) (by simp)
  refine spends_ite ?_ (spends_pure _ (by simp))
  refine spends_choice (by simp) (spends_pure _ (by simp)) ?_
  refine spends_choice (by simp) (spends_pure _ (by simp)) ?_
  exact spends_choice (by simp) (spends_pure _ (by simp)) value

/-- A jump makes up for what is spent on its value. -/
theorem advances_jump : jump.Advances 24 ⟨false, 1, some symbol⟩ 0 := by
  -- The keyword is looked at once more and read.
  refine advances_node ⟨by simp, fun next _ => ?_⟩
  exact advances_bump.bind fun _ => (spends_jumpValue _).bind fun _ => spends_pure _ (by simp)

/-- A directive makes up for what is spent on it. -/
theorem advances_pragma (known : symbol.kind = .keyword .pragmaWord) :
    pragma.Advances 24 ⟨false, 1, some symbol⟩ 0 := by
  have value : bump.Spends 1 6 := .of_advances fun _ _ => advances_bump.weaken (by simp)
  refine advances_nodeOf ((advances_require known (by simp)).bind fun _ => ?_)
  refine spends_expect (by simp) ?_ (spends_pure _ (by simp))
  refine spends_expect (by simp) ?_ (spends_pure _ (by simp))
  exact spends_choice (by simp) value (spends_pure _ (by simp))

/-- An inclusion makes up for what is spent on it. -/
theorem advances_inclusion (known : symbol.kind = .keyword .includeWord) :
    inclusion.Advances 24 ⟨false, 1, some symbol⟩ 0 := by
  have path : (call .pathParts).Spends 0 3 := spends_call (by simp) (by simp)
  have closing : (require (.sign .greater)).Spends 3 6 := spends_require (by simp) (by simp)
  have quoted : (require .string).Spends 1 6 := spends_require (by simp) (by simp)
  refine advances_nodeOf ((advances_require known (by simp)).bind fun _ => ?_)
  exact spends_accept (by simp) (path.bind fun _ => closing) quoted

/-- A statement pays for what it spends if it reads something and leaves a look for what ends it. -/
theorem pays_statement {α : Type} {parser : Parser α} (advances : parser.Advances 24 state 12) :
    (parser >>= fun _ => call .statementEnds).Obeys (thrift 24) state
      fun _ => Rule.statement.Pays := by
  have ends : (call .statementEnds).Spends 12 13 := spends_call (by simp) (by simp)
  exact (advances.bind fun _ => ends).pays (by simp)

/-- A statement that is an expression may read nothing at the end of the text. -/
theorem pays_expressionStatement :
    (expressionStatement >>= fun _ => call .statementEnds).Obeys (thrift 24)
      ⟨false, 1, some symbol⟩ fun _ => Rule.statement.Pays := by
  simp only [expressionStatement, obeys_bind, obeys_nodeOf, obeys_call, thrift_enter, thrift_call,
    thrift_close, Symbol.fits_some]
  refine ⟨by simp, ?_, by simp [Rule.Pays]⟩
  -- A line break ends a statement, so only the end of the text is left.
  rintro _ rfl (final | broken)
  · simp [Rule.Pays, final]
  · simp [Rule.Pays, broken, TokenKind.endsStatement]

/-- A rule for statements pays for what it spends. -/
theorem thrifty_statement : Rule.statement.Thrifty := by
  simp only [Rule.Thrifty, Rule.body, statement, obeys_bind, obeys_look, thrift_look]
  refine ⟨by simp, ?_⟩
  intro symbol _
  -- The first look tells which statement it is, so its keyword need not be looked for again.
  have choice (known : symbol.kind = .keyword .ifWord) :
      (call .conditional).Advances 24 ⟨false, 1, some symbol⟩ 8 :=
    advances_call (by simp) (by simp [known]) (by simp)
  rw [← obeys_bind]
  unfold simpleStatement
  split <;> rename_i known
  · exact pays_statement (advances_block known (by simp))
  · exact pays_statement ((choice known).weaken (by simp))
  · exact pays_statement (advances_whileLoop known)
  · exact pays_statement ((advances_forLoop known).bind fun _ => spends_pure _ (by simp))
  · exact pays_statement (advances_jump.bind fun _ => spends_pure _ (by simp))
  · exact pays_statement (advances_jump.bind fun _ => spends_pure _ (by simp))
  · exact pays_statement (advances_jump.bind fun _ => spends_pure _ (by simp))
  · exact pays_statement ((advances_pragma known).weaken (by simp))
  · exact pays_statement ((advances_inclusion known).weaken (by simp))
  · exact pays_expressionStatement

/-- What follows a block on a condition costs at most a look besides a statement. -/
theorem spends_alternative : alternative.Spends 13 14 := by
  -- Whichever rule is called, a single look was spent before it.
  have other : (call .conditional).Spends 1 14 := spends_call (by simp) (by simp)
  have plain : (call .statement).Spends 1 14 := spends_call (by simp) (by simp)
  refine spends_accept (by simp) ?_ (spends_pure _ (by simp))
  intro reach spent seen few
  refine ⟨by simp only [lookCap_true, allowance]; omega, ?_⟩
  intro symbol _
  dsimp only
  split <;> rename_i known
  · exact other reach _ _ (by omega)
  · refine (advances_block known ?_).weaken (by simp)
    simp only [lookCap_true, allowance]
    omega
  · exact plain reach _ _ (by omega)

/-- What follows the condition between parentheses costs at most a look besides a statement. -/
theorem spends_conditionalBody : conditionalBody.Spends 0 14 := by
  -- Line breaks, a brace and a word are looked for before there is a statement.
  have lines : (call .lineEnds).Spends 0 1 := spends_call (by simp) (by simp)
  have one : (call .statement).Spends 2 13 := spends_call (by simp) (by simp)
  have other : (call .statement).Spends 3 13 := spends_call (by simp) (by simp)
  have last : (call .statement).Spends 0 14 := spends_call (by simp) (by simp)
  have value : expressionStatement.Spends 0 14 := spends_expressionStatement (by simp) (by simp)
  refine lines.bind fun _ => spends_choice (by simp) (one.bind fun _ => spends_alternative) ?_
  refine spends_accept (by simp) value (other.bind fun _ => ?_)
  exact spends_accept (by simp) last (spends_pure _ (by simp))

/-- A condition between parentheses and what follows it cost at most a look besides a statement. -/
theorem spends_condition :
    (do
      expressionStatement
      if ← expect (.sign .rightParen) then conditionalBody).Spends 0 14 := by
  have tested : expressionStatement.Spends 0 3 := spends_expressionStatement (by simp) (by simp)
  refine tested.bind fun _ => ?_
  exact spends_expect (by simp) spends_conditionalBody (spends_pure _ (by simp))

/-- A value that is chosen costs three looks. -/
theorem spends_choiceValue :
    (do
      if ← accept (.keyword .thenWord) then expressionStatement).Spends 4 14 :=
  spends_accept (by simp) (spends_expressionStatement (by simp) (by simp))
    (spends_pure _ (by simp))

/-- A condition without parentheses may be missing when the choice has no word at its beginning. -/
theorem pays_bareCondition :
    (do
      expressionStatement
      if ← accept (.keyword .thenWord) then expressionStatement).Obeys (thrift 23)
      ⟨false, 9, some symbol⟩
      fun _ inner => Rule.conditional.Pays ⟨inner.read, inner.spent - 6, inner.seen⟩ := by
  rw [obeys_bind, expressionStatement, obeys_nodeOf, obeys_call]
  simp only [thrift_enter, thrift_call, thrift_close, Symbol.fits_some]
  refine ⟨by simp, ?_, ?_⟩
  · -- If the condition is missing there is no word after it either.
    rintro _ rfl (final | broken)
    · simp [Rule.Pays, final]
    · simp [Rule.Pays, broken]
  · exact (spends_choiceValue _ _ _ (by simp)).paysInside (by simp)

/-- A rule for choices pays for what it spends. -/
theorem thrifty_conditional : Rule.conditional.Thrifty := by
  have bare : expressionStatement.Spends 1 4 := spends_expressionStatement (by simp) (by simp)
  simp only [Rule.Thrifty, Rule.body, conditional, obeys_nodeOf, thrift_enter, thrift_close]
  rw [obeys_bind, obeys_require]
  simp only [thrift_look, thrift_bump, thrift_report]
  refine ⟨by simp, fun symbol _ => ⟨fun _ => ?_, fun _ => ⟨by simp, fun next _ => ?_⟩⟩⟩
  · -- The word at the beginning was read, which makes up for everything.
    have rest := @spends_accept 0 14 Unit (.sign .leftParen) _ _ (by simp) spends_condition
      (bare.bind fun _ => spends_choiceValue)
    exact (rest _ 0 _ le_rfl).paysInside (by simp)
  · -- The word is missing, but a condition may still be read.
    rw [obeys_bind, obeys_accept]
    simp only [thrift_look, thrift_bump]
    refine ⟨by simp, fun further _ => ⟨fun _ => ?_, fun _ => pays_bareCondition⟩⟩
    exact (spends_condition _ 0 _ le_rfl).paysInside (by simp)

/-- The parameters of a function may all be missing. -/
theorem spends_parameterList : parameterList.Spends 1 9 := by
  have parameters : (call .parameters).Spends 7 15 := spends_call (by simp) (by simp)
  refine spends_expect (by simp) (spends_choice (by simp) (spends_pure _ (by simp)) ?_)
    (spends_pure _ (by simp))
  exact spends_nodeOf parameters

/-- The parameters and the body of a function cost at most as much as a block. -/
theorem spends_functionRest : functionRest.Spends 1 12 := by
  -- Most is spent when everything but the brace of the body is missing.
  have closing : (require (.sign .rightParen)).Spends 9 11 := spends_require (by simp) (by simp)
  have body : functionBody.Spends 11 12 :=
    spends_block_or (by simp) (by simp) (spends_pure _ (by simp))
  exact spends_parameterList.bind fun _ => closing.bind fun _ => body.bind fun _ =>
    spends_pure _ (by simp)

/-- More names cost two looks. -/
theorem spends_nameList (enough : start ≤ 30) : nameList.Spends start (start + 2) := by
  have names : (call .furtherNames).Spends (start + 1 + 6) (start + 2 + 6) :=
    spends_call (by simp; omega) (by simp)
  exact spends_choice (by simp; omega) (spends_wrapIn names) (spends_pure _ (by simp))

/-- The end of a declared variable costs no more than further names do. -/
theorem spends_variableEnd (several : Bool) {stop : Nat} (enough : start ≤ 30)
    (costs : start + 2 ≤ stop) : (variableEnd several).Spends start stop :=
  spends_ite ((spends_nameList enough).bind fun _ => spends_pure _ costs)
    (spends_pure _ (by omega))

/-- The size of an array costs an expression and three looks. -/
theorem spends_arraySize : arraySize.Spends 0 6 := by
  have size : expressionStatement.Spends 1 4 := spends_expressionStatement (by simp) (by simp)
  have closing : (require (.sign .rightBracket)).Spends 4 6 := spends_require (by simp) (by simp)
  exact spends_accept (by simp) (spends_pure _ (by simp)) (size.bind fun _ => closing)

/-- The values given to an array cost at most what its last item costs, and two looks. -/
theorem spends_arrayValues : arrayValues.Spends 6 10 := by
  have items : (call .arrayItems).Spends 6 14 := spends_call (by simp) (by simp)
  have closing : (require (.sign .rightBrace)).Spends 8 10 := spends_require (by simp) (by simp)
  refine spends_accept (by simp) ?_ (spends_pure _ (by simp))
  refine spends_expect (by simp) ?_ (spends_pure _ (by simp))
  exact (spends_nodeOf items).bind fun _ => closing

/-- What follows the name of a variable costs at most as much as a block. -/
theorem spends_variableRest (several : Bool) : (variableRest several).Spends 1 12 := by
  have value : expressionStatement.Spends 0 3 := spends_expressionStatement (by simp) (by simp)
  have finish : (variableEnd several).Spends 3 12 := spends_variableEnd several (by simp) (by simp)
  refine spends_accept (by simp) (value.bind fun _ => finish) ?_
  refine spends_accept (by simp) ?_ finish
  exact spends_arraySize.bind fun _ => spends_arrayValues.bind fun _ => spends_pure _ (by simp)

/-- A declared name and all that follows it cost at most as much as a block. -/
theorem advances_declarator (several : Bool) : (declarator several).Advances reach state 12 := by
  -- The frame of the name makes no difference to what is spent.
  show Advances (do bumpAs .nameRef; if ← nextIs (.sign .leftParen) then _ else _) reach state 12
  refine advances_bumpAs.bind fun _ => ?_
  exact spends_choice (by simp) spends_functionRest (spends_variableRest several)

/-- A missing name costs a look and what is passed over in its place. -/
theorem spends_nameless {stop : Nat} (enough : start ≤ 30) (costs : start + 3 ≤ stop) :
    nameless.Spends start stop := by
  have note : (missing .name).Spends start (start + 1) :=
    (spends_look (by simp; omega)).bind fun symbol => fun _ _ _ few => ⟨rfl, few⟩
  have passed : (call .recovery).Spends (start + 1) (start + 3) :=
    spends_call (by simp; omega) (by simp)
  exact note.bind fun _ => passed.bind fun _ => spends_pure _ costs

/-- A declaration that starts with a type makes up for some of what is spent in it. -/
theorem advances_typedDeclaration : typedDeclaration.Advances reach state 6 := by
  have reference : (skip (.sign .ampersand)).Spends 0 1 := spends_skip (by simp)
  have named : (declarator true).Spends 2 12 :=
    .of_advances fun _ _ => advances_declarator true
  have other : nameless.Spends 2 12 := spends_nameless (by simp) (by simp)
  refine advances_node (advances_bumpAs.bind fun _ => reference.bind fun _ => ?_)
  exact spends_choice (by simp) named other

/-- A declaration after its qualifier costs a look besides a statement. -/
theorem spends_declared :
    (do
      if ← atType then
        let _ ← typedDeclaration
      else
        call .statement
        call .statementEnds).Spends 0 14 := by
  have typed : typedDeclaration.Spends 1 6 := .of_advances fun _ _ => advances_typedDeclaration
  have one : (call .statement).Spends 1 13 := spends_call (by simp) (by simp)
  have ends : (call .statementEnds).Spends 13 14 := spends_call (by simp) (by simp)
  exact spends_choice (by simp) (typed.bind fun _ => spends_pure _ (by simp))
    (one.bind fun _ => ends)

/-- A declaration without a qualifier may read nothing at the end of the text. -/
theorem pays_declared :
    (do
      if ← atType then
        let _ ← typedDeclaration
      else
        call .statement
        call .statementEnds).Obeys (thrift 26) ⟨false, 1, some symbol⟩
      fun _ => Rule.declaration.Pays := by
  rw [obeys_bind, obeys_atType]
  simp only [thrift_look, Symbol.fits_some]
  refine ⟨by simp, ?_⟩
  rintro next rfl
  cases next.namesType with
  | true =>
    exact (advances_typedDeclaration.bind fun _ => spends_pure () le_rfl).pays (by simp)
  | false =>
    -- Two rules for the ends of statements follow each other, and neither reads at the end.
    simp [Rule.Pays]
    exact fun final _ => final

/-- Warning of a qualifier costs nothing. -/
theorem obeys_warnOfQualifier_thrift (kind : TokenKind) {post : Unit → Spending → Prop}
    (after : post () state) : (warnOfQualifier kind).Obeys (thrift reach) state post := by
  unfold warnOfQualifier
  split
  · exact after
  · exact after

/-- A rule for declarations pays for what it spends. -/
theorem thrifty_declaration : Rule.declaration.Thrifty := by
  have qualified : qualifier.Obeys (thrift 26) ⟨false, 0, none⟩ fun _ after =>
      after = ⟨true, 0, none⟩ ∨ ∃ symbol, after = ⟨false, 1, some symbol⟩ := by
    simp only [qualifier, obeys_bind, obeys_nextIsOneOf, obeys_ite, obeys_look, obeys_bumpAs,
      obeys_pure, thrift_look, thrift_bump, thrift_close]
    refine ⟨by simp, fun symbol _ => ⟨fun _ => ⟨by simp, fun word _ => ?_⟩, fun _ => ?_⟩⟩
    · exact obeys_warnOfQualifier_thrift _ (.inl trivial)
    · exact .inr ⟨symbol, rfl⟩
  simp only [Rule.Thrifty, Rule.body, declaration]
  rw [obeys_bind]
  refine Obeys.imp qualified ?_
  -- Either a qualifier was read, or one look was spent on it.
  rintro _ _ (rfl | ⟨symbol, rfl⟩)
  · exact (spends_declared _ 0 _ le_rfl).pays (by simp)
  · exact pays_declared

/-- A parameter after its type costs at most as much as a block. -/
theorem advances_typedParameter :
    (do
      bumpAs .typeRef
      skip (.sign .ampersand)
      if ← nextIs .name then declarator false
      else return .funcDecl).Advances reach state 12 := by
  have reference : (skip (.sign .ampersand)).Spends 0 1 := spends_skip (by simp)
  have named : (declarator false).Spends 2 12 :=
    .of_advances fun _ _ => advances_declarator false
  exact advances_bumpAs.bind fun _ => reference.bind fun _ =>
    spends_choice (by simp) named (spends_pure _ (by simp))

/-- A name and what follows it cost at most as much as a block. -/
theorem advances_namedParameter :
    (do
      bumpAs .nameRef
      variableRest false).Advances reach state 12 :=
  advances_bumpAs.bind fun _ => (spends_variableRest false).weaken (by simp) le_rfl

/-- A name after a reference and what follows it cost at most as much as a block. -/
theorem spends_namedParameter :
    (do
      if ← nextIs .name then
        bumpAs .nameRef
        variableRest false
      else nameless).Spends 0 12 := by
  have other : nameless.Spends 1 12 := spends_nameless (by simp) (by simp)
  exact spends_choice (by simp) (.of_advances fun _ _ => advances_namedParameter) other

/-- A parameter may read nothing if both its type and its name are missing. -/
theorem obeys_parameter :
    parameter.Obeys (thrift 19) ⟨false, 7, some symbol⟩ fun _ after =>
      after.read = true ∧ after.spent ≤ 6 ∨ after.read = false ∧ after.spent ≤ 13 := by
  -- Whatever is read makes up for the looks before it.
  have read {parser : Parser NodeKind} {state : Spending} (advances : parser.Advances 19 state 12) :
      parser.Obeys (thrift 19) state fun _ inner => inner.read = true ∧ inner.spent - 6 ≤ 6
        ∨ inner.read = false ∧ inner.spent - 6 ≤ 13 :=
    advances.obeys fun _ _ _ few => .inl ⟨rfl, Nat.sub_le_of_le_add few⟩
  rw [parameter, obeys_node, obeys_bind, obeys_atType]
  simp only [thrift_enter, thrift_close, thrift_look]
  refine ⟨by simp, fun next _ => ?_⟩
  cases next.namesType with
  | true => exact read advances_typedParameter
  | false =>
    rw [if_neg Bool.false_ne_true, obeys_bind, skip, obeys_bind, obeys_accept]
    simp only [thrift_look, thrift_bump, obeys_pure]
    refine ⟨by simp, fun further _ => ⟨fun _ => ?_, fun _ => ?_⟩⟩
    · exact read (spends_namedParameter _ 0 _ le_rfl)
    -- Neither a type nor a reference was there, so only a name is left to be read.
    rw [obeys_bind, obeys_nextIs]
    simp only [thrift_look]
    refine ⟨by simp, fun last _ => ?_⟩
    cases last.kind == .name with
    | true => exact read advances_namedParameter
    | false => simp [nameless]

/-- A rule for parameters pays for what it spends. -/
theorem thrifty_parameters : Rule.parameters.Thrifty := by
  have more : (call .parameters).Spends 0 8 := spends_call (by simp) (by simp)
  simp only [Rule.Thrifty, Rule.body, parameters]
  rw [obeys_bind, obeys_nodeOf, obeys_bind, obeys_nextIsOneOf]
  simp only [thrift_enter, thrift_close, thrift_look]
  refine ⟨by simp, fun symbol _ => ?_⟩
  cases [TokenKind.sign .comma, .sign .rightParen].contains symbol.kind with
  | true => simp [Rule.Pays]
  | false =>
    rw [if_neg Bool.false_ne_true, obeys_bind]
    -- The comma after the parameter is looked for whether or not the parameter is there.
    refine Obeys.imp obeys_parameter ?_
    rintro kind ⟨_, spent, seen⟩ (⟨rfl, few⟩ | ⟨rfl, few⟩)
    · have rest : (accept (.sign .comma) >>= fun found =>
          if found = true then call .parameters else pure ()).Spends 0 8 :=
        spends_accept (by simp) more (spends_pure _ (by simp))
      exact (rest _ _ _ (Nat.sub_le_of_le_add few)).pays (by simp)
    · have few : spent ≤ 13 := few
      rw [obeys_pure, obeys_bind, obeys_accept]
      simp only [thrift_look, thrift_bump]
      refine ⟨?_, fun next _ => ⟨fun _ => (more _ 0 _ le_rfl).pays (by simp), fun _ => ?_⟩⟩
      · show spent - 6 + 1 ≤ 19
        omega
      · simp [Rule.Pays]
        omega

/-- Every rule pays for what it spends. -/
theorem thrifty (rule : Rule) : rule.Thrifty := by
  cases rule with
  | expression power => exact thrifty_expression power
  | operators operand power => exact thrifty_operators operand power
  | statement => exact thrifty_statement
  | conditional => exact thrifty_conditional
  | declaration => exact thrifty_declaration
  | parameters => exact thrifty_parameters
  | program =>
    simp [Rule.Thrifty, Rule.body, program, Rule.Pays]
    -- A declaration reads something before the end of the text.
    exact fun _ further _ => further
  | blockItems =>
    simp [Rule.Thrifty, Rule.body, blockItems, Rule.Pays]
    exact fun _ => ⟨.inr, fun _ => ⟨.inl, fun further _ => further⟩⟩
  | _ =>
    simp [Rule.Thrifty, Rule.body, recovery, lineEnds, statementEnds, pathParts, furtherNames,
      furtherName, initialValue, arrayItems, arrayItem, arguments, argument, expressionStatement,
      require, expect, skip, Rule.Pays]

end Dxl.Grammar
