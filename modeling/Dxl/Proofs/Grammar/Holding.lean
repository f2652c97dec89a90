import Dxl.Proofs.Form.Writing
import Dxl.Proofs.Grammar.Expression

/-! Holding: what the innermost open node holds so far, told step by step without running the parser, as far as nodes of some kinds depend on it. -/

namespace Dxl

/-- Tokens that are likely to start anew, up to which others are passed over after a missing name. -/
def TokenKind.startsAnew : TokenKind → Bool
  | .sign .semicolon | .keyword .forWord | .keyword .whileWord | .keyword .returnWord | .hardBreak
  | .endOfText => true
  | _ => false

/-- Just the end of the text and some tokens that recovery stops at start anew. -/
theorem TokenKind.startsAnew_iff (kind : TokenKind) :
    kind.startsAnew = true ↔ kind = .endOfText ∨ kind ∈ [.sign .semicolon, .keyword .forWord,
      .keyword .whileWord, .keyword .returnWord, .hardBreak] := by
  unfold startsAnew
  -- The cases of the table are the alternatives of the statement.
  split <;> simp_all

/-- Tokens that can neither begin an operand nor end a statement. -/
def TokenKind.isMisplaced (kind : TokenKind) : Bool :=
  match kind.operandStart with
  | .nothing => !kind.endsStatement && kind != .endOfText
  | _ => false

/-- A token is misplaced if nothing begins with it and nothing ends at it. -/
theorem TokenKind.isMisplaced_iff (kind : TokenKind) :
    kind.isMisplaced = true
      ↔ kind.operandStart = .nothing ∧ kind.endsStatement = false ∧ kind ≠ .endOfText := by
  unfold isMisplaced
  cases kind.operandStart <;> simp

/-- A token that names a type does not start anew. -/
theorem Symbol.startsAnew_of_namesType {symbol : Symbol} (isSeen : symbol.IsSeen)
    (names : symbol.namesType = true) : symbol.kind.startsAnew = false := by
  obtain ⟨token, rfl⟩ := isSeen
  change token.kind.namesType token.text = true at names
  show token.kind.startsAnew = false
  -- Only names and some keywords name types, and none of these starts anew.
  unfold TokenKind.namesType at names
  split at names <;> rename_i same <;> first | rw [same]; rfl | cases names

/-- Nodes that are only made around an operand. -/
def NodeKind.isSurrounding (kind : NodeKind) : Bool :=
  kind.isCompound && kind != .cast && kind != .grouping && kind != .prefixed

/-- Nodes of which it is told what they hold. -/
def NodeKind.isTold (kind : NodeKind) : Bool :=
  kind == .typeRef || kind == .skipped

/-- Of an operand that is put together of parts it is not told what it holds. -/
theorem NodeKind.isTold_of_isCompound {kind : NodeKind} (compound : kind.isCompound = true) :
    kind.isTold = false := by
  cases kind <;> first | rfl | cases compound

/-- What was read since a node was opened. -/
inductive Content where
  | nothing
  /-- A single token. -/
  | token (symbol : Symbol)
  /-- Tokens of which none starts anew. -/
  | passed
  | anything

namespace Content

/-- No token starts anew. -/
def isPassed : Content → Bool
  | .nothing | .passed => true
  | .token symbol => !symbol.kind.startsAnew
  | .anything => false

/-- More is read, in which no token starts anew if that is said. -/
def further (content : Content) (passes : Bool) : Content :=
  if content.isPassed && passes then .passed else .anything

/-- A token is read that was just seen. -/
def read (content : Content) (symbol : Symbol) : Content :=
  match content with
  | .nothing => .token symbol
  | content => content.further (!symbol.kind.startsAnew)

/-- Trivia before the next token is read, unless that was already seen. -/
def looked (content : Content) (seen : Option Symbol) : Content :=
  if seen.isSome then content else content.further true

section

variable (content : Content) (symbol : Symbol)

/-- Where nothing was read, no token starts anew. -/
@[simp] theorem isPassed_nothing : Content.nothing.isPassed = true := rfl

/-- No token starts anew if that is so of what was read before and of what is read further. -/
@[simp] theorem isPassed_further (passes : Bool) :
    (content.further passes).isPassed = (content.isPassed && passes) := by
  unfold further
  split <;> simp_all [isPassed]

/-- No token starts anew if that is so of what was read before and of the token that is read. -/
@[simp] theorem isPassed_read :
    (content.read symbol).isPassed = (content.isPassed && !symbol.kind.startsAnew) := by
  -- A single token is kept as it is; otherwise more is read.
  cases content <;> first | rfl | simp [read]

/-- Trivia does not start anew. -/
@[simp] theorem isPassed_looked (seen : Option Symbol) :
    (content.looked seen).isPassed = content.isPassed := by
  cases seen <;> simp [looked]

/-- Reading on in which no token starts anew is the same if a token that does not was read before. -/
theorem further_read (passes : symbol.kind.startsAnew = false) (seen : Option Symbol) :
    ((content.looked seen).read symbol).further true = content.further true := by
  simp [further, passes]

end

end Content

/-- A node may be closed by its body around what that has read: a type is a token that names one, and tokens are passed over either one at a time where they are misplaced, or all together up to one that starts anew. -/
def NodeKind.Accepts (kind : NodeKind) (seen : Option Symbol) (content : Content) : Prop :=
  match kind with
  | .typeRef => ∃ symbol, content = .token symbol ∧ symbol.namesType = true
  | .skipped => (∃ symbol, content = .token symbol ∧ symbol.kind.isMisplaced = true)
    ∨ content.isPassed = true ∧ ∃ symbol, seen = some symbol ∧ symbol.kind.startsAnew = true
  | kind => kind.isSurrounding = false

/-- A node that is closed by its body is not made around an operand. -/
theorem NodeKind.isSurrounding_of_accepts {kind : NodeKind} {seen : Option Symbol}
    {content : Content} (accepts : kind.Accepts seen content) : kind.isSurrounding = false := by
  cases kind <;> first | rfl | exact accepts

/-- What is seen and held after a rule: only the one that passes over tokens tells of it. -/
def Rule.Passes (content : Content) : Rule → Option Symbol → Content → Prop
  | .recovery => fun seen after =>
    (∃ symbol, seen = some symbol ∧ symbol.kind.startsAnew = true) ∧ after = content.further true
  | _ => fun seen after => seen = none ∧ after = .anything

/-- A parser closes nodes only around what they can hold, and reads only tokens that it has seen; in the end its value, what is seen and what is held are as they should be. -/
def Parser.Fills {α : Type} (parser : Parser α) (seen : Option Symbol) (content : Content)
    (post : α → Option Symbol → Content → Prop) : Prop :=
  match parser with
  | .done value => post value seen content
  | .andThen first next =>
    first.Fills seen content fun value known after => (next value).Fills known after post
  | .look => ∀ symbol : Symbol, symbol.Fits seen → symbol.IsSeen →
    post symbol (some symbol) (content.looked seen)
  | .bump => ∃ symbol, seen = some symbol ∧ post () none (content.read symbol)
  | .report _ => post () seen content
  | .node body =>
    body.Fills seen .nothing fun kind known inner =>
      kind.Accepts known inner ∧ post kind known (content.further inner.isPassed)
  | .frame body => body.Fills seen content post
  | .wrap body =>
    -- The node around it holds all of this as before.
    body.Fills seen content fun kind known after => kind.isTold = false ∧ post kind known after
  | .progress body =>
    body.Fills seen content fun _ known after => ∀ progressed, post progressed known after
  | .call rule => ∀ known after, rule.Passes content known after → post () known after

namespace Parser

variable {α β : Type} {seen : Option Symbol} {content : Content}

/-- Of two parsers the second one starts where the first one ends. -/
@[simp] theorem fills_bind (first : Parser α) (next : α → Parser β)
    (post : β → Option Symbol → Content → Prop) :
    (first >>= next).Fills seen content post
      ↔ first.Fills seen content fun value known after => (next value).Fills known after post :=
  Iff.rfl

/-- A parser that does nothing ends where it begins. -/
@[simp] theorem fills_pure (value : α) (post : α → Option Symbol → Content → Prop) :
    (pure value : Parser α).Fills seen content post ↔ post value seen content := Iff.rfl

/-- Of a choice the branch that is taken counts. -/
@[simp] theorem fills_ite (condition : Prop) [Decidable condition] (yes no : Parser α)
    (post : α → Option Symbol → Content → Prop) :
    (if condition then yes else no).Fills seen content post
      ↔ (condition → yes.Fills seen content post)
        ∧ (¬ condition → no.Fills seen content post) := by
  split <;> simp [*]

/-- A look sees a token that can come next. -/
@[simp] theorem fills_look (post : Symbol → Option Symbol → Content → Prop) :
    look.Fills seen content post
      ↔ ∀ symbol : Symbol, symbol.Fits seen → symbol.IsSeen →
          post symbol (some symbol) (content.looked seen) := Iff.rfl

/-- The token that was seen is read. -/
@[simp] theorem fills_bump (post : Unit → Option Symbol → Content → Prop) :
    bump.Fills seen content post
      ↔ ∃ symbol, seen = some symbol ∧ post () none (content.read symbol) := Iff.rfl

/-- A mistake changes nothing of what is held. -/
@[simp] theorem fills_report (mistake : Mistake) (post : Unit → Option Symbol → Content → Prop) :
    (report mistake).Fills seen content post ↔ post () seen content := Iff.rfl

/-- What is read in an inner frame is held by the same node. -/
@[simp] theorem fills_frame (body : Parser α) (post : α → Option Symbol → Content → Prop) :
    (frame body).Fills seen content post ↔ body.Fills seen content post := Iff.rfl

/-- A body that is tested for progress reads what it does without the test. -/
@[simp] theorem fills_progress (body : Parser Unit) (post : Bool → Option Symbol → Content → Prop) :
    (progress body).Fills seen content post
      ↔ body.Fills seen content fun _ known after => ∀ progressed, post progressed known after :=
  Iff.rfl

/-- A rule leaves what it may. -/
@[simp] theorem fills_call (rule : Rule) (post : Unit → Option Symbol → Content → Prop) :
    (call rule).Fills seen content post
      ↔ ∀ known after, rule.Passes content known after → post () known after := Iff.rfl

/-- A node is closed around what its body reads. -/
@[simp] theorem fills_node (body : Parser NodeKind)
    (post : NodeKind → Option Symbol → Content → Prop) :
    (node body).Fills seen content post
      ↔ body.Fills seen .nothing fun kind known inner =>
          kind.Accepts known inner ∧ post kind known (content.further inner.isPassed) := Iff.rfl

/-- A node of one kind is closed around what its body reads. -/
@[simp] theorem fills_nodeOf (kind : NodeKind) (body : Parser Unit)
    (post : Unit → Option Symbol → Content → Prop) :
    (nodeOf kind body).Fills seen content post
      ↔ body.Fills seen .nothing fun _ known inner =>
          kind.Accepts known inner ∧ post () known (content.further inner.isPassed) := Iff.rfl

/-- A node around an operand is of a kind that asks for nothing. -/
@[simp] theorem fills_wrap (body : Parser NodeKind)
    (post : NodeKind → Option Symbol → Content → Prop) :
    (wrap body).Fills seen content post
      ↔ body.Fills seen content fun kind known after =>
          kind.isTold = false ∧ post kind known after := Iff.rfl

/-- A node of one kind around an operand asks for nothing. -/
@[simp] theorem fills_wrapIn (kind : NodeKind) (body : Parser Unit)
    (post : Unit → Option Symbol → Content → Prop) :
    (wrapIn kind body).Fills seen content post
      ↔ body.Fills seen content fun _ known after =>
          kind.isTold = false ∧ post () known after := Iff.rfl

/-- A node is closed around the token that was seen. -/
@[simp] theorem fills_bumpAs (kind : NodeKind) (post : Unit → Option Symbol → Content → Prop) :
    (bumpAs kind).Fills seen content post
      ↔ ∃ symbol, seen = some symbol ∧ kind.Accepts none (.token symbol)
          ∧ post () none (content.further !symbol.kind.startsAnew) := Iff.rfl

/-- Testing the kind of the next token is a look. -/
@[simp] theorem fills_nextIs (kind : TokenKind) (post : Bool → Option Symbol → Content → Prop) :
    (nextIs kind).Fills seen content post
      ↔ ∀ symbol : Symbol, symbol.Fits seen → symbol.IsSeen →
          post (symbol.kind == kind) (some symbol) (content.looked seen) := Iff.rfl

/-- Comparing the kind of the next token with several is a look. -/
@[simp] theorem fills_nextIsOneOf (kinds : List TokenKind)
    (post : Bool → Option Symbol → Content → Prop) :
    (nextIsOneOf kinds).Fills seen content post
      ↔ ∀ symbol : Symbol, symbol.Fits seen → symbol.IsSeen →
          post (kinds.contains symbol.kind) (some symbol) (content.looked seen) := Iff.rfl

/-- Testing for the end of the text is a look. -/
@[simp] theorem fills_atEnd (post : Bool → Option Symbol → Content → Prop) :
    atEnd.Fills seen content post
      ↔ ∀ symbol : Symbol, symbol.Fits seen → symbol.IsSeen →
          post (symbol.kind == .endOfText) (some symbol) (content.looked seen) := Iff.rfl

/-- Testing for the end of a statement is a look. -/
@[simp] theorem fills_atStatementEnd (post : Bool → Option Symbol → Content → Prop) :
    atStatementEnd.Fills seen content post
      ↔ ∀ symbol : Symbol, symbol.Fits seen → symbol.IsSeen →
          post symbol.kind.endsStatement (some symbol) (content.looked seen) := Iff.rfl

/-- Testing for a type is a look. -/
@[simp] theorem fills_atType (post : Bool → Option Symbol → Content → Prop) :
    atType.Fills seen content post
      ↔ ∀ symbol : Symbol, symbol.Fits seen → symbol.IsSeen →
          post symbol.namesType (some symbol) (content.looked seen) := Iff.rfl

/-- A token is read after a look at it if it is of the given kind. -/
@[simp] theorem fills_accept (kind : TokenKind) (post : Bool → Option Symbol → Content → Prop) :
    (accept kind).Fills seen content post
      ↔ ∀ symbol : Symbol, symbol.Fits seen → symbol.IsSeen →
          (symbol.kind = kind → post true none ((content.looked seen).read symbol))
            ∧ (symbol.kind ≠ kind → post false (some symbol) (content.looked seen)) := by
  simp [accept]

/-- What is held can be told with less precision. -/
theorem Fills.mono {parser : Parser α} {post weaker : α → Option Symbol → Content → Prop}
    (fills : parser.Fills seen content post)
    (implied : ∀ value known after, post value known after → weaker value known after) :
    parser.Fills seen content weaker := by
  -- The induction follows the program, and each step hands its own end on.
  induction parser generalizing seen content with
  | done value => exact implied _ _ _ fills
  -- The end of the first part is where the second begins, so only the second is weakened.
  | andThen first next ihFirst ihNext =>
    exact ihFirst fills fun value known after further => ihNext value further implied
  | look => exact fun symbol fits isSeen => implied _ _ _ (fills symbol fits isSeen)
  | bump => exact fills.imp fun symbol ⟨same, holds⟩ => ⟨same, implied _ _ _ holds⟩
  | report mistake => exact implied _ _ _ fills
  | node body ih => exact ih fills fun _ _ _ ⟨accepts, holds⟩ => ⟨accepts, implied _ _ _ holds⟩
  | frame body ih => exact ih fills implied
  | wrap body ih => exact ih fills fun _ _ _ ⟨untold, holds⟩ => ⟨untold, implied _ _ _ holds⟩
  | progress body ih =>
    exact ih fills fun _ _ _ holds progressed => implied _ _ _ (holds progressed)
  | call rule => exact fun known after passes => implied _ _ _ (fills known after passes)

end Parser

end Dxl

namespace Dxl.Grammar

open Dxl.Parser

/-- Tokens are passed over up to one that starts anew. -/
theorem fills_recovery (content : Content) :
    recovery.Fills none content fun _ known after => Rule.recovery.Passes content known after := by
  have stops {symbol : Symbol} (anew : symbol.kind.startsAnew = true) :
      Rule.recovery.Passes content (some symbol) (content.looked none) :=
    ⟨⟨symbol, rfl, anew⟩, rfl⟩
  -- The rule looks for the end first and for the other tokens then, at the same token.
  simp only [recovery, fills_bind, fills_atEnd, fills_nextIsOneOf, fills_pure, fills_ite,
    fills_bump, fills_call, Symbol.fits_none, Symbol.fits_some, true_imp_iff, forall_eq]
  intro symbol _
  constructor
  · intro final
    exact stops (symbol.kind.startsAnew_iff.mpr (.inl (beq_iff_eq.mp final)))
  · intro goesOn _
    constructor
    · intro among
      exact stops (symbol.kind.startsAnew_iff.mpr (.inr (List.contains_iff_mem.mp among)))
    · intro other
      -- Both tests failed, which together say that the token does not start anew.
      have passes : symbol.kind.startsAnew = false := by
        rw [← Bool.not_eq_true, symbol.kind.startsAnew_iff]
        rintro (final | among)
        · exact goesOn (beq_iff_eq.mpr final)
        · exact other (List.contains_iff_mem.mpr among)
      refine ⟨symbol, rfl, ?_⟩
      -- The call goes on from the content with the token in it.
      rintro known after ⟨anew, rfl⟩
      exact ⟨anew, content.further_read symbol passes none⟩

/-- Where a name is missing, tokens are passed over that may go into one node. -/
theorem fills_nameless {seen : Option Symbol} {content : Content}
    {post : NodeKind → Option Symbol → Content → Prop} (passed : content.isPassed = true)
    (after : ∀ known later, NodeKind.skipped.Accepts known later → post .skipped known later) :
    nameless.Fills seen content post := by
  simp only [nameless, missing, fills_bind, fills_look, fills_report, fills_call, fills_pure]
  -- Recovery stops at a token that starts anew, as the node asks for.
  rintro _ _ _ known later ⟨anew, rfl⟩
  exact after known _ (.inr ⟨by simp [passed], anew⟩)

/-- Every token that is an operand by itself may be closed alone. -/
theorem accepts_atom {kind : TokenKind} {made : NodeKind} (starts : kind.operandStart = .atom made)
    (seen : Option Symbol) (content : Content) : made.Accepts seen content := by
  -- Nothing is told of the three kinds of nodes for a token alone.
  rcases TokenKind.eq_of_atom starts with rfl | rfl | rfl <;> rfl

/-- What begins an operand is closed around anything, but a token that is passed over is misplaced. -/
theorem fills_expression (power : Nat) :
    (expression power).Fills none .anything fun _ _ _ => True := by
  simp only [expression, fills_bind, fills_look]
  intro symbol _ isSeen
  split
  case h_1 starts => simp [accepts_atom starts, Rule.Passes]
  -- Where nothing begins, the single token goes into a node of its own.
  case h_5 starts =>
    simp +contextual [NodeKind.Accepts, TokenKind.isMisplaced_iff, starts]
  all_goals
    simp [group, acceptType, require, expect, missing, NodeKind.Accepts, NodeKind.isSurrounding,
      NodeKind.isCompound, Rule.Passes]

/-- What follows an operand is closed around anything, but a type. -/
theorem fills_operators (operand : NodeKind) (power : Nat) :
    (operators operand power).Fills none .anything fun _ _ _ => True := by
  simp only [operators, fills_bind, fills_look]
  intro symbol _ _
  have spec := symbol.kind.continuation_spec operand
  -- The cases are those of the table of continuations.
  split <;> rename_i continues <;> simp only [continues] at spec
  -- The nodes whose kind is not written out here are compound, so nothing is told of them.
  case h_4 => simp [rightOperand, NodeKind.isTold_of_isCompound spec.2]
  -- Infix operators come in several forms, and only a binary one names the kind of its node.
  case h_8 left right form =>
    cases form with
    | binary made => simp [infixed, rightOperand, NodeKind.isTold_of_isCompound (spec.2 made rfl)]
    | _ => simp [infixed, branches, upperEnd, adjoined, expect, missing, NodeKind.isTold]
  all_goals
    simp [application, indexed, adjoined, group, acceptType, argumentList, expressionStatement,
      sliceEnd, require, expect, missing, Rule.Passes, NodeKind.Accepts, NodeKind.isSurrounding,
      NodeKind.isCompound, NodeKind.isTold]

/-- A jump is closed around anything. -/
theorem fills_jump {seen : Option Symbol} {content : Content}
    {post : NodeKind → Option Symbol → Content → Prop}
    (after : ∀ kind known later, post kind known later) : jump.Fills seen content post := by
  -- Whatever the keyword, the node of a jump is not made around an operand.
  have jumps (kind : TokenKind) (known : Option Symbol) (inner : Content) :
      (jumpNode kind).Accepts known inner := by
    unfold jumpNode
    split <;> rfl
  have plain (known : Option Symbol) (inner : Content) :
      NodeKind.exprStmt.Accepts known inner := rfl
  simp [jump, jumpValue, expressionStatement, jumps, plain, after]

/-- A statement is closed around anything. -/
theorem fills_statement : statement.Fills none .anything fun _ _ _ => True := by
  simp only [statement, fills_bind, fills_look]
  intro symbol _ _
  unfold simpleStatement
  -- Each token that begins a statement leads to its own rule.
  split <;>
    simp [block, whileLoop, loopBody, forLoop, countingRest, furtherClauses, memberRest, member,
      memberStep, fills_jump, pragma, inclusion, expressionStatement, require, expect, missing,
      NodeKind.Accepts, NodeKind.isSurrounding, NodeKind.isCompound]

/-- What follows a block on a condition is closed around anything. -/
theorem fills_alternative {seen : Option Symbol} {content : Content} :
    alternative.Fills seen content fun _ _ _ => True := by
  simp only [alternative, fills_bind, fills_accept, fills_ite, fills_look]
  refine fun symbol _ _ => ⟨fun _ => ⟨fun _ next _ _ => ?_, by simp⟩, by simp⟩
  -- Another choice, a block or any other statement may follow.
  split <;>
    simp [block, require, expect, missing, NodeKind.Accepts, NodeKind.isSurrounding,
      NodeKind.isCompound]

/-- A warning of a qualifier leaves everything in place. -/
theorem fills_warnOfQualifier (kind : TokenKind) {seen : Option Symbol} {content : Content}
    {post : Unit → Option Symbol → Content → Prop} :
    (warnOfQualifier kind).Fills seen content post ↔ post () seen content := by
  unfold warnOfQualifier
  -- A warning reports a mistake at most.
  split <;> simp

/-- A variable is closed around anything. -/
theorem fills_variableRest (several : Bool) (seen : Option Symbol) (content : Content) :
    (variableRest several).Fills seen content fun kind known after => kind.Accepts known after := by
  -- A list of further names is made only where several names are allowed.
  cases several <;>
    simp [variableRest, variableEnd, nameList, arrayRest, arraySize, arrayValues,
      expressionStatement, require, expect, missing, NodeKind.Accepts, NodeKind.isSurrounding,
      NodeKind.isCompound, NodeKind.isTold]

/-- A function is closed around anything. -/
theorem fills_functionRest (seen : Option Symbol) (content : Content) :
    functionRest.Fills seen content fun kind known after => kind.Accepts known after := by
  simp [functionRest, functionBody, parameterList, block, require, expect, missing,
    NodeKind.Accepts, NodeKind.isSurrounding, NodeKind.isCompound]

/-- What is declared is closed around anything. -/
theorem fills_declarator (several : Bool) (symbol : Symbol) (content : Content) :
    (declarator several).Fills (some symbol) content fun kind known after =>
      kind.Accepts known after := by
  simp only [declarator, fills_frame, fills_bind, fills_bumpAs, fills_nextIs, fills_ite]
  refine ⟨symbol, rfl, rfl, fun next _ _ => ?_⟩
  -- A parenthesis after the name tells a function from a variable.
  constructor
  · intro _
    exact fills_functionRest _ _
  · intro _
    exact fills_variableRest several _ _

/-- A mark before a name does not start anew, if there is one. -/
theorem fills_skip {seen : Option Symbol} {content : Content}
    {post : Unit → Option Symbol → Content → Prop} (passed : content.isPassed = true)
    (after : ∀ known later, later.isPassed = true → post () known later) :
    (skip (.sign .ampersand)).Fills seen content post := by
  simp only [skip, fills_bind, fills_accept, fills_pure]
  intro symbol _ _
  -- The mark is consumed if it is there, and otherwise the token is only looked at.
  constructor
  · intro mark
    exact after _ _ (by simp [passed, mark, TokenKind.startsAnew])
  · intro _
    exact after _ _ (by simp [passed])

/-- A type is a token that names one, and tokens are passed over where no name follows it. -/
theorem fills_typedDeclaration {symbol : Symbol} (isSeen : symbol.IsSeen)
    (names : symbol.namesType = true) (content : Content) :
    typedDeclaration.Fills (some symbol) content fun _ _ _ => True := by
  -- The type is part of what is passed over if no name follows.
  have passes := symbol.startsAnew_of_namesType isSeen names
  simp only [typedDeclaration, fills_node, fills_bind, fills_bumpAs]
  refine ⟨symbol, rfl, ⟨symbol, rfl, names⟩, fills_skip (by simp [passes]) ?_⟩
  intro known later passed
  simp only [fills_nextIs, fills_ite]
  intro next _ _
  -- A name after the type is declared; without one, tokens are passed over.
  constructor
  · intro _
    exact (fills_declarator true next _).mono fun _ _ _ accepts => ⟨accepts, trivial⟩
  · intro _
    exact fills_nameless (by simp [passed]) fun _ _ accepts => ⟨accepts, trivial⟩

/-- A parameter is closed around anything, and its type as any other is. -/
theorem fills_parameter {symbol : Symbol} (content : Content) :
    parameter.Fills (some symbol) content fun _ _ _ => True := by
  simp only [parameter, fills_node, fills_bind, fills_atType, fills_ite, fills_bumpAs,
    Symbol.fits_some, forall_eq]
  intro isSeen
  constructor
  · intro names
    -- With a type, the name after it is optional.
    have passes := symbol.startsAnew_of_namesType isSeen names
    refine ⟨symbol, rfl, ⟨symbol, rfl, names⟩, fills_skip (by simp [passes]) ?_⟩
    intro known later _
    simp only [fills_nextIs, fills_pure]
    intro next _ _
    constructor
    · intro _
      exact (fills_declarator false next _).mono fun _ _ _ accepts => ⟨accepts, trivial⟩
    · intro _
      -- The type alone stands for a function, of which nothing is told.
      exact ⟨rfl, trivial⟩
  · intro _
    -- Without a type, nothing was read before the mark.
    refine fills_skip rfl ?_
    intro known later passed
    simp only [fills_nextIs]
    intro next _ _
    constructor
    · intro _
      refine ⟨next, rfl, rfl, ?_⟩
      exact (fills_variableRest false _ _).mono fun _ _ _ accepts => ⟨accepts, trivial⟩
    · intro _
      exact fills_nameless (by simp [passed]) fun _ _ accepts => ⟨accepts, trivial⟩

/-- Every rule closes nodes only around what they can hold. -/
theorem fills_body (rule : Rule) (plain : rule ≠ .recovery) :
    rule.body.Fills none .anything fun _ _ _ => True := by
  -- Recovery is the one rule that tells what it passes over, so it has a lemma of its own.
  cases rule with
  | recovery => exact absurd rfl plain
  | statement => exact fills_statement
  | expression power => exact fills_expression power
  | operators operand power => exact fills_operators operand power
  | conditional =>
    simp [Rule.body, conditional, conditionalBody, fills_alternative, expressionStatement, require,
      expect, missing, NodeKind.Accepts, NodeKind.isSurrounding, NodeKind.isCompound]
  | declaration =>
    simp +contextual [Rule.body, declaration, qualifier, fills_warnOfQualifier,
      fills_typedDeclaration, NodeKind.Accepts, NodeKind.isSurrounding, NodeKind.isCompound]
  | parameters =>
    simp [Rule.body, parameters, fills_parameter, NodeKind.Accepts, NodeKind.isSurrounding,
      NodeKind.isCompound]
  | _ =>
    -- The other rules are small enough to be followed step by step.
    simp [Rule.body, program, blockItems, furtherNames, furtherName, initialValue, arrayItems,
      arrayItem, arguments, argument, statementEnds, lineEnds, pathParts, expressionStatement,
      require, expect, skip, missing, Rule.Passes, NodeKind.Accepts, NodeKind.isSurrounding,
      NodeKind.isCompound]

end Dxl.Grammar
