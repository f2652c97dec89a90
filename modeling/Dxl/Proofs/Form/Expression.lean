import Dxl.Proofs.Form.Writing
import Dxl.Proofs.Grammar.Expression
import Dxl.Proofs.Grammar.Precedence

/-! Expressions: the forms of the nodes that the rules for expressions make. -/

namespace Dxl

open Form

/-- A token that is an operand by itself forms the node of one. -/
theorem TokenKind.forms_atom {clean : Prop} {kind : TokenKind} {made : NodeKind}
    (starts : kind.operandStart = .atom made) : made.Forms clean [.token kind] := by
  rcases eq_of_atom starts with rfl | rfl | rfl <;> exact ⟨kind, starts, rfl⟩

/-- A group stands beside what it is no argument of, and an access, a choice and a range are each marked by signs of their own. -/
theorem TokenKind.continuation_mark (kind : TokenKind) (operand : NodeKind) :
    match kind.continuation operand with
    | .access made => made = .property ∧ kind = .sign .dot
      ∨ made = .arrow ∧ (kind = .sign .minusArrow ∨ kind = .sign .lessMinus)
    | .regroup => operand.takesParentheses = false
    | .infixed _ _ .choice => kind = .sign .question
    | .infixed _ _ .range => kind = .sign .colon
    | _ => True := by
  have spec := kind.continuation_cases operand
  cases found : kind.continuation operand with
  | access made =>
    rw [found] at spec
    exact spec
  | regroup =>
    rw [found] at spec
    exact spec.1
  | infixed left right form =>
    rw [found] at spec
    -- Of the forms of operators, two have a sign of their own.
    have mark := infixForm?_cases spec.2
    cases form with
    | choice | range => exact mark
    | binary | name => trivial
  | _ => trivial

/-- A binary operator marks a node of the kind that it makes. -/
theorem NodeKind.forms_joined {clean : Prop} {operator : TokenKind} {made : NodeKind}
    (makes : operator.infixNode? = some made) {operands : List Constituent}
    (joined : Joined clean (· = operator) operands) : made.Forms clean operands := by
  obtain ⟨first, isOperand, rfl, right⟩ := joined
  have isInfix := TokenKind.isInfix_of_infixNode? makes
  -- Each kind of node that no binary operator makes contradicts what is known of the operator.
  cases made <;> first | cases isInfix; done | exact .mk first isOperand makes right

/-- An access marks a node of the kind that it makes. -/
theorem NodeKind.forms_access {clean : Prop} {operator : TokenKind} {operand made : NodeKind}
    (continues : operator.continuation operand = .access made) {operands : List Constituent}
    (joined : Joined clean (· = operator) operands) : made.Forms clean operands := by
  have mark := operator.continuation_mark operand
  rw [continues] at mark
  obtain ⟨first, isOperand, rfl, right⟩ := joined
  rcases mark with ⟨rfl, isMark⟩ | ⟨rfl, isMark⟩
  · exact .mk first isOperand isMark right
  · exact .mk first isOperand isMark right

namespace Grammar

open Dxl.Parser

variable {clean : Prop} {seen : Option Symbol} {symbol : Symbol} {frame : List Constituent}

/-- An expression in the place of a statement makes one node. -/
theorem writes_expressionStatement {post : Unit → Option Symbol → List Constituent → Prop}
    (after : ∀ first, post () none (frame ++ [.node .exprStmt first])) :
    expressionStatement.Writes clean seen frame post := by
  rw [expressionStatement, writes_nodeOf]
  exact writes_call_plain trivial trivial fun operand isOperand => ⟨isOperand, after _⟩

/-- The type of a cast is read where it is seen. -/
theorem writes_acceptType {post : Bool → Option Symbol → List Constituent → Prop}
    (typed : ∀ first, post true none (frame ++ [.node .typeRef first]))
    (untyped : ∀ symbol : Symbol, post false (some symbol) frame) :
    acceptType.Writes clean seen frame post := by
  simp only [acceptType, writes_bind, writes_atType, writes_ite, writes_bumpAs, writes_pure,
    Symbol.fits_some]
  rintro symbol ⟨token, rfl⟩ -
  refine ⟨?_, fun _ => untyped _⟩
  rintro isType _ - rfl
  exact ⟨⟨token.kind, token.text, isType, rfl⟩, typed _⟩

/-- Parentheses make a group or a cast, which begins with the first of them. -/
theorem writes_group {post : NodeKind → Option Symbol → List Constituent → Prop}
    (paren : symbol.kind = .sign .leftParen)
    (after : ∀ kind known, kind.isOperand = true →
      post kind known (frame ++ [.node kind (some (.sign .leftParen))])) :
    group.Writes clean (some symbol) frame post := by
  simp only [group, writes_node, writes_bind, writes_pure]
  -- After the opening parenthesis a type tells a cast from a group.
  refine writes_require_seen paren (writes_acceptType (fun type => ?_) fun _ => ?_)
  · refine writes_call_plain trivial trivial fun operand isOperand =>
      writes_require fun known close closes => ?_
    exact ⟨by simpa [NodeKind.Forms] using Cast.before type isOperand closes, after _ _ rfl⟩
  · refine writes_call_plain trivial trivial fun operand isOperand =>
      writes_require fun known close closes => ?_
    exact ⟨by simpa [NodeKind.Forms] using Grouping.mk isOperand closes, after _ _ rfl⟩

/-- The arguments of a call make one node. -/
theorem writes_argumentList {post : Unit → Option Symbol → List Constituent → Prop}
    (after : ∀ known first, post () known (frame ++ [.node .argList first])) :
    argumentList.Writes clean seen frame post := by
  simp only [argumentList, writes_nodeOf, writes_bind, writes_accept, writes_ite]
  refine fun _ _ _ => ⟨fun _ => ⟨fun _ => ?_, by simp⟩, fun _ => ⟨by simp, fun _ => ?_⟩⟩
  · -- Arguments may stand between parentheses, and then the closing one is required.
    refine writes_call_plain trivial trivial fun arguments areArguments =>
      writes_require fun known close closes => ?_
    exact ⟨by simpa [NodeKind.Forms] using ArgList.closed areArguments closes, after _ _⟩
  · -- Without parentheses there is a single argument.
    exact writes_expressionStatement fun first =>
      ⟨by simpa [NodeKind.Forms] using Argument.mk first .absent, .single _, after _ _⟩

/-- One argument makes one node. -/
theorem writes_argument {post : Unit → Option Symbol → List Constituent → Prop}
    (after : ∀ known first, post () known (frame ++ [.node .arg first])) :
    argument.Writes clean seen frame post := by
  simp only [argument, writes_nodeOf, writes_bind]
  refine writes_expressionStatement fun first => ?_
  simp only [writes_nextIs, writes_ite, writes_pure]
  refine fun _ _ _ => ⟨fun _ => ⟨by simpa [NodeKind.Forms] using Argument.mk first .absent, after _ _⟩, fun _ => ?_⟩
  refine writes_require fun known comma missing => ⟨?_, after _ _⟩
  -- Where the comma is missing the argument is formed like the last one.
  cases missing with
  | present => simpa [NodeKind.Forms] using Argument.mk first .present
  | absent => simpa [NodeKind.Forms] using Argument.mk first .absent

/-- Arguments make a node each. -/
theorem writes_arguments :
    arguments.Writes clean seen frame fun _ _ after =>
      ∃ added, Arguments added ∧ after = frame ++ added := by
  simp only [arguments, writes_bind, writes_nextIs, writes_ite, writes_pure, writes_atEnd,
    writes_progress]
  have none : ∃ added, Arguments added ∧ frame = frame ++ added :=
    ⟨[], List.forall_mem_nil _, (List.append_nil frame).symm⟩
  refine fun _ _ _ => ⟨fun _ => none, fun _ _ _ _ => ⟨fun _ => none, fun _ => ?_⟩⟩
  -- A next argument is only looked for after some progress.
  refine writes_argument fun known first progressed => ⟨fun _ => ?_, fun _ => ?_⟩
  · refine writes_call_plain trivial trivial fun others areArguments =>
      ⟨.node .arg first :: others, ?_, by simp⟩
    exact List.forall_mem_cons.mpr ⟨⟨first, rfl⟩, areArguments⟩
  · exact ⟨[.node .arg first], by simp [Arguments], rfl⟩

section

variable {operand : NodeKind} {first : TokenKind} (isOperand : operand.isOperand = true)
include isOperand

/-- A call or a cast is formed of the operand before it. -/
theorem writes_application {post : NodeKind → Option Symbol → List Constituent → Prop}
    (after : ∀ kind known, kind.isOperand = true → post kind known [.node kind (some first)]) :
    application.Writes clean seen [.node operand (some first)] post := by
  simp only [application, writes_wrap, writes_bind, writes_atType, writes_ite, writes_bumpAs,
    writes_pure, Symbol.fits_some]
  -- A type makes a cast, and anything else begins the arguments of a call.
  rintro _ ⟨token, rfl⟩ -
  refine ⟨?_, fun _ => writes_argumentList fun known list =>
    ⟨⟨operand, _, list, isOperand, rfl⟩, after _ _ rfl⟩⟩
  rintro isType _ - rfl
  exact ⟨⟨token.kind, token.text, isType, rfl⟩, .after _ _ isOperand, after _ _ rfl⟩

/-- An index is formed of the operand before it. -/
theorem writes_indexed {post : Unit → Option Symbol → List Constituent → Prop}
    (bracket : symbol.kind = .sign .leftBracket)
    (after : ∀ known, post () known [.node .index (some first)]) :
    indexed.Writes clean (some symbol) [.node operand (some first)] post := by
  simp only [indexed, writes_wrapIn, writes_bind]
  refine writes_require_seen bracket (writes_call_plain trivial trivial fun index isIndex => ?_)
  -- Whatever is given of a slice, the closing bracket comes after it.
  have close {known : Option Symbol} {slice : List Constituent} (slices : Slice clean slice) :
      (require (.sign .rightBracket)).Writes clean known
        ([] ++ [.token (.sign .leftBracket)] ++ index ++ slice) fun _ known inner =>
          NodeKind.index.Forms clean ([.node operand (some first)] ++ inner)
            ∧ post () known [.node .index (leading ([.node operand (some first)] ++ inner))] :=
    writes_require fun known close closes =>
      ⟨by simpa [NodeKind.Forms] using Index.mk (some first) isOperand isIndex slices closes, after known⟩
  simp only [sliceEnd, writes_bind, writes_accept, writes_ite, writes_nextIs, writes_pure]
  refine fun _ _ _ => ⟨fun _ => ⟨fun _ _ _ _ => ⟨fun _ => ?_, fun _ => ?_⟩, by simp⟩,
    fun _ => ⟨by simp, fun _ => ?_⟩⟩
  · -- The end of the slice is left out.
    exact close (.given .missing)
  · -- The end of the slice is an expression.
    refine writes_call_plain trivial trivial fun upper isUpper => ?_
    rw [List.append_assoc _ _ upper]
    exact close (.given isUpper)
  · -- There is no colon, and so no slice.
    have closed {known : Option Symbol} := @close known [] .absent
    rw [List.append_nil] at closed
    exact closed

/-- An operator forms a node of the operands on both sides. -/
theorem writes_rightOperand {kind : NodeKind} {power : Nat}
    {post : Unit → Option Symbol → List Constituent → Prop}
    (forms : ∀ operands, Joined clean (· = symbol.kind) operands → kind.Forms clean operands)
    (after : post () none [.node kind (some first)]) :
    (rightOperand power kind).Writes clean (some symbol) [.node operand (some first)] post := by
  simp only [rightOperand, writes_wrapIn, writes_bind, writes_bump, Symbol.fits_some]
  rintro _ - rfl
  exact writes_call_plain trivial trivial fun right isRight =>
    ⟨forms _ (.mk _ isOperand rfl isRight), after⟩

/-- A joined operand forms a node with the one before it. -/
theorem writes_adjoined {power : Nat} {post : Unit → Option Symbol → List Constituent → Prop}
    (after : post () none [.node .concat (some first)]) :
    (adjoined power).Writes clean seen [.node operand (some first)] post := by
  rw [adjoined, writes_wrapIn]
  exact writes_call_plain trivial trivial fun right isRight => ⟨.mk _ isOperand isRight, after⟩

/-- A choice is formed of its condition and its branches. -/
theorem writes_branches {power : Nat} {post : Unit → Option Symbol → List Constituent → Prop}
    (mark : symbol.kind = .sign .question)
    (after : ∀ known, post () known [.node .ternary (some first)]) :
    (branches power).Writes clean (some symbol) [.node operand (some first)] post := by
  simp only [branches, writes_wrapIn, writes_bind, writes_bump, Symbol.fits_some]
  rintro _ - rfl
  rw [mark]
  refine writes_call_plain trivial trivial fun yes isYes => ?_
  simp only [writes_expect, writes_ite, writes_pure]
  -- Without the colon between the branches the first one is all there is.
  refine fun _ _ _ => ⟨fun _ => ⟨fun _ => ?_, by simp⟩,
    fun _ unclean => ⟨by simp, fun _ => ⟨.cut _ isOperand isYes unclean, after _⟩⟩⟩
  refine writes_call_plain trivial trivial fun no isNo => ⟨?_, after _⟩
  simpa [NodeKind.Forms] using Ternary.whole (some first) isOperand isYes isNo

/-- A range is formed of its ends. -/
theorem writes_upperEnd {power : Nat} {post : Unit → Option Symbol → List Constituent → Prop}
    (mark : symbol.kind = .sign .colon)
    (after : ∀ known, post () known [.node .range (some first)]) :
    (upperEnd power).Writes clean (some symbol) [.node operand (some first)] post := by
  simp only [upperEnd, writes_wrapIn, writes_bind, writes_bump, Symbol.fits_some]
  rintro _ - rfl
  rw [mark]
  simp only [writes_nextIs, writes_ite, writes_pure]
  -- The upper end of a range may be left out, and the bracket after it stays.
  refine fun _ _ _ => ⟨fun _ => ⟨.mk _ isOperand rfl .missing, after _⟩, fun _ => ?_⟩
  exact writes_call_plain trivial trivial fun upper isUpper =>
    ⟨.mk _ isOperand rfl isUpper, after _⟩

omit isOperand in
/-- Operators after an operand leave one that begins like it. -/
theorem writes_operators_after {made : NodeKind} (isMade : made.isOperand = true) (power : Nat) :
    (call (.operators made power)).Writes clean seen [.node made (some first)]
      fun _ _ after => Form.Chain first after :=
  ⟨⟨isMade, first, rfl⟩, fun _ leaves => leaves first rfl⟩

/-- A binary operator leaves an operand that begins as the one before it. -/
theorem writes_infixed {power left right : Nat} {form : InfixForm}
    (continues : symbol.kind.continuation operand = .infixed left right form) :
    (infixed operand power right form).Writes clean (some symbol) [.node operand (some first)]
      fun _ _ after => Form.Chain first after := by
  have spec := symbol.kind.continuation_spec operand
  have mark := symbol.kind.continuation_mark operand
  rw [continues] at spec mark
  -- What any of the forms makes is an operand again, after which further operators may stand.
  have further {made : NodeKind} (isMade : made.isOperand = true) (known : Option Symbol) :=
    @writes_operators_after clean known first made isMade power
  cases form with
  | binary made =>
    rw [infixed, writes_bind]
    have makes := (TokenKind.infixForm?_binary (TokenKind.continuation_infixed continues).2).1
    exact writes_rightOperand isOperand (fun _ => NodeKind.forms_joined makes)
      (further (NodeKind.isOperand_of_isCompound (spec.2 made rfl)) _)
  | choice => exact writes_branches isOperand mark (further rfl)
  | range => exact writes_upperEnd isOperand mark (further rfl)
  -- A name is joined where it can begin an operand; elsewhere nothing is done.
  | name =>
    simp only [infixed, writes_ite, writes_bind, writes_nextIsOneOf, writes_pure]
    refine ⟨fun _ _ _ _ => ⟨fun _ => ?_, fun _ => ?_⟩, fun _ => ?_⟩
    · exact writes_adjoined isOperand (.mk rfl (.none _))
    · exact .mk isOperand (.none _)
    · exact .mk isOperand (.none _)

/-- The operators after an operand leave one that begins like it, with groups beside it. -/
theorem writes_operators (power : Nat) :
    (operators operand power).Writes clean seen [.node operand (some first)]
      fun _ _ after => Form.Chain first after := by
  simp only [operators, writes_bind, writes_look]
  intro symbol _ _
  have spec := symbol.kind.continuation_spec operand
  have mark := symbol.kind.continuation_mark operand
  have further {made : NodeKind} (isMade : made.isOperand = true) (known : Option Symbol) :=
    @writes_operators_after clean known first made isMade power
  split <;> rename_i continues <;> rw [continues] at spec mark
  -- Nothing continues the operand.
  case h_1 => exact .mk isOperand (.none _)
  -- A call or a cast continues it.
  case h_2 =>
    rw [writes_bind]
    exact writes_application isOperand fun _ known isMade => further isMade known
  -- An index continues it.
  case h_3 => exact writes_indexed isOperand spec (further rfl)
  -- An access to a member continues it.
  case h_4 =>
    exact writes_rightOperand isOperand (fun _ => NodeKind.forms_access continues)
      (further (NodeKind.isOperand_of_isCompound spec.2) _)
  -- A step by one continues it.
  case h_5 =>
    simp only [writes_bind, writes_wrapIn, writes_bump, Symbol.fits_some]
    rintro _ - rfl
    exact ⟨⟨operand, _, _, operand, isOperand, continues, rfl⟩, further rfl _⟩
  case h_6 => exact writes_adjoined isOperand (further rfl _)
  -- The operand is followed by another one without an operator, as a group.
  case h_7 =>
    -- The group and what it grows to stand beside the operand.
    simp only [writes_frame, writes_bind]
    refine writes_group spec fun made known isMade => ?_
    refine ⟨⟨isMade, _, rfl⟩, fun after leaves => ?_⟩
    obtain ⟨isLast, beside⟩ := leaves _ rfl
    exact .mk isOperand (.more mark isLast beside)
  -- An operator continues it if it binds tightly enough.
  case h_8 left right form =>
    simp only [writes_ite, writes_pure]
    exact ⟨fun _ => .mk isOperand (.none _), fun _ => writes_infixed isOperand continues⟩

omit isOperand in
/-- An expression leaves an operand, an empty one, a token that is passed over, or nothing. -/
theorem writes_expression (power : Nat) :
    (expression power).Writes clean seen frame fun _ _ after =>
      ∃ added, Form.Operand clean added ∧ after = frame ++ added := by
  simp only [expression, writes_bind, writes_look]
  intro symbol _ _
  have spec := symbol.kind.operandStart_spec
  -- After any operand stand the operators that bind tightly enough.
  have further {made : NodeKind} (isMade : made.isOperand = true) (first : TokenKind)
      (known : Option Symbol) :
      (call (.operators made power)).Writes clean known [.node made (some first)]
        fun _ _ inner => ∃ added, Form.Operand clean added ∧ frame ++ inner = frame ++ added :=
    ⟨⟨isMade, first, rfl⟩, fun _ leaves => ⟨_, .chain first (leaves first rfl), rfl⟩⟩
  have none : ∃ added, Form.Operand clean added ∧ frame = frame ++ added :=
    ⟨[], .missing, (List.append_nil frame).symm⟩
  split <;> rename_i starts <;> rw [starts] at spec
  -- The token is an operand by itself.
  case h_1 =>
    simp only [writes_frame, writes_bind, writes_bumpAs, Symbol.fits_some]
    rintro _ - rfl
    exact ⟨TokenKind.forms_atom starts, further spec.1 _ _⟩
  -- Parentheses begin a group or a cast.
  case h_2 =>
    simp only [writes_frame, writes_bind]
    exact writes_group spec fun made known isMade => further isMade _ known
  -- A semicolon is an empty operand.
  case h_3 =>
    simp only [writes_bump, Symbol.fits_some]
    rintro _ - rfl
    exact ⟨_, .empty, by rw [TokenKind.eq_semicolon_of_empty starts]⟩
  -- An operator before its operand makes a node with it.
  case h_4 =>
    simp only [writes_frame, writes_bind, writes_nodeOf, writes_bump, Symbol.fits_some]
    rintro _ - rfl
    exact writes_call_plain trivial trivial fun right isRight =>
      ⟨⟨_, right, starts, isRight, rfl⟩, further rfl _ _⟩
  -- Any other token is passed over with an error, unless it ends the statement or the text.
  case h_5 =>
    simp only [writes_bind, writes_atStatementEnd, writes_ite, writes_pure, writes_atEnd,
      writes_report, writes_bumpAs, Symbol.fits_some]
    refine fun _ _ _ => ⟨fun _ => none, fun _ _ _ _ => ⟨fun _ => none, ?_⟩⟩
    intro _ unclean _ _ _
    have unclean := unclean rfl
    exact ⟨unclean, _, .skipped _ unclean, rfl⟩

end

end Grammar

end Dxl
