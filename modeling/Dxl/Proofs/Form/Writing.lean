import Dxl.Proofs.Form.Basic
import Dxl.Proofs.Grammar.Conduct

/-! Writing: what a parser adds to the open frame, told step by step without running it. -/

namespace Dxl

/-- What the grammar sees is a token. -/
def Symbol.IsSeen (symbol : Symbol) : Prop :=
  ∃ token : Token, token.symbol = symbol

namespace Rule

/-- What must be known where a rule is called: operators follow a single operand, and a choice follows a look at its keyword. -/
def Needs (seen : Option Symbol) (frame : List Constituent) : Rule → Prop
  | .operators operand _ =>
    operand.isOperand = true ∧ ∃ first, frame = [.node operand (some first)]
  | .conditional => ∃ symbol, seen = some symbol ∧ symbol.kind = .keyword .ifWord
  | _ => True

/-- What a rule adds to the frame; operators take in what is there. -/
def Writes (clean : Prop) : Rule → List Constituent → Prop
  | .program | .blockItems => Form.Items
  | .declaration => Form.Declared clean
  | .statement => Form.Statement
  | .conditional => fun added => ∃ first, added = [.node .ifStmt first]
  | .parameters => Form.Parameters
  | .furtherNames => Form.FurtherNames
  | .arrayItems => Form.ArrayItems
  | .expression _ => Form.Operand clean
  | .arguments => Form.Arguments
  | .statementEnds => Form.Ends
  | .lineEnds => Form.LineEnds
  | .pathParts => fun added => ∀ part ∈ added, ∃ kind, part = .token kind
    ∧ kind ∈ [.name, .sign .backslash, .sign .slash, .sign .dot]
  | .operators _ _ | .recovery => fun _ => True

/-- What a rule leaves in a frame. -/
def Leaves (clean : Prop) (frame after : List Constituent) : Rule → Prop
  | .operators operand _ => ∀ first, frame = [.node operand (some first)] → Form.Chain first after
  | rule => ∃ added, rule.Writes clean added ∧ after = frame ++ added

end Rule

/-- A parser makes only nodes that are formed as their kinds demand and calls rules only where it may; in the end its value, what is seen and the frame are as they should be. -/
def Parser.Writes (clean : Prop) {α : Type} (parser : Parser α) (seen : Option Symbol)
    (frame : List Constituent) (post : α → Option Symbol → List Constituent → Prop) : Prop :=
  match parser with
  | .done value => post value seen frame
  | .andThen first next =>
    first.Writes clean seen frame fun value known after =>
      (next value).Writes clean known after post
  | .look => ∀ symbol : Symbol, symbol.IsSeen → symbol.Fits seen → post symbol (some symbol) frame
  | .bump => ∀ symbol : Symbol, symbol.IsSeen → symbol.Fits seen →
    post () none (frame ++ [.token symbol.kind])
  | .report mistake => (mistake.severity = .error → ¬ clean) → post () seen frame
  | .node body =>
    body.Writes clean seen [] fun kind known inner =>
      kind.Forms clean inner ∧ post kind known (frame ++ [.node kind (leading inner)])
  | .frame body =>
    body.Writes clean seen [] fun value known inner => post value known (frame ++ inner)
  | .wrap body =>
    -- Everything in the frame goes into the node.
    body.Writes clean seen [] fun kind known inner =>
      kind.Forms clean (frame ++ inner) ∧ post kind known [.node kind (leading (frame ++ inner))]
  | .progress body =>
    body.Writes clean seen frame fun _ known after => ∀ progressed, post progressed known after
  | .call rule =>
    rule.Needs seen frame ∧ ∀ after, rule.Leaves clean frame after → post () none after

namespace Parser

section

variable {clean : Prop} {α β : Type} {seen : Option Symbol} {frame : List Constituent}

/-- Of two parsers the second one starts where the first one ends. -/
@[simp] theorem writes_bind (first : Parser α) (next : α → Parser β)
    (post : β → Option Symbol → List Constituent → Prop) :
    (first >>= next).Writes clean seen frame post
      ↔ first.Writes clean seen frame fun value known after =>
          (next value).Writes clean known after post := Iff.rfl

/-- A parser that does nothing ends where it begins. -/
@[simp] theorem writes_pure (value : α) (post : α → Option Symbol → List Constituent → Prop) :
    (pure value : Parser α).Writes clean seen frame post ↔ post value seen frame := Iff.rfl

/-- Of a choice the branch that is taken counts. -/
@[simp] theorem writes_ite (condition : Prop) [Decidable condition] (yes no : Parser α)
    (post : α → Option Symbol → List Constituent → Prop) :
    (if condition then yes else no).Writes clean seen frame post
      ↔ (condition → yes.Writes clean seen frame post)
        ∧ (¬ condition → no.Writes clean seen frame post) := by
  split <;> simp [*]

/-- A look sees a token that can come next. -/
@[simp] theorem writes_look (post : Symbol → Option Symbol → List Constituent → Prop) :
    look.Writes clean seen frame post
      ↔ ∀ symbol : Symbol, symbol.IsSeen → symbol.Fits seen → post symbol (some symbol) frame :=
  Iff.rfl

/-- A token is read that can come next. -/
@[simp] theorem writes_bump (post : Unit → Option Symbol → List Constituent → Prop) :
    bump.Writes clean seen frame post
      ↔ ∀ symbol : Symbol, symbol.IsSeen → symbol.Fits seen →
          post () none (frame ++ [.token symbol.kind]) := Iff.rfl

/-- After an error the text is not clean. -/
@[simp] theorem writes_report (mistake : Mistake)
    (post : Unit → Option Symbol → List Constituent → Prop) :
    (report mistake).Writes clean seen frame post
      ↔ ((mistake.severity = .error → ¬ clean) → post () seen frame) := Iff.rfl

/-- A node is added that is formed of what its body writes. -/
@[simp] theorem writes_node (body : Parser NodeKind)
    (post : NodeKind → Option Symbol → List Constituent → Prop) :
    (node body).Writes clean seen frame post
      ↔ body.Writes clean seen [] fun kind known inner =>
          kind.Forms clean inner ∧ post kind known (frame ++ [.node kind (leading inner)]) := Iff.rfl

/-- What is written in an inner frame is added to the outer one. -/
@[simp] theorem writes_frame (body : Parser α)
    (post : α → Option Symbol → List Constituent → Prop) :
    (Parser.frame body).Writes clean seen frame post
      ↔ body.Writes clean seen [] fun value known inner => post value known (frame ++ inner) :=
  Iff.rfl

/-- A node is formed of the frame and what its body writes. -/
@[simp] theorem writes_wrap (body : Parser NodeKind)
    (post : NodeKind → Option Symbol → List Constituent → Prop) :
    (wrap body).Writes clean seen frame post
      ↔ body.Writes clean seen [] fun kind known inner =>
          kind.Forms clean (frame ++ inner)
            ∧ post kind known [.node kind (leading (frame ++ inner))] := Iff.rfl

/-- A body that is tested for progress writes what it does without the test. -/
@[simp] theorem writes_progress (body : Parser Unit)
    (post : Bool → Option Symbol → List Constituent → Prop) :
    (progress body).Writes clean seen frame post
      ↔ body.Writes clean seen frame fun _ known after =>
          ∀ progressed, post progressed known after := Iff.rfl

/-- A rule is called where it may be, and leaves what it should. -/
@[simp] theorem writes_call (rule : Rule) (post : Unit → Option Symbol → List Constituent → Prop) :
    (call rule).Writes clean seen frame post
      ↔ rule.Needs seen frame ∧ ∀ after, rule.Leaves clean frame after → post () none after :=
  Iff.rfl

/-- A node of one kind is added that is formed of what its body writes. -/
@[simp] theorem writes_nodeOf (kind : NodeKind) (body : Parser Unit)
    (post : Unit → Option Symbol → List Constituent → Prop) :
    (nodeOf kind body).Writes clean seen frame post
      ↔ body.Writes clean seen [] fun _ known inner =>
          kind.Forms clean inner ∧ post () known (frame ++ [.node kind (leading inner)]) := Iff.rfl

/-- A node of one kind is formed of the frame and what its body writes. -/
@[simp] theorem writes_wrapIn (kind : NodeKind) (body : Parser Unit)
    (post : Unit → Option Symbol → List Constituent → Prop) :
    (wrapIn kind body).Writes clean seen frame post
      ↔ body.Writes clean seen [] fun _ known inner =>
          kind.Forms clean (frame ++ inner)
            ∧ post () known [.node kind (leading (frame ++ inner))] := Iff.rfl

/-- A node of one token is added. -/
@[simp] theorem writes_bumpAs (kind : NodeKind)
    (post : Unit → Option Symbol → List Constituent → Prop) :
    (bumpAs kind).Writes clean seen frame post
      ↔ ∀ symbol : Symbol, symbol.IsSeen → symbol.Fits seen →
          kind.Forms clean [.token symbol.kind]
            ∧ post () none (frame ++ [.node kind (some symbol.kind)]) := Iff.rfl

/-- Testing the kind of the next token is a look. -/
@[simp] theorem writes_nextIs (kind : TokenKind)
    (post : Bool → Option Symbol → List Constituent → Prop) :
    (nextIs kind).Writes clean seen frame post
      ↔ ∀ symbol : Symbol, symbol.IsSeen → symbol.Fits seen →
          post (symbol.kind == kind) (some symbol) frame := Iff.rfl

/-- Comparing the kind of the next token with several is a look. -/
@[simp] theorem writes_nextIsOneOf (kinds : List TokenKind)
    (post : Bool → Option Symbol → List Constituent → Prop) :
    (nextIsOneOf kinds).Writes clean seen frame post
      ↔ ∀ symbol : Symbol, symbol.IsSeen → symbol.Fits seen →
          post (kinds.contains symbol.kind) (some symbol) frame := Iff.rfl

/-- Testing for the end of the text is a look. -/
@[simp] theorem writes_atEnd (post : Bool → Option Symbol → List Constituent → Prop) :
    atEnd.Writes clean seen frame post
      ↔ ∀ symbol : Symbol, symbol.IsSeen → symbol.Fits seen →
          post (symbol.kind == .endOfText) (some symbol) frame := Iff.rfl

/-- Testing for the end of a statement is a look. -/
@[simp] theorem writes_atStatementEnd (post : Bool → Option Symbol → List Constituent → Prop) :
    atStatementEnd.Writes clean seen frame post
      ↔ ∀ symbol : Symbol, symbol.IsSeen → symbol.Fits seen →
          post symbol.kind.endsStatement (some symbol) frame := Iff.rfl

/-- Testing for a type is a look. -/
@[simp] theorem writes_atType (post : Bool → Option Symbol → List Constituent → Prop) :
    atType.Writes clean seen frame post
      ↔ ∀ symbol : Symbol, symbol.IsSeen → symbol.Fits seen →
          post symbol.namesType (some symbol) frame := Iff.rfl

/-- A token is read after a look at it if it is of the given kind. -/
theorem writes_accept (kind : TokenKind) (post : Bool → Option Symbol → List Constituent → Prop) :
    (accept kind).Writes clean seen frame post
      ↔ ∀ symbol : Symbol, symbol.IsSeen → symbol.Fits seen →
          (symbol.kind = kind → post true none (frame ++ [.token kind]))
            ∧ (symbol.kind ≠ kind → post false (some symbol) frame) := by
  simp only [accept, writes_bind, writes_nextIs, writes_ite, beq_iff_eq, writes_bump,
    Symbol.fits_some, writes_pure]
  -- The look that is part of the reading sees the same symbol again.
  refine forall_congr' fun symbol => forall_congr' fun isSeen => forall_congr' fun _ =>
    and_congr (forall_congr' fun same => ?_) Iff.rfl
  constructor
  · intro holds
    exact same ▸ holds symbol isSeen rfl
  · rintro holds _ _ rfl
    exact same ▸ holds

/-- A token is read after a look at it, or noted as missing. -/
theorem writes_expect (kind : TokenKind) (post : Bool → Option Symbol → List Constituent → Prop) :
    (expect kind).Writes clean seen frame post
      ↔ ∀ symbol : Symbol, symbol.IsSeen → symbol.Fits seen →
          (symbol.kind = kind → post true none (frame ++ [.token kind]))
            ∧ (symbol.kind ≠ kind → ¬ clean → post false (some symbol) frame) := by
  simp only [expect, missing, writes_bind, writes_accept, writes_ite, writes_look, writes_report,
    writes_pure, Symbol.fits_some, Mistake.severity]
  -- Where the kind is another one, what is missing is noted, after which the text is not clean.
  refine forall_congr' fun symbol => forall_congr' fun isSeen => forall_congr' fun _ =>
    and_congr (by simp) (forall_congr' fun _ => ?_)
  simp only [Bool.false_eq_true, false_imp_iff, not_false_eq_true, true_imp_iff, true_and]
  constructor
  · intro holds
    exact holds symbol isSeen rfl
  · rintro holds _ _ rfl
    exact holds

/-- What is written can be told with less precision. -/
theorem Writes.mono {parser : Parser α} {post weaker : α → Option Symbol → List Constituent → Prop}
    (writes : parser.Writes clean seen frame post)
    (implied : ∀ value known after, post value known after → weaker value known after) :
    parser.Writes clean seen frame weaker := by
  -- The induction follows the program, and the implication is only used where it ends.
  induction parser generalizing seen frame with
  | done value => exact implied _ _ _ writes
  | andThen first next ihFirst ihNext =>
    exact ihFirst writes fun value known after further => ihNext value further implied
  | look => exact fun symbol isSeen fits => implied _ _ _ (writes symbol isSeen fits)
  | bump => exact fun symbol isSeen fits => implied _ _ _ (writes symbol isSeen fits)
  | report mistake => exact fun unclean => implied _ _ _ (writes unclean)
  | node body ih => exact ih writes fun _ _ _ ⟨forms, holds⟩ => ⟨forms, implied _ _ _ holds⟩
  | frame body ih => exact ih writes fun _ _ _ holds => implied _ _ _ holds
  | wrap body ih => exact ih writes fun _ _ _ ⟨forms, holds⟩ => ⟨forms, implied _ _ _ holds⟩
  | progress body ih =>
    exact ih writes fun _ _ _ holds progressed => implied _ _ _ (holds progressed)
  | call rule => exact ⟨writes.1, fun after leaves => implied _ _ _ (writes.2 after leaves)⟩

/-- A rule other than the operators after an operand adds to the frame. -/
theorem writes_call_plain {rule : Rule} {post : Unit → Option Symbol → List Constituent → Prop}
    (plain : rule.IsPlain) (needs : rule.Needs seen frame)
    (after : ∀ added, rule.Writes clean added → post () none (frame ++ added)) :
    (call rule).Writes clean seen frame post := by
  refine ⟨needs, fun whole leaves => ?_⟩
  -- Only the operators replace what is in the frame.
  cases rule
  case operators => cases plain
  all_goals
    obtain ⟨added, writes, rfl⟩ := leaves
    exact after added writes

variable {kind : TokenKind}

/-- A token that is required is read, or left out with an error. -/
theorem writes_require {post : Unit → Option Symbol → List Constituent → Prop}
    (after : ∀ known added, Form.Needed clean kind added → post () known (frame ++ added)) :
    (require kind).Writes clean seen frame post := by
  simp only [require, writes_bind, writes_expect, writes_pure]
  refine fun symbol _ _ => ⟨fun _ => after none _ .present, fun _ unclean => ?_⟩
  -- Nothing is added where the token is missing.
  have left := after (some symbol) [] (.absent unclean)
  rwa [List.append_nil] at left

/-- A token that is required is read if it was seen. -/
theorem writes_require_seen {symbol : Symbol}
    {post : Unit → Option Symbol → List Constituent → Prop} (same : symbol.kind = kind)
    (after : post () none (frame ++ [.token kind])) :
    (require kind).Writes clean (some symbol) frame post := by
  simp only [require, writes_bind, writes_expect, writes_pure, Symbol.fits_some]
  rintro _ _ rfl
  exact ⟨fun _ => after, fun other => absurd same other⟩

/-- A token that may be left out is read if it is there. -/
theorem writes_skip {post : Unit → Option Symbol → List Constituent → Prop}
    (after : ∀ known added, Form.Optionally (.token kind) added → post () known (frame ++ added)) :
    (skip kind).Writes clean seen frame post := by
  simp only [skip, writes_bind, writes_accept, writes_pure]
  refine fun symbol _ _ => ⟨fun _ => after none _ .present, fun _ => ?_⟩
  -- Nothing is added where the token is left out.
  have left := after (some symbol) [] .absent
  rwa [List.append_nil] at left

end

end Parser

end Dxl
