import Dxl.Proofs.Grammar.Conduct
import Dxl.Proofs.Grammar.Course

/-! Care: tokens that the grammar has no use for are only passed over after an error was noted. -/

namespace Dxl

/-- Tokens that no rule of the grammar has a use for. -/
def TokenKind.isForeign : TokenKind → Bool
  | .unknown => true
  | .sign mark =>
    match mark with
    | .caretCaret | .colonEqual | .colonColon | .equalArrow | .lessGreater | .dotDot => true
    | _ => false
  | .keyword word =>
    match word with
    | .caseWord | .charWord | .defaultWord | .enumWord | .structWord | .switchWord
    | .unionWord => true
    | _ => false
  | _ => false

/-- What ends a statement is of use to the grammar. -/
theorem TokenKind.isForeign_of_endsStatement {kind : TokenKind} (ends : kind.endsStatement = true) :
    kind.isForeign = false := by
  -- Only line breaks and semicolons end statements.
  unfold endsStatement at ends
  split at ends <;> first | rfl | cases ends

/-- A symbol that names a type is of use to the grammar, as it is for every token. -/
def Symbol.Sane (symbol : Symbol) : Prop :=
  symbol.namesType = true → symbol.kind.isForeign = false

/-- The symbol of every token is sane. -/
theorem Token.sane_symbol (token : Token) : token.symbol.Sane := by
  intro names
  change token.kind.namesType token.text = true at names
  -- Only certain kinds of tokens name a type, all of which are of use.
  show token.kind.isForeign = false
  unfold TokenKind.namesType at names
  split at names <;> rename_i same <;> first | rw [same]; rfl | cases names

/-- How far an error and the node that goes with it have come. -/
inductive Phase where
  /-- Nothing is to be passed over. -/
  | calm
  /-- An error was just noted at the next token. -/
  | noted
  /-- Tokens are passed over in a node in which an error was noted. -/
  | passing
  /-- A node was opened where none should be. -/
  | lost
deriving DecidableEq

namespace Phase

/-- A further look leaves the error that was noted alone. -/
def looked : Phase → Phase
  | .noted => .calm
  | phase => phase

/-- An error that was just noted can be that of a node which begins there. -/
def entered : Phase → Phase
  | .calm => .calm
  | .noted => .noted
  | _ => .lost

/-- Nothing is being passed over. -/
def isSettled : Phase → Bool
  | .calm | .noted => true
  | _ => false

/-- Tokens can be passed over, as an error was noted. -/
def isPassable : Phase → Bool
  | .noted | .passing => true
  | _ => false

/-- Tokens are passed over once one is read that was not expected. -/
def passed : Phase → Phase
  | .noted => .passing
  | phase => phase

/-- A node of a kind can be closed in a phase: tokens are passed over just in nodes that are kept for them. -/
def Closes (phase : Phase) (kind : NodeKind) : Prop :=
  if kind = .skipped then phase.isPassable = true else phase.isSettled = true

/-- A rule can be called in a phase: it passes over tokens, or begins where nothing is passed over. -/
def Calls (phase : Phase) (rule : Rule) : Prop :=
  if rule = .recovery then phase.isPassable = true else phase.isSettled = true

/-- Nodes that are not kept for tokens that are passed over are closed where none are. -/
theorem closes_of_isSettled {phase : Phase} {kind : NodeKind} (settled : phase.isSettled = true)
    (kept : kind ≠ .skipped) : phase.Closes kind := by
  rwa [Closes, if_neg kept]

/-- Rules that do not pass over tokens are called where none are passed over. -/
theorem calls_of_isSettled {phase : Phase} {rule : Rule} (settled : phase.isSettled = true)
    (calm : rule ≠ .recovery) : phase.Calls rule := by
  rwa [Calls, if_neg calm]

/-- A look calms down what is settled. -/
theorem looked_of_isSettled {phase : Phase} (settled : phase.isSettled = true) :
    phase.looked = .calm := by
  cases phase <;> first | rfl | cases settled

/-- A node that begins where nothing is passed over begins in the same phase. -/
theorem entered_of_isSettled {phase : Phase} (settled : phase.isSettled = true) :
    phase.entered = phase := by
  cases phase <;> first | rfl | cases settled

end Phase

/-- The phase that a rule begins in and ends in. -/
def Rule.phase : Rule → Phase
  | .recovery => .passing
  | _ => .calm

/-- What is known in the course of a rule: the symbol that was seen since a token was read, and the phase. -/
structure Attention where
  seen : Option Symbol
  phase : Phase

/-- A parser makes only nodes of certain kinds and calls only certain rules; tokens without use are read only after an error was noted, and what is read then becomes a node of its own. -/
def care (makes : NodeKind → Prop) (calls : Rule → Prop) : Discipline Attention where
  look state post := ∀ symbol : Symbol, symbol.Fits state.seen → symbol.Sane →
    post symbol ⟨some symbol, state.phase.looked⟩
  -- Without an error, only a token of use is read that was seen before.
  bump state post :=
    match state.phase with
    | .calm => (∃ symbol, state.seen = some symbol ∧ symbol.kind.isForeign = false)
        ∧ post ⟨none, .calm⟩
    | phase => post ⟨none, phase.passed⟩
  report mistake state post := mistake.severity = .error ∧ state.phase.isSettled = true
    ∧ (∃ symbol, state.seen = some symbol ∧ mistake.TellsOf symbol.kind)
    ∧ post ⟨state.seen, .noted⟩
  enter state := ⟨state.seen, state.phase.entered⟩
  close kind state post := kind ≠ .ignored ∧ makes kind ∧ state.phase.Closes kind ∧ post ⟨state.seen, .calm⟩
  progress _ state post := ∀ progressed, post progressed state
  call rule state post := calls rule ∧ state.phase.Calls rule ∧ post ⟨none, rule.phase⟩

section

variable {makes : NodeKind → Prop} {calls : Rule → Prop} {seen : Option Symbol} {phase : Phase}

/-- A look sees a symbol that can come next, and an error noted before it is left alone. -/
@[simp] theorem care_look (post : Symbol → Attention → Prop) :
    (care makes calls).look ⟨seen, phase⟩ post
      ↔ ∀ symbol : Symbol, symbol.Fits seen → symbol.Sane →
        post symbol ⟨some symbol, phase.looked⟩ := Iff.rfl

/-- A token that is read was seen to be of use. -/
@[simp] theorem care_bump_calm (post : Attention → Prop) :
    (care makes calls).bump ⟨seen, .calm⟩ post
      ↔ (∃ symbol, seen = some symbol ∧ symbol.kind.isForeign = false) ∧ post ⟨none, .calm⟩ :=
  Iff.rfl

/-- After an error any token may be passed over. -/
@[simp] theorem care_bump_noted (post : Attention → Prop) :
    (care makes calls).bump ⟨seen, .noted⟩ post ↔ post ⟨none, .passing⟩ := Iff.rfl

/-- Further tokens may be passed over. -/
@[simp] theorem care_bump_passing (post : Attention → Prop) :
    (care makes calls).bump ⟨seen, .passing⟩ post ↔ post ⟨none, .passing⟩ := Iff.rfl

/-- An error is noted of what was seen. -/
@[simp] theorem care_report (mistake : Mistake) (post : Attention → Prop) :
    (care makes calls).report mistake ⟨seen, phase⟩ post
      ↔ mistake.severity = .error ∧ phase.isSettled = true
        ∧ (∃ symbol, seen = some symbol ∧ mistake.TellsOf symbol.kind)
        ∧ post ⟨seen, .noted⟩ := Iff.rfl

/-- What was seen is still there in a new body. -/
@[simp] theorem care_enter :
    (care makes calls).enter ⟨seen, phase⟩ = ⟨seen, phase.entered⟩ := rfl

/-- A node goes with an error just if tokens are passed over in it. -/
@[simp] theorem care_close (kind : NodeKind) (post : Attention → Prop) :
    (care makes calls).close kind ⟨seen, phase⟩ post
      ↔ kind ≠ .ignored ∧ makes kind ∧ phase.Closes kind ∧ post ⟨seen, .calm⟩ := Iff.rfl

/-- Whether anything was read is not told apart. -/
@[simp] theorem care_progress (before state : Attention) (post : Bool → Attention → Prop) :
    (care makes calls).progress before state post ↔ ∀ progressed, post progressed state := Iff.rfl

/-- Tokens are passed over after an error, and other rules are called when there is nothing to be passed over. -/
@[simp] theorem care_call (rule : Rule) (post : Attention → Prop) :
    (care makes calls).call rule ⟨seen, phase⟩ post
      ↔ calls rule ∧ phase.Calls rule ∧ post ⟨none, rule.phase⟩ := Iff.rfl

end

/-- A node that may be made where nothing is passed over. -/
def NodeKind.IsProper (makes : NodeKind → Prop) (kind : NodeKind) : Prop :=
  makes kind ∧ kind ≠ .ignored ∧ kind ≠ .skipped

section

variable {makes : NodeKind → Prop} {calls : Rule → Prop} {state : Attention}
  {post : Attention → Prop}

/-- A node is closed as what it is where nothing is passed over. -/
theorem NodeKind.IsProper.close {kind : NodeKind} (proper : kind.IsProper makes)
    (settled : state.phase.isSettled = true) (after : post ⟨state.seen, .calm⟩) :
    (care makes calls).close kind state post := by
  obtain ⟨may, unmarked, kept⟩ := proper
  exact ⟨unmarked, may, Phase.closes_of_isSettled settled kept, after⟩

/-- A node in which tokens were passed over is closed as one that is kept for them. -/
theorem care_close_skipped (skips : makes .skipped) (passing : state.phase = .passing)
    (after : post ⟨state.seen, .calm⟩) : (care makes calls).close .skipped state post := by
  have passable : state.phase.Closes .skipped := by
    rw [Phase.Closes, if_pos rfl, passing]
    rfl
  exact ⟨nofun, skips, passable, after⟩

end

namespace Parser

/-- A parser begins and ends with nothing to be passed over, and gives only certain values. -/
def Careful (makes : NodeKind → Prop) (calls : Rule → Prop) {α : Type} (parser : Parser α)
    (given : α → Prop) : Prop :=
  ∀ (state : Attention) (post : α → Attention → Prop), state.phase.isSettled = true →
    (∀ value after, given value → after.phase.isSettled = true → post value after) →
    parser.Obeys (care makes calls) state post

/-- The same of a parser that begins right after a look at the next token. -/
def CarefulAt (makes : NodeKind → Prop) (calls : Rule → Prop) {α : Type} (symbol : Symbol)
    (parser : Parser α) (given : α → Prop) : Prop :=
  ∀ post : α → Attention → Prop,
    (∀ value after, given value → after.phase.isSettled = true → post value after) →
    parser.Obeys (care makes calls) ⟨some symbol, .calm⟩ post

variable {makes : NodeKind → Prop} {calls : Rule → Prop} {α β : Type} {given : α → Prop}
  {symbol : Symbol}

/-- A parser that is careful anywhere is careful after a look. -/
theorem Careful.at {parser : Parser α} (careful : parser.Careful makes calls given) :
    parser.CarefulAt makes calls symbol given :=
  fun post after => careful ⟨some symbol, .calm⟩ post rfl after

/-- A careful parser gives values of every kind that includes those it gives. -/
theorem Careful.mono {possible : α → Prop} {parser : Parser α}
    (careful : parser.Careful makes calls possible) (weaker : ∀ value, possible value → given value) :
    parser.Careful makes calls given := fun state post settled after =>
  careful state post settled fun value between holds => after value between (weaker value holds)

/-- Nothing is done with care. -/
theorem careful_pure {value : α} (holds : given value) :
    (pure value : Parser α).Careful makes calls given :=
  fun state _ settled after => after value state holds settled

/-- Careful parsers can follow each other. -/
theorem Careful.bind {first : Parser β} {next : β → Parser α} {found : β → Prop}
    (careful : first.Careful makes calls found)
    (further : ∀ value, found value → (next value).Careful makes calls given) :
    (first >>= next).Careful makes calls given := by
  intro state post settled after
  -- What is settled at the start stays settled in between, which is all that the next parser needs.
  exact careful state _ settled fun value between holds still =>
    further value holds between post still after

/-- Careful parsers can follow each other after a look. -/
theorem CarefulAt.bind {first : Parser β} {next : β → Parser α} {found : β → Prop}
    (careful : first.CarefulAt makes calls symbol found)
    (further : ∀ value, found value → (next value).Careful makes calls given) :
    (first >>= next).CarefulAt makes calls symbol given := by
  intro post after
  exact careful _ fun value between holds still => further value holds between post still after

/-- What follows a look can depend on the symbol that is seen. -/
theorem careful_look {next : Symbol → Parser α}
    (further : ∀ symbol : Symbol, symbol.Sane → (next symbol).CarefulAt makes calls symbol given) :
    (look >>= next).Careful makes calls given := by
  rintro ⟨seen, phase⟩ post settled after symbol - sane
  rw [Phase.looked_of_isSettled settled]
  exact further symbol sane post after

/-- A second look sees the same symbol. -/
theorem carefulAt_look {next : Symbol → Parser α}
    (further : (next symbol).CarefulAt makes calls symbol given) :
    (look >>= next).CarefulAt makes calls symbol given := by
  rintro post after other same -
  -- Nothing was read since the first look.
  obtain rfl := (Symbol.fits_some other symbol).mp same
  exact further post after

/-- A token of use is read after a look at it. -/
theorem carefulAt_bump (useful : symbol.kind.isForeign = false) :
    bump.CarefulAt makes calls symbol fun _ => True :=
  fun _ after => ⟨⟨symbol, rfl, useful⟩, after () _ trivial rfl⟩

/-- A choice goes on with what the test says of the next token. -/
theorem obeys_choice {test : Symbol → Bool} {yes no : Parser α} {state : Attention}
    {post : α → Attention → Prop} (settled : state.phase.isSettled = true)
    (onYes : ∀ symbol : Symbol, symbol.Sane → test symbol = true →
      yes.Obeys (care makes calls) ⟨some symbol, .calm⟩ post)
    (onNo : ∀ symbol : Symbol, symbol.Sane → test symbol = false →
      no.Obeys (care makes calls) ⟨some symbol, .calm⟩ post) :
    ((look >>= fun symbol => pure (test symbol)) >>= fun found =>
      if found = true then yes else no).Obeys (care makes calls) state post := by
  obtain ⟨seen, phase⟩ := state
  intro symbol _ sane
  -- The look calms the phase, and the test is made on the symbol that it sees.
  rw [Phase.looked_of_isSettled settled]
  change (if test symbol = true then yes else no).Obeys _ _ post
  cases tested : test symbol with
  | true => simpa only [if_true] using onYes symbol sane tested
  | false => simpa only [Bool.false_eq_true, if_false] using onNo symbol sane tested

/-- Both branches of a choice are careful, given what the test says of the next token. -/
theorem careful_choice {test : Symbol → Bool} {yes no : Parser α}
    (onYes : ∀ symbol : Symbol, symbol.Sane → test symbol = true →
      yes.CarefulAt makes calls symbol given)
    (onNo : ∀ symbol : Symbol, symbol.Sane → test symbol = false →
      no.CarefulAt makes calls symbol given) :
    ((look >>= fun symbol => pure (test symbol)) >>= fun found =>
      if found = true then yes else no).Careful makes calls given :=
  fun _ post settled after => obeys_choice settled
    (fun symbol sane tested => onYes symbol sane tested post after)
    fun symbol sane tested => onNo symbol sane tested post after

/-- Either branch of a choice is careful. -/
theorem careful_ite {found : Bool} {yes no : Parser α} (onYes : yes.Careful makes calls given)
    (onNo : no.Careful makes calls given) :
    (if found = true then yes else no).Careful makes calls given := by
  cases found with
  | true => exact onYes
  | false => exact onNo

/-- What is read only after a test has its care. -/
theorem careful_when {found : Bool} {body : Parser Unit}
    (careful : body.Careful makes calls fun _ => True) :
    (if found = true then body else pure ()).Careful makes calls fun _ => True :=
  careful_ite careful (careful_pure trivial)

/-- What is read unless the next token is of some sort has its care. -/
theorem careful_unless {test : Symbol → Bool} {rest : Parser Unit}
    (careful : rest.Careful makes calls fun _ => True) :
    ((look >>= fun symbol => pure (test symbol)) >>= fun found =>
      if found = true then pure () else rest).Careful makes calls fun _ => True :=
  careful_choice (fun _ _ _ => (careful_pure trivial).at) fun _ _ _ => careful.at

/-- What is read only if the next token is of some sort has its care. -/
theorem careful_if {test : Symbol → Bool} {body : Parser Unit}
    (careful : ∀ symbol : Symbol, symbol.Sane → test symbol = true →
      body.CarefulAt makes calls symbol fun _ => True) :
    ((look >>= fun symbol => pure (test symbol)) >>= fun found =>
      if found = true then body else pure ()).Careful makes calls fun _ => True :=
  careful_choice careful fun _ _ _ => (careful_pure trivial).at

/-- A token of use is read if it comes next. -/
theorem careful_accept {kind : TokenKind} (useful : kind.isForeign = false) :
    (accept kind).Careful makes calls fun _ => True := by
  -- Only where the kinds agree a token is read, which is then of use.
  refine careful_choice (fun symbol _ same => ?_) fun _ _ _ => (careful_pure trivial).at
  rw [← beq_iff_eq.mp same] at useful
  exact (carefulAt_bump useful).bind fun _ _ => careful_pure trivial

/-- A missing token is noted after a look at what is there instead. -/
theorem careful_missing (kind : TokenKind) :
    (missing kind).Careful makes calls fun _ => True :=
  careful_look fun symbol _ _ after =>
    ⟨rfl, rfl, ⟨symbol, rfl, rfl⟩, after () _ trivial rfl⟩

/-- A token of use is read, or it is noted that it is missing. -/
theorem careful_expect {kind : TokenKind} (useful : kind.isForeign = false) :
    (expect kind).Careful makes calls fun _ => True :=
  (careful_accept useful).bind fun _ _ => careful_ite (careful_pure trivial)
    ((careful_missing kind).bind fun _ _ => careful_pure trivial)

/-- A token of use is read, or it is noted that it is missing. -/
theorem careful_require {kind : TokenKind} (useful : kind.isForeign = false) :
    (require kind).Careful makes calls fun _ => True :=
  (careful_expect useful).bind fun _ _ => careful_pure trivial

/-- A token of use may be read. -/
theorem careful_skip {kind : TokenKind} (useful : kind.isForeign = false) :
    (skip kind).Careful makes calls fun _ => True :=
  (careful_accept useful).bind fun _ _ => careful_pure trivial

/-- A node is made with care after a look if its body is careful and gives a kind that may be made. -/
theorem CarefulAt.node {body : Parser NodeKind}
    (careful : body.CarefulAt makes calls symbol fun kind => kind.IsProper makes) :
    (node body).CarefulAt makes calls symbol fun _ => True := by
  intro post after
  exact careful _ fun kind inner proper settled => proper.close settled (after kind _ trivial rfl)

/-- A node is made with care if its body is careful and gives only kinds that may be made. -/
theorem careful_node_of {body : Parser NodeKind} {possible : NodeKind → Prop}
    (proper : ∀ kind, possible kind → kind.IsProper makes)
    (careful : body.Careful makes calls possible) : (node body).Careful makes calls possible := by
  rintro ⟨seen, phase⟩ post settled after
  -- Entering a node changes nothing where nothing is passed over.
  have entered : phase.entered.isSettled = true := by rwa [Phase.entered_of_isSettled settled]
  exact careful ⟨seen, phase.entered⟩ _ entered fun kind inner holds still =>
    (proper kind holds).close still (after kind _ holds rfl)

/-- A node is made with care if its body is careful and gives a kind that may be made. -/
theorem careful_node {body : Parser NodeKind}
    (careful : body.Careful makes calls fun kind => kind.IsProper makes) :
    (node body).Careful makes calls fun _ => True :=
  (careful_node_of (fun _ proper => proper) careful).mono fun _ _ => trivial

/-- A node of one kind is made with care after a look if its body is careful. -/
theorem CarefulAt.nodeOf {kind : NodeKind} {body : Parser Unit} (proper : kind.IsProper makes)
    (careful : body.CarefulAt makes calls symbol fun _ => True) :
    (nodeOf kind body).CarefulAt makes calls symbol fun _ => True :=
  (careful.bind fun _ _ => careful_pure proper).node.bind fun _ _ => careful_pure trivial

/-- A node of one kind is made with care if its body is careful. -/
theorem careful_nodeOf {kind : NodeKind} {body : Parser Unit} (proper : kind.IsProper makes)
    (careful : body.Careful makes calls fun _ => True) :
    (nodeOf kind body).Careful makes calls fun _ => True :=
  (careful_node (careful.bind fun _ _ => careful_pure proper)).bind fun _ _ => careful_pure trivial

/-- A node of one token of use is made with care. -/
theorem carefulAt_bumpAs {kind : NodeKind} (proper : kind.IsProper makes)
    (useful : symbol.kind.isForeign = false) :
    (bumpAs kind).CarefulAt makes calls symbol fun _ => True :=
  (carefulAt_bump useful).nodeOf proper

/-- A node is made around an operand with care if its body is careful and gives only kinds that may be made. -/
theorem careful_wrap_of {body : Parser NodeKind} {possible : NodeKind → Prop}
    (proper : ∀ kind, possible kind → kind.IsProper makes)
    (careful : body.Careful makes calls possible) : (wrap body).Careful makes calls possible :=
  careful_node_of proper careful

/-- A node of one kind is made around an operand with care if its body is careful. -/
theorem careful_wrapIn {kind : NodeKind} {body : Parser Unit} (proper : kind.IsProper makes)
    (careful : body.Careful makes calls fun _ => True) :
    (wrapIn kind body).Careful makes calls fun _ => True :=
  careful_nodeOf proper careful

/-- A node of one kind is made around an operand with care after a look if its body is careful. -/
theorem CarefulAt.wrapIn {kind : NodeKind} {body : Parser Unit} (proper : kind.IsProper makes)
    (careful : body.CarefulAt makes calls symbol fun _ => True) :
    (wrapIn kind body).CarefulAt makes calls symbol fun _ => True :=
  CarefulAt.nodeOf proper careful

/-- A frame makes no difference to a careful parser. -/
theorem CarefulAt.frame {parser : Parser α} (careful : parser.CarefulAt makes calls symbol given) :
    (frame parser).CarefulAt makes calls symbol given :=
  careful

/-- A body that is tested for progress is as careful as it is without the test. -/
theorem careful_progress {body : Parser Unit} (careful : body.Careful makes calls fun _ => True) :
    (progress body).Careful makes calls fun _ => True := fun state _ settled after =>
  careful state _ settled fun _ inner _ still progressed => after progressed inner trivial still

/-- The body of a node is careful, or ends in tokens that are passed over. -/
def Recovers (makes : NodeKind → Prop) (calls : Rule → Prop) (body : Parser NodeKind) : Prop :=
  ∀ (state : Attention) (post : NodeKind → Attention → Prop), state.phase.isSettled = true →
    (∀ kind after, kind.IsProper makes → after.phase.isSettled = true → post kind after) →
    (∀ after, after.phase = .passing → post .skipped after) →
    body.Obeys (care makes calls) state post

/-- The same of a body that begins right after a look at the next token. -/
def RecoversAt (makes : NodeKind → Prop) (calls : Rule → Prop) (symbol : Symbol)
    (body : Parser NodeKind) : Prop :=
  ∀ post : NodeKind → Attention → Prop,
    (∀ kind after, kind.IsProper makes → after.phase.isSettled = true → post kind after) →
    (∀ after, after.phase = .passing → post .skipped after) →
    body.Obeys (care makes calls) ⟨some symbol, .calm⟩ post

/-- A careful body has nothing to recover from. -/
theorem CarefulAt.recoversAt {body : Parser NodeKind}
    (careful : body.CarefulAt makes calls symbol fun kind => kind.IsProper makes) :
    body.RecoversAt makes calls symbol :=
  fun post after _ => careful post after

/-- A body can begin with care. -/
theorem Careful.recovers {first : Parser β} {next : β → Parser NodeKind} {found : β → Prop}
    (careful : first.Careful makes calls found)
    (further : ∀ value, found value → (next value).Recovers makes calls) :
    (first >>= next).Recovers makes calls := by
  intro state post settled after missed
  exact careful state _ settled fun value between holds still =>
    further value holds between post still after missed

/-- A body can begin with care after a look. -/
theorem CarefulAt.recovers {first : Parser β} {next : β → Parser NodeKind} {found : β → Prop}
    (careful : first.CarefulAt makes calls symbol found)
    (further : ∀ value, found value → (next value).Recovers makes calls) :
    (first >>= next).RecoversAt makes calls symbol := by
  intro post after missed
  exact careful _ fun value between holds still =>
    further value holds between post still after missed

/-- A body can go on with what a test says of the next token. -/
theorem recovers_choice {test : Symbol → Bool} {yes no : Parser NodeKind}
    (onYes : ∀ symbol : Symbol, symbol.Sane → test symbol = true →
      yes.RecoversAt makes calls symbol)
    (onNo : ∀ symbol : Symbol, symbol.Sane → test symbol = false →
      no.RecoversAt makes calls symbol) :
    ((look >>= fun symbol => pure (test symbol)) >>= fun found =>
      if found = true then yes else no).Recovers makes calls :=
  fun _ post settled after missed => obeys_choice settled
    (fun symbol sane tested => onYes symbol sane tested post after missed)
    fun symbol sane tested => onNo symbol sane tested post after missed

/-- A node in which tokens are passed over is closed as such. -/
theorem careful_node_of_recovers {body : Parser NodeKind} (skips : makes .skipped)
    (recovers : body.Recovers makes calls) : (node body).Careful makes calls fun _ => True := by
  rintro ⟨seen, phase⟩ post settled after
  have entered : phase.entered.isSettled = true := by rwa [Phase.entered_of_isSettled settled]
  exact recovers ⟨seen, phase.entered⟩ _ entered
    (fun kind inner proper still => proper.close still (after kind _ trivial rfl))
    fun inner passing => care_close_skipped skips passing (after .skipped _ trivial rfl)

/-- A node in which tokens are passed over after a look is closed as such. -/
theorem RecoversAt.node {body : Parser NodeKind} (skips : makes .skipped)
    (recovers : body.RecoversAt makes calls symbol) :
    (node body).CarefulAt makes calls symbol fun _ => True := by
  intro post after
  exact recovers _
    (fun kind inner proper still => proper.close still (after kind _ trivial rfl))
    fun inner passing => care_close_skipped skips passing (after .skipped _ trivial rfl)

/-- Rules other than the one that passes over tokens are called with care. -/
theorem careful_call {rule : Rule} (may : calls rule) (calm : rule.phase = .calm) :
    (call rule).Careful makes calls fun _ => True := by
  rintro ⟨seen, phase⟩ post settled after
  have other : rule ≠ .recovery := by
    rintro rfl
    cases calm
  exact ⟨may, Phase.calls_of_isSettled settled other, after () _ trivial (by rw [calm]; rfl)⟩

end Parser

end Dxl
