import Dxl.Proofs.Grammar.Conduct
import Dxl.Proofs.Grammar.Expression

/-! Thrift: how often the rules look at a token before they read one, counted without running them. -/

namespace Dxl

/-- How often the next token was looked at beyond six times for each node that may still be closed around it, and what is known besides. -/
structure Spending where
  /-- Whether a token was read since the rule began. -/
  read : Bool
  spent : Nat
  seen : Option Symbol

/-- How many looks may be spent at one token: forty, and the six that the root is worth. -/
@[simp] def allowance : Nat := 46

/-- How many looks may be spent by a rule that began with none spent; what was spent before it counts only until it reads a token. -/
def lookCap (reach : Nat) (read : Bool) : Nat :=
  if read then allowance else reach

namespace Rule

/-- How many looks a rule may spend before it reads a token. -/
@[simp] def reach : Rule → Nat
  | .expression _ => 8
  | .operators _ _ => 35
  | .arguments => 22
  | .conditional => 23
  | .statement => 24
  | .declaration => 26
  | .program => 28
  | .blockItems => 29
  | .parameters => 19
  | .arrayItems => 18
  | .pathParts => 3
  | .recovery => 2
  | .furtherNames | .statementEnds | .lineEnds => 1

/-- How many looks are spent by a rule that reads nothing. -/
@[simp] def idleCost : Rule → Nat
  | .expression _ | .pathParts => 3
  | .statement => 5
  | .conditional => 7
  | .declaration | .parameters | .arrayItems | .arguments => 8
  | .operators _ _ | .blockItems | .recovery => 2
  | .program | .furtherNames | .statementEnds | .lineEnds => 1

/-- How many looks are spent, at the token that comes next in the end, by a rule that reads something. -/
@[simp] def busyCost : Rule → Nat
  | .lineEnds | .statementEnds => 1
  | .expression _ | .operators _ _ | .recovery => 2
  | .pathParts => 3
  | .furtherNames => 4
  | .conditional | .parameters | .arrayItems | .arguments => 8
  | .statement => 13
  | .declaration => 14
  | .program => 15
  | .blockItems => 16

/-- The tokens at which a rule may read nothing. -/
@[simp] def IdleAt : Rule → TokenKind → Prop
  | .expression _, kind | .conditional, kind => kind = .endOfText ∨ kind = .hardBreak
  | .statement, kind | .declaration, kind | .program, kind => kind = .endOfText
  | .blockItems, kind => kind = .endOfText ∨ kind = .sign .rightBrace
  | .statementEnds, kind => kind.endsStatement = false
  | _, _ => True

/-- A rule has spent no more than it costs in the end, and has read something unless it is at a token where it need not. -/
def Pays (rule : Rule) (state : Spending) : Prop :=
  (state.read = false → state.spent ≤ rule.idleCost
    ∧ ∀ symbol : Symbol, symbol.Fits state.seen → rule.IdleAt symbol.kind)
  ∧ (state.read = true → state.spent ≤ rule.busyCost)

end Rule

/-- Looks are only spent as long as there are enough of them; a node is worth six looks, as it makes the tree higher, and reading a token makes up for all of them. -/
def thrift (reach : Nat) : Discipline Spending where
  look state post := state.spent + 1 ≤ lookCap reach state.read
    ∧ ∀ symbol : Symbol, symbol.Fits state.seen →
      post symbol ⟨state.read, state.spent + 1, some symbol⟩
  -- Looks are counted anew for the token after the one that is read.
  bump _ post := post ⟨true, 0, none⟩
  report _ state post := post state
  -- Inside of a node one level less is left, which is given back when the node is closed.
  enter state := ⟨state.read, state.spent + 6, state.seen⟩
  close _ state post := post ⟨state.read, state.spent - 6, state.seen⟩
  progress before state post :=
    (before.read = false → post state.read state)
      ∧ (before.read = true → ∀ progressed, post progressed state)
  -- A rule goes on from where it was called if it reads nothing, and else from what it costs.
  call rule state post := state.spent + rule.reach ≤ lookCap reach state.read
    ∧ (∀ symbol : Symbol, symbol.Fits state.seen → rule.IdleAt symbol.kind →
      post ⟨state.read, state.spent + rule.idleCost, some symbol⟩)
    ∧ post ⟨true, rule.busyCost, none⟩

section

variable {reach : Nat} {state : Spending}

/-- What was spent before a rule counts until it reads a token. -/
@[simp] theorem lookCap_false : lookCap reach false = reach := rfl

/-- The whole allowance may be spent at a token that comes after one that was read. -/
@[simp] theorem lookCap_true : lookCap reach true = allowance := rfl

/-- A look is spent on a symbol that can come next. -/
@[simp] theorem thrift_look (post : Symbol → Spending → Prop) :
    (thrift reach).look state post
      ↔ state.spent + 1 ≤ lookCap reach state.read
        ∧ ∀ symbol : Symbol, symbol.Fits state.seen →
          post symbol ⟨state.read, state.spent + 1, some symbol⟩ := Iff.rfl

/-- Nothing is spent yet at the token after the one that is read. -/
@[simp] theorem thrift_bump (post : Spending → Prop) :
    (thrift reach).bump state post ↔ post ⟨true, 0, none⟩ := Iff.rfl

/-- A mistake costs nothing. -/
@[simp] theorem thrift_report (mistake : Mistake) (post : Spending → Prop) :
    (thrift reach).report mistake state post ↔ post state := Iff.rfl

/-- Inside of a node there are six looks less. -/
@[simp] theorem thrift_enter :
    (thrift reach).enter state = ⟨state.read, state.spent + 6, state.seen⟩ := rfl

/-- A closed node makes up for six looks. -/
@[simp] theorem thrift_close (kind : NodeKind) (post : Spending → Prop) :
    (thrift reach).close kind state post
      ↔ post ⟨state.read, state.spent - 6, state.seen⟩ := Iff.rfl

/-- A body has progressed if something was read in it, which is known if nothing was read before it. -/
@[simp] theorem thrift_progress (before : Spending) (post : Bool → Spending → Prop) :
    (thrift reach).progress before state post
      ↔ (before.read = false → post state.read state)
        ∧ (before.read = true → ∀ progressed, post progressed state) := Iff.rfl

/-- A rule is called while there are enough looks for it, and reads something or is at a token where it need not. -/
@[simp] theorem thrift_call (rule : Rule) (post : Spending → Prop) :
    (thrift reach).call rule state post
      ↔ state.spent + rule.reach ≤ lookCap reach state.read
        ∧ (∀ symbol : Symbol, symbol.Fits state.seen → rule.IdleAt symbol.kind →
          post ⟨state.read, state.spent + rule.idleCost, some symbol⟩)
        ∧ post ⟨true, rule.busyCost, none⟩ := Iff.rfl

end

namespace Parser

variable {reach spent start middle stop : Nat} {seen : Option Symbol} {state : Spending}
  {α β : Type}

/-- A parser that is thrifty enough for one purpose is so for a lesser one. -/
theorem Obeys.imp {parser : Parser α} {post other : α → Spending → Prop}
    (obeys : parser.Obeys (thrift reach) state post)
    (implied : ∀ value after, post value after → other value after) :
    parser.Obeys (thrift reach) state other := by
  -- The induction follows the program, and only its last step matters.
  induction parser generalizing state with
  | done value => exact implied _ _ obeys
  | andThen first next ihFirst ihNext =>
    exact ihFirst obeys fun value after holds => ihNext value holds implied
  | look => exact ⟨obeys.1, fun symbol fits => implied _ _ (obeys.2 symbol fits)⟩
  | bump => exact implied _ _ obeys
  | report mistake => exact implied _ _ obeys
  | node body ih | wrap body ih => exact ih obeys fun kind inner holds => implied _ _ holds
  | frame body ih => exact ih obeys implied
  | progress body ih =>
    exact ih obeys fun _ inner holds => ⟨fun idle => implied _ _ (holds.1 idle),
      fun busy progressed => implied _ _ (holds.2 busy progressed)⟩
  | call rule =>
    exact ⟨obeys.1, fun symbol fits idle => implied _ _ (obeys.2.1 symbol fits idle),
      implied _ _ obeys.2.2⟩

/-- Something is read, and at most so many looks are spent at the token after it. -/
def Advances (parser : Parser α) (reach : Nat) (state : Spending) (stop : Nat) : Prop :=
  parser.Obeys (thrift reach) state fun _ after => after.read = true ∧ after.spent ≤ stop

/-- Once a token was read, at most so many looks are spent in the end if at most so many were spent in the beginning. -/
def Spends (parser : Parser α) (start stop : Nat) : Prop :=
  ∀ (reach spent : Nat) (seen : Option Symbol), spent ≤ start →
    parser.Advances reach ⟨true, spent, seen⟩ stop

/-- What a parser spends is all that matters once a token was read. -/
theorem Advances.obeys {parser : Parser α} (advances : parser.Advances reach state stop)
    {post : α → Spending → Prop}
    (further : ∀ value spent seen, spent ≤ stop → post value ⟨true, spent, seen⟩) :
    parser.Obeys (thrift reach) state post := by
  refine advances.imp ?_
  rintro value ⟨_, spent, seen⟩ ⟨rfl, few⟩
  exact further value spent seen few

/-- A rule pays for what it spends if it reads something at no more than it costs. -/
theorem Advances.pays {parser : Parser Unit} {rule : Rule}
    (advances : parser.Advances reach state stop) (enough : stop ≤ rule.busyCost) :
    parser.Obeys (thrift reach) state fun _ => rule.Pays :=
  advances.obeys fun _ _ _ few => ⟨nofun, fun _ => Nat.le_trans few enough⟩

/-- A rule that makes a node of what it reads pays for what it spends if the node makes up for the rest. -/
theorem Advances.paysInside {parser : Parser Unit} {rule : Rule}
    (advances : parser.Advances reach state stop) (enough : stop ≤ rule.busyCost + 6) :
    parser.Obeys (thrift reach) state fun _ inner =>
      rule.Pays ⟨inner.read, inner.spent - 6, inner.seen⟩ :=
  advances.obeys fun _ _ _ few =>
    ⟨nofun, fun _ => Nat.sub_le_of_le_add (Nat.le_trans few enough)⟩

/-- More may be spent in the end. -/
theorem Advances.weaken {parser : Parser α} {more : Nat}
    (advances : parser.Advances reach state stop) (enough : stop ≤ more) :
    parser.Advances reach state more :=
  advances.obeys fun _ _ _ few => ⟨rfl, Nat.le_trans few enough⟩

/-- Less may be spent in the beginning, and more in the end. -/
theorem Spends.weaken {parser : Parser α} {less more : Nat} (spends : parser.Spends start stop)
    (few : less ≤ start) (enough : stop ≤ more) : parser.Spends less more :=
  fun reach spent seen fewer =>
    (spends reach spent seen (Nat.le_trans fewer few)).weaken enough

/-- Of two parsers the second one begins with what the first one has spent. -/
theorem Advances.bind {first : Parser α} {next : α → Parser β}
    (advances : first.Advances reach state middle)
    (further : ∀ value, (next value).Spends middle stop) :
    (first >>= next).Advances reach state stop :=
  advances.obeys fun value spent seen few => further value reach spent seen few

/-- Of two parsers the second one begins with what the first one has spent since a token was read. -/
theorem Spends.bind {first : Parser α} {next : α → Parser β} (spends : first.Spends start middle)
    (further : ∀ value, (next value).Spends middle stop) : (first >>= next).Spends start stop :=
  fun reach spent seen few => (spends reach spent seen few).bind further

/-- It makes no difference how much was spent before something is read. -/
theorem Spends.of_advances {parser : Parser α}
    (advances : ∀ reach state, parser.Advances reach state stop) : parser.Spends start stop :=
  fun reach _ _ _ => advances reach _

/-- Reading a token makes up for all that was spent. -/
theorem advances_bump : bump.Advances reach state 0 :=
  ⟨rfl, Nat.le_refl _⟩

/-- A token is read at the cost of a look at it if it is known to come next. -/
theorem advances_require {kind : TokenKind} {symbol : Symbol} {read : Bool}
    (known : symbol.kind = kind) (enough : spent < lookCap reach read) :
    (require kind).Advances reach ⟨read, spent, some symbol⟩ 0 := by
  simp only [Advances, obeys_require, thrift_look, thrift_bump, Symbol.fits_some]
  refine ⟨enough, ?_⟩
  rintro _ rfl
  exact ⟨fun _ => ⟨trivial, Nat.le_refl _⟩, fun other => absurd known other⟩

/-- A rule reads something at a token where it must. -/
theorem advances_call {rule : Rule} (enough : state.spent + rule.reach ≤ lookCap reach state.read)
    (must : ∀ symbol : Symbol, symbol.Fits state.seen → ¬ rule.IdleAt symbol.kind)
    (cost : rule.busyCost ≤ stop) : (call rule).Advances reach state stop :=
  ⟨enough, fun symbol fits idle => absurd idle (must symbol fits), rfl, cost⟩

/-- A look is spent before either of two branches. -/
theorem advances_choice {test : Symbol → Bool} {yes no : Parser α}
    (enough : state.spent < lookCap reach state.read)
    (one : ∀ symbol : Symbol, symbol.Fits state.seen → test symbol = true →
      yes.Advances reach ⟨state.read, state.spent + 1, some symbol⟩ stop)
    (other : ∀ symbol : Symbol, symbol.Fits state.seen → test symbol = false →
      no.Advances reach ⟨state.read, state.spent + 1, some symbol⟩ stop) :
    ((look >>= fun symbol => pure (test symbol)) >>= fun found =>
      if found = true then yes else no).Advances reach state stop := by
  refine ⟨enough, ?_⟩
  intro symbol fits
  show (if test symbol = true then yes else no).Advances reach _ stop
  by_cases found : test symbol = true
  · rw [if_pos found]
    exact one symbol fits found
  · rw [if_neg found]
    exact other symbol fits (Bool.eq_false_iff.mpr found)

/-- A token is read, or a look is spent. -/
theorem advances_accept {kind : TokenKind} {yes no : Parser α}
    (enough : state.spent < lookCap reach state.read) (one : yes.Spends 0 stop)
    (other : ∀ symbol : Symbol, symbol.Fits state.seen → symbol.kind ≠ kind →
      no.Advances reach ⟨state.read, state.spent + 1, some symbol⟩ stop) :
    (accept kind >>= fun found => if found = true then yes else no).Advances reach state stop := by
  simp only [Advances, obeys_bind, obeys_accept, thrift_look, thrift_bump]
  exact ⟨enough, fun symbol fits => ⟨fun _ => one reach 0 none (Nat.le_refl _), other symbol fits⟩⟩

/-- A node makes up for six looks. -/
theorem advances_node {body : Parser NodeKind}
    (advances : body.Advances reach ⟨state.read, state.spent + 6, state.seen⟩ (stop + 6)) :
    (node body).Advances reach state stop :=
  advances.obeys fun _ _ _ few => ⟨rfl, Nat.sub_le_of_le_add few⟩

/-- A node of one kind makes up for six looks. -/
theorem advances_nodeOf {kind : NodeKind} {body : Parser Unit}
    (advances : body.Advances reach ⟨state.read, state.spent + 6, state.seen⟩ (stop + 6)) :
    (nodeOf kind body).Advances reach state stop :=
  advances.obeys fun _ _ _ few => ⟨rfl, Nat.sub_le_of_le_add few⟩

/-- A node around an operand makes up for six looks. -/
theorem advances_wrap {body : Parser NodeKind}
    (advances : body.Advances reach ⟨state.read, state.spent + 6, state.seen⟩ (stop + 6)) :
    (wrap body).Advances reach state stop :=
  advances.obeys fun _ _ _ few => ⟨rfl, Nat.sub_le_of_le_add few⟩

/-- A node of one kind around an operand makes up for six looks. -/
theorem advances_wrapIn {kind : NodeKind} {body : Parser Unit}
    (advances : body.Advances reach ⟨state.read, state.spent + 6, state.seen⟩ (stop + 6)) :
    (wrapIn kind body).Advances reach state stop :=
  advances.obeys fun _ _ _ few => ⟨rfl, Nat.sub_le_of_le_add few⟩

/-- A node of one token makes up for all that was spent. -/
theorem advances_bumpAs {kind : NodeKind} : (bumpAs kind).Advances reach state 0 :=
  advances_nodeOf (advances_bump.weaken (Nat.zero_le _))

/-- A parser that does nothing spends nothing. -/
theorem spends_pure (value : α) (enough : start ≤ stop) :
    (pure value : Parser α).Spends start stop :=
  fun _ _ _ few => ⟨rfl, Nat.le_trans few enough⟩

/-- A look is spent. -/
theorem spends_look (enough : start < allowance) : look.Spends start (start + 1) :=
  fun _ _ _ few => ⟨Nat.le_trans (Nat.succ_le_succ few) enough,
    fun _ _ => ⟨rfl, Nat.succ_le_succ few⟩⟩

/-- A test of the next token spends a look. -/
theorem spends_test {test : Symbol → α} (enough : start < allowance) :
    (look >>= fun symbol => pure (test symbol)).Spends start (start + 1) :=
  (spends_look enough).bind fun _ => spends_pure _ (Nat.le_refl _)

/-- What each of two branches spends at most is spent by a choice between them. -/
theorem spends_ite {condition : Prop} [Decidable condition] {yes no : Parser α}
    (one : yes.Spends start stop) (other : no.Spends start stop) :
    (if condition then yes else no).Spends start stop := by
  split
  · exact one
  · exact other

/-- A look is spent before either of two branches, whichever it is. -/
theorem spends_choice {test : Symbol → Bool} {yes no : Parser α} (enough : start < allowance)
    (one : yes.Spends (start + 1) stop) (other : no.Spends (start + 1) stop) :
    ((look >>= fun symbol => pure (test symbol)) >>= fun found =>
      if found = true then yes else no).Spends start stop :=
  (spends_test enough).bind fun _ => spends_ite one other

/-- A token is read, or a look is spent at the token after one that was read. -/
theorem spends_accept {kind : TokenKind} {yes no : Parser α} (enough : start < allowance)
    (one : yes.Spends 0 stop) (other : no.Spends (start + 1) stop) :
    (accept kind >>= fun found => if found = true then yes else no).Spends start stop :=
  fun reach spent _ few => advances_accept (Nat.lt_of_le_of_lt few enough) one
    fun symbol _ _ => other reach (spent + 1) (some symbol) (Nat.succ_le_succ few)

/-- A token is read, or two looks are spent. -/
theorem spends_expect {kind : TokenKind} {yes no : Parser α} (enough : start + 1 < allowance)
    (one : yes.Spends 0 stop) (other : no.Spends (start + 2) stop) :
    (expect kind >>= fun found => if found = true then yes else no).Spends start stop := by
  intro reach spent seen few
  simp only [Advances, expect, obeys_bind, obeys_accept, thrift_look, thrift_bump, lookCap_true]
  -- The second look finds out what is there instead.
  refine ⟨by omega, fun symbol _ => ⟨fun _ => ?_, fun _ => ⟨?_, fun next _ => ?_⟩⟩⟩
  · exact one reach 0 none (Nat.le_refl _)
  · show spent + 1 + 1 ≤ allowance
    omega
  · exact other reach (spent + 2) (some next) (by omega)

/-- A token is read, or two looks are spent, before what comes in any case. -/
theorem spends_require {kind : TokenKind} (enough : start + 1 < allowance)
    (costs : start + 2 ≤ stop) : (require kind).Spends start stop := by
  intro reach spent seen few
  simp only [Advances, obeys_require, thrift_look, thrift_bump, thrift_report, lookCap_true]
  -- A token that is there takes one look; one that is missing takes another for the remark.
  refine ⟨by omega, fun symbol _ => ⟨fun _ => ?_, fun _ => ⟨?_, fun next _ => ?_⟩⟩⟩
  · exact ⟨trivial, Nat.zero_le _⟩
  · show spent + 1 + 1 ≤ allowance
    omega
  · refine ⟨trivial, ?_⟩
    show spent + 1 + 1 ≤ stop
    omega

/-- A token is read or a look is spent, before what comes in any case. -/
theorem spends_skip {kind : TokenKind} (enough : start < allowance) :
    (skip kind).Spends start (start + 1) := by
  intro reach spent seen few
  simp only [Advances, skip, obeys_bind, obeys_accept, thrift_look, thrift_bump, lookCap_true]
  refine ⟨by omega, fun symbol _ => ⟨fun _ => ⟨rfl, Nat.zero_le _⟩, fun _ => ?_⟩⟩
  exact ⟨rfl, Nat.succ_le_succ few⟩

/-- Whatever was spent since a token was read, a node of one token makes up for it. -/
theorem spends_bumpAs {kind : NodeKind} : (bumpAs kind).Spends start 0 :=
  .of_advances fun _ _ => advances_bumpAs

/-- A node of one kind makes up for six looks that were spent since a token was read. -/
theorem spends_nodeOf {kind : NodeKind} {body : Parser Unit}
    (spends : body.Spends (start + 6) (stop + 6)) : (nodeOf kind body).Spends start stop :=
  fun reach spent seen few =>
    advances_nodeOf (spends reach (spent + 6) seen (Nat.add_le_add_right few 6))

/-- A node around an operand makes up for six looks that were spent since a token was read. -/
theorem spends_wrapIn {kind : NodeKind} {body : Parser Unit}
    (spends : body.Spends (start + 6) (stop + 6)) : (wrapIn kind body).Spends start stop :=
  fun reach spent seen few =>
    advances_wrapIn (spends reach (spent + 6) seen (Nat.add_le_add_right few 6))

/-- A rule is called while there are enough looks for it, and is paid for if it reads nothing and if it does. -/
theorem spends_call {rule : Rule} (enough : start + rule.reach ≤ allowance)
    (costs : start + rule.idleCost ≤ stop ∧ rule.busyCost ≤ stop) :
    (call rule).Spends start stop := by
  intro reach spent seen few
  -- What was spent before the call counts only if the rule reads nothing.
  refine ⟨?_, fun _ _ _ => ⟨rfl, ?_⟩, rfl, costs.2⟩
  · show spent + rule.reach ≤ allowance
    omega
  · show spent + rule.idleCost ≤ stop
    omega

end Parser

end Dxl
