import Mathlib
import Dxl.Parse

/-! Growth: what the parsers make when they build trees at once, without a record of events in between. -/

namespace Dxl

/-- The end of the text is no trivia. -/
theorem TokenKind.ne_endOfText_of_isTrivia {kind : TokenKind} (trivia : kind.isTrivia = true) :
    kind ≠ .endOfText := by
  rintro rfl
  cases trivia

/-- A run whose result passes a test has a result, which passes it. -/
theorem exists_ok_of_any {ε α : Type} {result : Except ε α} {test : α → Bool}
    (passes : result.toOption.any test = true) : ∃ value, result = .ok value ∧ test value = true := by
  cases result with
  | error failure => cases passes
  | ok value => exact ⟨value, rfl, passes⟩

/-- What the open frame begins with. -/
inductive Opening where
  | nothing
  /-- A closed node, which can be wrapped. -/
  | node
  /-- Something that cannot be wrapped. -/
  | other
deriving DecidableEq

/-- What a frame begins with once more is added to it. -/
def Opening.orElse : Opening → Opening → Opening
  | .nothing, added => added
  | opening, _ => opening

/-- A frame is empty in the end just if it was empty and nothing was added. -/
theorem Opening.orElse_eq_nothing {opening added : Opening} :
    opening.orElse added = .nothing ↔ opening = .nothing ∧ added = .nothing := by
  cases opening <;> simp [orElse]

/-- A frame begins with a node in the end just if it did before, or was empty and a node was added. -/
theorem Opening.orElse_eq_node {opening added : Opening} :
    opening.orElse added = .node ↔ opening = .node ∨ opening = .nothing ∧ added = .node := by
  cases opening <;> simp [orElse]

/-- A frame that begins with no node begins with what cannot be wrapped once that is added. -/
theorem Opening.orElse_other {opening : Opening} (plain : opening ≠ .node) :
    opening.orElse .other = .other := by
  cases opening with
  | node => exact absurd rfl plain
  | nothing | other => rfl

/-- A tree that grows token by token. -/
structure Growth where
  /-- The tokens still to be read. -/
  rest : List Token
  /-- The offset at which those tokens begin. -/
  offset : Nat
  /-- How often the next token was looked at. -/
  looks : Nat
  opening : Opening
  /-- The trees in the open frame, latest first. -/
  siblings : List Tree
  report : Report

namespace Growth

/-- The growth before anything is read. -/
def initial (tokens : List Token) : Growth :=
  ⟨tokens, 0, 0, .nothing, [], .empty⟩

/-- Reads the next token, which becomes a leaf. -/
def addLeaf (growth : Growth) (token : Token) : Growth :=
  { growth with
    rest := growth.rest.tail
    offset := growth.offset + token.text.utf8ByteSize
    opening := growth.opening.orElse .other
    siblings := token.leaf :: growth.siblings }

/-- Reads all trivia before the next token. -/
def eatTrivia (growth : Growth) : Growth :=
  (growth.rest.takeWhile (·.kind.isTrivia)).foldl addLeaf growth

/-- Looks at the next token after any trivia. -/
def look (limit : Option Nat) (growth : Growth) : Except Failure (Symbol × Growth) :=
  let settled := growth.eatTrivia
  match settled.rest with
  | [] => .error .pastEnd
  | token :: _ =>
    if limit.any (· ≤ growth.looks) then .error (.stuck token.kind)
    else .ok (token.symbol, { settled with looks := growth.looks + 1 })

/-- Reads the next token after any trivia, which must not be the end of the text. -/
def bump (growth : Growth) : Except Failure Growth :=
  let settled := growth.eatTrivia
  match settled.rest with
  | [] => .error .pastEnd
  | token :: _ =>
    if token.kind = .endOfText then .error .pastEnd
    else .ok { settled.addLeaf token with looks := 0 }

/-- The tokens that are read are the next ones. -/
theorem rest_foldl_addLeaf {growth : Growth} {read rest : List Token}
    (split : growth.rest = read ++ rest) : (read.foldl addLeaf growth).rest = rest := by
  induction read generalizing growth with
  | nil => exact split
  | cons token read ih =>
    rw [List.foldl_cons]
    exact ih (by rw [addLeaf, split]; rfl)

/-- No trivia is left before the next token. -/
theorem rest_eatTrivia (growth : Growth) :
    growth.eatTrivia.rest = growth.rest.dropWhile (·.kind.isTrivia) :=
  rest_foldl_addLeaf List.takeWhile_append_dropWhile.symm

/-- What holds of a growth holds when the trivia before the next token is read, if it is kept by each token of trivia. -/
@[elab_as_elim]
theorem eatTrivia_induction {growth : Growth} {motive : Growth → Prop} (start : motive growth)
    (step : ∀ (between : Growth) (token : Token) (rest : List Token),
      between.rest = token :: rest → token.kind.isTrivia = true → motive between →
      motive (between.addLeaf token)) : motive growth.eatTrivia := by
  have all : ∀ token ∈ growth.rest.takeWhile (·.kind.isTrivia), token.kind.isTrivia = true :=
    fun token member => List.all_eq_true.mp List.all_takeWhile token member
  obtain ⟨left, split⟩ : ∃ left, growth.rest = growth.rest.takeWhile (·.kind.isTrivia) ++ left :=
    ⟨_, List.takeWhile_append_dropWhile.symm⟩
  rw [eatTrivia]
  -- The trivia is a row of its own from here on, and what is left of the tokens comes after it.
  generalize growth.rest.takeWhile (·.kind.isTrivia) = trivia at all split ⊢
  induction trivia generalizing growth with
  | nil => exact start
  | cons token trivia ih =>
    have next := step growth token (trivia ++ left) split (all token (by simp)) start
    exact ih next (fun other member => all other (by simp [member])) (by simp [addLeaf, split])

/-- The leaves of the tokens that are read come after what is there. -/
theorem siblings_foldl_addLeaf (read : List Token) (growth : Growth) :
    (read.foldl addLeaf growth).siblings = (read.map Token.leaf).reverse ++ growth.siblings := by
  induction read generalizing growth with
  | nil => rfl
  | cons token read ih => simp [ih, addLeaf]

/-- Reading trivia does not count as a look. -/
theorem looks_foldl_addLeaf (read : List Token) (growth : Growth) :
    (read.foldl addLeaf growth).looks = growth.looks := by
  induction read generalizing growth with
  | nil => rfl
  | cons token read ih => exact ih _

/-- A frame that begins with nothing begins with the first token that is read. -/
theorem opening_foldl_addLeaf (read : List Token) (growth : Growth) :
    (read.foldl addLeaf growth).opening
      = growth.opening.orElse (if read.isEmpty then .nothing else .other) := by
  induction read generalizing growth with
  | nil => cases opened : growth.opening <;> simp [opened, Opening.orElse]
  | cons token rest ih =>
    rw [List.foldl_cons, ih]
    cases opened : growth.opening <;> cases rest <;> simp [addLeaf, opened, Opening.orElse]

/-- Reading trivia notes no mistakes. -/
theorem report_eatTrivia (growth : Growth) : growth.eatTrivia.report = growth.report :=
  eatTrivia_induction rfl fun _ _ _ _ _ same => same

section

variable {growth after : Growth} {limit : Option Nat} {token : Token} {rest : List Token}

/-- A look sees the next token after trivia, unless it was looked at too often. -/
theorem look_eq (next : growth.eatTrivia.rest = token :: rest) :
    growth.look limit = if limit.any (· ≤ growth.looks) then .error (.stuck token.kind)
      else .ok (token.symbol, { growth.eatTrivia with looks := growth.looks + 1 }) := by
  simp only [look]
  split
  · rename_i none
    rw [none] at next
    cases next
  · rename_i found
    rw [found] at next
    cases next
    rfl

/-- The next token after trivia is read, unless the text ends there. -/
theorem bump_eq (next : growth.eatTrivia.rest = token :: rest) :
    growth.bump = if token.kind = .endOfText then .error .pastEnd
      else .ok { growth.eatTrivia.addLeaf token with looks := 0 } := by
  simp only [bump]
  split
  · rename_i none
    rw [none] at next
    cases next
  · rename_i found
    rw [found] at next
    cases next
    rfl

/-- A look that succeeds has seen the next token after trivia, which it counts. -/
theorem exists_of_look {symbol : Symbol} (looked : growth.look limit = .ok (symbol, after)) :
    ∃ token rest, growth.eatTrivia.rest = token :: rest ∧ limit.any (· ≤ growth.looks) = false
      ∧ symbol = token.symbol ∧ after = { growth.eatTrivia with looks := growth.looks + 1 } := by
  cases found : growth.eatTrivia.rest with
  | nil => simp [look, found] at looked
  | cons token rest =>
    rw [look_eq found] at looked
    split at looked
    · cases looked
    · rename_i within
      cases looked
      exact ⟨token, rest, rfl, by simpa using within, rfl, rfl⟩

/-- A token that was read came after trivia, and was not the end of the text. -/
theorem exists_of_bump (bumped : growth.bump = .ok after) :
    ∃ token rest, growth.eatTrivia.rest = token :: rest ∧ token.kind ≠ .endOfText
      ∧ after = { growth.eatTrivia.addLeaf token with looks := 0 } := by
  cases found : growth.eatTrivia.rest with
  | nil => simp [bump, found] at bumped
  | cons token rest =>
    rw [bump_eq found] at bumped
    split at bumped
    · cases bumped
    · rename_i proper
      cases bumped
      exact ⟨token, rest, rfl, proper, rfl⟩

end

/-- Notes a mistake at the next token. -/
def addMistake (growth : Growth) (mistake : Mistake) : Growth :=
  { growth with
    opening := growth.opening.orElse .other
    report := growth.report.add (mistake.remark growth.offset) }

/-- Begins a new frame. -/
def enter (growth : Growth) : Growth :=
  { growth with opening := .nothing, siblings := [] }

/-- Ends an inner frame, whose trees join the outer one. -/
def leave (outer inner : Growth) : Growth :=
  { inner with
    opening := outer.opening.orElse inner.opening
    siblings := inner.siblings ++ outer.siblings }

/-- Makes a node of all trees in the frame. -/
def close (inner : Growth) (kind : NodeKind) : Growth :=
  { inner with opening := .node, siblings := [.node (.node kind) inner.siblings.reverse] }

/-- Whether anything but trivia was read since the given tokens were left. -/
def hasProgressed (before : List Token) (growth : Growth) : Bool :=
  (before.take (before.length - growth.rest.length)).any fun token => !token.kind.isTrivia

end Growth

namespace Parser

/-- Grows what a parser reads, given how rules grow. -/
def grow (call : Rule → Growth → Except Failure Growth) (limit : Option Nat) {α : Type}
    (parser : Parser α) (growth : Growth) : Except Failure (α × Growth) :=
  match parser with
  | .done value => .ok (value, growth)
  | .andThen first next =>
    match first.grow call limit growth with
    | .ok (value, after) => (next value).grow call limit after
    | .error failure => .error failure
  | .look => growth.look limit
  | .bump => growth.bump.map ((), ·)
  | .report mistake => .ok ((), growth.addMistake mistake)
  | .node body =>
    match body.grow call limit growth.enter with
    | .ok (kind, inner) => .ok (kind, growth.leave (inner.close kind))
    | .error failure => .error failure
  | .frame body =>
    match body.grow call limit growth.enter with
    | .ok (value, inner) => .ok (value, growth.leave inner)
    | .error failure => .error failure
  | .wrap body =>
    -- Everything in the frame goes into the node, whose own frame begins after it.
    if growth.opening = .node then
      match body.grow call limit growth.enter with
      | .ok (kind, inner) => .ok (kind, (growth.leave inner).close kind)
      | .error failure => .error failure
    else .error .notClosed
  | .progress body =>
    match body.grow call limit growth with
    | .ok ((), after) => .ok (after.hasProgressed growth.rest, after)
    | .error failure => .error failure
  | .call rule => (call rule growth).map ((), ·)

section

variable (call : Rule → Growth → Except Failure Growth) (limit : Option Nat) (growth : Growth)

/-- The second of two parsers grows on what the first one leaves. -/
theorem grow_andThen {α β : Type} (first : Parser α) (next : α → Parser β) :
    (first.andThen next).grow call limit growth
      = (first.grow call limit growth).bind fun result =>
          (next result.1).grow call limit result.2 := by
  cases found : first.grow call limit growth <;> simp only [grow, found, Except.bind]

/-- A node is closed around what its body grows in a frame of its own. -/
theorem grow_node (body : Parser NodeKind) :
    (node body).grow call limit growth
      = (body.grow call limit growth.enter).map fun result =>
          (result.1, growth.leave (result.2.close result.1)) := by
  cases found : body.grow call limit growth.enter <;> simp only [grow, found, Except.map]

/-- A frame is left with what its body grows. -/
theorem grow_frame {α : Type} (body : Parser α) :
    (frame body).grow call limit growth
      = (body.grow call limit growth.enter).map fun result =>
          (result.1, growth.leave result.2) := by
  cases found : body.grow call limit growth.enter <;> simp only [grow, found, Except.map]

/-- A node is closed around the operand of the frame and what its body grows. -/
theorem grow_wrap (body : Parser NodeKind) (operand : growth.opening = .node) :
    (wrap body).grow call limit growth
      = (body.grow call limit growth.enter).map fun result =>
          (result.1, (growth.leave result.2).close result.1) := by
  cases found : body.grow call limit growth.enter <;>
    simp only [grow, found, operand, if_true, Except.map]

/-- A body that is tested for progress grows as it does without the test. -/
theorem grow_progress (body : Parser Unit) :
    (progress body).grow call limit growth
      = (body.grow call limit growth).map fun result =>
          (result.2.hasProgressed growth.rest, result.2) := by
  cases found : body.grow call limit growth <;> simp only [grow, found, Except.map]

end

end Parser

/-- Grows a rule whose calls nest at most as deeply as the given number. -/
def Rule.grow (limit : Option Nat) (rule : Rule) : Nat → Growth → Except Failure Growth
  | 0, _ => .error .endless
  | depth + 1, growth =>
    (rule.body.grow (fun inner => inner.grow limit depth) limit growth).map Prod.snd

/-- Grows the tree of a whole source text. -/
def growWithin (limit : Option Nat) (tokens : List Token) : Except Failure Parsed :=
  match Rule.program.grow limit (Rule.depthFor tokens.length) (Growth.initial tokens) with
  | .ok growth =>
    let settled := growth.eatTrivia
    match settled.rest with
    | [] => .error .pastEnd
    -- The token at the end has no place in the tree.
    | _ :: rest =>
      if rest.isEmpty then
        .ok ⟨.node (.node .root) settled.siblings.reverse, settled.report⟩
      else .error .leftover
  | .error failure => .error failure

/-- Makes the root of all trees in the frame, when nothing is left but the token at the end. -/
def Growth.finish (growth : Growth) : Except Failure Parsed :=
  match growth.eatTrivia.rest with
  | [] => .error .pastEnd
  | _ :: rest =>
    if rest.isEmpty then
      .ok ⟨.node (.node .root) growth.eatTrivia.siblings.reverse, growth.eatTrivia.report⟩
    else .error .leftover

/-- A whole source text grows as one program, of which the root is made. -/
theorem growWithin_eq (limit : Option Nat) (tokens : List Token) :
    growWithin limit tokens
      = (Rule.program.grow limit (Rule.depthFor tokens.length) (.initial tokens)).bind
          Growth.finish := by
  cases program : Rule.program.grow limit (Rule.depthFor tokens.length) (.initial tokens) <;>
    simp only [growWithin, program, Except.bind, Growth.finish]

end Dxl
