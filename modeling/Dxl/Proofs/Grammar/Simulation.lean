import Dxl.Proofs.Grammar.Recording

/-! Simulation: recording events and assembling them has the same outcome as growing the tree at once. -/

namespace Dxl

/-- Two computations fail alike, or end in related ways. -/
inductive SameOutcome {α β : Type} (related : α → β → Prop) :
    Except Failure α → Except Failure β → Prop
  | ok {left : α} {right : β} : related left right → SameOutcome related (.ok left) (.ok right)
  | error {failure : Failure} : SameOutcome related (.error failure) (.error failure)

namespace SameOutcome

/-- Functions that preserve a relation preserve that outcomes are the same. -/
theorem map {α β γ δ : Type} {related : α → β → Prop} {mapped : γ → δ → Prop}
    {left : Except Failure α} {right : Except Failure β} {f : α → γ} {g : β → δ}
    (same : SameOutcome related left right)
    (preserved : ∀ value other, related value other → mapped (f value) (g other)) :
    SameOutcome mapped (left.map f) (right.map g) := by
  cases same with
  | ok agree => exact .ok (preserved _ _ agree)
  | error => exact .error

/-- Outcomes are the same if they are so up to some point and from there on. -/
theorem bind {α β γ δ : Type} {related : α → β → Prop} {mapped : γ → δ → Prop}
    {left : Except Failure α} {right : Except Failure β} {f : α → Except Failure γ}
    {g : β → Except Failure δ} (same : SameOutcome related left right)
    (preserved : ∀ value other, related value other → SameOutcome mapped (f value) (g other)) :
    SameOutcome mapped (left.bind f) (right.bind g) := by
  cases same with
  | ok agree => exact preserved _ _ agree
  | error => exact .error

/-- Either both sides fail or neither does. -/
theorem outcomes {α β : Type} {related : α → β → Prop} {left : Except Failure α}
    {right : Except Failure β} (same : SameOutcome related left right) :
    (∃ failure, left = .error failure ∧ right = .error failure)
      ∨ ∃ value other, left = .ok value ∧ right = .ok other ∧ related value other := by
  cases same with
  | ok agree => exact .inr ⟨_, _, rfl, rfl, agree⟩
  | error => exact .inl ⟨_, rfl, rfl⟩

end SameOutcome

/-- The same value is given, and the record follows the growth. -/
def Follows {α : Type} (before : List Event) (origin : Growth) (recorded : α × Recorder)
    (grown : α × Growth) : Prop :=
  recorded.1 = grown.1 ∧ Tracks before origin recorded.2 grown.2

section

variable {before : List Event} {origin growth : Growth} {recorder : Recorder}

/-- Both sides see the same token, or are stuck at it. -/
theorem Tracks.look (tracks : Tracks before origin recorder growth) (limit : Option Nat) :
    SameOutcome (Follows before origin) (recorder.look limit) (growth.look limit) := by
  have settled := tracks.eatTrivia
  have same := settled.rest
  -- Both sides have passed over the same trivia, and are at the same token.
  cases found : growth.eatTrivia.rest with
  | nil =>
    simp only [Recorder.look, Growth.look, same, found]
    exact .error
  | cons token rest =>
    simp only [Recorder.look, Growth.look, same, found, tracks.looks]
    split
    · exact .error
    · refine .ok ⟨rfl, ?_⟩
      simpa only [same, found] using settled.withLooks (growth.looks + 1)

/-- Both sides read the same token, unless the text ends. -/
theorem Tracks.bump (tracks : Tracks before origin recorder growth) :
    SameOutcome (Tracks before origin) recorder.bump growth.bump := by
  have settled := tracks.eatTrivia
  have same := settled.rest
  cases found : growth.eatTrivia.rest with
  | nil =>
    simp only [Recorder.bump, Growth.bump, same, found]
    exact .error
  | cons token rest =>
    simp only [Recorder.bump, Growth.bump, same, found]
    split
    · exact .error
    · -- The token is read as one more after the trivia.
      have read := (settled.read (show growth.eatTrivia.rest = [token] ++ rest from found)).withLooks 0
      refine .ok ?_
      simpa [Recorder.advance, Recorder.push, same, found] using read

end

/-- A parser has the same outcome on both sides if the rules it calls do. -/
theorem Parser.record_grow {recordCall : Rule → Recorder → Except Failure Recorder}
    {growCall : Rule → Growth → Except Failure Growth}
    (calls : ∀ rule before origin recorder growth, Tracks before origin recorder growth →
      SameOutcome (Tracks before origin) (recordCall rule recorder) (growCall rule growth))
    (limit : Option Nat) {α : Type} (parser : Parser α) {before : List Event} {origin : Growth}
    {recorder : Recorder} {growth : Growth} (tracks : Tracks before origin recorder growth) :
    SameOutcome (Follows before origin) (parser.record recordCall limit recorder)
      (parser.grow growCall limit growth) := by
  -- The induction follows the program; inner frames are tracked from where they begin.
  induction parser generalizing before origin recorder growth with
  | done value => exact .ok ⟨rfl, tracks⟩
  | andThen first next ihFirst ihNext =>
    rcases (ihFirst tracks).outcomes with
      ⟨failure, left, right⟩ | ⟨⟨value, recorded⟩, ⟨_, grown⟩, left, right, rfl, after⟩
    · simp only [record, grow, left, right]
      exact .error
    · simp only [record, grow, left, right]
      exact ihNext value after
  | look => exact tracks.look limit
  | bump => exact tracks.bump.map fun _ _ after => ⟨rfl, after⟩
  | report mistake => exact .ok ⟨rfl, tracks.addMistake mistake⟩
  | node body ih =>
    have entered : Tracks _ growth.enter recorder.openNode growth.enter :=
      .enter tracks.rest tracks.looks rfl
    rcases (ih entered).outcomes with
      ⟨failure, left, right⟩ | ⟨⟨kind, recorded⟩, ⟨_, grown⟩, left, right, rfl, inner⟩
    · simp only [record, grow, left, right]
      exact .error
    · simp only [record, grow, left, right]
      exact .ok ⟨rfl, tracks.node inner kind⟩
  | frame body ih =>
    have entered : Tracks _ growth.enter { recorder with head := recorder.events.size }
        growth.enter := .enter tracks.rest tracks.looks rfl
    rcases (ih entered).outcomes with
      ⟨failure, left, right⟩ | ⟨⟨value, recorded⟩, ⟨_, grown⟩, left, right, rfl, inner⟩
    · simp only [record, grow, left, right]
      exact .error
    · simp only [record, grow, left, right]
      exact .ok ⟨rfl, tracks.leave inner⟩
  | wrap body ih =>
    by_cases operand : growth.opening = .node
    · obtain ⟨opened, opens, entered, closes⟩ := tracks.wrap operand
      rcases (ih entered).outcomes with
        ⟨failure, left, right⟩ | ⟨⟨kind, recorded⟩, ⟨_, grown⟩, left, right, rfl, inner⟩
      · simp only [record, grow, opens, if_pos operand, left, right]
        exact .error
      · simp only [record, grow, opens, if_pos operand, left, right]
        exact .ok ⟨rfl, closes kind recorded grown inner⟩
    · simp only [record, grow, tracks.openBefore_fails operand, if_neg operand]
      exact .error
  | progress body ih =>
    rcases (ih tracks).outcomes with
      ⟨failure, left, right⟩ | ⟨⟨_, recorded⟩, ⟨_, grown⟩, left, right, _, after⟩
    · simp only [record, grow, left, right]
      exact .error
    · have progressed : recorded.hasProgressed recorder.rest = grown.hasProgressed growth.rest := by
        have same : recorded.rest = grown.rest := after.rest
        rw [Recorder.hasProgressed, Growth.hasProgressed, tracks.rest, same]
      simp only [record, grow, left, right]
      exact .ok ⟨progressed, after⟩
  | call rule => exact (calls rule _ _ _ _ tracks).map fun _ _ after => ⟨rfl, after⟩

/-- A rule has the same outcome on both sides. -/
theorem Rule.record_grow (limit : Option Nat) (rule : Rule) (depth : Nat) {before : List Event}
    {origin growth : Growth} {recorder : Recorder} (tracks : Tracks before origin recorder growth) :
    SameOutcome (Tracks before origin) (rule.record limit depth recorder)
      (rule.grow limit depth growth) := by
  -- Calls nest less deeply than the rule that makes them.
  induction depth generalizing rule before origin growth recorder with
  | zero => exact .error
  | succ depth ih =>
    exact (Parser.record_grow (fun inner _ _ _ _ inside => ih inner inside) limit rule.body
      tracks).map fun _ _ follows => follows.2

/-- The record of a whole text is assembled to what the text grows to. -/
theorem Assembly.ofEvents_eq {tokens rest : List Token} {token : Token} {entries : List Event}
    {brackets : List Bracket} {growth : Growth} (recorded : Recorded none 1 entries brackets)
    (builds : Builds brackets (.initial tokens) growth) (found : growth.rest = token :: rest) :
    Assembly.ofEvents tokens
        ((Event.start .root none :: (entries ++ [.discard])).toArray.push .finish)
      = if rest.isEmpty then .ok ⟨Tree.node (.node .root) growth.siblings.reverse, growth.report⟩
        else .error .leftover := by
  -- The root is opened, its content follows, and the token at the end is left out.
  have first : (Event.start .root none :: (entries ++ [.discard])).toArray[0]?
      = some (.start .root none) := by simp
  have opened := step_start (.initial tokens) first .nil
  have holds := holds_toArray [.pending] entries [.discard]
  obtain ⟨left, ran, same⟩ := recorded.standsFor _ ((Draft.initial tokens).openNode .root)
    (growth.draft [(.root, [])] []) [] [] holds .nil (builds [(.root, [])] [])
  have last : left[1 + entries.length]? = some .discard := by
    rw [same _ (Nat.le_refl _)]
    simp [settle, Nat.add_comm 1]
  have dropped : step ⟨left, growth.draft [(.root, [])] []⟩ (1 + entries.length)
      = .ok ⟨left, { growth.draft [(.root, [])] [] with
          rest, offset := growth.offset + token.text.utf8ByteSize }⟩ := by
    simp [step, last, Growth.draft, Draft.dropToken, found, Except.map]
  have all : run ⟨(Event.start .root none :: (entries ++ [.discard])).toArray, .initial tokens⟩ 0
        (1 + (entries.length + 1)) = _ :=
    (run_add (run_one.trans opened) _).trans ((run_add ran 1).trans (run_one.trans dropped))
  have size : (Event.start .root none :: (entries ++ [.discard])).toArray.size
      = 1 + (entries.length + 1) := by
    simp [Nat.add_comm]
  rw [ofEvents, if_pos Array.back?_push, Array.pop_push, size, all]
  simp [Draft.finish, Growth.draft, Builder.finish]

/-- Parsing tokens and growing them is the same. -/
theorem parseWithin_eq_growWithin (limit : Option Nat) (tokens : List Token) :
    parseWithin limit tokens = growWithin limit tokens := by
  -- Nothing is grown yet, so the growth has entered the root as it is.
  have entered : Tracks (Recorder.initial tokens).openNode.events.toList
      (Growth.initial tokens) (Recorder.initial tokens).openNode (Growth.initial tokens) :=
    @Tracks.enter (Recorder.initial tokens).openNode (Growth.initial tokens) rfl rfl rfl
  rcases (Rule.program.record_grow limit (Rule.depthFor tokens.length) entered).outcomes with
    ⟨failure, left, right⟩ | ⟨recorded, grown, left, right, after⟩
  · simp only [parseWithin, buildWithin, recordWithin, growWithin, left, right]
  · have settled := after.eatTrivia
    have same := settled.rest
    obtain ⟨entries, brackets, events, contents, builds⟩ := settled.contents
    cases found : grown.eatTrivia.rest with
    | nil =>
      simp only [parseWithin, buildWithin, recordWithin, growWithin, left, right, Recorder.discard, same, found,
        Except.map]
    | cons token rest =>
      simp only [parseWithin, buildWithin, recordWithin, growWithin, left, right, Recorder.discard, same, found,
        Except.map]
      rw [← Assembly.ofEvents_eq contents.recorded builds found]
      -- Closing the root puts its start in the place that was left for it.
      congr 1
      simp [Recorder.initial, Recorder.openNode, Recorder.closeNode, Recorder.advance,
        Recorder.push, events]

end Dxl
