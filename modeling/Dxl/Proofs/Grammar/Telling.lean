import Dxl.Proofs.Grammar.Keeping
import Dxl.Proofs.Grammar.Likeness

/-! Telling: every remark is made at the token that it tells of, and later remarks are made further on. -/

namespace Dxl

/-- What a remark says of a token: what was expected in its place, that it cannot begin an expression, or that it is a qualifier without effect. -/
inductive Remark.TellsOf (remark : Remark) (token : Token) : Prop where
  | expected (wanted : TokenKind) : remark.severity = .error →
    remark.message = "Expected= " ++ wanted.dumpName ++ ". Got= " ++ token.kind.dumpName →
    TellsOf remark token
  | expectedExpression : remark.severity = .error →
    remark.message = "Expected expression start. Got= " ++ token.kind.dumpName →
    TellsOf remark token
  | ignoredQualifier : remark.severity = .warning →
    remark.message = "ignored qualifier `" ++ token.text ++ "`" →
    token.text = "const" ∨ token.text = "static" → TellsOf remark token

/-- A token that is a reserved word is spelled like it. -/
def Token.Spelled (token : Token) : Prop :=
  ∀ word, token.kind = .keyword word → token.text = word.spelling

/-- An error tells of every token of the kind that was found. -/
theorem Mistake.tellsOf_remark {mistake : Mistake} {token : Token} (offset : Nat)
    (isError : mistake.severity = .error) (tells : mistake.TellsOf token.kind) :
    (mistake.remark offset).TellsOf token := by
  cases mistake with
  | expected wanted got =>
    obtain rfl : got = token.kind := tells
    exact .expected wanted rfl rfl
  | expectedExpression got =>
    obtain rfl : got = token.kind := tells
    exact .expectedExpression rfl rfl
  | ignoredQualifier word => cases isError

/-- A warning tells of the qualifier that is spelled in it. -/
theorem Mistake.tellsOf_ignoredQualifier {word : Keyword} {token : Token} (offset : Nat)
    (qualifier : word = .constWord ∨ word = .staticWord) (spelled : token.text = word.spelling) :
    ((Mistake.ignoredQualifier word).remark offset).TellsOf token := by
  refine .ignoredQualifier rfl (by rw [spelled]; rfl) ?_
  rw [spelled]
  exact qualifier.imp (congrArg _) (congrArg _)

namespace Growth

/-- The tokens still to be read are the last of the given ones, and begin at the offset that was reached. -/
structure Along (tokens : List Token) (growth : Growth) : Prop where
  rest : growth.rest <:+ tokens
  adjoining : Adjoining growth.offset growth.rest

variable {tokens : List Token} {growth other after inner : Growth}

/-- Reading trivia goes on along the tokens. -/
theorem Along.eatTrivia (along : growth.Along tokens) : growth.eatTrivia.Along tokens where
  rest := by
    rw [rest_eatTrivia]
    exact (List.dropWhile_suffix _).trans along.rest
  adjoining := adjoining_eatTrivia along.adjoining

/-- A look goes on along the tokens. -/
theorem Along.look {limit : Option Nat} {symbol : Symbol} (along : growth.Along tokens)
    (looked : growth.look limit = .ok (symbol, after)) : after.Along tokens := by
  obtain ⟨token, rest, -, -, rfl, rfl⟩ := exists_of_look looked
  exact ⟨along.eatTrivia.rest, along.eatTrivia.adjoining⟩

/-- Reading a token goes on along the tokens. -/
theorem Along.bump (along : growth.Along tokens) (bumped : growth.bump = .ok after) :
    after.Along tokens := by
  obtain ⟨token, rest, found, -, rfl⟩ := exists_of_bump bumped
  refine ⟨?_, adjoining_addLeaf found along.eatTrivia.adjoining⟩
  exact (List.tail_suffix _).trans along.eatTrivia.rest

/-- What was seen is a token at the offset that was reached. -/
theorem Along.seen (along : growth.Along tokens) {symbol : Symbol} (sees : growth.Sees (some symbol)) :
    ∃ token ∈ tokens, token.kind.isTrivia = false ∧ token.symbol = symbol
      ∧ token.start = growth.offset := by
  obtain ⟨token, rest, found, proper, same⟩ := sees symbol rfl
  have starts := along.adjoining
  rw [found] at starts
  exact ⟨token, along.rest.subset (by simp [found]), proper, same, starts.1⟩

/-- Reading trivia never leads back. -/
theorem offset_le_eatTrivia (growth : Growth) : growth.offset ≤ growth.eatTrivia.offset :=
  eatTrivia_induction (Nat.le_refl _) fun _ _ _ _ _ before =>
    Nat.le_trans before (Nat.le_add_right _ _)

/-- A look changes neither the remarks nor what lies behind. -/
theorem look_keeps {limit : Option Nat} {symbol : Symbol}
    (looked : growth.look limit = .ok (symbol, after)) :
    after.report = growth.report ∧ growth.offset ≤ after.offset := by
  obtain ⟨token, rest, -, -, rfl, rfl⟩ := exists_of_look looked
  exact ⟨growth.report_eatTrivia, growth.offset_le_eatTrivia⟩

/-- Reading a token changes neither the remarks nor what lies behind. -/
theorem bump_keeps (bumped : growth.bump = .ok after) :
    after.report = growth.report ∧ growth.offset ≤ after.offset := by
  obtain ⟨token, rest, -, -, rfl⟩ := exists_of_bump bumped
  refine ⟨growth.report_eatTrivia, ?_⟩
  exact Nat.le_trans growth.offset_le_eatTrivia (Nat.le_add_right _ _)

/-- All remarks were made in order at the tokens that they tell of, none of which lies ahead. -/
structure Told (tokens : List Token) (growth : Growth) : Prop where
  along : growth.Along tokens
  ordered : growth.report.remarks.Pairwise fun earlier later => earlier.offset ≤ later.offset
  reached : ∀ remark ∈ growth.report.remarks, remark.offset ≤ growth.offset
  told : ∀ remark ∈ growth.report.remarks, ∃ token ∈ tokens, token.kind.isTrivia = false
    ∧ token.start = remark.offset ∧ remark.TellsOf token

namespace Told

/-- Reading on does not change what was told. -/
theorem further (told : growth.Told tokens) (along : after.Along tokens)
    (kept : after.report = growth.report ∧ growth.offset ≤ after.offset) : after.Told tokens := by
  obtain ⟨report, onward⟩ := kept
  refine ⟨along, ?_, fun remark member => ?_, ?_⟩
  · rw [report]
    exact told.ordered
  · rw [report] at member
    exact Nat.le_trans (told.reached remark member) onward
  · rw [report]
    exact told.told

/-- A remark is told of the token that was seen. -/
theorem addMistake (told : growth.Told tokens) {mistake : Mistake} {symbol : Symbol}
    (sees : growth.Sees (some symbol))
    (tells : ∀ token ∈ tokens, token.symbol = symbol →
      (mistake.remark growth.offset).TellsOf token) :
    (growth.addMistake mistake).Told tokens := by
  obtain ⟨token, member, proper, same, starts⟩ := told.along.seen sees
  refine ⟨⟨told.along.rest, told.along.adjoining⟩, ?_, fun remark made => ?_, fun remark made => ?_⟩
  · -- All earlier remarks lie behind.
    refine List.pairwise_append.mpr ⟨told.ordered, List.pairwise_singleton _ _, ?_⟩
    intro earlier before later added
    rw [List.mem_singleton.mp added]
    exact told.reached earlier before
  · rcases List.mem_append.mp made with before | added
    · exact told.reached remark before
    · rw [List.mem_singleton.mp added]
      exact Nat.le_refl _
  · rcases List.mem_append.mp made with before | added
    · exact told.told remark before
    · rw [List.mem_singleton.mp added]
      exact ⟨token, member, proper, starts, tells token member same⟩

/-- A new frame does not change what was told. -/
theorem enter (told : growth.Told tokens) : growth.enter.Told tokens :=
  ⟨⟨told.along.rest, told.along.adjoining⟩, told.ordered, told.reached, told.told⟩

/-- Closing a node does not change what was told. -/
theorem close (told : inner.Told tokens) (kind : NodeKind) : (inner.close kind).Told tokens :=
  ⟨⟨told.along.rest, told.along.adjoining⟩, told.ordered, told.reached, told.told⟩

/-- What was told in an inner frame is what was told in the end. -/
theorem leave (told : inner.Told tokens) (growth : Growth) : (growth.leave inner).Told tokens :=
  ⟨⟨told.along.rest, told.along.adjoining⟩, told.ordered, told.reached, told.told⟩

/-- Every careful step tells of tokens that it has seen. -/
theorem kept (spelled : ∀ token ∈ tokens, token.Spelled) (limit : Option Nat) :
    Course.Kept (fun _ growth _ after => growth.Told tokens → after.Told tokens) (fun _ => True)
      limit where
  stay _ _ told := told
  further first second told := second (first told)
  calm _ _ told := told
  pass _ _ told := told
  look looked told := told.further (told.along.look looked) (look_keeps looked)
  bump _ _ bumped told := told.further (told.along.bump bumped) (bump_keeps bumped)
  skip _ bumped told := told.further (told.along.bump bumped) (bump_keeps bumped)
  -- An error tells of the token that was seen, which stands at the offset that was reached.
  report sees isError tells _ told := told.addMistake sees fun token _ same => by
    subst same
    exact Mistake.tellsOf_remark _ isError tells
  node _ _ _ within told := ((within told.enter).close _).leave _
  frame within told := (within told.enter).leave _
  wrap _ _ _ _ within told := ((within told.enter).leave _).close _
  -- A warning is noted of the qualifier before it is read into a node of its own.
  warn {symbol word growth read} qualifier kind sees bumped told := by
    have noted : (growth.addMistake (.ignoredQualifier word)).Told tokens :=
      told.addMistake sees fun token member same =>
        Mistake.tellsOf_ignoredQualifier _ qualifier
          (spelled token member word ((congrArg Symbol.kind same).trans kind))
    have entered := noted.enter
    have skipped := entered.further (entered.along.bump bumped) (bump_keeps bumped)
    exact (skipped.close _).leave _

end Told

end Growth

end Dxl
