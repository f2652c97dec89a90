import Dxl.Proofs.Grammar.Tandem
import Dxl.Proofs.Token.Insertion

/-! Prefixes: what is grown before a token is read does not depend on the tokens after it. -/

namespace Dxl

namespace Growth

variable {growth between after other inner innerOther : Growth} {limit : Option Nat}

/-- Tokens are read in order, and the offset moves on over their texts. -/
def Paces (growth after : Growth) : Prop :=
  ∃ read, growth.rest = read ++ after.rest
    ∧ after.offset = growth.offset + (joinTexts read).utf8ByteSize

namespace Paces

/-- What stays the same but for looks, mistakes and the trees in the frame has read nothing. -/
theorem of_eq (rest : after.rest = growth.rest) (offset : after.offset = growth.offset) :
    growth.Paces after :=
  ⟨[], rest.symm, offset⟩

/-- What is read later comes after what is read first. -/
theorem trans (first : growth.Paces between) (second : between.Paces after) :
    growth.Paces after := by
  obtain ⟨read, split, moved⟩ := first
  obtain ⟨more, further, movedOn⟩ := second
  -- What is read on the whole is the one row and then the other.
  refine ⟨read ++ more, ?_, ?_⟩
  · rw [split, further, List.append_assoc]
  · rw [movedOn, moved, joinTexts_append, String.utf8ByteSize_append, Nat.add_assoc]

/-- The offset never moves back. -/
theorem offset_le (paces : growth.Paces after) : growth.offset ≤ after.offset := by
  obtain ⟨read, -, moved⟩ := paces
  omega

/-- A token that is read takes its text along. -/
theorem addLeaf {token : Token} {rest : List Token} (next : growth.rest = token :: rest) :
    growth.Paces (growth.addLeaf token) := by
  refine ⟨[token], by simp [Growth.addLeaf, next], ?_⟩
  rw [joinTexts_cons, String.utf8ByteSize_append]
  rfl

/-- Trivia is read before the next token. -/
theorem eatTrivia (growth : Growth) : growth.Paces growth.eatTrivia :=
  eatTrivia_induction (of_eq rfl rfl) fun _ _ _ found _ paces => paces.trans (addLeaf found)

/-- A look reads trivia. -/
theorem look {symbol : Symbol} (looked : growth.look limit = .ok (symbol, after)) :
    growth.Paces after := by
  obtain ⟨token, rest, -, -, rfl, rfl⟩ := exists_of_look looked
  exact (eatTrivia growth).trans (of_eq rfl rfl)

/-- A token is read after trivia. -/
theorem bump (bumped : growth.bump = .ok after) : growth.Paces after := by
  obtain ⟨token, rest, found, -, rfl⟩ := exists_of_bump bumped
  exact ((eatTrivia growth).trans (addLeaf found)).trans (of_eq rfl rfl)

/-- Every step reads tokens in order; frames do not matter, as neither the tokens nor the offset depend on them. -/
theorem stepwise : Stepwise Paces where
  stay _ := of_eq rfl rfl
  further := trans
  look := look
  bump := bump
  report _ _ := of_eq rfl rfl
  node _ within := within
  frame within := within
  wrap _ _ within := within

end Paces

end Growth

/-- A parser reads tokens in order if the rules it calls do. -/
theorem Parser.grow_paces {call : Rule → Growth → Except Failure Growth} {limit : Option Nat}
    (calls : ∀ {rule growth after}, call rule growth = .ok after → growth.Paces after)
    {α : Type} {parser : Parser α} {growth after : Growth} {value : α}
    (grown : parser.grow call limit growth = .ok (value, after)) : growth.Paces after :=
  Growth.Paces.stepwise.grow calls grown

/-- A rule reads tokens in order. -/
theorem Rule.grow_paces {limit : Option Nat} {rule : Rule} {depth : Nat} {growth after : Growth}
    (grown : rule.grow limit depth growth = .ok after) : growth.Paces after :=
  Growth.Paces.stepwise.grow_rule grown

namespace Growth

variable {point : Token} {back ahead : List Token}
  {growth other after afterOther inner innerOther : Growth} {limit : Option Nat}

/-- Two growths are the same but for the tokens after one that has not been read. -/
structure Before (point : Token) (back ahead : List Token) (growth other : Growth) : Prop where
  same : other = { growth with rest := other.rest }
  split : ∃ front, growth.rest = front ++ point :: back ∧ other.rest = front ++ point :: ahead
    ∧ growth.offset + (joinTexts front).utf8ByteSize = point.start

/-- Two growths are the same but for the tokens still to be read, all of which come after one that was read last. -/
structure Past (back ahead : List Token) (growth other : Growth) : Prop where
  same : other = { growth with rest := other.rest }
  rest : growth.rest = back
  restOther : other.rest = ahead
  looks : growth.looks = 0
  opened : growth.opening ≠ .nothing

/-- Trivia is passed over before a token that is none, whatever follows it. -/
theorem eatTrivia_of_split (proper : point.kind.isTrivia = false) {front : List Token}
    (split : growth.rest = front ++ point :: back) :
    growth.eatTrivia = (front.takeWhile (·.kind.isTrivia)).foldl addLeaf growth := by
  rw [eatTrivia, split, takeWhile_append_cons (fun token : Token => token.kind.isTrivia) proper]

namespace Before

/-- The tokens before the one that has not been read lead up to it. -/
theorem reach (before : Before point back ahead growth other) {front : List Token}
    (split : growth.rest = front ++ point :: back) :
    growth.offset + (joinTexts front).utf8ByteSize = point.start := by
  obtain ⟨known, splitKnown, -, reach⟩ := before.split
  rw [splitKnown, List.append_cancel_right_eq] at split
  rw [← split, reach]

/-- The offset has not gone beyond the token. -/
theorem offset_le (before : Before point back ahead growth other) :
    growth.offset ≤ point.start := by
  obtain ⟨front, -, -, reach⟩ := before.split
  omega

/-- Tokens before the one that has not been read are read on both sides. -/
theorem foldl_addLeaf {read front : List Token} (same : other = { growth with rest := other.rest })
    (split : growth.rest = read ++ (front ++ point :: back))
    (splitOther : other.rest = read ++ (front ++ point :: ahead))
    (reach : growth.offset + (joinTexts (read ++ front)).utf8ByteSize = point.start) :
    Before point back ahead (read.foldl addLeaf growth) (read.foldl addLeaf other)
      ∧ (read.foldl addLeaf growth).rest = front ++ point :: back
      ∧ (read.foldl addLeaf other).rest = front ++ point :: ahead := by
  induction read generalizing growth other with
  | nil => exact ⟨⟨same, front, split, splitOther, reach⟩, split, splitOther⟩
  | cons token read ih =>
    -- One token less leads up to the same point.
    refine ih ?_ (by simp [addLeaf, split]) (by simp [addLeaf, splitOther]) ?_
    · rw [same]
      rfl
    · rw [List.cons_append, joinTexts_cons, String.utf8ByteSize_append, ← Nat.add_assoc] at reach
      exact reach

/-- The same trivia is read on both sides, as the token is none. -/
theorem eatTrivia (before : Before point back ahead growth other)
    (proper : point.kind.isTrivia = false) :
    ∃ front, growth.eatTrivia.rest = front ++ point :: back
      ∧ other.eatTrivia.rest = front ++ point :: ahead
      ∧ Before point back ahead growth.eatTrivia other.eatTrivia := by
  obtain ⟨same, front, split, splitOther, reach⟩ := before
  have passed : front.takeWhile (·.kind.isTrivia) ++ front.dropWhile (·.kind.isTrivia) = front :=
    List.takeWhile_append_dropWhile
  -- The trivia at the front ends before the token, and is the same on both sides.
  rw [eatTrivia_of_split proper split, eatTrivia_of_split proper splitOther]
  rw [← passed, List.append_assoc] at split splitOther
  obtain ⟨settled, rest, restOther⟩ := foldl_addLeaf same split splitOther (by rw [passed, reach])
  exact ⟨_, rest, restOther, settled⟩

/-- How often both sides have looked makes no difference if it is the same. -/
theorem withLooks (before : Before point back ahead growth other) (looks : Nat) :
    Before point back ahead { growth with looks } { other with looks } where
  same := by rw [before.same]
  split := before.split

/-- Both sides see the same, and nothing is read but trivia. -/
theorem look (before : Before point back ahead growth other) (proper : point.kind.isTrivia = false)
    {symbol : Symbol} (looked : growth.look limit = .ok (symbol, after)) :
    ∃ afterOther, other.look limit = .ok (symbol, afterOther)
      ∧ Before point back ahead after afterOther := by
  obtain ⟨front, rest, restOther, settled⟩ := before.eatTrivia proper
  obtain ⟨token, more, next, within, rfl, rfl⟩ := exists_of_look looked
  have looks : other.looks = growth.looks := by rw [before.same]
  -- The next token is one before the given token, or the given token itself.
  obtain ⟨moreOther, nextOther⟩ : ∃ moreOther, other.eatTrivia.rest = token :: moreOther := by
    rw [next] at rest
    cases front with
    | nil =>
      obtain ⟨rfl, rfl⟩ := List.cons.inj rest
      exact ⟨ahead, restOther⟩
    | cons first front =>
      obtain ⟨rfl, rfl⟩ := List.cons.inj rest
      exact ⟨_, restOther⟩
  rw [look_eq nextOther, looks, within]
  exact ⟨_, rfl, settled.withLooks _⟩

/-- Both sides read the same token, which may be the one that had not been read. -/
theorem bump (before : Before point back ahead growth other) (proper : point.kind.isTrivia = false)
    (bumped : growth.bump = .ok after) :
    ∃ afterOther, other.bump = .ok afterOther
      ∧ (Before point back ahead after afterOther ∨ Past back ahead after afterOther) := by
  obtain ⟨front, rest, restOther, settled⟩ := before.eatTrivia proper
  obtain ⟨token, more, next, inside, rfl⟩ := exists_of_bump bumped
  cases front with
  | nil =>
    -- The next token is the given one, so that it lies behind from now on.
    obtain ⟨rfl, rfl⟩ := List.cons.inj (next.symm.trans rest)
    refine ⟨_, (bump_eq restOther).trans (if_neg inside), .inr ?_⟩
    exact {
      same := by
        rw [settled.same]
        rfl
      rest := by simp [addLeaf, next]
      restOther := by simp [addLeaf, restOther]
      looks := rfl
      opened := fun empty => by cases (Opening.orElse_eq_nothing.mp empty).2 }
  | cons first front =>
    obtain ⟨rfl, -⟩ := List.cons.inj (next.symm.trans rest)
    have reached : growth.eatTrivia.offset + (joinTexts ([token] ++ front)).utf8ByteSize
        = point.start := settled.reach rest
    have read := (foldl_addLeaf settled.same rest restOther reached).1
    exact ⟨_, (bump_eq restOther).trans (if_neg inside), .inl (read.withLooks 0)⟩

/-- A mistake is noted on both sides. -/
theorem addMistake (before : Before point back ahead growth other) (mistake : Mistake) :
    Before point back ahead (growth.addMistake mistake) (other.addMistake mistake) where
  same := by
    rw [before.same]
    rfl
  split := before.split

/-- New frames begin alike. -/
theorem enter (before : Before point back ahead growth other) :
    Before point back ahead growth.enter other.enter where
  same := by
    rw [before.same]
    rfl
  split := before.split

/-- Frames end alike in which the same was grown. -/
theorem leave (before : Before point back ahead growth other)
    (within : Before point back ahead inner innerOther) :
    Before point back ahead (growth.leave inner) (other.leave innerOther) where
  same := by
    rw [before.same, within.same]
    rfl
  split := within.split

/-- Nodes are closed alike in which the same was grown. -/
theorem close (within : Before point back ahead inner innerOther) (kind : NodeKind) :
    Before point back ahead (inner.close kind) (innerOther.close kind) where
  same := by
    rw [within.same]
    rfl
  split := within.split

/-- What was read tells on both sides whether it was more than trivia. -/
theorem hasProgressed (before : Before point back ahead growth other)
    (further : Before point back ahead after afterOther) (reads : growth.Reads after) :
    afterOther.hasProgressed other.rest = after.hasProgressed growth.rest := by
  obtain ⟨front, split, splitOther, -⟩ := before.split
  obtain ⟨left, rest, restOther, -⟩ := further.split
  obtain ⟨read, taken, -⟩ := reads.tokens
  -- The same tokens were read on both sides.
  rw [split, rest, ← List.append_assoc, List.append_cancel_right_eq] at taken
  simp [Growth.hasProgressed, split, splitOther, rest, restOther, taken]

/-- A token is either still to be read or lies behind. -/
theorem unread_or_lt (before : Before point back ahead growth other) (paces : growth.Paces after)
    (solid : point.text ≠ "") :
    point :: back <:+ after.rest ∨ after.rest <:+ back ∧ point.start < after.offset := by
  obtain ⟨front, split, -, reach⟩ := before.split
  obtain ⟨read, taken, moved⟩ := paces
  have left : after.rest <:+ growth.rest := ⟨read, taken.symm⟩
  have right : point :: back <:+ growth.rest := ⟨front, split.symm⟩
  -- Both are ends of the same row, so that one of them is an end of the other.
  rcases List.suffix_or_suffix_of_suffix right left with unread | behind
  · exact .inl unread
  rcases List.suffix_cons_iff.mp behind with same | ⟨more, rest⟩
  · exact .inl (same ▸ List.suffix_refl _)
  · refine .inr ⟨⟨more, rest⟩, ?_⟩
    -- What was read includes the token, which has a text.
    have length : 0 < point.text.utf8ByteSize := by
      rw [Nat.pos_iff_ne_zero, ne_eq, String.utf8ByteSize_eq_zero_iff]
      exact solid
    rw [split, ← rest, ← List.cons_append, ← List.append_assoc,
      List.append_cancel_right_eq] at taken
    rw [moved, ← taken, joinTexts_append, joinTexts_cons, String.utf8ByteSize_append,
      String.utf8ByteSize_append]
    omega

/-- Both sides do the same as long as the token is unread, whatever follows it. -/
theorem tandem (proper : point.kind.isTrivia = false) (limit : Option Nat) :
    Tandem limit (point :: back <:+ ·) (Before point back ahead) where
  earlier read unread := unread.trans (List.suffix_append read _)
  look before looked := before.look proper looked
  bump before bumped unread := by
    obtain ⟨afterOther, bumpedOther, further | past⟩ := before.bump proper bumped
    · exact ⟨afterOther, bumpedOther, further⟩
    · -- The token would have been read.
      rw [past.rest] at unread
      exact absurd unread.length_le (by simp)
  report mistake before := before.addMistake mistake
  opening before := by rw [before.same]
  enter := enter
  leave := leave
  close kind within := within.close kind
  progress before further reads _ := before.hasProgressed further reads

end Before

end Growth

/-- A parser that has not read a token grows the same whatever follows it, if its calls may nest at least as deeply. -/
theorem Parser.grow_before {point : Token} {back ahead : List Token}
    (proper : point.kind.isTrivia = false) {limit : Option Nat} {depth reach : Nat}
    (deep : depth ≤ reach) {α : Type} {parser : Parser α} {growth other after : Growth} {value : α}
    (grown : parser.grow (fun rule => rule.grow limit depth) limit growth = .ok (value, after))
    (unread : point :: back <:+ after.rest) (before : Growth.Before point back ahead growth other) :
    ∃ afterOther, parser.grow (fun rule => rule.grow limit reach) limit other
        = .ok (value, afterOther) ∧ Growth.Before point back ahead after afterOther :=
  (Growth.Before.tandem proper limit).grow deep grown unread before

end Dxl
