import Dxl.Proofs.Grammar.Likeness
import Dxl.Proofs.Grammar.Simulation
import Dxl.Proofs.Token.Mirror

/-! Mirrors: mirrored tokens grow to the same tree with rewritten texts, or fail alike. -/

namespace Dxl

/-- A tree with the text of every leaf rewritten. -/
def Tree.rewrite (rewrite : String → String) : Tree → Tree :=
  fold (fun kind text => .leaf kind (rewrite text)) .node

/-- A node is rewritten with its children. -/
theorem Tree.rewrite_node (rewrite : String → String) (kind : Kind) (children : List Tree) :
    (node kind children).rewrite rewrite = .node kind (children.map (Tree.rewrite rewrite)) := by
  rw [Tree.rewrite, fold_node]

/-- Two remarks say the same at offsets that belong together. -/
structure Remark.Mirrors (meets : Nat → Nat → Prop) (remark other : Remark) : Prop where
  severity : other.severity = remark.severity
  message : other.message = remark.message
  offset : meets remark.offset other.offset

/-- The tokens that pass a test at the head of related ones are related. -/
theorem forall₂_takeWhile {α β : Type} {related : α → β → Prop} {left : List α} {right : List β}
    {test : α → Bool} {testOther : β → Bool} (pairs : List.Forall₂ related left right)
    (agree : ∀ value other, related value other → testOther other = test value) :
    List.Forall₂ related (left.takeWhile test) (right.takeWhile testOther) := by
  induction pairs with
  | nil => exact .nil
  | @cons value other _ _ same _ ih =>
    rw [List.takeWhile_cons, List.takeWhile_cons, agree value other same]
    split
    · exact .cons same ih
    · exact .nil

namespace Growth

variable {meets : Nat → Nat → Prop} {rewrite : String → String} {growth other inner innerOther : Growth}

/-- What has grown is mirrored by what has grown of mirrored tokens. -/
structure Mirrors (meets : Nat → Nat → Prop) (rewrite : String → String) (growth other : Growth) :
    Prop where
  rest : List.Forall₂ (Token.Mirrors meets rewrite) growth.rest other.rest
  offset : meets growth.offset other.offset
  looks : other.looks = growth.looks
  opening : other.opening = growth.opening
  siblings : other.siblings = growth.siblings.map (Tree.rewrite rewrite)
  remarks : List.Forall₂ (Remark.Mirrors meets) growth.report.remarks other.report.remarks
  adjoining : Adjoining growth.offset growth.rest
  adjoiningOther : Adjoining other.offset other.rest

/-- The same value is given on both sides, and what has grown is mirrored. -/
def MirrorsWith (meets : Nat → Nat → Prop) (rewrite : String → String) {α : Type}
    (grown counterpart : α × Growth) : Prop :=
  counterpart.1 = grown.1 ∧ grown.2.Mirrors meets rewrite counterpart.2

namespace Mirrors

/-- Mirrored tokens become mirrored leaves. -/
theorem addLeaf {token counterpart : Token} {rest others : List Token}
    (mirrors : growth.Mirrors meets rewrite other) (left : growth.rest = token :: rest)
    (right : other.rest = counterpart :: others) :
    (growth.addLeaf token).Mirrors meets rewrite (other.addLeaf counterpart) := by
  have tokens := mirrors.rest
  rw [left, right, List.forall₂_cons] at tokens
  obtain ⟨first, further⟩ := tokens
  -- Both tokens stand at the offsets that were reached, so their ends meet as their starts do.
  have starts : token.start = growth.offset := ((left ▸ mirrors.adjoining).1)
  have startsOther : counterpart.start = other.offset := ((right ▸ mirrors.adjoiningOther).1)
  -- The text of the one leaf is that of the other one, rewritten.
  have leaf : counterpart.leaf = token.leaf.rewrite rewrite := by
    rw [Token.leaf, first.kind, first.text]
    rfl
  refine ⟨?_, ?_, mirrors.looks, congrArg (·.orElse .other) mirrors.opening, ?_, mirrors.remarks,
    adjoining_addLeaf left mirrors.adjoining, adjoining_addLeaf right mirrors.adjoiningOther⟩
  · simpa only [Growth.addLeaf, left, right, List.tail_cons] using further
  · have stop := first.stop
    rwa [Token.stop, Token.stop, starts, startsOther] at stop
  · rw [Growth.addLeaf, Growth.addLeaf, List.map_cons, leaf, mirrors.siblings]

/-- How often both sides have looked makes no difference if it is the same. -/
theorem withLooks (mirrors : growth.Mirrors meets rewrite other) (looks : Nat) :
    Mirrors meets rewrite { growth with looks } { other with looks } :=
  ⟨mirrors.rest, mirrors.offset, rfl, mirrors.opening, mirrors.siblings, mirrors.remarks,
    mirrors.adjoining, mirrors.adjoiningOther⟩

/-- Several tokens that are read on both sides become leaves. -/
theorem foldl_addLeaf {read readOther rest others : List Token}
    (mirrors : growth.Mirrors meets rewrite other)
    (pairs : List.Forall₂ (Token.Mirrors meets rewrite) read readOther)
    (left : growth.rest = read ++ rest) (right : other.rest = readOther ++ others) :
    (read.foldl Growth.addLeaf growth).Mirrors meets rewrite
      (readOther.foldl Growth.addLeaf other) := by
  -- The tokens are read in pairs.
  induction pairs generalizing growth other with
  | nil => exact mirrors
  | cons _ _ ih =>
    exact ih (mirrors.addLeaf left right) (by simp [Growth.addLeaf, left])
      (by simp [Growth.addLeaf, right])

/-- As much trivia is read on both sides. -/
theorem eatTrivia (mirrors : growth.Mirrors meets rewrite other) :
    growth.eatTrivia.Mirrors meets rewrite other.eatTrivia :=
  mirrors.foldl_addLeaf
    (forall₂_takeWhile mirrors.rest fun _ _ pair => congrArg TokenKind.isTrivia pair.kind)
    List.takeWhile_append_dropWhile.symm List.takeWhile_append_dropWhile.symm

/-- Both sides see the same token, or are stuck at it. -/
theorem look (mirrors : growth.Mirrors meets rewrite other) (limit : Option Nat) :
    SameOutcome (MirrorsWith meets rewrite) (growth.look limit) (other.look limit) := by
  have settled := mirrors.eatTrivia
  have tokens := settled.rest
  simp only [Growth.look, mirrors.looks]
  split
  · -- No token is left on either side.
    rename_i found
    rw [found, List.forall₂_nil_left_iff] at tokens
    rw [tokens]
    exact .error
  · rename_i token rest found
    rw [found, List.forall₂_cons_left_iff] at tokens
    obtain ⟨counterpart, others, pair, -, foundOther⟩ := tokens
    rw [foundOther]
    -- The counterpart has the same kind, so both sides are stuck or neither is.
    simp only [pair.kind]
    split
    · exact .error
    · refine .ok ⟨?_, ?_⟩
      · rw [Token.symbol, Token.symbol, pair.kind, pair.namesType]
      · simpa only [foundOther] using settled.withLooks (growth.looks + 1)

/-- Both sides read the same token, unless the text ends. -/
theorem bump (mirrors : growth.Mirrors meets rewrite other) :
    SameOutcome (Mirrors meets rewrite) growth.bump other.bump := by
  have settled := mirrors.eatTrivia
  have tokens := settled.rest
  simp only [Growth.bump]
  split
  · rename_i found
    rw [found, List.forall₂_nil_left_iff] at tokens
    rw [tokens]
    exact .error
  · rename_i token rest found
    rw [found, List.forall₂_cons_left_iff] at tokens
    obtain ⟨counterpart, others, pair, -, foundOther⟩ := tokens
    rw [foundOther]
    -- The counterpart has the same kind, so the text ends on both sides or on neither.
    simp only [pair.kind]
    split
    · exact .error
    · exact .ok ((settled.addLeaf found foundOther).withLooks 0)

/-- A mistake is noted at offsets that belong together. -/
theorem addMistake (mirrors : growth.Mirrors meets rewrite other) (mistake : Mistake) :
    (growth.addMistake mistake).Mirrors meets rewrite (other.addMistake mistake) :=
  ⟨mirrors.rest, mirrors.offset, mirrors.looks, congrArg (·.orElse .other) mirrors.opening,
    mirrors.siblings, List.rel_append mirrors.remarks (.cons ⟨rfl, rfl, mirrors.offset⟩ .nil),
    mirrors.adjoining, mirrors.adjoiningOther⟩

/-- New frames mirror each other. -/
theorem enter (mirrors : growth.Mirrors meets rewrite other) :
    growth.enter.Mirrors meets rewrite other.enter :=
  ⟨mirrors.rest, mirrors.offset, mirrors.looks, rfl, rfl, mirrors.remarks, mirrors.adjoining,
    mirrors.adjoiningOther⟩

/-- Frames mirror each other after inner ones join them that do. -/
theorem leave (mirrors : growth.Mirrors meets rewrite other)
    (within : inner.Mirrors meets rewrite innerOther) :
    (growth.leave inner).Mirrors meets rewrite (other.leave innerOther) := by
  refine ⟨within.rest, within.offset, within.looks, ?_, ?_, within.remarks, within.adjoining,
    within.adjoiningOther⟩
  · rw [Growth.leave, Growth.leave, mirrors.opening, within.opening]
  · rw [Growth.leave, Growth.leave, List.map_append, within.siblings, mirrors.siblings]

/-- Nodes mirror each other that are made of what does. -/
theorem close (mirrors : growth.Mirrors meets rewrite other) (kind : NodeKind) :
    (growth.close kind).Mirrors meets rewrite (other.close kind) := by
  refine ⟨mirrors.rest, mirrors.offset, mirrors.looks, rfl, ?_, mirrors.remarks,
    mirrors.adjoining, mirrors.adjoiningOther⟩
  rw [Growth.close, Growth.close, List.map_singleton, Tree.rewrite_node, List.map_reverse,
    mirrors.siblings]

/-- Both sides have read something, or neither has. -/
theorem hasProgressed_eq {after afterOther : Growth} (mirrors : growth.Mirrors meets rewrite other)
    (ends : after.Mirrors meets rewrite afterOther) :
    afterOther.hasProgressed other.rest = after.hasProgressed growth.rest := by
  have kinds : other.rest.map Token.kind = growth.rest.map Token.kind := by
    rw [← List.forall₂_eq_eq_eq, List.forall₂_map_left_iff, List.forall₂_map_right_iff]
    exact mirrors.rest.flip.imp fun _ _ pair => pair.kind
  -- Only the kinds of the tokens tell whether something but trivia was read.
  have any (count : Nat) (tokens : List Token) :
      (tokens.take count).any (fun token => !token.kind.isTrivia)
        = ((tokens.map Token.kind).take count).any fun kind => !kind.isTrivia := by
    rw [← List.map_take, List.any_map]
    rfl
  rw [Growth.hasProgressed, Growth.hasProgressed, mirrors.rest.length_eq, ends.rest.length_eq, any,
    any, kinds]

/-- Roots mirror each other that are made of what does. -/
theorem finish (mirrors : growth.Mirrors meets rewrite other) :
    SameOutcome (fun parsed counterpart =>
      counterpart.tree = parsed.tree.rewrite rewrite
        ∧ List.Forall₂ (Remark.Mirrors meets) parsed.report.remarks counterpart.report.remarks)
      growth.finish other.finish := by
  have settled := mirrors.eatTrivia
  have tokens := settled.rest
  unfold Growth.finish
  split
  · rename_i found
    rw [found, List.forall₂_nil_left_iff] at tokens
    rw [tokens]
    exact .error
  · rename_i token rest found
    rw [found, List.forall₂_cons_left_iff] at tokens
    obtain ⟨counterpart, others, -, further, foundOther⟩ := tokens
    rw [foundOther]
    -- The token at the end is the last one on both sides or on neither.
    cases further with
    | nil =>
      refine .ok ⟨?_, settled.remarks⟩
      rw [Tree.rewrite_node, List.map_reverse, settled.siblings]
    | cons _ _ => exact .error

end Mirrors

end Growth

open Growth

variable {meets : Nat → Nat → Prop} {rewrite : String → String} {growth other : Growth}
  {limit : Option Nat}

/-- A parser does the same on both sides if the rules it calls do. -/
theorem Parser.grow_mirrors {call : Rule → Growth → Except Failure Growth}
    (calls : ∀ (rule : Rule) (growth other : Growth), growth.Mirrors meets rewrite other →
      SameOutcome (Growth.Mirrors meets rewrite) (call rule growth) (call rule other))
    {α : Type} (parser : Parser α) (mirrors : growth.Mirrors meets rewrite other) :
    SameOutcome (MirrorsWith meets rewrite) (parser.grow call limit growth)
      (parser.grow call limit other) := by
  -- The induction follows the program; frames are entered and left on both sides.
  induction parser generalizing growth other with
  | done value => exact .ok ⟨rfl, mirrors⟩
  | andThen first next ihFirst ihNext =>
    rw [grow_andThen, grow_andThen]
    refine (ihFirst mirrors).bind ?_
    rintro ⟨_, between⟩ ⟨value, betweenOther⟩ ⟨rfl, further⟩
    exact ihNext value further
  | look => exact mirrors.look limit
  | bump => exact mirrors.bump.map fun _ _ further => ⟨rfl, further⟩
  | report mistake => exact .ok ⟨rfl, mirrors.addMistake mistake⟩
  | node body ih =>
    rw [grow_node, grow_node]
    refine (ih mirrors.enter).map ?_
    rintro ⟨_, inner⟩ ⟨kind, innerOther⟩ ⟨rfl, within⟩
    exact ⟨rfl, mirrors.leave (within.close kind)⟩
  | frame body ih =>
    rw [grow_frame, grow_frame]
    refine (ih mirrors.enter).map ?_
    rintro ⟨_, inner⟩ ⟨value, innerOther⟩ ⟨rfl, within⟩
    exact ⟨rfl, mirrors.leave within⟩
  | wrap body ih =>
    -- Without an operand to wrap, both sides fail.
    by_cases operand : growth.opening = .node
    · rw [grow_wrap _ _ _ _ operand, grow_wrap _ _ _ _ (mirrors.opening.trans operand)]
      refine (ih mirrors.enter).map ?_
      rintro ⟨_, inner⟩ ⟨kind, innerOther⟩ ⟨rfl, within⟩
      exact ⟨rfl, (mirrors.leave within).close kind⟩
    · have operandOther : other.opening ≠ .node := by rwa [mirrors.opening]
      simp only [grow, if_neg operand, if_neg operandOther]
      exact .error
  | progress body ih =>
    rw [grow_progress, grow_progress]
    refine (ih mirrors).map ?_
    rintro ⟨_, after⟩ ⟨_, afterOther⟩ ⟨-, ends⟩
    exact ⟨mirrors.hasProgressed_eq ends, ends⟩
  | call rule => exact (calls rule growth other mirrors).map fun _ _ further => ⟨rfl, further⟩

/-- A rule does the same on both sides, however deeply its calls may nest. -/
theorem Rule.grow_mirrors (limit : Option Nat) (rule : Rule) (depth : Nat)
    (mirrors : growth.Mirrors meets rewrite other) :
    SameOutcome (Growth.Mirrors meets rewrite) (rule.grow limit depth growth)
      (rule.grow limit depth other) := by
  -- Calls nest less deeply than the rule that makes them.
  induction depth generalizing rule growth other with
  | zero => exact .error
  | succ depth ih =>
    exact (Parser.grow_mirrors (fun inner _ _ within => ih inner within) rule.body mirrors).map
      fun _ _ further => further.2

/-- Mirrored tokens grow to mirrored trees with mirrored remarks, or fail alike. -/
theorem growWithin_mirrors (limit : Option Nat) {tokens others : List Token}
    (pairs : List.Forall₂ (Token.Mirrors meets rewrite) tokens others) (begins : meets 0 0)
    (adjoining : Adjoining 0 tokens) (adjoiningOther : Adjoining 0 others) :
    SameOutcome (fun parsed counterpart =>
      counterpart.tree = parsed.tree.rewrite rewrite
        ∧ List.Forall₂ (Remark.Mirrors meets) parsed.report.remarks counterpart.report.remarks)
      (growWithin limit tokens) (growWithin limit others) := by
  -- Before anything is read, only the tokens differ, and those are mirrored.
  have initial : (Growth.initial tokens).Mirrors meets rewrite (.initial others) :=
    ⟨pairs, begins, rfl, rfl, rfl, .nil, adjoining, adjoiningOther⟩
  rw [growWithin_eq, growWithin_eq, ← pairs.length_eq]
  exact (Rule.program.grow_mirrors limit _ initial).bind fun _ _ mirrors => mirrors.finish

end Dxl
