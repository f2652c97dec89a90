import Mathlib
import Dxl.Proofs.Grammar.Growth
import Dxl.Proofs.Tree.Shape

/-! Contracts: what a parser promises of the growth it leaves, unless it gets stuck. -/

namespace Dxl

/-- Tokens of which the last one, and no other, is the end of the text. -/
inductive Terminated : List Token → Prop
  | last {token : Token} : token.kind = .endOfText → Terminated [token]
  | more {token : Token} {rest : List Token} : token.kind ≠ .endOfText → Terminated rest →
    Terminated (token :: rest)

namespace Terminated

/-- There is at least the end of the text. -/
theorem ne_nil {tokens : List Token} (terminated : Terminated tokens) : tokens ≠ [] := by
  cases terminated <;> simp

/-- Whatever is not the end of the text is followed by it. -/
theorem tail {token : Token} {rest : List Token} (terminated : Terminated (token :: rest))
    (further : token.kind ≠ .endOfText) : Terminated rest := by
  cases terminated with
  | last final => exact absurd final further
  | more _ others => exact others

/-- The end of the text is the last token. -/
theorem eq_nil {token : Token} {rest : List Token} (terminated : Terminated (token :: rest))
    (final : token.kind = .endOfText) : rest = [] := by
  cases terminated with
  | last => rfl
  | more further _ => exact absurd final further

/-- The end of the text is no trivia, so it is still there after them. -/
theorem dropTrivia {tokens : List Token} (terminated : Terminated tokens) :
    Terminated (tokens.dropWhile (·.kind.isTrivia)) := by
  induction terminated with
  | last final => simpa [List.dropWhile, final, TokenKind.isTrivia] using Terminated.last final
  | @more token rest further others ih =>
    rw [List.dropWhile_cons]
    split
    · exact ih
    · exact .more further others

end Terminated

namespace Growth

/-- The kinds of the nodes in the frame, from left to right. -/
def kinds (growth : Growth) : List NodeKind :=
  Tree.nodeKinds growth.siblings.reverse

/-- What the grammar sees next. -/
def next (growth : Growth) : Symbol :=
  match growth.rest.dropWhile (·.kind.isTrivia) with
  | [] => ⟨.endOfText, false⟩
  | token :: _ => token.symbol

/-- The text is still to be ended, and the trees in the frame are sound. -/
structure Good (growth : Growth) : Prop where
  terminated : Terminated growth.rest
  sound : ∀ tree ∈ growth.siblings, tree.Sound

/-- Nodes of the given kinds are added to the frame, which keeps its operand; under a condition at least one token is read. -/
structure Extends (growth after : Growth) (added : List NodeKind) (reads : Prop) : Prop where
  good : after.Good
  fewer : after.rest.length ≤ growth.rest.length
  shorter : reads → after.rest.length < growth.rest.length
  kinds : after.kinds = growth.kinds ++ added
  operand : growth.opening = .node → after.opening = .node

/-- The frame is left with an operand and nodes of the given kinds; under a condition at least one token is read. -/
structure Becomes (growth after : Growth) (left : List NodeKind) (reads : Prop) : Prop where
  good : after.Good
  fewer : after.rest.length ≤ growth.rest.length
  shorter : reads → after.rest.length < growth.rest.length
  kinds : after.kinds = left
  operand : after.opening = .node

/-- Nothing changes but that trivia is read or a mistake is noted. -/
structure Settles (growth after : Growth) : Prop where
  extended : growth.Extends after [] False
  next : after.next = growth.next

/-- Nodes of two frames follow each other. -/
theorem kinds_leave (outer inner : Growth) :
    (outer.leave inner).kinds = outer.kinds ++ inner.kinds := by
  simp [kinds, leave, Tree.nodeKinds]

/-- What joins an empty frame makes up the frame. -/
theorem enter_leave (outer inner : Growth) : outer.enter.leave inner = inner := by
  simp [enter, leave, Opening.orElse]

/-- A leaf is not a node. -/
theorem kinds_addLeaf (growth : Growth) (token : Token) :
    (growth.addLeaf token).kinds = growth.kinds := by
  simp [kinds, addLeaf, Tree.nodeKinds, Token.leaf, Tree.nodeKind?]

/-- Fewer tokens are left after two steps if either of them reads one and neither adds any. -/
theorem lt_of_or {first second third : Nat} {early late : Prop} (one : second ≤ first)
    (two : third ≤ second) (shorter : early → second < first) (shorterThen : late → third < second)
    (either : early ∨ late) : third < first := by
  -- Whichever step it is, the other one does not add a token.
  rcases either with holds | holds
  · exact Nat.lt_of_le_of_lt two (shorter holds)
  · exact Nat.lt_of_lt_of_le (shorterThen holds) one

namespace Extends

variable {growth between after : Growth} {added more : List NodeKind} {reads further : Prop}

/-- Nothing is added. -/
theorem refl (good : growth.Good) : growth.Extends growth [] False :=
  ⟨good, Nat.le_refl _, False.elim, by simp, id⟩

/-- What is added later comes after what is added first. -/
theorem trans (first : growth.Extends between added reads)
    (second : between.Extends after more further) :
    growth.Extends after (added ++ more) (reads ∨ further) := by
  refine ⟨second.good, Nat.le_trans second.fewer first.fewer,
    lt_of_or first.fewer second.fewer first.shorter second.shorter, ?_,
    fun operand => second.operand (first.operand operand)⟩
  rw [second.kinds, first.kinds, List.append_assoc]

/-- The same holds under a stronger condition. -/
theorem imp (extended : growth.Extends after added reads) (implied : further → reads) :
    growth.Extends after added further :=
  ⟨extended.good, extended.fewer, fun holds => extended.shorter (implied holds), extended.kinds,
    extended.operand⟩

/-- How often a token was looked at does not count. -/
theorem withLooks (extended : growth.Extends after added reads) (looks : Nat) :
    growth.Extends { after with looks } added reads :=
  ⟨⟨extended.good.terminated, extended.good.sound⟩, extended.fewer, extended.shorter,
    extended.kinds, extended.operand⟩

/-- What is added to an inner frame is added to the outer one. -/
theorem leave (good : growth.Good) (extended : growth.enter.Extends after added reads) :
    growth.Extends (growth.leave after) added reads := by
  refine ⟨⟨extended.good.terminated, fun tree member => ?_⟩, extended.fewer, extended.shorter, ?_,
    fun operand => Opening.orElse_eq_node.mpr (.inl operand)⟩
  · -- The trees of both frames are sound.
    rcases List.mem_append.mp member with fresh | earlier
    · exact extended.good.sound tree fresh
    · exact good.sound tree earlier
  · -- A new frame has no nodes, so those added are all that the inner frame has.
    rw [kinds_leave, extended.kinds]
    rfl

/-- A closed node is the only one in its frame. -/
theorem close {kind : NodeKind} (extended : growth.enter.Extends after added reads)
    (admitted : kind.admits added) (single : kind.isAtom → Tree.SingleToken after.siblings.reverse) :
    growth.enter.Becomes (after.close kind) [kind] reads := by
  refine ⟨⟨extended.good.terminated, fun tree member => ?_⟩, extended.fewer, extended.shorter, rfl,
    rfl⟩
  rw [Growth.close, List.mem_singleton] at member
  subst member
  -- The new node is sound, as it admits what was added to the empty frame.
  refine .node (fun child inside => extended.good.sound child (List.mem_reverse.mp inside)) ?_ single
  have kinds : Tree.nodeKinds after.siblings.reverse = added := extended.kinds
  rwa [kinds]

/-- A node around an operand takes in what is in its frame. -/
theorem closeAround {kind : NodeKind} (good : growth.Good)
    (extended : growth.enter.Extends after added reads)
    (admitted : kind.admits (growth.kinds ++ added)) (composite : kind.isAtom = false) :
    growth.Becomes ((growth.leave after).close kind) [kind] reads := by
  -- The node holds the operand and what was added after it.
  have whole := extended.leave good
  refine ⟨⟨extended.good.terminated, fun tree member => ?_⟩, extended.fewer, extended.shorter, rfl,
    rfl⟩
  rw [Growth.close, List.mem_singleton] at member
  subst member
  refine .node (fun child inside => whole.good.sound child (List.mem_reverse.mp inside)) ?_
    -- It is no node of a single token, so nothing is asked of its leaves.
    (by simp [composite])
  have kinds : Tree.nodeKinds (growth.leave after).siblings.reverse = growth.kinds ++ added :=
    whole.kinds
  rwa [kinds]

end Extends

namespace Becomes

variable {growth between after : Growth} {left more : List NodeKind} {reads further : Prop}

/-- A frame with an operand is what it is. -/
theorem refl (good : growth.Good) (operand : growth.opening = .node) :
    growth.Becomes growth growth.kinds False :=
  ⟨good, Nat.le_refl _, False.elim, rfl, operand⟩

/-- The same holds under a stronger condition. -/
theorem imp (becomes : growth.Becomes after left reads) (implied : further → reads) :
    growth.Becomes after left further :=
  ⟨becomes.good, becomes.fewer, fun holds => becomes.shorter (implied holds), becomes.kinds,
    becomes.operand⟩

/-- What a frame becomes after it was extended counts. -/
theorem afterExtends {added : List NodeKind} (becomes : between.Becomes after left further)
    (extended : growth.Extends between added reads) :
    growth.Becomes after left (reads ∨ further) :=
  ⟨becomes.good, Nat.le_trans becomes.fewer extended.fewer,
    lt_of_or extended.fewer becomes.fewer extended.shorter becomes.shorter, becomes.kinds,
    becomes.operand⟩

/-- What a frame becomes in the end counts. -/
theorem trans (first : growth.Becomes between left reads)
    (second : between.Becomes after more further) :
    growth.Becomes after more (reads ∨ further) :=
  ⟨second.good, Nat.le_trans second.fewer first.fewer,
    lt_of_or first.fewer second.fewer first.shorter second.shorter, second.kinds, second.operand⟩

/-- More nodes can be added to a frame with an operand. -/
theorem extend (first : growth.Becomes between left reads)
    (second : between.Extends after more further) :
    growth.Becomes after (left ++ more) (reads ∨ further) := by
  refine first.trans ⟨second.good, second.fewer, second.shorter, ?_, second.operand first.operand⟩
  rw [second.kinds, first.kinds]

/-- What a new frame becomes is added to it. -/
theorem toExtends (becomes : growth.enter.Becomes after left reads) :
    growth.enter.Extends after left reads :=
  ⟨becomes.good, becomes.fewer, becomes.shorter, becomes.kinds, fun _ => becomes.operand⟩

end Becomes

namespace Settles

variable {growth between after : Growth}

/-- Nothing changes. -/
theorem refl (good : growth.Good) : growth.Settles growth :=
  ⟨.refl good, rfl⟩

/-- Looking twice changes nothing more. -/
theorem trans (first : growth.Settles between) (second : between.Settles after) :
    growth.Settles after :=
  ⟨(first.extended.trans second.extended).imp False.elim, second.next.trans first.next⟩

/-- A growth that has settled is good. -/
theorem good (settles : growth.Settles after) : after.Good :=
  settles.extended.good

/-- What a frame becomes after a look is as if it had come first. -/
theorem becomes {left : List NodeKind} {reads : Prop} (settles : growth.Settles between)
    (becomes : between.Becomes after left reads) : growth.Becomes after left reads :=
  (becomes.afterExtends settles.extended).imp .inr

/-- What follows a look is as if it had come first. -/
theorem extend {added : List NodeKind} {reads : Prop} (settles : growth.Settles between)
    (extended : between.Extends after added reads) : growth.Extends after added reads :=
  (settles.extended.trans extended).imp .inr

end Settles

namespace Good

variable {growth : Growth}

/-- A new frame has no trees that could be unsound. -/
theorem enter (good : growth.Good) : growth.enter.Good :=
  ⟨good.terminated, by simp [Growth.enter]⟩

/-- There is a next token, which the grammar sees and which is no trivia. -/
theorem exists_next (good : growth.Good) :
    ∃ token rest, growth.eatTrivia.rest = token :: rest ∧ growth.next = token.symbol
      ∧ token.kind.isTrivia = false := by
  -- The token at the end is no trivia, so it is never dropped.
  have terminated := good.terminated.dropTrivia
  cases found : growth.rest.dropWhile (·.kind.isTrivia) with
  | nil => exact absurd found terminated.ne_nil
  | cons token rest =>
    have proper := List.head_dropWhile_not (fun token : Token => token.kind.isTrivia)
      terminated.ne_nil
    refine ⟨token, rest, growth.rest_eatTrivia.trans found, by simp [next, found], ?_⟩
    simpa [found] using proper

/-- A token that is read adds no node. -/
theorem addLeaf {token : Token} {rest : List Token} (good : growth.Good)
    (found : growth.rest = token :: rest) (further : token.kind ≠ .endOfText) :
    growth.Extends (growth.addLeaf token) [] True := by
  have left : (growth.addLeaf token).rest = rest := by simp [Growth.addLeaf, found]
  -- The token was not the last one, so the rest still has an end.
  have terminated : Terminated rest := (found ▸ good.terminated).tail further
  refine ⟨⟨left ▸ terminated, ?_⟩, ?_, fun _ => ?_, ?_, fun operand => Opening.orElse_eq_node.mpr (.inl operand)⟩
  · simpa [Growth.addLeaf] using ⟨Tree.Sound.leaf _ _, good.sound⟩
  · simp [left, found]
  · simp [left, found]
  · rw [kinds_addLeaf, List.append_nil]

/-- Trivia adds no nodes, and does not change what comes next. -/
theorem eatTrivia (good : growth.Good) : growth.Settles growth.eatTrivia := by
  constructor
  · -- No token of trivia ends the text, so each of them can be read.
    refine eatTrivia_induction (.refl good) fun _ _ _ found trivia before => ?_
    have read := before.good.addLeaf found (TokenKind.ne_endOfText_of_isTrivia trivia)
    exact (before.trans read).imp False.elim
  · -- The first token that is no trivia is what comes next, before and after.
    rw [next, rest_eatTrivia, List.dropWhile_idempotent]
    rfl

end Good

end Growth

end Dxl
