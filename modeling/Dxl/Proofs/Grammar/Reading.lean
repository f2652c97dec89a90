import Dxl.Proofs.Grammar.Inversion
import Dxl.Proofs.Tree.Leaves

/-! Reading: whatever a parser does, the leaves it makes are the tokens it reads. -/

namespace Dxl

/-- The kind and the text of the leaf of a token. -/
def Token.entry (token : Token) : Kind × String :=
  (.token token.kind, token.text)

namespace Growth

/-- The leaves of the trees in the frame, from left to right. -/
def leaves (growth : Growth) : List (Kind × String) :=
  growth.siblings.reverse.flatMap Tree.leaves

/-- The tokens still to be read are not empty, up to the one at the end of the text. -/
def Nonempty (growth : Growth) : Prop :=
  ∀ token ∈ growth.rest, token.kind ≠ .endOfText → token.text ≠ ""

/-- One growth comes from another by reading tokens, each of which becomes a leaf. -/
structure Reads (growth after : Growth) : Prop where
  tokens : ∃ read, growth.rest = read ++ after.rest
    ∧ after.leaves = growth.leaves ++ read.map Token.entry
    ∧ ∀ token ∈ read, token.kind ≠ .endOfText
  flawless : growth.Nonempty → (∀ tree ∈ growth.siblings, tree.Flawless) →
    ∀ tree ∈ after.siblings, tree.Flawless

namespace Reads

/-- Nothing is read. -/
theorem refl (growth : Growth) : growth.Reads growth :=
  ⟨⟨[], by simp⟩, fun _ flawless => flawless⟩

/-- What stays the same but for looks, mistakes and the beginning of the frame reads nothing. -/
theorem of_eq {growth after : Growth} (rest : after.rest = growth.rest)
    (siblings : after.siblings = growth.siblings) : growth.Reads after := by
  refine ⟨⟨[], by simp [rest, leaves, siblings]⟩, fun _ flawless => ?_⟩
  rwa [siblings]

/-- What is read later comes after what is read first. -/
theorem trans {growth between after : Growth} (first : growth.Reads between)
    (second : between.Reads after) : growth.Reads after := by
  obtain ⟨read, split, leaves, proper⟩ := first.tokens
  obtain ⟨more, splitMore, leavesMore, properMore⟩ := second.tokens
  refine ⟨⟨read ++ more, ?_, ?_, ?_⟩, fun nonempty flawless => ?_⟩
  · rw [split, splitMore, List.append_assoc]
  · rw [leavesMore, leaves, List.map_append, List.append_assoc]
  · -- Neither of the two reads the end of the text.
    intro token member
    rcases List.mem_append.mp member with earlier | later
    · exact proper token earlier
    · exact properMore token later
  · -- The tokens that are left in between are some of the first ones.
    refine second.flawless (fun token member => nonempty token ?_) (first.flawless nonempty flawless)
    rw [split]
    exact List.mem_append_right read member

/-- A read token becomes a leaf. -/
theorem addLeaf {growth : Growth} {token : Token} {rest : List Token}
    (next : growth.rest = token :: rest) (proper : token.kind ≠ .endOfText) :
    growth.Reads (growth.addLeaf token) := by
  refine ⟨⟨[token], by simp [Growth.addLeaf, next], ?_, by simpa using proper⟩,
    fun nonempty flawless => ?_⟩
  · simp [leaves, Growth.addLeaf, Token.leaf, Token.entry]
  · have text := nonempty token (by simp [next]) proper
    simpa [Growth.addLeaf] using ⟨.leaf text, flawless⟩

/-- Trivia before the next token becomes leaves. -/
theorem eatTrivia (growth : Growth) : growth.Reads growth.eatTrivia :=
  eatTrivia_induction (refl growth) fun _ _ _ found trivia reads =>
    reads.trans (addLeaf found (TokenKind.ne_endOfText_of_isTrivia trivia))

/-- A look reads trivia only. -/
theorem look {growth after : Growth} {limit : Option Nat} {symbol : Symbol}
    (looked : growth.look limit = .ok (symbol, after)) : growth.Reads after := by
  obtain ⟨token, rest, -, -, rfl, rfl⟩ := exists_of_look looked
  exact (eatTrivia growth).trans (of_eq rfl rfl)

/-- The token that is read becomes a leaf after the trivia. -/
theorem bump {growth after : Growth} (bumped : growth.bump = .ok after) : growth.Reads after := by
  obtain ⟨token, rest, next, proper, rfl⟩ := exists_of_bump bumped
  exact ((eatTrivia growth).trans (addLeaf next proper)).trans (of_eq rfl rfl)

/-- What is read in an inner frame comes after what the outer one has. -/
theorem leave {growth inner : Growth} (reads : growth.enter.Reads inner) :
    growth.Reads (growth.leave inner) := by
  obtain ⟨read, split, leaves, proper⟩ := reads.tokens
  refine ⟨⟨read, split, ?_, proper⟩, fun nonempty flawless tree member => ?_⟩
  · simpa [Growth.leaves, Growth.leave, enter] using leaves
  · rcases List.mem_append.mp member with fresh | earlier
    · exact reads.flawless nonempty (by simp [enter]) tree fresh
    · exact flawless tree earlier

/-- Closing a node keeps its leaves. -/
theorem close {growth inner : Growth} (reads : growth.Reads inner) (kind : NodeKind) :
    growth.Reads (inner.close kind) := by
  obtain ⟨read, split, leaves, proper⟩ := reads.tokens
  refine ⟨⟨read, split, ?_, proper⟩, fun nonempty flawless tree member => ?_⟩
  · simpa [Growth.leaves, Growth.close] using leaves
  · rw [Growth.close, List.mem_singleton] at member
    subst member
    exact .node fun child inside => reads.flawless nonempty flawless child (by simpa using inside)

/-- Every step reads tokens. -/
theorem stepwise : Stepwise Reads where
  stay := refl
  further := trans
  look := look
  bump := bump
  report _ _ := of_eq rfl rfl
  node kind within := (within.close kind).leave
  frame := leave
  wrap kind _ within := within.leave.close kind

end Reads

end Growth

/-- A parser reads tokens if the rules it calls do. -/
theorem Parser.grow_reads {call : Rule → Growth → Except Failure Growth}
    (calls : ∀ rule growth after, call rule growth = .ok after → growth.Reads after)
    {limit : Option Nat} {α : Type} {parser : Parser α} {growth after : Growth} {value : α}
    (grown : parser.grow call limit growth = .ok (value, after)) : growth.Reads after :=
  Growth.Reads.stepwise.grow (calls _ _ _) grown

/-- A rule reads tokens. -/
theorem Rule.grow_reads {limit : Option Nat} {rule : Rule} {depth : Nat} {growth after : Growth}
    (grown : rule.grow limit depth growth = .ok after) : growth.Reads after :=
  Growth.Reads.stepwise.grow_rule grown

end Dxl
