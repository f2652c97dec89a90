import Dxl.Proofs.Parse.Forms
import Dxl.Proofs.Parse.Names

/-! Recovery: which tokens of a source text are passed over after an error, and when a brace is among them that closes a block around them. -/

namespace Dxl

open Place

/-- Some kinds have among them that of a right brace which closes none of the left ones before it. -/
def ClosesOuter (kinds : List Kind) : Prop :=
  ∃ before after, kinds = before ++ .token (.sign .rightBrace) :: after
    ∧ before.count (.token (.sign .leftBrace)) ≤ before.count (.token (.sign .rightBrace))

/-- A single token closes an outer brace just if it is a right one. -/
theorem closesOuter_single_iff (kind : Kind) :
    ClosesOuter [kind] ↔ kind = .token (.sign .rightBrace) := by
  constructor
  · rintro ⟨before, after, split, -⟩
    cases before with
    | nil => exact (List.cons.inj split).1
    | cons first rest =>
      have short := congrArg List.length split
      simp at short
  · rintro rfl
    exact ⟨[], [], rfl, Nat.le_refl _⟩

/-- The braces among the leaves of tokens are those among the tokens. -/
theorem count_entry (tokens : List Token) (kind : TokenKind) :
    (tokens.map fun token => token.entry.1).count (.token kind)
      = tokens.countP fun token => token.kind == kind := by
  rw [List.count_eq_countP, List.countP_map]
  refine List.countP_congr fun token _ => ?_
  simp [Token.entry]

/-- Tokens that are passed over up to one that starts anew close an outer brace just if a right one comes before that token and closes none that is passed over. -/
theorem closesOuter_takeWhile_iff (tokens : List Token) :
    ClosesOuter ((tokens.takeWhile fun token => !token.kind.startsAnew).map fun token => token.entry.1)
      ↔ ∃ before brace after, tokens = before ++ brace :: after
        ∧ brace.kind = .sign .rightBrace
        ∧ (∀ token ∈ before, token.kind.startsAnew = false)
        ∧ before.countP (·.kind == .sign .leftBrace)
          ≤ before.countP (·.kind == .sign .rightBrace) := by
  constructor
  · rintro ⟨kinds, others, split, balance⟩
    obtain ⟨before, rest, passed, rfl, last⟩ := List.map_eq_append_iff.mp split
    obtain ⟨brace, after, rfl, isBrace, rfl⟩ := List.map_eq_cons_iff.mp last
    refine ⟨before, brace, after ++ tokens.dropWhile fun token => !token.kind.startsAnew, ?_,
      Kind.token.inj isBrace, fun token member => ?_, by simpa only [count_entry] using balance⟩
    · -- What is passed over comes before what is left.
      rw [← List.cons_append, ← List.append_assoc, ← passed, List.takeWhile_append_dropWhile]
    · have among : token ∈ tokens.takeWhile fun token => !token.kind.startsAnew := by
        simp [passed, member]
      simpa using List.all_eq_true.mp List.all_takeWhile token among
  · rintro ⟨before, brace, after, rfl, isBrace, passes, balance⟩
    -- Neither the brace nor any token before it starts anew.
    rw [List.takeWhile_append_of_pos fun token member => by simp [passes token member],
      List.takeWhile_cons_of_pos (by rw [isBrace]; rfl), List.map_append, List.map_cons]
    refine ⟨_, _, by rw [Token.entry, isBrace], ?_⟩
    simpa only [count_entry] using balance

/-- After an error either one token is passed over that is misplaced, or all tokens are up to the next that starts anew; the brace of a block around them is among them just if it is that one token, or comes before any that starts anew. -/
theorem skipped_of_parseText {text : String} {parsed : Parsed} (parses : parseText text = .ok parsed)
    (base : Nat) {place : Place} (inside : place.Within (root parsed.tree base))
    (isSkipped : place.kind = .node .skipped) :
    ∃ token rest, token :: rest <:+ tokenize text ∧ place.start = base + token.start
      ∧ (token.kind.isMisplaced = true ∧ place.tree.leaves = [token.entry]
          ∧ (ClosesOuter (place.tree.leaves.map Prod.fst) ↔ token.kind = .sign .rightBrace)
        ∨ place.tree.leaves
            = ((token :: rest).takeWhile fun token => !token.kind.startsAnew).map Token.entry
          ∧ (ClosesOuter (place.tree.leaves.map Prod.fst)
            ↔ ∃ before brace after, token :: rest = before ++ brace :: after
              ∧ brace.kind = .sign .rightBrace
              ∧ (∀ token ∈ before, token.kind.startsAnew = false)
              ∧ before.countP (·.kind == .sign .leftBrace)
                ≤ before.countP (·.kind == .sign .rightBrace))) := by
  obtain ⟨start, children, begins, tree, made⟩ := madeUp_of_parseText parses base inside isSkipped
  have passed := made.skipped rfl
  rw [← Tree.leaves_node (.node .skipped), ← tree] at passed
  generalize place.tree.leaves = leaves at passed ⊢
  cases passed with
  | @single token rest suffix starts misplaced =>
    refine ⟨token, rest, suffix, starts ▸ begins, .inl ⟨misplaced, rfl, ?_⟩⟩
    rw [List.map_singleton, closesOuter_single_iff]
    exact ⟨Kind.token.inj, congrArg Kind.token⟩
  | @several token rest suffix starts =>
    refine ⟨token, rest, suffix, starts ▸ begins, .inr ⟨rfl, ?_⟩⟩
    rw [List.map_map]
    exact closesOuter_takeWhile_iff _

/-- After a type without a name, the brace that ends the block is passed over, as nothing starts anew before it. -/
theorem skipped_of_parseText_block :
    ∃ (parsed : Parsed) (block place : Place), parseText "\x7bint\x7d" = .ok parsed
      ∧ block.Within (root parsed.tree 0) ∧ block.kind = .node .block
      ∧ place ∈ block.children ∧ place.kind = .node .skipped
      ∧ ClosesOuter (place.tree.leaves.map Prod.fst)
      ∧ ∃ (token : Token) (rest before : List Token) (brace : Token) (after : List Token),
        token :: rest <:+ tokenize "\x7bint\x7d" ∧ place.start = token.start
          ∧ token :: rest = before ++ brace :: after ∧ brace.kind = .sign .rightBrace
          ∧ ∀ token ∈ before, token.kind.startsAnew = false := by
  obtain ⟨parsed, parses, passes⟩ : ∃ parsed, parseText "\x7bint\x7d" = .ok parsed
      ∧ ((root parsed.tree 0).children.any fun block => block.kind == .node .block
        && block.children.any fun place => place.kind == .node .skipped
          && place.tree.leaves == [(.token (.keyword .intWord), "int"),
            (.token (.sign .rightBrace), "\x7d")]) = true :=
    exists_ok_of_any (by decide +kernel)
  simp only [List.any_eq_true, Bool.and_eq_true, beq_iff_eq] at passes
  obtain ⟨block, outer, isBlock, place, member, isSkipped, leaves⟩ := passes
  have closes : ClosesOuter (place.tree.leaves.map Prod.fst) := by
    rw [leaves]
    exact ⟨[.token (.keyword .intWord)], [], rfl, by decide⟩
  have within : block.Within (root parsed.tree 0) := .of_mem_children outer
  obtain ⟨token, rest, suffix, begins, ⟨-, single, -⟩ | ⟨-, exactly⟩⟩ :=
    skipped_of_parseText parses 0 ((Within.of_mem_children member).trans within) isSkipped
  · -- One token alone is not what is passed over here.
    cases congrArg List.length (leaves.symm.trans single)
  · obtain ⟨before, brace, after, split, isBrace, passed, -⟩ := exactly.mp closes
    exact ⟨parsed, block, place, parses, within, isBlock, member, isSkipped, closes, token, rest,
      before, brace, after, suffix, by rw [begins, Nat.zero_add], split, isBrace, passed⟩

end Dxl
