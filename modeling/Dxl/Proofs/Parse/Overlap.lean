import Dxl.Proofs.Parse.Forms
import Dxl.Proofs.Parse.Names
import Dxl.Proofs.View.Overlap

/-! Overlap: which source texts have highlights that share a token. -/

namespace Dxl

open Place

/-- The highlights of a source text are in order, and none of them overlap just if no loop over members that is reached repeats its item. -/
theorem parseText_highlights_apart_iff {text : String} {parsed : Parsed}
    (parses : parseText text = .ok parsed) :
    let tokens := (Highlights.ofPlace (root parsed.tree 0)).tokens
    tokens.Pairwise (fun left right => left.precedes right = true)
      ∧ (tokens.Pairwise (fun left right => left.stop ≤ right.start)
        ↔ ∀ loop ∈ (root parsed.tree 0).reached, ¬ loop.RepeatsItem) := by
  intro tokens
  obtain ⟨-, isRoot, proper⟩ := rooted_of_parseText parses 0
  have sorted := pairwise_ofPlace (root parsed.tree 0)
  refine ⟨sorted, ?_⟩
  have same : tokens.Perm (root parsed.tree 0).highlights :=
    perm_highlights (isStatement_of_kind isRoot)
  rw [← pairwise_highlights_iff proper (formed_of_parseText parses),
    ← same.pairwise_iff Highlight.Apart.symm]
  constructor
  · exact List.Pairwise.imp Or.inl
  · intro apart
    -- Of two highlights in order that are apart, the first one ends first, as none is empty.
    refine (sorted.and apart).imp_of_mem fun {left right} isLeft isRight both => ?_
    obtain ⟨ordered, before | after⟩ := both
    · exact before
    · have := Highlight.start_le_of_precedes ordered
      have := (marks_of_mem_ofPlace isRight).range proper
      omega

/-- In a loop without an item, the step is taken for the item and shown twice. -/
theorem parseText_highlights_repeated :
    ∃ parsed, parseText "for by x do y" = .ok parsed
      ∧ ∃ loop ∈ (root parsed.tree 0).reached, loop.RepeatsItem := by
  have found : (parseText "for by x do y").toOption.any (fun parsed =>
      (Highlights.ofPlace (root parsed.tree 0)).tokens.map (fun token => (token.start, token.stop))
        == [(0, 3), (7, 8), (7, 8), (9, 11), (12, 13)]) = true := by cbv
  obtain ⟨parsed, parses, found⟩ := exists_ok_of_any found
  simp only [beq_iff_eq] at found
  refine ⟨parsed, parses, by_contra fun none => ?_⟩
  -- Were no item repeated, the highlights would be apart, which the two at 7 are not.
  have apart := (parseText_highlights_apart_iff parses).2.mpr fun loop member repeats =>
    none ⟨loop, member, repeats⟩
  have mapped : ((Highlights.ofPlace (root parsed.tree 0)).tokens.map fun token =>
      (token.start, token.stop)).Pairwise fun left right => left.2 ≤ right.1 :=
    List.pairwise_map.mpr apart
  rw [found] at mapped
  revert mapped
  decide

end Dxl
