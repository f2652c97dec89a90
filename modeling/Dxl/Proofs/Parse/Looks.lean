import Dxl.Proofs.Grammar.Looking
import Dxl.Proofs.Parse.Safety

/-! Looks: parsing comes to an end without a limit on looks, and the looks it takes are bounded by the depth of the tree. -/

namespace Dxl

/-- Without a limit the tokens of a text grow to a tree. -/
theorem growWithin_none {tokens : List Token} (terminated : Terminated tokens) :
    ∃ parsed, growWithin none tokens = .ok parsed := by
  rcases growWithin_sound none terminated with ⟨parsed, grown, -⟩ | ⟨kind, stuck⟩
  · exact ⟨parsed, grown⟩
  · have unstuck : Unstuck (growWithin none tokens) := by
      rw [growWithin_eq]
      refine (Rule.unstuck_grow _ _ _).bind fun growth kind => ?_
      unfold Growth.finish
      split
      · simp
      · split <;> simp
    exact absurd stuck (unstuck kind)

/-- Tokens grow to the same tree within a limit of six looks for each of its levels and forty more. -/
theorem growWithin_of_depth {tokens : List Token} {parsed : Parsed} {limit : Nat}
    (grown : growWithin none tokens = .ok parsed) (enough : 6 * parsed.tree.depth + 40 ≤ limit) :
    growWithin (some limit) tokens = .ok parsed := by
  obtain ⟨growth, program, finish, root⟩ := growWithin_ok grown
  have top : (Tree.node (.node .root) growth.eatTrivia.siblings.reverse).depth ≤ parsed.tree.depth :=
    root ▸ le_rfl
  obtain ⟨lower, height, bound⟩ := (Tree.depth_node_le _ _ _).mp top
  have settled : growth.eatTrivia.Low lower := fun tree member =>
    bound tree (List.mem_reverse.mpr member)
  have low : growth.Low lower := settled.of_adds growth.adds_eatTrivia
  -- The root is worth six looks as well.
  have room : 6 * lower + allowance ≤ limit := by
    simp only [allowance]
    omega
  have unspent : (Growth.initial tokens).looks ≤ 6 * lower + 0 := Nat.zero_le _
  obtain ⟨limited, -⟩ := Rule.grow_affords program low unspent (by simp) room
  rw [growWithin_eq, limited]
  exact finish

/-- Parsing a source text without a limit gives a tree, and no token is looked at more than six times as often as the tree is deep and forty times more: with any limit that large the same tree results, and a tree of at most thirty-two levels is the one that parsing the text gives. -/
theorem parseWithin_of_depth (text : String) :
    ∃ parsed, parseWithin none (tokenize text) = .ok parsed
      ∧ (∀ limit, 6 * parsed.tree.depth + 40 ≤ limit →
        parseWithin (some limit) (tokenize text) = .ok parsed)
      ∧ (parsed.tree.depth ≤ 32 → parseText text = .ok parsed) := by
  obtain ⟨parsed, grown⟩ := growWithin_none (terminated_tokenize text)
  have within (limit : Nat) (enough : 6 * parsed.tree.depth + 40 ≤ limit) :
      parseWithin (some limit) (tokenize text) = .ok parsed := by
    rw [parseWithin_eq_growWithin]
    exact growWithin_of_depth grown enough
  refine ⟨parsed, (parseWithin_eq_growWithin _ _).trans grown, within, fun shallow => ?_⟩
  exact within lookLimit (by simp only [lookLimit]; omega)

end Dxl
