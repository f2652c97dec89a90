import Dxl.Proofs.Parse.Names
import Dxl.Proofs.Place.Search

/-! Offsets: where in a source text a node is located beside the token at an offset. -/

namespace Dxl

open Place

variable {text : String} {parsed : Parsed} {offset : Nat} {token : Place}

/-- Where a source text has a token, a node with a token there is located just if no empty node hides it: one that stands at the offset, beside the path to which no node ends there. -/
theorem exists_nodeAt?_iff (parses : parseText text = .ok parsed) (base : Nat)
    (located : (root parsed.tree base).tokenAt? offset = some token) :
    (∃ node, (root parsed.tree base).nodeAt? offset = some node
        ∧ ∃ near ∈ node.tokens, near.covers offset = true)
      ↔ ¬ ∃ empty, Hides (root parsed.tree base) empty offset := by
  have rooted := rooted_of_parseText parses base
  obtain ⟨children, isNode⟩ := rooted.proper.exists_children rooted.isRoot
  have composite : (root parsed.tree base).tree.isLeaf = false := by
    rw [isNode]
    rfl
  -- The search gives up just if an empty node hides the token, and what it finds has a token there.
  rw [← nodeAt?_eq_none_iff rooted.proper rooted.topmost composite located]
  constructor
  · rintro ⟨node, found, -⟩ missing
    simp [missing] at found
  · intro some
    obtain ⟨node, found⟩ := Option.ne_none_iff_exists'.mp some
    exact ⟨node, found, covers_of_nodeAt? found⟩

/-- Between the braces of an array that gets no values, the node for the values is empty and hides the brace before it. -/
theorem exists_nodeAt?_unfilled :
    ∃ parsed token empty, parseText "int a[] = {}" = .ok parsed
      ∧ (root parsed.tree 0).tokenAt? 11 = some token ∧ token.text = "\x7b"
      ∧ Hides (root parsed.tree 0) empty 11
      ∧ ¬ ∃ node, (root parsed.tree 0).nodeAt? 11 = some node
          ∧ ∃ near ∈ node.tokens, near.covers 11 = true := by
  obtain ⟨parsed, parses, passes⟩ : ∃ parsed, parseText "int a[] = {}" = .ok parsed
      ∧ (((root parsed.tree 0).tokenAt? 11).any (fun token => token.text == "\x7b")
        && ((root parsed.tree 0).nodeAt? 11).isNone) = true :=
    exists_ok_of_any (by decide +kernel)
  simp only [Option.any_eq_true, Bool.and_eq_true, beq_iff_eq, Option.isNone_iff_eq_none] at passes
  obtain ⟨⟨token, located, isBrace⟩, missing⟩ := passes
  have unlocated : ¬ ∃ node, (root parsed.tree 0).nodeAt? 11 = some node
      ∧ ∃ near ∈ node.tokens, near.covers 11 = true := by
    rintro ⟨node, found, -⟩
    simp [missing] at found
  obtain ⟨empty, hides⟩ := not_not.mp (mt (exists_nodeAt?_iff parses 0 located).mpr unlocated)
  exact ⟨parsed, token, empty, parses, located, isBrace, hides, unlocated⟩

end Dxl
