import Dxl.Proofs.Grammar.Program
import Dxl.Proofs.Grammar.Simulation
import Dxl.Proofs.Token.Partition

/-! Safety: parsing a source text gives a tree in which every node holds what its kind admits, or ends because the grammar is stuck. -/

namespace Dxl

/-- The tokens of a source text end with the end of the text. -/
theorem terminated_tokenize (text : String) : Terminated (tokenize text) := by
  obtain ⟨tokens, stop, scanned, proper, -, -⟩ := tokensFrom_partition false 0 text.toList
  rw [tokenize, scanned]
  clear scanned
  induction tokens with
  | nil => exact .last rfl
  | cons token rest ih =>
    exact .more (proper token (by simp)).1 (ih fun other member => proper other (by simp [member]))

/-- Parsing a source text gives a sound tree or gets stuck at a token. -/
theorem parseText_outcome (text : String) :
    (∃ parsed, parseText text = .ok parsed ∧ parsed.tree.Sound)
      ∨ ∃ kind, parseText text = .error (.stuck kind) := by
  rw [parseText, parse, parseWithin_eq_growWithin]
  exact growWithin_sound _ (terminated_tokenize text)

/-- Parsing a source text gives a tree, or fails because a token was looked at too often; no other failure is possible. -/
theorem parseText_safe (text : String) :
    (∃ parsed, parseText text = .ok parsed) ∨ ∃ kind, parseText text = .error (.stuck kind) :=
  (parseText_outcome text).imp_left fun ⟨parsed, parses, _⟩ => ⟨parsed, parses⟩

/-- The tree of a source text is sound. -/
theorem sound_of_parseText {text : String} {parsed : Parsed}
    (parses : parseText text = .ok parsed) : parsed.tree.Sound := by
  rcases parseText_outcome text with ⟨other, same, sound⟩ | ⟨kind, stuck⟩
  · rw [parses] at same
    cases same
    exact sound
  · rw [parses] at stuck
    cases stuck

end Dxl
