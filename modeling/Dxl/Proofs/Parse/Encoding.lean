import Dxl.Proofs.Parse.Names
import Dxl.Proofs.View.Encoding

/-! Encoding: the highlights of a source text, encoded relative to each other, can be placed again. -/

namespace Dxl

open Place

variable {text : String} {parsed : Parsed}

/-- The tree of a source text is as wide as the text. -/
theorem width_of_parseText (parses : parseText text = .ok parsed) :
    parsed.tree.width = text.utf8ByteSize := by
  rw [Tree.width_eq_utf8ByteSize, text_of_parseText parses]

/-- The highlights of a source text fit its lines if it is short enough. -/
theorem fits_of_parseText (parses : parseText text = .ok parsed)
    (short : text.utf8ByteSize < 2 ^ 32) :
    ∀ highlight ∈ (Highlights.ofPlace (root parsed.tree 0)).tokens,
      highlight.Fits (.ofText text) := by
  intro highlight member
  obtain ⟨-, nonempty, inside⟩ :=
    (marks_of_mem_ofPlace member).range (rooted_of_parseText parses 0).proper
  rw [root, stop, width_of_parseText parses, Nat.zero_add] at inside
  exact ⟨nonempty, inside, Nat.le_of_lt_succ short⟩

/-- The highlights of a source text that is short enough are encoded without any number being taken from a smaller one, and adding up what is encoded gives for each highlight in turn its line and column, its length up to the end of that line, which is positive, and the number of its kind. -/
theorem parseText_encode_decodes (parses : parseText text = .ok parsed)
    (short : text.utf8ByteSize < 2 ^ 32) :
    let highlights := Highlights.ofPlace (root parsed.tree 0)
    let lines := LineIndex.ofText text
    highlights.encodeChecked? lines = some (highlights.encode lines)
      ∧ decode (highlights.encode lines)
        = highlights.tokens.map (fun highlight =>
            ⟨lines.position highlight.start,
              min highlight.stop (lines.lineEnd (lines.position highlight.start).line)
                - highlight.start,
              highlight.kind.ordinal⟩)
      ∧ ∀ placed ∈ decode (highlights.encode lines), 0 < placed.length := by
  intro highlights lines
  have fit := fits_of_parseText parses short
  have sorted : highlights.tokens.Pairwise fun left right => left.start ≤ right.start :=
    (pairwise_ofPlace _).imp Highlight.start_le_of_precedes
  -- The first highlight is relative to the start of the text.
  obtain ⟨encoded, decoded⟩ := @encodeFrom_decodes _ (LineIndex.ordered_ofText text) _ fit sorted 0
    fun _ _ => Nat.zero_le _
  have origin : lines.position 0 = ⟨0, 0⟩ := (LineIndex.ordered_ofText text).position_zero
  have whole : decode (highlights.encode lines) = highlights.tokens.map (·.placed lines) := by
    rw [decode, Highlights.encode, ← origin]
    exact decoded
  refine ⟨encoded, whole, fun placed member => ?_⟩
  rw [whole] at member
  obtain ⟨highlight, among, rfl⟩ := List.mem_map.mp member
  exact Nat.sub_pos_of_lt (fit highlight among).start_lt_stopOnLine

/-- A text over two lines is cut off at the end of the first, and the next highlight is placed on the second. -/
theorem parseText_encode_decodes_lines :
    ∃ parsed, parseText "f(\"a\nb\", c)\n/* d */ e" = .ok parsed
      ∧ decode ((Highlights.ofPlace (root parsed.tree 0)).encode
          (.ofText "f(\"a\nb\", c)\n/* d */ e"))
        = [⟨⟨0, 0⟩, 1, 0⟩, ⟨⟨0, 2⟩, 3, 2⟩, ⟨⟨1, 4⟩, 1, 1⟩, ⟨⟨2, 0⟩, 7, 6⟩, ⟨⟨2, 8⟩, 1, 1⟩] := by
  have found : (parseText "f(\"a\nb\", c)\n/* d */ e").toOption.any (fun parsed =>
      (Highlights.ofPlace (root parsed.tree 0)).tokens.map
          (·.placed (.ofText "f(\"a\nb\", c)\n/* d */ e"))
        == [⟨⟨0, 0⟩, 1, 0⟩, ⟨⟨0, 2⟩, 3, 2⟩, ⟨⟨1, 4⟩, 1, 1⟩, ⟨⟨2, 0⟩, 7, 6⟩, ⟨⟨2, 8⟩, 1, 1⟩]) = true := by
    cbv
  obtain ⟨parsed, parses, found⟩ := exists_ok_of_any found
  simp only [beq_iff_eq] at found
  exact ⟨parsed, parses, (parseText_encode_decodes parses (by decide)).2.1.trans found⟩

end Dxl
