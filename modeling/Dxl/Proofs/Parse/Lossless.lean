import Dxl.Proofs.Grammar.Inversion
import Dxl.Proofs.Grammar.Reading
import Dxl.Proofs.Grammar.Simulation
import Dxl.Proofs.Place.Layout
import Dxl.Proofs.Token.Partition
import Dxl.Proofs.Tree.Search

/-! Lossless parsing: the tree of a source text has the tokens of the text as its leaves, in their places. -/

namespace Dxl

/-- The leaves of the tree that tokens grow to are the tokens up to the last one. -/
theorem growWithin_leaves {limit : Option Nat} {tokens : List Token} {parsed : Parsed}
    (grown : growWithin limit tokens = .ok parsed)
    (proper : ∀ token ∈ tokens, token.kind ≠ .endOfText → token.text ≠ "") :
    ∃ read last children, tokens = read ++ [last] ∧ parsed.tree = .node (.node .root) children
      ∧ parsed.tree.leaves = read.map Token.entry ∧ parsed.tree.Flawless := by
  simp only [growWithin] at grown
  split at grown
  · rename_i growth program
    split at grown
    · cases grown
    · rename_i last rest found
      split at grown
      · rename_i finished
        cases grown
        have reads := (Rule.grow_reads program).trans (.eatTrivia growth)
        obtain ⟨read, split, leaves, _⟩ := reads.tokens
        rw [found, List.isEmpty_iff.mp finished] at split
        refine ⟨read, last, _, split, rfl, ?_, .node fun child member => ?_⟩
        · simpa [Growth.leaves, Growth.initial] using leaves
        · exact reads.flawless proper (by simp [Growth.initial]) child (by simpa using member)
      · cases grown
  · cases grown

/-- A source text is parsed to the root and the report of all that its tokens grow to. -/
theorem exists_growth_of_parseText {text : String} {parsed : Parsed}
    (parses : parseText text = .ok parsed) :
    ∃ growth, Rule.program.grow (some lookLimit) (Rule.depthFor (tokenize text).length)
        (.initial (tokenize text)) = .ok growth
      ∧ parsed = ⟨.node (.node .root) growth.eatTrivia.siblings.reverse,
        growth.eatTrivia.report⟩ := by
  rw [parseText, parse, parseWithin_eq_growWithin] at parses
  obtain ⟨growth, program, finished, -⟩ := growWithin_ok parses
  exact ⟨growth, program, Growth.finish_ok finished⟩

/-- Adjoining tokens are laid out at their own offsets, counted from any base. -/
theorem laidOut_adjoining {tokens : List Token} {start : Nat} (adjoining : Adjoining start tokens)
    (base : Nat) :
    laidOut (base + start) (tokens.map Token.entry)
      = tokens.map fun token =>
          (.token token.kind, token.text, base + token.start, base + token.stop) := by
  induction tokens generalizing start with
  | nil => rfl
  | cons token rest ih =>
    obtain ⟨rfl, further⟩ := adjoining
    have next := ih further
    simp only [Token.stop, ← Nat.add_assoc] at next
    simp [laidOut, Token.entry, Token.stop, Nat.add_assoc] at next ⊢
    exact next

/-- The tree of a source text is a flawless root, and its leaves are the adjoining tokens of the text up to the end. -/
theorem root_of_parseText {text : String} {parsed : Parsed}
    (parses : parseText text = .ok parsed) :
    ∃ tokens stop children, tokenize text = tokens ++ [⟨.endOfText, "", stop⟩]
      ∧ Adjoining 0 tokens ∧ String.join (tokens.map Token.text) = text
      ∧ parsed.tree = .node (.node .root) children
      ∧ parsed.tree.leaves = tokens.map Token.entry ∧ parsed.tree.Flawless := by
  obtain ⟨tokens, stop, scanned, proper, adjoining, joined⟩ :=
    tokensFrom_partition false 0 text.toList
  rw [parseText, parse, parseWithin_eq_growWithin, tokenize, scanned] at parses
  obtain ⟨read, last, children, split, root, leaves, flawless⟩ :=
    growWithin_leaves parses fun token member inside => by
      rcases List.mem_append.mp member with earlier | last
      · exact (proper token earlier).2
      · exact absurd (by rw [List.mem_singleton.mp last]) inside
  obtain ⟨rfl, -⟩ := List.append_inj' split rfl
  exact ⟨tokens, stop, children, scanned, adjoining, joined.trans String.ofList_toList, root,
    leaves, flawless⟩

/-- The tree of a source text has the text. -/
theorem text_of_parseText {text : String} {parsed : Parsed} (parses : parseText text = .ok parsed) :
    parsed.tree.text = text := by
  obtain ⟨tokens, _, _, -, -, joined, -, leaves, -⟩ := root_of_parseText parses
  rw [Tree.text, leaves, List.map_map]
  exact joined

/-- The tree of a source text is lossless: its leaves are the tokens of the text up to the empty one at the end, it has no flaw, its text and its width are those of the source, and its tokens lie where the tokens of the text do. -/
theorem parseText_lossless {text : String} {parsed : Parsed} (parses : parseText text = .ok parsed)
    (base : Nat) :
    ∃ tokens stop, tokenize text = tokens ++ [⟨.endOfText, "", stop⟩]
      ∧ parsed.tree.leaves = tokens.map (fun token => (.token token.kind, token.text))
      ∧ parsed.tree.kind = .node .root
      ∧ parsed.tree.flaw? = none
      ∧ parsed.tree.text = text
      ∧ parsed.tree.width = text.utf8ByteSize
      ∧ ((Place.root parsed.tree base).elements.filter Place.isToken).map
            (fun leaf => (leaf.kind, leaf.text, leaf.start, leaf.stop))
          = tokens.map fun token =>
              (.token token.kind, token.text, base + token.start, base + token.stop) := by
  obtain ⟨tokens, stop, children, scanned, adjoining, -, root, leaves, flawless⟩ :=
    root_of_parseText parses
  have same := text_of_parseText parses
  refine ⟨tokens, stop, scanned, leaves, by rw [root]; rfl, (Tree.flaw?_eq_none_iff _).mpr flawless,
    same, by rw [Tree.width_eq_utf8ByteSize, same], ?_⟩
  have laid := laidOut_adjoining adjoining base
  rw [Nat.add_zero, ← leaves, root] at laid
  rw [root]
  exact (Place.extents_root (.node .root) children base).trans laid

/-- An assignment without a value is parsed to a tree that still holds all of its text. -/
theorem parseText_lossless_unfinished :
    ∃ parsed, parseText "a = // b" = .ok parsed ∧ parsed.tree.flaw? = none
      ∧ parsed.tree.text = "a = // b" ∧ parsed.tree.width = 8
      ∧ ((Place.root parsed.tree 5).elements.filter Place.isToken).map
            (fun leaf => (leaf.kind, leaf.text, leaf.start, leaf.stop))
          = (tokenize "a = // b").dropLast.map fun token =>
              (.token token.kind, token.text, 5 + token.start, 5 + token.stop) := by
  have succeeds : (parseText "a = // b").toOption.any (fun _ => true) = true := by decide +kernel
  obtain ⟨parsed, parses, -⟩ := exists_ok_of_any succeeds
  obtain ⟨tokens, stop, scanned, -, -, flawless, same, width, extents⟩ :=
    parseText_lossless parses 5
  refine ⟨parsed, parses, flawless, same, width.trans (by decide +kernel), ?_⟩
  rw [extents, scanned, List.dropLast_concat]

end Dxl
