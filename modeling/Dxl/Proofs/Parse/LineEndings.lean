import Dxl.Proofs.Grammar.Mirror

/-! Line endings: a source text is scanned and parsed alike whatever its lines end with. -/

namespace Dxl

open LineEnding

/-- A source text without carriage returns keeps its lines, its tokens, its tree and its remarks when every line feed is replaced by another line ending, also inside of tokens: tokens and remarks stand at the same lines and columns, and no text changes but by the replacement. -/
theorem parseText_rewrite (ending : LineEnding) {text : String} (plain : '\r' ∉ text.toList) :
    (LineIndex.ofText (ending.rewrite text)).lineCount = (LineIndex.ofText text).lineCount
      ∧ List.Forall₂ (fun token counterpart : Token =>
          counterpart.kind = token.kind ∧ counterpart.text = ending.rewrite token.text
            ∧ counterpart.namesType = token.namesType
            ∧ (LineIndex.ofText (ending.rewrite text)).position counterpart.start
              = (LineIndex.ofText text).position token.start
            ∧ (LineIndex.ofText (ending.rewrite text)).position counterpart.stop
              = (LineIndex.ofText text).position token.stop)
          (tokenize text) (tokenize (ending.rewrite text))
      ∧ ((∃ failure, parseText text = .error failure
            ∧ parseText (ending.rewrite text) = .error failure)
        ∨ ∃ parsed counterpart, parseText text = .ok parsed
            ∧ parseText (ending.rewrite text) = .ok counterpart
            ∧ counterpart.tree = parsed.tree.rewrite ending.rewrite
            ∧ List.Forall₂ (fun remark other : Remark =>
                other.severity = remark.severity ∧ other.message = remark.message
                  ∧ (LineIndex.ofText (ending.rewrite text)).position other.offset
                    = (LineIndex.ofText text).position remark.offset)
                parsed.report.remarks counterpart.report.remarks) := by
  have same {offset other : Nat} (meets : ending.Meets text.toList offset other) :=
    meets.position_eq ending plain
  have tokens := ending.mirrors_tokenize plain
  refine ⟨ending.lineCount_rewrite plain, tokens.imp fun token counterpart mirrors =>
    ⟨mirrors.kind, mirrors.text, mirrors.namesType, same mirrors.start, same mirrors.stop⟩, ?_⟩
  have parses := growWithin_mirrors (some lookLimit) tokens ⟨[], text.toList, rfl, rfl, rfl⟩
    (adjoining_tokensFrom false 0 text.toList)
    (adjoining_tokensFrom false 0 (ending.rewrite text).toList)
  rw [← parseWithin_eq_growWithin, ← parseWithin_eq_growWithin] at parses
  rcases parses.outcomes with fails | ⟨parsed, counterpart, left, right, tree, remarks⟩
  · exact .inl fails
  · exact .inr ⟨parsed, counterpart, left, right, tree, remarks.imp fun remark other mirrors =>
      ⟨mirrors.severity, mirrors.message, same mirrors.offset⟩⟩

/-- The lines of a comment and of a string may end differently, and the same is made of them and said at the bracket after them. -/
theorem parseText_rewrite_returnFeed :
    ∃ parsed counterpart, parseText "/* a\n*/ b = \"c\\\nd\" )\n" = .ok parsed
      ∧ parseText "/* a\r\n*/ b = \"c\\\r\nd\" )\r\n" = .ok counterpart
      ∧ counterpart.tree = parsed.tree.rewrite LineEnding.returnFeed.rewrite
      ∧ parsed.report.remarks.map Remark.offset = [19]
      ∧ counterpart.report.remarks.map Remark.offset = [21] := by
  have plain : '\r' ∉ "/* a\n*/ b = \"c\\\nd\" )\n".toList := by decide +kernel
  have rewritten : LineEnding.returnFeed.rewrite "/* a\n*/ b = \"c\\\nd\" )\n"
      = "/* a\r\n*/ b = \"c\\\r\nd\" )\r\n" := by decide +kernel
  have remarked : (parseText "/* a\n*/ b = \"c\\\nd\" )\n").toOption.any
      (fun parsed => parsed.report.remarks.map Remark.offset == [19]) = true := by decide +kernel
  have remarkedOther : (parseText "/* a\r\n*/ b = \"c\\\r\nd\" )\r\n").toOption.any
      (fun parsed => parsed.report.remarks.map Remark.offset == [21]) = true := by decide +kernel
  obtain ⟨-, -, outcomes⟩ := parseText_rewrite .returnFeed plain
  rw [rewritten] at outcomes
  rcases outcomes with ⟨failure, fails, -⟩ | ⟨parsed, counterpart, parses, parsesOther, tree, -⟩
  · simp [fails, Except.toOption] at remarked
  · simp only [parses, Except.toOption, Option.any_some, beq_iff_eq] at remarked
    simp only [parsesOther, Except.toOption, Option.any_some, beq_iff_eq] at remarkedOther
    exact ⟨parsed, counterpart, parses, parsesOther, tree, remarked, remarkedOther⟩

end Dxl
