import Dxl.Proofs.Parse.Forms
import Dxl.Proofs.Parse.Names
import Dxl.Proofs.View.Header

/-! Headers of loops in a source text. -/

namespace Dxl

open Place

/-- Without errors, every loop finds its parts where its header has them, counting only the semicolons that belong to no clause; a loop over members that has no item takes the expression of its step for it, or without a step that of its body. -/
theorem parseText_headers {text : String} {parsed : Parsed} (parses : parseText text = .ok parsed)
    (spotless : parsed.report.errorCount = 0) (base : Nat) {loop : Place}
    (within : loop.Within (root parsed.tree base)) :
    (loop.isA .forInStmt = true → ∃ forWord doWord, loop.RunsOver forWord doWord)
      ∧ (loop.isA .forStmt = true → ∃ opening closing, loop.Counts opening closing) := by
  have proper := (rooted_of_parseText parses base).proper.of_within within
  have formed := formed_of_within (formed_of_parseText parses) within
  constructor
  · intro isLoop
    exact exists_runsOver proper formed spotless (beq_iff_eq.mp isLoop)
  · intro isLoop
    exact exists_counts proper formed spotless (beq_iff_eq.mp isLoop)

/-- An empty clause keeps its semicolon to itself, so what stands after the second one is taken for the condition; and a step is taken for the item. -/
theorem parseText_headers_empty :
    (∃ parsed, ∃ loop condition : Place, parseText "for (;;b) x" = .ok parsed
      ∧ (∃ opening closing, loop.Counts opening closing
        ∧ (loop.clauseMarks opening closing).map Place.start = [4, 6, 8])
      ∧ loop.clause? 1 = some condition ∧ condition.start = 7 ∧ loop.clause? 2 = none)
    ∧ ∃ parsed, ∃ loop item : Place, parseText "for by x do y" = .ok parsed
      ∧ (∃ forWord doWord, loop.RunsOver forWord doWord)
      ∧ loop.tokenOf? [.keyword .inWord] = none ∧ loop.contentOf? 0 = some item
      ∧ loop.contentAfter? (.keyword .byWord) = some item := by
  constructor
  · have passes : (parseText "for (;;b) x").toOption.any (fun parsed =>
        parsed.report.errorCount == 0 && (root parsed.tree 0).elements.any fun loop =>
          loop.isA .forStmt && (loop.clause? 1).any (·.start == 7) && (loop.clause? 2).isNone
            && (loop.tokenOf? [.sign .leftParen]).any fun opening =>
              (loop.tokenOf? [.sign .rightParen]).any fun closing =>
                (loop.clauseMarks opening closing).map Place.start == [4, 6, 8]) = true := by
      decide +kernel
    obtain ⟨parsed, parses, passes⟩ := exists_ok_of_any passes
    simp only [Bool.and_eq_true, beq_iff_eq, List.any_eq_true, Option.any_eq_true,
      Option.isNone_iff_eq_none] at passes
    obtain ⟨spotless, loop, among, ⟨⟨isLoop, condition, found, start⟩, noOther⟩, opening, opens,
      closing, closes, marks⟩ := passes
    obtain ⟨one, other, counts⟩ :=
      (parseText_headers parses spotless 0 (mem_elements_iff.mp among)).2 isLoop
    cases counts.opens.symm.trans opens
    cases counts.closes.symm.trans closes
    exact ⟨parsed, loop, condition, parses, ⟨_, _, counts, marks⟩, found, start, noOther⟩
  · have passes : (parseText "for by x do y").toOption.any (fun parsed =>
        parsed.report.errorCount == 0 && (root parsed.tree 0).elements.any fun loop =>
          loop.isA .forInStmt && (loop.tokenOf? [.keyword .inWord]).isNone
            && (loop.contentAfter? (.keyword .byWord)).isSome) = true := by decide +kernel
    obtain ⟨parsed, parses, passes⟩ := exists_ok_of_any passes
    simp only [Bool.and_eq_true, beq_iff_eq, List.any_eq_true, Option.isNone_iff_eq_none,
      Option.isSome_iff_exists] at passes
    obtain ⟨spotless, loop, among, ⟨isLoop, noWord⟩, item, found⟩ := passes
    obtain ⟨forWord, doWord, runs⟩ :=
      (parseText_headers parses spotless 0 (mem_elements_iff.mp among)).1 isLoop
    refine ⟨parsed, loop, item, parses, ⟨forWord, doWord, runs⟩, noWord, ?_, found⟩
    -- The item is that of the first statement after one of the two words, which is the step.
    obtain ⟨step, after, content⟩ := exists_of_contentAfter? found
    rw [runs.itemTaken noWord, after]
    exact content

end Dxl
