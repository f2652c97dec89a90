import Dxl.Proofs.Grammar.Likeness
import Dxl.Proofs.Parse.Safety

/-! Trivia: what a source text is parsed to depends on nothing but the kinds of its proper tokens and on which of them name types. -/

namespace Dxl

/-- Two results of parsing have the same tree up to trivia and texts, and the same remarks at corresponding tokens. -/
def Parsed.Matches (pairs : List (Token × Token)) (parsed counterpart : Parsed) : Prop :=
  parsed.tree.skeleton = counterpart.tree.skeleton
    ∧ List.Forall₂ (Remark.Corresponds pairs) parsed.report.remarks counterpart.report.remarks

namespace Growth

variable {pairs : List (Token × Token)}

/-- Nothing has been grown on either side when the tokens begin. -/
theorem alike_initial {tokens others : List Token} (same : symbols tokens = symbols others)
    (adjoining : Adjoining 0 tokens) (adjoiningOther : Adjoining 0 others) :
    Alike ((properTokens tokens).zip (properTokens others)) (initial tokens) (initial others) :=
  ⟨rfl, same, List.suffix_refl _, rfl, .nil, adjoining, adjoiningOther⟩

/-- Roots match that are made of what is alike. -/
theorem Alike.finish {growth other : Growth} (alike : Alike pairs growth other) :
    Concur (Parsed.Matches pairs) growth.finish other.finish := by
  have settled := alike.eatTrivia
  unfold Growth.finish
  -- Where a root cannot be made, the failure is not that of a stuck parser.
  split
  · exact .leftFails (by simp)
  · split
    · split
      · exact .rightFails (by simp)
      · split
        · refine .ok ⟨?_, settled.remarks⟩
          rw [Tree.skeleton_node, Tree.skeleton_node, Tree.skeletons_reverse,
            Tree.skeletons_reverse, settled.skeletons]
        · exact .rightFails (by simp)
    · exact .leftFails (by simp)

end Growth

/-- Tokens that the grammar cannot tell apart grow to trees that match. -/
theorem growWithin_concur (limit : Option Nat) {tokens others : List Token}
    (same : symbols tokens = symbols others) (adjoining : Adjoining 0 tokens)
    (adjoiningOther : Adjoining 0 others) :
    Concur (Parsed.Matches ((properTokens tokens).zip (properTokens others)))
      (growWithin limit tokens) (growWithin limit others) := by
  rw [growWithin_eq, growWithin_eq]
  have program := Rule.program.grow_concur limit (Rule.depthFor tokens.length)
    (Rule.depthFor others.length) (Growth.alike_initial same adjoining adjoiningOther)
  exact program.bind fun _ _ alike => alike.finish

/-- Parsing a source text fails only because it is stuck. -/
theorem stuck_of_parseText {text : String} {failure : Failure}
    (fails : parseText text = .error failure) : ∃ kind, failure = .stuck kind := by
  rcases parseText_outcome text with ⟨parsed, parses, -⟩ | ⟨kind, stuck⟩
  · rw [fails] at parses
    cases parses
  · rw [fails] at stuck
    cases stuck
    exact ⟨kind, rfl⟩

/-- Source texts whose proper tokens agree in kind and in whether they name types are parsed alike: both parses are stuck at a token of the same kind, or both give trees that are equal up to trivia and texts, with the same remarks at corresponding proper tokens. -/
theorem parseText_alike {text other : String}
    (same : symbols (tokenize text) = symbols (tokenize other)) :
    (∃ failure, parseText text = .error failure ∧ parseText other = .error failure)
      ∨ ∃ parsed counterpart, parseText text = .ok parsed ∧ parseText other = .ok counterpart
        ∧ parsed.tree.skeleton = counterpart.tree.skeleton
        ∧ List.Forall₂ (Remark.Corresponds
            ((properTokens (tokenize text)).zip (properTokens (tokenize other))))
          parsed.report.remarks counterpart.report.remarks := by
  have concur := growWithin_concur (some lookLimit) same (adjoining_tokensFrom false 0 text.toList)
    (adjoining_tokensFrom false 0 other.toList)
  rw [← parseWithin_eq_growWithin, ← parseWithin_eq_growWithin] at concur
  exact concur.outcomes (fun _ => stuck_of_parseText) fun _ => stuck_of_parseText

/-- A comment and longer names do not change what is made of an assignment, nor what is said of the bracket in place of its value. -/
theorem parseText_alike_commented :
    ∃ parsed counterpart, parseText "a = )" = .ok parsed
      ∧ parseText "bc /* d */ =  )" = .ok counterpart
      ∧ parsed.tree.skeleton = counterpart.tree.skeleton
      ∧ parsed.report.remarks.map Remark.message = counterpart.report.remarks.map Remark.message
      ∧ parsed.report.remarks.map Remark.offset = [4]
      ∧ counterpart.report.remarks.map Remark.offset = [14] := by
  have same : symbols (tokenize "a = )") = symbols (tokenize "bc /* d */ =  )") := by decide +kernel
  have remarked : (parseText "a = )").toOption.any
      (fun parsed => parsed.report.remarks.map Remark.offset == [4]) = true := by decide +kernel
  have remarkedOther : (parseText "bc /* d */ =  )").toOption.any
      (fun parsed => parsed.report.remarks.map Remark.offset == [14]) = true := by decide +kernel
  rcases parseText_alike same with ⟨failure, fails, -⟩ | ⟨parsed, counterpart, parses, parsesOther,
    trees, remarks⟩
  · simp [fails, Except.toOption] at remarked
  · simp only [parses, Except.toOption, Option.any_some, beq_iff_eq] at remarked
    simp only [parsesOther, Except.toOption, Option.any_some, beq_iff_eq] at remarkedOther
    have messages : List.Forall₂ (· = ·) (parsed.report.remarks.map Remark.message)
        (counterpart.report.remarks.map Remark.message) := by
      rw [List.forall₂_map_left_iff, List.forall₂_map_right_iff]
      exact remarks.imp fun _ _ corresponds => corresponds.message
    rw [List.forall₂_eq_eq_eq] at messages
    exact ⟨parsed, counterpart, parses, parsesOther, trees, messages, remarked, remarkedOther⟩

end Dxl
