import Dxl.Proofs.Parse.Names
import Dxl.Proofs.View.Nesting

/-! Nesting in the outline of a source text. -/

namespace Dxl

open Place

/-- Every source text has an outline, and each of its lines is indented deeper than the line of the view it belongs to just if no object of a property access in it has a line of its own. -/
theorem parseText_outline_nested_iff {text : String} {parsed : Parsed}
    (parses : parseText text = .ok parsed) :
    let top := Entry.first (root parsed.tree 0)
    (root parsed.tree 0).outline? = some (String.join (top.marks.map Mark.render))
      ∧ ((∀ outer inner, .line outer inner ∈ top.marks → outer < inner)
        ↔ ∀ access, top.Prints access → access.view.isA .property = true →
          ∀ object, access.view.expression? 0 = some object → object.IsFlat) := by
  intro top
  have isRoot := (rooted_of_parseText parses 0).isRoot
  constructor
  · -- A root is viewed as a statement, so it has an outline, which the marks spell.
    have statement : (root parsed.tree 0).isStatement = true := by
      rw [isStatement, isRoot]
      rfl
    rw [outline?, statement, Bool.true_or, if_pos rfl, Entry.join_marks]
    rfl
  · exact Entry.nested_first_iff isRoot

/-- The object of a property access in parentheses has a line of its own, which is not indented as deep as the line of the access. -/
theorem parseText_outline_unnested :
    ∃ parsed, parseText "(a).b" = .ok parsed
      ∧ (root parsed.tree 0).outline?
        = some "Root\n  StmtExpr\n    ExprGet, ExprGrouping\n  ExprNameRef, a\n      ExprNameRef, b"
      ∧ ∃ access, (Entry.first (root parsed.tree 0)).Prints access
        ∧ access.view.isA .property = true
        ∧ ∃ object, access.view.expression? 0 = some object ∧ ¬ object.IsFlat := by
  have passes : (parseText "(a).b").toOption.any (fun parsed =>
      (root parsed.tree 0).outline?
          == some "Root\n  StmtExpr\n    ExprGet, ExprGrouping\n  ExprNameRef, a\n      ExprNameRef, b"
        && decide (.line 2 1 ∈ (Entry.first (root parsed.tree 0)).marks)) = true := by
    decide +kernel
  obtain ⟨parsed, parses, passes⟩ := exists_ok_of_any passes
  simp only [Bool.and_eq_true, beq_iff_eq, decide_eq_true_eq] at passes
  obtain ⟨written, among⟩ := passes
  refine ⟨parsed, parses, written, by_contra fun none => ?_⟩
  -- The line of the name in the parentheses is one level deep, and that of the access two.
  have deeper := (parseText_outline_nested_iff parses).2.mpr
    fun access prints property object found =>
      by_contra fun hasLine => none ⟨access, prints, property, object, found, hasLine⟩
  exact absurd (deeper 2 1 among) (by decide)

end Dxl
