import Dxl.Proofs.Parse.Forms
import Dxl.Proofs.Parse.Names
import Dxl.Proofs.Place.Ranges
import Dxl.Proofs.View.Coverage

/-! Highlighting: which names and literals of a source text stand out. -/

namespace Dxl

open Place

/-- Without errors, a name or a literal stands out just if it is within nothing that is passed over. -/
theorem parseText_standsOut_iff {text : String} {parsed : Parsed}
    (parses : parseText text = .ok parsed) (clean : parsed.report.errorCount = 0)
    {place token : Place} (member : place ∈ (root parsed.tree 0).elements)
    (denotes : place.Denotes token) :
    token.StandsOut (Highlights.ofPlace (root parsed.tree 0)).tokens
      ↔ ∀ outer ∈ (root parsed.tree 0).elements, ∀ inner ∈ outer.passedOver,
        ¬ place.Within inner := by
  obtain ⟨-, isRoot, proper⟩ := rooted_of_parseText parses 0
  have formed := formed_of_parseText parses
  have inside := mem_elements_iff.mp member
  have same : token.StandsOut (Highlights.ofPlace (root parsed.tree 0)).tokens
      ↔ token.StandsOut (root parsed.tree 0).highlights :=
    exists_congr fun _ =>
      and_congr_left fun _ => (perm_highlights (isStatement_of_kind isRoot)).mem_iff
  rw [same]
  constructor
  · intro standsOut outer around inner passed within
    exact not_standsOut_of_passedOver proper formed inside denotes (mem_elements_iff.mp around) passed
      within standsOut
  · intro kept
    exact standsOut_of_kept proper formed clean inside denotes fun middle around =>
      kept middle (mem_elements_iff.mpr around)

/-- A name among the items of an array does not stand out. -/
theorem parseText_standsOut_item :
    ∃ parsed, parseText "int a[] = {b}" = .ok parsed ∧ parsed.report.errorCount = 0
      ∧ ∃ place ∈ (root parsed.tree 0).elements, ∃ token, place.Denotes token ∧ token.start = 11
        ∧ ¬ token.StandsOut (Highlights.ofPlace (root parsed.tree 0)).tokens := by
  have found : (parseText "int a[] = {b}").toOption.any (fun parsed =>
      parsed.report.errorCount == 0 && (root parsed.tree 0).elements.any fun outer =>
        outer.passedOver.any fun inner => inner.elements.any fun place =>
          place.isA .nameRef && place.tokens.any fun token =>
            !token.kind.passes TokenKind.isTrivia && token.start == 11) = true := by
    decide +kernel
  obtain ⟨parsed, parses, found⟩ := exists_ok_of_any found
  simp only [Bool.and_eq_true, beq_iff_eq, List.any_eq_true, Bool.not_eq_true'] at found
  obtain ⟨clean, outer, around, inner, passed, place, within, isName, token, among, significant,
    starts⟩ := found
  have within := mem_elements_iff.mp within
  have inOuter : inner.Within outer :=
    .of_mem_children (List.mem_filter.mp (mem_nodes_of_mem_passedOver passed)).1
  have member : place ∈ (root parsed.tree 0).elements :=
    mem_elements_iff.mpr ((within.trans inOuter).trans (mem_elements_iff.mp around))
  have denotes : place.Denotes token := ⟨among, .inl ⟨isName, significant⟩⟩
  exact ⟨parsed, parses, clean, place, member, token, denotes, starts, fun standsOut =>
    (parseText_standsOut_iff parses clean member denotes).mp standsOut outer around inner passed
      within⟩

end Dxl
