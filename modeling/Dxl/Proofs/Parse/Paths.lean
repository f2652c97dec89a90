import Dxl.Proofs.Parse.Forms
import Dxl.Proofs.Parse.Names
import Dxl.Proofs.View.Path

/-! Paths: what the paths of inclusions in a source text have to do with what is written there. -/

namespace Dxl

open Form Place

variable {text : String} {parsed : Parsed} {base : Nat}

/-- A string in a source text is quoted. -/
theorem isQuoted_of_parseText (parses : parseText text = .ok parsed) {string : Place}
    (within : string.Within (root parsed.tree base)) (isString : string.kind = .token .string) :
    IsQuoted string.text := by
  obtain ⟨tokens, stop, -, scanned, -, -, -, leaves, -⟩ := root_of_parseText parses
  obtain ⟨before, after, whole, -⟩ := within.exists_leaves
  have formed := formed_of_within (formed_of_parseText parses) within
  obtain ⟨tree, start, above⟩ := string
  cases formed with
  | node => cases isString
  | leaf kind written =>
    obtain rfl : kind = .string := Kind.token.inj isString
    -- The leaves of the tree are the scanned tokens.
    have among : (Kind.token .string, written) ∈ tokens.map Token.entry := by
      rw [← leaves, show parsed.tree.leaves = _ from whole]
      simp
    obtain ⟨token, member, same⟩ := List.mem_map.mp among
    obtain ⟨isKind, rfl⟩ := Prod.mk.inj same
    have inside : token ∈ tokenize text := by simp [scanned, member]
    exact isQuoted_of_mem_tokenize inside (Kind.token.inj isKind)

/-- Without errors, the path of an inclusion is the text between its angle brackets except for trivia, or what its string holds between the quote marks except for a quote mark at the end of a string that is not closed. -/
theorem parseText_includedPath (parses : parseText text = .ok parsed)
    (spotless : parsed.report.errorCount = 0) (base : Nat) {place : Place}
    (within : place.Within (root parsed.tree base)) (isInclude : place.isA .includeStmt = true) :
    place.Brackets text base ∨ place.Quotes := by
  have proper := (rooted_of_parseText parses base).proper.of_within within
  have formed := formed_of_within (formed_of_parseText parses) within
  have forms : Include (parsed.report.errorCount = 0) _ :=
    forms_of_kind formed (beq_iff_eq.mp isInclude)
  generalize same : Tree.constituents place.tree.children = constituents at forms
  -- Without errors, neither the closing bracket nor the string is left out.
  cases forms with
  | bracketed areParts closes =>
    cases closes with
    | absent flawed => exact absurd spotless flawed
    | present =>
      rw [← text_of_parseText parses]
      exact .inl (brackets_of_constituents proper formed within areParts same)
  | quoted isPath =>
    cases isPath with
    | absent flawed => exact absurd spotless flawed
    | present =>
      refine .inr (quotes_of_constituents formed (fun string member isString => ?_) same)
      exact isQuoted_of_parseText parses ((Within.of_mem_children member).trans within) isString

/-- A blank in a path between angle brackets is lost, and so is another quote mark at the end of a string that is not closed. -/
theorem parseText_includedPath_marred :
    (∃ parsed, ∃ place : Place, parseText "#include <my file.inc>" = .ok parsed
        ∧ place.Within (root parsed.tree 0) ∧ place.includedPath = "myfile.inc"
        ∧ (place.Brackets "#include <my file.inc>" 0 ∨ place.Quotes))
      ∧ ∃ parsed, ∃ place : Place, parseText "#include \"abc'" = .ok parsed
        ∧ place.Within (root parsed.tree 0) ∧ place.includedPath = "abc"
        ∧ (place.Brackets "#include \"abc'" 0 ∨ place.Quotes) := by
  have passes (source path : String) (test : (parseText source).toOption.any (fun parsed =>
      parsed.report.errorCount == 0 && (root parsed.tree 0).elements.any fun place =>
        place.isA .includeStmt && place.includedPath == path) = true) :
      ∃ parsed, ∃ place : Place, parseText source = .ok parsed
        ∧ place.Within (root parsed.tree 0) ∧ place.includedPath = path
        ∧ (place.Brackets source 0 ∨ place.Quotes) := by
    obtain ⟨parsed, parses, passes⟩ := exists_ok_of_any test
    simp only [Bool.and_eq_true, beq_iff_eq, List.any_eq_true] at passes
    obtain ⟨spotless, place, among, isInclude, isPath⟩ := passes
    have within := mem_elements_iff.mp among
    exact ⟨parsed, place, parses, within, isPath,
      parseText_includedPath parses spotless 0 within isInclude⟩
  exact ⟨passes _ _ (by decide +kernel), passes _ _ (by decide +kernel)⟩

end Dxl
