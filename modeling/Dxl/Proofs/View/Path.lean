import Dxl.Proofs.Form.Clause
import Dxl.Proofs.Place.Neighbours
import Dxl.Proofs.Token.Quotation

/-! Paths: what the path of an inclusion keeps of what is written between its brackets or quote marks. -/

namespace Dxl

section

variable {α : Type} {write : α → String} {test : α → Bool} {items : List α}

/-- Texts do not become longer by leaving some of them out. -/
theorem utf8ByteSize_join_filter_le :
    (String.join ((items.filter test).map write)).utf8ByteSize
      ≤ (String.join (items.map write)).utf8ByteSize := by
  -- Whether the first text is left out or not, the others do not become longer.
  induction items with
  | nil => exact Nat.le_refl _
  | cons item rest ih =>
    rw [List.filter_cons, List.map_cons, String.join_cons, String.utf8ByteSize_append]
    split
    · rw [List.map_cons, String.join_cons, String.utf8ByteSize_append]
      omega
    · omega

/-- If no text is empty, texts stay the same together only if none of them is left out. -/
theorem join_filter_eq_iff (solid : ∀ item ∈ items, write item ≠ "") :
    String.join ((items.filter test).map write) = String.join (items.map write)
      ↔ ∀ item ∈ items, test item = true := by
  refine ⟨fun same => ?_, fun all => by rw [List.filter_eq_self.mpr all]⟩
  induction items with
  | nil => exact nofun
  | cons item rest ih =>
    cases passes : test item with
    | true =>
      rw [List.filter_cons_of_pos passes, List.map_cons, List.map_cons, String.join_cons,
        String.join_cons, String.append_right_inj] at same
      have others := ih (fun other member => solid other (List.mem_cons_of_mem item member)) same
      exact List.forall_mem_cons.mpr ⟨passes, others⟩
    | false =>
      -- The text that is left out is missing in the whole.
      have shorter := @utf8ByteSize_join_filter_le α write test rest
      have size := congrArg String.utf8ByteSize same
      rw [List.filter_cons_of_neg (by simp [passes]), List.map_cons, String.join_cons,
        String.utf8ByteSize_append] at size
      have length : 0 < (write item).utf8ByteSize :=
        Nat.pos_of_ne_zero fun none =>
          solid item List.mem_cons_self (String.utf8ByteSize_eq_zero_iff.mp none)
      omega

/-- What lies between two items that pass a test among others that do lies between them among all items. -/
theorem exists_between_of_filter {front inner rest : List α} {opening closing : α}
    (split : items.filter test = front ++ opening :: (inner ++ closing :: rest)) :
    ∃ before between after, items = before ++ opening :: (between ++ closing :: after)
      ∧ between.filter test = inner := by
  -- The items fall apart as those that pass the test do, with others around each of them.
  obtain ⟨left, others, rfl, -, split⟩ := List.filter_eq_append_iff.mp split
  obtain ⟨ahead, others, rfl, -, -, split⟩ := List.filter_eq_cons_iff.mp split
  obtain ⟨between, others, rfl, kept, split⟩ := List.filter_eq_append_iff.mp split
  obtain ⟨dropped, after, rfl, fails, -, -⟩ := List.filter_eq_cons_iff.mp split
  refine ⟨left ++ ahead, between ++ dropped, after, by simp, ?_⟩
  rw [List.filter_append, kept, List.filter_eq_nil_iff.mpr fails, List.append_nil]

end

namespace Place

open Form

/-- Whether a token carries meaning. -/
def isSignificant (place : Place) : Bool :=
  !place.kind.passes TokenKind.isTrivia

/-- A path between angle brackets is put together of those tokens between them that carry meaning, so that it is the text between them just if all of them do. -/
def Brackets (text : String) (base : Nat) (place : Place) : Prop :=
  ∃ before opening between closing after,
    place.children = before ++ opening :: (between ++ closing :: after)
      ∧ place.tokenOf? [.sign .less] = some opening
      ∧ place.tokenOf? [.sign .greater] = some closing
      ∧ (∃ (opens : (String.Pos.Raw.mk (opening.stop - base)).IsValid text)
          (closes : (String.Pos.Raw.mk (closing.start - base)).IsValid text),
          text.extract ⟨⟨opening.stop - base⟩, opens⟩ ⟨⟨closing.start - base⟩, closes⟩
            = String.join (between.map Place.text))
      ∧ place.includedPath = String.join ((between.filter isSignificant).map Place.text)
      ∧ (place.includedPath = String.join (between.map Place.text)
          ↔ ∀ token ∈ between, token.isSignificant = true)

/-- A path that is a string is what the string holds between its marks, but for a quote mark at the end if it is not closed. -/
def Quotes (place : Place) : Prop :=
  ∃ string mark body, place.tokenOf? [.string] = some string
    ∧ string.text = String.ofList (mark :: body) ∧ isQuoteMark mark = true
    ∧ place.includedPath = String.ofList (if (quotedContents mark body).2
        then (quotedContents mark body).1 else trimQuote (quotedContents mark body).1)
    ∧ (place.includedPath = String.ofList (quotedContents mark body).1
        ↔ (quotedContents mark body).2 = true
          ∨ (quotedContents mark body).1.getLast?.any isQuoteMark = false)

variable {place : Place} {clean : Prop}

/-- Where only tokens carry meaning, all children are tokens. -/
theorem isToken_of_mem_children (formed : place.tree.Formed clean)
    (only : ∀ part ∈ Tree.constituents place.tree.children, ∃ kind, part = .token kind)
    {child : Place} (member : child ∈ place.children) : child.isToken = true := by
  by_cases carries : child.isSignificant = true
  · have among : child ∈ place.significant := List.mem_filter.mpr ⟨member, carries⟩
    -- What carries meaning is one of the tokens that the place is put together of.
    obtain ⟨part, inside, same⟩ := exists_matches (forall₂_significant formed) among
    obtain ⟨kind, rfl⟩ := only part inside
    exact same.2
  · have above : child.above ≠ [] := by simp [above_of_mem_row member]
    have formedChild := formed_of_mem_children formed member
    obtain ⟨tree, start, above⟩ := child
    -- No node is trivia.
    cases formedChild with
    | leaf => simpa [isToken, Tree.isLeaf] using above
    | node => simp [isSignificant, Place.kind, Tree.kind, Kind.passes] at carries

/-- Where all children are tokens, a path begins with the first string or bracket that carries meaning. -/
theorem includedPath_eq (tokens : ∀ child ∈ place.children, child.isToken = true)
    {keyword first : Place} {rest : List Place}
    (split : place.significant = keyword :: first :: rest)
    (isKeyword : keyword.kind = .token (.keyword .includeWord))
    (begins : first.kind = .token .string ∨ first.kind = .token (.sign .less)) :
    place.includedPath = if first.kind == .token .string then unquote first.text
      else String.join
        ((rest.takeWhile fun token => token.kind != .token (.sign .greater)).map text) := by
  have all : place.tokens = place.children := List.filter_eq_self.mpr tokens
  have written : place.tokens.filter (fun token => !token.kind.passes TokenKind.isTrivia)
      = keyword :: first :: rest := by
    rw [all, ← split]
    rfl
  -- The keyword is passed over, and the next token decides on the form.
  rw [includedPath, written]
  rcases begins with begins | begins <;> simp [isKeyword, begins]

/-- The tokens that a path in angle brackets is put together of. -/
def ArePathParts (parts : List Constituent) : Prop :=
  ∀ part ∈ parts, ∃ kind, part = .token kind
    ∧ kind ∈ [TokenKind.name, .sign .backslash, .sign .slash, .sign .dot]

/-- Where a path in angle brackets is put together as it has to be, its parts stand between the brackets. -/
theorem exists_bracketed (formed : place.tree.Formed clean) {parts : List Constituent}
    (areParts : ArePathParts parts)
    (same : Tree.constituents place.tree.children
      = .token (.keyword .includeWord) :: .token (.sign .less)
        :: (parts ++ [.token (.sign .greater)])) :
    ∃ keyword opening named closing, place.significant = keyword :: opening :: (named ++ [closing])
      ∧ keyword.kind = .token (.keyword .includeWord) ∧ opening.kind = .token (.sign .less)
      ∧ closing.kind = .token (.sign .greater)
      ∧ ∀ child ∈ named, child.kind ≠ .token (.sign .greater) := by
  have matched := forall₂_significant formed
  rw [same] at matched
  obtain ⟨keyword, others, isKeyword, behind, split⟩ := List.forall₂_cons_right_iff.mp matched
  obtain ⟨opening, inner, isOpening, inside, rfl⟩ := List.forall₂_cons_right_iff.mp behind
  obtain ⟨named, last, rfl, areNamed, isLast⟩ := exists_append_of_forall₂ inside
  obtain ⟨closing, rest, isClosing, isRest, rfl⟩ := List.forall₂_cons_right_iff.mp isLast
  cases isRest
  refine ⟨keyword, opening, named, closing, split, isKeyword.1, isOpening.1, isClosing.1, ?_⟩
  -- The parts of a path are names, slashes and dots, none of which is a bracket.
  intro child member isBracket
  obtain ⟨part, among, same⟩ := exists_matches areNamed member
  obtain ⟨kind, rfl, isPart⟩ := areParts part among
  cases same.1.symm.trans isBracket
  simp at isPart

/-- An inclusion in angle brackets keeps of its path what carries meaning. -/
theorem brackets_of_constituents (proper : place.Proper) (formed : place.tree.Formed clean)
    {tree : Tree} {base : Nat} (within : place.Within (root tree base)) {parts : List Constituent}
    (areParts : ArePathParts parts)
    (same : Tree.constituents place.tree.children
      = .token (.keyword .includeWord) :: .token (.sign .less)
        :: (parts ++ [.token (.sign .greater)])) :
    place.Brackets tree.text base := by
  have only : ∀ part ∈ Tree.constituents place.tree.children, ∃ kind, part = .token kind := by
    simp only [same, List.mem_cons, List.mem_append, List.not_mem_nil, or_false]
    rintro part (rfl | rfl | among | rfl)
    · exact ⟨_, rfl⟩
    · exact ⟨_, rfl⟩
    · obtain ⟨kind, rfl, -⟩ := areParts part among
      exact ⟨kind, rfl⟩
    · exact ⟨_, rfl⟩
  have tokens (child : Place) (member : child ∈ place.children) : child.isToken = true :=
    isToken_of_mem_children formed only member
  obtain ⟨keyword, opening, named, closing, split, isKeyword, isOpening, isClosing, noBracket⟩ :=
    exists_bracketed formed areParts same
  have front : place.significant = [keyword] ++ opening :: (named ++ closing :: []) := split
  have back : place.significant = (keyword :: opening :: named) ++ closing :: [] := split
  obtain ⟨before, between, after, children, kept⟩ := exists_between_of_filter front
  have inner (child : Place) (member : child ∈ between) : child ∈ place.children := by
    simp [children, member]
  -- The parts end at the closing bracket, which none of them is.
  have path : place.includedPath = String.join ((between.filter isSignificant).map Place.text) := by
    rw [includedPath_eq tokens split isKeyword (.inr isOpening), isOpening, if_neg (by decide),
      List.takeWhile_append_of_pos (by simpa using noBracket),
      List.takeWhile_cons_of_neg (by simp [isClosing]), List.append_nil, ← kept]
    rfl
  refine ⟨before, opening, between, closing, after, children,
    tokenOf?_of_split formed front isOpening (by simp [isKeyword]),
    tokenOf?_of_split formed back isClosing ?_, ?_, path, ?_⟩
  · simpa [isKeyword, isOpening] using noBracket
  · rw [← map_leavesOf fun token member => tokens token (inner token member)]
    exact within.exists_extract children
  · rw [path]
    exact join_filter_eq_iff fun token member =>
      (proper.of_mem_children (inner token member)).text_ne_empty (tokens token (inner token member))

/-- An inclusion of a string keeps of its path what stands between the quote marks, but for a quote mark at the end if the string is not closed. -/
theorem quotes_of_constituents (formed : place.tree.Formed clean)
    (quoted : ∀ string ∈ place.children, string.kind = .token .string → IsQuoted string.text)
    (same : Tree.constituents place.tree.children
      = [.token (.keyword .includeWord), .token .string]) :
    place.Quotes := by
  have only : ∀ part ∈ Tree.constituents place.tree.children, ∃ kind, part = .token kind := by
    simp [same]
  have tokens (child : Place) (member : child ∈ place.children) : child.isToken = true :=
    isToken_of_mem_children formed only member
  have matched := forall₂_significant formed
  rw [same] at matched
  obtain ⟨keyword, others, isKeyword, behind, split⟩ := List.forall₂_cons_right_iff.mp matched
  obtain ⟨string, rest, isString, isRest, rfl⟩ := List.forall₂_cons_right_iff.mp behind
  cases isRest
  have parted : place.significant = [keyword] ++ string :: [] := split
  have among : string ∈ place.significant := by simp [split]
  obtain ⟨mark, body, spelled, isMark, whole⟩ :=
    quoted string (List.mem_filter.mp among).1 isString.1
  have path : place.includedPath = String.ofList (if (quotedContents mark body).2
      then (quotedContents mark body).1 else trimQuote (quotedContents mark body).1) := by
    rw [includedPath_eq tokens split isKeyword.1 (.inl isString.1), isString.1,
      if_pos (by decide), spelled, unquote_quoted isMark whole]
  refine ⟨string, mark, body,
    tokenOf?_of_split formed parted isString.1 (by simp [isKeyword.1]), spelled, isMark, path, ?_⟩
  -- A closed string is kept, and trimming decides on any other.
  rw [path, String.ofList_inj, ← trimQuote_eq_self_iff]
  cases (quotedContents mark body).2 <;> simp

end Place

end Dxl
