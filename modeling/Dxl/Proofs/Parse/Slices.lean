import Dxl.Proofs.Form.Clause
import Dxl.Proofs.Form.Slicing
import Dxl.Proofs.Parse.Juxtaposition
import Dxl.Proofs.Parse.Names

/-! Slices: which bounds an index finds, and which ones the range between its brackets takes. -/

namespace Dxl

open Form Place

namespace Form

variable {clean : Prop} {constituents : List Constituent}

/-- What stands between the bracket of an index and its operand: nothing, or a colon that at most an empty operand comes before. -/
inductive Lead : List Constituent → Prop
  | none : Lead []
  | colon : Lead [.token (.sign .colon)]
  | empty : Lead [.token (.sign .semicolon), .token (.sign .colon)]

/-- After the bracket of an index that is the first one, what is put together there is known. -/
theorem exists_of_sliced {kind : NodeKind} {first : Option TokenKind} {inner : List Constituent}
    (sliced : Sliced (.node kind first :: .token (.sign .leftBracket) :: inner))
    (once : .token (.sign .leftBracket) ∉ inner) :
    .token (.sign .colon) ∉ inner ∨ ∃ lower upper, inner = lower ++ .token (.sign .colon) :: upper
      ∧ ∀ kind first, .node kind first ∈ lower → kind.isOperand = false := by
  -- Only the operand comes before the bracket.
  have cancel {outer rest : List Constituent}
      (same : .node kind first :: .token (.sign .leftBracket) :: inner
        = outer ++ .token (.sign .leftBracket) :: rest) : inner = rest := by
    rcases List.append_eq_cons_iff.mp same.symm with ⟨-, wrong⟩ | ⟨outer, -, same⟩
    · cases wrong
    · rcases List.append_eq_cons_iff.mp same.symm with ⟨-, same⟩ | ⟨outer, -, same⟩
      · exact (List.cons.inj same).2.symm
      · exact absurd (by simp [same]) once
  generalize whole : .node kind first :: .token (.sign .leftBracket) :: inner = constituents
    at sliced
  -- Both ways of being sliced are about the first bracket, which is this one.
  cases sliced with
  | whole none =>
    obtain rfl := cancel whole
    exact .inl none
  | slice foreign =>
    obtain rfl := cancel whole
    exact .inr ⟨_, _, rfl, foreign⟩

/-- Without errors, an index that is sliced holds one operand at most between its brackets. -/
theorem exists_lead_of_index (index : Index clean constituents) (sliced : Sliced constituents)
    (spotless : clean) :
    ∃ kind first lead operand, NodeKind.isOperand kind = true ∧ Lead lead ∧ Operand clean operand
      ∧ constituents = .node kind first :: .token (.sign .leftBracket)
        :: (lead ++ operand ++ [.token (.sign .rightBracket)]) := by
  obtain @⟨kind, operand, slice, close, first, isOperand, inner, upper, closes⟩ := index
  -- Without errors, the closing bracket is there.
  obtain rfl : close = [.token (.sign .rightBracket)] := by
    cases closes with
    | present => rfl
    | absent flawed => exact absurd spotless flawed
  cases upper with
  | absent => exact ⟨kind, first, [], operand, isOperand, .none, inner, by simp⟩
  | @given upper isUpper =>
    have noColon : .token (.sign .colon) ∉ operand := fun member => by
      cases eq_semicolon_of_operand inner member
    have rest {sign : Sign}
        (member : .token (.sign sign) ∈ upper ++ [.token (.sign .rightBracket)]) :
        sign = .semicolon ∨ sign = .rightBracket := by
      simp only [List.mem_append, List.mem_singleton, Constituent.token.injEq,
        TokenKind.sign.injEq] at member
      exact member.imp (fun among => TokenKind.sign.inj (eq_semicolon_of_operand isUpper among)) id
    -- Neither operand holds a bracket of its own constituents.
    have once : Constituent.token (.sign .leftBracket)
        ∉ operand ++ .token (.sign .colon) :: (upper ++ [.token (.sign .rightBracket)]) := by
      intro member
      rcases List.mem_append.mp member with among | among
      · cases eq_semicolon_of_operand inner among
      · rcases List.mem_cons.mp among with same | among
        · cases same
        · rcases rest among with same | same <;> cases same
    -- The colon of the index is the only one, so that no operand comes before it.
    have foreign : ∀ kind first, .node kind first ∈ operand → kind.isOperand = false := by
      rw [List.append_assoc, List.cons_append] at sliced
      obtain none | ⟨lower, further, same, foreign⟩ := exists_of_sliced sliced once
      · simp at none
      · have unique : .token (.sign .colon) ∉ upper ++ [.token (.sign .rightBracket)] :=
          fun among => by rcases rest among with same | same <;> cases same
        obtain ⟨rfl, -, -⟩ := (List.append_cons_inj_of_notMem noColon unique).mp same
        exact foreign
    -- An operand before the colon would begin with a node for an operand.
    cases inner with
    | missing => exact ⟨kind, first, _, upper, isOperand, .colon, isUpper, by simp⟩
    | empty => exact ⟨kind, first, _, upper, isOperand, .empty, isUpper, by simp⟩
    | skipped _ flawed => exact absurd spotless flawed
    | chain _ chain =>
      obtain ⟨begins, -⟩ := chain
      rw [foreign _ _ List.mem_cons_self] at begins
      cases begins

end Form

namespace Place

/-- An index looks for its bounds behind its bracket and behind any colon of its own, and what it takes for the second one stands beside another expression. -/
structure Slices (index : Place) : Prop where
  bracket : ∃ name bracket, index.expression? 0 = some name
    ∧ index.tokenOf? [.sign .leftBracket] = some bracket ∧ name.stop ≤ bracket.start
    ∧ ∀ n part, index.expression? (n + 1) = some part → bracket.stop ≤ part.start
  colon : ∀ colon ∈ index.tokens, colon.kind = .token (.sign .colon) →
    ∀ n part, index.expression? (n + 1) = some part → colon.stop ≤ part.start
  beside : ∀ n part, index.expression? (n + 2) = some part → part.Juxtaposed index.significant

/-- A range has its bounds on the two sides of its colon. -/
def Spans (range : Place) : Prop :=
  ∃ lower colon, range.expression? 0 = some lower
    ∧ range.tokenOf? [.sign .colon] = some colon ∧ lower.stop ≤ colon.start
    ∧ ∀ n upper, range.expression? (n + 1) = some upper → colon.stop ≤ upper.start

variable {place : Place} {clean : Prop}

/-- A place that is sliced is so if it is an index. -/
theorem sliced_of_kind (sliced : place.tree.Sliced) (isNode : place.kind = .node .index) :
    Form.Sliced (Tree.constituents place.tree.children) := by
  obtain ⟨tree, start, above⟩ := place
  cases sliced with
  | leaf => cases isNode
  | node _ sliced => exact sliced (Kind.node.inj isNode)

/-- Two operands with a colon between them are the bounds of a range. -/
theorem spans_of_range (proper : place.Proper) (formed : place.tree.Formed clean)
    (isNode : place.kind = .node .range) : place.Spans := by
  have matched := forall₂_significant formed
  have forms : Joined clean _ _ := forms_of_kind formed isNode
  generalize Tree.constituents place.tree.children = constituents at forms matched
  obtain ⟨first, operand, rfl, -⟩ := forms
  obtain ⟨lower, others, isLower, matched, split⟩ := List.forall₂_cons_right_iff.mp matched
  obtain ⟨colon, behind, isColon, -, rfl⟩ := List.forall₂_cons_right_iff.mp matched
  have parts : place.significant = [lower] ++ colon :: behind := split
  obtain ⟨before, after⟩ := apart_of_split proper parts isColon.1
  -- The lower bound comes first among the expressions, and the colon is none of them.
  have expressions : place.expressions = lower :: behind.filter isExpression := by
    rw [expressions_eq_significant formed, split,
      List.filter_cons_of_pos (isExpression_of_operand isLower.1 operand), filter_of_token isColon]
  refine ⟨lower, colon, by rw [expression?, expressions]; rfl, ?_, (before lower (by simp)).1, ?_⟩
  · exact tokenOf?_of_split formed parts isColon.1 (by simp [isLower.1])
  · intro n upper found
    rw [expression?, expressions, List.getElem?_cons_succ] at found
    exact (after upper (List.mem_filter.mp (List.mem_of_getElem? found)).1).1

/-- Tokens are not counted among expressions. -/
theorem filter_of_lead {lead : List Constituent} (isLead : Lead lead) {places : List Place}
    (matched : List.Forall₂ Matches places lead) : places.filter isExpression = [] := by
  refine List.filter_eq_nil_iff.mpr fun child member => ?_
  obtain ⟨constituent, among, same⟩ := exists_matches matched member
  -- A lead consists of signs only.
  obtain ⟨kind, rfl⟩ : ∃ kind, constituent = .token kind := by
    cases isLead with
    | none => cases among
    | colon => exact ⟨_, List.mem_singleton.mp among⟩
    | empty => rcases List.mem_pair.mp among with rfl | rfl <;> exact ⟨_, rfl⟩
  simp [isExpression, same.1, Kind.isNodeWith]

/-- In an index, a colon comes before the operand between the brackets. -/
theorem mem_lead_of_colon {name bracket colon : Place} {before parts closing : List Place}
    {kind : NodeKind} {first : Option TokenKind} (isName : name.Matches (.node kind first))
    (isBracket : bracket.Matches (.token (.sign .leftBracket))) {operand : List Constituent}
    (isParts : List.Forall₂ Matches parts operand) (isOperand : Form.Operand clean operand)
    (isClosing : List.Forall₂ Matches closing [.token (.sign .rightBracket)])
    (member : colon ∈ name :: bracket :: (before ++ parts ++ closing))
    (isColon : colon.kind = .token (.sign .colon)) : colon ∈ before := by
  simp only [List.mem_cons, List.mem_append] at member
  rcases member with rfl | rfl | (leads | late) | last
  · cases isName.1.symm.trans isColon
  · cases isBracket.1.symm.trans isColon
  · exact leads
  · -- The only sign that may be an operand is a semicolon.
    obtain ⟨_ | _, within, same⟩ := exists_matches isParts late
    · cases same.1.symm.trans isColon
      cases eq_semicolon_of_operand isOperand within
    · cases same.1.symm.trans isColon
  · obtain ⟨_, within, same⟩ := exists_matches isClosing last
    cases List.mem_singleton.mp within
    cases same.1.symm.trans isColon

/-- Without errors, an index that is sliced looks for its bounds where they cannot be told apart. -/
theorem slices_of_index (formed : place.tree.Formed clean) (sliced : place.tree.Sliced)
    (spotless : clean) (isNode : place.kind = .node .index) : place.Slices := by
  have matched := forall₂_significant formed
  have forms : Index clean _ := forms_of_kind formed isNode
  obtain ⟨kind, first, lead, operand, isOperand, isLead, left, same⟩ :=
    exists_lead_of_index forms (sliced_of_kind sliced isNode) spotless
  rw [same] at matched
  obtain ⟨name, others, isName, matched, split⟩ := List.forall₂_cons_right_iff.mp matched
  obtain ⟨bracket, inner, isBracket, isInner, rfl⟩ := List.forall₂_cons_right_iff.mp matched
  obtain ⟨front, closing, rfl, isFront, isClosing⟩ := exists_append_of_forall₂ isInner
  obtain ⟨before, parts, rfl, isBefore, isParts⟩ := exists_append_of_forall₂ isFront
  have closes : Needed clean (.sign .rightBracket) [.token (.sign .rightBracket)] := .present
  -- Apart from the operand, the index has only the expressions between its brackets.
  have expressions : place.expressions = name :: parts.filter isExpression := by
    rw [expressions_eq_significant formed, split,
      List.filter_cons_of_pos (isExpression_of_operand isName.1 isOperand),
      filter_of_token isBracket, List.filter_append, List.filter_append,
      filter_of_lead isLead isBefore, filter_of_needed closes isClosing, List.nil_append,
      List.append_nil]
  have found (n : Nat) (part : Place) (numbered : place.expression? (n + 1) = some part) :
      (parts.filter isExpression)[n]? = some part := by
    rwa [expression?, expressions, List.getElem?_cons_succ] at numbered
  have among (n : Nat) (part : Place) (numbered : place.expression? (n + 1) = some part) :
      part ∈ parts :=
    (List.mem_filter.mp (List.mem_of_getElem? (found n part numbered))).1
  -- Places come in the order of the text, from which the bounds are read off.
  have ordered := place.significant_pairwise
  refine ⟨⟨name, bracket, by rw [expression?, expressions]; rfl, ?_, ?_, ?_⟩, ?_, ?_⟩
  · have parted : place.significant = [name] ++ bracket :: (before ++ parts ++ closing) := split
    exact tokenOf?_of_split formed parted isBracket.1 (by simp [isName.1])
  · rw [split] at ordered
    exact List.rel_of_pairwise_cons ordered List.mem_cons_self
  · intro n part numbered
    rw [split] at ordered
    refine List.rel_of_pairwise_cons (List.pairwise_cons.mp ordered).2 ?_
    simp [among n part numbered]
  · -- Whatever colon there is stands before the operand, which holds all other expressions.
    intro colon member isColon n part numbered
    have inside : colon ∈ place.significant :=
      List.mem_filter.mpr ⟨(List.mem_filter.mp member).1,
        by simp [isColon, Kind.passes, TokenKind.isTrivia]⟩
    have isLeading : colon ∈ before :=
      mem_lead_of_colon isName isBracket isParts left isClosing (split ▸ inside) isColon
    have parted : (before ++ parts).Pairwise fun left right => left.stop ≤ right.start :=
      ordered.sublist (split ▸ ((List.sublist_append_left _ closing).cons bracket).cons name)
    exact (List.pairwise_append.mp parted).2.2 colon isLeading part (among n part numbered)
  · intro n part numbered
    -- A third expression is at least the second one between the brackets.
    have late : part ∈ (parts.filter isExpression).drop 1 := by
      refine List.mem_of_getElem? (?_ : _[n]? = _)
      rw [List.getElem?_drop, Nat.add_comm]
      exact found (n + 1) part numbered
    have around : parts <:+: place.significant := by
      rw [split]
      exact ⟨name :: bracket :: before, closing, by simp⟩
    exact (juxtaposed_of_operand left isParts part late).mono around

end Place

/-- What a source text grows to is sliced. -/
theorem sliced_of_parseText {text : String} {parsed : Parsed}
    (parses : parseText text = .ok parsed) : parsed.tree.Sliced := by
  -- Being sliced is proved of what the tokens grow to.
  rw [parseText, parse, parseWithin_eq_growWithin] at parses
  exact growWithin_sliced parses

/-- Without errors, no index has an operand before a colon of its own, and what it takes for a second bound stands beside another expression; it is a range that has its bounds on the two sides of a colon. -/
theorem parseText_slices {text : String} {parsed : Parsed} (parses : parseText text = .ok parsed)
    (spotless : parsed.report.errorCount = 0) (base : Nat) {place : Place}
    (within : place.Within (root parsed.tree base)) :
    (place.isA .index = true → place.Slices) ∧ (place.isA .range = true → place.Spans) := by
  have proper := (rooted_of_parseText parses base).proper.of_within within
  have formed := formed_of_within (formed_of_parseText parses) within
  constructor
  · intro isIndex
    -- A sliced tree has sliced trees below it.
    have sliced : place.tree.Sliced := by
      refine within.inherit (fun whole below => ?_) (sliced_of_parseText parses)
      cases whole with
      | leaf => cases below
      | node each => exact each _ below
    exact slices_of_index formed sliced spotless (beq_iff_eq.mp isIndex)
  · intro isRange
    exact spans_of_range proper formed (beq_iff_eq.mp isRange)

/-- Both bounds of a slice are in its first part, and there is no second one. -/
theorem parseText_slices_bounds :
    ∃ parsed, ∃ index range lower upper : Place, parseText "text[0:2]" = .ok parsed
      ∧ index.Slices ∧ index.expression? 1 = some range ∧ index.expression? 2 = none
      ∧ range.isA .range = true ∧ range.Spans ∧ range.expression? 0 = some lower
      ∧ lower.start = 5 ∧ range.expression? 1 = some upper ∧ upper.start = 7 := by
  have passes : (parseText "text[0:2]").toOption.any (fun parsed =>
      parsed.report.errorCount == 0 && (root parsed.tree 0).elements.any fun index =>
        index.isA .index && (index.expression? 2).isNone
          && (index.expression? 1).any fun range => range.isA .range
            && (range.expression? 0).any (·.start == 5)
            && (range.expression? 1).any (·.start == 7)) = true := by
    decide +kernel
  obtain ⟨parsed, parses, passes⟩ := exists_ok_of_any passes
  simp only [Bool.and_eq_true, beq_iff_eq, List.any_eq_true, Option.any_eq_true,
    Option.isNone_iff_eq_none] at passes
  obtain ⟨spotless, index, among, ⟨isIndex, noOther⟩, range, found, ⟨isRange, lower, first, starts⟩,
    upper, second, ends⟩ := passes
  have within := mem_elements_iff.mp among
  have inside : range.Within (root parsed.tree 0) :=
    .inr (Within.below (below_of_expression? found) within)
  exact ⟨parsed, index, range, lower, upper, parses,
    (parseText_slices parses spotless 0 within).1 isIndex, found, noOther, isRange,
    (parseText_slices parses spotless 0 inside).2 isRange, first, starts, second, ends⟩

end Dxl
