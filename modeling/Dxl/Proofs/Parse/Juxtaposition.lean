import Dxl.Proofs.Form.Place
import Dxl.Proofs.Parse.Forms
import Dxl.Proofs.Place.Ranges

/-! Juxtaposition: which expressions stand next to each other without being combined. -/

namespace Dxl

open Form Place

/-- How many expressions there is a place for in a node of each kind, as far as that is limited. -/
def NodeKind.expressionLimit? : NodeKind → Option Nat
  | .exprStmt | .grouping => some 1
  | .assignment | .binary | .comparison | .equality | .logical | .shift => some 2
  | _ => none

/-- An operand that takes parentheses as its arguments is a reference to a name. -/
theorem NodeKind.takesParentheses_eq_isNameRef (kind : NodeKind) :
    kind.takesParentheses = kind.isNameRef := by
  cases kind <;> rfl

namespace Place

/-- A place begins with a parenthesis, right beside an expression that is no reference to a name. -/
structure Juxtaposed (place : Place) (neighbours : List Place) : Prop where
  parenthesis : place.tree.first? = some (.sign .leftParen)
  beside : ∃ before : Place, before.isExpression = true ∧ before.isNameRef = false
    ∧ [before, place] <:+: neighbours

/-- What stands beside another place still does among more places. -/
theorem Juxtaposed.mono {place : Place} {some more : List Place}
    (juxtaposed : place.Juxtaposed some) (part : some <:+: more) : place.Juxtaposed more := by
  obtain ⟨paren, before, isExpression, isNameRef, beside⟩ := juxtaposed
  exact ⟨paren, before, isExpression, isNameRef, beside.trans part⟩

/-- Groups beside an operand are expressions, each of which stands beside the one before it. -/
theorem juxtaposed_of_beside {kind : NodeKind} {rest : List Constituent} (beside : Beside kind rest)
    {head : Place} {tail : List Place} (isNode : head.kind = .node kind)
    (isExpression : head.isExpression = true) (others : List.Forall₂ Matches tail rest) :
    (∀ place ∈ tail, place.isExpression = true)
      ∧ ∀ place ∈ tail, place.Juxtaposed (head :: tail) := by
  induction beside generalizing head tail with
  | none =>
    cases others
    exact ⟨List.forall_mem_nil _, List.forall_mem_nil _⟩
  | @more kind made rest alone isMade _ ih =>
    obtain ⟨next, further, ⟨isNext, -, begins⟩, matched, rfl⟩ :=
      List.forall₂_cons_right_iff.mp others
    have isExpressionNext := isExpression_of_operand isNext isMade
    obtain ⟨all, juxtaposed⟩ := ih isNext isExpressionNext matched
    have isNameRef : head.isNameRef = false := by
      rw [Place.isNameRef, isNode, Kind.isNodeWith, ← NodeKind.takesParentheses_eq_isNameRef, alone]
    refine ⟨List.forall_mem_cons.mpr ⟨isExpressionNext, all⟩,
      List.forall_mem_cons.mpr ⟨⟨begins, head, isExpression, isNameRef, ?_⟩, fun place member => ?_⟩⟩
    · exact (List.prefix_append [head, next] further).isInfix
    · exact (juxtaposed place member).mono (List.suffix_cons head _).isInfix

variable {clean : Prop}

/-- Of what an expression leaves, all but the first expression stand beside the one before. -/
theorem juxtaposed_of_operand {operands : List Constituent} (left : Form.Operand clean operands)
    {places : List Place} (matched : List.Forall₂ Matches places operands) :
    ∀ place ∈ (places.filter isExpression).drop 1, place.Juxtaposed places := by
  -- Among at most one place there is none after the first expression.
  have few (short : places.length ≤ 1) : (places.filter isExpression).drop 1 = [] :=
    List.drop_eq_nil_of_le (Nat.le_trans (List.length_filter_le _ _) short)
  cases left with
  | missing | empty | skipped =>
    rw [few (by simp [matched.length_eq])]
    exact List.forall_mem_nil _
  | chain first chain =>
    obtain ⟨operand, beside⟩ := chain
    obtain ⟨head, tail, ⟨isNode, -⟩, others, rfl⟩ := List.forall₂_cons_right_iff.mp matched
    have isExpression := isExpression_of_operand isNode operand
    obtain ⟨all, juxtaposed⟩ := juxtaposed_of_beside beside isNode isExpression others
    rw [List.filter_cons_of_pos isExpression, List.filter_eq_self.mpr all]
    exact juxtaposed

/-- A token is not counted among expressions. -/
theorem filter_of_token {token : Place} {kind : TokenKind} (matched : token.Matches (.token kind))
    (rest : List Place) : (token :: rest).filter isExpression = rest.filter isExpression :=
  List.filter_cons_of_neg (by simp [isExpression, matched.1, Kind.isNodeWith])

/-- A token that may be left out is not counted either. -/
theorem filter_of_needed {kind : TokenKind} {token : List Constituent}
    (needed : Needed clean kind token) {places : List Place}
    (matched : List.Forall₂ Matches places token) : places.filter isExpression = [] := by
  cases needed with
  | absent =>
    cases matched
    rfl
  | present =>
    obtain ⟨place, rest, isMark, others, rfl⟩ := List.forall₂_cons_right_iff.mp matched
    cases others
    rw [filter_of_token isMark, List.filter_nil]

/-- More expressions than a node has a place for stand beside the ones before them. -/
theorem juxtaposed_of_mem_drop {place : Place} {kind : NodeKind} {limit : Nat}
    (formed : place.tree.Formed clean) (isNode : place.kind = .node kind)
    (limited : kind.expressionLimit? = some limit) :
    ∀ expression ∈ place.expressions.drop limit, expression.Juxtaposed place.significant := by
  have forms := forms_of_kind formed isNode
  have matched := forall₂_significant formed
  rw [expressions_eq_significant formed]
  generalize place.significant = children at matched
  generalize Tree.constituents place.tree.children = constituents at forms matched
  -- Two operands with a token between them.
  have joined {operator : TokenKind → Prop} (forms : Form.Joined clean operator constituents)
      (two : limit = 2) :
      ∀ expression ∈ (children.filter isExpression).drop limit, expression.Juxtaposed children := by
    obtain ⟨first, operand, -, right⟩ := forms
    obtain ⟨left, _, ⟨isLeft, -⟩, others, rfl⟩ := List.forall₂_cons_right_iff.mp matched
    obtain ⟨mark, rest, isMark, after, rfl⟩ := List.forall₂_cons_right_iff.mp others
    rw [two, List.filter_cons_of_pos (isExpression_of_operand isLeft operand),
      filter_of_token isMark]
    exact fun expression member => (juxtaposed_of_operand right after expression member).mono
      (List.suffix_append [left, mark] rest).isInfix
  cases kind
  case exprStmt =>
    cases limited
    exact juxtaposed_of_operand forms matched
  case grouping =>
    cases limited
    obtain ⟨operand, closes⟩ := forms
    obtain ⟨paren, _, isParen, others, rfl⟩ := List.forall₂_cons_right_iff.mp matched
    obtain ⟨inner, after, rfl, operands, closing⟩ := exists_append_of_forall₂ others
    rw [filter_of_token isParen, List.filter_append, filter_of_needed closes closing, List.append_nil]
    exact fun expression member => (juxtaposed_of_operand operand operands expression member).mono
      ⟨[paren], after, by simp⟩
  case assignment | binary | comparison | equality | logical | shift =>
    cases limited
    exact joined forms rfl
  all_goals cases limited

end Place

/-- More expressions than a node has a place for are groups beside something other than a reference to a name. -/
theorem parseText_juxtaposed {text : String} {parsed : Parsed}
    (parses : parseText text = .ok parsed) {place : Place}
    (member : place ∈ (root parsed.tree 0).elements) {kind : NodeKind}
    (isNode : place.kind = .node kind) {limit : Nat} (limited : kind.expressionLimit? = some limit) :
    ∀ expression ∈ place.expressions.drop limit, expression.Juxtaposed place.significant :=
  juxtaposed_of_mem_drop (formed_of_within (formed_of_parseText parses) (mem_elements_iff.mp member))
    isNode limited

/-- A group beside a string is lost to the view of its statement, and no error tells of it. -/
theorem parseText_juxtaposed_group :
    ∃ parsed, parseText "\"a\" (b)" = .ok parsed ∧ parsed.report.errorCount = 0
      ∧ ∃ place ∈ (root parsed.tree 0).elements, place.kind = .node .exprStmt
        ∧ ∃ lost, place.expressions.drop 1 = [lost] ∧ lost.Juxtaposed place.significant := by
  have found : (parseText "\"a\" (b)").toOption.any (fun parsed =>
      parsed.report.errorCount == 0 && (root parsed.tree 0).elements.any fun place =>
        place.kind == .node .exprStmt && place.expressions.length == 2) = true := by
    decide +kernel
  obtain ⟨parsed, parses, found⟩ := exists_ok_of_any found
  simp only [Bool.and_eq_true, beq_iff_eq, List.any_eq_true] at found
  obtain ⟨clean, place, member, isNode, two⟩ := found
  obtain ⟨shown, lost, both⟩ := List.length_eq_two.mp two
  have only : place.expressions.drop 1 = [lost] := by rw [both]; rfl
  exact ⟨parsed, parses, clean, place, member, isNode, lost, only,
    parseText_juxtaposed parses member isNode rfl lost (by simp [only])⟩

end Dxl
