import Dxl.Proofs.Form.Clause
import Dxl.Proofs.View.Parts
import Dxl.Proofs.View.Reach

/-! Apart: highlights that do not overlap, and what keeps the parts of a node from each other. -/

namespace Dxl

/-- Two highlights are apart if one ends before the other starts. -/
def Highlight.Apart (left right : Highlight) : Prop :=
  left.stop ≤ right.start ∨ right.stop ≤ left.start

/-- Being apart goes both ways. -/
theorem Highlight.Apart.symm {left right : Highlight} (apart : left.Apart right) :
    right.Apart left :=
  Or.symm apart

namespace Place

/-- Two places are apart if one ends before the other starts. -/
def Apart (left right : Place) : Prop :=
  left.stop ≤ right.start ∨ right.stop ≤ left.start

variable {place part token left right inner outer : Place} {highlight : Highlight}

/-- Being apart goes both ways. -/
theorem Apart.symm (apart : left.Apart right) : right.Apart left :=
  Or.symm apart

/-- What is within places that are apart is apart. -/
theorem Apart.of_within (apart : left.Apart right) {one other : Place} (inLeft : one.Within left)
    (inRight : other.Within right) : one.Apart other := by
  have := inLeft.range
  have := inRight.range
  rcases apart with before | after
  · exact .inl (by omega)
  · exact .inr (by omega)

/-- Children of a place are apart unless they are the same. -/
theorem apart_of_ne (one : left ∈ place.children) (other : right ∈ place.children)
    (differ : left ≠ right) : left.Apart right :=
  (eq_or_le_of_mem_children one other).resolve_left differ

/-- Two members of a list of places in order are apart unless they are the same. -/
theorem apart_of_pairwise {places : List Place}
    (ordered : places.Pairwise fun left right => left.stop ≤ right.start) (one : left ∈ places)
    (other : right ∈ places) (differ : left ≠ right) : left.Apart right :=
  (eq_or_of_pairwise ordered one other).resolve_left differ

/-- Parts that nodes of different kinds hold are apart. -/
theorem HeldBy.apart {test : NodeKind → Bool} {kind : NodeKind} (one : place.HeldBy test left)
    (other : place.HeldBy (· == kind) right) (lacks : test kind = false) : left.Apart right := by
  obtain ⟨holder, shows, passes⟩ := one
  obtain ⟨further, showsOther, isKind⟩ := other
  refine Apart.of_within (apart_of_ne (List.mem_filter.mp shows.mem_nodes).1
    (List.mem_filter.mp showsOther.mem_nodes).1 ?_) shows.within showsOther.within
  -- One node cannot be of the kind and pass the test.
  rintro rfl
  cases isNode : holder.kind with
  | token kind => simp [isNode, Kind.isNodeWith] at passes
  | node kind =>
    rw [isNode, Kind.isNodeWith] at passes isKind
    rw [beq_iff_eq.mp isKind, lacks] at passes
    cases passes

/-- The highlights of a place and of everything that is reached from it. -/
def highlights (place : Place) : List Highlight :=
  place.reached.flatMap ownHighlights

/-- A place has the highlights of its own, and then those of what is looked at from it. -/
theorem highlights_eq (place : Place) :
    place.highlights = place.ownHighlights ++ place.shown.flatMap highlights := by
  rw [highlights, reached_eq, List.flatMap_cons, List.flatMap_assoc, shown, List.flatMap_map]
  rfl

/-- What stands out at a statement and below it are its highlights. -/
theorem perm_highlights (isStatement : place.isStatement = true) :
    (Highlights.ofPlace place).tokens.Perm place.highlights := by
  rw [Highlights.ofPlace, isStatement]
  exact List.mergeSort_perm _ _

/-- What is looked at from a place is proper if the place is. -/
theorem proper_of_mem_shown (proper : place.Proper) (member : part ∈ place.shown) :
    part.Proper := by
  obtain ⟨below, among, rfl⟩ := List.mem_map.mp member
  exact proper.of_within (.inr below.2)

/-- What is looked at from a place shows highlights of the place. -/
theorem highlights_subset_of_mem_shown (member : part ∈ place.shown) :
    ∀ highlight ∈ part.highlights, highlight ∈ place.highlights := by
  intro highlight inPart
  rw [highlights_eq]
  exact List.mem_append_right _ (List.mem_flatMap.mpr ⟨part, member, inPart⟩)

/-- Every highlight of a place marks it. -/
theorem marks_of_mem_highlights (member : highlight ∈ place.highlights) :
    highlight.Marks place := by
  obtain ⟨inner, reached, own⟩ := List.mem_flatMap.mp member
  exact (marks_of_mem_ownHighlights own).within (within_of_mem_reached reached)

/-- Two places are separate if all their highlights are apart. -/
def Separate (left right : Place) : Prop :=
  ∀ one ∈ left.highlights, ∀ other ∈ right.highlights, one.Apart other

/-- Places that are apart are separate. -/
theorem Separate.of_apart (one : left.Proper) (other : right.Proper) (apart : left.Apart right) :
    left.Separate right := by
  intro highlight inLeft further inRight
  have := (marks_of_mem_highlights inLeft).range one
  have := (marks_of_mem_highlights inRight).range other
  rcases apart with before | after
  · exact .inl (by omega)
  · exact .inr (by omega)

/-- Two places that share their highlights are separate only if there are none. -/
theorem Separate.eq_nil (separate : left.Separate right) (proper : left.Proper)
    (shared : ∀ highlight ∈ left.highlights, highlight ∈ right.highlights) :
    left.highlights = [] := by
  refine List.eq_nil_iff_forall_not_mem.mpr fun highlight member => ?_
  -- A highlight that is shared is apart from itself, and it is not empty.
  have := (marks_of_mem_highlights member).range proper
  rcases separate highlight member highlight (shared highlight member) with before | after <;> omega

/-- A place without highlights is separate from every other. -/
theorem Separate.of_eq_nil (none : left.highlights = []) : left.Separate right := by
  intro highlight member
  simp [none] at member

/-- Highlights that mark places which are apart are apart. -/
theorem Apart.marks (apart : left.Apart right) (one : left.Proper) (other : right.Proper)
    {further : Highlight} (inLeft : highlight.Marks left) (inRight : further.Marks right) :
    highlight.Apart further := by
  have := inLeft.range one
  have := inRight.range other
  rcases apart with before | after
  · exact .inl (by omega)
  · exact .inr (by omega)

/-- What a node of the given kind has a highlight of its own from, comments apart: a token right below, or the name that a function or a call starts with. -/
def Bears (place : Place) (kind : NodeKind) (holder : Place) : Prop :=
  (holder ∈ place.tokens ∧ holder.kind ≠ .token .comment)
    ∨ place.leadingName? = some holder ∧ (kind = .funcDecl ∨ kind = .call)

/-- A token that is no trivia bears a highlight. -/
theorem bears_of_mem_tokens {kind : NodeKind} {reason : HighlightKind} {found : Option Place}
    (member : highlight ∈ Place.highlight reason found)
    (inTokens : ∀ token ∈ found, token ∈ place.tokens ∧ token.kind ≠ .token .comment) :
    ∃ holder, place.Bears kind holder ∧ highlight.Marks holder := by
  obtain ⟨token, same, rfl⟩ := mem_highlight_iff.mp member
  obtain ⟨among, significant⟩ := inTokens token same
  exact ⟨token, .inl ⟨among, significant⟩,
    ⟨token, .refl _, (List.mem_filter.mp among).2, rfl, rfl⟩⟩

/-- The first token with a meaning is right below and no comment. -/
theorem mem_tokens_of_firstToken? (found : place.firstToken? = some token) :
    token ∈ place.tokens ∧ token.kind ≠ .token .comment := by
  refine ⟨List.mem_of_find?_eq_some found, fun comment => ?_⟩
  have passes := List.find?_some
    (p := fun token : Place => !token.kind.passes TokenKind.isTrivia) found
  simp [comment, Kind.passes, TokenKind.isTrivia] at passes

/-- A token that is found by its kind is right below and of that kind. -/
theorem mem_tokens_of_tokenOf? {kind : TokenKind} (found : place.tokenOf? [kind] = some token) :
    token ∈ place.tokens ∧ token.kind = .token kind := by
  refine ⟨List.mem_of_find?_eq_some found, ?_⟩
  have passes := List.find?_some (p := fun token : Place =>
    [kind].any fun kind => token.kind == .token kind) found
  simpa using passes

/-- Every highlight that a node has of its own, comments apart, marks a child that bears it. -/
theorem exists_bears_of_mem_ownHighlightsOf {kind : NodeKind}
    (member : highlight ∈ place.ownHighlightsOf kind) :
    ∃ holder, place.Bears kind holder ∧ highlight.Marks holder := by
  -- A keyword is a token of its own kind, which no comment is.
  have keywords {words : List Keyword} (here : highlight ∈ place.keywordHighlights words) :
      ∃ holder, place.Bears kind holder ∧ highlight.Marks holder := by
    obtain ⟨word, -, inWord⟩ := List.mem_flatMap.mp here
    refine bears_of_mem_tokens inWord fun token found => ?_
    obtain ⟨among, isKind⟩ := mem_tokens_of_tokenOf? found
    exact ⟨among, by simp [isKind]⟩
  cases kind
  case typeRef | nameRef | nullRef =>
    exact bears_of_mem_tokens member fun token => mem_tokens_of_firstToken?
  case funcDecl | call =>
    obtain ⟨token, found, rfl⟩ := mem_highlight_iff.mp member
    obtain ⟨name, -, -, leading, inside⟩ := exists_name_of_nameToken? found
    exact ⟨name, .inr ⟨leading, by simp⟩, .of_mem_tokens _ inside⟩
  case literal =>
    obtain ⟨token, _, found, rfl⟩ := exists_token_of_mem_literalHighlight member
    obtain ⟨among, significant⟩ := mem_tokens_of_firstToken? found
    exact ⟨token, .inl ⟨among, significant⟩, ⟨token, .refl _, (List.mem_filter.mp among).2, rfl, rfl⟩⟩
  -- The other kinds have highlights of their keywords, or none.
  all_goals first | exact keywords member | cases member

/-- What bears a highlight is a child. -/
theorem Bears.mem_children {kind : NodeKind} (bears : place.Bears kind inner) :
    inner ∈ place.children := by
  rcases bears with ⟨among, -⟩ | ⟨leading, -⟩
  · exact (List.mem_filter.mp among).1
  · obtain ⟨numbered, -⟩ := Option.filter_eq_some_iff.mp leading
    exact (List.mem_filter.mp (List.mem_filter.mp (List.mem_of_getElem? numbered)).1).1

/-- The highlights that a node has of its own, comments apart, are apart. -/
theorem pairwise_ownHighlightsOf (place : Place) (kind : NodeKind) :
    (place.ownHighlightsOf kind).Pairwise Highlight.Apart := by
  have single {reason : HighlightKind} (found : Option Place) :
      (Place.highlight reason found).Pairwise Highlight.Apart := by
    cases found <;> simp [Place.highlight]
  -- Different keywords are different tokens.
  have keywords {words : List Keyword} (distinct : words.Nodup) :
      (place.keywordHighlights words).Pairwise Highlight.Apart := by
    refine List.pairwise_flatMap.mpr ⟨fun word _ => single _, distinct.imp fun differ => ?_⟩
    intro one inOne other inOther
    obtain ⟨left, found, rfl⟩ := mem_highlight_iff.mp inOne
    obtain ⟨right, foundOther, rfl⟩ := mem_highlight_iff.mp inOther
    obtain ⟨inTokens, isLeft⟩ := mem_tokens_of_tokenOf? found
    obtain ⟨inOthers, isRight⟩ := mem_tokens_of_tokenOf? foundOther
    refine apart_of_ne (List.mem_filter.mp inTokens).1 (List.mem_filter.mp inOthers).1 ?_
    rintro rfl
    exact differ (by simpa using isLeft.symm.trans isRight)
  -- Most kinds have a single highlight of their own, or none.
  cases kind
  case typeRef | nameRef | nullRef | funcDecl | call => exact single _
  case literal =>
    show place.literalHighlight.Pairwise _
    unfold literalHighlight
    repeat' split
    all_goals first | exact single _ | exact .nil
  all_goals first | exact keywords (by decide) | exact .nil

/-- The token of a comment that a place has as a highlight is right below. -/
theorem exists_comment (member : highlight ∈ (place.tokens.filter fun token =>
      token.kind == .token .comment).map fun token => ⟨.comment, token.start, token.stop⟩) :
    ∃ token ∈ place.tokens, token.kind = .token .comment ∧ highlight.Marks token := by
  obtain ⟨token, among, rfl⟩ := List.mem_map.mp member
  obtain ⟨inTokens, isComment⟩ := List.mem_filter.mp among
  exact ⟨token, inTokens, beq_iff_eq.mp isComment,
    ⟨token, .refl _, (List.mem_filter.mp inTokens).2, rfl, rfl⟩⟩

/-- The highlights that a place has of its own are apart. -/
theorem pairwise_ownHighlights (proper : place.Proper) :
    place.ownHighlights.Pairwise Highlight.Apart := by
  -- Comments are children that stand one after the other.
  have comments : ((place.tokens.filter fun token => token.kind == .token .comment).map
      fun token => (⟨.comment, token.start, token.stop⟩ : Highlight)).Pairwise Highlight.Apart := by
    refine List.pairwise_map.mpr ?_
    exact ((place.children_pairwise.filter _).filter _).imp Or.inl
  cases isKind : place.kind with
  | token kind => simpa [ownHighlights, isKind] using comments
  | node kind =>
    rw [ownHighlights, isKind]
    refine List.pairwise_append.mpr ⟨comments, pairwise_ownHighlightsOf place kind, ?_⟩
    intro comment isComment other own
    obtain ⟨token, inTokens, isComment, marksToken⟩ := exists_comment isComment
    obtain ⟨holder, bears, marks⟩ := exists_bears_of_mem_ownHighlightsOf own
    have inChildren := (List.mem_filter.mp inTokens).1
    refine Apart.marks (apart_of_ne inChildren bears.mem_children ?_)
      (proper.of_mem_children inChildren) (proper.of_mem_children bears.mem_children) marksToken marks
    -- A comment bears no highlight of another sort.
    rintro rfl
    rcases bears with ⟨-, significant⟩ | ⟨leading, -⟩
    · exact significant isComment
    · obtain ⟨-, isName⟩ := Option.filter_eq_some_iff.mp leading
      simp [isNameRef, isComment, Kind.isNodeWith] at isName

/-- Every highlight that a place has of its own marks a token right below, or the name that a function or a call starts with. -/
theorem exists_holder_of_mem_ownHighlights (own : highlight ∈ place.ownHighlights) :
    ∃ holder, highlight.Marks holder ∧ (holder ∈ place.tokens
      ∨ place.leadingName? = some holder
        ∧ (place.kind = .node .funcDecl ∨ place.kind = .node .call)) := by
  -- Highlights of comments come first, and then those that the kind of the node asks for.
  rcases List.mem_append.mp own with comment | other
  · obtain ⟨token, inTokens, -, marks⟩ := exists_comment comment
    exact ⟨token, marks, .inl inTokens⟩
  · split at other
    · cases other
    · rename_i kind isKind
      obtain ⟨holder, bears, marks⟩ := exists_bears_of_mem_ownHighlightsOf other
      rcases bears with ⟨inTokens, -⟩ | ⟨leading, declared⟩
      · exact ⟨holder, marks, .inl inTokens⟩
      · exact ⟨holder, marks, .inr ⟨leading, by simpa [isKind] using declared⟩⟩

/-- The highlights that a place has of its own are apart from those of what is looked at from it. -/
theorem apart_of_mem_ownHighlights (proper : place.Proper)
    (own : highlight ∈ place.ownHighlights) (isPart : part ∈ place.shown) {further : Highlight}
    (inPart : further ∈ part.highlights) : highlight.Apart further := by
  obtain ⟨bearer, marks, bears⟩ := exists_holder_of_mem_ownHighlights own
  have properPart := proper_of_mem_shown proper isPart
  rcases bears with inTokens | ⟨leading, declared⟩
  · obtain ⟨holder, shows⟩ := exists_shows_of_mem_shown isPart
    obtain ⟨inChildren, isNode⟩ := List.mem_filter.mp shows.mem_nodes
    obtain ⟨inside, isToken⟩ := List.mem_filter.mp inTokens
    -- A token is no node, so it is not what holds the part.
    refine (Apart.of_within (apart_of_ne inside inChildren ?_) (.refl _) shows.within).marks
      (proper.of_mem_children inside) properPart marks (marks_of_mem_highlights inPart)
    rintro rfl
    simp [isToken] at isNode
  · -- A function or a call looks at nothing that its name holds.
    have named := heldBy_of_leadingName? leading
    have apart : bearer.Apart part := by
      rcases declared with isKind | isKind <;> rw [shown_eq isKind] at isPart <;>
        simp only [shownOf, mem_filterMap_id, List.mem_cons, List.not_mem_nil, or_false] at isPart
      · rcases isPart with found | found | found
        · exact named.apart (heldBy_of_declaredType? found.symm) rfl
        · exact named.apart (heldBy_of_nodeOf? found.symm) rfl
        · exact named.apart (heldBy_of_nodeOf? found.symm) rfl
      · exact named.apart (heldBy_of_nodeOf? isPart.symm) rfl
    exact apart.marks (proper.of_within (.inr (below_of_leadingName? leading))) properPart marks
      (marks_of_mem_highlights inPart)

/-- Places with different numbers are apart. -/
theorem apart_of_lt {places : List Place}
    (ordered : places.Pairwise fun left right => left.stop ≤ right.start) {m n : Nat} (less : m < n)
    (one : places[m]? = some left) (other : places[n]? = some right) : left.Apart right := by
  obtain ⟨inLeft, rfl⟩ := List.getElem?_eq_some_iff.mp one
  obtain ⟨inRight, rfl⟩ := List.getElem?_eq_some_iff.mp other
  exact .inl (List.pairwise_iff_getElem.mp ordered m n inLeft inRight less)

/-- Two places that may be missing are apart if both of them are there. -/
def ApartIfFound (one other : Option Place) : Prop :=
  ∀ left, one = some left → ∀ right, other = some right → left.Apart right

/-- Being apart as far as both are there goes both ways. -/
theorem ApartIfFound.symm {one other : Option Place} (apart : ApartIfFound one other) :
    ApartIfFound other one :=
  fun _ found _ another => (apart _ another _ found).symm

/-- Two ways of looking for a part are apart if nodes of different kinds hold what they find. -/
theorem ApartIfFound.of_heldBy {one other : Option Place} {test : NodeKind → Bool} {kind : NodeKind}
    (holds : ∀ {part}, one = some part → place.HeldBy test part)
    (further : ∀ {part}, other = some part → place.HeldBy (· == kind) part)
    (lacks : test kind = false) : ApartIfFound one other :=
  fun _ found _ another => (holds found).apart (further another) lacks

/-- Places that may be missing are apart from each other as far as they are there. -/
theorem pairwise_filterMap_id {found : List (Option Place)} (apart : found.Pairwise ApartIfFound) :
    (found.filterMap id).Pairwise Apart :=
  List.pairwise_filterMap.mpr apart

/-- Statements with different numbers are apart, and so is what is within them. -/
theorem apart_of_statement? {m n : Nat} (less : m < n) {one other : Place}
    (numbered : place.statement? m = some one) (further : place.statement? n = some other)
    (inOne : left.Within one) (inOther : right.Within other) : left.Apart right :=
  (apart_of_lt (place.nodes_pairwise.filter _) less numbered further).of_within inOne inOther

/-- The content of a numbered statement is within it. -/
theorem exists_of_contentOf? {n : Nat} (found : place.contentOf? n = some part) :
    ∃ holder, place.statement? n = some holder ∧ part.Within holder := by
  obtain ⟨holder, numbered, content⟩ := Option.bind_eq_some_iff.mp found
  exact ⟨holder, numbered, .inr (below_of_content? content)⟩

/-- A clause of a loop is apart from the others, and from the statement after the parenthesis. -/
theorem pairwise_forStmt {clean : Prop} (proper : place.Proper) (formed : place.tree.Formed clean)
    (isNode : place.kind = .node .forStmt) : (place.shownOf .forStmt).Pairwise Apart := by
  obtain ⟨whole, -⟩ := statements_forStmt proper formed isNode
  have ordered : place.statements.Pairwise fun left right => left.stop ≤ right.start :=
    place.nodes_pairwise.filter _
  rw [whole] at ordered
  obtain ⟨header, -, later⟩ := List.pairwise_append.mp ordered
  -- Clauses are the contents of statements in the header, which stand in order.
  have clauses {m n : Nat} (less : m < n) : ApartIfFound (place.clause? m) (place.clause? n) := by
    intro left one right another
    obtain ⟨holder, numbered, content⟩ := exists_of_clause? one
    obtain ⟨further, follows, inner⟩ := exists_of_clause? another
    exact (apart_of_lt header less numbered follows).of_within (.inr (below_of_content? content))
      (.inr (below_of_content? inner))
  -- The body comes after the header.
  have body {n : Nat} :
      ApartIfFound (place.clause? n) (place.statementAfter? (.sign .rightParen)) := by
    intro left one right after
    obtain ⟨holder, numbered, content⟩ := exists_of_clause? one
    have before := later holder (List.mem_of_getElem? numbered) right (by simp [after])
    exact Apart.of_within (.inl before) (.inr (below_of_content? content)) (.refl _)
  rw [shownOf]
  exact pairwise_filterMap_id (by simp [clauses, body])

/-- The condition of a loop is apart from its body. -/
theorem pairwise_whileStmt {clean : Prop} (proper : place.Proper) (formed : place.tree.Formed clean)
    (isNode : place.kind = .node .whileStmt) : (place.shownOf .whileStmt).Pairwise Apart := by
  obtain ⟨condition, -, whole, first⟩ := statements_whileStmt proper formed isNode
  refine pairwise_filterMap_id (List.pairwise_pair.mpr fun left one right after => ?_)
  obtain ⟨holder, numbered, inside⟩ := exists_of_contentOf? one
  -- Where there is a body there is a condition before it.
  have second : place.statement? 1 = some right := by
    cases condition with
    | none => simp [first rfl] at after
    | some condition => simp [statement?, whole, after]
  exact apart_of_statement? Nat.zero_lt_one numbered second inside (.refl _)

/-- The condition of a choice and its branches are apart. -/
theorem pairwise_ifStmt {clean : Prop} (proper : place.Proper) (formed : place.tree.Formed clean)
    (isNode : place.kind = .node .ifStmt) : (place.shownOf .ifStmt).Pairwise Apart := by
  obtain ⟨condition, body, -, whole, first⟩ := statements_ifStmt proper formed isNode
  -- The other branch is the third statement.
  have third {other : Place} (after : place.statementAfter? (.keyword .elseWord) = some other) :
      place.statement? 2 = some other := by
    cases body with
    | none => simp [first rfl] at after
    | some body => simp [statement?, whole, after]
  have content : ApartIfFound (place.contentOf? 0) (place.statement? 1) := by
    intro left one right another
    obtain ⟨holder, numbered, inside⟩ := exists_of_contentOf? one
    exact apart_of_statement? Nat.zero_lt_one numbered another inside (.refl _)
  have contentElse :
      ApartIfFound (place.contentOf? 0) (place.statementAfter? (.keyword .elseWord)) := by
    intro left one right another
    obtain ⟨holder, numbered, inside⟩ := exists_of_contentOf? one
    exact apart_of_statement? Nat.zero_lt_two numbered (third another) inside (.refl _)
  have branches :
      ApartIfFound (place.statement? 1) (place.statementAfter? (.keyword .elseWord)) :=
    fun left one right another =>
      apart_of_statement? Nat.one_lt_two one (third another) (.refl _) (.refl _)
  exact pairwise_filterMap_id (by simp [content, contentElse, branches])

/-- The type that a declaration starts with is apart from the name in it. -/
theorem apartIfFound_typeName (place : Place) :
    ApartIfFound place.declaredType? place.leadingName? :=
  (ApartIfFound.of_heldBy heldBy_of_leadingName? heldBy_of_declaredType? rfl).symm

/-- The type that a declaration starts with is apart from nodes of other kinds. -/
theorem apartIfFound_typeNode (place : Place) {kind : NodeKind} (differ : kind ≠ .typeRef) :
    ApartIfFound place.declaredType? (place.nodeOf? kind) :=
  .of_heldBy heldBy_of_declaredType? heldBy_of_nodeOf? (by simpa using differ)

/-- The type, the name, the value and the further names of a declaration of variables are apart. -/
theorem pairwise_varDecl (place : Place) : (place.shownOf .varDecl).Pairwise Apart := by
  have typeValue : ApartIfFound place.declaredType? place.initialValue? :=
    .of_heldBy heldBy_of_declaredType? heldBy_of_initialValue? rfl
  have nameValue : ApartIfFound place.leadingName? place.initialValue? :=
    .of_heldBy heldBy_of_leadingName? heldBy_of_initialValue? rfl
  refine List.pairwise_append.mpr
    ⟨pairwise_filterMap_id (by simp [apartIfFound_typeName, typeValue, nameValue]), ?_,
      fun left one right among => ?_⟩
  · -- The names stand one after the other in one list of names.
    rcases place.exists_list_of_declaredNames with none | ⟨list, -, -, same⟩
    · rw [none]
      exact .nil
    · rw [same]
      exact (list.nodes_pairwise.filter _).imp Or.inl
  · -- Nothing else is held by that list.
    have listed := heldBy_of_mem_declaredNames among
    simp only [mem_filterMap_id, List.mem_cons, List.not_mem_nil, or_false] at one
    rcases one with found | found | found
    · exact (heldBy_of_declaredType? found.symm).apart listed rfl
    · exact (heldBy_of_leadingName? found.symm).apart listed rfl
    · exact (heldBy_of_initialValue? found.symm).apart listed rfl

/-- The type, the name, the size and the values of an array are apart. -/
theorem pairwise_arrayDecl (place : Place) : (place.shownOf .arrayDecl).Pairwise Apart := by
  -- Children of different kinds hold the type, the name, the size and the values.
  have typeSize : ApartIfFound place.declaredType? place.arraySize? :=
    .of_heldBy heldBy_of_declaredType? heldBy_of_arraySize? rfl
  have nameSize : ApartIfFound place.leadingName? place.arraySize? :=
    .of_heldBy heldBy_of_leadingName? heldBy_of_arraySize? rfl
  have nameItems : ApartIfFound place.leadingName? (place.nodeOf? .argList) :=
    .of_heldBy heldBy_of_leadingName? heldBy_of_nodeOf? rfl
  have sizeItems : ApartIfFound place.arraySize? (place.nodeOf? .argList) :=
    .of_heldBy heldBy_of_arraySize? heldBy_of_nodeOf? rfl
  exact pairwise_filterMap_id (by simp [apartIfFound_typeName, apartIfFound_typeNode, typeSize,
    nameSize, nameItems, sizeItems])

/-- Except in a loop over members, what is looked at from a node is apart from each other. -/
theorem pairwise_shown {clean : Prop} (proper : place.Proper) (formed : place.tree.Formed clean)
    {kind : NodeKind} (isNode : place.kind = .node kind) (other : kind ≠ .forInStmt) :
    place.shown.Pairwise Apart := by
  have nodes {test : Place → Bool} : (place.nodes.filter test).Pairwise Apart :=
    (place.nodes_pairwise.filter _).imp Or.inl
  have operands {m n : Nat} (less : m < n) :
      ApartIfFound (place.expression? m) (place.expression? n) := fun _ one _ another =>
    apart_of_lt (place.nodes_pairwise.filter _) less one another
  rw [shown_eq isNode]
  -- The declarations, the loops and the choice have lemmas of their own.
  cases kind
  case forInStmt => exact absurd rfl other
  case forStmt => exact pairwise_forStmt proper formed isNode
  case ifStmt => exact pairwise_ifStmt proper formed isNode
  case whileStmt => exact pairwise_whileStmt proper formed isNode
  case varDecl => exact place.pairwise_varDecl
  case arrayDecl => exact place.pairwise_arrayDecl
  case root | block | argList | paramList | nameList => exact nodes
  case funcDecl =>
    have parameters : ApartIfFound (place.nodeOf? .paramList) (place.nodeOf? .block) :=
      .of_heldBy heldBy_of_nodeOf? heldBy_of_nodeOf? rfl
    exact pairwise_filterMap_id (by simp [apartIfFound_typeNode, parameters])
  case cast =>
    have typeOperand : ApartIfFound (place.nodeOf? .typeRef) (place.expression? 0) :=
      (ApartIfFound.of_heldBy heldBy_of_expression? heldBy_of_nodeOf? rfl).symm
    exact pairwise_filterMap_id (by simp [typeOperand])
  case index =>
    -- The name is the first of the expressions.
    have named {n : Nat} (positive : 0 < n) :
        ApartIfFound place.leadingName? (place.expression? n) := fun _ one _ another =>
      operands positive _ (Option.eq_some_of_filter_eq_some one) _ another
    exact pairwise_filterMap_id (by simp [named, operands])
  all_goals first
    | exact .nil
    | exact pairwise_filterMap_id (by simp [operands])

end Place

end Dxl
