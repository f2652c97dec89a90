import Dxl.Proofs.View.Passing

/-! Headers: what a loop finds between the words and the marks of its header. -/

namespace Dxl

open Form

/-- An expression begins with a token or with another expression. -/
theorem NodeKind.exists_head {clean : Prop} {kind : NodeKind} {constituents : List Constituent}
    (expression : kind.isExpression = true) (forms : kind.Forms clean constituents) :
    ∃ head rest, constituents = head :: rest ∧ ((∃ token, head = .token token)
      ∨ ∃ made first, head = .node made first ∧ made.isExpression = true) := by
  -- The two ways in which the constituents of an expression can begin.
  have token (token : TokenKind) (rest : List Constituent) : ∃ head others,
      Constituent.token token :: rest = head :: others ∧ ((∃ token, head = .token token)
        ∨ ∃ made first, head = .node made first ∧ made.isExpression = true) :=
    ⟨_, rest, rfl, .inl ⟨token, rfl⟩⟩
  have node {made : NodeKind} (operand : made.isOperand = true) (first : Option TokenKind)
      (rest : List Constituent) : ∃ head others,
      Constituent.node made first :: rest = head :: others ∧ ((∃ token, head = .token token)
        ∨ ∃ made first, head = .node made first ∧ made.isExpression = true) :=
    ⟨_, rest, rfl, .inr ⟨made, first, rfl, isExpression_of_isOperand operand⟩⟩
  -- Literals, names and prefix operators begin with a token, and what is built around an operand
  -- begins with it.
  cases kind <;> first | cases expression; done | skip
  case literal | nameRef | nullRef =>
    obtain ⟨kind, -, rfl⟩ := forms
    exact token _ _
  case prefixed =>
    obtain ⟨operator, operand, -, -, rfl⟩ := forms
    exact token _ _
  case grouping =>
    cases forms
    exact token _ _
  case cast =>
    cases forms with
    | before => exact token _ _
    | after first type operand => exact node operand _ _
  case call =>
    obtain ⟨made, first, list, operand, rfl⟩ := forms
    exact node operand _ _
  case postfixed =>
    obtain ⟨made, first, operator, power, operand, -, rfl⟩ := forms
    exact node operand _ _
  case nameList =>
    cases forms
    exact ⟨_, _, rfl, .inr ⟨_, _, rfl, rfl⟩⟩
  case ternary =>
    cases forms with
    | cut first operand => exact node operand _ _
    | whole first operand => exact node operand _ _
  case index =>
    obtain ⟨first, operand, -, -, -⟩ := forms
    exact node operand _ _
  case concat =>
    obtain ⟨first, operand, -⟩ := forms
    exact node operand _ _
  -- The nodes of binary operators are left, which have one form in common.
  all_goals
    obtain ⟨first, operand, -, -⟩ := forms
    exact node operand _ _

namespace Place

variable {place part inner child : Place} {clean : Prop} {kind : TokenKind} {left right : Nat}

/-- An expression is a node. -/
theorem exists_kind_of_isExpression (expression : place.isExpression = true) :
    ∃ kind, place.kind = .node kind ∧ kind.isExpression = true := by
  rw [isExpression] at expression
  cases isKind : place.kind with
  | token kind =>
    rw [isKind] at expression
    cases expression
  | node kind =>
    rw [isKind] at expression
    exact ⟨kind, rfl, expression⟩

/-- An expression is no leaf. -/
theorem isLeaf_of_isExpression (formed : place.tree.Formed clean)
    (expression : place.isExpression = true) : place.tree.isLeaf = false := by
  obtain ⟨kind, isNode, -⟩ := exists_kind_of_isExpression expression
  exact isLeaf_of_formed formed isNode

/-- An expression is not empty. -/
theorem start_lt_stop_of_isExpression (proper : place.Proper) (formed : place.tree.Formed clean)
    (expression : place.isExpression = true) : place.start < place.stop := by
  induction place using induct with
  | step place ih =>
    have matched := forall₂_significant formed
    obtain ⟨kind, isNode, isExpression⟩ := exists_kind_of_isExpression expression
    -- Its first part is a token or an expression, and neither of these is empty.
    obtain ⟨head, rest, whole, isHead⟩ :=
      NodeKind.exists_head isExpression (forms_of_kind formed isNode)
    rw [whole] at matched
    obtain ⟨child, others, same, -, split⟩ := List.forall₂_cons_right_iff.mp matched
    have among : child ∈ place.significant := by rw [split]; exact List.mem_cons_self
    have member : child ∈ place.children := (List.mem_filter.mp among).1
    have inside := (Within.of_mem_children member).range
    have nonempty : child.start < child.stop := by
      rcases isHead with ⟨token, rfl⟩ | ⟨made, first, rfl, isExpression⟩
      · exact (proper.of_mem_children member).start_lt_stop same.1
      · apply ih child member (proper.of_mem_children member) (formed_of_mem_children formed member)
        rw [Place.isExpression, same.1]
        exact isExpression
    omega

/-- A node right below a place carries meaning. -/
theorem mem_significant_of_mem_nodes (proper : place.Proper) (member : child ∈ place.nodes) :
    child ∈ place.significant := by
  obtain ⟨_, kind, -, isNode, -⟩ := proper.exists_kinds member
  exact List.mem_filter.mpr ⟨(List.mem_filter.mp member).1, by simp [isNode, Kind.passes]⟩

/-- Without errors, all nodes in an expression statement are expressions. -/
theorem isExpression_of_mem_exprStmt (proper : place.Proper) (formed : place.tree.Formed clean)
    (spotless : clean) (isExpr : place.isA .exprStmt = true) (member : child ∈ place.nodes) :
    child.isExpression = true := by
  obtain ⟨outer, inner, isOuter, isInner, held⟩ := proper.exists_kinds member
  cases isOuter.symm.trans (beq_iff_eq.mp isExpr)
  have held : inner.isTerm = true := held
  -- What is held is an operand, or was passed over because of an error.
  rw [NodeKind.isTerm, Bool.or_eq_true, beq_iff_eq] at held
  rcases held with operand | skipped
  · exact isExpression_of_operand isInner operand
  · have formedChild := formed_of_mem_children formed (List.mem_filter.mp member).1
    exact absurd skipped (ne_skipped formedChild spotless isInner)

/-- The content of an expression statement starts no later than any expression in it. -/
theorem exists_content_of_below (proper : place.Proper) (formed : place.tree.Formed clean)
    (spotless : clean) (isExpr : place.isA .exprStmt = true) (below : Below inner place)
    (expression : inner.isExpression = true) :
    ∃ part, place.content? = some part ∧ part.start ≤ inner.start := by
  have composite := isLeaf_of_isExpression (formed_of_within formed (.inr below)) expression
  -- The expression is within one of those right below, of which the content is the first.
  obtain ⟨path, member, within⟩ := below.exists_node composite
  have among : path ∈ place.expressions :=
    List.mem_filter.mpr ⟨member, isExpression_of_mem_exprStmt proper formed spotless isExpr member⟩
  have ordered : place.expressions.Pairwise fun left right => left.stop ≤ right.start :=
    place.nodes_pairwise.filter _
  have inside := within.range
  rw [content?, if_pos isExpr, expression?]
  cases split : place.expressions with
  | nil => simp [split] at among
  | cons part rest =>
    rw [split] at among ordered
    refine ⟨part, rfl, ?_⟩
    -- No expression comes before the first one, which is the content.
    rcases List.mem_cons.mp among with rfl | later
    · exact inside.1
    · have := List.rel_of_pairwise_cons ordered later
      have := part.start_le_stop
      omega

/-- What is found between two offsets lies there and is the first that does, and something is found if an expression is written there. -/
structure Selects (place : Place) (left right : Nat) (found : Option Place) : Prop where
  between : ∀ part, found = some part → left ≤ part.start ∧ part.stop ≤ right
  first : ∀ inner, Below inner place → inner.isExpression = true → left ≤ inner.start →
    inner.stop ≤ right → ∃ part, found = some part ∧ part.start ≤ inner.start

/-- The content of an expression statement is selected between its neighbours. -/
theorem selects_content (proper : place.Proper) (formed : place.tree.Formed clean)
    (spotless : clean) {before after : List Place} {opening clause closing : Place}
    (split : place.significant = before ++ opening :: clause :: closing :: after)
    (isExpr : clause.isA .exprStmt = true) :
    place.Selects opening.stop closing.start clause.content? := by
  have inside : clause ∈ place.children :=
    (List.mem_filter.mp (by simp [split] : clause ∈ place.significant)).1
  -- The clause stands right behind the one token and right before the other.
  obtain ⟨-, following, preceding⟩ := List.pairwise_append.mp (split ▸ place.significant_pairwise)
  obtain ⟨afterOpening, following⟩ := List.pairwise_cons.mp following
  obtain ⟨afterClause, following⟩ := List.pairwise_cons.mp following
  obtain ⟨afterClosing, -⟩ := List.pairwise_cons.mp following
  have := opening.start_le_stop
  have := closing.start_le_stop
  have starts : opening.stop ≤ clause.start := afterOpening clause (by simp)
  have stops : clause.stop ≤ closing.start := afterClause closing (by simp)
  constructor
  · intro part content
    have := (Within.range (.inr (below_of_content? content) : part.Within clause))
    omega
  · intro inner below expression early late
    have formedInner := formed_of_within formed (.inr below)
    have properInner := proper.of_within (.inr below)
    have nonempty := start_lt_stop_of_isExpression properInner formedInner expression
    obtain ⟨path, member, within⟩ :=
      below.exists_node (isLeaf_of_isExpression formedInner expression)
    have range := within.range
    have among := mem_significant_of_mem_nodes proper member
    -- It is not empty, so it lies neither in what comes before nor in what comes after.
    rw [split] at among
    simp only [List.mem_append, List.mem_cons] at among
    rcases among with earlier | rfl | rfl | rfl | later
    · have := preceding path earlier opening (by simp)
      omega
    · omega
    · have below : Below inner path := by
        refine within.resolve_left fun same => ?_
        rw [same, isExpression, beq_iff_eq.mp isExpr] at expression
        cases expression
      exact exists_content_of_below (proper.of_mem_children inside)
        (formed_of_mem_children formed inside) spotless isExpr below expression
    · omega
    · have := afterClosing path later
      omega

/-- A token that carries meaning is not found if no child that does is of its kind. -/
theorem tokenOf?_eq_none (formed : place.tree.Formed clean) (proper : kind.isTrivia = false)
    (absent : ∀ child ∈ place.significant, child.kind ≠ .token kind) :
    place.tokenOf? [kind] = none := by
  rw [tokenOf?_eq_significant formed proper, List.find?_eq_none]
  intro child member
  simpa using absent child member

/-- The tokens of a kind that carries meaning are children that do. -/
theorem filter_tokens (formed : place.tree.Formed clean) (proper : kind.isTrivia = false) :
    (place.tokens.filter fun token => token.kind == .token kind)
      = place.significant.filter fun token => token.kind == .token kind := by
  rw [tokens, significant, List.filter_filter, List.filter_filter]
  -- Both filters keep the same children, as trivia is none of them.
  refine List.filter_congr fun child member => ?_
  have inside : child.above ≠ [] := by simp [above_of_mem_row member]
  by_cases isKind : child.kind = .token kind
  · -- A leaf inside of a tree is a token.
    have formedChild := formed_of_mem_children formed member
    have isToken : child.isToken = true := by
      obtain ⟨tree, start, above⟩ := child
      cases formedChild with
      | leaf => simpa [isToken, Tree.isLeaf] using inside
      | node => cases isKind
    simp [isKind, isToken, Kind.passes, proper]
  · have other : (child.kind == .token kind) = false := by simpa using isKind
    rw [other, Bool.false_and, Bool.false_and]

/-- The tokens of a kind that end before another one are those that come before it. -/
theorem filter_tokens_of_split (proper : place.Proper) (formed : place.tree.Formed clean)
    {before after : List Place} {closing : Place} {last : TokenKind}
    (split : place.significant = before ++ closing :: after) (isToken : closing.kind = .token last)
    (meaningful : kind.isTrivia = false) (differs : last ≠ kind) :
    (place.tokens.filter fun token => token.kind == .token kind && token.stop ≤ closing.start)
      = before.filter fun token => token.kind == .token kind := by
  -- All that comes before the closing token ends before it, and nothing after it does.
  obtain ⟨early, late⟩ := apart_of_split proper split isToken
  have early : (before.filter fun token => token.kind == .token kind).filter
      (·.stop ≤ closing.start) = before.filter fun token => token.kind == .token kind :=
    List.filter_eq_self.mpr fun child member => by
      simpa using (early child (List.mem_filter.mp member).1).1
  have late : (after.filter fun token => token.kind == .token kind).filter
      (·.stop ≤ closing.start) = [] :=
    List.filter_eq_nil_iff.mpr fun child member => by
      simpa using (late child (List.mem_filter.mp member).1).2
  calc (place.tokens.filter fun token => token.kind == .token kind && token.stop ≤ closing.start)
      = (place.tokens.filter fun token => token.kind == .token kind).filter
          (·.stop ≤ closing.start) := by
        rw [List.filter_filter]
        exact List.filter_congr fun child _ => Bool.and_comm _ _
    _ = before.filter fun token => token.kind == .token kind := by
        rw [filter_tokens formed meaningful, split, List.filter_append, List.filter_append,
          List.filter_cons_of_neg (by simp [isToken, differs]), early, late, List.append_nil]

/-- The statements in the header of a counting loop are those before its closing parenthesis. -/
theorem filter_headerNodes (proper : place.Proper) (formed : place.tree.Formed clean)
    {before after : List Place} {closing : Place}
    (split : place.significant = before ++ closing :: after)
    (isToken : closing.kind = .token (.sign .rightParen))
    (first : ∀ child ∈ before, child.kind ≠ .token (.sign .rightParen)) :
    place.headerNodes.filter isStatement = before.filter isStatement := by
  rw [headerNodes, tokenOf?_of_split formed split isToken first]
  exact filter_stop_le_of_split proper formed split isToken NodeKind.isStatement

/-- What the clauses of a counting loop stand between: its parentheses, and the semicolons between these that belong to no clause. -/
def clauseMarks (loop opening closing : Place) : List Place :=
  opening :: (loop.tokens.filter fun token =>
    token.kind == .token (.sign .semicolon) && token.stop ≤ closing.start) ++ [closing]

/-- A counting loop has each clause between the marks with its number and the next one, and its body after its parentheses. -/
structure Counts (loop opening closing : Place) : Prop where
  opens : loop.tokenOf? [.sign .leftParen] = some opening
  closes : loop.tokenOf? [.sign .rightParen] = some closing
  clause : ∀ n left right, (loop.clauseMarks opening closing)[n]? = some left →
    (loop.clauseMarks opening closing)[n + 1]? = some right →
    loop.Selects left.stop right.start (loop.clause? n)
  last : ∀ n, (loop.clauseMarks opening closing).length ≤ n + 1 → loop.clause? n = none
  semicolon : ∀ token, Below token loop → token.kind = .token (.sign .semicolon) →
    opening.stop ≤ token.start → token.stop ≤ closing.start →
    token ∈ loop.clauseMarks opening closing ∨ ∃ clause ∈ loop.headerNodes, Below token clause
  body : ∃ body, loop.statementAfter? (.sign .rightParen) = some body ∧ closing.stop ≤ body.start

/-- A semicolon between the parentheses of a loop is one of its marks or part of a clause. -/
theorem mem_clauseMarks_or {loop opening closing token : Place} (proper : loop.Proper)
    (closes : loop.tokenOf? [.sign .rightParen] = some closing) (below : Below token loop)
    (isToken : token.kind = .token (.sign .semicolon)) (early : token.stop ≤ closing.start) :
    token ∈ loop.clauseMarks opening closing ∨ ∃ clause ∈ loop.headerNodes, Below token clause := by
  have nonempty := (proper.of_within (.inr below)).start_lt_stop isToken
  obtain ⟨child, member, within⟩ := below.exists_child
  cases leaf : child.isToken with
  | true =>
    -- What is within a token is the token itself.
    obtain rfl := within.eq_of_isLeaf (isLeaf_of_isToken leaf)
    left
    have among : token ∈ loop.tokens := List.mem_filter.mpr ⟨member, leaf⟩
    simp [clauseMarks, among, isToken, early]
  | false =>
    right
    have inNodes : child ∈ loop.nodes := List.mem_filter.mpr ⟨member, by simp [leaf]⟩
    have range := within.range
    -- A node that does not come after the closing parenthesis ends before it.
    have isClosing := List.mem_filter.mp (List.mem_of_find?_eq_some closes)
    have before : child.stop ≤ closing.start := by
      rcases eq_or_of_pairwise loop.children_pairwise member isClosing.1 with same | before | after
      · rw [same, isClosing.2] at leaf
        cases leaf
      · exact before
      · have := closing.start_le_stop
        omega
    refine ⟨child, ?_, ?_⟩
    · rw [headerNodes, closes]
      exact List.mem_filter.mpr ⟨inNodes, by simpa using before⟩
    · -- The token is within the node, but is not the node itself.
      refine within.resolve_left fun same => ?_
      obtain ⟨_, kind, -, isNode, -⟩ := proper.exists_kinds inNodes
      rw [← same, isToken] at isNode
      cases isNode

/-- A semicolon and the clause after it, for each of several. -/
def alternating (pairs : List (Place × Place)) : List Place :=
  pairs.flatMap fun pair => [pair.1, pair.2]

/-- The clauses of a counting loop are a first one and others that each follow a semicolon. -/
theorem exists_pairs_of_clauses {constituents : List Constituent} {between : List Place}
    (clauses : Clauses constituents) (matched : List.Forall₂ Matches between constituents) :
    ∃ clause pairs, between = clause :: alternating pairs ∧ clause.isA .exprStmt = true
      ∧ ∀ pair ∈ pairs, pair.1.kind = .token (.sign .semicolon) ∧ pair.2.isA .exprStmt = true := by
  -- One, two and three clauses are given as pairs of a semicolon and a clause.
  cases clauses <;> simp only [List.forall₂_cons_right_iff, List.forall₂_nil_right_iff] at matched
  case one =>
    obtain ⟨one, _, isOne, rfl, rfl⟩ := matched
    exact ⟨one, [], rfl, (matches_exprStmt isOne).1, List.forall_mem_nil _⟩
  case two =>
    obtain ⟨one, _, isOne, ⟨mark, _, isMark, ⟨two, _, isTwo, rfl, rfl⟩, rfl⟩, rfl⟩ := matched
    refine ⟨one, [(mark, two)], rfl, (matches_exprStmt isOne).1, ?_⟩
    simp [isMark.1, (matches_exprStmt isTwo).1]
  case three =>
    obtain ⟨one, _, isOne, ⟨mark, _, isMark, ⟨two, _, isTwo, ⟨further, _, isFurther, ⟨three, _,
      isThree, rfl, rfl⟩, rfl⟩, rfl⟩, rfl⟩, rfl⟩ := matched
    refine ⟨one, [(mark, two), (further, three)], rfl, (matches_exprStmt isOne).1, ?_⟩
    simp [isMark.1, (matches_exprStmt isTwo).1, isFurther.1, (matches_exprStmt isThree).1]

/-- Where clauses alternate with marks, each is selected between the mark with its number and the next one. -/
theorem selects_alternating (proper : place.Proper) (formed : place.tree.Formed clean)
    (spotless : clean) {pairs : List (Place × Place)} {before after : List Place}
    {opening clause closing : Place}
    (split : place.significant
      = before ++ opening :: clause :: (alternating pairs ++ closing :: after))
    (isExpr : clause.isA .exprStmt = true)
    (areExpr : ∀ pair ∈ pairs, pair.2.isA .exprStmt = true) (n : Nat) {left right : Place}
    (atLeft : (opening :: pairs.map Prod.fst ++ [closing])[n]? = some left)
    (atRight : (opening :: pairs.map Prod.fst ++ [closing])[n + 1]? = some right) :
    place.Selects left.stop right.start ((clause :: pairs.map Prod.snd)[n]?.bind content?) := by
  -- Each pair moves the opening mark on to its semicolon.
  induction pairs generalizing before opening clause n with
  | nil =>
    -- The first clause stands between the opening mark and the first semicolon, or the closing
    -- mark.
    cases n with
    | zero =>
      cases atLeft
      cases atRight
      exact selects_content proper formed spotless split isExpr
    | succ n => simp at atRight
  | cons pair rest ih =>
    cases n with
    | zero =>
      cases atLeft
      cases atRight
      exact selects_content proper formed spotless split isExpr
    -- For a later clause the first pair is moved to the part before the marks.
    | succ n =>
      have split : place.significant = (before ++ [opening, clause])
          ++ pair.1 :: pair.2 :: (alternating rest ++ closing :: after) := by
        simpa [alternating] using split
      exact ih split (areExpr pair List.mem_cons_self)
        (fun other member => areExpr other (List.mem_cons_of_mem pair member)) n atLeft atRight

/-- The semicolons and the statements among clauses that alternate with semicolons. -/
theorem filter_alternating {pairs : List (Place × Place)}
    (each : ∀ pair ∈ pairs, pair.1.kind = .token (.sign .semicolon)
      ∧ pair.2.isA .exprStmt = true) :
    ((alternating pairs).filter fun token => token.kind == .token (.sign .semicolon))
        = pairs.map Prod.fst
      ∧ (alternating pairs).filter isStatement = pairs.map Prod.snd
      ∧ ∀ child ∈ alternating pairs, child.kind ≠ .token (.sign .rightParen) := by
  induction pairs with
  | nil => exact ⟨rfl, rfl, List.forall_mem_nil _⟩
  | cons pair rest ih =>
    obtain ⟨isMark, isExpr⟩ := each pair List.mem_cons_self
    obtain ⟨marks, statements, others⟩ :=
      ih fun other member => each other (List.mem_cons_of_mem pair member)
    have isNode := beq_iff_eq.mp isExpr
    have split : alternating (pair :: rest) = pair.1 :: pair.2 :: alternating rest := rfl
    refine ⟨?_, ?_, ?_⟩
    · simp [split, isMark, isNode, marks]
    · simp [split, isStatement_of_token isMark, isStatement_of_isA isExpr, statements]
    · simpa [split, isMark, isNode] using others

/-- Without errors, a counting loop finds its clauses between its marks and its body after them. -/
theorem exists_counts (proper : place.Proper) (formed : place.tree.Formed clean) (spotless : clean)
    (isNode : place.kind = .node .forStmt) : ∃ opening closing, place.Counts opening closing := by
  have matched := forall₂_significant formed
  have forms : For clean _ := forms_of_kind formed isNode
  generalize Tree.constituents place.tree.children = constituents at forms matched
  cases forms with
  -- A missing closing parenthesis would be an error.
  | cut _ flawed => exact absurd spotless flawed
  | closed clauses statement =>
    simp only [List.forall₂_cons_right_iff] at matched
    obtain ⟨word, _, isWord, ⟨opening, _, isOpening, others, rfl⟩, split⟩ := matched
    obtain ⟨between, _, rfl, isBetween, others⟩ := exists_append_of_forall₂ others
    obtain ⟨closing, after, isClosing, isBody, rfl⟩ := List.forall₂_cons_right_iff.mp others
    obtain ⟨clause, pairs, rfl, isExpr, each⟩ := exists_pairs_of_clauses clauses isBetween
    obtain ⟨marks, statements, noParen⟩ := filter_alternating each
    have isClause := beq_iff_eq.mp isExpr
    obtain ⟨⟨body, one⟩, -⟩ := unmarked_of_statement statement isBody
    -- The closing parenthesis is the first one right below the loop.
    have split : place.significant
        = (word :: opening :: clause :: alternating pairs) ++ closing :: after := split
    have first : ∀ child ∈ word :: opening :: clause :: alternating pairs,
        child.kind ≠ .token (.sign .rightParen) := by
      simpa [isWord.1, isOpening.1, isClause] using noParen
    have closes := tokenOf?_of_split formed split isClosing.1 first
    -- The header is all that comes before the closing parenthesis, and its statements are the
    -- clauses.
    have header : place.headerNodes.filter isStatement = clause :: pairs.map Prod.snd := by
      rw [filter_headerNodes proper formed split isClosing.1 first]
      simp [isStatement_of_token isWord.1, isStatement_of_token isOpening.1,
        isStatement_of_isA isExpr, statements]
    -- The semicolons in front of the closing parenthesis are those between the clauses.
    have marked : place.clauseMarks opening closing
        = opening :: pairs.map Prod.fst ++ [closing] := by
      rw [clauseMarks, filter_tokens_of_split proper formed split isClosing.1 rfl (by decide)]
      simp [isWord.1, isOpening.1, isClause, marks]
    have follows := statementAfter?_of_split proper formed split isClosing.1 first
    have opens : place.significant
        = [word] ++ opening :: clause :: (alternating pairs ++ closing :: after) := by
      simpa using split
    -- The fields of the structure, in order; the clauses are where the marks alternate with them.
    refine ⟨opening, closing, ?_, closes, ?_, ?_, ?_, ?_⟩
    · exact tokenOf?_of_split formed opens isOpening.1 (by simp [isWord.1])
    · intro n left right atLeft atRight
      rw [marked] at atLeft atRight
      rw [clause?, header]
      exact selects_alternating proper formed spotless opens isExpr
        (fun pair member => (each pair member).2) n atLeft atRight
    · intro n long
      rw [marked] at long
      rw [clause?, header, List.getElem?_eq_none (by simpa using long)]
      rfl
    · intro token below isToken _ early
      exact mem_clauseMarks_or proper closes below isToken early
    · rw [one] at follows
      refine ⟨body, follows, ?_⟩
      have among : body ∈ after := (List.mem_filter.mp (one ▸ List.mem_singleton_self body)).1
      exact ((apart_of_split proper split isClosing.1).2 body among).1

/-- A loop over members has each part between the words that the part stands between; without a word before what it runs over, it takes its item from the first statement that there is. -/
structure RunsOver (loop forWord doWord : Place) : Prop where
  starts : loop.tokenOf? [.keyword .forWord] = some forWord
  repeats : loop.tokenOf? [.keyword .doWord] = some doWord
  item : ∀ inWord, loop.tokenOf? [.keyword .inWord] = some inWord →
    loop.Selects forWord.stop inWord.start (loop.contentOf? 0)
  itemTaken : loop.tokenOf? [.keyword .inWord] = none →
    loop.contentOf? 0 = ((loop.statementAfter? (.keyword .byWord)).or
      (loop.statementAfter? (.keyword .doWord))).bind content?
  whole : ∀ inWord next, loop.tokenOf? [.keyword .inWord] = some inWord →
    loop.tokenOf? [.keyword .byWord, .keyword .doWord] = some next →
    loop.Selects inWord.stop next.start (loop.contentAfter? (.keyword .inWord))
  step : ∀ byWord, loop.tokenOf? [.keyword .byWord] = some byWord →
    loop.Selects byWord.stop doWord.start (loop.contentAfter? (.keyword .byWord))
  body : ∃ body, loop.statementAfter? (.keyword .doWord) = some body ∧ doWord.stop ≤ body.start

/-- Without errors, what a declaration or a statement leaves holds a statement. -/
theorem exists_statement_of_declared {constituents : List Constituent} {places : List Place}
    (declared : Declared clean constituents) (spotless : clean)
    (matched : List.Forall₂ Matches places constituents) :
    ∃ body, places.filter isStatement = [body] := by
  obtain ⟨⟨body, filtered⟩, -⟩ := unmarked_of_declared declared matched
  -- It holds at most one statement, so that any statement that it holds is the one.
  suffices some : ∃ child ∈ places, child.isStatement = true by
    obtain ⟨child, member, statement⟩ := some
    have among : child ∈ body.toList := filtered ▸ List.mem_filter.mpr ⟨member, statement⟩
    rw [Option.mem_toList] at among
    exact ⟨child, by rw [filtered, among]; rfl⟩
  -- A declaration is one, and what was passed over is excluded by the lack of errors.
  cases declared with
  | declaration first _ declaration =>
    obtain ⟨_, others, rfl, -, others'⟩ := exists_append_of_forall₂ matched
    simp only [List.forall₂_cons_right_iff, List.forall₂_nil_right_iff] at others'
    obtain ⟨node, _, isNode, rfl, rfl⟩ := others'
    refine ⟨node, by simp, ?_⟩
    rw [isStatement_of_kind isNode.1]
    exact NodeKind.isStatement_of_isDeclaration declaration
  | skipped _ _ flawed => exact absurd spotless flawed
  | statement _ statement =>
    obtain ⟨_, others, rfl, -, isOthers⟩ := exists_append_of_forall₂ matched
    obtain ⟨⟨only, one⟩, -⟩ := unmarked_of_statement statement isOthers
    have among := List.mem_filter.mp (one ▸ List.mem_singleton_self only)
    exact ⟨only, List.mem_append_right _ among.1, among.2⟩

/-- What stands before the word that starts the body of a loop over members: nothing or its step. -/
theorem exists_of_step {constituents : List Constituent} {steps : List Place}
    (isStep : Step constituents) (matched : List.Forall₂ Matches steps constituents) :
    steps = [] ∨ ∃ byWord step, steps = [byWord, step]
      ∧ byWord.kind = .token (.keyword .byWord) ∧ step.isA .exprStmt = true := by
  cases isStep <;> simp only [List.forall₂_cons_right_iff, List.forall₂_nil_right_iff] at matched
  case absent => exact .inl matched
  case given =>
    obtain ⟨byWord, _, isBy, ⟨step, _, isExpr, rfl, rfl⟩, rfl⟩ := matched
    exact .inr ⟨byWord, step, rfl, isBy.1, (matches_exprStmt isExpr).1⟩

/-- Without errors, what stands first in a loop over members is nothing, or its item and what it runs over. -/
theorem exists_of_member {constituents : List Constituent} {members : List Place}
    (isMember : Member clean constituents) (spotless : clean)
    (matched : List.Forall₂ Matches members constituents) :
    members = [] ∨ ∃ item inWord whole, members = [item, inWord, whole]
      ∧ inWord.kind = .token (.keyword .inWord) ∧ item.isA .exprStmt = true
      ∧ whole.isA .exprStmt = true := by
  cases isMember <;> simp only [List.forall₂_cons_right_iff, List.forall₂_nil_right_iff] at matched
  case absent => exact .inl matched
  case cut flawed => exact absurd spotless flawed
  case given =>
    obtain ⟨item, _, isItem, ⟨inWord, _, isIn, ⟨whole, _, isWhole, rfl, rfl⟩, rfl⟩, rfl⟩ := matched
    exact .inr ⟨item, inWord, whole, rfl, isIn.1, (matches_exprStmt isItem).1,
      (matches_exprStmt isWhole).1⟩

/-- A loop over members is made up of its words, what stands first, its step and what it repeats. -/
structure MembersLaidOut (loop forWord doWord body : Place) (members steps bodies : List Place) :
    Prop where
  split : loop.significant = forWord :: members ++ (steps ++ doWord :: bodies)
  isFor : forWord.kind = .token (.keyword .forWord)
  isDo : doWord.kind = .token (.keyword .doWord)
  isMember : members = [] ∨ ∃ item inWord whole, members = [item, inWord, whole]
    ∧ inWord.kind = .token (.keyword .inWord) ∧ item.isA .exprStmt = true
    ∧ whole.isA .exprStmt = true
  isStep : steps = [] ∨ ∃ byWord step, steps = [byWord, step]
    ∧ byWord.kind = .token (.keyword .byWord) ∧ step.isA .exprStmt = true
  isBody : bodies.filter isStatement = [body]
  unmarked : Unmarked bodies

/-- Without errors, a loop over members is laid out in this way. -/
theorem exists_membersLaidOut (formed : place.tree.Formed clean) (spotless : clean)
    (isNode : place.kind = .node .forInStmt) :
    ∃ forWord doWord body members steps bodies,
      place.MembersLaidOut forWord doWord body members steps bodies := by
  have matched := forall₂_significant formed
  have forms : ForIn clean _ := forms_of_kind formed isNode
  generalize Tree.constituents place.tree.children = constituents at forms matched
  obtain ⟨isMember, isStep, isWord, declared⟩ := forms
  obtain ⟨forWord, _, isFor, others, split⟩ := List.forall₂_cons_right_iff.mp matched
  -- The constituents are members, steps, the word and bodies; the children are split in the same
  -- way, from the end.
  obtain ⟨early, bodies, rfl, others, isBodies⟩ := exists_append_of_forall₂ others
  obtain ⟨early, words, rfl, others, isWords⟩ := exists_append_of_forall₂ others
  obtain ⟨members, steps, rfl, isMembers, isSteps⟩ := exists_append_of_forall₂ others
  cases isWord with
  | absent flawed => exact absurd spotless flawed
  | present =>
    simp only [List.forall₂_cons_right_iff, List.forall₂_nil_right_iff] at isWords
    obtain ⟨doWord, _, isDo, rfl, rfl⟩ := isWords
    obtain ⟨body, one⟩ := exists_statement_of_declared declared spotless isBodies
    obtain ⟨-, unmarked⟩ := unmarked_of_declared declared isBodies
    exact ⟨forWord, doWord, body, members, steps, bodies, by simpa using split, isFor.1, isDo.1,
      exists_of_member isMember spotless isMembers, exists_of_step isStep isSteps, one, unmarked⟩

namespace MembersLaidOut

variable {loop forWord doWord body : Place} {members steps bodies : List Place}

/-- What stands first holds neither the word of the step nor that of the body. -/
theorem members_lack (laidOut : loop.MembersLaidOut forWord doWord body members steps bodies) :
    ∀ child ∈ forWord :: members, child.kind ≠ .token (.keyword .byWord)
      ∧ child.kind ≠ .token (.keyword .doWord) := by
  have isFor := laidOut.isFor
  obtain rfl | ⟨item, inWord, whole, rfl, isIn, isItem, isWhole⟩ := laidOut.isMember
  · -- Neither an item nor what the loop runs over is a token, and their word is another one.
    simp [isFor]
  · simp [isFor, isIn, beq_iff_eq.mp isItem, beq_iff_eq.mp isWhole]

/-- The step holds neither the word before what the loop runs over nor that of the body. -/
theorem steps_lack (laidOut : loop.MembersLaidOut forWord doWord body members steps bodies) :
    ∀ child ∈ steps, child.kind ≠ .token (.keyword .inWord)
      ∧ child.kind ≠ .token (.keyword .doWord) := by
  obtain rfl | ⟨byWord, step, rfl, isBy, isExpr⟩ := laidOut.isStep
  · exact List.forall_mem_nil _
  · simp [isBy, beq_iff_eq.mp isExpr]

/-- The statements of a loop over members are those in its portions. -/
theorem statements_eq (laidOut : loop.MembersLaidOut forWord doWord body members steps bodies)
    (formed : loop.tree.Formed clean) :
    loop.statements = members.filter isStatement ++ (steps.filter isStatement ++ [body]) := by
  rw [statements_eq_significant formed, laidOut.split]
  simp [isStatement_of_token laidOut.isFor, isStatement_of_token laidOut.isDo, laidOut.isBody]

/-- The body is found after its word. -/
theorem body_found (laidOut : loop.MembersLaidOut forWord doWord body members steps bodies)
    (proper : loop.Proper) (formed : loop.tree.Formed clean) :
    loop.tokenOf? [.keyword .doWord] = some doWord
      ∧ loop.statementAfter? (.keyword .doWord) = some body ∧ doWord.stop ≤ body.start := by
  -- The word of the body is the first of its kind, since none of the portions before it holds one.
  have split : loop.significant = (forWord :: members ++ steps) ++ doWord :: bodies := by
    simp [laidOut.split]
  have lacks : ∀ child ∈ forWord :: members ++ steps, child.kind ≠ .token (.keyword .doWord) :=
    List.forall_mem_append.mpr ⟨fun child member => (laidOut.members_lack child member).2,
      fun child member => (laidOut.steps_lack child member).2⟩
  have among := (List.mem_filter.mp (laidOut.isBody ▸ List.mem_singleton_self body)).1
  refine ⟨tokenOf?_of_split formed split laidOut.isDo lacks, ?_,
    ((apart_of_split proper split laidOut.isDo).2 body among).1⟩
  rw [statementAfter?_of_split proper formed split laidOut.isDo lacks, laidOut.isBody]
  rfl

/-- A step is found after its word, and where there is no step there is no such word. -/
theorem step_found (laidOut : loop.MembersLaidOut forWord doWord body members steps bodies)
    (proper : loop.Proper) (formed : loop.tree.Formed clean) :
    steps = [] ∧ loop.tokenOf? [.keyword .byWord] = none
      ∨ ∃ byWord step, steps = [byWord, step] ∧ byWord.isStatement = false
        ∧ step.isA .exprStmt = true ∧ loop.tokenOf? [.keyword .byWord] = some byWord
        ∧ loop.statementAfter? (.keyword .byWord) = some step := by
  have split := laidOut.split
  have lacks : ∀ child ∈ forWord :: members, child.kind ≠ .token (.keyword .byWord) :=
    fun child member => (laidOut.members_lack child member).1
  -- Without a step no portion holds its word, and with a step its word comes first in it.
  obtain rfl | ⟨byWord, step, rfl, isBy, isExpr⟩ := laidOut.isStep
  · refine .inl ⟨rfl, tokenOf?_eq_none formed rfl ?_⟩
    rw [split]
    apply List.forall_mem_append.mpr ⟨lacks, List.forall_mem_cons.mpr ⟨?_, laidOut.unmarked _ rfl⟩⟩
    simp [laidOut.isDo]
  · refine .inr ⟨byWord, step, rfl, isStatement_of_token isBy, isExpr,
      tokenOf?_of_split formed split isBy lacks, ?_⟩
    have split : loop.significant
        = (forWord :: members) ++ byWord :: step :: (doWord :: bodies) := split
    rw [statementAfter?_of_split proper formed split isBy lacks,
      List.filter_cons_of_pos (isStatement_of_isA isExpr)]
    rfl

/-- After what stands first comes the word of the step or else that of the body. -/
theorem exists_onward (laidOut : loop.MembersLaidOut forWord doWord body members steps bodies)
    (formed : loop.tree.Formed clean) :
    ∃ onward rest, steps ++ doWord :: bodies = onward :: rest
      ∧ loop.tokenOf? [.keyword .byWord, .keyword .doWord] = some onward := by
  have split := laidOut.split
  have lacks : ∀ child ∈ forWord :: members, ∀ other ∈
      [TokenKind.keyword .byWord, .keyword .doWord], child.kind ≠ .token other := by
    simpa using laidOut.members_lack
  -- The step begins with one of the two words, and without a step the other one follows.
  obtain rfl | ⟨byWord, step, rfl, isBy, isExpr⟩ := laidOut.isStep
  · exact ⟨doWord, bodies, rfl,
      tokenOf?_of_mem formed (by decide) split laidOut.isDo (by simp) lacks⟩
  · exact ⟨byWord, step :: doWord :: bodies, rfl,
      tokenOf?_of_mem formed (by decide) split isBy (by simp) lacks⟩

/-- The word before what a loop runs over stands after the item, and is missing together with it. -/
theorem member_found (laidOut : loop.MembersLaidOut forWord doWord body members steps bodies)
    (formed : loop.tree.Formed clean) :
    members = [] ∧ loop.tokenOf? [.keyword .inWord] = none
      ∨ ∃ item inWord whole, members = [item, inWord, whole]
        ∧ inWord.kind = .token (.keyword .inWord) ∧ item.isA .exprStmt = true
        ∧ whole.isA .exprStmt = true
        ∧ (∀ child ∈ [forWord, item], child.kind ≠ .token (.keyword .inWord))
        ∧ loop.tokenOf? [.keyword .inWord] = some inWord := by
  have split := laidOut.split
  have isFor := laidOut.isFor
  -- Without an item the word is in no portion at all.
  obtain rfl | ⟨item, inWord, whole, rfl, isIn, isItem, isWhole⟩ := laidOut.isMember
  · refine .inl ⟨rfl, tokenOf?_eq_none formed rfl ?_⟩
    rw [split]
    have early : ∀ child ∈ [forWord], child.kind ≠ .token (.keyword .inWord) := by simp [isFor]
    have late : ∀ child ∈ doWord :: bodies, child.kind ≠ .token (.keyword .inWord) :=
      List.forall_mem_cons.mpr ⟨by simp [laidOut.isDo], laidOut.unmarked _ rfl⟩
    exact List.forall_mem_append.mpr ⟨early, List.forall_mem_append.mpr
      ⟨fun child member => (laidOut.steps_lack child member).1, late⟩⟩
  · have lacks : ∀ child ∈ [forWord, item], child.kind ≠ .token (.keyword .inWord) := by
      simp [isFor, beq_iff_eq.mp isItem]
    have split : loop.significant
        = [forWord, item] ++ inWord :: whole :: (steps ++ doWord :: bodies) := split
    exact .inr ⟨item, inWord, whole, rfl, isIn, isItem, isWhole, lacks,
      tokenOf?_of_split formed split isIn lacks⟩

end MembersLaidOut

/-- Without errors, a loop over members finds its parts between the words of its header and its body after them. -/
theorem exists_runsOver (proper : place.Proper) (formed : place.tree.Formed clean)
    (spotless : clean) (isNode : place.kind = .node .forInStmt) :
    ∃ forWord doWord, place.RunsOver forWord doWord := by
  obtain ⟨forWord, doWord, body, members, steps, bodies, laidOut⟩ :=
    exists_membersLaidOut formed spotless isNode
  have split := laidOut.split
  obtain ⟨isDo, afterDo, late⟩ := laidOut.body_found proper formed
  have statements := laidOut.statements_eq formed
  have begins : place.significant
      = [] ++ forWord :: (members ++ (steps ++ doWord :: bodies)) := split
  have starts := tokenOf?_of_split formed begins laidOut.isFor (List.forall_mem_nil _)
  -- The fields of the structure, in order; each part lies between the words around its portion.
  refine ⟨forWord, doWord, starts, isDo, ?_, ?_, ?_, ?_, body, afterDo, late⟩
  · intro inWord found
    obtain ⟨-, none⟩ | ⟨item, other, whole, rfl, -, isItem, -, -, isIn⟩ :=
      laidOut.member_found formed
    · cases none.symm.trans found
    · cases isIn.symm.trans found
      -- The item is the first statement.
      have first : place.contentOf? 0 = item.content? := by
        rw [contentOf?, statement?, statements, List.filter_cons_of_pos (isStatement_of_isA isItem)]
        rfl
      rw [first]
      exact selects_content proper formed spotless begins isItem
  · intro noIn
    obtain ⟨rfl, -⟩ | ⟨item, inWord, whole, -, -, -, -, -, isIn⟩ := laidOut.member_found formed
    · -- The first statement is that of the step, and without a step the body.
      rw [contentOf?, statement?, statements, afterDo]
      obtain ⟨rfl, noBy⟩ | ⟨byWord, step, rfl, isBy, isExpr, -, afterBy⟩ :=
        laidOut.step_found proper formed
      · rw [statementAfter?, noBy]
        rfl
      · rw [afterBy]
        simp [isBy, isStatement_of_isA isExpr]
    · cases noIn.symm.trans isIn
  · intro inWord next found isNext
    obtain ⟨-, none⟩ | ⟨item, other, whole, rfl, isIn, -, isWhole, lacks, first⟩ :=
      laidOut.member_found formed
    · cases none.symm.trans found
    · cases first.symm.trans found
      -- What the loop runs over ends at the word that comes next, of the step or of the body.
      obtain ⟨onward, rest, follows, isOnward⟩ := laidOut.exists_onward formed
      cases isOnward.symm.trans isNext
      have split : place.significant = [forWord, item] ++ inWord :: whole :: next :: rest := by
        simpa [follows] using split
      rw [contentAfter?, statementAfter?_of_split proper formed split isIn lacks,
        List.filter_cons_of_pos (isStatement_of_isA isWhole)]
      exact selects_content proper formed spotless split isWhole
  · intro byWord found
    obtain ⟨-, noBy⟩ | ⟨other, step, rfl, -, isExpr, isBy, afterBy⟩ :=
      laidOut.step_found proper formed
    · cases noBy.symm.trans found
    · cases isBy.symm.trans found
      rw [contentAfter?, afterBy]
      exact selects_content proper formed spotless split isExpr

end Place

end Dxl
