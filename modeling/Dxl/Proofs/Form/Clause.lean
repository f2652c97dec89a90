import Dxl.Proofs.Form.Place
import Dxl.View.Parts

/-! Clauses: which statements a choice or a loop holds, and after which of its tokens they stand. -/

namespace Dxl

/-- Statements other than declarations are viewed as statements. -/
theorem NodeKind.isStatement_of_isAction {kind : NodeKind} (action : kind.isAction = true) :
    kind.isStatement = true := by
  cases kind <;> first | rfl | cases action

/-- Declarations are viewed as statements. -/
theorem NodeKind.isStatement_of_isDeclaration {kind : NodeKind}
    (declaration : kind.isDeclaration = true) : kind.isStatement = true := by
  cases kind <;> first | rfl | cases declaration

namespace Place

open Form

variable {place token child : Place} {clean : Prop} {kind : TokenKind}
  {places : List Place} {constituents : List Constituent}

/-- A place that is known to be of some kind is viewed as a statement as that kind is. -/
theorem isStatement_of_kind {kind : Kind} (isKind : place.kind = kind) :
    place.isStatement = kind.isNodeWith NodeKind.isStatement := by
  rw [isStatement, isKind]

/-- A token is no statement. -/
theorem isStatement_of_token (isToken : place.kind = .token kind) : place.isStatement = false :=
  isStatement_of_kind isToken

/-- The children that carry meaning follow each other. -/
theorem significant_pairwise (place : Place) :
    place.significant.Pairwise (fun left right => left.stop ≤ right.start) :=
  place.children_pairwise.filter _

/-- A token of several kinds that carry meaning is found among the children that do. -/
theorem tokenOf?_eq_find (formed : place.tree.Formed clean) {kinds : List TokenKind}
    (proper : ∀ kind ∈ kinds, kind.isTrivia = false) :
    place.tokenOf? kinds = place.significant.find? fun child =>
      kinds.any fun kind => child.kind == .token kind := by
  rw [tokenOf?, tokens, significant, List.find?_filter, List.find?_filter]
  -- Both searches test the same children in the same order.
  refine List.find?_congr fun child member => ?_
  have inside : child.above ≠ [] := by simp [above_of_mem_row member]
  have formedChild := formed_of_mem_children formed member
  obtain ⟨tree, start, above⟩ := child
  cases formedChild with
  | leaf other text =>
    -- A token of one of the kinds carries meaning, so that it is significant.
    by_cases among : other ∈ kinds
    · have token : isToken ⟨.leaf (.token other) text, start, above⟩ = true := by
        simpa [isToken, Tree.isLeaf] using inside
      simp [token, Place.kind, Tree.kind, Kind.passes, proper other among]
    · -- Any other token fails either test.
      have absent : (kinds.any fun kind => Kind.token other == .token kind) = false := by
        simp only [List.any_eq_false, beq_iff_eq, Kind.token.injEq]
        exact fun kind member same => among (same ▸ member)
      simp only [Place.kind, Tree.kind, absent, Bool.false_eq_true, and_false]
  | node => simp [Place.kind, Tree.kind]

/-- A token that carries meaning is found among the children that do. -/
theorem tokenOf?_eq_significant (formed : place.tree.Formed clean) (proper : kind.isTrivia = false) :
    place.tokenOf? [kind] = place.significant.find? fun child => child.kind == .token kind := by
  rw [tokenOf?_eq_find formed (List.forall_mem_singleton.mpr proper)]
  exact List.find?_congr fun child _ => by simp

/-- After a token that the children do not hold there is no statement. -/
theorem statementAfter?_eq_none (formed : place.tree.Formed clean) (proper : kind.isTrivia = false)
    (absent : ∀ child ∈ place.significant, child.kind ≠ .token kind) :
    place.statementAfter? kind = none := by
  -- There is no such token to start after.
  have none : place.tokenOf? [kind] = none := by
    rw [tokenOf?_eq_significant formed proper, List.find?_eq_none]
    exact fun child member => by simpa using absent child member
  rw [statementAfter?, none, Option.bind_none]

/-- A token that carries meaning lies between the children before it and those after it. -/
theorem apart_of_split (proper : place.Proper) {before after : List Place}
    (split : place.significant = before ++ token :: after) (isToken : token.kind = .token kind) :
    (∀ child ∈ before, child.stop ≤ token.start ∧ ¬ token.stop ≤ child.start)
      ∧ ∀ child ∈ after, token.stop ≤ child.start ∧ ¬ child.stop ≤ token.start := by
  have among : token ∈ place.significant := by simp [split]
  have nonempty := (proper.of_mem_children (List.mem_filter.mp among).1).start_lt_stop isToken
  obtain ⟨-, following, preceding⟩ := List.pairwise_append.mp (split ▸ place.significant_pairwise)
  -- Children do not overlap, and the token is not empty, so a child cannot lie on its other side
  -- too.
  refine ⟨fun child member => ?_, fun child member => ?_⟩
  · have := preceding child member token (by simp)
    have := child.start_le_stop
    omega
  · have := (List.pairwise_cons.mp following).1 child member
    have := child.start_le_stop
    omega

/-- The first token of several kinds that carry meaning is the one that is found. -/
theorem tokenOf?_of_mem (formed : place.tree.Formed clean) {kinds : List TokenKind}
    (proper : ∀ kind ∈ kinds, kind.isTrivia = false) {before after : List Place}
    (split : place.significant = before ++ token :: after) (isToken : token.kind = .token kind)
    (among : kind ∈ kinds)
    (first : ∀ child ∈ before, ∀ other ∈ kinds, child.kind ≠ .token other) :
    place.tokenOf? kinds = some token := by
  -- No child before the token passes, and the token itself does.
  have none : before.find? (fun child => kinds.any fun kind => child.kind == .token kind) = none := by
    simpa only [List.find?_eq_none, List.any_eq_true, beq_iff_eq, not_exists, not_and] using first
  have passes : (kinds.any fun other => token.kind == .token other) = true :=
    List.any_eq_true.mpr ⟨kind, among, beq_iff_eq.mpr isToken⟩
  rw [tokenOf?_eq_find formed proper, split, List.find?_append, none, Option.none_or]
  exact List.find?_cons_of_pos passes

/-- The first token of its kind that carries meaning is the one that is found. -/
theorem tokenOf?_of_split (formed : place.tree.Formed clean) {before after : List Place}
    (split : place.significant = before ++ token :: after) (isToken : token.kind = .token kind)
    (first : ∀ child ∈ before, child.kind ≠ .token kind) : place.tokenOf? [kind] = some token := by
  have among : token ∈ place.significant := by simp [split]
  have passes := (List.mem_filter.mp among).2
  refine tokenOf?_of_mem formed (List.forall_mem_singleton.mpr ?_) split isToken
    (List.mem_singleton_self kind) fun child member => List.forall_mem_singleton.mpr (first child member)
  simpa [isToken, Kind.passes] using passes

/-- The statement after a token is the first one among the children after the token. -/
theorem statementAfter?_of_split (proper : place.Proper) (formed : place.tree.Formed clean)
    {before after : List Place} (split : place.significant = before ++ token :: after)
    (isToken : token.kind = .token kind) (first : ∀ child ∈ before, child.kind ≠ .token kind) :
    place.statementAfter? kind = (after.filter isStatement).head? := by
  obtain ⟨early, late⟩ := apart_of_split proper split isToken
  -- The statements before the token start before its end, and all of those after it start later.
  have skipped : (before.filter isStatement).find? (token.stop ≤ ·.start) = none :=
    List.find?_eq_none.mpr fun child member => by
      simpa using (early child (List.mem_filter.mp member).1).2
  have following : (after.filter isStatement).find? (token.stop ≤ ·.start)
      = (after.filter isStatement).head? := by
    rw [← List.head?_filter, List.filter_eq_self.mpr fun child member => ?_]
    simpa using (late child (List.mem_filter.mp member).1).1
  calc place.statementAfter? kind
      = place.statements.find? (token.stop ≤ ·.start) := by
        rw [statementAfter?, tokenOf?_of_split formed split isToken first, Option.bind_some,
          statements, List.find?_filter]
        exact List.find?_congr fun child _ => by simp [Bool.and_comm]
    _ = (after.filter isStatement).find? (token.stop ≤ ·.start) := by
        rw [statements_eq_significant formed, split, List.filter_append, List.find?_append, skipped,
          List.filter_cons_of_neg (by simp [isStatement_of_token isToken]), Option.none_or]
    _ = (after.filter isStatement).head? := following

/-- Places of which none is a token of a kind that goes on inside of a statement. -/
def Unmarked (places : List Place) : Prop :=
  ∀ kind : TokenKind, kind.endsStatement = false → ∀ child ∈ places, child.kind ≠ .token kind

/-- What ends a statement holds neither a statement nor another token. -/
theorem unmarked_of_ends (ends : Ends constituents)
    (matched : List.Forall₂ Matches places constituents) :
    places.filter isStatement = [] ∧ Unmarked places := by
  -- Each of the places is one of the tokens that end a statement.
  have each : ∀ child ∈ places, ∃ kind, child.kind = .token kind ∧ kind.endsStatement = true := by
    intro child member
    obtain ⟨_, among, same⟩ := exists_matches matched member
    obtain ⟨kind, rfl, isEnd⟩ := ends _ among
    exact ⟨kind, same.1, isEnd⟩
  refine ⟨List.filter_eq_nil_iff.mpr fun child member => ?_, fun kind inside child member same => ?_⟩
  · obtain ⟨kind, isToken, -⟩ := each child member
    simp [isStatement_of_token isToken]
  · obtain ⟨other, isToken, isEnd⟩ := each child member
    cases isToken.symm.trans same
    simp [inside] at isEnd

/-- A statement and what ends it hold one statement and no further token. -/
theorem unmarked_of_statement (statement : Form.Statement constituents)
    (matched : List.Forall₂ Matches places constituents) :
    (∃ only, places.filter isStatement = [only]) ∧ Unmarked places := by
  obtain ⟨action, ends⟩ := statement
  obtain ⟨node, rest, ⟨isNode, -⟩, others, rfl⟩ := List.forall₂_cons_right_iff.mp matched
  obtain ⟨none, unmarked⟩ := unmarked_of_ends ends others
  have isStatement : node.isStatement = true := by
    rw [isStatement_of_kind isNode]
    exact NodeKind.isStatement_of_isAction action
  refine ⟨⟨node, by rw [List.filter_cons_of_pos isStatement, none]⟩, fun kind inside => ?_⟩
  exact List.forall_mem_cons.mpr ⟨by simp [isNode], unmarked kind inside⟩

/-- An expression statement is viewed as a statement. -/
theorem isStatement_of_isA (isExpr : place.isA .exprStmt = true) : place.isStatement = true := by
  rw [isStatement_of_kind (beq_iff_eq.mp isExpr)]
  rfl

/-- An expression as a clause is a statement. -/
theorem matches_exprStmt {first : Option TokenKind} (same : place.Matches (.node .exprStmt first)) :
    place.isA .exprStmt = true ∧ place.isStatement = true :=
  have isExpr : place.isA .exprStmt = true := by simp [isA, same.1]
  ⟨isExpr, isStatement_of_isA isExpr⟩

/-- A loop with a condition holds the condition and what it repeats. -/
theorem statements_whileStmt (proper : place.Proper) (formed : place.tree.Formed clean)
    (isNode : place.kind = .node .whileStmt) :
    ∃ condition : Option Place, (∀ clause ∈ condition, clause.isA .exprStmt = true)
      ∧ place.statements = condition.toList ++ (place.statementAfter? (.sign .rightParen)).toList
      ∧ (condition = none → place.statementAfter? (.sign .rightParen) = none) := by
  have matched := forall₂_significant formed
  have forms : While clean _ := forms_of_kind formed isNode
  generalize Tree.constituents place.tree.children = constituents at forms matched
  rw [statements_eq_significant formed]
  -- Where the closing parenthesis is missing, nothing is found after it.
  have absent (other : ∀ child ∈ place.significant, child.kind ≠ .token (.sign .rightParen)) :=
    statementAfter?_eq_none formed rfl other
  cases forms with
  | bare =>
    simp only [List.forall₂_cons_right_iff, List.forall₂_nil_right_iff] at matched
    obtain ⟨word, _, isWord, rfl, split⟩ := matched
    rw [absent (by simp [split, isWord.1]), split]
    exact ⟨none, by simp, by simp [isStatement_of_token isWord.1], fun _ => rfl⟩
  | cut =>
    simp only [List.forall₂_cons_right_iff, List.forall₂_nil_right_iff] at matched
    obtain ⟨word, _, isWord, ⟨paren, _, isParen, ⟨clause, _, isClause, rfl, rfl⟩, rfl⟩, split⟩ :=
      matched
    obtain ⟨isExpr, isStatement⟩ := matches_exprStmt isClause
    rw [absent (by simp [split, isWord.1, isParen.1, isClause.1]), split]
    exact ⟨some clause, by simpa using isExpr, by simp [isStatement_of_token isWord.1,
      isStatement_of_token isParen.1, isStatement], fun _ => rfl⟩
  | closed _ statement =>
    simp only [List.forall₂_cons_right_iff] at matched
    obtain ⟨word, _, isWord, ⟨paren, _, isParen, ⟨clause, _, isClause, ⟨close, body, isClose, others,
      rfl⟩, rfl⟩, rfl⟩, split⟩ := matched
    obtain ⟨isExpr, isStatement⟩ := matches_exprStmt isClause
    -- The body is the only statement behind the closing parenthesis.
    obtain ⟨⟨only, one⟩, -⟩ := unmarked_of_statement statement others
    have split : place.significant = [word, paren, clause] ++ close :: body := split
    rw [statementAfter?_of_split proper formed split isClose.1 (by simp [isWord.1, isParen.1,
      isClause.1]), split]
    exact ⟨some clause, by simpa using isExpr, by simp [isStatement_of_token isWord.1,
      isStatement_of_token isParen.1, isStatement_of_token isClose.1, isStatement, one], by simp⟩

/-- The branches of a choice hold one statement, and another one after the word between them. -/
theorem statements_branches (branches : Branches constituents)
    (matched : List.Forall₂ Matches places constituents) :
    ∃ body before : List Place, ∃ one, before.filter isStatement = [one]
      ∧ (∀ child ∈ before, child.kind ≠ .token (.keyword .elseWord))
      ∧ (places = before ∨ ∃ word other, places = before ++ word :: body
        ∧ word.kind = .token (.keyword .elseWord) ∧ body.filter isStatement = [other]) := by
  cases branches with
  | short =>
    simp only [List.forall₂_cons_right_iff, List.forall₂_nil_right_iff] at matched
    obtain ⟨word, _, isWord, ⟨clause, _, isClause, rfl, rfl⟩, rfl⟩ := matched
    exact ⟨[], [word, clause], clause, by simp [isStatement_of_token isWord.1,
      (matches_exprStmt isClause).2], by simp [isWord.1, isClause.1], .inl rfl⟩
  | one statement =>
    -- The branch may hold several ends of statements, none of which is the word itself.
    obtain ⟨⟨one, only⟩, unmarked⟩ := unmarked_of_statement statement matched
    exact ⟨[], places, one, only, unmarked _ rfl, .inl rfl⟩
  -- The word between the branches splits them, and the first branch does not hold it.
  | both statement other =>
    obtain ⟨before, _, rfl, first, others⟩ := exists_append_of_forall₂ matched
    obtain ⟨word, body, isWord, second, rfl⟩ := List.forall₂_cons_right_iff.mp others
    obtain ⟨⟨one, only⟩, unmarked⟩ := unmarked_of_statement statement first
    obtain ⟨⟨another, alone⟩, -⟩ := unmarked_of_statement other second
    exact ⟨body, before, one, only, unmarked _ rfl, .inr ⟨word, another, rfl, isWord.1, alone⟩⟩

/-- A choice holds its condition, then at most one statement, and then that of its other branch. -/
theorem statements_ifStmt (proper : place.Proper) (formed : place.tree.Formed clean)
    (isNode : place.kind = .node .ifStmt) :
    ∃ condition : Place, ∃ body : Option Place, condition.isA .exprStmt = true
      ∧ place.statements
        = condition :: (body.toList ++ (place.statementAfter? (.keyword .elseWord)).toList)
      ∧ (body = none → place.statementAfter? (.keyword .elseWord) = none) := by
  have matched := forall₂_significant formed
  have forms : If clean _ := forms_of_kind formed isNode
  generalize Tree.constituents place.tree.children = constituents at forms matched
  rw [statements_eq_significant formed]
  -- Without the word for the other branch there is no statement after it.
  have absent (other : ∀ child ∈ place.significant, child.kind ≠ .token (.keyword .elseWord)) :=
    statementAfter?_eq_none formed rfl other
  cases forms with
  | plain =>
    simp only [List.forall₂_cons_right_iff, List.forall₂_nil_right_iff] at matched
    obtain ⟨word, _, isWord, ⟨clause, _, isClause, rfl, rfl⟩, split⟩ := matched
    obtain ⟨isExpr, isStatement⟩ := matches_exprStmt isClause
    rw [absent (by simp [split, isWord.1, isClause.1]), split]
    exact ⟨clause, none, isExpr, by simp [isStatement_of_token isWord.1, isStatement], fun _ => rfl⟩
  | plainThen =>
    simp only [List.forall₂_cons_right_iff, List.forall₂_nil_right_iff] at matched
    obtain ⟨word, _, isWord, ⟨clause, _, isClause, ⟨mark, _, isMark, ⟨body, _, isBody, rfl, rfl⟩,
      rfl⟩, rfl⟩, split⟩ := matched
    obtain ⟨isExpr, isStatement⟩ := matches_exprStmt isClause
    rw [absent (by simp [split, isWord.1, isClause.1, isMark.1, isBody.1]), split]
    exact ⟨clause, some body, isExpr, by simp [isStatement_of_token isWord.1, isStatement,
      isStatement_of_token isMark.1, (matches_exprStmt isBody).2], fun _ => rfl⟩
  | cut =>
    simp only [List.forall₂_cons_right_iff, List.forall₂_nil_right_iff] at matched
    obtain ⟨word, _, isWord, ⟨paren, _, isParen, ⟨clause, _, isClause, rfl, rfl⟩, rfl⟩, split⟩ :=
      matched
    obtain ⟨isExpr, isStatement⟩ := matches_exprStmt isClause
    rw [absent (by simp [split, isWord.1, isParen.1, isClause.1]), split]
    exact ⟨clause, none, isExpr, by simp [isStatement_of_token isWord.1,
      isStatement_of_token isParen.1, isStatement], fun _ => rfl⟩
  | closed _ lineEnds branches =>
    simp only [List.forall₂_cons_right_iff] at matched
    obtain ⟨word, _, isWord, ⟨paren, _, isParen, ⟨clause, _, isClause, ⟨close, _, isClose, others,
      rfl⟩, rfl⟩, rfl⟩, split⟩ := matched
    obtain ⟨isExpr, isStatement⟩ := matches_exprStmt isClause
    obtain ⟨lines, _, rfl, isLines, isBranches⟩ := exists_append_of_forall₂ others
    obtain ⟨none, unmarked⟩ := unmarked_of_ends
      (fun line member => ⟨.hardBreak, lineEnds line member, rfl⟩) isLines
    obtain ⟨body, before, one, only, first, whole⟩ := statements_branches branches isBranches
    -- Nothing up to the end of the first branch is the word for the other branch.
    have noElse : ∀ child ∈ [word, paren, clause, close] ++ (lines ++ before),
        child.kind ≠ .token (.keyword .elseWord) := by
      intro child member
      simp only [List.mem_append] at member
      rcases member with header | line | early
      · revert child
        simp [isWord.1, isParen.1, isClause.1, isClose.1]
      · exact unmarked _ rfl child line
      · exact first child early
    refine ⟨clause, some one, isExpr, ?_, by simp⟩
    -- Either the other branch is missing, or its word splits the children.
    rcases whole with rfl | ⟨mark, other, rfl, isMark, another⟩
    · rw [absent (by rw [split]; exact noElse), split]
      simp [isStatement_of_token isWord.1, isStatement_of_token isParen.1,
        isStatement_of_token isClose.1, isStatement, none, only]
    · have split : place.significant
          = ([word, paren, clause, close] ++ (lines ++ before)) ++ mark :: body := by simp [split]
      rw [statementAfter?_of_split proper formed split isMark noElse, split]
      simp [isStatement_of_token isWord.1, isStatement_of_token isParen.1,
        isStatement_of_token isClose.1, isStatement_of_token isMark, isStatement, none, only, another]

/-- The nodes before a token are those that end before it. -/
theorem filter_stop_le_of_split (proper : place.Proper) (formed : place.tree.Formed clean)
    {before after : List Place} (split : place.significant = before ++ token :: after)
    (isToken : token.kind = .token kind) (test : NodeKind → Bool) :
    ((place.nodes.filter (·.stop ≤ token.start)).filter fun child => child.kind.isNodeWith test)
      = before.filter fun child => child.kind.isNodeWith test := by
  obtain ⟨early, late⟩ := apart_of_split proper split isToken
  have early : (before.filter fun child => child.kind.isNodeWith test).filter
      (·.stop ≤ token.start) = before.filter fun child => child.kind.isNodeWith test :=
    -- What follows the token ends after it begins, so that the first filter leaves nothing of it.
    List.filter_eq_self.mpr fun child member => by
      simpa using (early child (List.mem_filter.mp member).1).1
  have late : (after.filter fun child => child.kind.isNodeWith test).filter
      (·.stop ≤ token.start) = [] :=
    List.filter_eq_nil_iff.mpr fun child member => by
      simpa using (late child (List.mem_filter.mp member).1).2
  rw [List.filter_comm, filter_nodes formed, split, List.filter_append, List.filter_append,
    List.filter_cons_of_neg (by simp [isToken, Kind.isNodeWith]), early, late, List.append_nil]

/-- The clauses of a counting loop are up to three statements. -/
theorem statements_clauses (clauses : Clauses constituents)
    (matched : List.Forall₂ Matches places constituents) :
    (places.filter isStatement).length ≤ 3
      ∧ (∀ clause ∈ places.filter isStatement, clause.isA .exprStmt = true)
      ∧ ∀ child ∈ places, child.kind ≠ .token (.sign .rightParen) := by
  -- There are one, two or three clauses, with a mark between every two.
  cases clauses <;> simp only [List.forall₂_cons_right_iff, List.forall₂_nil_right_iff] at matched
  case one =>
    obtain ⟨clause, _, isClause, rfl, rfl⟩ := matched
    obtain ⟨isExpr, isStatement⟩ := matches_exprStmt isClause
    simp [isStatement, isExpr, isClause.1]
  case two =>
    obtain ⟨one, _, isOne, ⟨mark, _, isMark, ⟨two, _, isTwo, rfl, rfl⟩, rfl⟩, rfl⟩ := matched
    simp [isStatement_of_token isMark.1, matches_exprStmt isOne, matches_exprStmt isTwo, isOne.1,
      isMark.1, isTwo.1]
  case three =>
    obtain ⟨one, _, isOne, ⟨mark, _, isMark, ⟨two, _, isTwo, ⟨further, _, isFurther, ⟨three, _,
      isThree, rfl, rfl⟩, rfl⟩, rfl⟩, rfl⟩, rfl⟩ := matched
    simp [isStatement_of_token isMark.1, isStatement_of_token isFurther.1, matches_exprStmt isOne,
      matches_exprStmt isTwo, matches_exprStmt isThree, isOne.1, isMark.1, isTwo.1, isFurther.1,
      isThree.1]

/-- A counting loop holds up to three clauses between its parentheses, and then what it repeats. -/
theorem statements_forStmt (proper : place.Proper) (formed : place.tree.Formed clean)
    (isNode : place.kind = .node .forStmt) :
    place.statements = place.headerNodes.filter isStatement
        ++ (place.statementAfter? (.sign .rightParen)).toList
      ∧ (place.headerNodes.filter isStatement).length ≤ 3
      ∧ ∀ clause ∈ place.headerNodes.filter isStatement, clause.isA .exprStmt = true := by
  have matched := forall₂_significant formed
  have forms : For clean _ := forms_of_kind formed isNode
  generalize Tree.constituents place.tree.children = constituents at forms matched
  rw [statements_eq_significant formed]
  cases forms with
  | cut clauses =>
    simp only [List.forall₂_cons_right_iff] at matched
    obtain ⟨word, _, isWord, ⟨paren, between, isParen, others, rfl⟩, split⟩ := matched
    obtain ⟨short, all, noParen⟩ := statements_clauses clauses others
    -- Without a closing parenthesis the header goes on to the end of the loop.
    have absent : ∀ child ∈ place.significant, child.kind ≠ .token (.sign .rightParen) := by
      simpa [split, isWord.1, isParen.1] using noParen
    have none : place.tokenOf? [.sign .rightParen] = none := by
      rw [tokenOf?_eq_significant formed rfl, List.find?_eq_none]
      exact fun child member => by simpa using absent child member
    have header : place.headerNodes.filter isStatement = between.filter isStatement := by
      rw [headerNodes, none]
      show place.statements = _
      rw [statements_eq_significant formed, split]
      simp [isStatement_of_token isWord.1, isStatement_of_token isParen.1]
    rw [header, statementAfter?_eq_none formed rfl absent, split]
    exact ⟨by simp [isStatement_of_token isWord.1, isStatement_of_token isParen.1], short, all⟩
  | closed clauses statement =>
    simp only [List.forall₂_cons_right_iff] at matched
    obtain ⟨word, _, isWord, ⟨paren, _, isParen, others, rfl⟩, split⟩ := matched
    obtain ⟨between, _, rfl, isBetween, others⟩ := exists_append_of_forall₂ others
    obtain ⟨close, body, isClose, isBody, rfl⟩ := List.forall₂_cons_right_iff.mp others
    obtain ⟨short, all, noParen⟩ := statements_clauses clauses isBetween
    obtain ⟨⟨only, one⟩, -⟩ := unmarked_of_statement statement isBody
    have split : place.significant = (word :: paren :: between) ++ close :: body := split
    have first : ∀ child ∈ word :: paren :: between, child.kind ≠ .token (.sign .rightParen) := by
      simpa [isWord.1, isParen.1] using noParen
    -- The header ends at the closing parenthesis, so it holds the clauses and not the body.
    have header : place.headerNodes.filter isStatement = between.filter isStatement := by
      rw [headerNodes, tokenOf?_of_split formed split isClose.1 first]
      refine (filter_stop_le_of_split proper formed split isClose.1 NodeKind.isStatement).trans ?_
      show (word :: paren :: between).filter isStatement = _
      simp [isStatement_of_token isWord.1, isStatement_of_token isParen.1]
    rw [header, statementAfter?_of_split proper formed split isClose.1 first, split]
    exact ⟨by simp [isStatement_of_token isWord.1, isStatement_of_token isParen.1,
      isStatement_of_token isClose.1, one], short, all⟩

/-- What stands in several portions is unmarked if each of them is. -/
theorem Unmarked.append {left right : List Place} (one : Unmarked left) (other : Unmarked right) :
    Unmarked (left ++ right) := fun kind inside =>
  List.forall_mem_append.mpr ⟨one kind inside, other kind inside⟩

/-- A single node is unmarked. -/
theorem unmarked_node {kind : NodeKind} (isNode : place.kind = .node kind) : Unmarked [place] :=
  fun _ _ => by simp [isNode]

/-- What a declaration or a statement leaves holds at most one statement and no further token. -/
theorem unmarked_of_declared (declared : Declared clean constituents)
    (matched : List.Forall₂ Matches places constituents) :
    (∃ body : Option Place, places.filter isStatement = body.toList) ∧ Unmarked places := by
  -- A qualifier without effect is a node of a kind that is no statement.
  have qualified {qualifier : List Constituent} {early : List Place}
      (ignored : OptionalNode .ignored qualifier)
      (same : List.Forall₂ Matches early qualifier) :
      early.filter isStatement = [] ∧ Unmarked early := by
    cases ignored with
    | absent =>
      cases same
      exact ⟨rfl, fun _ _ => List.forall_mem_nil _⟩
    | present =>
      simp only [List.forall₂_cons_right_iff, List.forall₂_nil_right_iff] at same
      obtain ⟨word, _, isWord, rfl, rfl⟩ := same
      refine ⟨?_, unmarked_node isWord.1⟩
      simp [isStatement_of_kind isWord.1, Kind.isNodeWith, NodeKind.isStatement]
  cases declared with
  | declaration _ ignored declaration =>
    obtain ⟨early, _, rfl, isEarly, others⟩ := exists_append_of_forall₂ matched
    simp only [List.forall₂_cons_right_iff, List.forall₂_nil_right_iff] at others
    obtain ⟨node, _, isNode, rfl, rfl⟩ := others
    obtain ⟨none, unmarked⟩ := qualified ignored isEarly
    have isStatement : node.isStatement = true := by
      rw [isStatement_of_kind isNode.1]
      exact NodeKind.isStatement_of_isDeclaration declaration
    exact ⟨⟨some node, by simp [none, isStatement]⟩, unmarked.append (unmarked_node isNode.1)⟩
  -- What was passed over is no statement either, so that there is none at all.
  | skipped _ ignored =>
    obtain ⟨early, _, rfl, isEarly, others⟩ := exists_append_of_forall₂ matched
    simp only [List.forall₂_cons_right_iff, List.forall₂_nil_right_iff] at others
    obtain ⟨node, _, isNode, rfl, rfl⟩ := others
    obtain ⟨none, unmarked⟩ := qualified ignored isEarly
    refine ⟨⟨Option.none, ?_⟩, unmarked.append (unmarked_node isNode.1)⟩
    simp [none, isStatement_of_kind isNode.1, Kind.isNodeWith, NodeKind.isStatement]
  | statement ignored statement =>
    obtain ⟨early, late, rfl, isEarly, others⟩ := exists_append_of_forall₂ matched
    obtain ⟨none, unmarked⟩ := qualified ignored isEarly
    obtain ⟨⟨only, one⟩, further⟩ := unmarked_of_statement statement others
    exact ⟨⟨some only, by simp [none, one]⟩, unmarked.append further⟩

/-- Before its step, a loop over members holds the item and what it runs over, if there is one after the word between them. -/
theorem statements_member (isMember : Member clean constituents)
    (matched : List.Forall₂ Matches places constituents) :
    ∃ item whole : Option Place, places.filter isStatement = item.toList ++ whole.toList
      ∧ (∀ clause ∈ item.toList ++ whole.toList, clause.isA .exprStmt = true)
      ∧ (item = none → whole = none)
      ∧ (∀ child ∈ places, child.kind ≠ .token (.keyword .byWord)
        ∧ child.kind ≠ .token (.keyword .doWord))
      ∧ (whole = none ∧ (∀ child ∈ places, child.kind ≠ .token (.keyword .inWord))
        ∨ ∃ first word last, places = [first, word, last] ∧ whole = some last
          ∧ first.kind ≠ .token (.keyword .inWord) ∧ word.kind = .token (.keyword .inWord)) := by
  -- The cases follow how much of the item is there.
  cases isMember <;>
    simp only [List.forall₂_cons_right_iff, List.forall₂_nil_right_iff] at matched
  case absent =>
    subst matched
    exact ⟨none, none, by simp⟩
  case cut =>
    obtain ⟨item, _, isItem, rfl, rfl⟩ := matched
    exact ⟨some item, none, by simp [matches_exprStmt isItem, isItem.1]⟩
  case given =>
    obtain ⟨item, _, isItem, ⟨word, _, isWord, ⟨whole, _, isWhole, rfl, rfl⟩, rfl⟩, rfl⟩ := matched
    exact ⟨some item, some whole, by simp [isStatement_of_token isWord.1, matches_exprStmt isItem,
      matches_exprStmt isWhole, isItem.1, isWord.1, isWhole.1]⟩

/-- The step of a loop over members is a statement after a word. -/
theorem statements_step (isStep : Step constituents)
    (matched : List.Forall₂ Matches places constituents) :
    ∃ step : Option Place, places.filter isStatement = step.toList
      ∧ (∀ clause ∈ step, clause.isA .exprStmt = true)
      ∧ (∀ child ∈ places, child.kind ≠ .token (.keyword .inWord)
        ∧ child.kind ≠ .token (.keyword .doWord))
      ∧ (step = none ∧ places = []
        ∨ ∃ word only, places = [word, only] ∧ step = some only
          ∧ word.kind = .token (.keyword .byWord)) := by
  -- A step is left out, or given after its word.
  cases isStep <;>
    simp only [List.forall₂_cons_right_iff, List.forall₂_nil_right_iff] at matched
  case absent =>
    subst matched
    exact ⟨none, by simp⟩
  case given =>
    obtain ⟨word, _, isWord, ⟨step, _, isClause, rfl, rfl⟩, rfl⟩ := matched
    exact ⟨some step, by simp [isStatement_of_token isWord.1, matches_exprStmt isClause, isWord.1,
      isClause.1]⟩

/-- A loop over members holds the item and what it runs over, the step, and what it repeats. -/
theorem statements_forInStmt (proper : place.Proper) (formed : place.tree.Formed clean)
    (isNode : place.kind = .node .forInStmt) :
    ∃ item body : Option Place,
      place.statements = item.toList ++ (place.statementAfter? (.keyword .inWord)).toList
        ++ (place.statementAfter? (.keyword .byWord)).toList ++ body.toList
      ∧ (∀ clause ∈ item.toList ++ (place.statementAfter? (.keyword .inWord)).toList
        ++ (place.statementAfter? (.keyword .byWord)).toList, clause.isA .exprStmt = true)
      ∧ (item = none → place.statementAfter? (.keyword .inWord) = none)
      ∧ (place.statementAfter? (.keyword .doWord) = body
        ∨ ¬ clean ∧ place.statementAfter? (.keyword .doWord) = none) := by
  have matched := forall₂_significant formed
  have forms : ForIn clean _ := forms_of_kind formed isNode
  generalize Tree.constituents place.tree.children = constituents at forms matched
  obtain ⟨isMember, isStep, isWord, isBody⟩ := forms
  obtain ⟨forWord, _, isFor, others, split⟩ := List.forall₂_cons_right_iff.mp matched
  obtain ⟨early, bodies, rfl, others, isBodies⟩ := exists_append_of_forall₂ others
  obtain ⟨early, words, rfl, others, isWords⟩ := exists_append_of_forall₂ others
  obtain ⟨members, steps, rfl, isMembers, isSteps⟩ := exists_append_of_forall₂ others
  obtain ⟨item, whole, memberStatements, memberExprs, itemFirst, memberLacks, memberWord⟩ :=
    statements_member isMember isMembers
  obtain ⟨step, stepStatements, stepExprs, stepLacks, stepWord⟩ := statements_step isStep isSteps
  obtain ⟨⟨body, bodyStatements⟩, unmarked⟩ := unmarked_of_declared isBody isBodies
  -- The word before the body is a token that none of the other searches is for.
  have wordLacks : words.filter isStatement = [] ∧ ∀ child ∈ words,
      child.kind ≠ .token (.keyword .inWord) ∧ child.kind ≠ .token (.keyword .byWord) := by
    cases isWord <;>
      simp only [List.forall₂_cons_right_iff, List.forall₂_nil_right_iff] at isWords
    case absent => simp [isWords]
    case present =>
      obtain ⟨word, _, isDo, rfl, rfl⟩ := isWords
      simp [isDo.1, isStatement_of_token isDo.1]
  -- What the loop runs over is the first statement after its word, if that word is there.
  have afterIn : place.statementAfter? (.keyword .inWord) = whole := by
    rcases memberWord with ⟨rfl, lacks⟩ | ⟨first, word, last, rfl, rfl, isFirst, isIn⟩
    · refine statementAfter?_eq_none formed rfl ?_
      rw [split]
      simp only [List.forall_mem_cons, List.forall_mem_append]
      exact ⟨by simp [isFor.1], ⟨⟨lacks, fun child member => (stepLacks child member).1⟩,
        fun child member => (wordLacks.2 child member).1⟩, unmarked _ rfl⟩
    · have split : place.significant
          = [forWord, first] ++ word :: last :: (steps ++ words ++ bodies) := by simp [split]
      rw [statementAfter?_of_split proper formed split isIn (by simp [isFor.1, isFirst]),
        List.filter_cons_of_pos (isStatement_of_isA (memberExprs last (by simp)))]
      rfl
  -- The word before the step cannot stand earlier, so the step is what is found after it.
  have afterBy : place.statementAfter? (.keyword .byWord) = step := by
    have header : ∀ child ∈ forWord :: members, child.kind ≠ .token (.keyword .byWord) :=
      List.forall_mem_cons.mpr ⟨by simp [isFor.1], fun child member => (memberLacks child member).1⟩
    rcases stepWord with ⟨rfl, rfl⟩ | ⟨word, only, rfl, rfl, isBy⟩
    · refine statementAfter?_eq_none formed rfl ?_
      have split : place.significant = (forWord :: members) ++ (words ++ bodies) := by simp [split]
      rw [split]
      exact List.forall_mem_append.mpr ⟨header, List.forall_mem_append.mpr
        ⟨fun child member => (wordLacks.2 child member).2, unmarked _ rfl⟩⟩
    · have split : place.significant
          = (forWord :: members) ++ word :: only :: (words ++ bodies) := by simp [split]
      rw [statementAfter?_of_split proper formed split isBy header,
        List.filter_cons_of_pos (isStatement_of_isA (stepExprs only rfl))]
      rfl
  -- Without its word the body is not found, but then something was missing from the text.
  have afterDo : place.statementAfter? (.keyword .doWord) = body
      ∨ ¬ clean ∧ place.statementAfter? (.keyword .doWord) = none := by
    have header : ∀ child ∈ forWord :: (members ++ steps),
        child.kind ≠ .token (.keyword .doWord) :=
      List.forall_mem_cons.mpr ⟨by simp [isFor.1], List.forall_mem_append.mpr
        ⟨fun child member => (memberLacks child member).2,
          fun child member => (stepLacks child member).2⟩⟩
    cases isWord with
    | absent flawed =>
      obtain rfl := List.forall₂_nil_right_iff.mp isWords
      refine .inr ⟨flawed, statementAfter?_eq_none formed rfl ?_⟩
      have split : place.significant = (forWord :: (members ++ steps)) ++ bodies := by simp [split]
      rw [split]
      exact List.forall_mem_append.mpr ⟨header, unmarked _ rfl⟩
    | present =>
      simp only [List.forall₂_cons_right_iff, List.forall₂_nil_right_iff] at isWords
      obtain ⟨word, _, isDo, rfl, rfl⟩ := isWords
      have split : place.significant = (forWord :: (members ++ steps)) ++ word :: bodies := by
        simp [split]
      rw [statementAfter?_of_split proper formed split isDo.1 header, bodyStatements]
      exact .inl (by cases body <;> rfl)
  refine ⟨item, body, ?_, ?_, ?_, afterDo⟩
  · rw [statements_eq_significant formed, split, afterIn, afterBy]
    simp [isStatement_of_token isFor.1, memberStatements, stepStatements, wordLacks.1, bodyStatements]
  · rw [afterIn, afterBy]
    exact List.forall_mem_append.mpr ⟨memberExprs, by simpa using stepExprs⟩
  · rw [afterIn]
    exact itemFirst

end Place

end Dxl
