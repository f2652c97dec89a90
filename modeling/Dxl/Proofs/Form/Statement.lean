import Dxl.Proofs.Form.Declaration

/-! Statements: the forms of the nodes that the rules for statements make, and with them those of all nodes. -/

namespace Dxl

namespace Form

variable {clean : Prop}

/-- What ends a statement can stand after a statement with its ends. -/
theorem Statement.append {statement ends : List Constituent} (isStatement : Statement statement)
    (more : Ends ends) : Statement (statement ++ ends) := by
  obtain ⟨action, former⟩ := isStatement
  exact .mk action fun constituent member =>
    (List.mem_append.mp member).elim (former constituent) (more constituent)

/-- A statement can stand in a block. -/
theorem Statement.items {statement : List Constituent} (isStatement : Statement statement) :
    Items statement := by
  obtain ⟨action, ends⟩ := isStatement
  exact List.forall_mem_cons.mpr ⟨.inr ⟨_, _, rfl, NodeKind.isItem_of_isAction action⟩,
    fun constituent member => .inl (ends constituent member)⟩

/-- Items can follow each other. -/
theorem Items.append {items others : List Constituent} (areItems : Items items)
    (areOthers : Items others) : Items (items ++ others) := fun constituent member =>
  (List.mem_append.mp member).elim (areItems constituent) (areOthers constituent)

/-- A node that is an item can stand in a block. -/
theorem items_node {kind : NodeKind} (first : Option TokenKind) (isItem : kind.isItem = true) :
    Items [.node kind first] :=
  List.forall_mem_singleton.mpr (.inr ⟨kind, first, rfl, isItem⟩)

/-- A qualifier can stand in a block. -/
theorem OptionalNode.items {qualifier : List Constituent}
    (isQualifier : OptionalNode .ignored qualifier) : Items qualifier := by
  cases isQualifier with
  | absent => exact List.forall_mem_nil _
  | present first => exact items_node first rfl

/-- What a declaration leaves can stand in a block. -/
theorem Declared.items {declared : List Constituent} (isDeclared : Declared clean declared) :
    Items declared := by
  cases isDeclared with
  | declaration first isQualifier declares =>
    exact isQualifier.items.append (items_node first (by simp [NodeKind.isItem, declares]))
  | skipped first isQualifier => exact isQualifier.items.append (items_node first rfl)
  | statement isQualifier isStatement => exact isQualifier.items.append isStatement.items

/-- A token that ends a statement can stand in a block. -/
theorem items_token {kind : TokenKind} (ends : kind.endsStatement = true) : Items [.token kind] :=
  List.forall_mem_singleton.mpr (.inl ⟨kind, rfl, ends⟩)

end Form

open Form

namespace Grammar

open Dxl.Parser

variable {clean : Prop} {seen : Option Symbol} {symbol : Symbol} {frame : List Constituent}

/-- The body of a loop is a statement. -/
theorem writes_loopBody {post : Unit → Option Symbol → List Constituent → Prop}
    (after : ∀ known body, Statement body → post () known (frame ++ body)) :
    loopBody.Writes clean seen frame post := by
  simp only [loopBody, writes_bind, writes_nextIs, writes_ite]
  -- A block makes a node of its own, and any other body is a call of the rule for statements.
  refine fun _ _ _ => ⟨fun brace => writes_block (by simpa using brace) fun known first => ?_,
    fun _ => writes_call_plain trivial trivial fun body isBody => after _ body isBody⟩
  exact after known _ (.mk rfl (List.forall_mem_nil _))

/-- A directive makes one node. -/
theorem writes_pragma {post : Unit → Option Symbol → List Constituent → Prop}
    (word : symbol.kind = .keyword .pragmaWord)
    (after : ∀ known first, post () known (frame ++ [.node .pragmaStmt first])) :
    pragma.Writes clean (some symbol) frame post := by
  simp only [pragma, writes_nodeOf, writes_bind]
  refine writes_require_seen word ?_
  simp only [writes_bind, writes_expect, writes_ite, writes_pure]
  -- Without a name, or without a value after it, the directive ends early and has the errors for
  -- it.
  refine fun _ _ _ => ⟨fun _ => ⟨fun _ => ?_, by simp⟩,
    fun _ unclean => ⟨by simp, fun _ => ⟨.bare unclean, after _ _⟩⟩⟩
  refine fun _ _ _ => ⟨fun _ => ⟨fun _ => ?_, by simp⟩,
    fun _ unclean => ⟨by simp, fun _ => ⟨.named unclean, after _ _⟩⟩⟩
  simp only [writes_nextIsOneOf, writes_bump, Symbol.fits_some]
  refine fun _ _ _ => ⟨?_, fun _ => ⟨.valued (.inl rfl), after _ _⟩⟩
  rintro possible value - rfl
  -- The value may be a number or a string, each of which has its own form.
  refine ⟨.valued ?_, after _ _⟩
  have possible : value.kind = .integer ∨ value.kind = .string := by simpa using possible
  rcases possible with same | same
  · exact .inr (.inl (by rw [same]; rfl))
  · exact .inr (.inr (by rw [same]; rfl))

/-- The parts of a path are tokens. -/
theorem writes_pathParts :
    pathParts.Writes clean seen frame fun _ _ after =>
      ∃ added, Rule.pathParts.Writes clean added ∧ after = frame ++ added := by
  have none : ∃ added, Rule.pathParts.Writes clean added ∧ frame = frame ++ added :=
    ⟨[], List.forall_mem_nil _, (List.append_nil frame).symm⟩
  simp only [pathParts, writes_bind, writes_nextIs, writes_ite, writes_pure, writes_atEnd,
    writes_nextIsOneOf, writes_bump, Symbol.fits_some]
  -- The path ends before the closing bracket, at the end of the text, and before any other token.
  refine fun _ _ _ => ⟨fun _ => none, fun _ _ _ _ => ⟨fun _ => none, fun _ part _ _ =>
    ⟨?_, fun _ => none⟩⟩⟩
  rintro isPart _ - rfl
  refine writes_call_plain trivial trivial fun others areParts =>
    ⟨_, ?_, List.append_assoc _ _ _⟩
  exact List.forall_mem_cons.mpr ⟨⟨_, rfl, by simpa using isPart⟩, areParts⟩

/-- An inclusion makes one node. -/
theorem writes_inclusion {post : Unit → Option Symbol → List Constituent → Prop}
    (word : symbol.kind = .keyword .includeWord)
    (after : ∀ known first, post () known (frame ++ [.node .includeStmt first])) :
    inclusion.Writes clean (some symbol) frame post := by
  simp only [inclusion, writes_nodeOf, writes_bind]
  refine writes_require_seen word ?_
  simp only [writes_accept, writes_ite]
  refine fun _ _ _ => ⟨fun _ => ⟨fun _ => ?_, by simp⟩, fun _ => ⟨by simp, fun _ => ?_⟩⟩
  · -- After an opening bracket stand the parts of a path and the closing bracket.
    refine writes_call_plain trivial trivial fun parts areParts =>
      writes_require fun known close closes => ⟨?_, after _ _⟩
    simpa [NodeKind.Forms] using Include.bracketed areParts closes
  · -- Without one the path is a string, which may be missing.
    exact writes_require fun known path isPath => ⟨.quoted isPath, after _ _⟩

/-- A jump makes one node. -/
theorem writes_jump {post : NodeKind → Option Symbol → List Constituent → Prop}
    (word : symbol.kind = .keyword .returnWord ∨ symbol.kind = .keyword .breakWord
      ∨ symbol.kind = .keyword .continueWord)
    (after : ∀ kind known first, kind.isAction = true → post kind known (frame ++ [.node kind first])) :
    jump.Writes clean (some symbol) frame post := by
  simp only [jump, writes_node, writes_bind, writes_look, writes_bump, writes_pure, Symbol.fits_some]
  rintro _ - rfl _ - rfl
  rcases word with same | same | same
  · simp only [same, jumpValue, jumpNode, beq_self_eq_true, if_true, writes_bind,
      writes_atStatementEnd, writes_ite, writes_pure, writes_nextIs, writes_atEnd]
    -- A value may only follow on the same line, and only the first of the three jumps takes one.
    have bare : NodeKind.returnStmt.Forms clean ([] ++ [.token (.keyword .returnWord)]) := .mk .absent
    refine fun _ _ _ => ⟨fun _ => ⟨bare, after _ _ _ rfl⟩, fun _ _ _ _ =>
      ⟨fun _ => ⟨bare, after _ _ _ rfl⟩, fun _ _ _ _ => ⟨fun _ => ⟨bare, after _ _ _ rfl⟩,
        fun _ => ?_⟩⟩⟩
    exact writes_expressionStatement fun first => ⟨.mk (.present first), after _ _ _ rfl⟩
  · rw [same]
    exact ⟨rfl, after _ _ _ rfl⟩
  · rw [same]
    exact ⟨rfl, after _ _ _ rfl⟩

/-- A loop with a condition makes one node. -/
theorem writes_whileLoop {post : Unit → Option Symbol → List Constituent → Prop}
    (word : symbol.kind = .keyword .whileWord)
    (after : ∀ known first, post () known (frame ++ [.node .whileStmt first])) :
    whileLoop.Writes clean (some symbol) frame post := by
  simp only [whileLoop, writes_nodeOf, writes_bind]
  refine writes_require_seen word ?_
  simp only [writes_bind, writes_expect, writes_ite, writes_pure]
  -- A missing parenthesis is an error, after which the loop ends where it is.
  refine fun _ _ _ => ⟨fun _ => ⟨fun _ => writes_expressionStatement fun condition => ?_, by simp⟩,
    fun _ unclean => ⟨by simp, fun _ => ⟨.bare unclean, after _ _⟩⟩⟩
  refine fun _ _ _ => ⟨fun _ => ⟨fun _ => ?_, by simp⟩,
    fun _ unclean => ⟨by simp, fun _ => ⟨.cut condition unclean, after _ _⟩⟩⟩
  exact writes_loopBody fun known body isBody => ⟨.closed condition isBody, after _ _⟩

/-- The clauses of a counting loop stand between semicolons. -/
theorem writes_clauses {rest : Parser Unit} {post : Unit → Option Symbol → List Constituent → Prop}
    (after : ∀ known clauses, Clauses clauses → rest.Writes clean known (frame ++ clauses) post) :
    (do expressionStatement; furtherClauses; rest).Writes clean seen frame post := by
  rw [writes_bind]
  refine writes_expressionStatement fun first => ?_
  simp only [furtherClauses, writes_bind, writes_accept, writes_ite, writes_pure]
  -- After each clause either a semicolon calls for the next one, or the clauses are over.
  refine fun _ _ _ => ⟨fun _ => ⟨fun _ => writes_expressionStatement fun second => ?_, by simp⟩,
    fun _ => ⟨by simp, fun _ => after _ _ (.one first)⟩⟩
  refine fun _ _ _ => ⟨fun _ => ⟨fun _ => writes_expressionStatement fun third => ?_, by simp⟩,
    fun _ => ⟨by simp, fun _ => ?_⟩⟩
  · simpa using after none _ (.three first second third)
  · simpa using after _ _ (.two first second)

/-- The item of a loop over members stands before what it runs over. -/
theorem writes_member {post : Unit → Option Symbol → List Constituent → Prop}
    (after : ∀ known member, Member clean member → post () known (frame ++ member)) :
    member.Writes clean seen frame post := by
  simp only [member, writes_bind, writes_nextIs, writes_ite, writes_pure]
  -- The item may be missing, which is no error, but the word after it may not be.
  refine fun next _ _ => ⟨fun _ => writes_expressionStatement fun item => ?_, fun _ => ?_⟩
  · simp only [writes_expect]
    refine fun _ _ _ => ⟨fun _ => ⟨fun _ => writes_expressionStatement fun whole => ?_, by simp⟩,
      fun _ unclean => ⟨by simp, fun _ => after _ _ (.cut item unclean)⟩⟩
    simpa using after none _ (.given item whole)
  · simpa using after (some next) _ .absent

/-- A step stands after its keyword. -/
theorem writes_memberStep {post : Unit → Option Symbol → List Constituent → Prop}
    (after : ∀ known step, Step step → post () known (frame ++ step)) :
    memberStep.Writes clean seen frame post := by
  simp only [memberStep, writes_bind, writes_accept, writes_ite, writes_pure]
  refine fun next _ _ => ⟨fun _ => ⟨fun _ => writes_expressionStatement fun first => ?_, by simp⟩,
    fun _ => ⟨by simp, fun _ => ?_⟩⟩
  · simpa using after none _ (.given first)
  · simpa using after (some next) _ .absent

/-- A loop that counts or goes over members makes one node. -/
theorem writes_forLoop {post : NodeKind → Option Symbol → List Constituent → Prop}
    (word : symbol.kind = .keyword .forWord)
    (after : ∀ kind known first, kind.isAction = true → post kind known (frame ++ [.node kind first])) :
    forLoop.Writes clean (some symbol) frame post := by
  simp only [forLoop, writes_node, writes_bind]
  refine writes_require_seen word ?_
  simp only [writes_accept, writes_ite]
  refine fun _ _ _ => ⟨fun _ => ⟨fun _ => ?_, by simp⟩, fun _ => ⟨by simp, fun _ => ?_⟩⟩
  · -- With an opening parenthesis the loop counts.
    refine writes_clauses fun _ clauses areClauses => ?_
    simp only [writes_bind, writes_expect, writes_ite, writes_pure]
    refine fun _ _ _ => ⟨fun _ => ⟨fun _ => ?_, by simp⟩,
      fun _ unclean => ⟨by simp, fun _ => ⟨.cut areClauses unclean, after _ _ _ rfl⟩⟩⟩
    refine writes_loopBody fun known body isBody => ⟨?_, after _ _ _ rfl⟩
    simpa [NodeKind.Forms] using For.closed areClauses isBody
  · -- Without one it runs over members, and the word before its body is required.
    simp only [memberRest, writes_bind]
    refine writes_member fun _ member isMember => writes_memberStep fun _ step isStep =>
      writes_require fun _ word isWord => ?_
    refine writes_call_plain trivial trivial fun body isBody => ⟨?_, after _ _ _ rfl⟩
    simpa [NodeKind.Forms] using Form.ForIn.mk isMember isStep isWord isBody

/-- A statement makes one node before what ends it. -/
theorem writes_simpleStatement {post : Unit → Option Symbol → List Constituent → Prop}
    (after : ∀ kind known first, kind.isAction = true → post () known (frame ++ [.node kind first])) :
    (simpleStatement symbol.kind).Writes clean (some symbol) frame post := by
  unfold simpleStatement
  -- The kind of the next symbol chooses the rule, and each rule relies on having seen that kind.
  split <;> rename_i found
  · exact writes_block found fun known first => after _ known first rfl
  · refine writes_call_plain trivial ⟨symbol, rfl, found⟩ ?_
    rintro _ ⟨first, rfl⟩
    exact after _ none first rfl
  · exact writes_whileLoop found fun known first => after _ known first rfl
  · rw [writes_bind]
    exact writes_forLoop found after
  · rw [writes_bind]
    exact writes_jump (.inl found) after
  · rw [writes_bind]
    exact writes_jump (.inr (.inl found)) after
  · rw [writes_bind]
    exact writes_jump (.inr (.inr found)) after
  · exact writes_pragma found fun known first => after _ known first rfl
  · exact writes_inclusion found fun known first => after _ known first rfl
  · exact writes_expressionStatement fun first => after _ none first rfl

/-- A statement stands before what ends it. -/
theorem writes_statement :
    statement.Writes clean seen frame fun _ _ after =>
      ∃ added, Statement added ∧ after = frame ++ added := by
  simp only [statement, writes_bind, writes_look]
  refine fun symbol _ _ => writes_simpleStatement fun kind known first action =>
    writes_call_plain trivial trivial fun ends areEnds => ?_
  exact ⟨.node kind first :: ends, .mk action areEnds, by simp⟩

/-- Ends of statements are tokens that end one. -/
theorem writes_statementEnds :
    statementEnds.Writes clean seen frame fun _ _ after =>
      ∃ added, Ends added ∧ after = frame ++ added := by
  simp only [statementEnds, writes_bind, writes_atStatementEnd, writes_ite, writes_pure, writes_bump,
    Symbol.fits_some]
  refine fun symbol _ _ => ⟨?_, fun _ => ⟨[], List.forall_mem_nil _, (List.append_nil frame).symm⟩⟩
  -- The token has been seen to end a statement, and the rest is the same rule again.
  rintro ends _ - rfl
  refine writes_call_plain trivial trivial fun others areEnds => ⟨_, ?_, List.append_assoc _ _ _⟩
  exact List.forall_mem_cons.mpr ⟨⟨_, rfl, ends⟩, areEnds⟩

/-- Ends of lines are line breaks. -/
theorem writes_lineEnds :
    lineEnds.Writes clean seen frame fun _ _ after =>
      ∃ added, LineEnds added ∧ after = frame ++ added := by
  simp only [lineEnds, writes_bind, writes_accept, writes_ite, writes_pure]
  refine fun _ _ _ => ⟨fun _ => ⟨fun _ => ?_, by simp⟩,
    fun _ => ⟨by simp, fun _ => ⟨[], List.forall_mem_nil _, (List.append_nil frame).symm⟩⟩⟩
  -- Line breaks are taken one at a time, and the rest is the same rule again.
  refine writes_call_plain trivial trivial fun others areEnds => ⟨_, ?_, List.append_assoc _ _ _⟩
  exact List.forall_mem_cons.mpr ⟨rfl, areEnds⟩

/-- After a statement there may be another one for the case that the condition fails. -/
theorem writes_alternative {body : List Constituent} (isBody : Statement body)
    {post : Unit → Option Symbol → List Constituent → Prop}
    (after : ∀ known branches, Branches branches → post () known (frame ++ branches)) :
    alternative.Writes clean seen (frame ++ body) post := by
  simp only [alternative, writes_bind, writes_accept, writes_ite, writes_pure, writes_look]
  refine fun _ _ _ => ⟨fun _ => ⟨fun _ symbol _ _ => ?_, by simp⟩,
    fun _ => ⟨by simp, fun _ => after _ _ (.one isBody)⟩⟩
  -- Whatever comes after the word, it has to be a statement with its ends.
  have rest {known : Option Symbol} {other : List Constituent} (isOther : Statement other) :
      post () known (frame ++ body ++ [.token (.keyword .elseWord)] ++ other) := by
    simpa using after known _ (.both isBody isOther)
  -- Another choice, a block, or any other statement may follow.
  split <;> rename_i found
  · refine writes_call_plain trivial ⟨symbol, rfl, found⟩ ?_
    rintro _ ⟨first, rfl⟩
    exact rest (.mk rfl (List.forall_mem_nil _))
  · exact writes_block found fun known first => rest (.mk rfl (List.forall_mem_nil _))
  · exact writes_call_plain trivial trivial fun other isOther => rest isOther

/-- After a condition between parentheses stand line breaks and the branches. -/
theorem writes_conditionalBody {post : Unit → Option Symbol → List Constituent → Prop}
    (after : ∀ known lines branches, LineEnds lines → Branches branches →
      post () known (frame ++ (lines ++ branches))) :
    conditionalBody.Writes clean seen frame post := by
  rw [conditionalBody, writes_bind]
  refine writes_call_plain trivial trivial fun lines areLines => ?_
  -- The line breaks stand before the branches, whichever of them there are.
  have rest (known : Option Symbol) (branches : List Constituent) (areBranches : Branches branches) :
      post () known (frame ++ lines ++ branches) := by
    simpa using after known lines branches areLines areBranches
  simp only [writes_bind, writes_nextIs, writes_ite]
  -- If no word comes before the body, it is a statement, after which there may be another branch.
  refine fun _ _ _ => ⟨fun _ => ?_, fun _ => ?_⟩
  · exact writes_call_plain trivial trivial fun body isBody => writes_alternative isBody rest
  · simp only [writes_accept, Symbol.fits_some]
    refine fun _ _ _ => ⟨fun _ => ⟨fun _ => writes_expressionStatement fun first => ?_, by simp⟩,
      fun _ => ⟨by simp, fun _ => ?_⟩⟩
    · simpa using rest none _ (.short first)
    · refine writes_call_plain trivial trivial fun body isBody => ?_
      -- Only the word decides here whether there is another branch.
      simp only [writes_pure]
      refine fun _ _ _ => ⟨fun _ => ⟨fun _ => ?_, by simp⟩,
        fun _ => ⟨by simp, fun _ => rest _ _ (.one isBody)⟩⟩
      refine writes_call_plain trivial trivial fun other isOther => ?_
      simpa using rest none _ (.both isBody isOther)

/-- A choice makes one node. -/
theorem writes_conditional (word : symbol.kind = .keyword .ifWord) :
    conditional.Writes clean (some symbol) frame fun _ _ after =>
      ∃ added, (∃ first, added = [.node .ifStmt first]) ∧ after = frame ++ added := by
  simp only [conditional, writes_nodeOf, writes_bind]
  refine writes_require_seen word ?_
  have made (first : Option TokenKind) : ∃ added, (∃ first, added = [.node .ifStmt first])
      ∧ frame ++ [Constituent.node .ifStmt first] = frame ++ added := ⟨_, ⟨first, rfl⟩, rfl⟩
  simp only [writes_bind, writes_accept, writes_ite, writes_expect, writes_pure]
  refine fun _ _ _ => ⟨fun _ => ⟨fun _ => writes_expressionStatement fun condition => ?_, by simp⟩,
    fun _ => ⟨by simp, fun _ => writes_expressionStatement fun condition => ?_⟩⟩
  · -- Between parentheses the condition is followed by its branches, unless the second one is
    -- missing.
    refine fun _ _ _ => ⟨fun _ => ⟨fun _ => ?_, by simp⟩,
      fun _ unclean => ⟨by simp, fun _ => ⟨.cut condition unclean, made _⟩⟩⟩
    refine writes_conditionalBody fun known lines branches areLines areBranches => ⟨?_, made _⟩
    simpa [NodeKind.Forms] using If.closed condition areLines areBranches
  · -- Without parentheses there may be a word and one expression after it.
    refine fun _ _ _ => ⟨fun _ => ⟨fun _ => writes_expressionStatement fun first => ?_, by simp⟩,
      fun _ => ⟨by simp, fun _ => ⟨.plain condition, made _⟩⟩⟩
    exact ⟨.plainThen condition first, made _⟩

/-- A qualifier makes one node if it is there. -/
theorem writes_qualifier {post : Unit → Option Symbol → List Constituent → Prop}
    (after : ∀ known qualifier, OptionalNode .ignored qualifier →
      post () known (frame ++ qualifier)) :
    qualifier.Writes clean seen frame post := by
  simp only [qualifier, writes_bind, writes_nextIsOneOf, writes_ite, writes_pure, writes_look,
    Symbol.fits_some]
  refine fun next _ _ => ⟨?_, fun _ => by simpa using after (some next) _ .absent⟩
  rintro isQualifier symbol - rfl
  have word : symbol.kind = .keyword .constWord ∨ symbol.kind = .keyword .staticWord := by
    simpa using isQualifier
  -- The warning that is noted is no error.
  have rest : (bumpAs .ignored).Writes clean (some symbol) frame post := by
    simp only [writes_bumpAs, Symbol.fits_some]
    rintro _ - rfl
    exact ⟨⟨_, word, rfl⟩, after none _ (.present _)⟩
  rcases word with same | same
  · rw [same]
    exact fun _ => rest
  · rw [same]
    exact fun _ => rest

/-- A declaration or a statement stands after its qualifier. -/
theorem writes_declaration :
    declaration.Writes clean seen frame fun _ _ after =>
      ∃ added, Declared clean added ∧ after = frame ++ added := by
  rw [declaration, writes_bind]
  refine writes_qualifier fun _ qualifier isQualifier => ?_
  simp only [writes_bind, writes_atType, writes_ite]
  -- A type begins a declaration, which may turn out to be something that is passed over.
  refine fun symbol isSeen _ => ⟨fun isType => ?_, fun _ => ?_⟩
  · refine writes_typedDeclaration isSeen isType fun kind known first made => ?_
    rcases made with declares | ⟨rfl, unclean⟩
    · exact ⟨_, .declaration first isQualifier declares, List.append_assoc _ _ _⟩
    · exact ⟨_, .skipped first isQualifier unclean, List.append_assoc _ _ _⟩
  · -- Anything else is a statement, after whose ends there may be further ones.
    refine writes_call_plain trivial trivial fun statement isStatement =>
      writes_call_plain trivial trivial fun ends areEnds => ?_
    exact ⟨_, .statement isQualifier (isStatement.append areEnds), by simp⟩

/-- Items stand in a block up to its closing brace. -/
theorem writes_blockItems :
    blockItems.Writes clean seen frame fun _ _ after =>
      ∃ added, Items added ∧ after = frame ++ added := by
  have none : ∃ added, Items added ∧ frame = frame ++ added :=
    ⟨[], List.forall_mem_nil _, (List.append_nil frame).symm⟩
  simp only [blockItems, writes_bind, writes_nextIs, writes_ite, writes_pure, writes_atEnd,
    writes_atStatementEnd, writes_bump, Symbol.fits_some]
  refine fun _ _ _ => ⟨fun _ => none, fun _ _ _ _ => ⟨fun _ => none, fun _ symbol _ _ =>
    ⟨?_, fun _ => ?_⟩⟩⟩
  · -- Ends of statements may stand by themselves.
    rintro ends _ - rfl
    exact writes_call_plain trivial trivial fun others areItems =>
      ⟨_, (items_token ends).append areItems, List.append_assoc _ _ _⟩
  · -- Anything else is a declaration or a statement, and the rest is the same rule again.
    exact writes_call_plain trivial trivial fun declared isDeclared =>
      writes_call_plain trivial trivial fun others areItems =>
        ⟨_, (Declared.items isDeclared).append areItems, List.append_assoc _ _ _⟩

/-- Items stand at the top up to the end of the text. -/
theorem writes_program :
    program.Writes clean seen frame fun _ _ after =>
      ∃ added, Items added ∧ after = frame ++ added := by
  have none : ∃ added, Items added ∧ frame = frame ++ added :=
    ⟨[], List.forall_mem_nil _, (List.append_nil frame).symm⟩
  simp only [program, writes_bind, writes_ite, writes_pure, writes_atEnd, writes_atStatementEnd,
    writes_bump, Symbol.fits_some]
  -- The rule goes on until the end of the text, since no brace can stop it.
  refine fun _ _ _ => ⟨fun _ => none, fun _ symbol _ _ => ⟨?_, fun _ => ?_⟩⟩
  · rintro ends _ - rfl
    exact writes_call_plain trivial trivial fun others areItems =>
      ⟨_, (items_token ends).append areItems, List.append_assoc _ _ _⟩
  · exact writes_call_plain trivial trivial fun declared isDeclared =>
      writes_call_plain trivial trivial fun others areItems =>
        ⟨_, (Declared.items isDeclared).append areItems, List.append_assoc _ _ _⟩

/-- Every rule makes nodes that are formed as their kinds demand, and leaves what it should. -/
theorem writes_body (rule : Rule) (needs : rule.Needs seen frame) :
    rule.body.Writes clean seen frame fun _ _ after => rule.Leaves clean frame after := by
  -- Each rule has its own lemma, and only two of them rely on what was seen before.
  cases rule with
  | program => exact writes_program
  | declaration => exact writes_declaration
  | statement => exact writes_statement
  | blockItems => exact writes_blockItems
  | conditional =>
    obtain ⟨symbol, rfl, word⟩ := needs
    exact writes_conditional word
  | parameters => exact writes_parameters
  | furtherNames => exact writes_furtherNames
  | arrayItems => exact writes_arrayItems
  | expression power => exact writes_expression power
  | operators operand power =>
    obtain ⟨isOperand, first, rfl⟩ := needs
    refine (writes_operators isOperand power).mono fun _ _ _ chain other same => ?_
    cases same
    exact chain
  | arguments => exact writes_arguments
  | statementEnds => exact writes_statementEnds
  | lineEnds => exact writes_lineEnds
  | pathParts => exact writes_pathParts
  | recovery => exact writes_recovery

end Grammar

end Dxl
