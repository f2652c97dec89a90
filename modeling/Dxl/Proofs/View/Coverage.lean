import Dxl.Proofs.View.Passing

/-! Coverage: names and literals stand out just if nothing around them is passed over. -/

namespace Dxl.Place

/-- A place is a reference to a variable or a literal, and a token is its name, text or number. -/
def Denotes (place token : Place) : Prop :=
  token ∈ place.tokens
    ∧ (place.isA .nameRef = true ∧ token.kind.passes TokenKind.isTrivia = false
      ∨ place.isA .literal = true ∧ (token.kind = .token .string ∨ token.kind = .token .integer
        ∨ token.kind = .token .real))

/-- Some highlight in a list has the range of a token. -/
def StandsOut (token : Place) (highlights : List Highlight) : Prop :=
  ∃ highlight ∈ highlights, highlight.start = token.start ∧ highlight.stop = token.stop

variable {place token part child outer inner : Place} {clean : Prop}

namespace Denotes

/-- What denotes something is an atom. -/
theorem exists_atom (denotes : place.Denotes token) :
    ∃ kind, place.kind = .node kind ∧ kind.isAtom = true ∧ kind ≠ .typeRef ∧ kind ≠ .ignored := by
  obtain ⟨-, ⟨isName, -⟩ | ⟨isLiteral, -⟩⟩ := denotes
  · exact ⟨.nameRef, beq_iff_eq.mp isName, rfl, by decide, by decide⟩
  · exact ⟨.literal, beq_iff_eq.mp isLiteral, rfl, by decide, by decide⟩

/-- A token that something is denoted by is no trivia. -/
theorem passes (denotes : place.Denotes token) :
    token.kind.passes TokenKind.isTrivia = false := by
  obtain ⟨-, ⟨-, significant⟩ | ⟨-, same | same | same⟩⟩ := denotes
  · exact significant
  all_goals rw [same]; rfl

/-- A token that something is denoted by is not empty and within the range of it. -/
theorem range (denotes : place.Denotes token) (proper : place.Proper) :
    token.start < token.stop ∧ token.stop ≤ place.stop :=
  ((Highlight.Marks.of_mem_tokens .variable denotes.1).range proper).2

/-- The token that something is denoted by is its first one with a meaning. -/
theorem firstToken? (proper : place.Proper) (denotes : place.Denotes token) :
    place.firstToken? = some token := by
  obtain ⟨kind, isNode, atom, -⟩ := denotes.exists_atom
  obtain ⟨first, found, -, stops, nonempty⟩ := proper.exists_token isNode atom
  obtain ⟨-, before, after, split, skipped⟩ := List.find?_eq_some_iff_append.mp found
  rcases List.mem_append.mp (split ▸ denotes.1) with early | late
  · have trivia := skipped token early
    simp [denotes.passes] at trivia
  · rcases List.mem_cons.mp late with rfl | later
    · exact found
    · -- The first token already ends where the place does.
      have ordered : place.tokens.Pairwise fun left right => left.stop ≤ right.start :=
        place.children_pairwise.filter _
      rw [split] at ordered
      have := (List.pairwise_cons.mp (List.pairwise_append.mp ordered).2.1).1 token later
      have := denotes.range proper
      omega

/-- The token that something is denoted by stands out at its own place. -/
theorem standsOut_ownHighlights (proper : place.Proper) (denotes : place.Denotes token) :
    token.StandsOut place.ownHighlights := by
  have first := denotes.firstToken? proper
  rw [ownHighlights]
  obtain ⟨-, ⟨isName, -⟩ | ⟨isLiteral, literal⟩⟩ := denotes
  · refine ⟨⟨.variable, token.start, token.stop⟩, List.mem_append_right _ ?_, rfl, rfl⟩
    rw [beq_iff_eq.mp isName]
    exact mem_highlight_iff.mpr ⟨token, first, rfl⟩
  · -- A literal stands out by what its first token is.
    have own : token.StandsOut place.literalHighlight := by
      unfold literalHighlight
      rw [first]
      rcases literal with same | same | same <;> simp [StandsOut, same, highlight]
    obtain ⟨highlight, member, range⟩ := own
    refine ⟨highlight, List.mem_append_right _ ?_, range⟩
    rw [beq_iff_eq.mp isLiteral]
    exact member

end Denotes

/-- A leading name is an atom. -/
theorem exists_atom_of_leadingName? (leading : place.leadingName? = some child) :
    child ∈ place.nodes ∧ child.isNameRef = true
      ∧ ∃ kind, child.kind = .node kind ∧ kind.isAtom = true := by
  obtain ⟨numbered, isName⟩ := Option.filter_eq_some_iff.mp leading
  refine ⟨(List.mem_filter.mp (List.mem_of_getElem? numbered)).1, isName, ?_⟩
  cases isKind : child.kind with
  | token kind => simp [isNameRef, isKind, Kind.isNodeWith] at isName
  | node kind =>
    rw [isNameRef, isKind, Kind.isNodeWith] at isName
    refine ⟨kind, rfl, ?_⟩
    cases kind <;> first | rfl | cases isName

/-- What is below an expression statement without errors lies in its content, or in something that is passed over. -/
theorem exists_operand_of_exprStmt (proper : place.Proper) (formed : place.tree.Formed clean)
    (spotless : clean) (isExpr : place.kind = .node .exprStmt) (below : Below inner place)
    (composite : inner.tree.isLeaf = false) :
    ∃ operand ∈ place.nodes, inner.Within operand
      ∧ (place.content? = some operand ∨ operand ∈ place.passedOver) := by
  obtain ⟨operand, among, inside⟩ := below.exists_node composite
  refine ⟨operand, among, inside, ?_⟩
  obtain ⟨_, kind, isOuter, isKind, held⟩ := proper.exists_kinds among
  cases isOuter.symm.trans isExpr
  have isOperand : kind.isOperand = true := by
    rcases Bool.or_eq_true_iff.mp held with operand | isSkipped
    · exact operand
    · have formedOperand := formed_of_mem_children formed (List.mem_filter.mp among).1
      exact absurd (beq_iff_eq.mp isSkipped) (ne_skipped formedOperand spotless isKind)
  have inExpressions : operand ∈ place.expressions :=
    List.mem_filter.mpr ⟨among, isExpression_of_operand isKind isOperand⟩
  -- The content is the first expression, and the further ones are passed over.
  rcases numbered_or_mem_drop inExpressions 1 with ⟨n, early, numbered⟩ | late
  · rw [Nat.lt_one_iff.mp early] at numbered
    refine .inl ?_
    rw [content?, isA, isExpr, if_pos (by simp)]
    exact numbered
  · refine .inr ?_
    rw [passedOver, isExpr]
    exact late

/-- What is below a list of names lies in one of the names, or in something that is passed over. -/
theorem exists_name_of_nameList (proper : place.Proper) (isList : place.kind = .node .nameList)
    (below : Below inner place) (composite : inner.tree.isLeaf = false) :
    ∃ name ∈ place.nodes, inner.Within name
      ∧ (name.isNameRef = true ∨ name ∈ place.passedOver) := by
  obtain ⟨name, among, inside⟩ := below.exists_node composite
  refine ⟨name, among, inside, ?_⟩
  obtain ⟨_, kind, isOuter, isKind, held⟩ := proper.exists_kinds among
  cases isOuter.symm.trans isList
  -- A list of names holds names and values, and the values are passed over.
  rcases Bool.or_eq_true_iff.mp held with isName | isExpr
  · refine .inl ?_
    rw [isNameRef, isKind, beq_iff_eq.mp isName]
    rfl
  · refine .inr ?_
    rw [passedOver, isList]
    exact List.mem_filter.mpr ⟨among, by simp [isA, isKind, beq_iff_eq.mp isExpr]⟩

/-- Without errors, names and literals stand out unless something around them is passed over. -/
theorem standsOut_of_kept (proper : outer.Proper) (formed : outer.tree.Formed clean)
    (spotless : clean) (within : place.Within outer) (denotes : place.Denotes token)
    (kept : ∀ middle : Place, middle.Within outer → ∀ inner ∈ middle.passedOver, ¬ place.Within inner) :
    token.StandsOut outer.highlights := by
  obtain ⟨kind, isNode, atom, noType, noQualifier⟩ := denotes.exists_atom
  have composite := isLeaf_of_formed (formed_of_within formed within) isNode
  -- The induction goes along the parts that are looked at, from the outermost node inwards.
  induction outer using induct_parts with
  | step outer ih =>
    -- What stands out from a part stands out from the whole.
    have descend {part : Place} (isPart : part ∈ outer.shown) (inside : place.Within part) :
        token.StandsOut outer.highlights := by
      obtain ⟨below, among, rfl⟩ := List.mem_map.mp isPart
      obtain ⟨highlight, inPart, range⟩ := ih below among (proper.of_within (.inr below.2))
        (formed_of_within formed (.inr below.2)) inside
        fun middle inMiddle => kept middle (inMiddle.trans (.inr below.2))
      exact ⟨highlight, highlights_subset_of_mem_shown isPart highlight inPart, range⟩
    have own (standsOut : token.StandsOut outer.ownHighlights) :
        token.StandsOut outer.highlights := by
      obtain ⟨highlight, member, range⟩ := standsOut
      rw [highlights_eq]
      exact ⟨highlight, List.mem_append_left _ member, range⟩
    -- Either the place itself has been reached, or it lies in a child, which is accounted for.
    rcases within with rfl | below
    · exact own (denotes.standsOut_ownHighlights proper)
    · obtain ⟨child, member, within⟩ := below.exists_node composite
      have inside := (List.mem_filter.mp member).1
      have properChild := proper.of_mem_children inside
      have formedChild := formed_of_mem_children formed inside
      cases accounts_of_mem_nodes proper formed spotless member with
      | shown isPart => exact descend isPart within
      | passedOver passed => exact absurd within (kept outer (.refl _) child passed)
      | content isExpr looks =>
        have isExpr := beq_iff_eq.mp isExpr
        rcases within with rfl | further
        · -- A statement is no atom.
          cases isNode.symm.trans isExpr
          cases atom
        · obtain ⟨operand, -, insideOperand, content | passed⟩ :=
            exists_operand_of_exprStmt properChild formedChild spotless isExpr further composite
          · exact descend (looks operand content) insideOperand
          · exact absurd insideOperand (kept child (.inr (.child inside)) operand passed)
      | name leading calls =>
        obtain ⟨-, -, other, isOther, atom⟩ := exists_atom_of_leadingName? leading
        -- Within an atom there is no node but the atom, so the name is what denotes the token.
        obtain rfl := properChild.eq_of_within_atom isOther atom within composite
        refine own ⟨⟨.function, token.start, token.stop⟩, List.mem_append_right _ ?_, rfl, rfl⟩
        have named : outer.nameToken? = some token := by
          rw [nameToken?, leading, Option.bind_some, denotes.firstToken? properChild]
        rcases calls with isKind | isKind <;> rw [isKind] <;>
          exact mem_highlight_iff.mpr ⟨token, named, rfl⟩
      | names isList looks =>
        have isList := beq_iff_eq.mp isList
        rcases within with rfl | further
        · -- A list of names is no atom.
          cases isNode.symm.trans isList
          cases atom
        · obtain ⟨name, among, insideName, isName | passed⟩ :=
            exists_name_of_nameList properChild isList further composite
          · exact descend (looks name among isName) insideName
          · exact absurd insideName (kept child (.inr (.child inside)) name passed)
      | silent isSilent =>
        -- Types and qualifiers are atoms of other kinds than what denotes something.
        rcases isSilent with isType | isIgnored
        · obtain rfl := properChild.eq_of_within_atom (beq_iff_eq.mp isType) rfl within composite
          exact absurd (Kind.node.inj (isNode.symm.trans (beq_iff_eq.mp isType))) noType
        · obtain rfl := properChild.eq_of_within_atom (beq_iff_eq.mp isIgnored) rfl within composite
          exact absurd (Kind.node.inj (isNode.symm.trans (beq_iff_eq.mp isIgnored))) noQualifier

/-- Of two places around another, one is within the other. -/
theorem within_or_below (one : place.Within inner) (other : place.Within outer) :
    inner.Within outer ∨ Below outer inner := by
  rcases one with rfl | below
  · exact .inl other
  · rcases other with rfl | further
    · exact .inr below
    · exact below.within_or_below further

/-- Tokens of a tree that have the same range are the same. -/
theorem eq_of_tokens {left right top : Place} (one : left.Within top) (other : right.Within top)
    (isLeft : left.isToken = true) (isRight : right.isToken = true)
    (starts : left.start = right.start) (stops : left.stop = right.stop)
    (nonempty : left.start < left.stop) : left = right := by
  rcases eq_or_le_of_isLeaf one other (isLeaf_of_isToken isLeft) (isLeaf_of_isToken isRight) with
    same | before | after
  · exact same
  · omega
  · omega

/-- What is passed over is right below. -/
theorem mem_nodes_of_mem_passedOver (passed : inner ∈ place.passedOver) : inner ∈ place.nodes := by
  have expressions (among : inner ∈ place.expressions) : inner ∈ place.nodes :=
    (List.mem_filter.mp among).1
  -- Every way of passing over something takes it from the nodes right below.
  unfold passedOver at passed
  split at passed
  · cases passed
  · exact (List.mem_filter.mp passed).1
  · exact (List.mem_filter.mp passed).1
  · exact expressions (List.mem_filter.mp passed).1
  · rcases List.mem_append.mp passed with early | late
    · exact expressions (List.mem_of_mem_take (List.mem_filter.mp early).1)
    · exact expressions (List.mem_of_mem_drop late)
  · split at passed
    · exact expressions (List.mem_of_mem_drop passed)
    · cases passed

/-- A place that is not empty has one number only among the expressions. -/
theorem eq_of_expression? {m n : Nat} (one : place.expression? m = some part)
    (other : place.expression? n = some part) (nonempty : part.start < part.stop) : m = n := by
  have ordered : place.expressions.Pairwise fun left right => left.stop ≤ right.start :=
    place.nodes_pairwise.filter _
  -- With two numbers the place would come before itself, which only an empty one can.
  rcases Nat.lt_trichotomy m n with less | same | more
  · rcases apart_of_lt ordered less one other with before | after <;> omega
  · exact same
  · rcases apart_of_lt ordered more other one with before | after <;> omega

/-- What comes after some expressions has a number that is not lower. -/
theorem exists_of_mem_drop {count : Nat} (late : part ∈ place.expressions.drop count) :
    ∃ n, count ≤ n ∧ place.expression? n = some part := by
  obtain ⟨n, numbered⟩ := List.mem_iff_getElem?.mp late
  exact ⟨count + n, Nat.le_add_right _ _, by rwa [List.getElem?_drop] at numbered⟩

/-- A node that looks at its first expressions looks at nothing else but a type. -/
theorem exists_of_mem_shown {kind : NodeKind} (isNode : place.kind = .node kind) {count : Nat}
    (shows : kind.shownExpressions? = some count) (member : part ∈ place.shown) :
    (∃ n < count, place.expression? n = some part) ∨ part.isA .typeRef = true := by
  have type (found : some part = place.nodeOf? .typeRef) : part.isA .typeRef = true :=
    List.find?_some (p := isA .typeRef) found.symm
  rw [shown_eq isNode] at member
  -- Only kinds that look at their first expressions are left.
  cases kind <;> cases shows <;>
    simp only [shownOf, mem_filterMap_id, List.mem_cons, List.not_mem_nil, or_false] at member
  case cast =>
    rcases member with found | found
    · exact .inr (type found)
    · exact .inl ⟨0, by omega, found.symm⟩
  case ternary =>
    rcases member with found | found | found
    · exact .inl ⟨0, by omega, found.symm⟩
    · exact .inl ⟨1, by omega, found.symm⟩
    · exact .inl ⟨2, by omega, found.symm⟩
  case exprStmt | grouping | prefixed | postfixed => exact .inl ⟨0, by omega, member.symm⟩
  all_goals
    rcases member with found | found
    · exact .inl ⟨0, by omega, found.symm⟩
    · exact .inl ⟨1, by omega, found.symm⟩

/-- What is looked at from an index is not passed over. -/
theorem not_mem_passedOver_of_index (isNode : place.kind = .node .index) (shown : part ∈ place.shown)
    (nonempty : part.start < part.stop) : part ∉ place.passedOver := by
  intro passed
  -- One of the first three expressions is looked at, and the first one only if it is a name.
  have numbered : ∃ n < 3, place.expression? n = some part ∧ (n = 0 → part.isNameRef = true) := by
    rw [shown_eq isNode] at shown
    simp only [shownOf, mem_filterMap_id, List.mem_cons, List.not_mem_nil, or_false] at shown
    rcases shown with found | found | found
    · obtain ⟨first, isName⟩ := Option.filter_eq_some_iff.mp found.symm
      exact ⟨0, by omega, first, fun _ => isName⟩
    · exact ⟨1, by omega, found.symm, fun one => by omega⟩
    · exact ⟨2, by omega, found.symm, fun two => by omega⟩
  obtain ⟨n, early, found, isName⟩ := numbered
  rw [passedOver, isNode] at passed
  rcases List.mem_append.mp passed with first | late
  · obtain ⟨inFirst, unnamed⟩ := List.mem_filter.mp first
    obtain ⟨m, taken⟩ := List.mem_iff_getElem?.mp inFirst
    rw [List.getElem?_take] at taken
    split at taken
    · have same := eq_of_expression? found taken nonempty
      simp [isName (by omega)] at unnamed
    · cases taken
  · obtain ⟨m, later, other⟩ := exists_of_mem_drop late
    have same := eq_of_expression? found other nonempty
    omega

/-- What is looked at is not passed over. -/
theorem not_mem_passedOver (shown : part ∈ place.shown) (nonempty : part.start < part.stop) :
    part ∉ place.passedOver := by
  intro passed
  have isExpression (inner : part ∈ place.expressions) : part.isExpression = true :=
    (List.mem_filter.mp inner).2
  unfold passedOver at passed
  split at passed
  · cases passed
  · -- A list of arguments looks at the arguments, and passes over values.
    rename_i isNode
    rw [shown_eq isNode] at shown
    have isArg := (List.mem_filter.mp shown).2
    have isExpr := (List.mem_filter.mp passed).2
    rw [isA, beq_iff_eq] at isArg isExpr
    cases isArg.symm.trans isExpr
  · -- A list of names looks at the names, and passes over values.
    rename_i isNode
    rw [shown_eq isNode] at shown
    have isName := (List.mem_filter.mp shown).2
    have isExpr := (List.mem_filter.mp passed).2
    rw [isNameRef, beq_iff_eq.mp isExpr] at isName
    cases isName
  · -- A call looks at its arguments, and passes over an expression.
    rename_i isNode
    rw [shown_eq isNode] at shown
    have found : place.nodeOf? .argList = some part := by simpa [shownOf, eq_comm] using shown
    have isList : part.isA .argList = true := List.find?_some (p := isA .argList) found
    have operand := isExpression (List.mem_filter.mp passed).1
    rw [Place.isExpression, beq_iff_eq.mp isList] at operand
    cases operand
  · rename_i isNode
    refine not_mem_passedOver_of_index isNode shown nonempty ?_
    rw [passedOver, isNode]
    exact passed
  · -- Other nodes look at their first expressions, and pass over those that come later.
    rename_i kind _ _ _ _ isNode
    split at passed
    · rename_i count shows
      obtain ⟨m, later, other⟩ := exists_of_mem_drop passed
      rcases exists_of_mem_shown isNode shows shown with ⟨n, early, found⟩ | isType
      · have same := eq_of_expression? found other nonempty
        omega
      · have operand := isExpression (List.mem_of_mem_drop passed)
        rw [Place.isExpression, beq_iff_eq.mp isType] at operand
        cases operand
    · cases passed

/-- What is around a child of a place, and below the place, is the child. -/
theorem eq_of_within_of_below (member : child ∈ place.children) (within : child.Within inner)
    (below : Below inner place) : inner = child := by
  rcases within with same | further
  · exact same.symm
  · exact absurd ((further.within_of_mem_children member).trans_below below) (not_below_self place)

/-- A place that passes over expression statements looks only at what is right below. -/
theorem mem_nodes_of_exprStmt (passed : inner ∈ place.passedOver) (isExpr : inner.isA .exprStmt = true)
    (shown : part ∈ place.shown) : part ∈ place.nodes := by
  -- An expression statement is no expression.
  have noExpression (among : inner ∈ place.expressions) : part ∈ place.nodes := by
    have operand : inner.isExpression = true := (List.mem_filter.mp among).2
    rw [Place.isExpression, beq_iff_eq.mp isExpr] at operand
    cases operand
  unfold passedOver at passed
  -- Only lists of arguments and of names pass over statements.
  split at passed
  · cases passed
  · rename_i isNode
    rw [shown_eq isNode] at shown
    exact (List.mem_filter.mp shown).1
  · rename_i isNode
    rw [shown_eq isNode] at shown
    exact (List.mem_filter.mp shown).1
  · exact noExpression (List.mem_filter.mp passed).1
  · rcases List.mem_append.mp passed with early | late
    · exact noExpression (List.mem_of_mem_take (List.mem_filter.mp early).1)
    · exact noExpression (List.mem_of_mem_drop late)
  · split at passed
    · exact noExpression (List.mem_of_mem_drop passed)
    · cases passed

/-- What is looked at from a place is not within anything below the place that is passed over. -/
theorem not_within_of_mem_shown (proper : place.Proper) (shown : part ∈ place.shown)
    (nonempty : part.start < part.stop) (below : Below inner place)
    (passed : inner ∈ outer.passedOver) : ¬ part.Within inner := by
  intro within
  have inOuter := (List.mem_filter.mp (mem_nodes_of_mem_passedOver passed)).1
  obtain ⟨holder, shows⟩ := exists_shows_of_mem_shown shown
  cases shows with
  -- The part is right below, and so is what was passed over, if it is around the part.
  | itself among =>
    have member := (List.mem_filter.mp among).1
    obtain rfl := eq_of_within_of_below member within below
    obtain rfl := eq_of_mem_children member inOuter
    exact not_mem_passedOver shown nonempty passed
  -- The part is the content of a statement right below, which would be around it.
  | content among content =>
    have member := (List.mem_filter.mp among).1
    have isExpr : holder.isA .exprStmt = true := isA_of_content? (by simp [content])
    have inHolder : part ∈ holder.children := by
      rw [content?, if_pos isExpr] at content
      exact (List.mem_filter.mp (List.mem_filter.mp (List.mem_of_getElem? content)).1).1
    rcases within with rfl | further
    · obtain rfl := eq_of_mem_children inHolder inOuter
      exact not_mem_passedOver (mem_shown_of_content? content) nonempty passed
    · obtain rfl :=
        eq_of_within_of_below member (further.within_of_mem_children inHolder) below
      obtain rfl := eq_of_mem_children member inOuter
      have direct := mem_nodes_of_exprStmt passed isExpr shown
      obtain rfl := eq_of_mem_children (List.mem_filter.mp direct).1 inHolder
      exact not_below_self _ below
  -- The part is a name in a list right below, which would be around it.
  | name among isList inList isName =>
    have member := (List.mem_filter.mp among).1
    have inHolder := (List.mem_filter.mp inList).1
    rcases within with rfl | further
    · obtain rfl := eq_of_mem_children inHolder inOuter
      refine not_mem_passedOver ?_ nonempty passed
      rw [shown_eq (beq_iff_eq.mp isList)]
      exact List.mem_filter.mpr ⟨inList, isName⟩
    · obtain rfl :=
        eq_of_within_of_below member (further.within_of_mem_children inHolder) below
      obtain rfl := eq_of_mem_children member inOuter
      -- Only the declaration of variables holds a list of names, and it passes over nothing.
      obtain ⟨kind, inner, isNode, isInner, held⟩ := proper.exists_kinds among
      cases isInner.symm.trans (beq_iff_eq.mp isList)
      cases kind <;> first | cases held; done | skip
      rw [passedOver, isNode] at passed
      cases passed

/-- Nothing is reached within what is passed over. -/
theorem not_within_of_mem_reached (proper : place.Proper) {reached : Place}
    (member : reached ∈ place.reached) (nonempty : reached.start < reached.stop)
    (below : Below inner place) (passed : inner ∈ outer.passedOver) : ¬ reached.Within inner := by
  induction place using induct_parts with
  | step place ih =>
    intro within
    rcases mem_reached_iff.mp member with rfl | ⟨part, among, further⟩
    · exact not_below_self _ (within.trans_below below)
    · have inPart := within_of_mem_reached further
      have shown : part.1 ∈ place.shown := List.mem_map_of_mem among
      -- What is passed over lies below the part, or the part within it.
      rcases within_or_below inPart within with inside | inner
      · have range := inPart.range
        exact not_within_of_mem_shown proper shown (by omega) below passed inside
      · exact ih part among (proper_of_mem_shown proper shown) further inner within

/-- Whatever is within something that is passed over does not stand out. -/
theorem not_standsOut_of_passedOver {top : Place} (proper : top.Proper)
    (formed : top.tree.Formed clean) (inside : place.Within top) (denotes : place.Denotes token)
    (around : outer.Within top) (passed : inner ∈ outer.passedOver) (within : place.Within inner) :
    ¬ token.StandsOut top.highlights := by
  rintro ⟨highlight, member, starts, stops⟩
  obtain ⟨reached, among, own⟩ := List.mem_flatMap.mp member
  have inTop := within_of_mem_reached among
  obtain ⟨inPlace, isToken⟩ := List.mem_filter.mp denotes.1
  have nonempty := denotes.range (proper.of_within inside)
  have placeRange := range_of_mem_children inPlace
  have innerBelow : Below inner top := Within.below
    (.child (List.mem_filter.mp (mem_nodes_of_mem_passedOver passed)).1) around
  obtain ⟨holder, ⟨other, inHolder, isOther, otherStarts, otherStops⟩, bears⟩ :=
    exists_holder_of_mem_ownHighlights own
  -- The highlight is made of the very token, as no other has its range.
  have same {reached : Place} (holds : holder.Within reached) (reachedInTop : reached.Within top) :
      other = token :=
    eq_of_tokens ((inHolder.trans holds).trans reachedInTop)
      ((Within.of_mem_children inPlace).trans inside) isOther isToken (by omega) (by omega) (by omega)
  -- The highlight belongs to a token right below what is reached, or to the name that is called.
  rcases bears with inTokens | ⟨leading, calls⟩
  · obtain ⟨inReached, isHolder⟩ := List.mem_filter.mp inTokens
    obtain rfl := same (.of_mem_children inReached) inTop
    obtain rfl := inHolder.eq_of_isLeaf (isLeaf_of_isToken isHolder)
    obtain rfl := eq_of_mem_children inReached inPlace
    exact not_within_of_mem_reached proper among (by omega) innerBelow passed within
  · obtain ⟨inNodes, isName, kind, isKind, atom⟩ := exists_atom_of_leadingName? leading
    have inReached := (List.mem_filter.mp inNodes).1
    obtain rfl := same (.of_mem_children inReached) inTop
    -- The name around the token is the place that denotes it.
    have placeInHolder : place.Within holder := by
      rcases inHolder with rfl | below
      · have isNode := (List.mem_filter.mp inNodes).2
        simp [isToken] at isNode
      · exact below.within_of_mem_children inPlace
    have holderInTop := (Within.of_mem_children inReached).trans inTop
    obtain ⟨own, isNode, -⟩ := denotes.exists_atom
    obtain rfl := (proper.of_within holderInTop).eq_of_within_atom isKind atom placeInHolder
      (isLeaf_of_formed (formed_of_within formed inside) isNode)
    have reachedRange := range_of_mem_children inReached
    rcases within with rfl | below
    · -- A name is not passed over where it is called.
      obtain rfl := eq_of_mem_children inReached
        (List.mem_filter.mp (mem_nodes_of_mem_passedOver passed)).1
      rcases calls with isKind | isKind <;> rw [passedOver, isKind] at passed
      · cases passed
      · have unnamed := (List.mem_filter.mp passed).2
        simp [isName] at unnamed
    · exact not_within_of_mem_reached proper among (by omega) innerBelow passed
        (below.within_of_mem_children inReached)

end Dxl.Place
