import Dxl.Proofs.Grammar.Expression

/-! Declarations: what the rules for declared names, arrays, functions and parameters promise. -/

namespace Dxl.Grammar

open Dxl.Parser

variable {call : Rule → Growth → Except Failure Growth} {limit : Option Nat} {budget : Nat}
  {growth : Growth} (keeps : Keeps call limit budget) (good : growth.Good)
include keeps good

/-- Passing over tokens adds no nodes. -/
theorem ensures_recovery (cheap : 8 * growth.rest.length ≤ budget) :
    recovery.Ensures call limit growth fun _ after => Rule.recovery.Promises growth after := by
  -- The end of the text and the places where a statement may begin again stop the passing over.
  refine (ensures_atEnd good).ite (fun after settles _ => ?_) fun looked settles inside => ?_
  · exact ensures_pure settles.extended
  refine (ensures_nextIsOneOf settles.good _).ite (fun after stops _ => ?_) fun between goes _ => ?_
  · exact ensures_pure (settles.trans stops).extended
  · -- Any other token is consumed, which pays for the rule calling itself on what is left.
    have start := settles.trans goes
    refine (ensures_bump goes.good (start.next ▸ inside)).bind fun _ read token => ?_
    have shorter := token.shorter trivial
    have fewer := start.extended.fewer
    exact (keeps .recovery read token.good trivial (by simp only [Rule.rank]; omega)).mono
      fun _ after further => (start.extend (token.trans further)).imp False.elim

/-- Without a name, tokens are passed over. -/
theorem ensures_nameless (cheap : 8 * growth.rest.length < budget) :
    nameless.Ensures call limit growth fun kind after =>
      kind = .skipped ∧ growth.Extends after [] False := by
  refine (ensures_missing good .name).bind fun _ between noted => ?_
  have fewer := noted.extended.fewer
  -- Nothing is consumed before the call, which the low rank of the rule called makes up for.
  exact (keeps .recovery between noted.good trivial (by simp only [Rule.rank]; omega)).bind
    fun _ after passed => ensures_pure ⟨rfl, noted.extend passed⟩

/-- Braces make a block. -/
theorem ensures_block (next : growth.next.kind = .sign .leftBrace)
    (cheap : 8 * growth.rest.length ≤ budget) :
    block.Ensures call limit growth fun _ after => growth.Extends after [.block] True := by
  refine ensures_nodeOf good ((ensures_require good.enter (by simp)).bind fun _ opened brace => ?_)
  -- The brace was consumed inside the new node, so the items have a token less to spend.
  have shorter := brace.shorter next
  simp only [Growth.enter] at shorter
  refine (keeps .blockItems opened brace.good trivial (by simp only [Rule.rank]; omega)).bind
    fun _ filled inside => ?_
  obtain ⟨items, content, areItems⟩ := inside
  -- A missing closing brace is only noted: the block is closed all the same.
  exact (ensures_require content.good (by simp)).mono fun _ after close =>
    ((brace.trans (content.trans close)).imp fun _ => .inl next).close
      (by simpa [NodeKind.admits] using areItems) (by simp [NodeKind.isAtom])

/-- A list of parameters makes one node, unless it is empty or missing. -/
theorem ensures_parameterList (cheap : 8 * growth.rest.length ≤ budget) :
    parameterList.Ensures call limit growth fun _ after =>
      ∃ added, growth.Extends after added False ∧ (added = [] ∨ added = [.paramList]) := by
  -- Without its opening parenthesis there is no list, and no node is begun for it.
  refine (ensures_expect good (by simp)).iteRead (fun opened paren _ => ?_) fun after settles _ => ?_
  · have shorter := paren.shorter trivial
    refine (ensures_nextIs paren.good _).ite (fun after settles _ => ?_) fun between settles _ => ?_
    · -- Empty parentheses leave no node either.
      exact ensures_pure ⟨[], (paren.trans settles.extended).imp False.elim, .inl rfl⟩
    · -- A list with something inside is one node around whatever the parameters make.
      have fewer := settles.extended.fewer
      have content := (keeps .parameters between.enter settles.good.enter trivial
        (by simp only [Growth.enter, Rule.rank]; omega)).mono
          fun _ _ ⟨_, content, areParameters⟩ => content.close (show NodeKind.paramList.admits _
            from areParameters) (by simp [NodeKind.isAtom])
      refine (ensures_nodeOf settles.good content).mono fun _ after extended => ?_
      exact ⟨_, (paren.trans (settles.extend extended)).imp False.elim, .inr rfl⟩
  · exact ensures_pure ⟨[], settles.extended, .inl rfl⟩

/-- The body of a function makes one node, unless it is missing. -/
theorem ensures_functionBody (cheap : 8 * growth.rest.length ≤ budget) :
    functionBody.Ensures call limit growth fun _ after =>
      ∃ added, growth.Extends after added False ∧ (added = [] ∨ added = [.block]) := by
  -- Only a brace begins a body; a prototype ends here.
  refine (ensures_nextIs good _).ite (fun between settles next => ?_) fun after settles _ => ?_
  · have fewer := settles.extended.fewer
    exact (ensures_block keeps settles.good (settles.next ▸ next) (by omega)).mono
      fun _ after extended => ⟨_, (settles.extend extended).imp False.elim, .inr rfl⟩
  · exact ensures_pure ⟨[], settles.extended, .inl rfl⟩

/-- What follows the name of a function completes it. -/
theorem ensures_functionRest (cheap : 8 * growth.rest.length ≤ budget) :
    functionRest.Ensures call limit growth fun kind after =>
      kind = .funcDecl ∧ ∃ added, growth.Extends after added False
        ∧ kind.admits (.typeRef :: .nameRef :: added) = true := by
  refine (ensures_parameterList keeps good cheap).bind fun _ listed ⟨list, first, isList⟩ => ?_
  refine (ensures_require first.good (by simp)).bind fun _ closed paren => ?_
  have fewer := first.fewer
  have fewerThen := paren.fewer
  refine (ensures_functionBody keeps paren.good (by omega)).bind
    fun _ after ⟨body, second, isBody⟩ => ensures_pure ⟨rfl, _,
      (first.trans (paren.trans second)).imp False.elim, ?_⟩
  -- Each combination of the two optional parts is admitted below a function.
  rcases isList with rfl | rfl <;> rcases isBody with rfl | rfl <;> rfl

/-- An initial value makes one node, unless it is missing. -/
theorem ensures_initialValue (cheap : 8 * growth.rest.length ≤ budget) :
    initialValue.Ensures call limit growth fun _ after =>
      ∃ added, growth.Extends after added False ∧ (added = [] ∨ added = [.exprStmt]) := by
  -- A value follows an equals sign only.
  refine (ensures_accept good (by simp)).iteRead (fun between equal _ => ?_) fun after settles _ => ?_
  · have shorter := equal.shorter trivial
    exact (ensures_expressionStatement keeps equal.good (by omega)).mono fun _ after value =>
      ⟨_, (equal.trans value).imp False.elim, .inr rfl⟩
  · exact ensures_pure ⟨[], settles.extended, .inl rfl⟩

omit keeps in
/-- A further name makes one node, unless it is missing. -/
theorem ensures_furtherName :
    furtherName.Ensures call limit growth fun _ after =>
      ∃ added, growth.Extends after added False ∧ (added = [] ∨ added = [.nameRef]) := by
  refine (ensures_nextIs good _).ite (fun between settles next => ?_) fun after settles _ => ?_
  · refine (ensures_bumpAs settles.good ?_ rfl).mono fun _ after name =>
      -- The name itself may be left out after a comma.
      ⟨_, (settles.extend name).imp False.elim, .inr rfl⟩
    simp [settles.next, next]
  · exact ensures_pure ⟨[], settles.extended, .inl rfl⟩

/-- Further names and their values make a node each. -/
theorem ensures_furtherNames (cheap : 8 * growth.rest.length ≤ budget) :
    furtherNames.Ensures call limit growth fun _ after =>
      Rule.furtherNames.Promises growth after := by
  -- Each comma pays for one more round.
  refine (ensures_accept good (by simp)).iteRead (fun between comma _ => ?_) fun after settles _ => ?_
  · have shorter := comma.shorter trivial
    refine (ensures_furtherName comma.good).bind fun _ named ⟨names, name, isName⟩ => ?_
    have fewer := name.fewer
    refine (ensures_initialValue keeps name.good (by omega)).bind
      fun _ valued ⟨values, value, isValue⟩ => ?_
    have fewerThen := value.fewer
    refine (keeps .furtherNames valued value.good trivial (by simp only [Rule.rank]; omega)).mono
      fun _ after ⟨others, further, areOthers⟩ => ⟨_,
        (comma.trans (name.trans (value.trans further))).imp False.elim, ?_⟩
    -- The two optional parts of this round come before the nodes of the further rounds.
    rcases isName with rfl | rfl <;> rcases isValue with rfl | rfl <;> simpa using areOthers
  · exact ensures_pure ⟨[], settles.extended, rfl⟩

/-- More names make one node together with the name and the value before them. -/
theorem ensures_nameList (operand : growth.opening = .node)
    (named : growth.kinds = [.nameRef] ∨ growth.kinds = [.nameRef, .exprStmt])
    (cheap : 8 * growth.rest.length < budget) :
    nameList.Ensures call limit growth fun _ after =>
      ∃ left, growth.Becomes after left False ∧ NodeKind.varDecl.admits (.typeRef :: left) = true := by
  -- A comma decides: the list is opened around the operand that is already there.
  refine (ensures_nextIs good _).ite (fun between settles _ => ?_) fun after settles _ => ?_
  · have fewer := settles.extended.fewer
    have kinds : between.kinds = growth.kinds := by simpa using settles.extended.kinds
    refine (@ensures_wrapIn call limit between .nameList _ False (settles.extended.operand operand)
      ((keeps .furtherNames between.enter settles.good.enter trivial
        (by simp only [Growth.enter, Rule.rank]; omega)).mono
          fun _ _ ⟨_, further, areNames⟩ => further.closeAround settles.good ?_ rfl)).mono
            fun _ after becomes => ⟨_, settles.becomes becomes, rfl⟩
    -- Both operands a list may be opened around are admitted below it.
    rcases named with named | named <;> rw [kinds, named] <;> simpa [NodeKind.admits] using areNames
  · refine ensures_pure ⟨_, ((Growth.Becomes.refl good operand).extend settles.extended).imp
      False.elim, ?_⟩
    -- Without a comma the operand itself is what the declaration holds.
    rcases named with named | named <;> rw [named] <;> rfl

/-- An item of an array makes at most one node. -/
theorem ensures_arrayItem (cheap : 8 * growth.rest.length < budget) :
    arrayItem.Ensures call limit growth fun _ after =>
      ∃ added, growth.Extends after added False ∧ added.all (· == .exprStmt) = true := by
  -- A type among the items is consumed without a node of its own.
  refine (ensures_atType good).ite (fun between settles type => ?_) fun between settles _ => ?_
  · have further := settles.good.ne_endOfText_of_namesType (settles.next ▸ type)
    exact (ensures_bump settles.good further).mono fun _ after read =>
      ⟨[], (settles.extend read).imp False.elim, rfl⟩
  · -- A reference mark before the value is passed over, then the value is an expression.
    refine (ensures_skip settles.good (by simp)).bind fun _ item skipped => ?_
    have fewer := settles.extended.fewer
    have fewerThen := skipped.fewer
    exact (ensures_expressionStatement keeps skipped.good (by omega)).mono fun _ after value =>
      ⟨_, (settles.extend (skipped.trans value)).imp False.elim, rfl⟩

/-- The items of an array make a node each. -/
theorem ensures_arrayItems (cheap : 8 * growth.rest.length + 1 ≤ budget) :
    arrayItems.Ensures call limit growth fun _ after =>
      Rule.arrayItems.Promises growth after := by
  -- The closing brace and the end of the text both end the items.
  refine (ensures_nextIs good _).ite (fun _ settles _ => ?_) fun looked settles _ => ?_
  · exact ensures_pure ⟨[], settles.extended, rfl⟩
  refine (ensures_atEnd settles.good).ite (fun _ ends _ => ?_) fun inside ends _ => ?_
  · exact ensures_pure ⟨[], (settles.trans ends).extended, rfl⟩
  have start := settles.trans ends
  have fewer := start.extended.fewer
  refine (ensures_arrayItem keeps ends.good (by omega)).bind fun _ item ⟨made, first, isItem⟩ => ?_
  have fewerThen := first.fewer
  -- A comma after the item asks for another one, and it pays for the call.
  refine (ensures_accept first.good (by simp)).iteRead (fun between comma _ => ?_)
    fun after settles _ => ?_
  · have shorter := comma.shorter trivial
    exact (keeps .arrayItems between comma.good trivial (by simp only [Rule.rank]; omega)).mono
      fun _ after ⟨others, further, areItems⟩ => ⟨_,
        (start.extend (first.trans (comma.trans further))).imp False.elim, by
          simp [isItem, areItems]⟩
  · exact ensures_pure ⟨_, (start.extend (first.trans settles.extended)).imp False.elim, by
      simp [isItem]⟩

/-- The size of an array makes one node, unless it is left out. -/
theorem ensures_arraySize (cheap : 8 * growth.rest.length < budget) :
    arraySize.Ensures call limit growth fun _ after =>
      ∃ added, growth.Extends after added False ∧ (added = [] ∨ added = [.exprStmt]) := by
  -- The closing bracket at once means that the size is left out.
  refine (ensures_accept good (by simp)).iteRead (fun after bracket _ => ?_)
    fun between settles _ => ?_
  · exact ensures_pure ⟨[], bracket.imp False.elim, .inl rfl⟩
  · have fewer := settles.extended.fewer
    refine (ensures_expressionStatement keeps settles.good (by omega)).bind fun _ sized size => ?_
    exact (ensures_require size.good (by simp)).mono fun _ after bracket =>
      ⟨_, (settles.extend (size.trans bracket)).imp False.elim, .inr rfl⟩

/-- The values of an array make one node, unless they are missing. -/
theorem ensures_arrayValues (cheap : 8 * growth.rest.length ≤ budget) :
    arrayValues.Ensures call limit growth fun _ after =>
      ∃ added, growth.Extends after added False ∧ (added = [] ∨ added = [.argList]) := by
  -- Values need an equals sign, and then a brace around them.
  refine (ensures_accept good (by simp)).iteRead (fun between equal _ => ?_) fun after settles _ => ?_
  · have shorter := equal.shorter trivial
    refine (ensures_expect equal.good (by simp)).iteRead (fun opened brace _ => ?_)
      fun after settles _ => ?_
    · have fewer := brace.fewer
      have list := @ensures_nodeOf call limit opened brace.good .argList _ False
        ((keeps .arrayItems opened.enter brace.good.enter trivial
          -- Types in between left no nodes, so the list holds expressions only.
          (by simp only [Growth.enter, Rule.rank]; omega)).mono fun _ _ ⟨_, content, areItems⟩ =>
            content.close (NodeKind.all_imp areItems (by simp)) (by simp [NodeKind.isAtom]))
      refine list.bind fun _ filled content => ?_
      exact (ensures_require content.good (by simp)).mono fun _ after close =>
        ⟨_, (equal.trans (brace.trans (content.trans close))).imp False.elim, .inr rfl⟩
    · exact ensures_pure ⟨[], (equal.trans settles.extended).imp False.elim, .inl rfl⟩
  · exact ensures_pure ⟨[], settles.extended, .inl rfl⟩

/-- What follows the name of an array completes it. -/
theorem ensures_arrayRest (cheap : 8 * growth.rest.length < budget) :
    arrayRest.Ensures call limit growth fun kind after =>
      kind = .arrayDecl ∧ ∃ added, growth.Extends after added False
        ∧ NodeKind.namesArray (.nameRef :: added) = true := by
  refine (ensures_arraySize keeps good cheap).bind fun _ sized ⟨sizes, first, isSize⟩ => ?_
  have fewer := first.fewer
  refine (ensures_arrayValues keeps first.good (by omega)).bind
    fun _ after ⟨values, second, isValues⟩ =>
      ensures_pure ⟨rfl, _, (first.trans second).imp False.elim, ?_⟩
  -- The size comes before the values, and an array admits each combination of the two.
  rcases isSize with rfl | rfl <;> rcases isValues with rfl | rfl <;> rfl

/-- What follows the only name of a variable or an array completes it. -/
theorem ensures_variableRest (cheap : 8 * growth.rest.length ≤ budget) :
    (variableRest false).Ensures call limit growth fun kind after =>
      kind.isDeclaration = true ∧ ∃ added, growth.Extends after added False
        ∧ kind.admits (.nameRef :: added) = true
        ∧ kind.admits (.typeRef :: .nameRef :: added) = true := by
  -- The three forms are told apart by the next token: a value, an array, or the bare name.
  refine (ensures_accept good (by simp)).iteRead (fun between equal _ => ?_) fun between settles _ => ?_
  · have shorter := equal.shorter trivial
    exact (ensures_expressionStatement keeps equal.good (by omega)).bind fun _ after value =>
      ensures_pure ⟨rfl, _, (equal.trans value).imp False.elim, rfl, rfl⟩
  refine (ensures_accept settles.good (by simp)).iteRead (fun opened bracket _ => ?_)
    fun after other _ => ?_
  · have shorter := bracket.shorter trivial
    have fewer := settles.extended.fewer
    refine (ensures_arrayRest keeps bracket.good (by omega)).mono
      fun kind after ⟨isArray, added, extended, named⟩ => ?_
    -- Whatever the array makes is admitted with a type before the name and without one.
    subst isArray
    exact ⟨rfl, _, (settles.extend (bracket.trans extended)).imp False.elim, named, named⟩
  · exact ensures_pure ⟨rfl, [], (settles.trans other).extended, rfl, rfl⟩

/-- What follows the first name of variables or the name of an array completes them. -/
theorem ensures_variablesRest (operand : growth.opening = .node) (named : growth.kinds = [.nameRef])
    (cheap : 8 * growth.rest.length < budget) :
    (variableRest true).Ensures call limit growth fun kind after =>
      kind.isDeclaration = true ∧ ∃ left, growth.Becomes after left False
        ∧ kind.admits (.typeRef :: left) = true := by
  -- The same three forms, but a comma may open a list of names around what is there.
  refine (ensures_accept good (by simp)).iteRead (fun between equal _ => ?_) fun between settles _ => ?_
  · have shorter := equal.shorter trivial
    refine (ensures_expressionStatement keeps equal.good (by omega)).bind fun _ valued value => ?_
    have fewer := value.fewer
    -- The list would be opened around the name together with its value.
    have whole := equal.trans value
    exact (ensures_nameList keeps value.good (whole.operand operand)
      (.inr (by simp [whole.kinds, named])) (by omega)).bind fun _ after ⟨left, becomes, admitted⟩ =>
        ensures_pure ⟨rfl, left, (becomes.afterExtends whole).imp False.elim, admitted⟩
  have fewer := settles.extended.fewer
  refine (ensures_accept settles.good (by simp)).iteRead (fun opened bracket _ => ?_)
    fun next other _ => ?_
  · have shorter := bracket.shorter trivial
    refine (ensures_arrayRest keeps bracket.good (by omega)).mono
      fun kind after ⟨isArray, added, extended, admitted⟩ => ?_
    -- An array has no further names: its parts just follow the name.
    subst isArray
    refine ⟨rfl, _, ((Growth.Becomes.refl good operand).extend
      (settles.extend (bracket.trans extended))).imp False.elim, ?_⟩
    simpa [named, NodeKind.admits] using admitted
  · -- The bare name may still be the first of a list.
    have start := settles.trans other
    have fewerThen := other.extended.fewer
    exact (ensures_nameList keeps other.good (start.extended.operand operand)
      (.inl (by simp [start.extended.kinds, named])) (by omega)).bind
        fun _ after ⟨left, becomes, admitted⟩ =>
          ensures_pure ⟨rfl, left, start.becomes becomes, admitted⟩

/-- A declared name and what follows it make the nodes of a declaration. -/
theorem ensures_declarator (several : Bool) (next : growth.next.kind = .name)
    (cheap : 8 * growth.rest.length ≤ budget) :
    (declarator several).Ensures call limit growth fun kind after =>
      kind.isDeclaration = true ∧ ∃ added, growth.Extends after added True
        ∧ kind.admits (.typeRef :: added) = true := by
  -- The pending operand begins inside a frame of its own, which is left afterwards.
  refine @ensures_frame call limit growth _ _ (fun kind inner => kind.isDeclaration = true
    ∧ ∃ left, growth.enter.Becomes inner left True ∧ kind.admits (.typeRef :: left) = true) _ ?_
    fun kind inner ⟨declares, left, becomes, admitted⟩ =>
      ⟨declares, left, becomes.toExtends.leave good, admitted⟩
  refine (ensures_bumpAs_first good (by simp [next]) rfl).bind fun _ named name => ?_
  have shorter := name.shorter trivial
  simp only [Growth.enter] at shorter
  -- A parenthesis after the name makes it a function.
  refine (ensures_nextIs name.good _).ite (fun between settles _ => ?_) fun between settles _ => ?_
  · have fewer := settles.extended.fewer
    refine (ensures_functionRest keeps settles.good (by omega)).mono fun kind after completes => ?_
    obtain ⟨isFunction, added, extended, admitted⟩ := completes
    subst isFunction
    exact ⟨rfl, _, (name.extend (settles.extend extended)).imp .inl, admitted⟩
  · have fewer := settles.extended.fewer
    -- Only the name is in the frame so far, and it is the operand a list may be opened around.
    have kinds : between.kinds = [.nameRef] := by rw [settles.extended.kinds, name.kinds]; rfl
    have opening := settles.extended.operand name.operand
    cases several with
    | true =>
      refine (ensures_variablesRest keeps settles.good opening kinds (by omega)).mono
        fun kind after completes => ?_
      obtain ⟨declares, left, becomes, admitted⟩ := completes
      exact ⟨declares, left, (name.trans (settles.becomes becomes)).imp .inl, admitted⟩
    -- A parameter declares a single name, so no list is opened.
    | false =>
      refine (ensures_variableRest keeps settles.good (by omega)).mono
        fun kind after completes => ?_
      obtain ⟨declares, added, extended, -, admitted⟩ := completes
      exact ⟨declares, _, (name.extend (settles.extend extended)).imp .inl, admitted⟩

/-- A type and what is declared with it make one node. -/
theorem ensures_typedDeclaration (type : growth.next.namesType = true)
    (cheap : 8 * growth.rest.length ≤ budget) :
    typedDeclaration.Ensures call limit growth fun kind after =>
      (kind.isDeclaration || kind == .skipped) = true ∧ growth.Extends after [kind] True := by
  refine ensures_added good ((ensures_bumpAs good.enter
    (good.ne_endOfText_of_namesType type) rfl).bind fun _ typed read => ?_)
  have shorter := read.shorter trivial
  simp only [Growth.enter] at shorter
  -- The mark of a reference has no node.
  refine (ensures_skip read.good (by simp)).bind fun _ marked mark => ?_
  have fewer := mark.fewer
  have start := read.trans mark
  -- A name makes the declaration; otherwise tokens are passed over under the type.
  refine (ensures_nextIs mark.good _).ite (fun between settles next => ?_) fun between settles _ => ?_
  · have fewerThen := settles.extended.fewer
    refine (ensures_declarator keeps settles.good true (settles.next ▸ next) (by omega)).mono
      fun kind after declared => ?_
    obtain ⟨declares, added, extended, admitted⟩ := declared
    exact ⟨by simp [declares], ((start.trans (settles.extend extended)).imp
      fun _ => .inl (.inl trivial)).close (by simpa using admitted)
        (by simp [NodeKind.isAtom_of_isDeclaration declares])⟩
  · have fewerThen := settles.extended.fewer
    refine (ensures_nameless keeps settles.good (by omega)).mono
      fun kind after passed => ?_
    obtain ⟨isSkipped, extended⟩ := passed
    subst isSkipped
    exact ⟨rfl, ((start.trans (settles.extend extended)).imp
      fun _ => .inl (.inl trivial)).close rfl (by simp [NodeKind.isAtom])⟩

/-- A parameter makes one node. -/
theorem ensures_parameter (cheap : 8 * growth.rest.length < budget) :
    parameter.Ensures call limit growth fun kind after =>
      (kind.isDeclaration || kind == .skipped) = true ∧ growth.Extends after [kind] False := by
  refine ensures_added good ((ensures_atType good.enter).ite (fun between settles type => ?_)
    fun between settles _ => ?_)
  · -- With a type, the name may be missing.
    have further := settles.good.ne_endOfText_of_namesType (settles.next ▸ type)
    have fewer := settles.extended.fewer
    simp only [Growth.enter] at fewer
    refine (ensures_bumpAs settles.good further rfl).bind fun _ typed read => ?_
    have shorter := read.shorter trivial
    refine (ensures_skip read.good (by simp)).bind fun _ marked mark => ?_
    have fewerThen := mark.fewer
    have start := settles.extend (read.trans mark)
    refine (ensures_nextIs mark.good _).ite (fun next looked name => ?_) fun next looked _ => ?_
    · have := looked.extended.fewer
      refine (ensures_declarator keeps looked.good false (looked.next ▸ name) (by omega)).mono
        fun kind after declared => ?_
      obtain ⟨declares, added, extended, admitted⟩ := declared
      -- The type comes before the nodes of the declarator, as the parameter admits.
      exact ⟨by simp [declares], ((start.trans (looked.extend extended)).imp False.elim).close
        (by simpa using admitted) (by simp [NodeKind.isAtom_of_isDeclaration declares])⟩
    · -- A type alone stands for a function without a name.
      exact ensures_pure ⟨rfl, ((start.trans looked.extended).imp False.elim).close rfl
        (by simp [NodeKind.isAtom])⟩
  · -- Without a type, the name may be missing as well.
    have fewer := settles.extended.fewer
    simp only [Growth.enter] at fewer
    refine (ensures_skip settles.good (by simp)).bind fun _ marked mark => ?_
    have fewerThen := mark.fewer
    refine (ensures_nextIs mark.good _).ite (fun next looked name => ?_) fun next looked _ => ?_
    · have := looked.extended.fewer
      refine (ensures_bumpAs looked.good (by simp [looked.next, name]) rfl).bind
        fun _ named read => ?_
      have shorter := read.shorter trivial
      refine (ensures_variableRest keeps read.good (by omega)).mono
        fun kind after completes => ?_
      obtain ⟨declares, added, extended, admitted, -⟩ := completes
      -- The name stands without a type before it.
      have whole := settles.extend (mark.trans (looked.extend (read.trans extended)))
      exact ⟨by simp [declares], (whole.imp False.elim).close (by simpa using admitted)
        (by simp [NodeKind.isAtom_of_isDeclaration declares])⟩
    · -- Neither a type nor a name is there, so the tokens are passed over.
      have := looked.extended.fewer
      refine (ensures_nameless keeps looked.good (by omega)).mono
        fun kind after passed => ?_
      obtain ⟨isSkipped, extended⟩ := passed
      subst isSkipped
      have whole := settles.extend (mark.trans (looked.extend extended))
      exact ⟨rfl, (whole.imp False.elim).close rfl (by simp [NodeKind.isAtom])⟩

/-- Parameters make a node each. -/
theorem ensures_parameters (cheap : 8 * growth.rest.length + 1 ≤ budget) :
    parameters.Ensures call limit growth fun _ after =>
      Rule.parameters.Promises growth after := by
  have first : (nodeOf .param do
      if ← nextIsOneOf [.sign .comma, .sign .rightParen] then pure ()
      else let _ ← parameter).Ensures call limit growth fun _ after =>
        growth.Extends after [.param] False := by
    -- A comma or the closing parenthesis at once leaves an empty parameter node.
    refine ensures_nodeOf good ((ensures_nextIsOneOf good.enter _).ite (fun after settles _ => ?_)
      fun between settles _ => ?_)
    · exact ensures_pure (settles.extended.close rfl (by simp [NodeKind.isAtom]))
    · have fewer := settles.extended.fewer
      simp only [Growth.enter] at fewer
      refine (ensures_parameter keeps settles.good (by omega)).bind fun kind after made => ?_
      obtain ⟨possible, extended⟩ := made
      exact ensures_pure ((settles.extend extended).close possible (by simp [NodeKind.isAtom]))
  -- A comma after the parameter asks for another one.
  refine first.bind fun _ between parameter => ?_
  have fewer := parameter.fewer
  refine (ensures_accept parameter.good (by simp)).iteRead (fun next comma _ => ?_)
    fun after settles _ => ?_
  · have shorter := comma.shorter trivial
    refine (keeps .parameters next comma.good trivial (by simp only [Rule.rank]; omega)).mono
      fun _ after made => ?_
    obtain ⟨others, further, areParameters⟩ := made
    exact ⟨_, (parameter.trans (comma.trans further)).imp False.elim, by simpa using areParameters⟩
  · exact ensures_pure ⟨_, (parameter.trans settles.extended).imp False.elim, rfl⟩

end Dxl.Grammar
