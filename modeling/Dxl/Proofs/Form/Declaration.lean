import Dxl.Proofs.Form.Expression

/-! Declarations: the forms of the nodes that the rules for declarations make. -/

namespace Dxl

namespace Form

variable {clean : Prop}

/-- A declared name and all that follows it, with the kind of what is declared. -/
inductive Declarator (clean : Prop) : NodeKind → List Constituent → Prop
  | single {value : List Constituent} (first : Option TokenKind) : Value value →
    Declarator clean .varDecl (.node .nameRef first :: value)
  | several (first : Option TokenKind) : Declarator clean .varDecl [.node .nameList first]
  | array {size values : List Constituent} (first : Option TokenKind) : Size clean size →
    Values clean values →
    Declarator clean .arrayDecl
      (.node .nameRef first :: .token (.sign .leftBracket) :: (size ++ values))
  | function {parameters close body : List Constituent} (first : Option TokenKind) :
    OptionalNode .paramList parameters → Needed clean (.sign .rightParen) close →
    OptionalNode .block body →
    Declarator clean .funcDecl
      (.node .nameRef first :: .token (.sign .leftParen) :: (parameters ++ close ++ body))

/-- A type and a declared name form a declaration. -/
theorem Declarator.forms {kind : NodeKind} {mark added : List Constituent}
    (declarator : Declarator clean kind added) (type : Option TokenKind)
    (isMark : Optionally (.token (.sign .ampersand)) mark) :
    kind.Forms clean (.node .typeRef type :: (mark ++ added)) ∧ kind.isDeclaration = true := by
  cases declarator with
  | single first value => exact ⟨.single first (.typed type isMark) value, rfl⟩
  | several first => exact ⟨.several type first isMark, rfl⟩
  | array first size values => exact ⟨.mk first (.typed type isMark) size values, rfl⟩
  | function first parameters close body =>
    exact ⟨.named type first isMark parameters close body, rfl⟩

end Form

open Form

namespace Grammar

open Dxl.Parser

variable {clean : Prop} {seen : Option Symbol} {symbol : Symbol} {frame : List Constituent}

/-- Recovery adds whatever it passes over. -/
theorem writes_recovery :
    recovery.Writes clean seen frame fun _ _ after => ∃ added, True ∧ after = frame ++ added := by
  have none : ∃ added, True ∧ frame = frame ++ added := ⟨[], trivial, (List.append_nil frame).symm⟩
  simp only [recovery, writes_bind, writes_atEnd, writes_ite, writes_pure, writes_nextIsOneOf,
    writes_bump]
  -- It stops at the end of the text or at a token to go on from; else one more token is passed
  -- over.
  refine fun _ _ _ => ⟨fun _ => none, fun _ _ _ _ => ⟨fun _ => none, fun _ _ _ _ => ?_⟩⟩
  exact writes_call_plain trivial trivial fun added _ => ⟨_, trivial, List.append_assoc _ _ _⟩

/-- Where a name is missing the text is not clean. -/
theorem writes_nameless {post : NodeKind → Option Symbol → List Constituent → Prop}
    (after : ¬ clean → ∀ added, post .skipped none (frame ++ added)) :
    nameless.Writes clean seen frame post := by
  simp only [nameless, missing, writes_bind, writes_look, writes_report, writes_pure]
  exact fun _ _ _ unclean => writes_call_plain trivial trivial fun added _ => after (unclean rfl) added

/-- A block makes one node. -/
theorem writes_block {post : Unit → Option Symbol → List Constituent → Prop}
    (brace : symbol.kind = .sign .leftBrace)
    (after : ∀ known first, post () known (frame ++ [.node .block first])) :
    block.Writes clean (some symbol) frame post := by
  simp only [block, writes_nodeOf, writes_bind]
  refine writes_require_seen brace (writes_call_plain trivial trivial fun items areItems => ?_)
  exact writes_require fun known close closes =>
    ⟨by simpa [NodeKind.Forms] using Block.mk areItems closes, after _ _⟩

/-- A function has parameters between parentheses, and may have a body. -/
theorem writes_functionRest {post : NodeKind → Option Symbol → List Constituent → Prop}
    (paren : symbol.kind = .sign .leftParen)
    (after : ∀ known parameters close body, OptionalNode .paramList parameters →
      Needed clean (.sign .rightParen) close → OptionalNode .block body →
      post .funcDecl known
        (frame ++ .token (.sign .leftParen) :: (parameters ++ close ++ body))) :
    functionRest.Writes clean (some symbol) frame post := by
  -- Whatever parameters there are, the closing parenthesis and the body follow.
  have rest {known : Option Symbol} {parameters : List Constituent}
      (areParameters : OptionalNode .paramList parameters) :
      (do require (.sign .rightParen); functionBody; return NodeKind.funcDecl).Writes clean known
        (frame ++ [Constituent.token (.sign .leftParen)] ++ parameters) post := by
    rw [writes_bind]
    refine writes_require fun between close closes => ?_
    simp only [functionBody, writes_bind, writes_nextIs, writes_ite, writes_pure]
    refine fun next _ _ => ⟨fun brace => writes_block (by simpa using brace) fun last first => ?_,
      fun _ => ?_⟩
    · -- A function may have a body, which is a block.
      simpa using after last parameters close _ areParameters closes (.present first)
    · simpa using after (some next) parameters close _ areParameters closes .absent
  simp only [functionRest, parameterList, writes_bind, writes_expect, writes_ite, Symbol.fits_some]
  rintro _ - rfl
  -- The parenthesis was seen, so that it cannot be missing.
  refine ⟨fun _ => ⟨fun _ => ?_, by simp⟩, fun other => absurd paren other⟩
  simp only [writes_nextIs, writes_nodeOf, writes_pure]
  refine fun _ _ _ => ⟨fun _ => ?_, fun _ => ?_⟩
  · -- There are no parameters where the closing parenthesis follows.
    have plain {known : Option Symbol} := @rest known [] .absent
    rw [List.append_nil] at plain
    exact plain
  · exact writes_call_plain trivial trivial fun parameters areParameters =>
      ⟨areParameters, rest (.present _)⟩

/-- A value may be given to a name. -/
theorem writes_initialValue {post : Unit → Option Symbol → List Constituent → Prop}
    (after : ∀ known value, Value value → post () known (frame ++ value)) :
    initialValue.Writes clean seen frame post := by
  simp only [initialValue, writes_bind, writes_accept, writes_ite, writes_pure]
  refine fun next _ _ => ⟨fun _ => ⟨fun _ => writes_expressionStatement fun first => ?_, by simp⟩,
    fun _ => ⟨by simp, fun _ => ?_⟩⟩
  · -- A value stands after a sign, and there need not be one.
    simpa using after none _ (.given first)
  · simpa using after (some next) _ .absent

/-- Each further name stands after a comma, with its value. -/
theorem writes_furtherNames :
    furtherNames.Writes clean seen frame fun _ _ after =>
      ∃ added, FurtherNames added ∧ after = frame ++ added := by
  -- Whatever stands for the name, its value and further names follow.
  have rest {known : Option Symbol} {name : List Constituent}
      (isName : OptionalNode .nameRef name) :
      (do initialValue; call .furtherNames).Writes clean known
        (frame ++ [Constituent.token (.sign .comma)] ++ name) fun _ _ after =>
          ∃ added, FurtherNames added ∧ after = frame ++ added := by
    rw [writes_bind]
    refine writes_initialValue fun between value isValue =>
      writes_call_plain trivial trivial fun names further => ⟨_, .more isName isValue further, ?_⟩
    simp
  simp only [furtherNames, writes_bind, writes_accept, writes_ite, writes_pure]
  refine fun _ _ _ => ⟨fun _ => ⟨fun _ => ?_, by simp⟩,
    fun _ => ⟨by simp, fun _ => ⟨[], .none, (List.append_nil frame).symm⟩⟩⟩
  simp only [furtherName, writes_bind, writes_nextIs, writes_ite, writes_pure, writes_bumpAs,
    Symbol.fits_some]
  refine fun symbol _ _ => ⟨?_, fun _ => ?_⟩
  · -- A name follows the comma, as it should.
    rintro isName _ - rfl
    exact ⟨⟨_, by rw [beq_iff_eq.mp isName]; rfl, rfl⟩, rest (.present _)⟩
  · -- Otherwise nothing stands for it, and reading goes on with the value.
    have plain {known : Option Symbol} := @rest known [] .absent
    rw [List.append_nil] at plain
    exact plain

/-- Values may be given to an array. -/
theorem writes_arrayValues {post : Unit → Option Symbol → List Constituent → Prop}
    (after : ∀ known values, Values clean values → post () known (frame ++ values)) :
    arrayValues.Writes clean seen frame post := by
  simp only [arrayValues, writes_bind, writes_accept, writes_ite, writes_pure]
  refine fun next _ _ => ⟨fun _ => ⟨fun _ => ?_, by simp⟩, fun _ => ⟨by simp, fun _ => ?_⟩⟩
  · simp only [writes_expect, writes_nodeOf]
    refine fun other _ _ => ⟨fun _ => ⟨fun _ => ?_, by simp⟩,
      -- Without an opening brace the values are missing.
      fun _ unclean => ⟨by simp, fun _ => after _ _ (.cut unclean)⟩⟩
    refine writes_call_plain trivial trivial fun items areItems => ⟨.items areItems, ?_⟩
    refine writes_require fun known close closes => ?_
    simpa using after known _ (.given _ closes)
  · simpa using after (some next) _ .absent

/-- An array has a size, and may have values. -/
theorem writes_arrayRest {post : NodeKind → Option Symbol → List Constituent → Prop}
    (after : ∀ known size values, Size clean size → Values clean values →
      post .arrayDecl known (frame ++ (size ++ values))) :
    arrayRest.Writes clean seen frame post := by
  -- After the size, given or not, there may be values.
  have rest {known : Option Symbol} {size : List Constituent} (isSize : Size clean size) :
      (do arrayValues; return NodeKind.arrayDecl).Writes clean known (frame ++ size) post := by
    rw [writes_bind]
    refine writes_arrayValues fun last values areValues => ?_
    simpa using after last size values isSize areValues
  simp only [arrayRest, arraySize, writes_bind, writes_accept, writes_ite, writes_pure]
  -- The bracket may close at once, which leaves the size open.
  refine fun _ _ _ => ⟨fun _ => ⟨fun _ => rest .open, by simp⟩, fun _ => ⟨by simp, fun _ => ?_⟩⟩
  refine writes_expressionStatement fun first => writes_require fun known close closes => ?_
  rw [List.append_assoc]
  exact rest (.given first closes)

/-- A declared variable ends after its value, unless more names are declared with it; several names make one node with what is in the frame. -/
theorem writes_variableEnd {several : Bool} {value : List Constituent} (isValue : Value value)
    {post : NodeKind → Option Symbol → List Constituent → Prop}
    (single : ∀ known, post .varDecl known (frame ++ value))
    (list : several = true → (∃ first, frame = [.node .nameRef first])
      ∧ ∀ known first, post .varDecl known [.node .nameList first]) :
    (variableEnd several).Writes clean seen (frame ++ value) post := by
  cases several with
  | false => exact single seen
  | true =>
    -- Only where a list is asked for is the name alone in the frame, and then it begins the list.
    obtain ⟨⟨first, rfl⟩, listed⟩ := list rfl
    simp only [variableEnd, nameList, if_true, writes_bind, writes_nextIs, writes_ite, writes_wrapIn,
      writes_pure]
    refine fun _ _ _ => ⟨fun _ => ?_, fun _ => single _⟩
    exact writes_call_plain trivial trivial fun names further =>
      ⟨by simpa [NodeKind.Forms] using NameList.mk first isValue further, listed _ _⟩

/-- After the name of a variable there may be a value, more names, or the size and the values of an array. -/
theorem writes_variableRest {several : Bool}
    {post : NodeKind → Option Symbol → List Constituent → Prop}
    (single : ∀ known value, Value value → post .varDecl known (frame ++ value))
    (list : several = true → (∃ first, frame = [.node .nameRef first])
      ∧ ∀ known first, post .varDecl known [.node .nameList first])
    (array : ∀ known size values, Size clean size → Values clean values →
      post .arrayDecl known (frame ++ .token (.sign .leftBracket) :: (size ++ values))) :
    (variableRest several).Writes clean seen frame post := by
  have rest {known : Option Symbol} {value : List Constituent} (isValue : Value value) :
      (variableEnd several).Writes clean known (frame ++ value) post :=
    writes_variableEnd isValue (fun last => single last value isValue) list
  -- A value, a bracket with an array, or neither of them may follow the name.
  simp only [variableRest, writes_bind, writes_accept, writes_ite]
  refine fun _ _ _ => ⟨fun _ => ⟨fun _ => writes_expressionStatement fun first => ?_, by simp⟩,
    fun _ => ⟨by simp, fun _ next _ _ => ⟨fun _ => ⟨fun _ => ?_, by simp⟩,
      fun _ => ⟨by simp, fun _ => ?_⟩⟩⟩⟩
  · rw [List.append_assoc]
    exact rest (.given first)
  · refine writes_arrayRest fun known size values isSize areValues => ?_
    simpa using array known size values isSize areValues
  · have plain := @rest (some next) [] .absent
    rwa [List.append_nil] at plain

/-- A declared name is followed by what belongs to its kind. -/
theorem writes_declarator {several : Bool}
    {post : NodeKind → Option Symbol → List Constituent → Prop} (isName : symbol.kind = .name)
    (after : ∀ kind known added, Declarator clean kind added → post kind known (frame ++ added)) :
    (declarator several).Writes clean (some symbol) frame post := by
  simp only [declarator, writes_frame, writes_bind, writes_bumpAs, Symbol.fits_some]
  rintro _ - rfl
  rw [isName]
  refine ⟨⟨.name, rfl, rfl⟩, ?_⟩
  simp only [writes_nextIs, writes_ite]
  refine fun _ _ _ => ⟨fun paren => ?_, fun _ => ?_⟩
  · -- A parenthesis after the name makes it a function.
    exact writes_functionRest (by simpa using paren) fun known _ _ _ parameters close body =>
      after _ known _ (.function _ parameters close body)
  · -- Anything else makes it a variable, with all that can follow one.
    exact writes_variableRest (fun known value isValue => after _ known _ (.single _ isValue))
      (fun _ => ⟨⟨_, rfl⟩, fun known first => after _ known _ (.several first)⟩)
      fun known size values isSize areValues => after _ known _ (.array _ isSize areValues)

/-- A type begins a declaration, unless its name is missing. -/
theorem writes_typedDeclaration {post : NodeKind → Option Symbol → List Constituent → Prop}
    (isSeen : symbol.IsSeen) (isType : symbol.namesType = true)
    (after : ∀ kind known first, kind.isDeclaration = true ∨ kind = .skipped ∧ ¬ clean →
      post kind known (frame ++ [.node kind first])) :
    typedDeclaration.Writes clean (some symbol) frame post := by
  obtain ⟨token, rfl⟩ := isSeen
  simp only [typedDeclaration, writes_node, writes_bind, writes_bumpAs, Symbol.fits_some]
  rintro _ - rfl
  refine ⟨⟨token.kind, token.text, isType, rfl⟩, writes_skip fun _ mark isMark => ?_⟩
  simp only [writes_nextIs, writes_ite]
  refine fun _ _ _ => ⟨fun isName => ?_, fun _ => ?_⟩
  · -- After the type stand a mark and a name, with what the name declares.
    refine writes_declarator (by simpa using isName) fun kind known added declarator => ?_
    obtain ⟨forms, declares⟩ := declarator.forms (some token.symbol.kind) isMark
    exact ⟨by simpa using forms, after _ _ _ (.inl declares)⟩
  · -- Without a name the whole declaration is passed over.
    exact writes_nameless fun unclean _ => ⟨unclean, after _ _ _ (.inr ⟨rfl, unclean⟩)⟩

/-- A parameter is a declaration, unless its name is missing. -/
theorem writes_parameter {post : NodeKind → Option Symbol → List Constituent → Prop}
    (after : ∀ kind known first, kind.isDeclaration = true ∨ kind = .skipped ∧ ¬ clean →
      post kind known (frame ++ [.node kind first])) :
    parameter.Writes clean seen frame post := by
  simp only [parameter, writes_node, writes_bind, writes_atType, writes_ite, writes_bumpAs,
    Symbol.fits_some]
  rintro _ ⟨token, rfl⟩ -
  refine ⟨?_, fun _ => writes_skip fun _ mark isMark => ?_⟩
  · -- A parameter with a type may lack a name, and is a type alone then.
    rintro isType _ - rfl
    refine ⟨⟨token.kind, token.text, isType, rfl⟩, writes_skip fun _ mark isMark => ?_⟩
    simp only [writes_nextIs, writes_pure]
    refine fun _ _ _ => ⟨fun isName => ?_, fun _ => ?_⟩
    · refine writes_declarator (by simpa using isName) fun kind known added declarator => ?_
      obtain ⟨forms, declares⟩ := declarator.forms (some token.symbol.kind) isMark
      exact ⟨by simpa using forms, after _ _ _ (.inl declares)⟩
    · exact ⟨.unnamed _ isMark, after _ _ _ (.inl rfl)⟩
  · -- Without a type it has to be a name, after which no list may begin.
    simp only [writes_nextIs, Symbol.fits_some]
    refine fun symbol _ _ => ⟨?_, fun _ => writes_nameless fun unclean _ =>
      ⟨unclean, after _ _ _ (.inr ⟨rfl, unclean⟩)⟩⟩
    rintro isName _ - rfl
    refine ⟨⟨_, by rw [beq_iff_eq.mp isName]; rfl, rfl⟩, ?_⟩
    refine writes_variableRest (fun known value isValue => ⟨?_, after _ _ _ (.inl rfl)⟩) (by simp)
      fun known size values isSize areValues => ⟨?_, after _ _ _ (.inl rfl)⟩
    · simpa [NodeKind.Forms] using VarDecl.single _ (.untyped isMark) isValue
    · simpa [NodeKind.Forms] using ArrayDecl.mk _ (.untyped isMark) isSize areValues

/-- Parameters stand between commas. -/
theorem writes_parameters :
    parameters.Writes clean seen frame fun _ _ after =>
      ∃ added, Parameters added ∧ after = frame ++ added := by
  -- After any parameter there may be a comma and further ones.
  have rest {known : Option Symbol} (first : Option TokenKind) :
      (do if ← accept (.sign .comma) then call .parameters).Writes clean known
        (frame ++ [Constituent.node .param first]) fun _ _ after =>
          ∃ added, Parameters added ∧ after = frame ++ added := by
    simp only [writes_bind, writes_accept, writes_ite, writes_pure]
    refine fun _ _ _ => ⟨fun _ => ⟨fun _ => ?_, by simp⟩,
      fun _ => ⟨by simp, fun _ => ⟨_, .last first, rfl⟩⟩⟩
    exact writes_call_plain trivial trivial fun others further =>
      ⟨_, .more first further, by simp⟩
  simp only [parameters, writes_bind, writes_nodeOf, writes_nextIsOneOf, writes_ite] at rest ⊢
  -- The first parameter may be missing, and any other one is a declaration or is passed over.
  refine fun _ _ _ => ⟨fun _ => ⟨.absent, rest _⟩, fun _ => ?_⟩
  refine writes_parameter fun kind known first made => ⟨?_, rest _⟩
  rcases made with declares | ⟨rfl, unclean⟩
  · exact .declaration first declares
  · exact .skipped first unclean

/-- An item of an array is a type or a value. -/
theorem writes_arrayItem {post : Unit → Option Symbol → List Constituent → Prop}
    (after : ∀ item, ArrayItem item → post () none (frame ++ item)) :
    arrayItem.Writes clean seen frame post := by
  simp only [arrayItem, writes_bind, writes_atType, writes_ite, writes_bump]
  -- A type is taken as it stands; any other item is a value, which may be marked.
  refine fun _ _ _ => ⟨fun _ _ _ _ => after _ (.type _), fun _ => ?_⟩
  refine writes_skip fun _ mark isMark => writes_expressionStatement fun first => ?_
  rw [List.append_assoc]
  exact after _ (.value first isMark)

/-- Items of an array stand between commas. -/
theorem writes_arrayItems :
    arrayItems.Writes clean seen frame fun _ _ after =>
      ∃ added, ArrayItems added ∧ after = frame ++ added := by
  have none : ∃ added, ArrayItems added ∧ frame = frame ++ added :=
    ⟨[], .none, (List.append_nil frame).symm⟩
  simp only [arrayItems, writes_bind, writes_nextIs, writes_ite, writes_pure, writes_atEnd]
  -- The brace or the end of the text ends the items, and after each item a comma calls for another.
  refine fun _ _ _ => ⟨fun _ => none, fun _ _ _ _ => ⟨fun _ => none, fun _ => ?_⟩⟩
  refine writes_arrayItem fun item isItem => ?_
  simp only [writes_accept]
  refine fun _ _ _ => ⟨fun _ => ⟨fun _ => ?_, by simp⟩,
    fun _ => ⟨by simp, fun _ => ⟨_, .last isItem, rfl⟩⟩⟩
  exact writes_call_plain trivial trivial fun others further => ⟨_, .more isItem further, by simp⟩

end Grammar

end Dxl
