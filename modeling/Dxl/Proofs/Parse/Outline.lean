import Dxl.Proofs.Parse.Forms
import Dxl.Proofs.Parse.Names
import Dxl.Proofs.Place.Tiling
import Dxl.Proofs.View.Coverage
import Dxl.Proofs.View.Functions

/-! Outline: the functions that are listed for a source text. -/

namespace Dxl

namespace Place

/-- What an entry tells of a function in a source text: where it is declared, and the only token of its only name, as it is written there. -/
structure Lists (text : String) (place : Place) (entry : FunctionEntry) : Prop where
  start : entry.start = place.start
  stop : entry.stop = place.stop
  name : ∃ name ∈ place.nodes, ∃ token, name.isA .nameRef = true ∧ name.Denotes token
    ∧ (∀ other ∈ place.nodes, other.isA .nameRef = true → other = name)
    ∧ (∀ other, name.Denotes other → other = token)
    ∧ entry.nameStart = token.start ∧ entry.nameStop = token.stop
  inside : entry.start ≤ entry.nameStart ∧ entry.nameStop ≤ entry.stop
  slice : ∃ (opens : (String.Pos.Raw.mk entry.nameStart).IsValid text)
    (closes : (String.Pos.Raw.mk entry.nameStop).IsValid text),
    text.extract ⟨⟨entry.nameStart⟩, opens⟩ ⟨⟨entry.nameStop⟩, closes⟩ = entry.name

/-- Whether the place is a function with a name. -/
def isNamedFunction (place : Place) : Bool :=
  place.isA .funcDecl && place.nodes.any (isA .nameRef)

variable {place name : Place} {text : String}

/-- A function without a name has no entry. -/
theorem functionEntry?_eq_none (proper : place.Proper) (unnamed : place.isNamedFunction = false) :
    place.functionEntry? = none := by
  unfold functionEntry?
  split
  · rename_i isFunction
    cases found : place.nameToken? with
    | none => rfl
    | some token =>
      -- The leading name of a function is the name of a variable.
      obtain ⟨name, among, isName, -, -⟩ := exists_name_of_nameToken? found
      obtain ⟨outer, inner, isOuter, isInner, held⟩ := proper.exists_kinds among
      cases isOuter.symm.trans (beq_iff_eq.mp isFunction)
      have isVariable : inner = .nameRef := by
        rw [isNameRef, isInner] at isName
        cases inner <;> first | rfl | cases isName; done | cases held
      have named : place.isNamedFunction = true := Bool.and_eq_true_iff.mpr ⟨isFunction,
        List.any_eq_true.mpr ⟨name, among, by rw [isA, isInner, isVariable, beq_self_eq_true]⟩⟩
      rw [unnamed] at named
      cases named
  · rfl

/-- The entry of a function with a name lists it. -/
theorem exists_functionEntry? (proper : place.Proper) (named : place.isNamedFunction = true)
    (written : ∀ token : Place, token.Within place → token.isToken = true →
      ∃ (opens : (String.Pos.Raw.mk token.start).IsValid text)
        (closes : (String.Pos.Raw.mk token.stop).IsValid text),
        text.extract ⟨⟨token.start⟩, opens⟩ ⟨⟨token.stop⟩, closes⟩ = token.text) :
    ∃ entry, place.functionEntry? = some entry ∧ place.Lists text entry := by
  -- The name is the leading one, and its token is the first that means something.
  obtain ⟨isFunction, some⟩ := Bool.and_eq_true_iff.mp named
  obtain ⟨name, among, isName⟩ := List.any_eq_true.mp some
  have isNode := beq_iff_eq.mp isFunction
  have isRef := beq_iff_eq.mp isName
  have properName := proper.of_mem_children (List.mem_filter.mp among).1
  obtain ⟨token, first, inTokens, -, -⟩ := properName.exists_token isRef rfl
  have denotes : name.Denotes token := by
    have significant := List.find?_some first
    exact ⟨inTokens, .inl ⟨isName, by simpa using significant⟩⟩
  have leading := leadingName?_of_isDeclaration proper isNode rfl among isRef
  have found : place.nameToken? = Option.some token := by
    rw [nameToken?, leading, Option.bind_some, first]
  obtain ⟨isChild, isToken⟩ := List.mem_filter.mp inTokens
  have within : token.Within place :=
    (Within.of_mem_children isChild).trans (.inr (below_of_mem_nodes among))
  refine ⟨⟨token.text, place.start, place.stop, token.start, token.stop⟩, ?_, ?_⟩
  · unfold functionEntry?
    rw [if_pos isFunction, found, Option.map_some]
  · refine ⟨rfl, rfl, ⟨name, among, token, isName, denotes, ?_, ?_, rfl, rfl⟩, within.range,
      written token within isToken⟩
    · intro other inNodes isOther
      exact eq_of_isDeclaration proper isNode rfl inNodes among
        ((beq_iff_eq.mp isOther).trans isRef.symm)
    · intro other alsoDenotes
      exact Option.some.inj ((alsoDenotes.firstToken? properName).symm.trans first)

end Place

/-- The places that pass a test are listed one by one, if the others have no entry. -/
theorem forall₂_filterMap {lists : Place → FunctionEntry → Prop} {test : Place → Bool}
    {listing : Place → Option FunctionEntry} {places : List Place}
    (listed : ∀ place ∈ places, test place = true →
      ∃ entry, listing place = some entry ∧ lists place entry)
    (others : ∀ place ∈ places, test place = false → listing place = none) :
    List.Forall₂ lists (places.filter test) (places.filterMap listing) := by
  induction places with
  | nil => exact .nil
  | cons first rest ih =>
    have further := ih (fun place member => listed place (List.mem_cons_of_mem first member))
      fun place member => others place (List.mem_cons_of_mem first member)
    cases passes : test first with
    | true =>
      obtain ⟨entry, found, lists⟩ := listed first List.mem_cons_self passes
      rw [List.filter_cons_of_pos passes, List.filterMap_cons_some found]
      exact .cons lists further
    | false =>
      rw [List.filter_cons_of_neg (Bool.eq_false_iff.mp passes),
        List.filterMap_cons_none (others first List.mem_cons_self passes)]
      exact further

/-- Every token of a source text is written there as it is. -/
theorem extract_of_parseText {text : String} {parsed : Parsed} (parses : parseText text = .ok parsed)
    {token : Place} (within : token.Within (Place.root parsed.tree 0))
    (isToken : token.isToken = true) :
    ∃ (opens : (String.Pos.Raw.mk token.start).IsValid text)
      (closes : (String.Pos.Raw.mk token.stop).IsValid text),
      text.extract ⟨⟨token.start⟩, opens⟩ ⟨⟨token.stop⟩, closes⟩ = token.text := by
  have isText : parsed.tree.text = text := text_of_parseText parses
  obtain ⟨before, after, split, begins⟩ := within.exists_text
  have starts : token.start = before.utf8ByteSize := begins.trans (Nat.zero_add _)
  rw [← isText, Place.text_of_isToken isToken]
  apply exists_extract split starts
  rw [Place.stop, starts, Tree.width_eq_utf8ByteSize]

open Place

/-- Without errors, the functions with a name that are declared in a source text are listed, each once and in the order of the text. -/
theorem parseText_functions {text : String} {parsed : Parsed} (parses : parseText text = .ok parsed)
    (clean : parsed.report.errorCount = 0) :
    List.Forall₂ (Lists text) ((root parsed.tree 0).elements.filter isNamedFunction)
      (Highlights.ofPlace (root parsed.tree 0)).functions := by
  obtain ⟨-, isRoot, proper⟩ := rooted_of_parseText parses 0
  have formed := formed_of_parseText parses
  -- Only functions have entries, so it does not matter what else is reached.
  have only (places : List Place) : (places.filter (isA .funcDecl)).filterMap functionEntry?
      = places.filterMap functionEntry? := by
    rw [List.filterMap_filter]
    refine List.filterMap_congr fun place _ => ?_
    unfold functionEntry?
    split <;> rfl
  have functions : (Highlights.ofPlace (root parsed.tree 0)).functions
      = (root parsed.tree 0).elements.filterMap functionEntry? := by
    have isStatement : (root parsed.tree 0).isStatement = true := isStatement_of_kind isRoot
    rw [Highlights.ofPlace, if_pos (by simp [isStatement]), ← only,
      filter_reached proper formed clean, only]
  rw [functions]
  refine forall₂_filterMap (fun place member named => ?_) fun place member unnamed => ?_
  · have inside := mem_elements_iff.mp member
    exact exists_functionEntry? (proper.of_within inside) named fun token within isToken =>
      extract_of_parseText parses (within.trans inside) isToken
  · exact functionEntry?_eq_none (proper.of_within (mem_elements_iff.mp member)) unnamed

/-- A parameter that is a function is listed, and so is a function inside of a choice. -/
theorem parseText_functions_nested :
    ∃ parsed outer parameter inner, parseText "int f(int g()) { if (a) { int h() {} } }" = .ok parsed
      ∧ (root parsed.tree 0).elements.filter isNamedFunction = [outer, parameter, inner]
      ∧ Lists "int f(int g()) { if (a) { int h() {} } }" outer ⟨"f", 0, 40, 4, 5⟩
      ∧ Lists "int f(int g()) { if (a) { int h() {} } }" parameter ⟨"g", 6, 13, 10, 11⟩
      ∧ Lists "int f(int g()) { if (a) { int h() {} } }" inner ⟨"h", 26, 36, 30, 31⟩ := by
  have found : (parseText "int f(int g()) { if (a) { int h() {} } }").toOption.any (fun parsed =>
      parsed.report.errorCount == 0 && (Highlights.ofPlace (root parsed.tree 0)).functions
        == [⟨"f", 0, 40, 4, 5⟩, ⟨"g", 6, 13, 10, 11⟩, ⟨"h", 26, 36, 30, 31⟩]) = true := by
    decide +kernel
  obtain ⟨parsed, parses, found⟩ := exists_ok_of_any found
  simp only [Bool.and_eq_true, beq_iff_eq] at found
  obtain ⟨clean, functions⟩ := found
  -- There are as many named functions as entries, in the same order.
  have listed := parseText_functions parses clean
  rw [functions] at listed
  simp only [List.forall₂_cons_right_iff, List.forall₂_nil_right_iff] at listed
  obtain ⟨outer, _, isOuter, ⟨parameter, _, isParameter, ⟨inner, _, isInner, rfl, rfl⟩, rfl⟩,
    same⟩ := listed
  exact ⟨parsed, outer, parameter, inner, parses, same, isOuter, isParameter, isInner⟩

end Dxl
