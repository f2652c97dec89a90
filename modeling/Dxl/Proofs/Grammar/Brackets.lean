import Mathlib
import Dxl.Grammar.Assembly

/-! Brackets: records in which every node is opened where it begins, and the events that stand for them. -/

namespace Dxl

/-- One entry of a record in which nodes are opened where they begin. -/
inductive Bracket where
  | opening (kind : NodeKind)
  | closing
  | token
  | mistake (mistake : Mistake)

namespace Draft

/-- Deals with one bracket. -/
def handle (draft : Draft) : Bracket → Except Failure Draft
  | .opening kind => .ok (draft.openNode kind)
  | .closing => draft.closeNode
  | .token => draft.addToken
  | .mistake mistake => .ok (draft.addMistake mistake)

/-- Deals with brackets one after the other. -/
def handleAll (brackets : List Bracket) (draft : Draft) : Except Failure Draft :=
  brackets.foldlM handle draft

/-- No brackets change nothing. -/
@[simp] theorem handleAll_nil (draft : Draft) : handleAll [] draft = .ok draft := rfl

/-- An opening bracket cannot fail. -/
@[simp] theorem handleAll_opening (kind : NodeKind) (rest : List Bracket) (draft : Draft) :
    handleAll (.opening kind :: rest) draft = handleAll rest (draft.openNode kind) := rfl

/-- A single bracket is dealt with as such. -/
@[simp] theorem handleAll_singleton (bracket : Bracket) (draft : Draft) :
    handleAll [bracket] draft = draft.handle bracket := by
  -- The fold ends after its first step.
  simp only [handleAll, List.foldlM_cons, List.foldlM_nil, bind_pure]

/-- Two rows of brackets are dealt with one after the other. -/
theorem handleAll_append {left right : List Bracket} {draft after : Draft} :
    handleAll (left ++ right) draft = .ok after
      ↔ ∃ between, handleAll left draft = .ok between ∧ handleAll right between = .ok after := by
  simp only [handleAll, List.foldlM_append]
  cases left.foldlM handle draft with
  | error failure => simp [Bind.bind, Except.bind]
  | ok between => simp [Bind.bind, Except.bind]

end Draft

/-- A stretch of events from an index onwards that stands for brackets; one with a wrapper is a single node. -/
inductive Recorded : Option Nat → Nat → List Event → List Bracket → Prop
  | nil {first : Nat} : Recorded none first [] []
  | token {first : Nat} : Recorded none first [.token] [.token]
  | mistake {first : Nat} {mistake : Mistake} :
    Recorded none first [.mistake mistake] [.mistake mistake]
  | append {first : Nat} {left right : List Event} {leftBrackets rightBrackets : List Bracket} :
    Recorded none first left leftBrackets →
    Recorded none (first + left.length) right rightBrackets →
    Recorded none first (left ++ right) (leftBrackets ++ rightBrackets)
  | node {wrapper : Option Nat} {first : Nat} {kind : NodeKind} {inner : List Event}
      {brackets : List Bracket} :
    Recorded none (first + 1) inner brackets →
    Recorded wrapper first (.start kind wrapper :: (inner ++ [.finish]))
      (.opening kind :: (brackets ++ [.closing]))
  /-- The start of a node that wraps an operand comes after the operand. -/
  | wrap {wrapper : Option Nat} {first index : Nat} {kind : NodeKind}
      {operand between inner : List Event}
      {operandBrackets betweenBrackets brackets : List Bracket} :
    Recorded (some index) first operand operandBrackets →
    Recorded none (first + operand.length) between betweenBrackets →
    index = first + operand.length + between.length →
    Recorded none (index + 1) inner brackets →
    Recorded wrapper first (operand ++ (between ++ (.start kind wrapper :: (inner ++ [.finish]))))
      (.opening kind :: (operandBrackets ++ (betweenBrackets ++ (brackets ++ [.closing]))))

/-- The events from an index onwards begin with the given ones. -/
def Holds (events : Array Event) (first : Nat) (entries : List Event) : Prop :=
  ∀ index event, entries[index]? = some event → events[first + index]? = some event

/-- A stretch of two parts holds if both of them do. -/
theorem holds_append {events : Array Event} {first : Nat} {left right : List Event} :
    Holds events first (left ++ right)
      ↔ Holds events first left ∧ Holds events (first + left.length) right := by
  constructor
  · intro holds
    constructor
    · intro index event found
      have inside := (List.getElem?_eq_some_iff.mp found).1
      exact holds index event (by rw [List.getElem?_append_left inside]; exact found)
    · intro index event found
      have := holds (left.length + index) event
        (by rw [List.getElem?_append_right (by omega), Nat.add_sub_cancel_left]; exact found)
      rwa [← Nat.add_assoc] at this
  · rintro ⟨holdsLeft, holdsRight⟩ index event found
    -- The index lies in one part or the other.
    by_cases inside : index < left.length
    · rw [List.getElem?_append_left inside] at found
      exact holdsLeft index event found
    · rw [List.getElem?_append_right (by omega)] at found
      have := holdsRight (index - left.length) event found
      rwa [show first + left.length + (index - left.length) = first + index by omega] at this

/-- A stretch holds if its first event and all others do. -/
theorem holds_cons {events : Array Event} {first : Nat} {entry : Event} {rest : List Event} :
    Holds events first (entry :: rest)
      ↔ events[first]? = some entry ∧ Holds events (first + 1) rest := by
  have split : Holds events first ([entry] ++ rest)
      ↔ Holds events first [entry] ∧ Holds events (first + [entry].length) rest := holds_append
  simp only [List.singleton_append, List.length_singleton] at split
  rw [split]
  refine and_congr_left' ⟨fun holds => holds 0 entry rfl, fun found index event located => ?_⟩
  -- A single event has the index zero.
  cases index with
  | zero => simpa using located ▸ found
  | succ index => simp at located

/-- What holds in one record holds in every record that agrees with it from there on. -/
theorem Holds.congr {events changed : Array Event} {first : Nat} {entries : List Event}
    (holds : Holds events first entries)
    (agree : ∀ index, first ≤ index → index < first + entries.length →
      changed[index]? = events[index]?) :
    Holds changed first entries := by
  intro index event found
  have inside := (List.getElem?_eq_some_iff.mp found).1
  rw [agree (first + index) (by omega) (by omega)]
  exact holds index event found

/-- The wrappers that follow one another from a given one, all at or after a bound. -/
inductive Chain (events : Array Event) : Nat → Option Nat → List Nat → List NodeKind → Prop
  | nil {bound : Nat} : Chain events bound none [] []
  | cons {bound wrapper : Nat} {kind : NodeKind} {next : Option Nat} {indices : List Nat}
      {kinds : List NodeKind} :
    bound ≤ wrapper → events[wrapper]? = some (.start kind next) →
    Chain events (wrapper + 1) next indices kinds →
    Chain events bound (some wrapper) (wrapper :: indices) (kind :: kinds)

/-- The record in which the events at some indices have been dealt with. -/
def settle (indices : List Nat) (events : Array Event) : Array Event :=
  indices.foldl (fun events index => events.setIfInBounds index .pending) events

/-- Other events stay as they are. -/
theorem settle_of_not_mem {indices : List Nat} {index : Nat} (other : index ∉ indices)
    (events : Array Event) : (settle indices events)[index]? = events[index]? := by
  induction indices generalizing events with
  | nil => rfl
  | cons first rest ih =>
    -- Neither the first index nor any other is the given one.
    rw [List.mem_cons, not_or] at other
    rw [settle, List.foldl_cons]
    refine (ih other.2 _).trans ?_
    rw [Array.getElem?_setIfInBounds_ne (Ne.symm other.1)]

/-- Records that agree at an index still do after settling. -/
theorem settle_congr {events changed : Array Event} {index : Nat} (indices : List Nat)
    (same : changed[index]? = events[index]?) :
    (settle indices changed)[index]? = (settle indices events)[index]? := by
  induction indices generalizing events changed with
  | nil => exact same
  | cons first rest ih =>
    refine ih ?_
    -- Both records change at the same index, if it is an index of both.
    rw [Array.getElem?_setIfInBounds, Array.getElem?_setIfInBounds]
    by_cases equal : first = index
    · subst equal
      have sizes : changed.size ≤ first ↔ events.size ≤ first := by
        rw [← Array.getElem?_eq_none_iff, same, Array.getElem?_eq_none_iff]
      simp only [if_true, show first < changed.size ↔ first < events.size by omega]
    · simp only [if_neg equal, same]

/-- Of two indices that are dealt with the first one does not matter anywhere else. -/
theorem settle_cons_of_ne {indices : List Nat} {index other : Nat} (different : other ≠ index)
    (events : Array Event) :
    (settle (index :: indices) events)[other]? = (settle indices events)[other]? :=
  settle_congr indices (Array.getElem?_setIfInBounds_ne (Ne.symm different))

/-- An event that has been dealt with is pending, if the later ones come after it. -/
theorem settle_cons_self {indices : List Nat} {index : Nat} {events : Array Event} {entry : Event}
    (found : events[index]? = some entry) (other : index ∉ indices) :
    (settle (index :: indices) events)[index]? = some .pending :=
  (settle_of_not_mem other _).trans
    (Array.getElem?_setIfInBounds_self_of_lt (Array.getElem?_eq_some_iff.mp found).1)

/-- What comes before all of the indices but one is as it was, with nothing left of the event at that one. -/
theorem Holds.settle_cons {events changed : Array Event} {indices : List Nat} {first index : Nat}
    {between body : List Event} {entry : Event} (holds : Holds events first between)
    (placed : index = first + between.length) (found : events[index]? = some entry)
    (holdsBody : Holds events (index + 1) body)
    (later : ∀ other ∈ indices, index + 1 + body.length ≤ other)
    (same : ∀ other, first ≤ other →
      changed[other]? = (settle (index :: indices) events)[other]?) :
    Holds changed first (between ++ ([.pending] ++ body)) := by
  -- The other indices lie behind everything that is looked at here.
  have outside : ∀ other, other < index + 1 + body.length → other ∉ indices :=
    fun other before member => by
      have := later other member
      omega
  have kept : ∀ other, first ≤ other → other ≠ index → other < index + 1 + body.length →
      changed[other]? = events[other]? := fun other inside different before =>
    (same other inside).trans ((settle_cons_of_ne different events).trans
      (settle_of_not_mem (outside other before) events))
  have pending : changed[index]? = some .pending :=
    (same index (by omega)).trans (settle_cons_self found (outside index (by omega)))
  refine holds_append.mpr ⟨holds.congr fun other inside within => ?_,
    placed ▸ holds_cons.mpr ⟨pending, holdsBody.congr fun other inside within => ?_⟩⟩
  · exact kept other inside (by omega) (by omega)
  · exact kept other (by omega) (by omega) within

namespace Chain

/-- Every wrapper of a chain lies at or after its bound. -/
theorem le_of_mem {events : Array Event} {bound : Nat} {wrapper : Option Nat} {indices : List Nat}
    {kinds : List NodeKind} (chain : Chain events bound wrapper indices kinds) :
    ∀ index ∈ indices, bound ≤ index := by
  induction chain with
  | nil => simp
  | cons within _ _ ih =>
    intro index member
    rcases List.mem_cons.mp member with same | further
    · omega
    · have := ih index further
      omega

/-- A chain is one for every smaller bound. -/
theorem mono {events : Array Event} {bound smaller : Nat} {wrapper : Option Nat}
    {indices : List Nat} {kinds : List NodeKind} (chain : Chain events bound wrapper indices kinds)
    (below : smaller ≤ bound) : Chain events smaller wrapper indices kinds := by
  cases chain with
  | nil => exact .nil
  | cons within found further => exact .cons (by omega) found further

/-- A chain is one in every record that agrees from its bound onwards. -/
theorem congr {events : Array Event} {bound : Nat} {wrapper : Option Nat}
    {indices : List Nat} {kinds : List NodeKind} (chain : Chain events bound wrapper indices kinds)
    (changed : Array Event) (agree : ∀ index, bound ≤ index → changed[index]? = events[index]?) :
    Chain changed bound wrapper indices kinds := by
  induction chain with
  | nil => exact .nil
  | cons within found _ ih =>
    exact .cons within ((agree _ within).trans found)
      (ih fun index inside => agree index (by omega))

/-- The wrappers found for a node are those of its chain. -/
theorem wrappers_eq {events : Array Event} {bound : Nat} {wrapper : Option Nat}
    {indices : List Nat} {kinds : List NodeKind} (chain : Chain events bound wrapper indices kinds)
    {current : Nat} (before : current < bound) :
    Assembly.wrappers events current wrapper = .ok (kinds, settle indices events) := by
  -- Each step clears a wrapper, which no later one of the chain can notice.
  induction indices generalizing events bound wrapper kinds current with
  | nil =>
    cases chain
    simp [Assembly.wrappers, settle]
  | cons first rest ih =>
    cases chain with
    | cons within found further =>
      have cleared := further.congr (events.setIfInBounds first .pending)
        fun index inside => Array.getElem?_setIfInBounds_ne (by omega)
      rw [Assembly.wrappers, if_pos (by omega)]
      split
      · rename_i kind next located
        rw [found] at located
        cases located
        rw [ih cleared (Nat.lt_succ_self first)]
        rfl
      · rename_i missing
        exact absurd found (missing _ _)

end Chain

namespace Assembly

/-- Some events are dealt with and then the others. -/
theorem run_add {assembly between : Assembly} {first count : Nat}
    (dealt : assembly.run first count = .ok between) (more : Nat) :
    assembly.run first (count + more) = between.run (first + count) more := by
  -- The induction is on the events dealt with first, from an index that moves on.
  induction count generalizing assembly first with
  | zero =>
    cases dealt
    rw [Nat.zero_add, Nat.add_zero]
  | succ count ih =>
    rw [Nat.add_right_comm, run]
    simp only [run] at dealt
    cases next : assembly.step first with
    | error failure => simp [next] at dealt
    | ok stepped =>
      simp only [next] at dealt ⊢
      rw [ih dealt]
      congr 1
      omega

/-- A single event is dealt with as such. -/
theorem run_one {assembly : Assembly} {first : Nat} :
    assembly.run first 1 = assembly.step first := by
  simp only [run]
  cases assembly.step first <;> rfl

/-- The start of a node opens it along with everything around it. -/
theorem step_start {events : Array Event} (draft : Draft) {index : Nat} {kind : NodeKind}
    {wrapper : Option Nat} {indices : List Nat} {kinds : List NodeKind}
    (found : events[index]? = some (.start kind wrapper))
    (chain : Chain events (index + 1) wrapper indices kinds) :
    step ⟨events, draft⟩ index =
      .ok ⟨settle indices (events.setIfInBounds index .pending),
        (kind :: kinds).foldr Draft.openNode draft⟩ := by
  have cleared := chain.congr (events.setIfInBounds index .pending)
    fun later inside => Array.getElem?_setIfInBounds_ne (by omega)
  simp [step, found, cleared.wrappers_eq (Nat.lt_succ_self index)]

end Assembly

/-- Dealing with a stretch of events opens the wrappers around it and then has the effect of the brackets; of what comes later only the wrappers are dealt with as well. -/
def StandsFor (wrapper : Option Nat) (first : Nat) (entries : List Event)
    (brackets : List Bracket) : Prop :=
  ∀ (events : Array Event) (draft after : Draft) (indices : List Nat) (kinds : List NodeKind),
    Holds events first entries → Chain events (first + entries.length) wrapper indices kinds →
    (kinds.foldr Draft.openNode draft).handleAll brackets = .ok after →
    ∃ left, Assembly.run ⟨events, draft⟩ first entries.length = .ok ⟨left, after⟩
      ∧ ∀ index, first + entries.length ≤ index →
          left[index]? = (settle indices events)[index]?

/-- A single event without wrappers stands for what its step does. -/
theorem standsFor_step {first : Nat} {entry : Event} {brackets : List Bracket}
    (stepped : ∀ (events : Array Event) (draft after : Draft), events[first]? = some entry →
      draft.handleAll brackets = .ok after →
      Assembly.step ⟨events, draft⟩ first = .ok ⟨events, after⟩) :
    StandsFor none first [entry] brackets := by
  intro events draft after indices kinds holds chain handled
  -- Without a wrapper there is no chain to be dealt with.
  cases chain
  have found := (holds_cons.mp holds).1
  have ran := Assembly.run_one.trans (stepped events draft after found handled)
  exact ⟨events, ran, fun _ _ => rfl⟩

/-- What is pending stands for nothing. -/
theorem standsFor_pending (first : Nat) : StandsFor none first [.pending] [] := by
  refine standsFor_step fun events draft after found handled => ?_
  cases handled
  simp [Assembly.step, found]

/-- The end of a node stands for its closing. -/
theorem standsFor_finish (first : Nat) : StandsFor none first [.finish] [.closing] := by
  refine standsFor_step fun events draft after found handled => ?_
  have closed : draft.closeNode = .ok after := by simpa [Draft.handle] using handled
  simp [Assembly.step, found, closed, Except.map]

/-- A read token stands for itself. -/
theorem standsFor_token (first : Nat) : StandsFor none first [.token] [.token] := by
  refine standsFor_step fun events draft after found handled => ?_
  have added : draft.addToken = .ok after := by simpa [Draft.handle] using handled
  simp [Assembly.step, found, added, Except.map]

/-- A mistake stands for itself. -/
theorem standsFor_mistake (first : Nat) (mistake : Mistake) :
    StandsFor none first [.mistake mistake] [.mistake mistake] := by
  refine standsFor_step fun events draft after found handled => ?_
  have added : draft.addMistake mistake = after := by simpa [Draft.handle] using handled
  simp [Assembly.step, found, added]

/-- No events stand for nothing. -/
theorem standsFor_nil (first : Nat) : StandsFor none first [] [] := by
  intro events draft after indices kinds holds chain handled
  cases chain
  cases handled
  exact ⟨events, rfl, fun _ _ => rfl⟩

/-- Two stretches stand for the brackets of both. -/
theorem StandsFor.append {first : Nat} {left right : List Event}
    {leftBrackets rightBrackets : List Bracket}
    (standsLeft : StandsFor none first left leftBrackets)
    (standsRight : StandsFor none (first + left.length) right rightBrackets) :
    StandsFor none first (left ++ right) (leftBrackets ++ rightBrackets) := by
  intro events draft after indices kinds holds chain handled
  cases chain
  obtain ⟨holdsLeft, holdsRight⟩ := holds_append.mp holds
  obtain ⟨between, handledLeft, handledRight⟩ := Draft.handleAll_append.mp handled
  obtain ⟨middle, ranLeft, sameLeft⟩ :=
    standsLeft events draft between [] [] holdsLeft .nil handledLeft
  obtain ⟨last, ranRight, sameRight⟩ := standsRight middle between after [] []
    (holdsRight.congr fun index inside _ => sameLeft index inside) .nil handledRight
  refine ⟨last, ?_, fun index inside => ?_⟩
  · rw [List.length_append, Assembly.run_add ranLeft, ranRight]
  · -- What comes after both stretches is left alone by each of them.
    rw [List.length_append] at inside
    rw [sameRight index (by omega)]
    exact sameLeft index (by omega)

/-- A node opens along with its wrappers, and closes after what stands inside of it. -/
theorem StandsFor.node {wrapper : Option Nat} {first : Nat} {kind : NodeKind} {inner : List Event}
    {brackets : List Bracket} (stands : StandsFor none (first + 1) inner brackets) :
    StandsFor wrapper first (.start kind wrapper :: (inner ++ [.finish]))
      (.opening kind :: (brackets ++ [.closing])) := by
  intro events draft after indices kinds holds chain handled
  obtain ⟨found, holdsBody⟩ := holds_cons.mp holds
  have later := chain.le_of_mem
  simp only [List.length_cons, List.length_append, List.length_nil] at chain later ⊢
  -- The start clears the wrappers, all of which come after the node.
  have opened := Assembly.step_start draft found (chain.mono (by omega))
  have cleared : ∀ index, first + 1 ≤ index →
      (settle indices (events.setIfInBounds first .pending))[index]?
        = (settle indices events)[index]? :=
    fun index inside => settle_cons_of_ne (by omega) events
  have holdsCleared := holdsBody.congr fun index inside within => (cleared index inside).trans
    (settle_of_not_mem (fun member => by
      have := later index member
      simp only [List.length_append, List.length_singleton] at within
      omega) events)
  obtain ⟨left, ran, same⟩ := (stands.append (standsFor_finish _)) _ _ after [] []
    holdsCleared .nil handled
  simp only [List.length_append, List.length_singleton] at ran same
  refine ⟨left, ?_, fun index inside => ?_⟩
  · rw [Nat.add_comm, Assembly.run_add (Assembly.run_one.trans opened)]
    exact ran
  · rw [same index (by omega)]
    exact cleared index (by omega)

/-- A node around an operand is opened by the operand, and its own start is passed over. -/
theorem StandsFor.wrap {wrapper : Option Nat} {first index : Nat} {kind : NodeKind}
    {operand between inner : List Event}
    {operandBrackets betweenBrackets brackets : List Bracket}
    (standsOperand : StandsFor (some index) first operand operandBrackets)
    (standsBetween : StandsFor none (first + operand.length) between betweenBrackets)
    (placed : index = first + operand.length + between.length)
    (stands : StandsFor none (index + 1) inner brackets) :
    StandsFor wrapper first (operand ++ (between ++ (.start kind wrapper :: (inner ++ [.finish]))))
      (.opening kind :: (operandBrackets ++ (betweenBrackets ++ (brackets ++ [.closing])))) := by
  intro events draft after indices kinds holds chain handled
  obtain ⟨holdsOperand, holdsRest⟩ := holds_append.mp holds
  obtain ⟨holdsBetween, holdsNode⟩ := holds_append.mp holdsRest
  rw [← placed] at holdsNode
  obtain ⟨found, holdsBody⟩ := holds_cons.mp holdsNode
  obtain ⟨opened, handledOperand, handledRest⟩ := Draft.handleAll_append.mp handled
  have later := chain.le_of_mem
  simp only [List.length_cons, List.length_append, List.length_nil] at chain later ⊢
  -- The operand opens its wrapper along with those of the wrapper.
  have outer : Chain events (first + operand.length) (some index) (index :: indices)
      (kind :: kinds) := .cons (by omega) found (chain.mono (by omega))
  obtain ⟨middle, ranOperand, sameOperand⟩ :=
    standsOperand events draft opened _ _ holdsOperand outer handledOperand
  -- What follows the operand is as before, with nothing left of the start.
  have holdsRest := holdsBetween.settle_cons placed found holdsBody (fun other member => by
    have := later other member
    simp only [List.length_append, List.length_singleton]
    omega) sameOperand
  -- What was between comes next, then the pending start, then the body and its end.
  have standsRest := standsBetween.append (placed ▸ (standsFor_pending index).append
    (stands.append (standsFor_finish _)))
  obtain ⟨left, ranRest, sameRest⟩ :=
    standsRest middle opened after [] [] holdsRest .nil handledRest
  simp only [List.length_append, List.length_cons, List.length_nil] at ranRest sameRest
  refine ⟨left, ?_, fun other inside => ?_⟩
  · rw [Assembly.run_add ranOperand, ← ranRest]
    congr 1
    omega
  · rw [sameRest other (by omega)]
    exact (sameOperand other (by omega)).trans (settle_cons_of_ne (by omega) events)

/-- Recorded events stand for their brackets. -/
theorem Recorded.standsFor {wrapper : Option Nat} {first : Nat} {entries : List Event}
    {brackets : List Bracket} (recorded : Recorded wrapper first entries brackets) :
    StandsFor wrapper first entries brackets := by
  induction recorded with
  | nil => exact standsFor_nil _
  | token => exact standsFor_token _
  | mistake => exact standsFor_mistake _ _
  | append _ _ ihLeft ihRight => exact ihLeft.append ihRight
  | node _ ih => exact ih.node
  | wrap _ _ placed _ ihOperand ihBetween ih => exact ihOperand.wrap ihBetween placed ih

end Dxl
