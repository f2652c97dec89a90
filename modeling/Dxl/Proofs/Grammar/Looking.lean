import Dxl.Proofs.Grammar.Costs
import Dxl.Proofs.Grammar.Symbols

/-! Looking: no token is looked at more often than the tree that is made in the end is high enough for. -/

namespace Dxl

namespace Tree

/-- A largest number is bounded just if all numbers are. -/
theorem foldl_max_le (numbers : List Nat) (least bound : Nat) :
    numbers.foldl max least ≤ bound ↔ least ≤ bound ∧ ∀ number ∈ numbers, number ≤ bound := by
  -- The least bound grows as numbers are passed.
  induction numbers generalizing least with
  | nil => simp
  | cons number rest ih => simp [ih, and_assoc]

/-- A node is as high as it is if its children are not higher than one less. -/
theorem depth_node_le (kind : Kind) (children : List Tree) (height : Nat) :
    (node kind children).depth ≤ height
      ↔ ∃ lower, height = lower + 1 ∧ ∀ child ∈ children, child.depth ≤ lower := by
  rw [depth, fold_node, ← depth]
  -- No node fits into no levels at all.
  cases height with
  | zero => simp
  | succ lower => simp [foldl_max_le]

end Tree

namespace Growth

/-- No tree in the frame is higher than a bound. -/
def Low (growth : Growth) (height : Nat) : Prop :=
  growth.Each fun tree => tree.depth ≤ height

namespace Low

variable {growth after inner : Growth} {height : Nat}

/-- What was there before more trees were added is not higher. -/
theorem of_adds {property : Tree → Prop} (low : after.Low height)
    (adds : growth.Adds after property) : growth.Low height := by
  obtain ⟨added, siblings, -⟩ := adds
  intro tree member
  exact low tree (siblings ▸ List.mem_append_right added member)

/-- A frame that another one joins is not higher. -/
theorem of_leave (low : (growth.leave inner).Low height) : growth.Low height ∧ inner.Low height :=
  ⟨fun tree member => low tree (List.mem_append_right _ member),
    fun tree member => low tree (List.mem_append_left _ member)⟩

/-- What a node is made of is lower than the node. -/
theorem of_close {kind : NodeKind} (low : (inner.close kind).Low height) :
    ∃ lower, height = lower + 1 ∧ inner.Low lower := by
  obtain ⟨lower, rfl, bound⟩ := (Tree.depth_node_le _ _ _).mp (low _ (List.mem_singleton_self _))
  exact ⟨lower, rfl, fun tree member => bound tree (List.mem_reverse.mpr member)⟩

/-- What is low is so for a larger bound. -/
theorem weaken {lower : Nat} (low : growth.Low lower) (higher : lower ≤ height) :
    growth.Low height :=
  fun tree member => Nat.le_trans (low tree member) higher

/-- No step makes the trees that are there lower: they stay, or go into a node. -/
theorem stepwise :
    Stepwise fun growth after => ∀ height, after.Low height → growth.Low height where
  stay _ _ low := low
  further first second height low := first height (second height low)
  look looked _ low := low.of_adds (look_ok looked).2.2
  bump bumped _ low := by
    obtain ⟨token, trivia, -, -, siblings, -⟩ := bump_ok bumped
    exact low.of_adds ⟨token.leaf :: trivia, siblings, fun _ _ => trivial⟩
  report _ _ _ low := low
  node _ _ _ low := low.of_leave.1
  frame _ _ low := low.of_leave.1
  -- A node within the bound holds only what is lower.
  wrap _ _ _ _ low := by
    obtain ⟨lower, rfl, bound⟩ := low.of_close
    exact bound.of_leave.1.weaken (Nat.le_succ lower)

end Low

end Growth

/-- Trees do not become lower while a parser grows them, if they do not while rules do. -/
theorem Parser.low_of_grow {call : Rule → Growth → Except Failure Growth} {limit : Option Nat}
    (called : ∀ rule growth after height, call rule growth = .ok after → after.Low height →
      growth.Low height)
    {α : Type} {parser : Parser α} {growth after : Growth} {value : α} {height : Nat}
    (grown : parser.grow call limit growth = .ok (value, after)) (low : after.Low height) :
    growth.Low height :=
  Growth.Low.stepwise.grow (fun ended height => called _ _ _ height ended) grown height low

/-- Trees do not become lower while a rule grows them. -/
theorem Rule.low_of_grow {limit : Option Nat} {rule : Rule} {depth : Nat} {growth after : Growth}
    {height : Nat} (grown : rule.grow limit depth growth = .ok after) (low : after.Low height) :
    growth.Low height :=
  Growth.Low.stepwise.grow_rule grown height low

/-- How many looks are spent in all, when so many were spent before the rule began. -/
def Spending.total (state : Spending) (carried : Nat) : Nat :=
  (if state.read then 0 else carried) + state.spent

/-- What may still be spent is part of the allowance. -/
theorem Spending.total_le {state : Spending} {carried reach more : Nat}
    (few : state.spent + more ≤ lookCap reach state.read) (within : carried + reach ≤ allowance) :
    state.total carried + more ≤ allowance := by
  rw [total]
  -- What was spent before the rule began counts only until something is read.
  cases read : state.read with
  | false =>
    rw [read, lookCap_false] at few
    simp only [Bool.false_eq_true, if_false]
    omega
  | true =>
    rw [read, lookCap_true] at few
    simp only [if_true]
    omega

namespace Growth

/-- The looks at the next token are within what its height allows and what is spent in all, since a rule began at an origin. -/
structure Affords (origin growth : Growth) (height carried : Nat) (state : Spending) : Prop where
  looks : growth.looks ≤ 6 * height + state.total carried
  idle : state.read = false → symbols growth.rest = symbols origin.rest
  busy : state.read = true → (symbols growth.rest).length < (symbols origin.rest).length
  seen : ∀ symbol, state.seen = some symbol → growth.next = symbol

/-- A rule has read nothing at a token where it need not, or it has read something; either way the looks at the next token are within what it costs. -/
def Paid (growth after : Growth) (rule : Rule) (height carried : Nat) : Prop :=
  (symbols after.rest = symbols growth.rest ∧ rule.IdleAt after.next.kind
      ∧ after.looks ≤ 6 * height + carried + rule.idleCost)
    ∨ ((symbols after.rest).length < (symbols growth.rest).length
      ∧ after.looks ≤ 6 * height + rule.busyCost)

/-- A look that is within a limit succeeds as it does without one. -/
theorem look_within {growth after : Growth} {symbol : Symbol} {bound : Nat}
    (looked : growth.look none = .ok (symbol, after)) (few : growth.looks < bound) :
    growth.look (some bound) = .ok (symbol, after) ∧ after.looks = growth.looks + 1 := by
  obtain ⟨token, rest, found, -, rfl, rfl⟩ := exists_of_look looked
  rw [look_eq found, if_neg (by simpa using few)]
  exact ⟨rfl, rfl⟩

/-- No look is spent yet at the token after one that is read. -/
theorem looks_bump {growth after : Growth} (bumped : growth.bump = .ok after) :
    after.looks = 0 := by
  obtain ⟨token, rest, -, -, rfl⟩ := exists_of_bump bumped
  rfl

namespace Affords

variable {origin growth after : Growth} {height carried reach bound : Nat} {state : Spending}

/-- Nothing is spent when a rule begins. -/
theorem initial (looks : growth.looks ≤ 6 * height + carried) :
    growth.Affords growth height carried ⟨false, 0, none⟩ :=
  ⟨looks, fun _ => rfl, nofun, nofun⟩

/-- What was seen is what comes next. -/
theorem fits (affords : origin.Affords growth height carried state) :
    growth.next.Fits state.seen :=
  affords.seen

/-- A look that may be spent is spent. -/
theorem look (affords : origin.Affords growth height carried state) {symbol : Symbol}
    (looked : growth.look none = .ok (symbol, after))
    (few : state.spent + 1 ≤ lookCap reach state.read) (within : carried + reach ≤ allowance)
    (enough : 6 * height + allowance ≤ bound) :
    growth.look (some bound) = .ok (symbol, after) ∧ symbol.Fits state.seen
      ∧ origin.Affords after height carried ⟨state.read, state.spent + 1, some symbol⟩ := by
  have looks := affords.looks
  have total := Spending.total_le few within
  have few : growth.looks < bound := by omega
  -- Every look counts once, and what was seen by it is still there.
  obtain ⟨limited, once⟩ := look_within looked few
  obtain ⟨rfl, next, -⟩ := look_ok looked
  have same := symbols_look looked
  refine ⟨limited, affords.fits, ?_, ?_, ?_, ?_⟩
  · rw [once, Spending.total]
    rw [Spending.total] at looks
    show _ ≤ 6 * height + ((if state.read then 0 else carried) + (state.spent + 1))
    omega
  · exact fun idle => same.trans (affords.idle idle)
  · exact fun busy => same ▸ affords.busy busy
  · rintro _ ⟨⟩
    exact next

/-- There are no more symbols than at the origin. -/
theorem noLonger (affords : origin.Affords growth height carried state) :
    (symbols growth.rest).length ≤ (symbols origin.rest).length := by
  cases read : state.read with
  | false => exact (congrArg List.length (affords.idle read)).le
  | true => exact (affords.busy read).le

/-- Reading a token makes up for all that was spent. -/
theorem bump (affords : origin.Affords growth height carried state)
    (bumped : growth.bump = .ok after) : origin.Affords after height carried ⟨true, 0, none⟩ := by
  have fewer := affords.noLonger
  rw [symbols_bump bumped, List.length_cons] at fewer
  exact ⟨by rw [looks_bump bumped]; exact Nat.zero_le _, nofun, fun _ => fewer, nofun⟩

/-- What is spent may be counted anew as long as it is no less and the same tokens are left. -/
theorem recount (affords : origin.Affords growth height carried state) {other : Growth}
    {higher spent : Nat} (rest : other.rest = growth.rest) (looks : other.looks = growth.looks)
    (enough : 6 * height + state.spent ≤ 6 * higher + spent) :
    origin.Affords other higher carried ⟨state.read, spent, state.seen⟩ := by
  -- Neither the tokens nor the looks at the next one have changed.
  have within := affords.looks
  refine ⟨?_, fun idle => rest ▸ affords.idle idle, fun busy => rest ▸ affords.busy busy, ?_⟩
  · rw [Spending.total] at within
    rw [looks]
    show _ ≤ 6 * higher + ((if state.read then 0 else carried) + spent)
    omega
  · intro symbol seen
    rw [next, rest]
    exact affords.seen symbol seen

/-- Inside of a node there is one level less. -/
theorem enter {lower : Nat} (affords : origin.Affords growth (lower + 1) carried state) :
    origin.Affords growth.enter lower carried
      ⟨state.read, state.spent + 6, state.seen⟩ :=
  affords.recount rfl rfl (by omega)

/-- A rule that was called is paid for by the one that called it. -/
theorem call (affords : origin.Affords growth height carried state) {rule : Rule}
    {post : Spending → Prop} (obeys : (thrift reach).call rule state post)
    (paid : growth.Paid after rule height (state.total carried)) :
    ∃ known, post known ∧ origin.Affords after height carried known := by
  obtain ⟨-, idle, busy⟩ := obeys
  -- Either the same symbols are left, or something was read and only that counts.
  rcases paid with ⟨same, may, few⟩ | ⟨fewer, few⟩
  · have next : after.next = growth.next := by rw [next_eq_head, same, ← next_eq_head]
    refine ⟨_, idle after.next (next ▸ affords.fits) may, ?_, ?_, ?_, ?_⟩
    · rw [Spending.total] at few
      show _ ≤ 6 * height + ((if state.read then 0 else carried) + (state.spent + rule.idleCost))
      omega
    · exact fun still => same.trans (affords.idle still)
    · exact fun read => same ▸ affords.busy read
    · rintro _ ⟨⟩
      rfl
  · refine ⟨_, busy, ?_, nofun, fun _ => Nat.lt_of_lt_of_le fewer affords.noLonger, nofun⟩
    simpa [Spending.total] using few

/-- A rule that pays for what it spends is paid for. -/
theorem paid {rule : Rule} (affords : growth.Affords after height carried state)
    (pays : rule.Pays state) : growth.Paid after rule height carried := by
  have looks := affords.looks
  -- The rule began with nothing spent but what was carried into it.
  cases read : state.read with
  | false =>
    obtain ⟨few, idle⟩ := pays.1 read
    refine .inl ⟨affords.idle read, idle _ affords.fits, ?_⟩
    simp only [Spending.total, read, Bool.false_eq_true, if_false] at looks
    omega
  | true =>
    have few := pays.2 read
    refine .inr ⟨affords.busy read, ?_⟩
    simp only [Spending.total, read, if_true] at looks
    omega

end Affords

end Growth

open Growth in
/-- A thrifty parser grows the same within a limit that is high enough for what it grows without one, if the rules it calls do. -/
theorem Parser.grow_affords {depth bound : Nat}
    (calls : ∀ (rule : Rule) (growth after : Growth) (height carried : Nat),
      rule.grow none depth growth = .ok after → after.Low height →
      growth.looks ≤ 6 * height + carried → carried + rule.reach ≤ allowance →
      6 * height + allowance ≤ bound →
      rule.grow (some bound) depth growth = .ok after ∧ growth.Paid after rule height carried)
    {α : Type} {parser : Parser α} {reach : Nat} {state : Spending} {post : α → Spending → Prop}
    (obeys : parser.Obeys (thrift reach) state post) {origin growth after : Growth} {value : α}
    {height carried : Nat} (affords : origin.Affords growth height carried state)
    (within : carried + reach ≤ allowance) (enough : 6 * height + allowance ≤ bound)
    (grown : parser.grow (fun rule => rule.grow none depth) none growth = .ok (value, after))
    (low : after.Low height) :
    parser.grow (fun rule => rule.grow (some bound) depth) (some bound) growth = .ok (value, after)
      ∧ ∃ known, post value known ∧ origin.Affords after height carried known := by
  have lowers {β : Type} {inner : Parser β} {growth after : Growth} {value : β} {height : Nat} :
      inner.grow (fun rule => rule.grow none depth) none growth = .ok (value, after) →
        after.Low height → growth.Low height :=
    low_of_grow fun _ _ _ _ => Rule.low_of_grow
  -- The induction follows the program; a node is six looks worth, which its height makes up for.
  induction parser generalizing state growth after height with
  | done result =>
    cases grown
    exact ⟨rfl, state, obeys, affords⟩
  | andThen first next ihFirst ihNext =>
    obtain ⟨found, between, left, right⟩ := grow_bind_ok.mp grown
    obtain ⟨leftToo, known, holds, further⟩ :=
      ihFirst obeys affords enough left (lowers right low)
    obtain ⟨rightToo, rest⟩ := ihNext found holds further enough right low
    exact ⟨grow_bind_ok.mpr ⟨found, between, leftToo, rightToo⟩, rest⟩
  | look =>
    obtain ⟨limited, fits, further⟩ := affords.look grown obeys.1 within enough
    exact ⟨limited, _, obeys.2 value fits, further⟩
  | bump =>
    have bumped := grow_bump_ok.mp grown
    exact ⟨grow_bump_ok.mpr bumped, _, obeys, affords.bump bumped⟩
  | report mistake =>
    cases grown
    exact ⟨rfl, state, obeys, affords.recount rfl rfl le_rfl⟩
  | node body ih =>
    obtain ⟨inner, left, rfl⟩ := grow_node_ok.mp grown
    obtain ⟨lower, rfl, lowInner⟩ := low.of_leave.2.of_close
    have begun := affords.enter
    obtain ⟨limited, known, holds, further⟩ := ih obeys begun (by omega) left lowInner
    exact ⟨grow_node_ok.mpr ⟨inner, limited, rfl⟩, _, holds, further.recount rfl rfl (by omega)⟩
  | frame body ih =>
    obtain ⟨inner, left, rfl⟩ := grow_frame_ok.mp grown
    have begun : origin.Affords growth.enter height carried _ := affords.recount rfl rfl le_rfl
    obtain ⟨limited, known, holds, further⟩ := ih obeys begun enough left low.of_leave.2
    exact ⟨grow_frame_ok.mpr ⟨inner, limited, rfl⟩, known, holds, further.recount rfl rfl le_rfl⟩
  | wrap body ih =>
    obtain ⟨operand, inner, left, rfl⟩ := grow_wrap_ok.mp grown
    obtain ⟨lower, rfl, lowInner⟩ := low.of_close
    have begun := affords.enter
    obtain ⟨limited, known, holds, further⟩ := ih obeys begun (by omega) left lowInner.of_leave.2
    exact ⟨grow_wrap_ok.mpr ⟨operand, inner, limited, rfl⟩, _, holds,
      further.recount rfl rfl (by omega)⟩
  | progress body ih =>
    obtain ⟨left, rfl⟩ := grow_progress_ok.mp grown
    obtain ⟨limited, known, ⟨idle, busy⟩, further⟩ := ih obeys affords enough left low
    refine ⟨grow_progress_ok.mpr ⟨limited, rfl⟩, known, ?_, further⟩
    have reads : growth.Reads after := grow_reads (fun _ _ _ => Rule.grow_reads) left
    cases read : state.read with
    | true => exact busy read _
    | false =>
      -- Nothing was read before the body, so what was read since the rule began was read in it.
      have progressed : after.hasProgressed growth.rest = known.read := by
        rw [hasProgressed_eq reads, affords.idle read]
        cases readToo : known.read with
        | true => simpa using further.busy readToo
        | false => simp [further.idle readToo]
      rw [progressed]
      exact idle read
  | call rule =>
    have called := grow_call_ok.mp grown
    obtain ⟨limited, paid⟩ := calls rule growth after height (state.total carried) called low
      affords.looks (Spending.total_le obeys.1 within) enough
    exact ⟨grow_call_ok.mpr limited, affords.call obeys paid⟩

open Growth in
/-- A rule grows the same within a limit that is high enough for what it grows without one, and is paid for. -/
theorem Rule.grow_affords {depth bound : Nat} {rule : Rule} {growth after : Growth}
    {height carried : Nat} (grown : rule.grow none depth growth = .ok after)
    (low : after.Low height) (looks : growth.looks ≤ 6 * height + carried)
    (within : carried + rule.reach ≤ allowance) (enough : 6 * height + allowance ≤ bound) :
    rule.grow (some bound) depth growth = .ok after ∧ growth.Paid after rule height carried := by
  -- Calls nest less deeply than the rule that makes them.
  induction depth generalizing rule growth after height carried with
  | zero => cases grown
  | succ depth ih =>
    obtain ⟨limited, known, pays, affords⟩ := Parser.grow_affords
      (fun _ _ _ _ _ called low looks within enough => ih called low looks within enough)
      (Grammar.thrifty rule) (.initial looks) within enough (Rule.grow_ok.mp grown) low
    exact ⟨Rule.grow_ok.mpr limited, affords.paid pays⟩

/-- A computation that fails does so for another reason than being stuck. -/
def Unstuck {α : Type} (result : Except Failure α) : Prop :=
  ∀ kind, result ≠ .error (.stuck kind)

namespace Unstuck

variable {α β : Type} {result : Except Failure α}

/-- A computation is not stuck if it is not up to some point and not from there on. -/
theorem bind {f : α → Except Failure β} (unstuck : Unstuck result)
    (further : ∀ value, Unstuck (f value)) : Unstuck (result.bind f) := by
  cases result with
  | ok value => exact further value
  | error failure => exact fun kind same => unstuck kind (by cases same; rfl)

/-- What is made of a result does not matter. -/
theorem map {f : α → β} (unstuck : Unstuck result) : Unstuck (result.map f) := by
  cases result with
  | ok value => exact nofun
  | error failure => exact fun kind same => unstuck kind (by cases same; rfl)

end Unstuck

/-- Without a limit a parser is not stuck, if the rules it calls are not. -/
theorem Parser.unstuck_grow {call : Rule → Growth → Except Failure Growth}
    (called : ∀ rule growth, Unstuck (call rule growth)) {α : Type} (parser : Parser α)
    (growth : Growth) : Unstuck (parser.grow call none growth) := by
  -- The induction follows the program; only a look could be stuck, and it has no limit.
  induction parser generalizing growth with
  | done value | report mistake =>
    intro kind
    simp [grow]
  | andThen first next ihFirst ihNext =>
    rw [grow_andThen]
    exact (ihFirst growth).bind fun result => ihNext result.1 result.2
  | look =>
    intro kind
    simp only [grow, Growth.look]
    split <;> simp
  | bump =>
    refine Unstuck.map fun kind => ?_
    simp only [Growth.bump]
    split
    · simp
    · split <;> simp
  | node body ih =>
    rw [grow_node]
    exact (ih growth.enter).map
  | frame body ih =>
    rw [grow_frame]
    exact (ih growth.enter).map
  | wrap body ih =>
    by_cases operand : growth.opening = .node
    · rw [grow_wrap _ _ _ _ operand]
      exact (ih growth.enter).map
    · intro kind
      simp [grow, operand]
  | progress body ih =>
    rw [grow_progress]
    exact (ih growth).map
  | call rule => exact (called rule growth).map

/-- Without a limit a rule is not stuck. -/
theorem Rule.unstuck_grow (rule : Rule) (depth : Nat) (growth : Growth) :
    Unstuck (rule.grow none depth growth) := by
  induction depth generalizing rule growth with
  | zero => exact nofun
  | succ depth ih => exact (Parser.unstuck_grow ih rule.body growth).map

end Dxl
