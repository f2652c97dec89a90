import Dxl.Proofs.Grammar.Contract

/-! Inversion: what the steps of a parser have done when it has come to an end. -/

namespace Dxl

namespace Growth

variable {growth after : Growth} {limit : Option Nat}

/-- Trees are added to the frame, each of which has a property. -/
def Adds (growth after : Growth) (property : Tree → Prop) : Prop :=
  ∃ added, after.siblings = added ++ growth.siblings ∧ ∀ tree ∈ added, property tree

/-- What is added in two steps has the property of what is added in each of them. -/
theorem Adds.trans {between : Growth} {property : Tree → Prop} (first : growth.Adds between property)
    (second : between.Adds after property) : growth.Adds after property := by
  obtain ⟨added, siblings, holds⟩ := first
  obtain ⟨more, further, holdsMore⟩ := second
  refine ⟨more ++ added, by rw [further, siblings, List.append_assoc], fun tree member => ?_⟩
  rcases List.mem_append.mp member with fresh | earlier
  · exact holdsMore tree fresh
  · exact holds tree earlier

/-- Only trivia is added before the next token. -/
theorem adds_eatTrivia (growth : Growth) :
    growth.Adds growth.eatTrivia fun tree => tree.isTrivia = true := by
  refine ⟨_, siblings_foldl_addLeaf _ growth, fun tree member => ?_⟩
  -- Each added leaf comes from a token that was passed over as trivia.
  obtain ⟨token, taken, rfl⟩ := List.mem_map.mp (List.mem_reverse.mp member)
  exact List.all_eq_true.mp List.all_takeWhile token taken

/-- Trivia does not change what comes next. -/
theorem next_eatTrivia (growth : Growth) : growth.eatTrivia.next = growth.next := by
  rw [next, rest_eatTrivia, List.dropWhile_idempotent]
  rfl

/-- The next token after trivia is what the grammar sees next. -/
theorem next_eq {token : Token} {rest : List Token} (found : growth.eatTrivia.rest = token :: rest) :
    growth.next = token.symbol ∧ token.kind.isTrivia = false := by
  rw [rest_eatTrivia] at found
  have proper := List.head_dropWhile_not (fun token : Token => token.kind.isTrivia)
    (show growth.rest.dropWhile _ ≠ [] by simp [found])
  exact ⟨by simp [next, found], by simpa [found] using proper⟩

/-- A look sees what comes next, and reads nothing but trivia. -/
theorem look_ok {symbol : Symbol} (looked : growth.look limit = .ok (symbol, after)) :
    symbol = growth.next ∧ after.next = growth.next
      ∧ growth.Adds after fun tree => tree.isTrivia = true := by
  obtain ⟨token, rest, found, -, rfl, rfl⟩ := exists_of_look looked
  exact ⟨(next_eq found).1.symm, growth.next_eatTrivia, growth.adds_eatTrivia⟩

/-- The token that is read is what comes next, and becomes a leaf after any trivia. -/
theorem bump_ok (bumped : growth.bump = .ok after) :
    ∃ (token : Token) (trivia : List Tree), token.symbol = growth.next ∧ token.kind.isTrivia = false
      ∧ after.siblings = token.leaf :: (trivia ++ growth.siblings)
      ∧ ∀ tree ∈ trivia, tree.isTrivia = true := by
  obtain ⟨token, rest, found, -, rfl⟩ := exists_of_bump bumped
  obtain ⟨trivia, siblings, passed⟩ := growth.adds_eatTrivia
  obtain ⟨seen, proper⟩ := next_eq found
  exact ⟨token, trivia, seen.symm, proper, by simp [addLeaf, siblings], passed⟩

end Growth

namespace Parser

variable {call : Rule → Growth → Except Failure Growth} {limit : Option Nat}
  {growth after : Growth} {α β : Type}

/-- Of two parsers both have come to an end. -/
theorem grow_bind_ok {first : Parser α} {next : α → Parser β} {value : β} :
    (first >>= next).grow call limit growth = .ok (value, after)
      ↔ ∃ found between, first.grow call limit growth = .ok (found, between)
        ∧ (next found).grow call limit between = .ok (value, after) := by
  rw [show first >>= next = first.andThen next from rfl, grow_andThen]
  cases first.grow call limit growth with
  | error failure => simp [Except.bind]
  | ok result =>
    obtain ⟨found, between⟩ := result
    simp [Except.bind]

/-- A parser that does nothing changes nothing. -/
theorem grow_pure_ok {value result : α} :
    (pure value : Parser α).grow call limit growth = .ok (result, after)
      ↔ value = result ∧ growth = after := by
  rw [show (pure value : Parser α) = .done value from rfl, grow]
  simp

/-- A test of the next token is a look at it. -/
theorem grow_test_ok {test : Symbol → α} {value : α}
    (grown : (look >>= fun symbol => pure (test symbol)).grow call limit growth = .ok (value, after)) :
    ∃ symbol, growth.look limit = .ok (symbol, after) ∧ test symbol = value := by
  obtain ⟨symbol, looked, seen, returned⟩ := grow_bind_ok.mp grown
  obtain ⟨same, rfl⟩ := grow_pure_ok.mp returned
  exact ⟨symbol, seen, same⟩

/-- A call has come to an end as its rule has. -/
theorem grow_call_ok {rule : Rule} {value : Unit} :
    (Parser.call rule).grow call limit growth = .ok (value, after) ↔ call rule growth = .ok after := by
  cases found : call rule growth <;> simp [grow, found, Except.map]

/-- Reading a token has come to an end as it does on what has grown. -/
theorem grow_bump_ok {value : Unit} :
    bump.grow call limit growth = .ok (value, after) ↔ growth.bump = .ok after := by
  cases found : growth.bump <;> simp [grow, found, Except.map]

/-- What a body has left is changed in the end just if the body has come to an end. -/
theorem map_ok {result : Except Failure (α × Growth)} (change : α → Growth → Growth) {value : α} :
    (result.map fun ended => (ended.1, change ended.1 ended.2)) = .ok (value, after)
      ↔ ∃ inner, result = .ok (value, inner) ∧ change value inner = after := by
  cases result with
  | error failure => simp [Except.map]
  | ok ended =>
    obtain ⟨given, inner⟩ := ended
    simp only [Except.map, Except.ok.injEq, Prod.mk.injEq]
    constructor
    · rintro ⟨rfl, rfl⟩
      exact ⟨inner, ⟨rfl, rfl⟩, rfl⟩
    · rintro ⟨_, ⟨rfl, rfl⟩, rfl⟩
      exact ⟨rfl, rfl⟩

/-- A node is closed around what its body has left. -/
theorem grow_node_ok {body : Parser NodeKind} {kind : NodeKind} :
    (node body).grow call limit growth = .ok (kind, after)
      ↔ ∃ inner, body.grow call limit growth.enter = .ok (kind, inner)
        ∧ growth.leave (inner.close kind) = after := by
  rw [grow_node]
  exact map_ok fun kind inner => growth.leave (inner.close kind)

/-- A frame is left with what its body has left. -/
theorem grow_frame_ok {body : Parser α} {value : α} :
    (frame body).grow call limit growth = .ok (value, after)
      ↔ ∃ inner, body.grow call limit growth.enter = .ok (value, inner)
        ∧ growth.leave inner = after := by
  rw [grow_frame]
  exact map_ok fun _ inner => growth.leave inner

/-- A node is closed around the operand of the frame and what its body has left. -/
theorem grow_wrap_ok {body : Parser NodeKind} {kind : NodeKind} :
    (wrap body).grow call limit growth = .ok (kind, after)
      ↔ growth.opening = .node ∧ ∃ inner, body.grow call limit growth.enter = .ok (kind, inner)
        ∧ (growth.leave inner).close kind = after := by
  by_cases operand : growth.opening = .node
  · rw [grow_wrap _ _ _ _ operand, and_iff_right operand]
    exact map_ok fun kind inner => (growth.leave inner).close kind
  · -- Without an operand there is nothing to wrap.
    simp [grow, operand]

/-- A node of one kind is closed around what its body has left. -/
theorem grow_nodeOf_ok {kind : NodeKind} {body : Parser Unit} {value : Unit}
    (grown : (nodeOf kind body).grow call limit growth = .ok (value, after)) :
    ∃ inner, body.grow call limit growth.enter = .ok ((), inner)
      ∧ growth.leave (inner.close kind) = after := by
  obtain ⟨_, between, made, rest⟩ := grow_bind_ok.mp grown
  obtain ⟨-, rfl⟩ := grow_pure_ok.mp rest
  obtain ⟨ended, inside, rfl⟩ := grow_node_ok.mp made
  obtain ⟨_, last, body, returned⟩ := grow_bind_ok.mp inside
  obtain ⟨rfl, rfl⟩ := grow_pure_ok.mp returned
  exact ⟨last, body, rfl⟩

/-- A node of one kind is closed around the operand of the frame and what its body has left. -/
theorem grow_wrapIn_ok {kind : NodeKind} {body : Parser Unit} {value : Unit}
    (grown : (wrapIn kind body).grow call limit growth = .ok (value, after)) :
    ∃ inner, body.grow call limit growth.enter = .ok ((), inner)
      ∧ (growth.leave inner).close kind = after := by
  obtain ⟨_, between, made, rest⟩ := grow_bind_ok.mp grown
  obtain ⟨-, rfl⟩ := grow_pure_ok.mp rest
  obtain ⟨-, ended, inside, rfl⟩ := grow_wrap_ok.mp made
  obtain ⟨_, last, body, returned⟩ := grow_bind_ok.mp inside
  obtain ⟨rfl, rfl⟩ := grow_pure_ok.mp returned
  exact ⟨last, body, rfl⟩

/-- A body that is tested for progress has come to an end as it does without the test. -/
theorem grow_progress_ok {body : Parser Unit} {value : Bool} :
    (progress body).grow call limit growth = .ok (value, after)
      ↔ body.grow call limit growth = .ok ((), after) ∧ after.hasProgressed growth.rest = value := by
  rw [grow_progress]
  cases body.grow call limit growth with
  | error failure => simp [Except.map]
  | ok result =>
    simp only [Except.map, Except.ok.injEq, Prod.ext_iff, true_and]
    constructor
    · rintro ⟨rfl, rfl⟩
      exact ⟨rfl, rfl⟩
    · rintro ⟨rfl, rfl⟩
      exact ⟨rfl, rfl⟩

end Parser

/-- A rule has come to an end as its body has, in which calls nest less deeply. -/
theorem Rule.grow_ok {limit : Option Nat} {rule : Rule} {depth : Nat} {growth after : Growth} :
    rule.grow limit (depth + 1) growth = .ok after
      ↔ rule.body.grow (fun inner => inner.grow limit depth) limit growth = .ok ((), after) := by
  rw [grow]
  cases rule.body.grow (fun inner => inner.grow limit depth) limit growth <;>
    simp [Except.map, Prod.ext_iff]

/-- A relation between what has grown before and after that every step of a parser keeps to. -/
structure Growth.Stepwise (relation : Growth → Growth → Prop) : Prop where
  stay : ∀ growth, relation growth growth
  further : ∀ {growth between after}, relation growth between → relation between after →
    relation growth after
  look : ∀ {limit growth after symbol}, growth.look limit = .ok (symbol, after) →
    relation growth after
  bump : ∀ {growth after}, growth.bump = .ok after → relation growth after
  report : ∀ growth mistake, relation growth (growth.addMistake mistake)
  node : ∀ {growth inner} kind, relation growth.enter inner →
    relation growth (growth.leave (inner.close kind))
  frame : ∀ {growth inner}, relation growth.enter inner → relation growth (growth.leave inner)
  wrap : ∀ {growth inner} kind, growth.opening = .node → relation growth.enter inner →
    relation growth ((growth.leave inner).close kind)

namespace Growth.Stepwise

variable {relation : Growth → Growth → Prop}

/-- What every step keeps to holds of a whole run, if it holds of the rules that are called. -/
theorem grow (stepwise : Stepwise relation) {call : Rule → Growth → Except Failure Growth}
    (calls : ∀ {rule growth after}, call rule growth = .ok after → relation growth after)
    {limit : Option Nat} {α : Type} {parser : Parser α} {growth after : Growth} {value : α}
    (grown : parser.grow call limit growth = .ok (value, after)) : relation growth after := by
  -- The induction follows the program; inner frames are runs of their own.
  induction parser generalizing growth after with
  | done result =>
    cases grown
    exact stepwise.stay growth
  | andThen first next ihFirst ihNext =>
    obtain ⟨found, between, left, right⟩ := Parser.grow_bind_ok.mp grown
    exact stepwise.further (ihFirst left) (ihNext found right)
  | look => exact stepwise.look grown
  | bump => exact stepwise.bump (Parser.grow_bump_ok.mp grown)
  | report mistake =>
    cases grown
    exact stepwise.report growth mistake
  | node body ih =>
    obtain ⟨inner, left, rfl⟩ := Parser.grow_node_ok.mp grown
    exact stepwise.node value (ih left)
  | frame body ih =>
    obtain ⟨inner, left, rfl⟩ := Parser.grow_frame_ok.mp grown
    exact stepwise.frame (ih left)
  | wrap body ih =>
    obtain ⟨operand, inner, left, rfl⟩ := Parser.grow_wrap_ok.mp grown
    exact stepwise.wrap value operand (ih left)
  | progress body ih => exact ih (Parser.grow_progress_ok.mp grown).1
  | call rule => exact calls (Parser.grow_call_ok.mp grown)

/-- What every step keeps to holds of every rule. -/
theorem grow_rule (stepwise : Stepwise relation) {limit : Option Nat} {rule : Rule} {depth : Nat}
    {growth after : Growth} (grown : rule.grow limit depth growth = .ok after) :
    relation growth after := by
  -- A rule runs its body, whose calls nest less deeply.
  induction depth generalizing rule growth after with
  | zero => cases grown
  | succ depth ih => exact stepwise.grow (fun called => ih called) (Rule.grow_ok.mp grown)

end Growth.Stepwise

/-- A root is made of all that has grown in the end, and its report is that of what has grown. -/
theorem Growth.finish_ok {growth : Growth} {parsed : Parsed} (finished : growth.finish = .ok parsed) :
    parsed = ⟨.node (.node .root) growth.eatTrivia.siblings.reverse, growth.eatTrivia.report⟩ := by
  unfold Growth.finish at finished
  split at finished
  · cases finished
  · split at finished
    · cases finished
      rfl
    · cases finished

/-- A root is made of all that has grown in the end. -/
theorem growWithin_ok {limit : Option Nat} {tokens : List Token} {parsed : Parsed}
    (grown : growWithin limit tokens = .ok parsed) :
    ∃ growth, Rule.program.grow limit (Rule.depthFor tokens.length) (.initial tokens) = .ok growth
      ∧ growth.finish = .ok parsed
      ∧ parsed.tree = .node (.node .root) growth.eatTrivia.siblings.reverse := by
  rw [growWithin_eq] at grown
  -- Without the trees of the program there is no root.
  cases program : Rule.program.grow limit (Rule.depthFor tokens.length) (.initial tokens) with
  | error failure =>
    rw [program] at grown
    cases grown
  | ok growth =>
    rw [program] at grown
    have finished : growth.finish = .ok parsed := grown
    exact ⟨growth, rfl, finished, congrArg Parsed.tree (Growth.finish_ok finished)⟩

end Dxl
