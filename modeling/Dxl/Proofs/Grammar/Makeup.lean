import Dxl.Proofs.Form.Formation
import Dxl.Proofs.Grammar.Holding
import Dxl.Proofs.Grammar.Spreading
import Dxl.Proofs.Grammar.Trimming

/-! Makeup: nodes that a parser grows hold what is told of them, if its program can be followed step by step. -/

namespace Dxl

/-- Trivia does not start anew. -/
theorem TokenKind.startsAnew_of_isTrivia {kind : TokenKind} (trivia : kind.isTrivia = true) :
    kind.startsAnew = false := by
  unfold isTrivia at trivia
  split at trivia <;> first | rfl | cases trivia

/-- The tokens that are passed over from a given offset on, as leaves: one that is misplaced, or all up to one that starts anew. -/
inductive PassedOver (tokens : List Token) (start : Nat) : List (Kind × String) → Prop
  | single {token : Token} {rest : List Token} : token :: rest <:+ tokens → token.start = start →
    token.kind.isMisplaced = true → PassedOver tokens start [token.entry]
  | several {token : Token} {rest : List Token} : token :: rest <:+ tokens → token.start = start →
    PassedOver tokens start
      (((token :: rest).takeWhile fun token => !token.kind.startsAnew).map Token.entry)

/-- What a node holds that starts at a given offset, as far as its kind tells of it. -/
structure MadeUp (tokens : List Token) (start : Nat) (kind : NodeKind) (children : List Tree) :
    Prop where
  operand : kind.isSurrounding = true →
    ∃ operand rest, children = operand :: rest ∧ operand.isLeaf = false
  type : kind = .typeRef →
    ∃ token : Token, children.flatMap Tree.leaves = [token.entry] ∧ token.namesType = true
  skipped : kind = .skipped → PassedOver tokens start (children.flatMap Tree.leaves)

/-- A node at its place holds what its kind tells. -/
def MadeUpAt (tokens : List Token) : Tree × Nat → Prop
  | (.node (.node kind) children, start) => MadeUp tokens start kind children
  | _ => True

/-- Nothing is told of leaves. -/
theorem madeUpAt_leaf (tokens : List Token) : Growth.OfLeaves (MadeUpAt tokens) :=
  fun _ _ _ => trivial

namespace Content

variable {content : Content} {held read : List Token} {symbol : Symbol}

/-- The tokens read since a node was opened are as is told of them. -/
def Describes (read : List Token) : Content → Prop
  | .nothing => read = []
  | .token symbol => ∃ token : Token, read = [token] ∧ token.symbol = symbol
  | .passed => ∀ token ∈ read, token.kind.startsAnew = false
  | .anything => True

/-- Where it is told so, no token starts anew. -/
theorem Describes.passes (describes : content.Describes read) (passed : content.isPassed = true) :
    ∀ token ∈ read, token.kind.startsAnew = false := by
  cases content with
  | nothing => simp [show read = [] from describes]
  | token symbol =>
    obtain ⟨token, rfl, rfl⟩ := describes
    simpa [isPassed, Token.symbol] using passed
  | passed => exact describes
  | anything => cases passed

/-- More tokens are read of which none starts anew, if that is said. -/
theorem Describes.further (describes : content.Describes held) {passes : Bool}
    (pass : passes = true → ∀ token ∈ read, token.kind.startsAnew = false) :
    (content.further passes).Describes (held ++ read) := by
  unfold Content.further
  -- No token starts anew only if that is said of both parts.
  split
  · rename_i both
    simp only [Bool.and_eq_true] at both
    exact List.forall_mem_append.mpr ⟨describes.passes both.1, pass both.2⟩
  · trivial

/-- One more token is read that was seen. -/
theorem Describes.reads {token : Token} (describes : content.Describes held)
    (same : token.symbol = symbol) : (content.read symbol).Describes (held ++ [token]) := by
  have pass : (!symbol.kind.startsAnew) = true →
      ∀ other ∈ [token], other.kind.startsAnew = false := by
    simp [← same, Token.symbol]
  cases content with
  -- A token that is read first is told exactly.
  | nothing => exact ⟨token, by rw [show held = [] from describes]; rfl, same⟩
  | _ => exact describes.further pass

end Content

namespace Growth

variable {tokens : List Token} {growth between after inner : Growth} {base : Nat}
  {content middle ending : Content} {kind : NodeKind} {limit : Option Nat}

/-- The leaves of an inner frame come after those of the outer one. -/
theorem leaves_leave (growth inner : Growth) :
    (growth.leave inner).leaves = growth.leaves ++ inner.leaves := by
  simp [leaves, leave]

/-- A closed node has the leaves of its frame. -/
theorem leaves_close (inner : Growth) (kind : NodeKind) : (inner.close kind).leaves = inner.leaves := by
  simp [leaves, close]

/-- The leaves of a frame are those of the trees that it is closed around. -/
theorem leaves_eq (growth : Growth) : growth.siblings.reverse.flatMap Tree.leaves = growth.leaves :=
  rfl

/-- All nodes in the frame that starts at the base hold what is told of them, and the frame is as it says that it begins. -/
structure Sound (tokens : List Token) (base : Nat) (growth : Growth) : Prop where
  along : growth.Along tokens
  spread : growth.Spread (MadeUpAt tokens) base
  headed : growth.Headed

namespace Sound

/-- A new frame is sound. -/
theorem enter (sound : growth.Sound tokens base) : growth.enter.Sound tokens growth.offset :=
  ⟨⟨sound.along.rest, sound.along.adjoining⟩, .enter growth, .enter growth⟩

/-- A look leaves the frame sound. -/
theorem look {symbol : Symbol} (sound : growth.Sound tokens base)
    (looked : growth.look limit = .ok (symbol, after)) : after.Sound tokens base :=
  ⟨sound.along.look looked, sound.spread.look (madeUpAt_leaf tokens) looked,
    sound.headed.look looked⟩

/-- Reading a token leaves the frame sound. -/
theorem bump (sound : growth.Sound tokens base) (bumped : growth.bump = .ok after) :
    after.Sound tokens base :=
  ⟨sound.along.bump bumped, sound.spread.bump (madeUpAt_leaf tokens) bumped,
    sound.headed.bump bumped⟩

/-- A mistake leaves the frame sound. -/
theorem addMistake (sound : growth.Sound tokens base) (mistake : Mistake) :
    (growth.addMistake mistake).Sound tokens base :=
  ⟨⟨sound.along.rest, sound.along.adjoining⟩, sound.spread.congr rfl rfl,
    sound.headed.addMistake mistake⟩

/-- What an inner frame holds in the end is held by the outer one. -/
theorem leave (sound : growth.Sound tokens base) (within : inner.Sound tokens growth.offset) :
    (growth.leave inner).Sound tokens base :=
  ⟨⟨within.along.rest, within.along.adjoining⟩, sound.spread.leave within.spread,
    sound.headed.leave within.headed⟩

/-- A frame is closed around what is told of the node. -/
theorem close (within : inner.Sound tokens base)
    (madeUp : MadeUp tokens base kind inner.siblings.reverse) :
    (inner.close kind).Sound tokens base :=
  ⟨⟨within.along.rest, within.along.adjoining⟩, within.spread.close madeUp, .close inner kind⟩

end Sound

/-- Tokens are read that go with what is told of them, and the frame stays sound. -/
structure Brings (tokens : List Token) (content : Content) (growth : Growth) (ending : Content)
    (after : Growth) : Prop where
  read : ∃ read, growth.rest = read ++ after.rest
    ∧ after.leaves = growth.leaves ++ read.map Token.entry
    ∧ ∀ held, content.Describes held → ending.Describes (held ++ read)
  sound : ∀ base, growth.Sound tokens base → after.Sound tokens base

namespace Brings

/-- What stays the same but for looks, mistakes and the beginning of the frame brings nothing. -/
theorem of_eq (rest : after.rest = growth.rest) (siblings : after.siblings = growth.siblings)
    (sound : ∀ base, growth.Sound tokens base → after.Sound tokens base) :
    growth.Brings tokens content content after := by
  -- No token is read, so what is told of the tokens stays the same.
  refine ⟨⟨[], by rw [rest]; rfl, ?_, fun held describes => ?_⟩, sound⟩
  · rw [leaves, siblings, List.map_nil, List.append_nil, leaves]
  · rwa [List.append_nil]

/-- What is read later comes after what is read first. -/
theorem trans (first : growth.Brings tokens content middle between)
    (second : between.Brings tokens middle ending after) :
    growth.Brings tokens content ending after := by
  obtain ⟨read, split, leaves, tells⟩ := first.read
  obtain ⟨more, splitMore, leavesMore, tellsMore⟩ := second.read
  refine ⟨⟨read ++ more, ?_, ?_, fun held describes => ?_⟩,
    fun base sound => second.sound base (first.sound base sound)⟩
  · rw [split, splitMore, List.append_assoc]
  · rw [leavesMore, leaves, List.map_append, List.append_assoc]
  · -- What is told is about all tokens since the node was opened.
    rw [← List.append_assoc]
    exact tellsMore _ (tells held describes)

/-- Nothing need be told of what is brought. -/
theorem anything {other : Content} (brings : growth.Brings tokens other ending after) :
    growth.Brings tokens content .anything after := by
  obtain ⟨read, split, leaves, -⟩ := brings.read
  exact ⟨⟨read, split, leaves, fun _ _ => trivial⟩, brings.sound⟩

/-- A look brings trivia, and none if the next token was already seen. -/
theorem look {seen : Option Symbol} {symbol : Symbol} (sees : growth.Sees seen)
    (looked : growth.look limit = .ok (symbol, after)) :
    growth.Brings tokens content (content.looked seen) after := by
  obtain ⟨read, split, leaves, -⟩ := (Reads.look looked).tokens
  have left : after.rest = growth.rest.dropWhile (·.kind.isTrivia) := by
    obtain ⟨next, rest, -, -, rfl, rfl⟩ := exists_of_look looked
    exact growth.rest_eatTrivia
  -- The tokens read are the trivia before the next token, as the rest begins there.
  have passed : read = growth.rest.takeWhile (·.kind.isTrivia) := by
    refine (List.append_left_inj after.rest).mp ?_
    rw [← split, left, List.takeWhile_append_dropWhile]
  refine ⟨⟨read, split, leaves, fun held describes => ?_⟩, fun _ sound => sound.look looked⟩
  cases seen with
  -- Trivia does not start anew.
  | none =>
    refine describes.further fun _ token member => TokenKind.startsAnew_of_isTrivia ?_
    rw [passed] at member
    exact List.all_eq_true.mp List.all_takeWhile token member
  -- The next token was already seen, so no trivia is left before it.
  | some known =>
    obtain ⟨token, rest, found, proper, -⟩ := sees known rfl
    rw [passed, found, List.takeWhile_cons_of_neg (by simp [proper]), List.append_nil]
    exact describes

/-- The token is brought that was seen. -/
theorem bump {symbol : Symbol} (sees : growth.Sees (some symbol))
    (bumped : growth.bump = .ok after) :
    growth.Brings tokens content (content.read symbol) after := by
  obtain ⟨token, rest, found, proper, same⟩ := sees symbol rfl
  have siblings := siblings_of_bump found proper bumped
  have left : after.rest = rest := by
    -- The token was seen, so no trivia is read before it.
    have settled : growth.eatTrivia = growth := by simp [Growth.eatTrivia, found, proper]
    obtain ⟨next, others, -, -, rfl⟩ := exists_of_bump bumped
    simp [settled, addLeaf, found]
  refine ⟨⟨[token], ?_, ?_, fun held describes => describes.reads same⟩,
    fun _ sound => sound.bump bumped⟩
  · rw [found, left]
    rfl
  · simp [leaves, siblings, Token.leaf, Token.entry]

/-- What is brought to an inner frame is brought to the outer one. -/
theorem frame (within : growth.enter.Brings tokens content ending inner) :
    growth.Brings tokens content ending (growth.leave inner) := by
  obtain ⟨read, split, leaves, tells⟩ := within.read
  refine ⟨⟨read, split, ?_, tells⟩, fun _ sound => sound.leave (within.sound _ sound.enter)⟩
  rw [leaves_leave, leaves]
  rfl

/-- The operand of the frame comes first in a node around it. -/
theorem wrap (operand : growth.opening = .node) (untold : kind.isTold = false)
    (within : growth.enter.Brings tokens content ending inner) :
    growth.Brings tokens content ending ((growth.leave inner).close kind) := by
  obtain ⟨read, split, leaves, tells⟩ := within.read
  refine ⟨⟨read, split, ?_, tells⟩, fun base sound => ?_⟩
  · rw [leaves_close, leaves_leave, leaves]
    rfl
  · refine (sound.leave (within.sound _ sound.enter)).close ⟨fun _ => ?_, ?_, ?_⟩
    · -- A frame that begins with a node has that node first among its trees.
      obtain ⟨others, first, siblings, composite⟩ := sound.headed.operand operand
      exact ⟨first, (inner.siblings ++ others).reverse, by simp [Growth.leave, siblings], composite⟩
    · rintro rfl
      cases untold
    · rintro rfl
      cases untold

/-- A node is closed around what its kind tells, if it may be closed. -/
theorem madeUp {seen : Option Symbol} {read : List Token} (accepts : kind.Accepts seen ending)
    (sees : inner.Sees seen) (along : growth.Along tokens) (split : growth.rest = read ++ inner.rest)
    (leaves : inner.leaves = read.map Token.entry) (describes : ending.Describes read) :
    MadeUp tokens growth.offset kind inner.siblings.reverse where
  operand surrounding := by
    rw [NodeKind.isSurrounding_of_accepts accepts] at surrounding
    cases surrounding
  type isType := by
    subst isType
    -- A type was closed around the one token that names it.
    obtain ⟨symbol, rfl, names⟩ := accepts
    obtain ⟨token, rfl, rfl⟩ := describes
    exact ⟨token, leaves, names⟩
  skipped isSkipped := by
    subst isSkipped
    rw [leaves_eq, leaves]
    rcases accepts with ⟨symbol, rfl, misplaced⟩ | ⟨passed, symbol, rfl, anew⟩
    · obtain ⟨token, rfl, rfl⟩ := describes
      have adjoining := along.adjoining
      rw [split] at adjoining
      exact .single (split ▸ along.rest) adjoining.1 misplaced
    · -- All tokens were read up to the one that was seen.
      obtain ⟨next, rest, found, -, rfl⟩ := sees symbol rfl
      have all : growth.rest.takeWhile (fun token => !token.kind.startsAnew) = read := by
        rw [split, List.takeWhile_append_of_pos fun token member => by
          simp [describes.passes passed token member], found,
          List.takeWhile_cons_of_neg (by simpa [Token.symbol] using anew), List.append_nil]
      rw [← all]
      obtain ⟨first, others, same⟩ : ∃ first others, growth.rest = first :: others :=
        List.exists_cons_of_ne_nil (by simp [split, found])
      have adjoining := along.adjoining
      rw [same] at adjoining ⊢
      exact .several (same ▸ along.rest) adjoining.1

/-- A node that may be closed holds what its kind tells. -/
theorem node {seen : Option Symbol} (accepts : kind.Accepts seen ending) (sees : inner.Sees seen)
    (within : growth.enter.Brings tokens .nothing ending inner) :
    growth.Brings tokens content (content.further ending.isPassed)
      (growth.leave (inner.close kind)) := by
  obtain ⟨read, split, leaves, tells⟩ := within.read
  -- Nothing was read in the new frame before its body.
  have described : ending.Describes read := tells [] rfl
  refine ⟨⟨read, split, ?_, fun held describes => describes.further described.passes⟩,
    fun base sound => sound.leave ((within.sound _ sound.enter).close ?_)⟩
  · rw [leaves_leave, leaves_close, leaves]
    rfl
  · exact madeUp accepts sees sound.along split leaves described

end Brings

end Growth

/-- What a rule brings, and what is seen after it: only the one that passes over tokens tells of it. -/
def Rule.BringsIn (tokens : List Token) (rule : Rule) (growth after : Growth) : Prop :=
  ∀ content, ∃ known ending, rule.Passes content known ending ∧ after.Sees known
    ∧ growth.Brings tokens content ending after

open Growth in
/-- A parser grows nodes that hold what is told of them, if the rules do that it calls. -/
theorem Parser.grow_brings {call : Rule → Growth → Except Failure Growth} {limit : Option Nat}
    {tokens : List Token}
    (called : ∀ {rule growth after}, call rule growth = .ok after → rule.BringsIn tokens growth after)
    {α : Type} {parser : Parser α} {seen : Option Symbol} {content : Content}
    {post : α → Option Symbol → Content → Prop} (fills : parser.Fills seen content post)
    {growth after : Growth} {value : α} (sees : growth.Sees seen)
    (grown : parser.grow call limit growth = .ok (value, after)) :
    ∃ known ending, post value known ending ∧ after.Sees known
      ∧ growth.Brings tokens content ending after := by
  -- The induction follows the program; a node is closed around what its body brought.
  induction parser generalizing seen content growth after with
  | done result =>
    cases grown
    exact ⟨seen, content, fills, sees, .of_eq rfl rfl fun _ sound => sound⟩
  | andThen first next ihFirst ihNext =>
    obtain ⟨found, between, left, right⟩ := grow_bind_ok.mp grown
    obtain ⟨known, middle, holds, seesNext, early⟩ := ihFirst fills sees left
    obtain ⟨last, ending, reached, seesLast, late⟩ := ihNext found holds seesNext right
    exact ⟨last, ending, reached, seesLast, early.trans late⟩
  | look =>
    obtain ⟨fits, seesAfter⟩ := sees.look grown
    have isSeen := (constituents_look grown).2
    exact ⟨some value, _, fills value fits isSeen, seesAfter, .look sees grown⟩
  | bump =>
    rw [grow_bump_ok] at grown
    obtain ⟨symbol, rfl, holds⟩ := fills
    exact ⟨none, _, holds, after.sees_none, .bump sees grown⟩
  | report mistake =>
    cases grown
    exact ⟨seen, content, fills, sees, .of_eq rfl rfl fun _ sound => sound.addMistake mistake⟩
  -- The body may close its node only around what the kind accepts.
  | node body ih =>
    obtain ⟨inner, left, rfl⟩ := grow_node_ok.mp grown
    obtain ⟨known, ending, ⟨accepts, holds⟩, seesAfter, within⟩ := ih fills sees.enter left
    exact ⟨known, _, holds, seesAfter, .node accepts seesAfter within⟩
  | frame body ih =>
    obtain ⟨inner, left, rfl⟩ := grow_frame_ok.mp grown
    obtain ⟨known, ending, holds, seesAfter, within⟩ := ih fills sees.enter left
    exact ⟨known, ending, holds, seesAfter, within.frame⟩
  | wrap body ih =>
    obtain ⟨operand, inner, left, rfl⟩ := grow_wrap_ok.mp grown
    obtain ⟨known, ending, ⟨untold, holds⟩, seesAfter, within⟩ := ih fills sees.enter left
    exact ⟨known, ending, holds, seesAfter, within.wrap operand untold⟩
  | progress body ih =>
    obtain ⟨left, -⟩ := grow_progress_ok.mp grown
    obtain ⟨known, ending, holds, seesAfter, brings⟩ := ih fills sees left
    exact ⟨known, ending, holds value, seesAfter, brings⟩
  -- What a rule passes over is told by the rule itself.
  | call rule =>
    obtain ⟨known, ending, passes, seesAfter, brings⟩ := called (grow_call_ok.mp grown) content
    exact ⟨known, ending, fills known ending passes, seesAfter, brings⟩

/-- Every rule grows nodes that hold what is told of them, however deeply its calls may nest. -/
theorem Rule.bringsIn_of_grow {tokens : List Token} {limit : Option Nat} {rule : Rule} {depth : Nat}
    {growth after : Growth} (grown : rule.grow limit depth growth = .ok after) :
    rule.BringsIn tokens growth after := by
  -- Calls nest less deeply than the rule that makes them.
  induction depth generalizing rule growth after with
  | zero => cases grown
  | succ depth ih =>
    intro content
    rw [Rule.grow_ok] at grown
    by_cases isRecovery : rule = .recovery
    · subst isRecovery
      exact Parser.grow_brings ih (Grammar.fills_recovery content) growth.sees_none grown
    · -- Every other rule leaves it open what was read.
      obtain ⟨_, ending, -, -, brings⟩ :=
        Parser.grow_brings ih (Grammar.fills_body rule isRecovery) growth.sees_none grown
      have passes : rule.Passes content none .anything := by
        cases rule <;> first | exact ⟨rfl, rfl⟩ | exact absurd rfl isRecovery
      exact ⟨none, .anything, passes, after.sees_none, brings.anything⟩

end Dxl
