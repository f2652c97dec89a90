import Dxl.Proofs.Grammar.Conduct
import Dxl.Proofs.Grammar.Course
import Dxl.Proofs.Grammar.Expression
import Dxl.Proofs.Grammar.Recording

/-! Trimming: a node of a single token is opened right before the token, so that it holds no trivia. -/

namespace Dxl

/-- What is known of the open frame and of the next token. -/
inductive Stance where
  /-- Nothing is known. -/
  | apart
  /-- The next token was just looked at, so that there is no trivia before it. -/
  | near
  /-- The frame was opened right before the next token. -/
  | opened
  /-- The token before which the frame was opened is all that it holds. -/
  | filled
deriving DecidableEq

namespace Stance

/-- A token is all that a frame holds if the frame was opened right before it. -/
def read : Stance → Stance
  | .opened => .filled
  | _ => .apart

/-- A frame is opened right before the next token if that was just looked at. -/
def inside : Stance → Stance
  | .near | .opened => .opened
  | _ => .apart

/-- There is no trivia before the next token. -/
def isNear : Stance → Bool
  | .near | .opened => true
  | _ => false

end Stance

/-- A node of a single token is closed when the token before which it was opened is all that it holds. -/
def trimming : Discipline Stance where
  look _ post := ∀ symbol, post symbol .near
  bump stance post := post stance.read
  report _ stance post := post stance
  enter stance := stance.inside
  close kind stance post := (kind.isAtom = true → stance = .filled) ∧ post .apart
  progress _ stance post := ∀ progressed, post progressed stance
  call _ _ post := post .apart

section

variable {stance : Stance}

/-- There is no trivia before what a look sees. -/
@[simp] theorem trimming_look (post : Symbol → Stance → Prop) :
    trimming.look stance post ↔ ∀ symbol, post symbol .near := Iff.rfl

/-- A token that is read joins the frame. -/
@[simp] theorem trimming_bump (post : Stance → Prop) :
    trimming.bump stance post ↔ post stance.read := Iff.rfl

/-- A mistake changes nothing in the frame. -/
@[simp] theorem trimming_report (mistake : Mistake) (post : Stance → Prop) :
    trimming.report mistake stance post ↔ post stance := Iff.rfl

/-- A new frame is opened before the next token. -/
@[simp] theorem trimming_enter : trimming.enter stance = stance.inside := rfl

/-- A node of a single token holds the token alone. -/
@[simp] theorem trimming_close (kind : NodeKind) (post : Stance → Prop) :
    trimming.close kind stance post ↔ (kind.isAtom = true → stance = .filled) ∧ post .apart :=
  Iff.rfl

/-- Whether anything was read is not told apart. -/
@[simp] theorem trimming_progress (before : Stance) (post : Bool → Stance → Prop) :
    trimming.progress before stance post ↔ ∀ progressed, post progressed stance := Iff.rfl

/-- Nothing is known after a rule. -/
@[simp] theorem trimming_call (rule : Rule) (post : Stance → Prop) :
    trimming.call rule stance post ↔ post .apart := Iff.rfl

end

end Dxl

namespace Dxl.Grammar

open Dxl.Parser

/-- A warning of a qualifier leaves everything in place. -/
theorem obeys_trimming_warnOfQualifier (kind : TokenKind) (stance : Stance)
    (post : Unit → Stance → Prop) :
    (warnOfQualifier kind).Obeys trimming stance post ↔ post () stance := by
  unfold warnOfQualifier
  split <;> simp

/-- What begins an operand is opened right before it. -/
theorem obeys_trimming_expression (power : Nat) :
    (expression power).Obeys trimming .apart fun _ _ => True := by
  simp only [expression, obeys_bind, obeys_look, trimming_look]
  intro symbol
  -- In each case of the table, the node is opened after the look, right before the token.
  split <;>
    simp [group, acceptType, require, expect, Stance.read, Stance.inside, NodeKind.isAtom]

/-- What follows an operand makes no node of a single token but a type. -/
theorem obeys_trimming_operators (operand : NodeKind) (power : Nat) :
    (operators operand power).Obeys trimming .apart fun _ _ => True := by
  simp only [operators, obeys_bind, obeys_look, trimming_look]
  intro symbol
  have spec := symbol.kind.continuation_spec operand
  split <;> rename_i continues <;> simp only [continues] at spec
  -- The nodes whose kind is not written out here are compound, so they are no atoms.
  case h_4 => simp [rightOperand, NodeKind.isAtom_of_isCompound spec.2]
  case h_8 left right form =>
    cases form with
    | binary made =>
      simp [infixed, rightOperand, NodeKind.isAtom_of_isCompound (spec.2 made rfl)]
    | _ =>
      simp [infixed, branches, upperEnd, adjoined, expect, NodeKind.isAtom]
  all_goals
    simp [application, indexed, adjoined, group, acceptType, argumentList,
      expressionStatement, sliceEnd, require, expect, Stance.read, Stance.inside, NodeKind.isAtom]

/-- A jump is no node of a single token, even if it holds nothing but its keyword. -/
theorem obeys_trimming_jump {stance : Stance} {post : NodeKind → Stance → Prop}
    (after : ∀ kind, post kind .apart) : jump.Obeys trimming stance post := by
  -- Not even a jump without a value is a node of a single token.
  have jumps (kind : TokenKind) : (jumpNode kind).isAtom = false := by
    unfold jumpNode
    split <;> rfl
  have plain : NodeKind.exprStmt.isAtom = false := rfl
  simp [jump, jumpValue, expressionStatement, jumps, plain, after]

/-- A statement makes no node of a single token by itself. -/
theorem obeys_trimming_statement : statement.Obeys trimming .apart fun _ _ => True := by
  simp only [statement, obeys_bind, obeys_look, trimming_look]
  intro symbol
  unfold simpleStatement
  -- Each token that begins a statement leads to a rule of its own.
  split <;>
    simp [block, whileLoop, loopBody, forLoop, countingRest, furtherClauses, memberRest,
      member, memberStep, obeys_trimming_jump, pragma, inclusion, expressionStatement, require, expect,
      NodeKind.isAtom]

/-- What follows a block on a condition makes no node of a single token by itself. -/
theorem obeys_trimming_alternative :
    alternative.Obeys trimming .apart fun _ _ => True := by
  simp only [alternative, obeys_bind, obeys_accept, obeys_ite, obeys_look, trimming_look]
  refine fun symbol => ⟨fun _ => ⟨fun _ next => ?_, by simp⟩, by simp⟩
  split <;> simp [block, require, expect, NodeKind.isAtom]

/-- Every rule opens nodes of a single token right before the token. -/
theorem obeys_trimming (rule : Rule) : rule.body.Obeys trimming .apart fun _ _ => True := by
  cases rule with
  | operators operand power => exact obeys_trimming_operators operand power
  | expression power => exact obeys_trimming_expression power
  | statement => exact obeys_trimming_statement
  | conditional =>
    simp [Rule.body, conditional, conditionalBody, obeys_trimming_alternative, expressionStatement,
      require, expect, NodeKind.isAtom]
  | declaration =>
    simp [Rule.body, declaration, qualifier, obeys_trimming_warnOfQualifier, typedDeclaration,
      declarator, functionRest, functionBody, parameterList, variableRest, variableEnd, nameList,
      nameless, arrayRest, arraySize, arrayValues, block, expressionStatement, require, expect, skip,
      Stance.read, Stance.inside, NodeKind.isAtom]
  | parameters =>
    simp [Rule.body, parameters, parameter, declarator, functionRest, functionBody, parameterList,
      variableRest, variableEnd, nameless, arrayRest, arraySize, arrayValues, block,
      expressionStatement, require, expect, skip, Stance.read, Stance.inside, NodeKind.isAtom]
  | _ =>
    -- The other rules are small enough to be followed step by step.
    simp [Rule.body, program, blockItems, furtherNames, furtherName, initialValue, arrayItems,
      arrayItem, arguments, argument, statementEnds, lineEnds, pathParts, recovery,
      expressionStatement, require, expect, skip, Stance.read, Stance.inside, NodeKind.isAtom]

end Dxl.Grammar

namespace Dxl

namespace Tree

/-- Some trees are a single token with no trivia beside it. -/
def LoneToken (trees : List Tree) : Prop :=
  ∃ kind text, trees = [.leaf (.token kind) text] ∧ kind.isTrivia = false

/-- A tree in which no node of a single token holds trivia. -/
inductive Trimmed : Tree → Prop
  | leaf (kind : Kind) (text : String) : Trimmed (.leaf kind text)
  | node {kind : NodeKind} {children : List Tree} : (∀ child ∈ children, Trimmed child) →
    (kind.isAtom = true → (∀ child ∈ children, child.isLeaf = true) → LoneToken children) →
    Trimmed (.node (.node kind) children)

end Tree

namespace Growth

variable {growth after inner : Growth} {limit : Option Nat} {kind : NodeKind}

/-- All trees in the frame are trimmed, and there is a node among them if the frame begins with one. -/
structure Neat (growth : Growth) : Prop where
  trimmed : growth.Each Tree.Trimmed
  operand : growth.opening = .node → ∃ tree ∈ growth.siblings, tree.isLeaf = false

/-- No token that is read makes a frame begin with a node. -/
theorem eq_node_of_foldl_addLeaf {read : List Token}
    (opens : (read.foldl addLeaf growth).opening = .node) : growth.opening = .node := by
  rw [opening_foldl_addLeaf] at opens
  rcases Opening.orElse_eq_node.mp opens with same | ⟨-, token⟩
  · exact same
  · split at token <;> cases token

/-- No look makes a frame begin with a node. -/
theorem eq_node_of_look {symbol : Symbol} (looked : growth.look limit = .ok (symbol, after))
    (opens : after.opening = .node) : growth.opening = .node := by
  obtain ⟨token, rest, -, -, rfl, rfl⟩ := exists_of_look looked
  exact eq_node_of_foldl_addLeaf opens

/-- No token that is read after trivia makes a frame begin with a node. -/
theorem eq_node_of_bump (bumped : growth.bump = .ok after) (opens : after.opening = .node) :
    growth.opening = .node := by
  obtain ⟨token, rest, -, -, rfl⟩ := exists_of_bump bumped
  rcases Opening.orElse_eq_node.mp opens with same | ⟨-, token⟩
  · exact eq_node_of_foldl_addLeaf same
  · cases token

/-- A token without trivia before it is read alone. -/
theorem siblings_of_bump {token : Token} {rest : List Token} (next : growth.rest = token :: rest)
    (proper : token.kind.isTrivia = false) (bumped : growth.bump = .ok after) :
    after.siblings = token.leaf :: growth.siblings := by
  have settled : growth.eatTrivia = growth := by simp [eatTrivia, next, proper]
  obtain ⟨found, others, left, -, rfl⟩ := exists_of_bump bumped
  -- Without trivia before it, the token read is the next one.
  rw [settled, next, List.cons.injEq] at left
  rw [settled, left.1]
  rfl

namespace Neat

/-- A new frame is empty. -/
theorem enter (growth : Growth) : growth.enter.Neat where
  trimmed := by simp [Each, Growth.enter]
  operand := by simp [Growth.enter]

/-- What is the same but for the tokens that were read is as neat, if it begins as before. -/
theorem adds (neat : growth.Neat) (adds : growth.Adds after Tree.Trimmed)
    (begins : after.opening = .node → growth.opening = .node) : after.Neat where
  trimmed := neat.trimmed.adds adds
  -- The node was there before, and nothing is taken away.
  operand opens := by
    obtain ⟨tree, member, composite⟩ := neat.operand (begins opens)
    obtain ⟨added, siblings, -⟩ := adds
    exact ⟨tree, by simp [siblings, member], composite⟩

/-- A look adds only trivia. -/
theorem look {symbol : Symbol} (neat : growth.Neat)
    (looked : growth.look limit = .ok (symbol, after)) : after.Neat := by
  obtain ⟨-, -, trivia, siblings, passed⟩ := look_ok looked
  exact neat.adds ⟨trivia, siblings, fun tree member =>
    Each.of_isTrivia (fun _ => .leaf _) (passed tree member)⟩ (eq_node_of_look looked)

/-- Reading a token adds the token and trivia. -/
theorem bump (neat : growth.Neat) (bumped : growth.bump = .ok after) : after.Neat := by
  obtain ⟨token, trivia, -, -, siblings, passed⟩ := bump_ok bumped
  refine neat.adds ⟨token.leaf :: trivia, siblings, fun tree member => ?_⟩ (eq_node_of_bump bumped)
  rcases List.mem_cons.mp member with rfl | earlier
  · exact .leaf _ _
  · exact Each.of_isTrivia (fun _ => .leaf _) (passed tree earlier)

/-- A mistake adds nothing. -/
theorem addMistake (neat : growth.Neat) (mistake : Mistake) : (growth.addMistake mistake).Neat :=
  neat.adds ⟨[], rfl, by simp⟩ fun opens =>
    (Opening.orElse_eq_node.mp opens).resolve_right (by simp)

/-- What an inner frame holds joins the outer one. -/
theorem leave (neat : growth.Neat) (within : inner.Neat) : (growth.leave inner).Neat where
  trimmed := neat.trimmed.leave within.trimmed
  operand opens := by
    -- The frame begins with the first of both parts that is not empty.
    rcases Opening.orElse_eq_node.mp opens with outer | ⟨-, new⟩
    · obtain ⟨tree, member, composite⟩ := neat.operand outer
      exact ⟨tree, List.mem_append_right _ member, composite⟩
    · obtain ⟨tree, member, composite⟩ := within.operand new
      exact ⟨tree, List.mem_append_left _ member, composite⟩

/-- A closed node is neat if the trees in it are, and a node of a single token holds the token alone or a node. -/
theorem close (neat : inner.Neat)
    (lone : kind.isAtom = true → Tree.LoneToken inner.siblings
      ∨ ∃ tree ∈ inner.siblings, tree.isLeaf = false) : (inner.close kind).Neat where
  trimmed := by
    refine Each.close (.node (fun child member => neat.trimmed child (List.mem_reverse.mp member)) ?_)
    -- A node of a single token either holds it alone or has a node below it.
    intro atom leaves
    rcases lone atom with ⟨tokenKind, text, same, proper⟩ | ⟨tree, member, composite⟩
    · exact ⟨tokenKind, text, by rw [same]; rfl, proper⟩
    · rw [leaves tree (List.mem_reverse.mpr member)] at composite
      cases composite
  operand _ := ⟨_, List.mem_singleton.mpr rfl, rfl⟩

end Neat

/-- There is no trivia before the next token, if a stance says so. -/
def Fits (growth : Growth) (stance : Stance) : Prop :=
  stance.isNear = true → ∃ token rest, growth.rest = token :: rest ∧ token.kind.isTrivia = false

/-- A stance that says nothing of the next token fits everywhere. -/
theorem fits_of_isNear_eq_false {stance : Stance} (far : stance.isNear = false) :
    growth.Fits stance := by
  simp [Fits, far]

/-- What has come to a frame while one stance led to another. -/
inductive Gains (growth after : Growth) : Stance → Stance → Prop
  | apart {stance : Stance} : Gains growth after stance .apart
  | near {stance : Stance} : Gains growth after stance .near
  | none {stance : Stance} (same : after.siblings = growth.siblings) : Gains growth after stance stance
  | token {kind : TokenKind} {text : String} (proper : kind.isTrivia = false)
      (siblings : after.siblings = .leaf (.token kind) text :: growth.siblings) :
      Gains growth after .opened .filled

namespace Gains

variable {before between ending : Stance} {middle : Growth}

/-- What comes to a frame in two steps. -/
theorem trans (first : Gains growth middle before between)
    (second : Gains middle after between ending) : Gains growth after before ending := by
  -- A token that is told of later excludes that one was told of before.
  cases second with
  | apart => exact .apart
  | near => exact .near
  | none same =>
    cases first with
    | apart => exact .apart
    | near => exact .near
    | none earlier => exact .none (same.trans earlier)
    | token proper siblings => exact .token proper (same.trans siblings)
  | token proper siblings =>
    cases first with
    | none earlier => exact .token proper (earlier ▸ siblings)

/-- What comes to an inner frame comes to the outer one. -/
theorem leave (gains : Gains growth.enter inner before ending) :
    Gains growth (growth.leave inner) before ending := by
  cases gains with
  | apart => exact .apart
  | near => exact .near
  | none same => exact .none (by rw [Growth.leave, same]; rfl)
  | token proper siblings => exact .token proper (by rw [Growth.leave, siblings]; rfl)

/-- A frame that is filled with a token holds that alone. -/
theorem lone (gains : Gains growth.enter inner before.inside .filled) :
    Tree.LoneToken inner.siblings := by
  generalize opened : before.inside = stance at gains
  cases gains with
  | none => cases before <;> cases opened
  | token proper siblings => exact ⟨_, _, siblings, proper⟩

end Gains

end Growth

/-- A run keeps the frame neat, and adds to it what the stances tell. -/
structure Trims (stance : Stance) (growth : Growth) (ending : Stance) (after : Growth) : Prop where
  neat : growth.Neat → after.Neat
  gains : growth.Gains after stance ending

/-- The discipline keeps frames neat if the rules that are called do. -/
theorem trimming_steers {call : Rule → Growth → Except Failure Growth} {limit : Option Nat}
    (called : ∀ {rule growth after}, call rule growth = .ok after → growth.Neat → after.Neat) :
    trimming.Steers call limit (fun stance growth => growth.Fits stance) Trims where
  stay _ _ := ⟨id, .none rfl⟩
  further first second := ⟨second.neat ∘ first.neat, first.gains.trans second.gains⟩
  begin fits := fits
  enter {state growth} fits near := fits (by cases state <;> first | rfl | cases near)
  look {state growth after symbol post} _ allowed looked := by
    refine ⟨.near, allowed symbol, fun _ => ?_, ⟨fun neat => neat.look looked, .near⟩⟩
    -- What was seen is the next token, so no trivia comes before it.
    obtain ⟨token, rest, next, proper, -⟩ := (growth.sees_none.look looked).2 symbol rfl
    exact ⟨token, rest, next, proper⟩
  bump {state growth after post} fits allowed bumped := by
    refine ⟨state.read, allowed, Growth.fits_of_isNear_eq_false (by cases state <;> rfl),
      ⟨fun neat => neat.bump bumped, ?_⟩⟩
    cases state with
    | opened =>
      -- No trivia comes before the token, so it is read alone.
      obtain ⟨token, rest, next, proper⟩ := fits rfl
      exact .token proper (Growth.siblings_of_bump next proper bumped)
    | _ => exact .apart
  report fits allowed := ⟨_, allowed, fits, ⟨fun neat => neat.addMistake _, .none rfl⟩⟩
  node {kind state inside growth inner post} _ within closes := by
    refine ⟨.apart, closes.2, Growth.fits_of_isNear_eq_false rfl, ⟨fun neat => ?_, .apart⟩⟩
    -- The stance says that the frame of such a node is filled with its token.
    refine neat.leave ((within.neat (.enter growth)).close fun atom => .inl ?_)
    exact (closes.1 atom ▸ within.gains).lone
  frame {state inside growth inner} fits within :=
    ⟨fits, ⟨fun neat => neat.leave (within.neat (.enter growth)), within.gains.leave⟩⟩
  wrap {kind state inside growth inner post} operand _ within closes := by
    refine ⟨.apart, closes.2, Growth.fits_of_isNear_eq_false rfl, ⟨fun neat => ?_, .apart⟩⟩
    refine (neat.leave (within.neat (.enter growth))).close fun _ => .inr ?_
    -- The operand is a node, and goes into the new one.
    obtain ⟨tree, member, composite⟩ := neat.operand operand
    exact ⟨tree, List.mem_append_right _ member, composite⟩
  progress holds fits within := ⟨_, holds _, fits, within⟩
  call {rule state growth after post} _ allowed grown :=
    ⟨.apart, allowed, Growth.fits_of_isNear_eq_false rfl, ⟨called grown, .apart⟩⟩

/-- Every rule keeps frames neat, however deeply its calls may nest. -/
theorem Rule.neat_of_grow {limit : Option Nat} {rule : Rule} {depth : Nat} {growth after : Growth}
    (grown : rule.grow limit depth growth = .ok after) (neat : growth.Neat) : after.Neat := by
  -- Calls nest less deeply than the rule that makes them.
  induction depth generalizing rule growth after with
  | zero => cases grown
  | succ depth ih =>
    -- The body starts apart, where nothing is known of the next token.
    obtain ⟨_, -, -, trims⟩ := Parser.grow_course (trimming_steers ih)
      (Grammar.obeys_trimming rule) (Growth.fits_of_isNear_eq_false rfl) (Rule.grow_ok.mp grown)
    exact trims.neat neat

end Dxl
