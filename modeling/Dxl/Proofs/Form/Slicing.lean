import Dxl.Proofs.Form.Formation
import Dxl.Proofs.Form.Statement
import Dxl.Proofs.Grammar.Supply

/-! Slicing: in the brackets of an index no operand comes before a colon of the index itself, as the range operator takes that colon. -/

namespace Dxl

namespace Form

/-- What is between the brackets of an index: either no colon, or one that no operand comes before. -/
inductive Sliced : List Constituent → Prop
  | whole {outer inner : List Constituent} : .token (.sign .colon) ∉ inner →
    Sliced (outer ++ .token (.sign .leftBracket) :: inner)
  | slice {outer lower upper : List Constituent} :
    (∀ kind first, .node kind first ∈ lower → kind.isOperand = false) →
    Sliced (outer ++ .token (.sign .leftBracket) :: (lower ++ .token (.sign .colon) :: upper))

variable {clean : Prop} {constituents : List Constituent} {kind : TokenKind}

/-- The only token that an expression leaves by itself is an empty operand. -/
theorem eq_semicolon_of_operand (operand : Operand clean constituents)
    (member : .token kind ∈ constituents) : kind = .sign .semicolon := by
  cases operand with
  | missing | skipped => simp at member
  | empty => simpa using member
  -- A chain of groups beside an operand holds no token at all.
  | chain first chain =>
    obtain ⟨operand, beside⟩ := chain
    simp only [List.mem_cons, reduceCtorEq, false_or] at member
    clear operand
    induction beside with
    | none => cases member
    | more _ _ _ ih => exact ih (by simpa using member)

/-- A token that is needed is the only one there. -/
theorem eq_of_needed {needed : TokenKind} (isNeeded : Needed clean needed constituents)
    (member : .token kind ∈ constituents) : kind = needed := by
  cases isNeeded with
  | present => simpa using member
  | absent => cases member

end Form

namespace Tree

/-- A tree in which every index is put together in this way. -/
inductive Sliced : Tree → Prop
  | leaf (kind : TokenKind) (text : String) : Sliced (.leaf (.token kind) text)
  | node {kind : NodeKind} {children : List Tree} : (∀ child ∈ children, Sliced child) →
    (kind = .index → Form.Sliced (constituents children)) → Sliced (.node (.node kind) children)

end Tree

/-- An access makes no index. -/
theorem access_ne_index {kind : TokenKind} {operand made : NodeKind}
    (continues : kind.continuation operand = .access made) : made ≠ .index := by
  rcases TokenKind.eq_of_access continues with rfl | rfl <;> decide

namespace Grammar

open Dxl.Parser

/-- No index is made, whatever rules are called. -/
def unindexed : Discipline (Option Symbol) :=
  conduct (· ≠ .index) fun _ => True

theorem obeys_unindexed_statement :
    statement.Obeys unindexed none fun _ _ => True := by
  simp only [statement, obeys_bind, obeys_look, unindexed, conduct_look,
    Symbol.fits_none, true_imp_iff]
  intro symbol
  -- Every rule for a statement makes nodes of its own kinds only.
  unfold simpleStatement
  split <;> rename_i found <;>
    simp [found, block, whileLoop, loopBody, forLoop, countingRest, furtherClauses, memberRest,
      member, memberStep, jump, jumpValue, jumpNode, pragma, inclusion, expressionStatement,
      require, expect, Mistake.TellsOf]

theorem obeys_unindexed_alternative :
    alternative.Obeys unindexed none fun _ _ => True := by
  simp only [alternative, obeys_bind, obeys_accept, obeys_ite, obeys_look, unindexed, conduct_look,
    conduct_bump]
  refine fun symbol _ => ⟨fun _ => ⟨fun _ next _ => ?_, by simp⟩, by simp⟩
  split <;> simp [block, require, expect, Mistake.TellsOf]

theorem obeys_unindexed_expression (power : Nat) :
    (expression power).Obeys unindexed none fun _ _ => True := by
  simp only [expression, obeys_bind, obeys_look, unindexed, conduct_look, Symbol.fits_none,
    true_imp_iff]
  intro symbol
  split
  -- Operands of one token are literals and names.
  case h_1 made starts =>
    have other : made ≠ .index := by
      rcases TokenKind.eq_of_atom starts with rfl | rfl | rfl <;> decide
    simp [other]
  all_goals simp [group, acceptType, require, expect, Mistake.TellsOf]

/-- Rules other than the operators after an operand make no index by themselves. -/
theorem obeys_unindexed {rule : Rule} (plain : rule.IsPlain) :
    rule.body.Obeys unindexed none fun _ _ => True := by
  cases rule with
  | operators operand power => exact plain.elim
  | expression power => exact obeys_unindexed_expression power
  | declaration =>
    simp [Rule.body, unindexed, declaration, qualifier, typedDeclaration, declarator, functionRest,
      functionBody, parameterList, variableRest, variableEnd, nameList, nameless, arrayRest,
      arraySize, arrayValues, block, expressionStatement, require, expect, skip, Mistake.TellsOf]
    -- The qualifier warns of itself and makes no index.
    exact fun symbol word => obeys_warnOfQualifier word (by simp)
  | statement => exact obeys_unindexed_statement
  | conditional =>
    have := obeys_unindexed_alternative
    simp only [unindexed] at this
    simp [Rule.body, unindexed, conditional, conditionalBody, expressionStatement, require, expect,
      this, Mistake.TellsOf]
  | parameters =>
    simp [Rule.body, unindexed, parameters, parameter, declarator, functionRest, functionBody,
      parameterList, variableRest, variableEnd, nameless, arrayRest, arraySize, arrayValues, block,
      expressionStatement, require, expect, skip, Mistake.TellsOf]
  | _ =>
    simp [Rule.body, unindexed, program, blockItems, furtherNames, furtherName, initialValue,
      arrayItems, arrayItem, arguments, argument, statementEnds, lineEnds, pathParts, recovery,
      expressionStatement, require, expect, skip, Mistake.TellsOf]

end Grammar

section

open Dxl.Parser Growth

variable {limit : Option Nat} {depth : Nat} {growth after : Growth}

/-- The rules that are called keep trees sliced. -/
def KeepsSliced (limit : Option Nat) (depth : Nat) : Prop :=
  ∀ (rule : Rule) (growth after : Growth), rule.grow limit depth growth = .ok after →
    growth.Each Tree.Sliced → after.Each Tree.Sliced

/-- Trees remain sliced when something is read that makes no index. -/
theorem KeepsSliced.unindexed (keeps : KeepsSliced limit depth) {α : Type} {parser : Parser α}
    {value : α} (obeys : parser.Obeys Grammar.unindexed none fun _ _ => True)
    (each : growth.Each Tree.Sliced)
    (grown : parser.grow (fun rule => rule.grow limit depth) limit growth = .ok (value, after)) :
    after.Each Tree.Sliced := by
  have leaf : ∀ kind text, Tree.Sliced (.leaf (.token kind) text) := .leaf
  -- Trees of other kinds are sliced as soon as their children are.
  have node : ∀ kind children, kind ≠ .index → (∀ child ∈ children, Tree.Sliced child) →
      Tree.Sliced (.node (.node kind) children) :=
    fun kind children other sliced => .node sliced fun same => absurd same other
  exact (grow_each leaf node (fun rule growth after _ => keeps rule growth after) obeys
    (sees_none growth) each grown).1

/-- A node among constituents is no operand if none of the trees is. -/
theorem isOperand_of_mem_constituents {trees : List Tree} {kind : NodeKind}
    {first : Option TokenKind} (foreign : ∀ tree ∈ trees, tree.isOperand = false)
    (member : Constituent.node kind first ∈ Tree.constituents trees) : kind.isOperand = false := by
  -- The constituent stems from one of the trees, which is the same node.
  obtain ⟨tree, among, same⟩ := List.mem_filterMap.mp member
  have none := foreign tree among
  rcases tree with ⟨kind | kind, text⟩ | ⟨kind | kind, children⟩
  · simp only [Tree.constituent?, Kind.proper?] at same
    split at same <;> cases same
  · cases same
  · cases same
  · cases same
    exact none

/-- An operand that is read takes any colon after it, so that before a colon there is none. -/
theorem foreign_of_takesOperand {operand : List Constituent}
    (takes : growth.TakesOperand after 0)
    (adds : after.constituents = growth.constituents ++ operand)
    (isColon : after.next.kind = .sign .colon) :
    ∀ kind first, .node kind first ∈ operand → kind.isOperand = false := by
  cases begins : growth.next.kind.startsOperand with
  -- An operand that begins here would have taken the colon as an operator.
  | true =>
    have stops := takes.stops begins
    rw [isColon] at stops
    rcases stops 2 1 rfl with named | loose
    · cases named
    · exact absurd loose (by decide)
  -- Where no operand begins, what is read adds none to the frame.
  | false =>
    obtain ⟨added, siblings, none⟩ := takes.nothing begins
    have split : operand = Tree.constituents added.reverse := by
      rw [constituents, siblings, List.reverse_append, Tree.constituents_append] at adds
      exact (List.append_cancel_left adds).symm
    intro kind first member
    rw [split] at member
    exact isOperand_of_mem_constituents
      (fun tree among => none tree (List.mem_reverse.mp among)) member

/-- What is read adds to the frame what its program tells, if nothing is said of errors. -/
theorem grow_writes_flawed {α : Type} {parser : Parser α} {value : α} {seen : Option Symbol}
    {post : α → Option Symbol → List Constituent → Prop}
    (writes : parser.Writes False seen growth.constituents post) (sees : growth.Sees seen)
    (each : growth.Each (Tree.Formed False))
    (grown : parser.grow (fun rule => rule.grow limit depth) limit growth = .ok (value, after)) :
    after.Each (Tree.Formed False) ∧ ∃ known, post value known after.constituents := by
  obtain ⟨formed, known, -, holds⟩ := grow_writes
    (fun _ _ _ called => Rule.errors_of_grow called)
    (fun _ _ _ called => Rule.formsIn_of_grow (fun rule _ _ => Grammar.writes_body rule) called)
    writes sees each grown False.elim
  exact ⟨formed, known, holds⟩

/-- Between the brackets of an index a colon is read only where no operand was. -/
theorem constituents_indexed {symbol : Symbol} (sees : growth.Sees (some symbol))
    (bracket : symbol.kind = .sign .leftBracket) (frame : growth.siblings = []) {value : Unit}
    (grown : (do
      require (.sign .leftBracket)
      call (.expression 0)
      Grammar.sliceEnd
      require (.sign .rightBracket) : Parser Unit).grow (fun rule => rule.grow limit depth) limit
        growth = .ok (value, after)) :
    ∃ inner, after.constituents = .token (.sign .leftBracket) :: inner
      ∧ (.token (.sign .colon) ∉ inner ∨ ∃ lower upper,
        inner = lower ++ .token (.sign .colon) :: upper
          ∧ ∀ kind first, .node kind first ∈ lower → kind.isOperand = false) := by
  obtain ⟨_, opened, opening, rest⟩ := grow_bind_ok.mp grown
  obtain ⟨_, middle, called, rest⟩ := grow_bind_ok.mp rest
  obtain ⟨_, between, upper, closing⟩ := grow_bind_ok.mp rest
  have empty : growth.constituents = [] := by rw [constituents, frame]; rfl
  -- The frame begins with the opening bracket, and an operand may follow it.
  have opens : (require (.sign .leftBracket)).Writes False (some symbol) growth.constituents
      fun _ _ after => after = [.token (.sign .leftBracket)] :=
    writes_require_seen bracket (by rw [empty]; rfl)
  obtain ⟨formed, _, first⟩ :=
    grow_writes_flawed opens sees (by simp [Each, frame]) opening
  have forms : Rule.FormsIn False (.expression 0) opened middle :=
    Rule.formsIn_of_grow (fun rule _ _ => Grammar.writes_body rule) (grow_call_ok.mp called)
      False.elim
  obtain ⟨formed, operand, isOperand, second⟩ := forms formed none (sees_none _) trivial
  -- The operand takes all that continues it, and then a look tells whether a colon follows.
  have takes := (Rule.heeds_grow limit depth).expression (grow_call_ok.mp called)
  obtain ⟨found, looked, colon, rest⟩ := grow_bind_ok.mp upper
  obtain ⟨next, seen, look, matched⟩ := grow_accept_ok colon
  obtain ⟨isNext, -, -⟩ := look_ok look
  obtain ⟨same, -⟩ := constituents_look look
  have formed := formed.look .leaf look
  have before : seen.constituents = .token (.sign .leftBracket) :: operand := by
    rw [same, second, first]
    rfl
  have closes (before : List Constituent) : (require (.sign .rightBracket)).Writes False none before
      fun _ _ after => ∃ close, Form.Needed False (.sign .rightBracket) close
        ∧ after = before ++ close :=
    writes_require fun _ close needed => ⟨close, needed, rfl⟩
  obtain ⟨rfl, isColon, bumped⟩ | ⟨rfl, rfl⟩ := matched
  · obtain ⟨mark, -, fits, marked⟩ := constituents_bump ((sees_none _).look look).2 bumped
    obtain rfl : mark = next := fits next rfl
    rw [before, isColon] at marked
    -- Whatever is read after the colon comes after it in the frame.
    have further : (do
        if ← nextIs (.sign .rightBracket) then pure () else call (.expression 0)
          : Parser Unit).Writes False none looked.constituents
        fun _ _ after => ∃ upper, after = looked.constituents ++ upper := by
      simp only [writes_bind, writes_nextIs, writes_ite, writes_pure]
      refine fun _ _ _ => ⟨fun _ => ⟨[], (List.append_nil _).symm⟩, fun _ => ?_⟩
      exact writes_call_plain trivial trivial fun upper _ => ⟨upper, rfl⟩
    obtain ⟨formed, -, upper, more⟩ :=
      grow_writes_flawed further (sees_none _) (formed.bump .leaf bumped) rest
    -- At last the closing bracket is read or noted as missing.
    obtain ⟨-, -, close, -, ends⟩ := grow_writes_flawed (closes _) (sees_none _) formed closing
    refine ⟨operand ++ .token (.sign .colon) :: (upper ++ close), ?_, .inr ⟨operand, _, rfl, ?_⟩⟩
    · rw [ends, more, marked]
      simp
    · exact foreign_of_takesOperand takes second (isNext ▸ isColon)
  · -- Without a colon the frame holds the operand and the bracket, neither of which is one.
    obtain ⟨-, rfl⟩ := grow_pure_ok.mp rest
    obtain ⟨-, -, close, isClose, ends⟩ :=
      grow_writes_flawed (closes _) (sees_none _) formed closing
    refine ⟨operand ++ close, by rw [ends, before]; rfl, .inl fun member => ?_⟩
    rcases List.mem_append.mp member with among | among
    · cases Form.eq_semicolon_of_operand isOperand among
    · cases Form.eq_of_needed isClose among

/-- An index that is made is sliced. -/
theorem grow_indexed_sliced (keeps : KeepsSliced limit depth) (each : growth.Each Tree.Sliced)
    {symbol : Symbol} (sees : growth.Sees (some symbol))
    (bracket : symbol.kind = .sign .leftBracket) {value : Unit}
    (grown : Grammar.indexed.grow (fun rule => rule.grow limit depth) limit growth
      = .ok (value, after)) : after.Each Tree.Sliced := by
  obtain ⟨last, body, rfl⟩ := grow_wrapIn_ok grown
  -- All that is read inside of the brackets stays sliced, as it is not an index itself.
  have inside : last.Each Tree.Sliced := by
    refine keeps.unindexed ?_ (by simp [Each, enter]) body
    simp [Grammar.sliceEnd, require, expect, Grammar.unindexed, Mistake.TellsOf]
  obtain ⟨inner, frame, sliced⟩ := constituents_indexed sees.enter bracket rfl body
  -- What the index is made around comes before its bracket.
  have whole : Tree.constituents (growth.leave last).siblings.reverse
      = growth.constituents ++ .token (.sign .leftBracket) :: inner :=
    (constituents_leave growth last).trans (frame ▸ rfl)
  refine .close (.node (fun child member => ?_) fun _ => whole ▸ ?_)
  · exact each.leave inside child (List.mem_reverse.mp member)
  · rcases sliced with none | ⟨lower, upper, rfl, foreign⟩
    · exact .whole none
    · exact .slice foreign

/-- The operators after an operand keep trees sliced. -/
theorem grow_operators_sliced (keeps : KeepsSliced limit depth) {operand : NodeKind} {power : Nat}
    {value : Unit} (each : growth.Each Tree.Sliced)
    (grown : (Grammar.operators operand power).grow (fun rule => rule.grow limit depth) limit growth
      = .ok (value, after)) : after.Each Tree.Sliced := by
  obtain ⟨symbol, looked, look, rest⟩ := grow_bind_ok.mp grown
  have each := each.look .leaf look
  obtain ⟨-, sees⟩ := (sees_none _).look look
  have spec := symbol.kind.continuation_spec operand
  dsimp only at rest
  -- Only an index is made as one here, and after it further operators may stand.
  cases continues : symbol.kind.continuation operand with
  | index =>
    rw [continues] at rest spec
    obtain ⟨_, between, made, called⟩ := grow_bind_ok.mp rest
    exact keeps _ _ _ (grow_call_ok.mp called) (grow_indexed_sliced keeps each sees spec made)
  | infixed left right form =>
    rw [continues] at rest
    -- A binary operator makes a node of the kind of its operator, which is not an index.
    obtain ⟨-, forms⟩ := TokenKind.continuation_infixed continues
    refine keeps.unindexed ?_ each rest
    cases form with
    | binary made =>
      have isInfix := TokenKind.isInfix_of_infixNode? (TokenKind.infixForm?_binary forms).1
      have other : made ≠ .index := by
        rintro rfl
        cases isInfix
      simp [Grammar.infixed, Grammar.rightOperand, Grammar.unindexed, other]
    | _ =>
      simp [Grammar.infixed, Grammar.branches, Grammar.upperEnd, Grammar.adjoined,
        Grammar.unindexed, expect, Mistake.TellsOf]
  | access made =>
    rw [continues] at rest
    -- An access makes a property or an arrow.
    have other := access_ne_index continues
    refine keeps.unindexed ?_ each rest
    simp [Grammar.rightOperand, Grammar.unindexed, other]
  | _ =>
    rw [continues] at rest
    refine keeps.unindexed ?_ each rest
    simp [Grammar.unindexed, Grammar.application, Grammar.adjoined, Grammar.group,
      Grammar.acceptType, Grammar.argumentList, Grammar.expressionStatement, require, expect,
      Mistake.TellsOf]

end

/-- Every rule keeps trees sliced, however deeply its calls may nest. -/
theorem Rule.sliced_grow (limit : Option Nat) (depth : Nat) : KeepsSliced limit depth := by
  -- Calls nest less deeply than the rule that makes them.
  induction depth with
  | zero => exact fun _ _ _ => (nomatch ·)
  | succ depth ih =>
    intro rule growth after grown each
    have grown := Rule.grow_ok.mp grown
    -- The operators make indices themselves, and any other rule leaves that to the rules it calls.
    cases rule with
    | operators operand power => exact grow_operators_sliced ih each grown
    | _ =>
      refine ih.unindexed (Grammar.obeys_unindexed ?_) each grown
      trivial

/-- The tree that tokens grow to is sliced. -/
theorem growWithin_sliced {limit : Option Nat} {tokens : List Token} {parsed : Parsed}
    (grown : growWithin limit tokens = .ok parsed) : parsed.tree.Sliced := by
  obtain ⟨growth, program, -, root⟩ := growWithin_ok grown
  have sliced : growth.Each Tree.Sliced :=
    Rule.sliced_grow limit _ _ _ _ program (by simp [Growth.Each, Growth.initial])
  -- Trivia at the end of the text adds leaves, which are sliced.
  obtain ⟨trivia, siblings, passed⟩ := growth.adds_eatTrivia
  have whole : growth.eatTrivia.Each Tree.Sliced := sliced.adds
    ⟨trivia, siblings, fun tree member => Growth.Each.of_isTrivia .leaf (passed tree member)⟩
  rw [root]
  -- The root is no index.
  refine .node (fun child member => whole child (List.mem_reverse.mp member)) ?_
  rintro ⟨⟩

end Dxl
