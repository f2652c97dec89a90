import Dxl.Proofs.Grammar.Choices
import Dxl.Proofs.Grammar.Supply

/-! Closing: the first closing parenthesis of a choice is the one that its header ends with. -/

namespace Dxl

namespace Parser

variable {call : Rule → Growth → Except Failure Growth} {limit : Option Nat}
  {growth between looked after inner : Growth} {α β : Type}

/-- Once the first of two parsers has come to an end, the second one goes on. -/
theorem grow_bind_of_ok {first : Parser α} {value : α}
    (grown : first.grow call limit growth = .ok (value, between)) (next : α → Parser β) :
    (first >>= next).grow call limit growth = (next value).grow call limit between := by
  rw [show first >>= next = first.andThen next from rfl, grow_andThen, grown]
  rfl

/-- A token is read that was looked for and seen. -/
theorem grow_accept_of_look {kind : TokenKind} {symbol : Symbol}
    (look : growth.look limit = .ok (symbol, looked)) (seen : symbol.kind = kind)
    (bumped : looked.bump = .ok after) :
    (accept kind).grow call limit growth = .ok (true, after) := by
  -- The test comes first and is passed, so the token is consumed next.
  have tested : (nextIs kind).grow call limit growth = .ok (true, looked) :=
    grow_bind_ok.mpr ⟨symbol, looked, look, grow_pure_ok.mpr ⟨by simp [seen], rfl⟩⟩
  have read : bump.grow call limit looked = .ok ((), after) := grow_bump_ok.mpr bumped
  rw [accept, grow_bind_of_ok tested, if_pos rfl, grow_bind_of_ok read]
  rfl

/-- A token that is needed is there just if a look at it sees it. -/
theorem grow_expect_true_iff {kind : TokenKind} :
    (expect kind).grow call limit growth = .ok (true, after)
      ↔ ∃ symbol looked, growth.look limit = .ok (symbol, looked) ∧ symbol.kind = kind
        ∧ looked.bump = .ok after := by
  constructor
  · -- Only the branch that accepted the token returns that it is there.
    intro grown
    obtain ⟨accepted, between, tested, rest⟩ := grow_bind_ok.mp grown
    split at rest
    · rename_i matched
      obtain ⟨-, rfl⟩ := grow_pure_ok.mp rest
      obtain ⟨symbol, looked, look, ⟨-, seen, bumped⟩ | ⟨missed, -⟩⟩ := grow_accept_ok tested
      · exact ⟨symbol, looked, look, seen, bumped⟩
      · rw [missed] at matched
        cases matched
    · obtain ⟨_, noted, missed, returned⟩ := grow_bind_ok.mp rest
      cases (grow_pure_ok.mp returned).1
  · -- The other way, a token that is accepted is returned as it is.
    rintro ⟨symbol, looked, look, seen, bumped⟩
    rw [expect, grow_bind_of_ok (grow_accept_of_look look seen bumped), if_pos rfl]
    rfl

/-- A token that is needed and missing is looked for twice, and a mistake is noted. -/
theorem grow_expect_false_ok {kind : TokenKind}
    (grown : (expect kind).grow call limit growth = .ok (false, after)) :
    ∃ symbol looked next again, growth.look limit = .ok (symbol, looked)
      ∧ looked.look limit = .ok (next, again)
      ∧ after = again.addMistake (.expected kind next.kind) := by
  obtain ⟨accepted, between, tested, rest⟩ := grow_bind_ok.mp grown
  -- A token that was accepted would have been there.
  split at rest
  · cases (grow_pure_ok.mp rest).1
  · rename_i missed
    obtain ⟨symbol, looked, look, ⟨found, -⟩ | ⟨-, rfl⟩⟩ := grow_accept_ok tested
    · exact absurd found missed
    · -- The mistake names what comes in place of the token, which takes a second look.
      obtain ⟨_, noted, reported, ended⟩ := grow_bind_ok.mp rest
      obtain ⟨-, rfl⟩ := grow_pure_ok.mp ended
      obtain ⟨next, again, lookAgain, reported⟩ := grow_bind_ok.mp reported
      cases reported
      exact ⟨symbol, looked, next, again, look, lookAgain, rfl⟩

/-- A node of one kind is closed around what its body leaves. -/
theorem grow_nodeOf_of_ok {kind : NodeKind} {body : Parser Unit}
    (grown : body.grow call limit growth.enter = .ok ((), inner)) :
    (nodeOf kind body).grow call limit growth = .ok ((), growth.leave (inner.close kind)) := by
  have ended : (do body; return kind : Parser NodeKind).grow call limit growth.enter
      = .ok (kind, inner) := by
    rw [grow_bind_of_ok grown]
    rfl
  rw [nodeOf, grow_bind_of_ok (grow_node_ok.mpr ⟨inner, ended, rfl⟩)]
  rfl

end Parser

namespace Growth

variable {growth after : Growth} {limit : Option Nat}

/-- A frame that begins with no node begins as before or with a leaf once leaves are read. -/
theorem opening_foldl_addLeaf_of_ne (read : List Token) (plain : growth.opening ≠ .node) :
    (read.foldl addLeaf growth).opening = growth.opening
      ∨ (read.foldl addLeaf growth).opening = .other := by
  rw [opening_foldl_addLeaf]
  split
  · -- Without any leaf, the frame begins as before.
    left
    cases growth.opening <;> rfl
  · exact .inr (Opening.orElse_other plain)

/-- A frame that begins with no node begins as before or with a leaf after a look. -/
theorem opening_look {symbol : Symbol} (looked : growth.look limit = .ok (symbol, after))
    (plain : growth.opening ≠ .node) :
    after.opening = growth.opening ∨ after.opening = .other := by
  obtain ⟨token, rest, -, -, rfl, rfl⟩ := exists_of_look looked
  exact opening_foldl_addLeaf_of_ne _ plain

/-- A frame that begins with no node does not come to do so by a look. -/
theorem opening_look_ne {symbol : Symbol} (looked : growth.look limit = .ok (symbol, after))
    (plain : growth.opening ≠ .node) : after.opening ≠ .node := by
  rcases opening_look looked plain with same | other
  · exact same ▸ plain
  · simp [other]

/-- A frame that begins with no node begins with a leaf once a token is read. -/
theorem opening_bump (bumped : growth.bump = .ok after) (plain : growth.opening ≠ .node) :
    after.opening = .other := by
  obtain ⟨token, rest, -, -, rfl⟩ := exists_of_bump bumped
  refine Opening.orElse_other ?_
  -- Trivia before the token may already be what the frame begins with.
  rcases opening_foldl_addLeaf_of_ne (growth.rest.takeWhile (·.kind.isTrivia)) plain
    with same | other
  · exact fun node => plain (same.symm.trans node)
  · intro node
    cases other.symm.trans node

/-- Nothing need be added. -/
theorem Adds.refl (growth : Growth) (property : Tree → Prop) : growth.Adds growth property :=
  ⟨[], rfl, by simp⟩

/-- A frame that begins with something else than a node still does, and is only added to. -/
def Grows (growth after : Growth) : Prop :=
  growth.opening = .other → after.opening = .other ∧ growth.Adds after fun _ => True

/-- What joins a frame that begins with something else than a node is added to it. -/
theorem grows_leave (growth inner : Growth) : growth.Grows (growth.leave inner) := by
  intro begun
  exact ⟨by simp [leave, begun, Opening.orElse], inner.siblings, rfl, by simp⟩

/-- Every step only adds to a frame that begins with no node, as nothing in it can be wrapped. -/
theorem stepwise_grows : Stepwise Grows where
  stay growth begun := ⟨begun, .refl growth _⟩
  further first second begun := by
    obtain ⟨still, early⟩ := first begun
    obtain ⟨last, late⟩ := second still
    exact ⟨last, early.trans late⟩
  look looked begun := by
    obtain ⟨-, -, trivia, siblings, -⟩ := look_ok looked
    refine ⟨?_, trivia, siblings, by simp⟩
    rcases opening_look looked (by simp [begun]) with same | other
    · exact same.trans begun
    · exact other
  bump bumped begun := by
    obtain ⟨token, trivia, -, -, siblings, -⟩ := bump_ok bumped
    exact ⟨opening_bump bumped (by simp [begun]), token.leaf :: trivia, siblings, by simp⟩
  report growth _ begun := ⟨Opening.orElse_other (by simp [begun]), .refl growth _⟩
  node _ _ := grows_leave _ _
  frame _ := grows_leave _ _
  -- Wrapping needs a frame that begins with a node.
  wrap _ operand _ begun := by
    rw [begun] at operand
    cases operand

end Growth

/-- A parser only adds to a frame that begins with no node, if the rules it calls do. -/
theorem Parser.grow_adds {call : Rule → Growth → Except Failure Growth} {limit : Option Nat}
    {α : Type} {parser : Parser α} {growth after : Growth} {value : α}
    (grown : parser.grow call limit growth = .ok (value, after)) (begun : growth.opening = .other)
    (calls : ∀ {rule growth after}, call rule growth = .ok after → growth.Grows after) :
    after.opening = .other ∧ growth.Adds after fun _ => True :=
  Growth.stepwise_grows.grow calls grown begun

/-- A rule only adds to a frame that begins with no node. -/
theorem Rule.grow_adds {limit : Option Nat} {rule : Rule} {depth : Nat} {growth after : Growth}
    (grown : rule.grow limit depth growth = .ok after) : growth.Grows after :=
  Growth.stepwise_grows.grow_rule grown

namespace Grammar

open Dxl.Parser

/-- The header of a choice up to its closing parenthesis, which is looked at; tells whether a parenthesis was opened. -/
def header : Parser (Bool × Symbol) := do
  require (.keyword .ifWord)
  let opened ← accept (.sign .leftParen)
  expressionStatement
  return (opened, ← look)

/-- A header makes no choice by itself. -/
theorem obeys_making_header : header.Obeys (making (· ≠ .ifStmt)) () fun _ _ => True := by
  simp [header, expressionStatement, require, expect]

variable {call : Rule → Growth → Except Failure Growth} {limit : Option Nat}
  {growth looked closed : Growth} {symbol : Symbol}

/-- Once its header is closed, a choice goes on with its body. -/
theorem grow_choice_of_header
    (grown : header.grow call limit growth = .ok ((true, symbol), looked))
    (seen : symbol.kind = .sign .rightParen) (bumped : looked.bump = .ok closed) :
    choice.grow call limit growth = conditionalBody.grow call limit closed := by
  obtain ⟨_, named, keyword, rest⟩ := grow_bind_ok.mp grown
  obtain ⟨opened, within, parenthesis, rest⟩ := grow_bind_ok.mp rest
  obtain ⟨_, condition, middle, rest⟩ := grow_bind_ok.mp rest
  obtain ⟨next, last, look, returned⟩ := grow_bind_ok.mp rest
  -- The header returns whether it was opened and the token it saw.
  obtain ⟨same, rfl⟩ := grow_pure_ok.mp returned
  obtain ⟨rfl, rfl⟩ := Prod.mk.inj same
  -- A choice runs the same steps, and then expects the token that was seen.
  rw [choice, grow_bind_of_ok keyword, choiceRest, grow_bind_of_ok parenthesis, if_pos rfl,
    grow_bind_of_ok middle,
    grow_bind_of_ok (grow_expect_true_iff.mpr ⟨next, last, look, seen, bumped⟩), if_pos rfl]

end Grammar

namespace Growth

/-- Trees are added to the frame, of which none is a closing parenthesis. -/
abbrev AddsOpen (growth after : Growth) : Prop :=
  growth.Adds after fun tree => tree.kind ≠ .token (.sign .rightParen)

variable {growth between after : Growth} {limit : Option Nat} {symbol : Symbol}

/-- Trivia is no closing parenthesis. -/
theorem kind_ne_of_isTrivia {tree : Tree} (trivia : tree.isTrivia = true) :
    tree.kind ≠ .token (.sign .rightParen) := by
  -- A closing parenthesis is a token, and it is not trivia.
  rcases tree with ⟨kind | kind, text⟩ | ⟨kind, children⟩
  · rintro ⟨⟩
    cases trivia
  · cases trivia
  · cases trivia

/-- A look adds no closing parenthesis. -/
theorem addsOpen_look (looked : growth.look limit = .ok (symbol, after)) :
    growth.AddsOpen after := by
  obtain ⟨-, -, trivia, siblings, passed⟩ := look_ok looked
  exact ⟨trivia, siblings, fun tree member => kind_ne_of_isTrivia (passed tree member)⟩

/-- What is read after a look is the token that was seen, and trivia before it. -/
theorem bump_ok_of_look (looked : growth.look limit = .ok (symbol, between))
    (bumped : between.bump = .ok after) :
    ∃ (token : Token) (trivia : List Tree), token.symbol = symbol
      ∧ after.siblings = token.leaf :: (trivia ++ between.siblings)
      ∧ ∀ tree ∈ trivia, tree.isTrivia = true := by
  obtain ⟨seen, next, -⟩ := look_ok looked
  obtain ⟨token, trivia, same, -, siblings, passed⟩ := bump_ok bumped
  exact ⟨token, trivia, same.trans (next.trans seen.symm), siblings, passed⟩

/-- Another token that was looked at and is read is no closing parenthesis. -/
theorem addsOpen_bump (looked : growth.look limit = .ok (symbol, between))
    (other : symbol.kind ≠ .sign .rightParen) (bumped : between.bump = .ok after) :
    between.AddsOpen after := by
  obtain ⟨token, trivia, rfl, siblings, passed⟩ := bump_ok_of_look looked bumped
  refine ⟨token.leaf :: trivia, siblings, fun tree member => ?_⟩
  rcases List.mem_cons.mp member with rfl | earlier
  · simpa [Token.leaf, Tree.kind, Token.symbol] using other
  · exact kind_ne_of_isTrivia (passed tree earlier)

end Growth

namespace Parser

open Dxl.Growth

variable {call : Rule → Growth → Except Failure Growth} {limit : Option Nat}
  {growth after : Growth} {kind : TokenKind} {found : Bool} {value : Unit}

/-- Another token that is accepted is no closing parenthesis. -/
theorem addsOpen_accept (other : kind ≠ .sign .rightParen)
    (grown : (accept kind).grow call limit growth = .ok (found, after)) :
    growth.AddsOpen after := by
  obtain ⟨symbol, looked, look, ⟨-, seen, bumped⟩ | ⟨-, rfl⟩⟩ := grow_accept_ok grown
  · exact (addsOpen_look look).trans (addsOpen_bump look (seen ▸ other) bumped)
  · exact addsOpen_look look

/-- A token that is needed and missing adds no closing parenthesis. -/
theorem addsOpen_expect_false
    (grown : (expect kind).grow call limit growth = .ok (false, after)) :
    growth.AddsOpen after := by
  obtain ⟨symbol, looked, next, again, look, lookAgain, rfl⟩ := grow_expect_false_ok grown
  obtain ⟨trivia, siblings, others⟩ := (addsOpen_look look).trans (addsOpen_look lookAgain)
  exact ⟨trivia, siblings, others⟩

/-- A frame begins with a token that is needed, or with the mistake that it is missing. -/
theorem grow_require_ok (other : kind ≠ .sign .rightParen)
    (grown : (require kind).grow call limit growth = .ok (value, after))
    (plain : growth.opening ≠ .node) : growth.AddsOpen after ∧ after.opening = .other := by
  obtain ⟨found, between, expected, returned⟩ := grow_bind_ok.mp grown
  obtain ⟨-, rfl⟩ := grow_pure_ok.mp returned
  cases found with
  -- The token that was consumed is what the frame begins with.
  | true =>
    obtain ⟨symbol, looked, look, seen, bumped⟩ := grow_expect_true_iff.mp expected
    have accepted : (accept kind).grow call limit growth = .ok (true, between) :=
      grow_accept_of_look look seen bumped
    have added := addsOpen_accept other accepted
    exact ⟨added, opening_bump bumped (opening_look_ne look plain)⟩
  -- The mistake is recorded in the frame, which counts as its beginning.
  | false =>
    have added := addsOpen_expect_false expected
    obtain ⟨symbol, looked, next, again, look, lookAgain, rfl⟩ := grow_expect_false_ok expected
    exact ⟨added, Opening.orElse_other (opening_look_ne lookAgain (opening_look_ne look plain))⟩

/-- An expression is added as a node. -/
theorem addsOpen_expressionStatement
    (grown : Grammar.expressionStatement.grow call limit growth = .ok (value, after)) :
    growth.AddsOpen after := by
  obtain ⟨inner, -, rfl⟩ := grow_nodeOf_ok grown
  exact ⟨_, rfl, by simp [close, Tree.kind]⟩

end Parser

/-- What comes before the first closing parenthesis in a row is determined, and so is that parenthesis. -/
theorem eq_of_first {left right before after : List Tree} {tree other : Tree}
    (first : ∀ tree ∈ left, tree.kind ≠ .token (.sign .rightParen))
    (closes : tree.kind = .token (.sign .rightParen))
    (firstOther : ∀ tree ∈ before, tree.kind ≠ .token (.sign .rightParen))
    (closesOther : other.kind = .token (.sign .rightParen))
    (same : left ++ tree :: right = before ++ other :: after) : left = before ∧ tree = other := by
  let isOther := fun tree : Tree => decide (tree.kind ≠ .token (.sign .rightParen))
  have stops : isOther tree = false := by simp [isOther, closes]
  have stopsOther : isOther other = false := by simp [isOther, closesOther]
  -- Both rows begin with the longest part that has no closing parenthesis.
  have fronts := congrArg (List.takeWhile isOther) same
  rw [takeWhile_append_cons isOther stops, takeWhile_append_cons isOther stopsOther,
    List.takeWhile_eq_self_iff.mpr (by simpa [isOther] using first),
    List.takeWhile_eq_self_iff.mpr (by simpa [isOther] using firstOther)] at fronts
  -- What comes after equal beginnings is equal as well.
  subst fronts
  rw [List.append_cancel_left_eq, List.cons.injEq] at same
  exact ⟨rfl, same.1⟩

namespace Grammar

open Dxl.Parser Dxl.Growth

variable {limit : Option Nat} {depth : Nat} {growth inner looked closed : Growth} {symbol : Symbol}

/-- A choice that holds a closing parenthesis has come to one after its condition, and none is held before it. -/
theorem exists_header_of_closing
    (grown : choice.grow (fun rule => rule.grow limit depth) limit growth.enter = .ok ((), inner))
    (closing : ¬ growth.enter.AddsOpen inner) :
    ∃ (condition looked closed : Growth) (symbol : Symbol),
      header.grow (fun rule => rule.grow limit depth) limit growth.enter
          = .ok ((true, symbol), looked)
        ∧ condition.look limit = .ok (symbol, looked) ∧ symbol.kind = .sign .rightParen
        ∧ looked.bump = .ok closed
        ∧ conditionalBody.grow (fun rule => rule.grow limit depth) limit closed = .ok ((), inner)
        ∧ growth.enter.AddsOpen looked ∧ closed.Adds inner fun _ => True := by
  obtain ⟨_, named, keyword, rest⟩ := grow_bind_ok.mp grown
  obtain ⟨openNamed, begun⟩ := grow_require_ok (by decide) keyword (by simp [enter])
  obtain ⟨opened, within, parenthesis, rest⟩ := grow_bind_ok.mp rest
  have openWithin := openNamed.trans (addsOpen_accept (by decide) parenthesis)
  split at rest
  · rename_i isOpened
    obtain ⟨_, condition, middle, rest⟩ := grow_bind_ok.mp rest
    obtain ⟨isClosed, closed, expected, rest⟩ := grow_bind_ok.mp rest
    have openCondition := openWithin.trans (addsOpen_expressionStatement middle)
    split at rest
    · rename_i isTrue
      obtain ⟨symbol, looked, look, seen, bumped⟩ := grow_expect_true_iff.mp (isTrue ▸ expected)
      have looking : Parser.look.grow (fun rule => rule.grow limit depth) limit condition
          = .ok (symbol, looked) := look
      have read : header.grow (fun rule => rule.grow limit depth) limit growth.enter
          = .ok ((true, symbol), looked) := by
        rw [header, grow_bind_of_ok keyword, grow_bind_of_ok (isOpened ▸ parenthesis),
          grow_bind_of_ok middle, grow_bind_of_ok looking]
        rfl
      -- The frame begins with the keyword or its mistake, so all the rest is only added to it.
      have begunWithin := (grow_adds parenthesis begun fun called => Rule.grow_adds called).1
      have begunCondition := (grow_adds middle begunWithin fun called => Rule.grow_adds called).1
      have begunClosed := (grow_adds expected begunCondition fun called => Rule.grow_adds called).1
      exact ⟨condition, looked, closed, symbol, read, look, seen, bumped, rest,
        openCondition.trans (addsOpen_look look),
        (grow_adds rest begunClosed fun called => Rule.grow_adds called).2⟩
    · -- Without the parenthesis nothing more is read.
      rename_i isFalse
      obtain ⟨-, rfl⟩ := grow_pure_ok.mp rest
      rw [Bool.not_eq_true] at isFalse
      exact absurd (openCondition.trans (addsOpen_expect_false (isFalse ▸ expected))) closing
  · -- A condition without parentheses is followed by another expression at most.
    obtain ⟨_, condition, middle, rest⟩ := grow_bind_ok.mp rest
    obtain ⟨hasThen, between, then', rest⟩ := grow_bind_ok.mp rest
    have openBetween := (openWithin.trans (addsOpen_expressionStatement middle)).trans
      (addsOpen_accept (by decide) then')
    split at rest
    · exact absurd (openBetween.trans (addsOpen_expressionStatement rest)) closing
    · obtain ⟨-, rfl⟩ := grow_pure_ok.mp rest
      exact absurd openBetween closing

/-- The trees of a frame stand where they were read when the header of a choice is read up to its parenthesis, and still do after the parenthesis. -/
theorem placed_header
    (read : header.grow (fun rule => rule.grow limit depth) limit growth.enter
      = .ok ((true, symbol), looked)) (bumped : looked.bump = .ok closed) :
    growth.offset + total (looked.siblings.reverse.map Tree.width) = looked.offset
      ∧ growth.offset + total (closed.siblings.reverse.map Tree.width) = closed.offset := by
  have spares : growth.enter.Spares closed.offset looked :=
    (spares_grow read obeys_making_header fun called => Rule.spares_grow called).2
  -- The header makes no choice, so its trees are placed up to the parenthesis.
  have early := (Paces.bump bumped).offset_le
  have spread := spares.spares (.inl early) growth.offset (.enter growth)
  exact ⟨spread.placed, (spread.bump (elsewhere_leaf _) bumped).placed⟩

/-- The first closing parenthesis of a choice is the one that closes its header. -/
theorem exists_header
    (grown : choice.grow (fun rule => rule.grow limit depth) limit growth.enter = .ok ((), inner))
    {place : Nat} (closes : ClosesChoice place
      (.node (.node .ifStmt) inner.siblings.reverse, growth.offset)) :
    ∃ symbol looked closed, header.grow (fun rule => rule.grow limit depth) limit growth.enter
        = .ok ((true, symbol), looked)
      ∧ symbol.kind = .sign .rightParen ∧ looked.bump = .ok closed
      ∧ conditionalBody.grow (fun rule => rule.grow limit depth) limit closed = .ok ((), inner)
      ∧ looked.offset ≤ place ∧ place < closed.offset := by
  obtain ⟨before, text, after, same, solid, first, reach⟩ := closes
  simp only [Tree.node.injEq, true_and] at same
  -- There is a closing parenthesis among what was added, and it was not added by accident.
  have closing : ¬ growth.enter.AddsOpen inner := by
    rintro ⟨added, siblings, others⟩
    have member : Tree.leaf (.token (.sign .rightParen)) text ∈ inner.siblings := by
      rw [← List.mem_reverse, same]
      simp
    rw [siblings] at member
    simp only [enter, List.append_nil] at member
    exact others _ member rfl
  obtain ⟨condition, looked, closed, symbol, read, look, seen, bumped, body,
    ⟨added, siblingsLooked, others⟩, later, siblings, -⟩ := exists_header_of_closing grown closing
  refine ⟨symbol, looked, closed, read, seen, bumped, body, ?_⟩
  obtain ⟨token, trivia, rfl, siblingsClosed, passed⟩ := bump_ok_of_look look bumped
  simp only [enter, List.append_nil] at siblingsLooked
  -- The children are what was read before the parenthesis, the parenthesis, and what came later.
  have children : inner.siblings.reverse
      = (looked.siblings.reverse ++ trivia.reverse) ++ token.leaf :: later.reverse := by
    simp [siblings, siblingsClosed]
  have closesToken : token.leaf.kind = .token (.sign .rightParen) := congrArg Kind.token seen
  have earlier : ∀ tree ∈ looked.siblings.reverse ++ trivia.reverse,
      tree.kind ≠ .token (.sign .rightParen) := by
    intro tree member
    rcases List.mem_append.mp member with read | between
    · exact others tree (siblingsLooked ▸ List.mem_reverse.mp read)
    · exact kind_ne_of_isTrivia (passed tree (List.mem_reverse.mp between))
  obtain ⟨rfl, leaf⟩ := eq_of_first first rfl earlier closesToken (same.symm.trans children)
  -- The offsets are those of the trees read so far.
  obtain ⟨placed, placedClosed⟩ := placed_header read bumped
  have length : 0 < token.leaf.width := by
    rw [← leaf]
    show 0 < text.utf8ByteSize
    rw [Nat.pos_iff_ne_zero, ne_eq, String.utf8ByteSize_eq_zero_iff]
    exact solid
  simp only [siblingsClosed, List.reverse_cons, List.reverse_append, List.map_append,
    List.map_singleton, total_append, total_cons, total_nil] at placedClosed reach
  omega

end Grammar

end Dxl
