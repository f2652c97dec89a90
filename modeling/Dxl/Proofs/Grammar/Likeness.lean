import Dxl.Proofs.Grammar.Conduct
import Dxl.Proofs.Grammar.Symbols
import Dxl.Proofs.Token.Partition
import Dxl.Proofs.Tree.Shape

/-! Likeness: tokens that differ only in their texts and in the trivia between them grow to trees that differ only there. -/

namespace Dxl

namespace Tree

/-- A tree without trivia and without the texts of its leaves. -/
def skeleton : Tree → Tree :=
  fold (fun kind _ => .leaf kind "") fun kind children =>
    .node kind (children.filter fun child => !child.isTrivia)

/-- The skeletons of those trees that are no trivia. -/
def skeletons (trees : List Tree) : List Tree :=
  (trees.filter fun tree => !tree.isTrivia).map skeleton

/-- The skeleton of a leaf has its kind. -/
theorem skeleton_leaf (kind : Kind) (text : String) :
    (leaf kind text).skeleton = .leaf kind "" := rfl

/-- A tree is trivia just if its skeleton is. -/
theorem isTrivia_skeleton (tree : Tree) : tree.skeleton.isTrivia = tree.isTrivia := by
  cases tree with
  | leaf kind text => cases kind <;> rfl
  | node kind children => rw [skeleton, fold_node]; rfl

/-- The skeleton of a node holds the skeletons of its children. -/
theorem skeleton_node (kind : Kind) (children : List Tree) :
    (node kind children).skeleton = .node kind (skeletons children) := by
  rw [skeleton, fold_node, ← skeleton, skeletons, List.filter_map]
  simp only [Function.comp_def, isTrivia_skeleton]

/-- The skeleton of a tree that is no trivia comes before those that follow it. -/
theorem skeletons_cons {tree : Tree} (proper : tree.isTrivia = false) (trees : List Tree) :
    skeletons (tree :: trees) = tree.skeleton :: skeletons trees := by
  simp [skeletons, proper]

/-- Skeletons of two rows of trees follow each other. -/
theorem skeletons_append (left right : List Tree) :
    skeletons (left ++ right) = skeletons left ++ skeletons right := by
  simp [skeletons]

/-- Skeletons come in the order of their trees. -/
theorem skeletons_reverse (trees : List Tree) : skeletons trees.reverse = (skeletons trees).reverse := by
  simp [skeletons]

end Tree

/-- Two remarks say the same of tokens that correspond to each other. -/
structure Remark.Corresponds (pairs : List (Token × Token)) (remark other : Remark) : Prop where
  severity : remark.severity = other.severity
  message : remark.message = other.message
  place : ∃ pair ∈ pairs, remark.offset = pair.1.start ∧ other.offset = pair.2.start

/-- Two computations end in related ways or are stuck at tokens of the same kind, unless one of them fails for another reason. -/
inductive Concur {α β : Type} (related : α → β → Prop) : Except Failure α → Except Failure β → Prop
  | ok {left : α} {right : β} : related left right → Concur related (.ok left) (.ok right)
  | stuck (kind : TokenKind) : Concur related (.error (.stuck kind)) (.error (.stuck kind))
  | leftFails {failure : Failure} {right : Except Failure β} :
    (∀ kind, failure ≠ .stuck kind) → Concur related (.error failure) right
  | rightFails {failure : Failure} {left : Except Failure α} :
    (∀ kind, failure ≠ .stuck kind) → Concur related left (.error failure)

namespace Concur

variable {α β γ δ : Type} {related : α → β → Prop} {mapped : γ → δ → Prop}
  {left : Except Failure α} {right : Except Failure β}

/-- Computations concur if they concur up to some point and from there on. -/
theorem bind {f : α → Except Failure γ} {g : β → Except Failure δ}
    (concur : Concur related left right)
    (preserved : ∀ value other, related value other → Concur mapped (f value) (g other)) :
    Concur mapped (left.bind f) (right.bind g) := by
  cases concur with
  | ok agree => exact preserved _ _ agree
  | stuck kind => exact .stuck kind
  | leftFails different => exact .leftFails different
  | rightFails different => exact .rightFails different

/-- Functions that preserve a relation of what two computations end in preserve that they concur. -/
theorem map {f : α → γ} {g : β → δ} (concur : Concur related left right)
    (preserved : ∀ value other, left = .ok value → right = .ok other → related value other →
      mapped (f value) (g other)) : Concur mapped (left.map f) (right.map g) := by
  cases concur with
  | ok agree => exact .ok (preserved _ _ rfl rfl agree)
  | stuck kind => exact .stuck kind
  | leftFails different => exact .leftFails different
  | rightFails different => exact .rightFails different

/-- Computations that fail only when they are stuck fail alike, or neither of them does. -/
theorem outcomes (concur : Concur related left right)
    (stuck : ∀ failure, left = .error failure → ∃ kind, failure = .stuck kind)
    (stuckOther : ∀ failure, right = .error failure → ∃ kind, failure = .stuck kind) :
    (∃ failure, left = .error failure ∧ right = .error failure)
      ∨ ∃ value other, left = .ok value ∧ right = .ok other ∧ related value other := by
  cases concur with
  | ok agree => exact .inr ⟨_, _, rfl, rfl, agree⟩
  | stuck kind => exact .inl ⟨_, rfl, rfl⟩
  -- Neither side can fail for another reason than being stuck.
  | leftFails different =>
    obtain ⟨kind, same⟩ := stuck _ rfl
    exact absurd same (different kind)
  | rightFails different =>
    obtain ⟨kind, same⟩ := stuckOther _ rfl
    exact absurd same (different kind)

end Concur

namespace Growth

/-- Trivia leaves no trace in the skeletons. -/
theorem skeletons_eatTrivia (growth : Growth) :
    Tree.skeletons growth.eatTrivia.siblings = Tree.skeletons growth.siblings := by
  have nothing : (growth.rest.takeWhile (·.kind.isTrivia)).filter
      (fun token => !token.kind.isTrivia) = [] := by
    rw [List.filter_eq_nil_iff]
    intro token member
    simpa using List.all_eq_true.mp List.all_takeWhile token member
  -- The leaves that are added are those of the trivia, none of which counts.
  rw [eatTrivia, siblings_foldl_addLeaf, Tree.skeletons_append, Tree.skeletons_reverse]
  simp [Tree.skeletons, List.filter_map, Function.comp_def, Token.leaf, Tree.isTrivia, nothing]

/-- The offset stays with the tokens still to be read. -/
theorem adjoining_addLeaf {growth : Growth} {token : Token} {rest : List Token}
    (found : growth.rest = token :: rest) (adjoining : Adjoining growth.offset growth.rest) :
    Adjoining (growth.addLeaf token).offset (growth.addLeaf token).rest := by
  rw [found] at adjoining
  simpa [addLeaf, found, Token.stop, adjoining.1] using adjoining.2

/-- The offset stays with the tokens still to be read when trivia is. -/
theorem adjoining_eatTrivia {growth : Growth} (adjoining : Adjoining growth.offset growth.rest) :
    Adjoining growth.eatTrivia.offset growth.eatTrivia.rest :=
  eatTrivia_induction adjoining fun _ _ _ found _ before => adjoining_addLeaf found before

/-- Two growths look the same to the grammar and have made the same of what they read, up to texts and trivia. -/
structure Alike (pairs : List (Token × Token)) (growth other : Growth) : Prop where
  looks : growth.looks = other.looks
  symbols : symbols growth.rest = symbols other.rest
  paired : (properTokens growth.rest).zip (properTokens other.rest) <:+ pairs
  skeletons : Tree.skeletons growth.siblings = Tree.skeletons other.siblings
  remarks : List.Forall₂ (Remark.Corresponds pairs) growth.report.remarks other.report.remarks
  adjoining : Adjoining growth.offset growth.rest
  adjoiningOther : Adjoining other.offset other.rest

/-- Two sides give the same value, grow alike and have just seen the same, as far as they have seen anything. -/
def Parallel (pairs : List (Token × Token)) {α : Type} (post : α → Option Symbol → Prop)
    (grown counterpart : α × Growth) : Prop :=
  grown.1 = counterpart.1 ∧ Alike pairs grown.2 counterpart.2
    ∧ ∃ after, post grown.1 after ∧ grown.2.Sees after ∧ counterpart.2.Sees after

namespace Alike

variable {pairs : List (Token × Token)} {growth other inner innerOther : Growth}

/-- Nothing is seen differently when trivia is read. -/
theorem eatTrivia (alike : Alike pairs growth other) :
    Alike pairs growth.eatTrivia other.eatTrivia where
  looks := by simpa only [Growth.eatTrivia, looks_foldl_addLeaf] using alike.looks
  symbols := by simpa only [Dxl.symbols, properTokens_eatTrivia] using alike.symbols
  paired := by simpa only [properTokens_eatTrivia] using alike.paired
  skeletons := by simpa only [skeletons_eatTrivia] using alike.skeletons
  remarks := by simpa only [report_eatTrivia] using alike.remarks
  adjoining := adjoining_eatTrivia alike.adjoining
  adjoiningOther := adjoining_eatTrivia alike.adjoiningOther

/-- How often both sides have looked makes no difference if it is the same. -/
theorem withLooks (alike : Alike pairs growth other) (looks : Nat) :
    Alike pairs { growth with looks } { other with looks } :=
  -- Only the number of looks is set, and to the same number.
  ⟨rfl, alike.symbols, alike.paired, alike.skeletons, alike.remarks, alike.adjoining,
    alike.adjoiningOther⟩

/-- Both sides come to the same symbol after trivia, or to the end of their tokens. -/
theorem next (alike : Alike pairs growth other) :
    (growth.eatTrivia.rest = [] ∧ other.eatTrivia.rest = [])
      ∨ ∃ token rest counterpart others,
        growth.eatTrivia.rest = token :: rest ∧ token.kind.isTrivia = false
          ∧ other.eatTrivia.rest = counterpart :: others ∧ counterpart.kind.isTrivia = false
          ∧ token.symbol = counterpart.symbol := by
  have same := alike.eatTrivia.symbols
  -- No trivia is left on either side, so the next token is the first proper one.
  have head : ∀ growth : Growth, growth.eatTrivia.rest = []
      ∨ ∃ token rest, growth.eatTrivia.rest = token :: rest ∧ token.kind.isTrivia = false := by
    intro growth
    cases found : growth.eatTrivia.rest with
    | nil => exact .inl rfl
    | cons token rest =>
      have dropped := growth.rest_eatTrivia ▸ found
      have proper := List.head_dropWhile_not (fun token : Token => token.kind.isTrivia)
        (show growth.rest.dropWhile _ ≠ [] by simp [dropped])
      exact .inr ⟨token, rest, rfl, by simpa [dropped] using proper⟩
  -- Equal rows of symbols are both empty, or begin with the same symbol.
  rcases head growth with left | ⟨token, rest, left, proper⟩ <;>
    rcases head other with right | ⟨counterpart, others, right, properOther⟩
  · exact .inl ⟨left, right⟩
  · rw [left, right, symbols_cons properOther] at same
    cases same
  · rw [left, right, symbols_cons proper] at same
    cases same
  · rw [left, right, symbols_cons proper, symbols_cons properOther, List.cons.injEq] at same
    exact .inr ⟨token, rest, counterpart, others, left, proper, right, properOther, same.1⟩

/-- Both sides see the same token, or are stuck at it. -/
theorem look (alike : Alike pairs growth other) {seen : Option Symbol} (sees : growth.Sees seen)
    {post : Symbol → Option Symbol → Prop}
    (obeys : ∀ symbol : Symbol, symbol.Fits seen → post symbol (some symbol))
    (limit : Option Nat) :
    Concur (Parallel pairs post) (growth.look limit) (other.look limit) := by
  rcases alike.next with ⟨left, right⟩ | ⟨token, rest, counterpart, others, left, proper, right,
    properOther, same⟩
  · -- Without a token the look fails on one side, for another reason than the limit.
    simp only [Growth.look, left]
    exact .leftFails (by simp)
  · -- The limit is reached on both sides or on none, as they have looked equally often.
    have kinds : token.kind = counterpart.kind := congrArg Symbol.kind same
    simp only [Growth.look, left, right, alike.looks, kinds]
    split
    · exact .stuck _
    · refine .ok ⟨same, ?_, some token.symbol, obeys _ (sees.fits left), ?_, ?_⟩
      · simpa only [left, right] using alike.eatTrivia.withLooks (other.looks + 1)
      · rintro _ ⟨⟩
        exact ⟨token, rest, rfl, proper, rfl⟩
      · rintro _ ⟨⟩
        exact ⟨counterpart, others, rfl, properOther, same.symm⟩

/-- The next tokens become leaves that are alike. -/
theorem addLeaf {token counterpart : Token} {rest others : List Token}
    (alike : Alike pairs growth other) (left : growth.rest = token :: rest)
    (proper : token.kind.isTrivia = false) (right : other.rest = counterpart :: others)
    (properOther : counterpart.kind.isTrivia = false) :
    Alike pairs (growth.addLeaf token) (other.addLeaf counterpart) := by
  have restLeft : (growth.addLeaf token).rest = rest := by simp [Growth.addLeaf, left]
  have restRight : (other.addLeaf counterpart).rest = others := by simp [Growth.addLeaf, right]
  -- The first proper token of each side goes.
  have symbols := alike.symbols
  rw [left, right, symbols_cons proper, symbols_cons properOther, List.cons.injEq] at symbols
  have paired := alike.paired
  rw [left, right, properTokens_cons proper, properTokens_cons properOther, List.zip_cons_cons]
    at paired
  refine ⟨alike.looks, ?_, ?_, ?_, alike.remarks, adjoining_addLeaf left alike.adjoining,
    adjoining_addLeaf right alike.adjoiningOther⟩
  · rw [restLeft, restRight]
    exact symbols.2
  · rw [restLeft, restRight]
    exact (List.suffix_cons _ _).trans paired
  · -- The new leaves have the same kind, and their texts do not count.
    have kinds : token.kind = counterpart.kind := congrArg Symbol.kind symbols.1
    have leaf : token.leaf.isTrivia = false := proper
    have leafOther : counterpart.leaf.isTrivia = false := properOther
    show Tree.skeletons (token.leaf :: growth.siblings)
      = Tree.skeletons (counterpart.leaf :: other.siblings)
    rw [Tree.skeletons_cons leaf, Tree.skeletons_cons leafOther, alike.skeletons, Token.leaf,
      Token.leaf, Tree.skeleton_leaf, Tree.skeleton_leaf, kinds]

/-- Both sides read the same token, unless the text ends. -/
theorem bump (alike : Alike pairs growth other) :
    Concur (Alike pairs) growth.bump other.bump := by
  rcases alike.next with ⟨left, right⟩ | ⟨token, rest, counterpart, others, left, proper, right,
    properOther, same⟩
  · -- Without a token nothing is read.
    simp only [Growth.bump, left]
    exact .leftFails (by simp)
  · have kinds : token.kind = counterpart.kind := congrArg Symbol.kind same
    simp only [Growth.bump, left, right, kinds]
    split
    · exact .leftFails (by simp)
    · exact .ok ((alike.eatTrivia.addLeaf left proper right properOther).withLooks 0)

/-- A mistake at a token that was seen is noted at corresponding tokens. -/
theorem addMistake (alike : Alike pairs growth other) {symbol : Symbol}
    (sees : growth.Sees (some symbol)) (seesOther : other.Sees (some symbol)) (mistake : Mistake) :
    Alike pairs (growth.addMistake mistake) (other.addMistake mistake) := by
  obtain ⟨token, rest, left, proper, -⟩ := sees symbol rfl
  obtain ⟨counterpart, others, right, properOther, -⟩ := seesOther symbol rfl
  have paired := alike.paired
  rw [left, right, properTokens_cons proper, properTokens_cons properOther, List.zip_cons_cons]
    at paired
  -- The offset is the start of the token that was seen, as no trivia comes before it.
  have place : growth.offset = token.start := ((left ▸ alike.adjoining).1).symm
  have placeOther : other.offset = counterpart.start := ((right ▸ alike.adjoiningOther).1).symm
  refine ⟨alike.looks, alike.symbols, alike.paired, alike.skeletons, ?_, alike.adjoining,
    alike.adjoiningOther⟩
  refine List.rel_append alike.remarks (.cons ⟨rfl, rfl, ?_⟩ .nil)
  exact ⟨(token, counterpart), paired.subset (by simp), place, placeOther⟩

/-- New frames are alike. -/
theorem enter (alike : Alike pairs growth other) : Alike pairs growth.enter other.enter :=
  ⟨alike.looks, alike.symbols, alike.paired, rfl, alike.remarks, alike.adjoining,
    alike.adjoiningOther⟩

/-- Frames are alike after what is alike joins them. -/
theorem leave (alike : Alike pairs growth other) (within : Alike pairs inner innerOther) :
    Alike pairs (growth.leave inner) (other.leave innerOther) := by
  refine ⟨within.looks, within.symbols, within.paired, ?_, within.remarks, within.adjoining,
    within.adjoiningOther⟩
  simp only [Growth.leave, Tree.skeletons_append, within.skeletons, alike.skeletons]

/-- Nodes are alike that are made of what is alike. -/
theorem close (alike : Alike pairs growth other) (kind : NodeKind) :
    Alike pairs (growth.close kind) (other.close kind) := by
  refine ⟨alike.looks, alike.symbols, alike.paired, ?_, alike.remarks, alike.adjoining,
    alike.adjoiningOther⟩
  -- The nodes are no trivia, and their skeletons hold those of the siblings.
  rw [Growth.close, Growth.close, Tree.skeletons_cons rfl, Tree.skeletons_cons rfl,
    Tree.skeleton_node, Tree.skeleton_node, Tree.skeletons_reverse, Tree.skeletons_reverse,
    alike.skeletons]

end Alike

end Growth

open Growth in
/-- A parser that keeps to a discipline does the same on both sides if the rules it calls do. -/
theorem Parser.grow_concur {pairs : List (Token × Token)} {limit : Option Nat} {depth reach : Nat}
    (calls : ∀ (rule : Rule) (growth other : Growth), Alike pairs growth other →
      Concur (Alike pairs) (rule.grow limit depth growth) (rule.grow limit reach other))
    {may : NodeKind → Prop} {mayCall : Rule → Prop} {α : Type} (parser : Parser α)
    {seen : Option Symbol} {post : α → Option Symbol → Prop}
    (obeys : parser.Obeys (conduct may mayCall) seen post)
    {growth other : Growth} (alike : Alike pairs growth other) (sees : growth.Sees seen)
    (seesOther : other.Sees seen) :
    Concur (Parallel pairs post) (parser.grow (fun rule => rule.grow limit depth) limit growth)
      (parser.grow (fun rule => rule.grow limit reach) limit other) := by
  -- The induction follows the program; what is seen is carried along both sides.
  induction parser generalizing seen growth other with
  | done value => exact .ok ⟨rfl, alike, seen, obeys, sees, seesOther⟩
  | andThen first next ihFirst ihNext =>
    rw [grow_andThen, grow_andThen]
    refine (ihFirst obeys alike sees seesOther).bind ?_
    rintro ⟨value, between⟩ ⟨_, betweenOther⟩ ⟨rfl, further, after, holds, seesNext, seesNextOther⟩
    exact ihNext value holds further seesNext seesNextOther
  | look => exact alike.look sees obeys limit
  | bump =>
    exact alike.bump.map fun _ _ _ _ further => ⟨rfl, further, none, obeys, sees_none _, sees_none _⟩
  | report mistake =>
    obtain ⟨⟨symbol, rfl, -⟩, holds⟩ := obeys
    exact .ok ⟨rfl, alike.addMistake sees seesOther mistake, some symbol, holds, sees, seesOther⟩
  | node body ih =>
    rw [grow_node, grow_node]
    refine (ih obeys alike.enter sees seesOther).map ?_
    rintro ⟨kind, inner⟩ ⟨_, innerOther⟩ - - ⟨rfl, within, after, ⟨-, holds⟩, seen, seenOther⟩
    exact ⟨rfl, alike.leave (within.close kind), after, holds, seen, seenOther⟩
  | frame body ih =>
    rw [grow_frame, grow_frame]
    refine (ih obeys alike.enter sees seesOther).map ?_
    rintro ⟨value, inner⟩ ⟨_, innerOther⟩ - - ⟨rfl, within, after, holds, seen, seenOther⟩
    exact ⟨rfl, alike.leave within, after, holds, seen, seenOther⟩
  | wrap body ih =>
    by_cases operand : growth.opening = .node
    · by_cases operandOther : other.opening = .node
      · rw [grow_wrap _ _ _ _ operand, grow_wrap _ _ _ _ operandOther]
        refine (ih obeys alike.enter sees seesOther).map ?_
        rintro ⟨kind, inner⟩ ⟨_, innerOther⟩ - - ⟨rfl, within, after, ⟨-, holds⟩, seen, seenOther⟩
        exact ⟨rfl, (alike.leave within).close kind, after, holds, seen, seenOther⟩
      · -- Trivia can only make a difference to an operand where wrapping it fails.
        simp only [grow, if_neg operandOther]
        exact .rightFails (by simp)
    · simp only [grow, if_neg operand]
      exact .leftFails (by simp)
  | progress body ih =>
    rw [grow_progress, grow_progress]
    refine (ih obeys alike sees seesOther).map ?_
    rintro ⟨_, result⟩ ⟨_, resultOther⟩ grown grownOther ⟨-, further, after, holds, seen, seenOther⟩
    refine ⟨?_, further, after, holds _, seen, seenOther⟩
    -- Both sides have equally many proper tokens before the body and after it.
    have reads : growth.Reads result := grow_reads (fun _ _ _ => Rule.grow_reads) grown
    have readsOther : other.Reads resultOther := grow_reads (fun _ _ _ => Rule.grow_reads) grownOther
    show result.hasProgressed growth.rest = resultOther.hasProgressed other.rest
    rw [hasProgressed_eq reads, hasProgressed_eq readsOther, alike.symbols, further.symbols]
  | call rule =>
    exact (calls rule growth other alike).map fun _ _ _ _ further =>
      ⟨rfl, further, none, obeys.2, sees_none _, sees_none _⟩

/-- A rule does the same on both sides, however deeply its calls may nest on each of them. -/
theorem Rule.grow_concur {pairs : List (Token × Token)} (limit : Option Nat) (rule : Rule)
    (depth reach : Nat) {growth other : Growth} (alike : Growth.Alike pairs growth other) :
    Concur (Growth.Alike pairs) (rule.grow limit depth growth) (rule.grow limit reach other) := by
  -- Calls nest less deeply than the rule that makes them, on both sides.
  induction depth generalizing rule reach growth other with
  | zero => exact .leftFails (by simp)
  | succ depth ih =>
    cases reach with
    | zero => exact .rightFails (by simp)
    | succ reach =>
      -- What the rule may make and call does not matter here, only that it keeps to some
      -- discipline.
      obtain ⟨makes, calls, same⟩ := rule.exists_conduct
      have body := Parser.grow_concur (fun inner _ _ within => ih inner reach within) rule.body
        (same ▸ Grammar.obeys_conduct rule) alike growth.sees_none other.sees_none
      exact body.map fun _ _ _ _ parallel => parallel.2.1

end Dxl
