import Dxl.Proofs.Grammar.Prefix
import Dxl.Proofs.Grammar.Symbols
import Dxl.Proofs.Tree.Shape

/-! Agreement: the same tokens grow to the same trees wherever they begin, even if blanks differ in what was grown before. -/

namespace Dxl

/-- Whether a token leaves a gap between others: trivia does, and so does a line break that ends a statement. -/
def TokenKind.isBlank (kind : TokenKind) : Bool :=
  kind.isTrivia || kind == .hardBreak

namespace Tree

/-- Whether a tree is the leaf of a blank. -/
def isBlank : Tree → Bool
  | .leaf (.token kind) _ => kind.isBlank
  | _ => false

/-- A tree without blanks. -/
def core : Tree → Tree :=
  fold .leaf fun kind children => .node kind (children.filter fun child => !child.isBlank)

/-- The cores of those trees that are no blanks. -/
def cores (trees : List Tree) : List Tree :=
  (trees.filter fun tree => !tree.isBlank).map core

/-- A leaf has nothing to lose. -/
@[simp] theorem core_leaf (kind : Kind) (text : String) :
    (leaf kind text).core = leaf kind text := rfl

/-- A tree is a blank just if its core is. -/
@[simp] theorem isBlank_core (tree : Tree) : tree.core.isBlank = tree.isBlank := by
  cases tree with
  | leaf kind text => rfl
  | node kind children => rw [core, fold_node]; rfl

/-- The core of a node holds the cores of its children. -/
@[simp] theorem core_node (kind : Kind) (children : List Tree) :
    (node kind children).core = .node kind (cores children) := by
  rw [core, fold_node, ← core, cores, List.filter_map]
  simp only [Function.comp_def, isBlank_core]

/-- Cores of two rows of trees follow each other. -/
@[simp] theorem cores_append (left right : List Tree) :
    cores (left ++ right) = cores left ++ cores right := by
  simp [cores]

/-- The core of the first tree comes before those that follow it. -/
theorem cores_cons (tree : Tree) (trees : List Tree) :
    cores (tree :: trees) = cores [tree] ++ cores trees :=
  cores_append [tree] trees

/-- Cores come in the order of their trees. -/
@[simp] theorem cores_reverse (trees : List Tree) :
    cores trees.reverse = (cores trees).reverse := by
  simp [cores]

/-- A node is no blank. -/
@[simp] theorem cores_node (kind : Kind) (children : List Tree) :
    cores [node kind children] = [node kind (cores children)] := by
  rw [← core_node]
  rfl

end Tree

/-- What a remark says, wherever it is made. -/
def Remark.wording (remark : Remark) : Severity × String :=
  (remark.severity, remark.message)

/-- What the remarks of a report say, oldest first. -/
def Report.wordings (report : Report) : List (Severity × String) :=
  report.remarks.map Remark.wording

namespace Token

/-- Tokens of the same kind and text look the same to the grammar. -/
theorem symbol_eq {token other : Token} (same : token.entry = other.entry) :
    token.symbol = other.symbol := by
  simp only [entry, Prod.mk.injEq, Kind.token.injEq] at same
  simp only [symbol, namesType, same.1, same.2]

/-- Tokens of the same kind and text become the same leaf. -/
theorem leaf_eq {token other : Token} (same : token.entry = other.entry) :
    token.leaf = other.leaf := by
  simp only [entry, Prod.mk.injEq, Kind.token.injEq] at same
  rw [leaf, leaf, same.1, same.2]

end Token

/-- The grammar sees the same in tokens of the same kinds and texts. -/
theorem symbols_eq {tokens others : List Token}
    (same : tokens.map Token.entry = others.map Token.entry) : symbols tokens = symbols others := by
  induction tokens generalizing others with
  | nil => rw [List.map_eq_nil_iff.mp same.symm]
  | cons token rest ih =>
    obtain ⟨counterpart, more, rfl, first, further⟩ := List.map_eq_cons_iff.mp same.symm
    have symbol := Token.symbol_eq first
    have kinds : counterpart.kind = token.kind := congrArg Symbol.kind symbol
    -- Trivia is left out on both sides, for it depends on the kind alone.
    cases trivia : token.kind.isTrivia with
    | false => rw [symbols_cons trivia, symbols_cons (kinds ▸ trivia), symbol, ih further.symm]
    | true => simpa [symbols, properTokens, trivia, kinds] using ih further.symm

namespace Growth

variable {growth other after inner innerOther : Growth} {limit : Option Nat}

/-- The same is still to be read, and the same has been made of what was read, up to blanks. -/
structure Agrees (growth other : Growth) : Prop where
  looks : growth.looks = other.looks
  opening : growth.opening = other.opening
  entries : growth.rest.map Token.entry = other.rest.map Token.entry
  cores : Tree.cores growth.siblings = Tree.cores other.siblings
  wordings : growth.report.wordings = other.report.wordings

namespace Agrees

/-- How often both sides have looked makes no difference if it is the same. -/
theorem withLooks (agrees : growth.Agrees other) (looks : Nat) :
    Agrees { growth with looks } { other with looks } :=
  ⟨rfl, agrees.opening, agrees.entries, agrees.cores, agrees.wordings⟩

/-- The next tokens are the same. -/
theorem exists_cons (agrees : growth.Agrees other) {token : Token} {rest : List Token}
    (next : growth.rest = token :: rest) :
    ∃ counterpart others, other.rest = counterpart :: others ∧ token.entry = counterpart.entry
      ∧ rest.map Token.entry = others.map Token.entry := by
  have entries := agrees.entries
  rw [next, List.map_cons] at entries
  obtain ⟨counterpart, others, found, same, further⟩ := List.map_eq_cons_iff.mp entries.symm
  exact ⟨counterpart, others, found, same.symm, further.symm⟩

/-- The next token becomes the same leaf on both sides. -/
theorem addLeaf (agrees : growth.Agrees other) {token counterpart : Token}
    {rest others : List Token}
    (next : growth.rest = token :: rest) (nextOther : other.rest = counterpart :: others)
    (same : token.entry = counterpart.entry) :
    (growth.addLeaf token).Agrees (other.addLeaf counterpart) where
  looks := agrees.looks
  opening := by simp only [Growth.addLeaf, agrees.opening]
  -- The first tokens go on both sides, and the others were the same before.
  entries := by
    have entries := agrees.entries
    rw [next, nextOther, List.map_cons, List.map_cons, List.cons.injEq] at entries
    simpa [Growth.addLeaf, next, nextOther] using entries.2
  cores := by
    simp only [Growth.addLeaf]
    rw [Tree.cores_cons, Tree.cores_cons counterpart.leaf, Token.leaf_eq same, agrees.cores]
  wordings := agrees.wordings

/-- The same trivia is read on both sides. -/
theorem eatTrivia (agrees : growth.Agrees other) : growth.eatTrivia.Agrees other.eatTrivia := by
  -- The induction is on the tokens to be read, of which trivia is read one by one.
  generalize tokens : growth.rest = rest
  induction rest generalizing growth other with
  -- Nothing is left on the other side either.
  | nil =>
    have none : other.rest = [] := by simpa [tokens] using agrees.entries.symm
    simpa [Growth.eatTrivia, tokens, none] using agrees
  | cons token rest ih =>
    obtain ⟨counterpart, others, found, same, -⟩ := agrees.exists_cons tokens
    have kinds : token.kind = counterpart.kind := congrArg Symbol.kind (Token.symbol_eq same)
    cases trivia : token.kind.isTrivia with
    | false =>
      -- Both sides are at a token that is no trivia, so nothing is read.
      have triviaOther : counterpart.kind.isTrivia = false := kinds ▸ trivia
      simpa [Growth.eatTrivia, tokens, found, trivia, triviaOther] using agrees
    | true =>
      have triviaOther : counterpart.kind.isTrivia = true := kinds ▸ trivia
      -- Both sides read a token of trivia, and the rest is shorter.
      have read := ih (agrees.addLeaf tokens found same) (by simp [Growth.addLeaf, tokens])
      simpa [Growth.eatTrivia, tokens, found, trivia, triviaOther, Growth.addLeaf] using read

/-- Both sides see the same. -/
theorem look (agrees : growth.Agrees other) {symbol : Symbol}
    (looked : growth.look limit = .ok (symbol, after)) :
    ∃ afterOther, other.look limit = .ok (symbol, afterOther) ∧ after.Agrees afterOther := by
  have settled := agrees.eatTrivia
  obtain ⟨token, rest, next, within, rfl, rfl⟩ := exists_of_look looked
  -- The other side has the same token next, and has looked at it as often.
  obtain ⟨counterpart, others, nextOther, same, -⟩ := settled.exists_cons next
  refine ⟨_, ?_, settled.withLooks _⟩
  rw [look_eq nextOther, ← agrees.looks, if_neg (by simp [within]), Token.symbol_eq same]

/-- Both sides read the same. -/
theorem bump (agrees : growth.Agrees other) (bumped : growth.bump = .ok after) :
    ∃ afterOther, other.bump = .ok afterOther ∧ after.Agrees afterOther := by
  have settled := agrees.eatTrivia
  obtain ⟨token, rest, next, further, rfl⟩ := exists_of_bump bumped
  obtain ⟨counterpart, others, nextOther, same, -⟩ := settled.exists_cons next
  -- Neither token is the end of the text if one of them is not.
  have kinds : token.kind = counterpart.kind := congrArg Symbol.kind (Token.symbol_eq same)
  rw [bump_eq nextOther, ← kinds]
  exact ⟨_, if_neg further, (settled.addLeaf next nextOther same).withLooks 0⟩

/-- The same mistake is noted on both sides. -/
theorem addMistake (agrees : growth.Agrees other) (mistake : Mistake) :
    (growth.addMistake mistake).Agrees (other.addMistake mistake) where
  looks := agrees.looks
  opening := by simp only [Growth.addMistake, agrees.opening]
  entries := agrees.entries
  cores := agrees.cores
  wordings := by
    have wordings := agrees.wordings
    simp only [Report.wordings] at wordings
    simp [Growth.addMistake, Report.wordings, Report.add, wordings, Remark.wording, Mistake.remark]

/-- New frames agree. -/
theorem enter (agrees : growth.Agrees other) : growth.enter.Agrees other.enter :=
  ⟨agrees.looks, rfl, agrees.entries, rfl, agrees.wordings⟩

/-- Frames agree that end with what agrees. -/
theorem leave (openings : growth.opening = other.opening)
    (cores : Tree.cores growth.siblings = Tree.cores other.siblings)
    (within : inner.Agrees innerOther) : (growth.leave inner).Agrees (other.leave innerOther) where
  looks := within.looks
  opening := by simp only [Growth.leave, openings, within.opening]
  entries := within.entries
  cores := by simp only [Growth.leave, Tree.cores_append, within.cores, cores]
  wordings := within.wordings

/-- Nodes agree that are made of what agrees. -/
theorem close (within : inner.Agrees innerOther) (kind : NodeKind) :
    (inner.close kind).Agrees (innerOther.close kind) where
  looks := within.looks
  opening := rfl
  entries := within.entries
  cores := by simp only [Growth.close, Tree.cores_node, Tree.cores_reverse, within.cores]
  wordings := within.wordings

/-- Whether more than trivia was read is the same on both sides. -/
theorem hasProgressed (agrees : growth.Agrees other) {afterOther : Growth}
    (further : after.Agrees afterOther) (reads : growth.Reads after)
    (readsOther : other.Reads afterOther) :
    afterOther.hasProgressed other.rest = after.hasProgressed growth.rest := by
  rw [hasProgressed_eq reads, hasProgressed_eq readsOther, symbols_eq agrees.entries,
    symbols_eq further.entries]

/-- Both sides do the same. -/
theorem tandem (limit : Option Nat) : Tandem limit (fun _ => True) Agrees where
  earlier _ _ := trivial
  look agrees looked := agrees.look looked
  bump agrees bumped _ := agrees.bump bumped
  report mistake agrees := agrees.addMistake mistake
  opening agrees := agrees.opening
  enter := enter
  leave agrees within := .leave agrees.opening agrees.cores within
  close kind within := within.close kind
  progress agrees further reads readsOther := agrees.hasProgressed further reads readsOther

end Agrees

end Growth

/-- A parser does the same on both sides, if its calls may nest at least as deeply. -/
theorem Parser.grow_agrees {limit : Option Nat} {depth reach : Nat} (deep : depth ≤ reach)
    {α : Type} {parser : Parser α} {growth other after : Growth} {value : α}
    (grown : parser.grow (fun rule => rule.grow limit depth) limit growth = .ok (value, after))
    (agrees : growth.Agrees other) :
    ∃ afterOther, parser.grow (fun rule => rule.grow limit reach) limit other
        = .ok (value, afterOther) ∧ after.Agrees afterOther :=
  (Growth.Agrees.tandem limit).grow deep grown trivial agrees

/-- A rule does the same on both sides, if its calls may nest at least as deeply. -/
theorem Rule.grow_agrees {limit : Option Nat} {rule : Rule} {depth reach : Nat}
    (deep : depth ≤ reach)
    {growth other after : Growth} (grown : rule.grow limit depth growth = .ok after)
    (agrees : growth.Agrees other) :
    ∃ afterOther, rule.grow limit reach other = .ok afterOther ∧ after.Agrees afterOther :=
  (Growth.Agrees.tandem limit).grow_rule deep grown trivial agrees

end Dxl
