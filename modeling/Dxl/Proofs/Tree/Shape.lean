import Mathlib
import Dxl.Tree.Basic

/-! Shapes: which nodes may stand next to each other inside of a node of each kind. -/

namespace Dxl

namespace NodeKind

/-- Nodes that an operand of an expression can be. -/
def isOperand : NodeKind → Bool
  | .arrow | .assignment | .binary | .call | .cast | .comparison | .equality | .property
  | .grouping | .index | .literal | .logical | .nullRef | .nameRef | .postfixed | .prefixed
  | .range | .concat | .ternary | .shift => true
  | _ => false

/-- Nodes that an expression can leave behind, a token passed over among them. -/
def isTerm (kind : NodeKind) : Bool :=
  kind.isOperand || kind == .skipped

/-- Nodes that an expression can be put together of. -/
def isPart (kind : NodeKind) : Bool :=
  kind.isTerm || kind == .typeRef || kind == .argList

/-- Operands that are put together of parts. -/
def isCompound : NodeKind → Bool
  | .arrow | .assignment | .binary | .call | .cast | .comparison | .equality | .property
  | .grouping | .index | .logical | .postfixed | .prefixed | .range | .concat | .ternary
  | .shift => true
  | _ => false

/-- Nodes that stand for a statement other than a declaration. -/
def isAction : NodeKind → Bool
  | .pragmaStmt | .includeStmt | .block | .breakStmt | .continueStmt | .exprStmt | .forStmt
  | .forInStmt | .ifStmt | .returnStmt | .whileStmt => true
  | _ => false

/-- Nodes that a declaration can make. -/
def isDeclaration : NodeKind → Bool
  | .varDecl | .arrayDecl | .funcDecl => true
  | _ => false

/-- Nodes that can stand in a block or at the top. -/
def isItem (kind : NodeKind) : Bool :=
  kind.isAction || kind.isDeclaration || kind == .skipped || kind == .ignored

/-- Nodes that hold a single token. -/
def isAtom : NodeKind → Bool
  | .nameRef | .nullRef | .literal | .typeRef | .ignored => true
  | _ => false

/-- Whether nodes of the given kinds may follow a declared name up to its value. -/
def namesVariable : List NodeKind → Bool
  | [.nameRef] | [.nameRef, .exprStmt] => true
  | _ => false

/-- Whether nodes of the given kinds may make up an array with its size and its items. -/
def namesArray : List NodeKind → Bool
  | [.nameRef] | [.nameRef, .exprStmt] | [.nameRef, .argList] | [.nameRef, .exprStmt, .argList] => true
  | _ => false

/-- Whether the nodes inside of a node can be of the given kinds, in this order. -/
def admits : NodeKind → List NodeKind → Bool
  | .root | .block => (·.all isItem)
  | .exprStmt => (·.all isTerm)
  | .forStmt | .ifStmt | .whileStmt => (·.all isAction)
  | .forInStmt => (·.all isItem)
  | .returnStmt => (·.all (· == .exprStmt))
  | .varDecl => fun
    | [.typeRef, .nameList] => true
    | .typeRef :: rest => namesVariable rest
    | kinds => namesVariable kinds
  | .arrayDecl => fun
    | .typeRef :: rest => namesArray rest
    | kinds => namesArray kinds
  | .funcDecl => fun
    | [.typeRef] | [.typeRef, .nameRef] | [.typeRef, .nameRef, .paramList]
    | [.typeRef, .nameRef, .block] | [.typeRef, .nameRef, .paramList, .block] => true
    | _ => false
  | .skipped => (·.all (· == .typeRef))
  | .nameList => fun
    | .nameRef :: rest => rest.all fun kind => kind == .nameRef || kind == .exprStmt
    | _ => false
  | .paramList => (·.all (· == .param))
  | .param => fun
    | [] => true
    | [kind] => kind.isDeclaration || kind == .skipped
    | _ => false
  | .argList => (·.all fun kind => kind == .arg || kind == .exprStmt)
  | .arg => (· == [.exprStmt])
  | .nameRef | .nullRef | .literal | .typeRef | .ignored | .pragmaStmt | .includeStmt | .breakStmt
  | .continueStmt => (·.isEmpty)
  | .arrow | .assignment | .binary | .call | .cast | .comparison | .equality | .property
  | .grouping | .index | .logical | .postfixed | .prefixed | .range | .concat | .ternary
  | .shift => (·.all isPart)

/-- An operand is a term. -/
theorem isTerm_of_isOperand {kind : NodeKind} (operand : kind.isOperand = true) :
    kind.isTerm = true := by
  simp [isTerm, operand]

/-- A term is a part. -/
theorem isPart_of_isTerm {kind : NodeKind} (term : kind.isTerm = true) : kind.isPart = true := by
  simp [isPart, term]

/-- A statement is an item. -/
theorem isItem_of_isAction {kind : NodeKind} (action : kind.isAction = true) :
    kind.isItem = true := by
  simp [isItem, action]

/-- A compound is an operand. -/
theorem isOperand_of_isCompound {kind : NodeKind} (compound : kind.isCompound = true) :
    kind.isOperand = true := by
  cases kind <;> first | rfl | cases compound

/-- A compound is no atom. -/
theorem isAtom_of_isCompound {kind : NodeKind} (compound : kind.isCompound = true) :
    kind.isAtom = false := by
  cases kind <;> first | rfl | cases compound

/-- A declaration is no atom. -/
theorem isAtom_of_isDeclaration {kind : NodeKind} (declares : kind.isDeclaration = true) :
    kind.isAtom = false := by
  cases kind <;> first | rfl | cases declares

/-- A compound can hold any parts. -/
theorem admits_of_isCompound {kind : NodeKind} (compound : kind.isCompound = true)
    {kinds : List NodeKind} (parts : kinds.all isPart = true) : kind.admits kinds = true := by
  cases kind <;> first | exact parts | cases compound

/-- What passes a test passes every weaker one. -/
theorem all_imp {test weaker : NodeKind → Bool} {kinds : List NodeKind}
    (all : kinds.all test = true) (implied : ∀ kind, test kind = true → weaker kind = true) :
    kinds.all weaker = true :=
  List.all_eq_true.mpr fun kind member => implied kind (List.all_eq_true.mp all kind member)

/-- Whether a node of one kind can be right below a node of another. -/
def mayHold : NodeKind → NodeKind → Bool
  | .root | .block | .forInStmt => isItem
  | .exprStmt => isTerm
  | .forStmt | .ifStmt | .whileStmt => isAction
  | .returnStmt | .arg => (· == .exprStmt)
  | .varDecl => fun kind =>
    kind == .typeRef || kind == .nameRef || kind == .nameList || kind == .exprStmt
  | .arrayDecl => fun kind =>
    kind == .typeRef || kind == .nameRef || kind == .exprStmt || kind == .argList
  | .funcDecl => fun kind =>
    kind == .typeRef || kind == .nameRef || kind == .paramList || kind == .block
  | .skipped => (· == .typeRef)
  | .nameList => fun kind => kind == .nameRef || kind == .exprStmt
  | .paramList => (· == .param)
  | .param => fun kind => kind.isDeclaration || kind == .skipped
  | .argList => fun kind => kind == .arg || kind == .exprStmt
  | .nameRef | .nullRef | .literal | .typeRef | .ignored | .pragmaStmt | .includeStmt | .breakStmt
  | .continueStmt => fun _ => false
  | .arrow | .assignment | .binary | .call | .cast | .comparison | .equality | .property
  | .grouping | .index | .logical | .postfixed | .prefixed | .range | .concat | .ternary
  | .shift => isPart

/-- A node holds only what it may hold. -/
theorem all_mayHold {kind : NodeKind} {kinds : List NodeKind}
    (admitted : kind.admits kinds = true) : kinds.all kind.mayHold = true := by
  have named : ∀ {kinds : List NodeKind}, namesVariable kinds = true →
      kinds.all varDecl.mayHold = true := fun holds => by
    unfold namesVariable at holds
    split at holds <;> first | rfl | cases holds
  have arrays : ∀ {kinds : List NodeKind}, namesArray kinds = true →
      kinds.all arrayDecl.mayHold = true := fun holds => by
    unfold namesArray at holds
    split at holds <;> first | rfl | cases holds
  cases kind
  case varDecl =>
    simp only [admits] at admitted
    split at admitted
    · rfl
    · rw [List.all_cons, named admitted]
      rfl
    · exact named admitted
  case arrayDecl =>
    simp only [admits] at admitted
    split at admitted
    · rw [List.all_cons, arrays admitted]
      rfl
    · exact arrays admitted
  case funcDecl =>
    simp only [admits] at admitted
    split at admitted <;> first | rfl | cases admitted
  case nameList =>
    simp only [admits] at admitted
    split at admitted
    · exact admitted
    · cases admitted
  case param =>
    simp only [admits] at admitted
    split at admitted
    · rfl
    · simpa [mayHold] using admitted
    · cases admitted
  all_goals
    first
    | exact admitted
    | rw [List.isEmpty_iff.mp admitted]; rfl
    | rw [beq_iff_eq.mp admitted]; rfl

end NodeKind

namespace Tree

/-- The kind of a node; a leaf has none. -/
def nodeKind? : Tree → Option NodeKind
  | .node (.node kind) _ => some kind
  | _ => none

/-- The kinds of the nodes among some trees. -/
def nodeKinds (trees : List Tree) : List NodeKind :=
  trees.filterMap nodeKind?

/-- Whether a tree is a token that carries no meaning. -/
def isTrivia : Tree → Bool
  | .leaf (.token kind) _ => kind.isTrivia
  | _ => false

/-- Some trees are a single token after any trivia. -/
def SingleToken (trees : List Tree) : Prop :=
  ∃ trivia kind text, trees = trivia ++ [.leaf (.token kind) text] ∧ kind.isTrivia = false
    ∧ ∀ tree ∈ trivia, tree.isTrivia = true

/-- A tree in which every node holds what its kind admits. -/
inductive Sound : Tree → Prop
  | leaf (kind : Kind) (text : String) : Sound (.leaf kind text)
  | node {kind : NodeKind} {children : List Tree} : (∀ child ∈ children, Sound child) →
    kind.admits (nodeKinds children) → (kind.isAtom → SingleToken children) →
    Sound (.node (.node kind) children)

end Tree

end Dxl
