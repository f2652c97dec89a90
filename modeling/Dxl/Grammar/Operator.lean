import Dxl.Kind.Basic

/-! Operators of expressions: what may begin an operand, what may follow one, and how tightly each binds. -/

namespace Dxl

/-- How strongly a prefix operator holds its operand. -/
def prefixPower : Nat := 15

/-- How strongly a member access holds what follows it. -/
def accessPower : Nat := 16

/-- How strongly a string holds on to the expression before it. -/
def stringPower : Nat := 15

/-- Tokens that stand before their operand as an operator. -/
def TokenKind.isPrefixOperator : TokenKind → Bool
  | .sign .plusPlus | .sign .minusMinus | .sign .ampersand | .sign .plus | .sign .minus
  | .sign .tilde | .sign .bang | .keyword .sizeofWord => true
  | _ => false

/-- What an operand begins with. -/
inductive OperandStart where
  /-- A token that is an operand by itself. -/
  | atom (kind : NodeKind)
  /-- A parenthesis. -/
  | group
  /-- A semicolon, which stands for an empty expression. -/
  | empty
  | operator
  | nothing

/-- What an operand begins with when the given token comes next. -/
def TokenKind.operandStart (kind : TokenKind) : OperandStart :=
  match kind with
  | .keyword .trueWord | .keyword .falseWord | .string | .real | .integer => .atom .literal
  | .keyword .nullWord => .atom .nullRef
  | .name | .keyword .objectWord | .keyword .moduleWord => .atom .nameRef
  | .sign .leftParen => .group
  | .sign .semicolon => .empty
  | _ => if kind.isPrefixOperator then .operator else .nothing

/-- The precedence of an operator and the precedence its right operand must exceed or equal. -/
def TokenKind.infixPower? : TokenKind → Option (Nat × Nat)
  | .sign .star | .sign .slash | .sign .percent => some (14, 13)
  | .sign .plus | .sign .minus => some (13, 12)
  | .sign .less | .sign .lessEqual | .sign .greater | .sign .greaterEqual => some (11, 10)
  | .sign .equalEqual | .sign .bangEqual => some (10, 9)
  | .sign .ampersand => some (9, 8)
  | .sign .caret => some (8, 7)
  | .sign .pipe => some (7, 6)
  | .sign .ampersandAmpersand | .keyword .andWord => some (6, 5)
  | .sign .pipePipe | .keyword .orWord => some (5, 4)
  | .sign .question => some (4, 3)
  | .sign .equal | .sign .starEqual | .sign .slashEqual | .sign .percentEqual | .sign .plusEqual
  | .sign .minusEqual | .sign .lessLessEqual | .sign .greaterGreaterEqual | .sign .ampersandEqual
  | .sign .caretEqual | .sign .pipeEqual | .sign .lessLess | .sign .greaterGreater => some (3, 2)
  | .name | .sign .colon => some (2, 1)
  | _ => none

/-- The node a binary operator makes of its two operands. -/
def TokenKind.infixNode? : TokenKind → Option NodeKind
  | .sign .plus | .sign .minus | .sign .star | .sign .slash | .sign .percent
  | .sign .ampersand => some .binary
  | .sign .equalEqual | .sign .bangEqual => some .equality
  | .sign .pipe | .sign .caret | .sign .ampersandAmpersand | .sign .pipePipe
  | .keyword .andWord | .keyword .orWord => some .logical
  | .sign .less | .sign .lessEqual | .sign .greater | .sign .greaterEqual => some .comparison
  | .sign .equal | .sign .starEqual | .sign .slashEqual | .sign .percentEqual | .sign .plusEqual
  | .sign .minusEqual | .sign .lessLessEqual | .sign .greaterGreaterEqual | .sign .ampersandEqual
  | .sign .caretEqual | .sign .pipeEqual => some .assignment
  | .sign .lessLess | .sign .greaterGreater => some .shift
  | _ => none

/-- Tokens that make an argument of themselves when they follow a callee. -/
def TokenKind.startsArgument : TokenKind → Bool
  | .integer | .real | .name | .keyword .moduleWord | .keyword .nullWord | .keyword .trueWord
  | .keyword .falseWord => true
  | _ => false

/-- Operands that a following operand turns into a call. -/
def NodeKind.isCallee : NodeKind → Bool
  | .nameRef | .nullRef | .grouping => true
  | _ => false

/-- Operands that a following parenthesis turns into a call. -/
def NodeKind.takesParentheses : NodeKind → Bool
  | .nameRef | .nullRef => true
  | _ => false

/-- Operands that a following name is joined to as text. -/
def NodeKind.takesName : NodeKind → Bool
  | .concat | .grouping | .literal | .call => true
  | _ => false

/-- What a binary operator does with the operands on both of its sides. -/
inductive InfixForm where
  /-- It makes the given node of them. -/
  | binary (kind : NodeKind)
  /-- It is the question mark of a choice. -/
  | choice
  /-- It is the colon of a range. -/
  | range
  /-- It is a name, which is itself the right operand. -/
  | name

/-- What a token does as a binary operator. -/
def TokenKind.infixForm? (kind : TokenKind) : Option InfixForm :=
  match kind with
  | .sign .question => some .choice
  | .sign .colon => some .range
  | .name => some .name
  | _ => kind.infixNode?.map .binary

/-- What happens to an operand, given the token after it. -/
inductive Continuation where
  /-- The operand is complete. -/
  | stop
  /-- It is called with what follows. -/
  | call
  | index
  /-- A member of it is taken, which makes the given node. -/
  | access (kind : NodeKind)
  /-- An operator after it completes it. -/
  | step
  /-- A string is joined to it. -/
  | string
  /-- A group beside it takes its place. -/
  | regroup
  /-- A binary operator of the given powers follows. -/
  | infixed (left right : Nat) (form : InfixForm)

/-- What happens to an operand of the given kind when the given token follows it. -/
def TokenKind.continuation (kind : TokenKind) (operand : NodeKind) : Continuation :=
  -- Calls by adjacency come first, so that a name after a name is an argument.
  if operand.isCallee && kind.startsArgument then .call
  else match kind with
    | .sign .leftBracket => .index
    | .sign .dot => .access .property
    | .sign .minusArrow | .sign .lessMinus => .access .arrow
    | .sign .plusPlus | .sign .minusMinus => .step
    | .string => .string
    | .sign .leftParen => if operand.takesParentheses then .call else .regroup
    | _ =>
      match kind.infixPower?, kind.infixForm? with
      | some (left, right), some form => .infixed left right form
      | _, _ => .stop

end Dxl
