import Dxl.Grammar.Operator

/-! Operators: which token it is, told from what it begins, from what it does to an operand before it, and from what it makes as a binary operator. -/

namespace Dxl

/-- Tokens that make a node of a kind by themselves where an operand begins. -/
def NodeKind.atomTokens : NodeKind → List TokenKind
  | .literal => [.string, .integer, .real, .keyword .trueWord, .keyword .falseWord]
  | .nullRef => [.keyword .nullWord]
  | .nameRef => [.name, .keyword .objectWord, .keyword .moduleWord]
  | _ => []

namespace TokenKind

variable {kind : TokenKind} {operand made : NodeKind}

/-- What a token begins as an operand tells which token it is. -/
theorem operandStart_cases (kind : TokenKind) :
    match kind.operandStart with
    | .atom made => kind ∈ made.atomTokens
    | .group => kind = .sign .leftParen
    | .empty => kind = .sign .semicolon
    | .operator => kind.isPrefixOperator = true
    | .nothing => kind.isPrefixOperator = false := by
  generalize starts : kind.operandStart = start
  unfold operandStart at starts
  split at starts
  -- The last line of the table asks whether the token is a prefix operator.
  case h_12 =>
    split at starts <;> rename_i asked <;> subst starts
    · exact asked
    · exact Bool.eq_false_iff.mpr asked
  all_goals
    subst starts
    simp [NodeKind.atomTokens]

/-- A token that is an operand by itself is one of those that make the node of it. -/
theorem mem_atomTokens_of_atom (starts : kind.operandStart = .atom made) :
    kind ∈ made.atomTokens := by
  have spec := kind.operandStart_cases
  rwa [starts] at spec

/-- A token that is an operand by itself is a literal, a null or a name. -/
theorem eq_of_atom (starts : kind.operandStart = .atom made) :
    made = .literal ∨ made = .nullRef ∨ made = .nameRef := by
  have among := mem_atomTokens_of_atom starts
  unfold NodeKind.atomTokens at among
  split at among <;> first | simp | cases among

/-- Only a semicolon stands for an empty operand. -/
theorem eq_semicolon_of_empty (starts : kind.operandStart = .empty) :
    kind = .sign .semicolon := by
  have spec := kind.operandStart_cases
  rwa [starts] at spec

/-- What begins an operand as an operator is a prefix operator. -/
theorem isPrefixOperator_of_operator (starts : kind.operandStart = .operator) :
    kind.isPrefixOperator = true := by
  have spec := kind.operandStart_cases
  rwa [starts] at spec

/-- What a token does to an operand before it tells which token it is. -/
theorem continuation_cases (kind : TokenKind) (operand : NodeKind) :
    match kind.continuation operand with
    | .stop => kind.infixPower? = none
    | .call => operand.isCallee = true ∧ kind.startsArgument = true
      ∨ operand.takesParentheses = true ∧ kind = .sign .leftParen
    | .index => kind = .sign .leftBracket
    | .access made => made = .property ∧ kind = .sign .dot
      ∨ made = .arrow ∧ (kind = .sign .minusArrow ∨ kind = .sign .lessMinus)
    | .step => kind = .sign .plusPlus ∨ kind = .sign .minusMinus
    | .string => kind = .string
    | .regroup => operand.takesParentheses = false ∧ kind = .sign .leftParen
    | .infixed left right form =>
      kind.infixPower? = some (left, right) ∧ kind.infixForm? = some form := by
  unfold continuation
  -- Arguments come first; only then does it matter which sign or keyword it is.
  by_cases argument : (operand.isCallee && kind.startsArgument) = true
  · rw [if_pos argument]
    exact .inl (Bool.and_eq_true_iff.mp argument)
  · rw [if_neg argument]
    cases kind with
    | sign mark =>
      cases mark with
      | leftParen => cases takes : operand.takesParentheses <;> simp
      | _ => simp [infixPower?, infixForm?, infixNode?]
    | keyword word => cases word <;> simp [infixPower?, infixForm?, infixNode?]
    | _ => simp [infixPower?, infixForm?, infixNode?]

/-- An operand is complete when no binary operator follows it. -/
theorem infixPower?_of_stop (stops : kind.continuation operand = .stop) :
    kind.infixPower? = none := by
  have spec := kind.continuation_cases operand
  rwa [stops] at spec

/-- A binary operator is what it is by its powers and its form. -/
theorem continuation_infixed {left right : Nat} {form : InfixForm}
    (continues : kind.continuation operand = .infixed left right form) :
    kind.infixPower? = some (left, right) ∧ kind.infixForm? = some form := by
  have spec := kind.continuation_cases operand
  rwa [continues] at spec

/-- An access is a dot or an arrow, and makes the node of it. -/
theorem continuation_access (continues : kind.continuation operand = .access made) :
    made = .property ∧ kind = .sign .dot
      ∨ made = .arrow ∧ (kind = .sign .minusArrow ∨ kind = .sign .lessMinus) := by
  have spec := kind.continuation_cases operand
  rwa [continues] at spec

/-- An access makes a property or an arrow. -/
theorem eq_of_access (continues : kind.continuation operand = .access made) :
    made = .property ∨ made = .arrow :=
  (continuation_access continues).imp And.left And.left

/-- Two signs complete the operand before them. -/
theorem eq_of_step (continues : kind.continuation operand = .step) :
    kind = .sign .plusPlus ∨ kind = .sign .minusMinus := by
  have spec := kind.continuation_cases operand
  rwa [continues] at spec

/-- Only a string is joined to an operand as a string. -/
theorem eq_string_of_string (continues : kind.continuation operand = .string) :
    kind = .string := by
  have spec := kind.continuation_cases operand
  rwa [continues] at spec

/-- What a token makes as a binary operator tells which token it is. -/
theorem infixForm?_cases {form : InfixForm} (forms : kind.infixForm? = some form) :
    match form with
    | .binary made => kind.infixNode? = some made ∧ kind ≠ .name
    | .choice => kind = .sign .question
    | .range => kind = .sign .colon
    | .name => kind = .name := by
  unfold infixForm? at forms
  split at forms
  -- Two signs and names are tested for before all other operators.
  case h_4 unnamed =>
    obtain ⟨made, makes, rfl⟩ := Option.map_eq_some_iff.mp forms
    exact ⟨makes, unnamed⟩
  all_goals
    cases forms
    rfl

/-- A binary operator that makes a node is no name. -/
theorem infixForm?_binary (forms : kind.infixForm? = some (.binary made)) :
    kind.infixNode? = some made ∧ kind ≠ .name :=
  infixForm?_cases forms

/-- Only a name joins operands as a name. -/
theorem infixForm?_name (forms : kind.infixForm? = some .name) : kind = .name :=
  infixForm?_cases forms

end TokenKind

end Dxl
