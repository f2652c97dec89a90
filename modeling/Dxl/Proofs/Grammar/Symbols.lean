import Dxl.Proofs.Grammar.Inversion
import Dxl.Proofs.Grammar.Reading

/-! Symbols: what the grammar sees of the tokens still to be read, in which trivia does not count. -/

namespace Dxl

/-- The tokens that carry meaning. -/
def properTokens (tokens : List Token) : List Token :=
  tokens.filter fun token => !token.kind.isTrivia

/-- What the grammar sees of some tokens. -/
def symbols (tokens : List Token) : List Symbol :=
  (properTokens tokens).map Token.symbol

/-- A proper token comes before those that follow it. -/
theorem properTokens_cons {token : Token} (proper : token.kind.isTrivia = false)
    (rest : List Token) : properTokens (token :: rest) = token :: properTokens rest := by
  simp [properTokens, proper]

/-- A proper token is the first that is seen. -/
theorem symbols_cons {token : Token} (proper : token.kind.isTrivia = false) (rest : List Token) :
    symbols (token :: rest) = token.symbol :: symbols rest := by
  rw [symbols, properTokens_cons proper, List.map_cons, ← symbols]

namespace Growth

/-- Trivia is not among the proper tokens. -/
theorem properTokens_eatTrivia (growth : Growth) :
    properTokens growth.eatTrivia.rest = properTokens growth.rest := by
  rw [rest_eatTrivia]
  -- The trivia at the front goes, and none of it was counted.
  induction growth.rest with
  | nil => rfl
  | cons token rest ih =>
    rw [List.dropWhile_cons]
    split
    · rename_i trivia
      rw [ih]
      simp [properTokens, trivia]
    · rfl

/-- What comes next is the first symbol, or the end of the text if there is none. -/
theorem next_eq_head (growth : Growth) :
    growth.next = (symbols growth.rest).headD ⟨.endOfText, false⟩ := by
  rw [next]
  induction growth.rest with
  | nil => rfl
  | cons token rest ih =>
    cases trivia : token.kind.isTrivia with
    | true => simpa [trivia, symbols, properTokens] using ih
    | false => simp [trivia, symbols_cons trivia]

/-- A look reads nothing that the grammar sees. -/
theorem symbols_look {growth after : Growth} {limit : Option Nat} {symbol : Symbol}
    (looked : growth.look limit = .ok (symbol, after)) :
    symbols after.rest = symbols growth.rest := by
  obtain ⟨token, rest, -, -, rfl, rfl⟩ := exists_of_look looked
  exact congrArg (List.map Token.symbol) growth.properTokens_eatTrivia

/-- The first symbol is read with its token. -/
theorem symbols_bump {growth after : Growth} (bumped : growth.bump = .ok after) :
    symbols growth.rest = growth.next :: symbols after.rest := by
  obtain ⟨token, rest, found, -, rfl⟩ := exists_of_bump bumped
  obtain ⟨seen, proper⟩ := next_eq found
  rw [symbols, ← properTokens_eatTrivia, found, ← symbols, symbols_cons proper, seen]
  simp [addLeaf, found]

/-- Something but trivia was read just if fewer proper tokens are left. -/
theorem hasProgressed_eq {growth after : Growth} (reads : growth.Reads after) :
    after.hasProgressed growth.rest
      = decide ((symbols after.rest).length < (symbols growth.rest).length) := by
  obtain ⟨read, split, -⟩ := reads.tokens
  -- What lies between the two is what was read.
  have between : growth.rest.take (growth.rest.length - after.rest.length) = read := by
    simp [split]
  have shorter : (symbols growth.rest).length
      = (properTokens read).length + (symbols after.rest).length := by
    simp [symbols, properTokens, split]
  rw [hasProgressed, between, Bool.eq_iff_iff, decide_eq_true_iff, shorter,
    Nat.lt_add_left_iff_pos, List.length_pos_iff, properTokens]
  simp

end Growth

end Dxl
