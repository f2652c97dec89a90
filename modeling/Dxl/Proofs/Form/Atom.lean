import Dxl.Proofs.Form.Place
import Dxl.Proofs.Grammar.Operator
import Dxl.Proofs.Grammar.Reading
import Dxl.Proofs.Grammar.Trimming

/-! Atoms: nodes of a single token, and which tokens those can be. -/

namespace Dxl

/-- The tokens that a node of a single token can be made of, given the text of the token. -/
def NodeKind.IsMadeOf (kind : NodeKind) (token : TokenKind) (text : String) : Prop :=
  match kind with
  | .nameRef => token = .name ∨ token = .keyword .objectWord ∨ token = .keyword .moduleWord
  | .nullRef => token = .keyword .nullWord
  | .literal => token = .string ∨ token = .integer ∨ token = .real ∨ token = .keyword .trueWord
    ∨ token = .keyword .falseWord
  | .typeRef => token.namesType text = true
  | .ignored => token = .keyword .constWord ∨ token = .keyword .staticWord
  | _ => False

/-- A token that is an operand by itself can make the node of it. -/
theorem TokenKind.isMadeOf_of_atom {token : TokenKind} {made : NodeKind}
    (starts : token.operandStart = .atom made) (text : String) : made.IsMadeOf token text := by
  have among := mem_atomTokens_of_atom starts
  rcases eq_of_atom starts with rfl | rfl | rfl <;>
    simpa [NodeKind.atomTokens, NodeKind.IsMadeOf] using among

namespace Place

variable {place inner outer : Place} {kind : NodeKind} {clean : Prop}

/-- What is within a trimmed place is trimmed. -/
theorem Within.trimmed (within : inner.Within outer) (trimmed : outer.tree.Trimmed) :
    inner.tree.Trimmed := by
  refine within.inherit (fun {tree child} holds member => ?_) trimmed
  cases holds with
  | leaf => cases member
  | node below => exact below child member

/-- A node of a single token has that as its only child, as it holds no trivia. -/
theorem Proper.tree_of_isAtom (proper : place.Proper) (trimmed : place.tree.Trimmed)
    (isNode : place.kind = .node kind) (atom : kind.isAtom = true) :
    ∃ tokenKind text, place.tree = .node (.node kind) [.leaf (.token tokenKind) text]
      ∧ tokenKind.isTrivia = false := by
  -- Its only tokens are trivia and one more, and being trimmed it holds no trivia beside that.
  obtain ⟨trees, same⟩ := proper.exists_children isNode
  have lone : Tree.LoneToken trees := by
    have trimmed := same ▸ trimmed
    have sound := same ▸ proper.sound
    cases sound with
    | node _ _ single =>
      cases trimmed with
      | node _ lone =>
        -- Whatever stands in the node is trivia or the token.
        obtain ⟨trivia, tokenKind, text, rfl, -, insignificant⟩ := single atom
        refine lone atom fun tree inside => ?_
        rcases List.mem_append.mp inside with before | last
        · have trivial := insignificant tree before
          cases tree with
          | leaf kind text => rfl
          | node kind children => cases trivial
        · rw [List.mem_singleton.mp last]
          rfl
  obtain ⟨tokenKind, text, rfl, meaningful⟩ := lone
  exact ⟨tokenKind, text, same, meaningful⟩

/-- A node of a single token has a token as its only child that can make such a node. -/
theorem Proper.token_of_isAtom (proper : place.Proper) (trimmed : place.tree.Trimmed)
    (formed : place.tree.Formed clean) (isNode : place.kind = .node kind)
    (atom : kind.isAtom = true)
    (named : kind = .typeRef → ∃ token : Token, place.tree.leaves = [token.entry]
      ∧ token.namesType = true) :
    ∃ token tokenKind, place.children = [token] ∧ token.isToken = true
      ∧ token.kind = .token tokenKind ∧ tokenKind.isTrivia = false
      ∧ kind.IsMadeOf tokenKind token.text := by
  obtain ⟨tokenKind, text, tree, meaningful⟩ := proper.tree_of_isAtom trimmed isNode atom
  have forms := forms_of_kind formed isNode
  -- The token is the only constituent, so that the form of the node tells which one it is.
  have single : Tree.constituents place.tree.children = [.token tokenKind] := by
    rw [tree]
    simp [Tree.children, Tree.constituents, Tree.constituent?, Kind.proper?, meaningful]
  rw [single] at forms
  have made : kind.IsMadeOf tokenKind text := by
    cases kind with
    | nameRef | nullRef | literal =>
      obtain ⟨other, starts, same⟩ := forms
      cases same
      exact TokenKind.isMadeOf_of_atom starts text
    | ignored =>
      obtain ⟨other, qualifies, same⟩ := forms
      cases same
      exact qualifies
    -- The form of a type asks for the text too, which the leaves of the node carry.
    | typeRef =>
      obtain ⟨token, leaves, names⟩ := named rfl
      simp only [tree, Tree.leaves_node, List.flatMap_singleton, Tree.leaves_leaf, List.cons.injEq,
        Token.entry, Prod.mk.injEq, Kind.token.injEq, and_true] at leaves
      obtain ⟨rfl, rfl⟩ := leaves
      exact names
    | _ => cases atom
  refine ⟨⟨.leaf (.token tokenKind) text, place.start, (place.tree, place.start) :: place.above⟩,
    tokenKind, ?_, rfl, rfl, meaningful, made⟩
  rw [children, tree]
  rfl

end Place

end Dxl
