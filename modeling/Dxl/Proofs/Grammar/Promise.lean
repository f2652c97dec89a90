import Dxl.Proofs.Grammar.Triple

/-! Promises: what each rule of the grammar needs and promises, and how rules rank that call each other without reading. -/

namespace Dxl

/-- Whether something other than the end of a statement or of the text comes next. -/
def TokenKind.GoesOn (kind : TokenKind) : Prop :=
  kind ≠ .endOfText ∧ kind.endsStatement = false

namespace Rule

/-- A rule that calls another one before it reads anything ranks higher. -/
def rank : Rule → Nat
  | .blockItems | .program => 4
  | .declaration => 3
  | .statement => 2
  | .operators _ _ | .arguments | .arrayItems | .parameters | .conditional => 1
  | _ => 0

/-- What a rule needs when it is called. -/
def Requires : Rule → Growth → Prop
  | .conditional, growth => growth.next.kind = .keyword .ifWord
  | .operators _ _, growth =>
    growth.opening = .node ∧ growth.kinds.all NodeKind.isOperand = true
  | _, _ => True

/-- What a rule promises of the growth that it leaves. -/
def Promises (rule : Rule) (growth after : Growth) : Prop :=
  match rule with
  | .program =>
    (∃ added, growth.Extends after added False ∧ added.all NodeKind.isItem = true)
      ∧ after.next.kind = .endOfText
  | .declaration =>
    ∃ added, growth.Extends after added growth.next.kind.GoesOn
      ∧ added.all NodeKind.isItem = true
  | .statement =>
    ∃ kind, growth.Extends after [kind] growth.next.kind.GoesOn ∧ kind.isAction = true
  | .blockItems => ∃ added, growth.Extends after added False ∧ added.all NodeKind.isItem = true
  | .conditional => growth.Extends after [.ifStmt] True
  | .parameters => ∃ added, growth.Extends after added False ∧ added.all (· == .param) = true
  | .furtherNames =>
    ∃ added, growth.Extends after added False
      ∧ added.all (fun kind => kind == .nameRef || kind == .exprStmt) = true
  | .arrayItems => ∃ added, growth.Extends after added False ∧ added.all (· == .exprStmt) = true
  | .expression _ =>
    ∃ added, growth.Extends after added growth.next.kind.GoesOn
      ∧ added.all NodeKind.isTerm = true
  | .operators _ _ =>
    ∃ left, growth.Becomes after left False ∧ left.all NodeKind.isOperand = true
  | .arguments => ∃ added, growth.Extends after added False ∧ added.all (· == .arg) = true
  | .statementEnds => growth.Extends after [] (growth.next.kind.endsStatement = true)
  | .lineEnds | .pathParts | .recovery => growth.Extends after [] False

end Rule

/-- Rules keep their promises, as long as the tokens left and their rank stay within a budget. -/
def Keeps (call : Rule → Growth → Except Failure Growth) (limit : Option Nat) (budget : Nat) :
    Prop :=
  ∀ (rule : Rule) (growth : Growth), growth.Good → rule.Requires growth →
    8 * growth.rest.length + rule.rank < budget →
    (Parser.call rule).Ensures call limit growth fun _ after => rule.Promises growth after

end Dxl
