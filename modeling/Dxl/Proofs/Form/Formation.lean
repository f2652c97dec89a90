import Dxl.Proofs.Form.Writing
import Dxl.Proofs.Grammar.Telling
import Dxl.Proofs.Grammar.Flagging

/-! Formation: the nodes that a parser grows are formed as their kinds demand, if that can be told from its program. -/

namespace Dxl

namespace Growth

/-- What is in the frame, from left to right. -/
def constituents (growth : Growth) : List Constituent :=
  Tree.constituents growth.siblings.reverse

/-- Trivia is no constituent. -/
theorem constituents_of_isTrivia {trees : List Tree}
    (trivia : ∀ tree ∈ trees, tree.isTrivia = true) : Tree.constituents trees = [] := by
  refine List.filterMap_eq_nil_iff.mpr fun tree member => ?_
  have insignificant := trivia tree member
  -- A leaf of trivia stands for no proper token, and nothing else is trivia.
  rcases tree with ⟨kind | kind, text⟩ | ⟨kind, children⟩
  · simpa [Tree.constituent?, Kind.proper?, Tree.isTrivia] using insignificant
  · cases insignificant
  · cases insignificant

variable {growth after inner : Growth} {limit : Option Nat} {symbol : Symbol}
  {seen : Option Symbol} {clean : Prop}

/-- Adding trivia adds no constituents. -/
theorem constituents_adds (adds : growth.Adds after fun tree => tree.isTrivia = true) :
    after.constituents = growth.constituents := by
  obtain ⟨added, siblings, trivia⟩ := adds
  rw [constituents, siblings, List.reverse_append, Tree.constituents_append,
    constituents_of_isTrivia fun tree member => trivia tree (List.mem_reverse.mp member),
    List.append_nil, constituents]

/-- A look changes nothing that counts, and sees a token. -/
theorem constituents_look (looked : growth.look limit = .ok (symbol, after)) :
    after.constituents = growth.constituents ∧ symbol.IsSeen := by
  refine ⟨constituents_adds (look_ok looked).2.2, ?_⟩
  -- Looking passes over trivia, and sees the token after it.
  obtain ⟨token, rest, -, -, rfl, rfl⟩ := exists_of_look looked
  exact ⟨token, rfl⟩

/-- The token that is read was seen if any was, and is added to the frame. -/
theorem constituents_bump (sees : growth.Sees seen) (bumped : growth.bump = .ok after) :
    ∃ symbol : Symbol, symbol.IsSeen ∧ symbol.Fits seen
      ∧ after.constituents = growth.constituents ++ [.token symbol.kind] := by
  obtain ⟨token, rest, found, -, rfl⟩ := exists_of_bump bumped
  refine ⟨token.symbol, ⟨token, rfl⟩, sees.fits found, ?_⟩
  -- The trivia before the token adds nothing, and the token itself is proper.
  rw [← constituents_adds growth.adds_eatTrivia]
  have proper := (next_eq found).2
  simp [constituents, addLeaf, Tree.constituents, Tree.constituent?, Token.leaf, Token.symbol,
    Kind.proper?, proper]

/-- What is in an inner frame comes after what is in the outer one. -/
theorem constituents_leave (outer inner : Growth) :
    (outer.leave inner).constituents = outer.constituents ++ inner.constituents := by
  rw [constituents, leave, List.reverse_append, Tree.constituents_append]
  rfl

/-- A closed node begins with what is in its frame. -/
theorem constituents_close (kind : NodeKind) (formed : inner.Each (Tree.Formed clean)) :
    (inner.close kind).constituents = [.node kind (leading inner.constituents)] := by
  have first : (Tree.node (.node kind) inner.siblings.reverse).first?
      = leading (Tree.constituents inner.siblings.reverse) :=
    Tree.first?_node fun child member => formed child (List.mem_reverse.mp member)
  simp [constituents, close, Tree.constituents, Tree.constituent?, first]

/-- A node that is closed as its kind demands is formed. -/
theorem formed_close {kind : NodeKind} (formed : inner.Each (Tree.Formed clean))
    (forms : kind.Forms clean inner.constituents) :
    (inner.close kind).Each (Tree.Formed clean) :=
  .close (.node (fun child member => formed child (List.mem_reverse.mp member)) forms)

/-- No step takes an error back. -/
theorem stepwise_errors :
    Stepwise fun growth after => after.report.errors = [] → growth.report.errors = [] where
  stay _ none := none
  further first second none := first (second none)
  look looked none := by rwa [(look_keeps looked).1] at none
  bump bumped none := by rwa [(bump_keeps bumped).1] at none
  -- A report is only ever added to.
  report growth mistake none := by
    simp only [Report.errors, addMistake, Report.add, List.filter_append,
      List.append_eq_nil_iff] at none
    exact none.1
  node _ within := within
  frame within := within
  wrap _ _ within := within

end Growth

/-- Errors stay when a parser is run, if they stay when rules are. -/
theorem Parser.errors_of_grow {call : Rule → Growth → Except Failure Growth}
    {limit : Option Nat} {α : Type}
    (kept : ∀ rule growth after, call rule growth = .ok after → after.report.errors = [] →
      growth.report.errors = [])
    {parser : Parser α} {growth after : Growth} {value : α}
    (grown : parser.grow call limit growth = .ok (value, after)) (none : after.report.errors = []) :
    growth.report.errors = [] :=
  Growth.stepwise_errors.grow (kept _ _ _) grown none

/-- Errors stay when a rule is run. -/
theorem Rule.errors_of_grow {limit : Option Nat} {depth : Nat} {rule : Rule}
    {growth after : Growth} (grown : rule.grow limit depth growth = .ok after)
    (none : after.report.errors = []) : growth.report.errors = [] :=
  Growth.stepwise_errors.grow_rule grown none

/-- What a rule leaves in a growth: formed trees, and what it should leave in the frame. -/
def Rule.FormsIn (clean : Prop) (rule : Rule) (growth after : Growth) : Prop :=
  growth.Each (Tree.Formed clean) → ∀ seen, growth.Sees seen →
    rule.Needs seen growth.constituents →
    after.Each (Tree.Formed clean) ∧ rule.Leaves clean growth.constituents after.constituents

open Growth in
/-- A parser grows formed trees, and leaves in the frame what it should, if the rules do that it calls; where the text is said to be clean, there are no errors in the end. -/
theorem Parser.grow_writes {call : Rule → Growth → Except Failure Growth} {limit : Option Nat}
    {clean : Prop}
    (kept : ∀ rule growth after, call rule growth = .ok after → after.report.errors = [] →
      growth.report.errors = [])
    (called : ∀ rule growth after, call rule growth = .ok after →
      (clean → after.report.errors = []) → rule.FormsIn clean growth after)
    {α : Type} {parser : Parser α} {seen : Option Symbol}
    {post : α → Option Symbol → List Constituent → Prop} {growth after : Growth} {value : α}
    (writes : parser.Writes clean seen growth.constituents post) (sees : growth.Sees seen)
    (each : growth.Each (Tree.Formed clean))
    (grown : parser.grow call limit growth = .ok (value, after))
    (spotless : clean → after.report.errors = []) :
    after.Each (Tree.Formed clean)
      ∧ ∃ known, after.Sees known ∧ post value known after.constituents := by
  have leaf : ∀ kind text, Tree.Formed clean (.leaf (.token kind) text) := .leaf
  have nothing : ∀ growth : Growth, growth.enter.Each (Tree.Formed clean) := by
    simp [Each, enter]
  -- The induction follows the program; errors in the end are there from where they are made.
  induction parser generalizing seen growth after with
  | done result =>
    cases grown
    exact ⟨each, seen, sees, writes⟩
  | andThen first next ihFirst ihNext =>
    obtain ⟨found, between, left, right⟩ := grow_bind_ok.mp grown
    obtain ⟨further, known, seesNext, holds⟩ := ihFirst writes sees each left
      fun holds => errors_of_grow kept right (spotless holds)
    exact ihNext found holds seesNext further right spotless
  | look =>
    obtain ⟨fits, seesAfter⟩ := sees.look grown
    obtain ⟨same, isSeen⟩ := constituents_look grown
    refine ⟨each.look leaf grown, some value, seesAfter, ?_⟩
    rw [same]
    exact writes value isSeen fits
  | bump =>
    rw [grow_bump_ok] at grown
    obtain ⟨symbol, isSeen, fits, same⟩ := constituents_bump sees grown
    refine ⟨each.bump leaf grown, none, after.sees_none, ?_⟩
    rw [same]
    exact writes symbol isSeen fits
  | report mistake =>
    cases grown
    -- After an error in clean text there would be an error in the end.
    refine ⟨each, seen, sees, writes fun isError holds => ?_⟩
    have none := spotless holds
    simp only [Report.errors, Growth.addMistake, Report.add, List.filter_append,
      List.append_eq_nil_iff, List.filter_cons] at none
    simp [Mistake.remark, isError] at none
  | node body ih =>
    obtain ⟨inner, left, rfl⟩ := grow_node_ok.mp grown
    -- The body starts in an empty frame.
    have entered : body.Writes clean seen growth.enter.constituents _ := writes
    obtain ⟨within, known, seesAfter, forms, holds⟩ :=
      ih entered sees.enter (nothing growth) left spotless
    refine ⟨each.leave (formed_close within forms), known, seesAfter, ?_⟩
    rw [constituents_leave, constituents_close value within]
    exact holds
  | frame body ih =>
    obtain ⟨inner, left, rfl⟩ := grow_frame_ok.mp grown
    have entered : body.Writes clean seen growth.enter.constituents _ := writes
    obtain ⟨within, known, seesAfter, holds⟩ := ih entered sees.enter (nothing growth) left spotless
    refine ⟨each.leave within, known, seesAfter, ?_⟩
    rw [constituents_leave]
    exact holds
  | wrap body ih =>
    obtain ⟨-, inner, left, rfl⟩ := grow_wrap_ok.mp grown
    have entered : body.Writes clean seen growth.enter.constituents _ := writes
    obtain ⟨within, known, seesAfter, forms, holds⟩ :=
      ih entered sees.enter (nothing growth) left spotless
    -- The node is formed of the frame and of what the body adds, which is one frame now.
    rw [← constituents_leave] at forms holds
    refine ⟨formed_close (each.leave within) forms, known, seesAfter, ?_⟩
    rw [constituents_close value (each.leave within)]
    exact holds
  | progress body ih =>
    obtain ⟨left, -⟩ := grow_progress_ok.mp grown
    obtain ⟨further, known, seesAfter, holds⟩ := ih writes sees each left spotless
    exact ⟨further, known, seesAfter, holds value⟩
  | call rule =>
    rw [grow_call_ok] at grown
    -- What the rule leaves is known from the hypothesis on rules.
    obtain ⟨formed, leaves⟩ := called rule growth after grown spotless each seen sees writes.1
    exact ⟨formed, none, after.sees_none, writes.2 _ leaves⟩

/-- What a rule reads is formed as it should be if that can be told from the bodies of all rules. -/
theorem Rule.formsIn_of_grow {clean : Prop} {limit : Option Nat}
    (bodies : ∀ (rule : Rule) seen frame, rule.Needs seen frame →
      rule.body.Writes clean seen frame fun _ _ after => rule.Leaves clean frame after)
    {depth : Nat} {rule : Rule} {growth after : Growth}
    (grown : rule.grow limit depth growth = .ok after) (spotless : clean → after.report.errors = []) :
    rule.FormsIn clean growth after := by
  induction depth generalizing rule growth after with
  | zero => cases grown
  | succ depth ih =>
    -- Of the errors in the end it is known that none are taken back by further calls.
    intro each seen sees needs
    obtain ⟨formed, _, -, leaves⟩ := Parser.grow_writes
      (fun _ _ _ called => Rule.errors_of_grow called) (fun _ _ _ called => ih called)
      (bodies rule seen _ needs) sees each (Rule.grow_ok.mp grown) spotless
    exact ⟨formed, leaves⟩

end Dxl
