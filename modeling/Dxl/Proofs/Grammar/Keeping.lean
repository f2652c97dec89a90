import Dxl.Proofs.Grammar.Careful
import Dxl.Proofs.Grammar.Course

/-! Keeping: what every careful step keeps to holds of whole rules, however deeply they call each other. -/

namespace Dxl

namespace Growth

variable {growth after : Growth} {limit : Option Nat} {symbol : Symbol}

/-- What a look sees is there after it. -/
theorem sees_of_look (looked : growth.look limit = .ok (symbol, after)) : after.Sees (some symbol) :=
  (growth.sees_none.look looked).2

/-- A look sees the symbol of a token. -/
theorem sane_of_look (looked : growth.look limit = .ok (symbol, after)) : symbol.Sane := by
  obtain ⟨token, rest, -, -, rfl⟩ := sees_of_look looked symbol rfl
  exact token.sane_symbol

end Growth

/-- Every careful step keeps to a course, whose phases may forget what was seen, and qualifiers keep to it along with their warnings. -/
structure Course.Kept (course : Course Attention) (makes : NodeKind → Prop) (limit : Option Nat) :
    Prop where
  stay : ∀ state growth, course state growth state growth
  further : ∀ {state between ending growth middle after}, course state growth between middle →
    course between middle ending after → course state growth ending after
  calm : ∀ {seen phase} growth, phase.isSettled = true →
    course ⟨seen, phase⟩ growth ⟨none, .calm⟩ growth
  pass : ∀ {seen phase} growth, phase.isPassable = true →
    course ⟨seen, phase⟩ growth ⟨none, .passing⟩ growth
  look : ∀ {seen phase growth symbol after}, growth.look limit = .ok (symbol, after) →
    course ⟨seen, phase⟩ growth ⟨some symbol, phase.looked⟩ after
  bump : ∀ {symbol growth after}, growth.Sees (some symbol) → symbol.kind.isForeign = false →
    growth.bump = .ok after → course ⟨some symbol, .calm⟩ growth ⟨none, .calm⟩ after
  skip : ∀ {seen phase growth after}, phase ≠ .calm → growth.bump = .ok after →
    course ⟨seen, phase⟩ growth ⟨none, phase.passed⟩ after
  report : ∀ {mistake symbol phase growth}, growth.Sees (some symbol) →
    mistake.severity = .error → mistake.TellsOf symbol.kind → phase.isSettled = true →
    course ⟨some symbol, phase⟩ growth ⟨some symbol, .noted⟩ (growth.addMistake mistake)
  node : ∀ {kind seen phase growth inside inner}, kind ≠ .ignored → makes kind →
    inside.phase.Closes kind → course ⟨seen, phase.entered⟩ growth.enter inside inner →
    course ⟨seen, phase⟩ growth ⟨inside.seen, .calm⟩ (growth.leave (inner.close kind))
  frame : ∀ {state growth inside inner}, course state growth.enter inside inner →
    course state growth inside (growth.leave inner)
  wrap : ∀ {kind seen phase growth inside inner}, growth.opening = .node → kind ≠ .ignored →
    makes kind → inside.phase.Closes kind →
    course ⟨seen, phase.entered⟩ growth.enter inside inner →
    course ⟨seen, phase⟩ growth ⟨inside.seen, .calm⟩ ((growth.leave inner).close kind)
  warn : ∀ {symbol : Symbol} {word : Keyword} {growth read : Growth},
    word = .constWord ∨ word = .staticWord → symbol.kind = .keyword word →
    growth.Sees (some symbol) →
    (growth.addMistake (.ignoredQualifier word)).enter.bump = .ok read →
    course ⟨some symbol, .calm⟩ growth ⟨none, .calm⟩
      ((growth.addMistake (.ignoredQualifier word)).leave (read.close .ignored))

/-- The rules that are called keep to a course. -/
def Course.Called (course : Course Attention) (calls : Rule → Prop)
    (call : Rule → Growth → Except Failure Growth) : Prop :=
  ∀ {rule growth after}, calls rule → call rule growth = .ok after →
    course ⟨none, rule.phase⟩ growth ⟨none, rule.phase⟩ after

namespace Course.Kept

open Dxl.Parser

variable {course : Course Attention} {makes : NodeKind → Prop} {calls : Rule → Prop}
  {limit : Option Nat} {call : Rule → Growth → Except Failure Growth} {growth after : Growth}

/-- A rule that is called keeps to the course from any phase in which it can be called. -/
theorem call_rule (kept : course.Kept makes limit) (called : course.Called calls call) {rule : Rule}
    (may : calls rule) {seen : Option Symbol} {phase : Phase} (fits : phase.Calls rule)
    (grown : call rule growth = .ok after) :
    course ⟨seen, phase⟩ growth ⟨none, rule.phase⟩ after := by
  refine kept.further ?_ (called may grown)
  -- Only the rule that passes over tokens begins where some are passed over.
  by_cases passes : rule = .recovery
  · subst passes
    exact kept.pass growth fits
  · have calm : rule.phase = .calm := by
      cases rule <;> first | rfl | exact absurd rfl passes
    rw [Phase.Calls, if_neg passes] at fits
    rw [calm]
    exact kept.calm growth fits

/-- Care steers every course that is kept, as long as what was seen is still there. -/
theorem steers (kept : course.Kept makes limit) (called : course.Called calls call) :
    (care makes calls).Steers call limit (fun state growth => growth.Sees state.seen) course where
  stay := kept.stay
  further := kept.further
  begin sees := sees
  enter sees := sees
  look {state growth after symbol post} sees allowed looked := by
    obtain ⟨fits, seesAfter⟩ := sees.look looked
    have sane : symbol.Sane := Growth.sane_of_look looked
    exact ⟨_, allowed symbol fits sane, seesAfter, kept.look looked⟩
  -- Whether a token must be of use depends on the phase in which it is read.
  bump {state growth after post} sees allowed bumped := by
    obtain ⟨seen, phase⟩ := state
    by_cases calm : phase = .calm
    · subst calm
      obtain ⟨⟨symbol, rfl, useful⟩, holds⟩ := allowed
      exact ⟨_, holds, after.sees_none, kept.bump sees useful bumped⟩
    · refine ⟨⟨none, phase.passed⟩, ?_, after.sees_none, kept.skip calm bumped⟩
      cases phase <;> first | exact absurd rfl calm | exact allowed
  report {mistake state growth post} sees allowed := by
    obtain ⟨seen, phase⟩ := state
    obtain ⟨isError, settled, ⟨symbol, rfl, tells⟩, holds⟩ := allowed
    exact ⟨_, holds, sees, kept.report sees isError tells settled⟩
  node sees within closes := by
    obtain ⟨unmarked, may, fits, holds⟩ := closes
    exact ⟨_, holds, sees, kept.node unmarked may fits within⟩
  frame sees within := ⟨sees, kept.frame within⟩
  wrap operand sees within closes := by
    obtain ⟨unmarked, may, fits, holds⟩ := closes
    exact ⟨_, holds, sees, kept.wrap operand unmarked may fits within⟩
  progress holds sees within := ⟨_, holds _, sees, within⟩
  call {rule state growth after post} _ allowed grown := by
    obtain ⟨may, fits, holds⟩ := allowed
    exact ⟨_, holds, after.sees_none, kept.call_rule called may fits grown⟩

/-- What is read with care gives what it should and keeps to the course. -/
theorem grow_careful (kept : course.Kept makes limit) (called : course.Called calls call)
    {α : Type} {given : α → Prop} {parser : Parser α} (careful : parser.Careful makes calls given)
    {value : α} (grown : parser.grow call limit growth = .ok (value, after)) :
    given value ∧ course ⟨none, .calm⟩ growth ⟨none, .calm⟩ after := by
  have obeys := careful ⟨none, .calm⟩ (fun value after => given value ∧ after.phase.isSettled = true)
    rfl fun _ _ holds settled => ⟨holds, settled⟩
  obtain ⟨ending, ⟨holds, settled⟩, -, led⟩ :=
    grow_course (kept.steers called) obeys growth.sees_none grown
  exact ⟨holds, kept.further led (kept.calm after settled)⟩

/-- A qualifier keeps to the course, whether there is one or not. -/
theorem grow_qualifier (kept : course.Kept makes limit) {value : Unit}
    (grown : Grammar.qualifier.grow call limit growth = .ok (value, after)) :
    course ⟨none, .calm⟩ growth ⟨none, .calm⟩ after := by
  obtain ⟨found, first, tested, rest⟩ := grow_bind_ok.mp grown
  obtain ⟨symbol, looked, matched⟩ := grow_test_ok tested
  obtain ⟨seen, next, -⟩ := Growth.look_ok looked
  have begins : course ⟨none, .calm⟩ growth ⟨some symbol, .calm⟩ first := kept.look looked
  split at rest
  · rename_i qualified
    obtain ⟨again, second, relooked, rest⟩ := grow_bind_ok.mp rest
    -- The second look sees the same qualifier.
    obtain ⟨same, -, -⟩ := Growth.look_ok relooked
    obtain rfl : again = symbol := by rw [same, next, seen]
    obtain ⟨_, noted, warned, rest⟩ := grow_bind_ok.mp rest
    obtain ⟨_, between, made, returned⟩ := grow_bind_ok.mp rest
    obtain ⟨inner, body, rfl⟩ := grow_node_ok.mp made
    obtain ⟨_, read, bumped, given⟩ := grow_bind_ok.mp body
    obtain ⟨rfl, rfl⟩ := grow_pure_ok.mp given
    obtain ⟨-, rfl⟩ := grow_pure_ok.mp returned
    have word : ∃ word, (word = .constWord ∨ word = .staticWord) ∧ again.kind = .keyword word := by
      simp only [← matched, List.contains_iff_mem, List.mem_cons, List.not_mem_nil, or_false]
        at qualified
      rcases qualified with isConst | isStatic
      · exact ⟨_, .inl rfl, isConst⟩
      · exact ⟨_, .inr rfl, isStatic⟩
    obtain ⟨word, qualifier, kind⟩ := word
    rw [kind] at warned
    cases warned
    have ends := kept.warn qualifier kind (Growth.sees_of_look relooked) (grow_bump_ok.mp bumped)
    exact kept.further (kept.further begins (kept.look relooked)) ends
  · obtain ⟨-, rfl⟩ := grow_pure_ok.mp rest
    exact kept.further begins (kept.calm _ rfl)

/-- Whatever reads no operands keeps to the course if the rules do that it calls. -/
theorem grow_body (kept : course.Kept makes limit)
    (simple : ∀ kind : NodeKind, kind.IsSimple → makes kind)
    (plain : ∀ rule : Rule, rule.IsPlain → calls rule) (called : course.Called calls call)
    {rule : Rule} (isStatement : rule.isStatement = true ∨ rule = .declaration ∨ rule = .recovery)
    {value : Unit} (grown : rule.body.grow call limit growth = .ok (value, after)) :
    course ⟨none, rule.phase⟩ growth ⟨none, rule.phase⟩ after := by
  rcases isStatement with isStatement | rfl | rfl
  · have calm : rule.phase = .calm := by
      cases rule <;> first | rfl | cases isStatement
    rw [calm]
    exact (kept.grow_careful called (Grammar.careful_body simple plain isStatement) grown).2
  · -- The qualifier comes before all that is careful.
    obtain ⟨_, between, qualifier, rest⟩ := grow_bind_ok.mp grown
    exact kept.further (kept.grow_qualifier qualifier)
      (kept.grow_careful called (Grammar.careful_qualified simple plain) rest).2
  · obtain ⟨⟨seen, phase⟩, passing, -, holds⟩ := grow_course (kept.steers called)
      (Grammar.obeys_recovery plain) growth.sees_none grown
    obtain rfl : phase = .passing := passing
    exact kept.further holds (kept.pass after rfl)

/-- Every rule keeps to a course, however deeply its calls may nest. -/
theorem grow_rule (kept : course.Kept (fun _ => True) limit) {rule : Rule} {depth : Nat}
    (grown : rule.grow limit depth growth = .ok after) :
    course ⟨none, rule.phase⟩ growth ⟨none, rule.phase⟩ after := by
  -- Calls nest less deeply than the rule that makes them.
  induction depth generalizing rule growth after with
  | zero => cases grown
  | succ depth ih =>
    have body := Rule.grow_ok.mp grown
    have called : course.Called (fun _ => True) fun rule => rule.grow limit depth :=
      fun _ inner => ih inner
    cases rule with
    | expression power => exact (kept.grow_careful called (Grammar.careful_expression power) body).2
    | operators made power =>
      exact (kept.grow_careful called (Grammar.careful_operators made power) body).2
    | declaration =>
      exact kept.grow_body (fun _ _ => trivial) (fun _ _ => trivial) called (.inr (.inl rfl)) body
    | recovery =>
      exact kept.grow_body (fun _ _ => trivial) (fun _ _ => trivial) called (.inr (.inr rfl)) body
    | _ => exact kept.grow_body (fun _ _ => trivial) (fun _ _ => trivial) called (.inl rfl) body

end Course.Kept

end Dxl
