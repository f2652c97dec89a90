import Dxl.Proofs.Grammar.Discipline
import Dxl.Proofs.Grammar.Inversion

/-! Courses: what every step of a discipline keeps to holds from the beginning to the end of whatever obeys it. -/

namespace Dxl

/-- How a state and what has grown can go on, over any part of a run. -/
abbrev Course (State : Type) := State → Growth → State → Growth → Prop

/-- A run keeps to a course and ends in a state that is true of what has grown and as it should be. -/
def Course.Leads {State : Type} (course : Course State) (valid : State → Growth → Prop)
    (state : State) (growth after : Growth) (post : State → Prop) : Prop :=
  ∃ ending, post ending ∧ valid ending after ∧ course state growth ending after

/-- Every step that a discipline allows keeps to a course as long as its states are true, and the course holds of whole runs if it does of their steps. -/
structure Discipline.Steers {State : Type} (discipline : Discipline State)
    (call : Rule → Growth → Except Failure Growth) (limit : Option Nat)
    (valid : State → Growth → Prop) (course : Course State) : Prop where
  stay : ∀ state growth, course state growth state growth
  further : ∀ {state between ending growth middle after}, course state growth between middle →
    course between middle ending after → course state growth ending after
  begin : ∀ {state growth}, valid state growth → valid state growth.enter
  enter : ∀ {state growth}, valid state growth → valid (discipline.enter state) growth
  look : ∀ {state growth after symbol} {post : Symbol → State → Prop}, valid state growth →
    discipline.look state post → growth.look limit = .ok (symbol, after) →
    course.Leads valid state growth after (post symbol)
  bump : ∀ {state growth after} {post : State → Prop}, valid state growth →
    discipline.bump state post → growth.bump = .ok after →
    course.Leads valid state growth after post
  report : ∀ {mistake state growth} {post : State → Prop}, valid state growth →
    discipline.report mistake state post →
    course.Leads valid state growth (growth.addMistake mistake) post
  node : ∀ {kind state inside growth inner} {post : State → Prop}, valid inside inner →
    course (discipline.enter state) growth.enter inside inner → discipline.close kind inside post →
    course.Leads valid state growth (growth.leave (inner.close kind)) post
  frame : ∀ {state inside growth inner}, valid inside inner →
    course state growth.enter inside inner →
    valid inside (growth.leave inner) ∧ course state growth inside (growth.leave inner)
  wrap : ∀ {kind state inside growth inner} {post : State → Prop}, growth.opening = .node →
    valid inside inner → course (discipline.enter state) growth.enter inside inner →
    discipline.close kind inside post →
    course.Leads valid state growth ((growth.leave inner).close kind) post
  progress : ∀ {state inside growth after} {post : Bool → State → Prop},
    discipline.progress state inside post → valid inside after → course state growth inside after →
    course.Leads valid state growth after (post (after.hasProgressed growth.rest))
  call : ∀ {rule state growth after} {post : State → Prop}, valid state growth →
    discipline.call rule state post → call rule growth = .ok after →
    course.Leads valid state growth after post

/-- What obeys a discipline keeps to every course that the discipline steers. -/
theorem Parser.grow_course {State : Type} {discipline : Discipline State}
    {call : Rule → Growth → Except Failure Growth} {limit : Option Nat}
    {valid : State → Growth → Prop} {course : Course State}
    (steers : discipline.Steers call limit valid course) {α : Type} {parser : Parser α}
    {state : State} {post : α → State → Prop} (obeys : parser.Obeys discipline state post)
    {growth after : Growth} (begins : valid state growth) {value : α}
    (grown : parser.grow call limit growth = .ok (value, after)) :
    course.Leads valid state growth after (post value) := by
  -- The induction follows the program; inner frames run a course of their own.
  induction parser generalizing state growth after with
  | done result =>
    cases grown
    exact ⟨state, obeys, begins, steers.stay state growth⟩
  | andThen first next ihFirst ihNext =>
    obtain ⟨found, between, left, right⟩ := grow_bind_ok.mp grown
    obtain ⟨middle, holds, known, early⟩ := ihFirst obeys begins left
    obtain ⟨ending, reached, ends, late⟩ := ihNext found holds known right
    exact ⟨ending, reached, ends, steers.further early late⟩
  | look => exact steers.look begins obeys grown
  | bump => exact steers.bump begins obeys (grow_bump_ok.mp grown)
  | report mistake =>
    cases grown
    exact steers.report begins obeys
  | node body ih =>
    obtain ⟨inner, left, rfl⟩ := grow_node_ok.mp grown
    obtain ⟨inside, closes, known, within⟩ := ih obeys (steers.enter (steers.begin begins)) left
    exact steers.node known within closes
  | frame body ih =>
    obtain ⟨inner, left, rfl⟩ := grow_frame_ok.mp grown
    obtain ⟨inside, holds, known, within⟩ := ih obeys (steers.begin begins) left
    exact ⟨inside, holds, steers.frame known within⟩
  | wrap body ih =>
    obtain ⟨operand, inner, left, rfl⟩ := grow_wrap_ok.mp grown
    obtain ⟨inside, closes, known, within⟩ := ih obeys (steers.enter (steers.begin begins)) left
    exact steers.wrap operand known within closes
  | progress body ih =>
    obtain ⟨left, rfl⟩ := grow_progress_ok.mp grown
    obtain ⟨inside, holds, known, within⟩ := ih obeys begins left
    exact steers.progress holds known within
  | call rule => exact steers.call begins obeys (grow_call_ok.mp grown)

end Dxl
