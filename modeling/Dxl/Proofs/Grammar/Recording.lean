import Dxl.Proofs.Grammar.Brackets
import Dxl.Proofs.Grammar.Growth

/-! Recording: the events of a parser, once assembled, make the tree that the parser grows. -/

namespace Dxl

/-- A closed node that was recorded and can be given a wrapper. -/
structure Operand (first : Nat) (entries : List Event) (brackets : List Bracket) : Prop where
  recorded : Recorded none first entries brackets
  linkable : ∀ (before after : List Event) (wrapper : Nat), before.length = first →
    ∃ linked : List Event, linked.length = entries.length
      ∧ Recorded (some wrapper) first linked brackets
      ∧ Recorder.link (before ++ (entries ++ after)).toArray first wrapper
          = .ok (before ++ (linked ++ after)).toArray

/-- What is recorded stands in the record. -/
theorem holds_toArray (before entries after : List Event) :
    Holds (before ++ (entries ++ after)).toArray before.length entries := by
  intro index event found
  have inside := (List.getElem?_eq_some_iff.mp found).1
  rw [List.getElem?_toArray, List.getElem?_append_right (by omega), Nat.add_sub_cancel_left,
    List.getElem?_append_left inside]
  exact found

/-- A start without a wrapper is given one. -/
theorem link_last {events : Array Event} {index : Nat} {kind : NodeKind}
    (found : events[index]? = some (.start kind none)) (wrapper : Nat) :
    Recorder.link events index wrapper
      = .ok (events.setIfInBounds index (.start kind (some wrapper))) := by
  -- The search ends at this start, as it names no wrapper.
  rw [Recorder.link]
  split
  · rename_i located
    rw [found] at located
    cases located
    rfl
  · rename_i located
    rw [found] at located
    cases located
  · rename_i missing _
    exact absurd found (missing _)

/-- A start with a wrapper hands a further one on to it. -/
theorem link_next {events : Array Event} {index next : Nat} {kind : NodeKind}
    (found : events[index]? = some (.start kind (some next))) (forwards : index < next)
    (wrapper : Nat) : Recorder.link events index wrapper = Recorder.link events next wrapper := by
  -- The search goes on at the wrapper, which comes later in the record.
  rw [Recorder.link]
  split
  · rename_i located
    rw [found] at located
    cases located
  · rename_i located
    rw [found] at located
    cases located
    rw [if_pos forwards]
  · rename_i _ missing
    exact absurd found (missing _ _)

/-- Whatever has no closed start at an index cannot be linked. -/
theorem link_fails {events : Array Event} {index : Nat}
    (missing : ∀ kind wrapper, events[index]? ≠ some (.start kind wrapper)) (wrapper : Nat) :
    Recorder.link events index wrapper = .error .notClosed := by
  rw [Recorder.link]
  split
  · rename_i located
    exact absurd located (missing _ _)
  · rename_i located
    exact absurd located (missing _ _)
  · rfl

/-- The wrappers of a recorded node lead to the one it was given. -/
theorem link_recorded {outer : Option Nat} {first : Nat} {entries : List Event}
    {brackets : List Bracket} (recorded : Recorded outer first entries brackets)
    {events : Array Event} (holds : Holds events first entries) {next : Nat}
    (wrapped : outer = some next) (later : first + entries.length ≤ next) (wrapper : Nat) :
    Recorder.link events first wrapper = Recorder.link events next wrapper := by
  -- The induction is on how the node was recorded; only nodes have wrappers.
  induction recorded generalizing next with
  | nil | token | mistake | append => cases wrapped
  | node _ _ =>
    subst wrapped
    simp only [List.length_cons] at later
    exact link_next (holds_cons.mp holds).1 (by omega) wrapper
  | wrap _ _ placed _ ih _ _ =>
    -- The operand leads to the start of the node, which leads on.
    subst wrapped placed
    obtain ⟨holdsOperand, holdsRest⟩ := holds_append.mp holds
    have found := (holds_cons.mp (holds_append.mp holdsRest).2).1
    simp only [List.length_append, List.length_cons] at later
    rw [ih holdsOperand rfl (by omega)]
    exact link_next found (by omega) wrapper

/-- Replacing an event after the first ones replaces it in what follows them. -/
theorem set_toArray (before : List Event) (old new : Event) (after : List Event) :
    (before ++ old :: after).toArray.setIfInBounds before.length new
      = (before ++ new :: after).toArray := by
  simp

/-- A node that was opened and closed is an operand. -/
theorem Operand.node {first : Nat} {kind : NodeKind} {inner : List Event}
    {brackets : List Bracket} (recorded : Recorded none (first + 1) inner brackets) :
    Operand first (.start kind none :: (inner ++ [.finish]))
      (.opening kind :: (brackets ++ [.closing])) where
  recorded := .node recorded
  linkable := by
    rintro before after wrapper rfl
    have found := (holds_cons.mp
      (holds_toArray before (.start kind none :: (inner ++ [.finish])) after)).1
    refine ⟨.start kind (some wrapper) :: (inner ++ [.finish]), rfl, .node recorded, ?_⟩
    rw [link_last found, List.cons_append, set_toArray, List.cons_append]

/-- A node that was opened around an operand is an operand. -/
theorem Operand.wrap {first index : Nat} {kind : NodeKind} {operand between inner : List Event}
    {operandBrackets betweenBrackets brackets : List Bracket}
    (recordedOperand : Recorded (some index) first operand operandBrackets)
    (recordedBetween : Recorded none (first + operand.length) between betweenBrackets)
    (placed : index = first + operand.length + between.length)
    (recorded : Recorded none (index + 1) inner brackets) :
    Operand first (operand ++ (between ++ (.start kind none :: (inner ++ [.finish]))))
      (.opening kind :: (operandBrackets ++ (betweenBrackets ++ (brackets ++ [.closing])))) where
  recorded := .wrap recordedOperand recordedBetween placed recorded
  linkable := by
    rintro before after wrapper rfl
    refine ⟨operand ++ (between ++ (.start kind (some wrapper) :: (inner ++ [.finish]))), by simp,
      .wrap recordedOperand recordedBetween placed recorded, ?_⟩
    have holds := holds_toArray before
      (operand ++ (between ++ (.start kind none :: (inner ++ [.finish])))) after
    obtain ⟨holdsOperand, holdsRest⟩ := holds_append.mp holds
    have found := (holds_cons.mp (holds_append.mp holdsRest).2).1
    -- The operand leads to the start of the node, which has no wrapper yet.
    rw [link_recorded recordedOperand holdsOperand rfl (by omega), placed, link_last found]
    have replaced := set_toArray (before ++ (operand ++ between)) (.start kind none)
      (.start kind (some wrapper)) (inner ++ [.finish] ++ after)
    simp only [List.length_append, ← Nat.add_assoc, List.append_assoc, List.cons_append]
      at replaced ⊢
    rw [replaced]

/-- What was recorded in a frame, by what the frame begins with. -/
inductive Contents (first : Nat) : Opening → List Event → List Bracket → Prop
  | nothing : Contents first .nothing [] []
  | node {operand between : List Event} {operandBrackets brackets : List Bracket} :
    Operand first operand operandBrackets →
    Recorded none (first + operand.length) between brackets →
    Contents first .node (operand ++ between) (operandBrackets ++ brackets)
  | other {entry : Event} {entries : List Event} {brackets : List Bracket} :
    Recorded none first (entry :: entries) brackets →
    (∀ kind wrapper, entry ≠ .start kind wrapper) →
    Contents first .other (entry :: entries) brackets

namespace Contents

/-- What a frame contains is recorded. -/
theorem recorded {first : Nat} {opening : Opening} {entries : List Event}
    {brackets : List Bracket} (contents : Contents first opening entries brackets) :
    Recorded none first entries brackets := by
  cases contents with
  | nothing => exact .nil
  | node operand between => exact operand.recorded.append between
  | other recorded _ => exact recorded

/-- A frame begins with the same after more is recorded. -/
theorem append {first : Nat} {opening added : Opening} {left right : List Event}
    {leftBrackets rightBrackets : List Bracket}
    (contents : Contents first opening left leftBrackets)
    (further : Contents (first + left.length) added right rightBrackets) :
    Contents first (opening.orElse added) (left ++ right) (leftBrackets ++ rightBrackets) := by
  cases contents with
  | nothing => simpa [Opening.orElse] using further
  | node operand between =>
    rw [List.append_assoc, List.append_assoc]
    refine .node operand (between.append ?_)
    simpa [Nat.add_assoc] using further.recorded
  | other recorded blocked => exact .other (recorded.append further.recorded) blocked

/-- A single node is an operand. -/
theorem ofOperand {first : Nat} {entries : List Event} {brackets : List Bracket}
    (operand : Operand first entries brackets) : Contents first .node entries brackets := by
  simpa using node operand .nil

end Contents

/-- The draft of a growth, given what is open around it and what is left of it. -/
def Growth.draft (growth : Growth) (parents : List (NodeKind × List Tree)) (left : List Tree) :
    Draft :=
  ⟨growth.rest, growth.offset, ⟨parents, growth.siblings ++ left, ()⟩, growth.report⟩

/-- Brackets lead from one growth to another, whatever is around them. -/
def Builds (brackets : List Bracket) (growth after : Growth) : Prop :=
  ∀ parents left, Draft.handleAll brackets (growth.draft parents left) = .ok (after.draft parents left)

/-- A record of a frame follows the growth of its trees. -/
structure Tracks (before : List Event) (origin : Growth) (recorder : Recorder) (growth : Growth) :
    Prop where
  rest : recorder.rest = growth.rest
  looks : recorder.looks = growth.looks
  head : recorder.head = before.length
  empty : origin.siblings = []
  contents : ∃ entries brackets, recorder.events = (before ++ entries).toArray
    ∧ Contents before.length growth.opening entries brackets ∧ Builds brackets origin growth

/-- Brackets that follow one another lead on. -/
theorem Builds.append {left right : List Bracket} {growth between after : Growth}
    (first : Builds left growth between) (second : Builds right between after) :
    Builds (left ++ right) growth after := fun parents around =>
  Draft.handleAll_append.mpr ⟨_, first parents around, second parents around⟩

/-- A record goes on following a growth when both are extended alike. -/
theorem Tracks.extend {before : List Event} {origin growth after : Growth}
    {recorder extended : Recorder} (tracks : Tracks before origin recorder growth)
    {opening : Opening} (added : List Event) {brackets : List Bracket}
    (events : extended.events = recorder.events ++ added.toArray)
    (head : extended.head = recorder.head) (rest : extended.rest = after.rest)
    (looks : extended.looks = after.looks)
    (contents : Contents recorder.events.size opening added brackets)
    (builds : Builds brackets growth after)
    (opened : after.opening = growth.opening.orElse opening) :
    Tracks before origin extended after := by
  -- Events and brackets are added at the end of those that are there.
  obtain ⟨entries, earlier, recorded, frame, built⟩ := tracks.contents
  refine ⟨rest, looks, head.trans tracks.head, tracks.empty, entries ++ added, earlier ++ brackets,
    ?_, ?_, built.append builds⟩
  · rw [events, recorded, List.append_toArray, List.append_assoc]
  · rw [opened]
    rw [recorded, List.size_toArray, List.length_append] at contents
    exact frame.append contents

/-- Read tokens cannot be wrapped. -/
theorem contents_tokens (first : Nat) (read : List Token) :
    Contents first (if read.isEmpty then .nothing else .other)
      (read.map fun _ => .token) (read.map fun _ => .token) := by
  -- A row of tokens is recorded one by one.
  have recorded : ∀ (read : List Token) (first : Nat), Recorded none first
      (read.map fun _ => .token) (read.map fun _ => .token) := by
    intro read
    induction read with
    | nil => exact fun _ => .nil
    | cons token rest ih => exact fun first => Recorded.token.append (ih _)
  cases read with
  | nil => exact .nothing
  | cons token rest => exact .other (recorded (token :: rest) first) (by simp)

/-- Read tokens become leaves. -/
theorem builds_tokens {growth : Growth} {read rest : List Token}
    (split : growth.rest = read ++ rest) :
    Builds (read.map fun _ => .token) growth (read.foldl Growth.addLeaf growth) := by
  -- Each token is dealt with before the others are.
  induction read generalizing growth with
  | nil => exact fun _ _ => rfl
  | cons token read ih =>
    rw [List.map_cons, ← List.singleton_append, List.foldl_cons]
    refine Builds.append (fun parents left => ?_) (ih (by rw [Growth.addLeaf, split]; rfl))
    simp [Draft.handle, Draft.addToken, Growth.draft, split, Growth.addLeaf, Builder.addLeaf,
      Token.leaf]

/-- Tokens are read by both sides alike. -/
theorem Tracks.read {before : List Event} {origin growth : Growth} {recorder : Recorder}
    (tracks : Tracks before origin recorder growth) {tokens rest : List Token}
    (split : growth.rest = tokens ++ rest) :
    Tracks before origin
      { recorder with
        rest, events := recorder.events ++ (tokens.map fun _ => Event.token).toArray }
      (tokens.foldl Growth.addLeaf growth) :=
  tracks.extend _ rfl rfl (Growth.rest_foldl_addLeaf split).symm
    (tracks.looks.trans (Growth.looks_foldl_addLeaf tokens growth).symm)
    (contents_tokens _ tokens) (builds_tokens split) (Growth.opening_foldl_addLeaf tokens growth)

/-- Trivia is read by both sides alike. -/
theorem Tracks.eatTrivia {before : List Event} {origin growth : Growth} {recorder : Recorder}
    (tracks : Tracks before origin recorder growth) :
    Tracks before origin recorder.eatTrivia growth.eatTrivia := by
  rw [Recorder.eatTrivia, tracks.rest]
  exact tracks.read List.takeWhile_append_dropWhile.symm

/-- Looks are counted by both sides alike. -/
theorem Tracks.withLooks {before : List Event} {origin growth : Growth} {recorder : Recorder}
    (tracks : Tracks before origin recorder growth) (looks : Nat) :
    Tracks before origin { recorder with looks } { growth with looks } :=
  ⟨tracks.rest, rfl, tracks.head, tracks.empty, tracks.contents⟩

/-- Both sides note a mistake at the same offset. -/
theorem Tracks.addMistake {before : List Event} {origin growth : Growth} {recorder : Recorder}
    (tracks : Tracks before origin recorder growth) (mistake : Mistake) :
    Tracks before origin (recorder.push (.mistake mistake)) (growth.addMistake mistake) :=
  tracks.extend [.mistake mistake] (by simp [Recorder.push]) rfl tracks.rest tracks.looks
    (.other .mistake (by simp)) (fun _ _ => by simp [Draft.handle]; rfl) rfl

/-- A frame begins without anything in it. -/
theorem Tracks.enter {recorder : Recorder} {growth : Growth} (rest : recorder.rest = growth.rest)
    (looks : recorder.looks = growth.looks) (head : recorder.head = recorder.events.size) :
    Tracks recorder.events.toList growth.enter recorder growth.enter :=
  ⟨rest, looks, by simpa using head, rfl, [], [], by simp, .nothing, fun _ _ => rfl⟩

/-- What an inner frame contains joins the outer one. -/
theorem Tracks.leave {before : List Event} {origin growth grown : Growth}
    {recorder recorded : Recorder} (tracks : Tracks before origin recorder growth)
    (inner : Tracks recorder.events.toList growth.enter recorded grown) :
    Tracks before origin { recorded with head := recorder.head } (growth.leave grown) := by
  obtain ⟨entries, brackets, events, contents, builds⟩ := inner.contents
  refine tracks.extend entries (by simp [events]) rfl inner.rest inner.looks
    (by simpa using contents) (fun parents left => ?_) rfl
  have built := builds parents (growth.siblings ++ left)
  simpa [Growth.draft, Growth.enter, Growth.leave] using built

/-- A node that is closed joins the frame in which it was opened. -/
theorem Tracks.node {before : List Event} {origin growth grown : Growth}
    {recorder recorded : Recorder} (tracks : Tracks before origin recorder growth)
    (inner : Tracks recorder.openNode.events.toList growth.enter recorded grown)
    (kind : NodeKind) :
    Tracks before origin
      { recorded.closeNode recorder.events.size kind with head := recorder.head }
      (growth.leave (grown.close kind)) := by
  obtain ⟨entries, brackets, events, contents, builds⟩ := inner.contents
  have opened : recorder.openNode.events.toList = recorder.events.toList ++ [.pending] := by
    simp [Recorder.openNode, Recorder.push]
  have node : Operand recorder.events.size (.start kind none :: (entries ++ [.finish])) _ :=
    .node (by simpa [opened] using contents.recorded)
  have closed := set_toArray recorder.events.toList .pending (.start kind none) entries
  refine tracks.extend (.start kind none :: (entries ++ [.finish])) ?_ rfl inner.rest
    inner.looks (.ofOperand node) (fun parents left => ?_) rfl
  · simp only [Array.length_toList] at closed
    rw [Recorder.closeNode, events, opened, List.append_assoc, List.singleton_append, closed]
    simp
  · -- The node is opened inside of the outer frame and closed after its content.
    have built := builds ((kind, growth.siblings ++ left) :: parents) []
    rw [Draft.handleAll_opening, Draft.handleAll_append]
    refine ⟨_, built, ?_⟩
    simp [Draft.handle, Draft.closeNode, Builder.finishNode, Growth.draft, Growth.leave,
      Growth.close]

/-- A node can be opened around the operand of a frame, and takes in everything in the frame when it is closed. -/
theorem Tracks.wrap {before : List Event} {origin growth : Growth} {recorder : Recorder}
    (tracks : Tracks before origin recorder growth) (operand : growth.opening = .node) :
    ∃ opened, recorder.openBefore = .ok opened
      ∧ Tracks opened.events.toList growth.enter opened growth.enter
      ∧ ∀ kind recorded grown, Tracks opened.events.toList growth.enter recorded grown →
          Tracks before origin
            { recorded.closeNode recorder.events.size kind with head := recorder.head }
            ((growth.leave grown).close kind) := by
  obtain ⟨entries, brackets, events, contents, builds⟩ := tracks.contents
  rw [operand] at contents
  cases contents with
  | @node operand between operandBrackets betweenBrackets closed recordedBetween =>
    obtain ⟨linked, sameLength, recordedLinked, linking⟩ :=
      closed.linkable before (between ++ [.pending]) recorder.events.size rfl
    have size : recorder.events.size = before.length + operand.length + between.length := by
      simp only [events, List.size_toArray, List.length_append, Nat.add_assoc]
    have pushed : recorder.openNode.events
        = (before ++ (operand ++ (between ++ [Event.pending]))).toArray := by
      simp [Recorder.openNode, Recorder.push, events]
    let opened : Recorder := { recorder.openNode with
      events := (before ++ (linked ++ (between ++ [Event.pending]))).toArray }
    have head : opened.head = opened.events.size := by
      simp [opened, Recorder.openNode, Recorder.push, sameLength, size, Nat.add_assoc]
    refine ⟨opened, ?_, .enter tracks.rest tracks.looks head, fun kind recorded grown inner => ?_⟩
    · -- The operand is linked to the start that is to come.
      simp only [Recorder.openBefore, pushed, tracks.head, linking, opened]
    · obtain ⟨added, addedBrackets, extended, innerContents, innerBuilds⟩ := inner.contents
      have start : opened.events.toList = before ++ (linked ++ between) ++ [.pending] := by
        simp [opened]
      have node : Operand before.length
          (linked ++ (between ++ (.start kind none :: (added ++ [.finish])))) _ :=
        .wrap (by simpa using recordedLinked) (by rwa [sameLength]) (by rw [sameLength, size])
          (by simpa [start, sameLength, size, Nat.add_assoc] using innerContents.recorded)
      have replaced := set_toArray (before ++ (linked ++ between)) .pending (.start kind none) added
      refine ⟨inner.rest, inner.looks, tracks.head, tracks.empty, _, _, ?_, .ofOperand node,
        fun parents left => ?_⟩
      · -- The start of the node takes the place that was left for it.
        have place : (before ++ (linked ++ between)).length = recorder.events.size := by
          simp [sameLength, size, Nat.add_assoc]
        rw [Recorder.closeNode, extended, start, List.append_assoc, List.singleton_append,
          ← place, replaced]
        simp
      · -- What was in the frame before is inside of the node now.
        have earlier := builds ((kind, left) :: parents) []
        have later := innerBuilds ((kind, left) :: parents) growth.siblings
        obtain ⟨between, first, second⟩ := Draft.handleAll_append.mp earlier
        have around : origin.draft parents left = ⟨origin.rest, origin.offset, ⟨parents, left, ()⟩,
            origin.report⟩ := by simp [Growth.draft, tracks.empty]
        rw [Draft.handleAll_opening, around]
        refine Draft.handleAll_append.mpr ⟨between, ?_, Draft.handleAll_append.mpr
          ⟨_, second, Draft.handleAll_append.mpr
            ⟨grown.draft ((kind, left) :: parents) growth.siblings, ?_, ?_⟩⟩⟩
        · simpa [Growth.draft, tracks.empty, Draft.openNode, Builder.startNode] using first
        · simpa [Growth.draft, Growth.enter] using later
        · simp [Draft.handle, Draft.closeNode, Builder.finishNode, Growth.draft, Growth.leave,
            Growth.close]

/-- Nothing but a closed node can be wrapped. -/
theorem Tracks.openBefore_fails {before : List Event} {origin growth : Growth}
    {recorder : Recorder} (tracks : Tracks before origin recorder growth)
    (blocked : growth.opening ≠ .node) : recorder.openBefore = .error .notClosed := by
  obtain ⟨entries, brackets, events, contents, builds⟩ := tracks.contents
  have missing : ∀ kind wrapper,
      recorder.openNode.events[recorder.head]? ≠ some (.start kind wrapper) := by
    intro kind wrapper
    rw [tracks.head, Recorder.openNode, Recorder.push, events]
    generalize growth.opening = opening at contents blocked
    -- The frame is empty or begins with something else.
    cases contents with
    | nothing => simp
    | node => exact absurd rfl blocked
    | other recorded different => simpa using different kind wrapper
  rw [Recorder.openBefore, link_fails missing]

end Dxl
