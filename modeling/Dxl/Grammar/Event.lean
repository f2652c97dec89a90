import Dxl.Grammar.Failure

/-! Events: the flat record a parser leaves of the nodes it opens and closes and of the tokens it reads. -/

namespace Dxl

/-- One entry of the record of a parse. -/
inductive Event where
  /-- A node is opened; the wrapper, if there is one, is the later event that opens the node around it. -/
  | start (kind : NodeKind) (wrapper : Option Nat)
  /-- The innermost open node is closed. -/
  | finish
  /-- The next token goes into the innermost open node. -/
  | token
  /-- The next token goes into no node. -/
  | discard
  /-- A mistake is noted at the next token. -/
  | mistake (mistake : Mistake)
  /-- A node was opened and is not closed yet, or it was opened along with one that it wraps. -/
  | pending
deriving DecidableEq

/-- A parse so far: the tokens left and the events recorded. -/
structure Recorder where
  /-- The tokens still to be read. -/
  rest : List Token
  /-- How often the next token was looked at. -/
  looks : Nat
  events : Array Event
  /-- The event at which the open frame begins. -/
  head : Nat

namespace Recorder

/-- The parse before anything is read. -/
def initial (tokens : List Token) : Recorder :=
  ⟨tokens, 0, #[], 0⟩

/-- Records one event. -/
def push (recorder : Recorder) (event : Event) : Recorder :=
  { recorder with events := recorder.events.push event }

/-- Reads one token. -/
def advance (recorder : Recorder) (event : Event) : Recorder :=
  { recorder.push event with rest := recorder.rest.tail }

/-- Reads all trivia before the next token into the open node. -/
def eatTrivia (recorder : Recorder) : Recorder :=
  let trivia := recorder.rest.takeWhile (·.kind.isTrivia)
  { recorder with
    rest := recorder.rest.dropWhile (·.kind.isTrivia)
    events := recorder.events ++ (trivia.map fun _ => Event.token).toArray }

/-- Looks at the next token after any trivia. -/
def look (limit : Option Nat) (recorder : Recorder) : Except Failure (Symbol × Recorder) :=
  let settled := recorder.eatTrivia
  match settled.rest with
  | [] => .error .pastEnd
  | token :: _ =>
    -- The limit is tested before the look, so that it counts the looks that succeed.
    if limit.any (· ≤ recorder.looks) then .error (.stuck token.kind)
    else .ok (token.symbol, { settled with looks := recorder.looks + 1 })

/-- Reads the next token after any trivia, which must not be the end of the text. -/
def bump (recorder : Recorder) : Except Failure Recorder :=
  let settled := recorder.eatTrivia
  match settled.rest with
  | [] => .error .pastEnd
  | token :: _ =>
    -- Looks are counted anew for the token that follows.
    if token.kind = .endOfText then .error .pastEnd
    else .ok { settled.advance .token with looks := 0 }

/-- Passes over the next token after any trivia. -/
def discard (recorder : Recorder) : Except Failure Recorder :=
  let settled := recorder.eatTrivia
  match settled.rest with
  | [] => .error .pastEnd
  | _ :: _ => .ok { settled.advance .discard with looks := 0 }

/-- Opens a node, inside of which a new frame begins. -/
def openNode (recorder : Recorder) : Recorder :=
  let opened := recorder.push .pending
  { opened with head := opened.events.size }

/-- Closes the node that was opened at an event. -/
def closeNode (recorder : Recorder) (mark : Nat) (kind : NodeKind) : Recorder :=
  { recorder with events := (recorder.events.setIfInBounds mark (.start kind none)).push .finish }

/-- Follows the wrappers of a closed node, and lets the given one be the wrapper of the outermost. -/
def link (events : Array Event) (index wrapper : Nat) : Except Failure (Array Event) :=
  match _found : events[index]? with
  | some (.start kind none) => .ok (events.setIfInBounds index (.start kind (some wrapper)))
  | some (.start _ (some next)) =>
    -- Wrappers are recorded after what they wrap, so the chain moves towards the end.
    if index < next then link events next wrapper else .error .notClosed
  | _ => .error .notClosed
termination_by events.size - index
decreasing_by
  have := (Array.getElem?_eq_some_iff.mp _found).1
  omega

/-- Opens a node around the operand of the frame, which must be closed. -/
def openBefore (recorder : Recorder) : Except Failure Recorder :=
  let opened := recorder.openNode
  match link opened.events recorder.head recorder.events.size with
  | .ok events => .ok { opened with events }
  | .error failure => .error failure

/-- Whether anything but trivia was read since the given tokens were left. -/
def hasProgressed (before : List Token) (recorder : Recorder) : Bool :=
  (before.take (before.length - recorder.rest.length)).any fun token => !token.kind.isTrivia

end Recorder

namespace Parser

/-- Records what a parser does, given how rules are recorded. -/
def record (call : Rule → Recorder → Except Failure Recorder) (limit : Option Nat) {α : Type}
    (parser : Parser α) (recorder : Recorder) : Except Failure (α × Recorder) :=
  match parser with
  | .done value => .ok (value, recorder)
  | .andThen first next =>
    match first.record call limit recorder with
    | .ok (value, after) => (next value).record call limit after
    | .error failure => .error failure
  | .look => recorder.look limit
  | .bump => recorder.bump.map ((), ·)
  | .report mistake => .ok ((), recorder.push (.mistake mistake))
  | .node body =>
    match body.record call limit recorder.openNode with
    | .ok (kind, inner) =>
      .ok (kind, { inner.closeNode recorder.events.size kind with head := recorder.head })
    | .error failure => .error failure
  | .frame body =>
    match body.record call limit { recorder with head := recorder.events.size } with
    | .ok (value, inner) => .ok (value, { inner with head := recorder.head })
    | .error failure => .error failure
  | .wrap body =>
    match recorder.openBefore with
    | .ok opened =>
      match body.record call limit opened with
      | .ok (kind, inner) =>
        .ok (kind, { inner.closeNode recorder.events.size kind with head := recorder.head })
      | .error failure => .error failure
    | .error failure => .error failure
  | .progress body =>
    match body.record call limit recorder with
    | .ok ((), after) => .ok (after.hasProgressed recorder.rest, after)
    | .error failure => .error failure
  | .call rule => (call rule recorder).map ((), ·)

end Parser

end Dxl
