import Dxl.Grammar.Event
import Dxl.Tree.Builder

/-! Assembly: the tree and the report that a record of events stands for. -/

namespace Dxl

/-- A tree of a whole source text and what there is to say about the text. -/
structure Parsed (ν : Type := Tree) where
  tree : ν
  report : Report

/-- A tree that is being put together of tokens. -/
structure Draft (ν : Type := Tree) (κ : Type := Unit) where
  /-- The tokens that have no place yet. -/
  rest : List Token
  /-- The offset at which those tokens begin. -/
  offset : Nat
  builder : Builder ν κ
  report : Report

namespace Draft

variable {ν κ : Type} [Cache ν κ]

/-- The draft before anything is dealt with. -/
def initial (tokens : List Token) : Draft ν κ :=
  ⟨tokens, 0, .empty, .empty⟩

/-- Opens a node. -/
def openNode (kind : NodeKind) (draft : Draft ν κ) : Draft ν κ :=
  { draft with builder := draft.builder.startNode kind }

/-- Closes the innermost open node. -/
def closeNode (draft : Draft ν κ) : Except Failure (Draft ν κ) :=
  match draft.builder.finishNode with
  | .ok builder => .ok { draft with builder }
  | .error failure => .error failure

/-- Gives the next token its place. -/
def addToken (draft : Draft ν κ) : Except Failure (Draft ν κ) :=
  match draft.rest with
  | [] => .error .missingToken
  | token :: rest =>
    .ok { draft with
      rest, offset := draft.offset + token.text.utf8ByteSize
      builder := draft.builder.addLeaf token }

/-- Leaves the next token out. -/
def dropToken (draft : Draft ν κ) : Except Failure (Draft ν κ) :=
  match draft.rest with
  | [] => .error .missingToken
  | token :: rest => .ok { draft with rest, offset := draft.offset + token.text.utf8ByteSize }

/-- Notes a mistake at the next token. -/
def addMistake (draft : Draft ν κ) (mistake : Mistake) : Draft ν κ :=
  { draft with report := draft.report.add (mistake.remark draft.offset) }

/-- Ends with the root, once every token has its place. -/
def finish (draft : Draft ν κ) : Except Failure (Parsed ν) :=
  if draft.rest.isEmpty then
    match draft.builder.finish with
    | .ok tree => .ok ⟨tree, draft.report⟩
    | .error failure => .error failure
  else .error .leftover

end Draft

/-- A record that is being turned into a tree. -/
structure Assembly (ν : Type := Tree) (κ : Type := Unit) where
  /-- The record, in which everything that has been dealt with is pending. -/
  events : Array Event
  draft : Draft ν κ

namespace Assembly

variable {ν κ : Type} [Cache ν κ]

/-- The kinds of the wrappers around the start at an event, nearest first; they are opened along with it and dealt with. -/
def wrappers (events : Array Event) (current : Nat) :
    Option Nat → Except Failure (List NodeKind × Array Event)
  | none => .ok ([], events)
  | some wrapper =>
    if current < wrapper then
      match _found : events[wrapper]? with
      | some (.start kind next) =>
        match wrappers (events.setIfInBounds wrapper .pending) wrapper next with
        | .ok (kinds, rest) => .ok (kind :: kinds, rest)
        | .error failure => .error failure
      | _ => .error .brokenWrapper
    else .error .backwardWrapper
termination_by events.size - current
decreasing_by
  have := (Array.getElem?_eq_some_iff.mp _found).1
  simp only [Array.size_setIfInBounds]
  omega

/-- Deals with the event at an index. -/
def step (assembly : Assembly ν κ) (index : Nat) : Except Failure (Assembly ν κ) :=
  let ⟨events, draft⟩ := assembly
  match events[index]? with
  | none | some .pending => .ok assembly
  | some (.start kind wrapper) =>
    match wrappers (events.setIfInBounds index .pending) index wrapper with
    -- A node is opened after everything around it.
    | .ok (kinds, events) => .ok ⟨events, (kind :: kinds).foldr Draft.openNode draft⟩
    | .error failure => .error failure
  | some .finish => draft.closeNode.map (⟨events, ·⟩)
  | some .token => draft.addToken.map (⟨events, ·⟩)
  | some .discard => draft.dropToken.map (⟨events, ·⟩)
  | some (.mistake mistake) => .ok ⟨events, draft.addMistake mistake⟩

/-- Deals with a number of events one after the other. -/
def run (assembly : Assembly ν κ) (first : Nat) : Nat → Except Failure (Assembly ν κ)
  | 0 => .ok assembly
  | count + 1 =>
    match assembly.step first with
    | .ok next => next.run (first + 1) count
    | .error failure => .error failure

/-- The tree and the report for some tokens and the record made of them. -/
def ofEvents (tokens : List Token) (events : Array Event) : Except Failure (Parsed ν) :=
  -- The root is closed by the builder at the end, so its own closing is left out.
  if events.back? = some .finish then
    match run ⟨events.pop, .initial tokens⟩ 0 events.pop.size with
    | .ok assembly => assembly.draft.finish
    | .error failure => .error failure
  else .error .unclosedRoot

end Assembly

end Dxl
