import Dxl.Grammar.Parser

/-! Failures: why a parse can break off before there is a tree. -/

namespace Dxl

/-- Why a parse broke off. -/
inductive Failure where
  /-- The same token was looked at too often. -/
  | stuck (kind : TokenKind)
  /-- More was to be read than there is. -/
  | pastEnd
  /-- The rules did not come to an end. -/
  | endless
  /-- A node was to be opened around something that is not a closed node. -/
  | notClosed
  /-- The record does not end with the closing of a node. -/
  | unclosedRoot
  /-- The wrapper of a node was recorded before it. -/
  | backwardWrapper
  /-- The wrapper of a node is not a node. -/
  | brokenWrapper
  /-- A node was closed although none was open. -/
  | neverOpened
  /-- Not exactly one node was open at the end. -/
  | unbalanced
  /-- There is something beside the root. -/
  | rootSiblings
  /-- More tokens were recorded than there are. -/
  | missingToken
  /-- Fewer tokens were recorded than there are. -/
  | leftover
deriving DecidableEq

/-- The wording of a failure. -/
def Failure.message : Failure → String
  | .stuck kind => "parser is stuck at " ++ kind.dumpName
  | .pastEnd => "read past the end of the source"
  | .endless => "the rules do not end"
  | .notClosed => "wrapped something that is not a closed node"
  | .unclosedRoot => "the root is not closed last"
  | .backwardWrapper => "a wrapper does not point forwards"
  | .brokenWrapper => "a wrapper is not a node"
  | .neverOpened => "closed a node which was never opened"
  | .unbalanced => "not exactly one node is open at the end"
  | .rootSiblings => "the root has siblings"
  | .missingToken => "recorded more tokens than there are"
  | .leftover => "not every token was recorded"

end Dxl
