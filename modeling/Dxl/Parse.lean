import Dxl.Grammar.Assembly
import Dxl.Grammar.Rules
import Dxl.Token.Scan
import Dxl.Tree.Storage

/-! Parsing: the tree of a source text together with a report of the mistakes in it. -/

namespace Dxl

/-- How often the grammar may look at one token before it counts as stuck. -/
def lookLimit : Nat := 256

/-- Records a rule whose calls nest at most as deeply as the given number. -/
def Rule.record (limit : Option Nat) (rule : Rule) : Nat → Recorder → Except Failure Recorder
  | 0, _ => .error .endless
  | depth + 1, recorder =>
    (rule.body.record (fun inner => inner.record limit depth) limit recorder).map Prod.snd

/-- The record of a source text, in which each token is looked at at most as often as the limit allows. -/
def recordWithin (limit : Option Nat) (tokens : List Token) : Except Failure Recorder :=
  -- The root holds everything but the token at the end, which is the last one to be read.
  match Rule.program.record limit (Rule.depthFor tokens.length) (Recorder.initial tokens).openNode with
  | .ok inner => inner.discard.map (·.closeNode 0 .root)
  | .error failure => .error failure

/-- Parses tokens into a tree that is made in any way, looking at each of them at most as often as the limit allows. -/
def buildWithin {ν κ : Type} [Cache ν κ] (limit : Option Nat) (tokens : List Token) :
    Except Failure (Parsed ν) :=
  match recordWithin limit tokens with
  | .ok recorder => Assembly.ofEvents tokens recorder.events
  | .error failure => .error failure

/-- Parses tokens, looking at each of them at most as often as the limit allows. -/
def parseWithin (limit : Option Nat) (tokens : List Token) : Except Failure Parsed :=
  buildWithin limit tokens

/-- Parses the tokens of a source text. -/
def parse (tokens : List Token) : Except Failure Parsed :=
  parseWithin (some lookLimit) tokens

/-- Parses a source text. -/
def parseText (text : String) : Except Failure Parsed :=
  parse (tokenize text)

/-- Parses a source text into a tree in which small nodes that are alike are stored once. -/
def storeText (text : String) : Except Failure (Parsed StoredTree) :=
  buildWithin (some lookLimit) (tokenize text)

end Dxl
