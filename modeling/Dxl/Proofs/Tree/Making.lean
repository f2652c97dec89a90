import Dxl.Parse

/-! Making trees: however its elements are made, a text becomes the plain tree made once more that way. -/

namespace Dxl

variable {ν κ : Type} [Cache ν κ]

namespace Tree

/-- What is remembered of the first trees is there when the others are made. -/
theorem makeAllIn_append (cache : κ) (left right : List Tree) :
    makeAllIn cache (left ++ right)
      = let first : List ν × κ := makeAllIn cache left
        let last : List ν × κ := makeAllIn first.2 right
        (first.1 ++ last.1, last.2) := by
  -- Each tree hands what is remembered on to the next, so the induction is for any cache.
  induction left generalizing cache with
  | nil => rfl
  | cons tree rest ih => simp [makeAllIn, ih]

/-- A tree alone is made as the only one of its row. -/
theorem makeAllIn_singleton (cache : κ) (tree : Tree) :
    makeAllIn cache [tree]
      = let made : ν × κ := makeIn cache tree
        ([made.1], made.2) := rfl

/-- There is one tree for every tree. -/
theorem length_makeAllIn (cache : κ) (trees : List Tree) :
    (makeAllIn cache trees : List ν × κ).1.length = trees.length := by
  induction trees generalizing cache with
  | nil => rfl
  | cons tree rest ih => simp [makeAllIn, ih]

end Tree

namespace Builder

/-- Makes the trees in the open nodes once more, outermost first. -/
def remakeParents : List (NodeKind × List Tree) → List (NodeKind × List ν) × κ
  | [] => ([], Cache.empty ν)
  | (kind, siblings) :: parents =>
    -- The outer nodes were made first, and the newest child of each stands first in its row.
    let (outer, cache) := remakeParents parents
    let (made, cache) := Tree.makeAllIn cache siblings.reverse
    ((kind, made.reverse) :: outer, cache)

/-- Makes a tree under construction once more, in the order in which it was made. -/
def remake (builder : Builder) : Builder ν κ :=
  let (parents, cache) := remakeParents builder.parents
  let (made, cache) := Tree.makeAllIn cache builder.children.reverse
  ⟨parents, made.reverse, cache⟩

/-- A leaf is made after everything that is there. -/
theorem remake_addLeaf (token : Token) (builder : Builder) :
    (builder.addLeaf token).remake = (builder.remake : Builder ν κ).addLeaf token := by
  simp [remake, addLeaf, Tree.makeAllIn_append, Tree.makeAllIn_singleton, Tree.makeIn]

/-- A node is made when it is closed, after its children. -/
theorem remake_finishNode (builder : Builder) :
    (builder.remake : Builder ν κ).finishNode = builder.finishNode.map remake := by
  obtain ⟨parents, children, cache⟩ := builder
  cases parents with
  | nil => rfl
  | cons parent parents =>
    -- The node comes after the siblings before it, whose row it closes.
    simp [remake, remakeParents, finishNode, Except.map, Tree.makeAllIn_append,
      Tree.makeAllIn_singleton, Tree.makeIn]

/-- The root is made at the end, or not at all. -/
theorem remake_finish (builder : Builder) :
    (builder.remake : Builder ν κ).finish = builder.finish.map Tree.make := by
  obtain ⟨parents, children, cache⟩ := builder
  -- There has to be one open node, which is the first of its row.
  match parents with
  | [] => rfl
  | [(kind, [])] => simp [remake, remakeParents, finish, Except.map, Tree.make, Tree.makeAllIn]
  | [(kind, sibling :: siblings)] =>
    -- A row that is made once more is empty only if it was.
    have filled : ((Tree.makeAllIn (Cache.empty ν) (sibling :: siblings).reverse).1 : List ν) ≠ [] := by
      rw [← List.length_pos_iff, Tree.length_makeAllIn, List.length_reverse]
      exact Nat.succ_pos siblings.length
    simpa [remake, remakeParents, finish, Except.map] using filled
  | first :: second :: others => rfl

end Builder

/-- A plain tree made once more, with what there is to say about the text. -/
def Parsed.remake (parsed : Parsed) : Parsed ν :=
  ⟨parsed.tree.make, parsed.report⟩

namespace Draft

/-- Makes what is put together in a draft once more. -/
def remake (draft : Draft) : Draft ν κ :=
  ⟨draft.rest, draft.offset, draft.builder.remake, draft.report⟩

/-- Nodes are opened alike, for that makes nothing. -/
theorem remake_openNode (kind : NodeKind) (draft : Draft) :
    (draft.openNode kind).remake = (draft.remake : Draft ν κ).openNode kind := rfl

/-- Nodes are closed alike. -/
theorem remake_closeNode (draft : Draft) :
    (draft.remake : Draft ν κ).closeNode = draft.closeNode.map remake := by
  unfold closeNode
  rw [remake, Builder.remake_finishNode]
  cases draft.builder.finishNode <;> rfl

/-- Tokens get their places alike. -/
theorem remake_addToken (draft : Draft) :
    (draft.remake : Draft ν κ).addToken = draft.addToken.map remake := by
  obtain ⟨rest, offset, builder, report⟩ := draft
  cases rest with
  | nil => rfl
  | cons token rest => simp [remake, addToken, Except.map, Builder.remake_addLeaf]

/-- Tokens are left out alike. -/
theorem remake_dropToken (draft : Draft) :
    (draft.remake : Draft ν κ).dropToken = draft.dropToken.map remake := by
  obtain ⟨rest, offset, builder, report⟩ := draft
  cases rest <;> rfl

/-- A draft ends alike. -/
theorem remake_finish (draft : Draft) :
    (draft.remake : Draft ν κ).finish
      = draft.finish.map Parsed.remake := by
  obtain ⟨rest, offset, builder, report⟩ := draft
  unfold finish
  rw [remake, Builder.remake_finish]
  split
  · cases builder.finish <;> rfl
  · rfl

end Draft

namespace Assembly

/-- Makes what is put together of a record once more. -/
def remake (assembly : Assembly) : Assembly ν κ :=
  ⟨assembly.events, assembly.draft.remake⟩

/-- Every event is dealt with alike. -/
theorem remake_step (assembly : Assembly) (index : Nat) :
    (assembly.remake : Assembly ν κ).step index = (assembly.step index).map remake := by
  obtain ⟨events, draft⟩ := assembly
  -- The nodes that are wrapped around a start are opened one after the other.
  have opened (kinds : List NodeKind) : (kinds.foldr Draft.openNode draft).remake
      = kinds.foldr Draft.openNode (draft.remake : Draft ν κ) := by
    induction kinds with
    | nil => rfl
    | cons kind kinds ih => rw [List.foldr_cons, List.foldr_cons, Draft.remake_openNode, ih]
  unfold step
  simp only [remake]
  cases events[index]? with
  | none => rfl
  | some event =>
    cases event with
    | pending => rfl
    | start kind wrapper =>
      dsimp only
      cases wrappers (events.setIfInBounds index .pending) index wrapper with
      | error failure => rfl
      | ok found => simp [Except.map, remake, opened, Draft.remake_openNode]
    | finish =>
      dsimp only
      rw [Draft.remake_closeNode]
      cases draft.closeNode <;> rfl
    | token =>
      dsimp only
      rw [Draft.remake_addToken]
      cases draft.addToken <;> rfl
    | discard =>
      dsimp only
      rw [Draft.remake_dropToken]
      cases draft.dropToken <;> rfl
    | mistake mistake => rfl

/-- Events are dealt with alike, one after the other. -/
theorem remake_run (assembly : Assembly) (first count : Nat) :
    (assembly.remake : Assembly ν κ).run first count = (assembly.run first count).map remake := by
  -- One event is dealt with, and the others from what it leaves.
  induction count generalizing assembly first with
  | zero => rfl
  | succ count ih =>
    simp only [run, remake_step]
    cases assembly.step first with
    | error failure => rfl
    | ok next => exact ih next (first + 1)

/-- What a record stands for is the plain tree made once more. -/
theorem ofEvents_eq_map (tokens : List Token) (events : Array Event) :
    (ofEvents tokens events : Except Failure (Parsed ν))
      = (ofEvents tokens events).map Parsed.remake := by
  unfold ofEvents
  split
  · -- At first there is nothing to make once more.
    rw [show (⟨events.pop, .initial tokens⟩ : Assembly ν κ) = remake ⟨events.pop, .initial tokens⟩
      from rfl, remake_run]
    cases run (⟨events.pop, .initial tokens⟩ : Assembly) 0 events.pop.size with
    | error failure => rfl
    | ok assembly => exact assembly.draft.remake_finish
  · rfl

end Assembly

/-- However it is made, the tree of some tokens is their plain tree made once more. -/
theorem buildWithin_eq_map (limit : Option Nat) (tokens : List Token) :
    (buildWithin limit tokens : Except Failure (Parsed ν))
      = (parseWithin limit tokens).map Parsed.remake := by
  -- The events are recorded before anything is made of them.
  unfold parseWithin buildWithin
  cases recordWithin limit tokens with
  | error failure => rfl
  | ok recorder => exact Assembly.ofEvents_eq_map tokens recorder.events

end Dxl
