import Dxl.Proofs.Form.Place
import Dxl.Proofs.Grammar.Reading
import Dxl.Proofs.Token.Partition

/-! Neighbours: which tokens of a text stand where neighbouring parts of a node do. -/

namespace Dxl.Place

variable {inner outer place child : Place}

/-- The leaves of several places, one after the other. -/
def leavesOf (places : List Place) : List (Kind × String) :=
  places.flatMap fun place => place.tree.leaves

/-- The leaves of two rows of places are those of the one and then those of the other. -/
@[simp] theorem leavesOf_append (left right : List Place) :
    leavesOf (left ++ right) = leavesOf left ++ leavesOf right :=
  List.flatMap_append

/-- The leaves of the first place come first. -/
@[simp] theorem leavesOf_cons (place : Place) (rest : List Place) :
    leavesOf (place :: rest) = place.tree.leaves ++ leavesOf rest :=
  List.flatMap_cons

/-- How long the texts of leaves are together. -/
def extentOf (leaves : List (Kind × String)) : Nat :=
  total (leaves.map fun leaf => leaf.2.utf8ByteSize)

/-- Two rows of leaves are as long as both together. -/
@[simp] theorem extentOf_append (left right : List (Kind × String)) :
    extentOf (left ++ right) = extentOf left + extentOf right := by
  rw [extentOf, List.map_append, total_append]
  rfl

/-- The leaves of a row of places are those of its trees. -/
theorem leavesOf_row (above : List (Tree × Nat)) (start : Nat) (trees : List Tree) :
    leavesOf (row above start trees) = trees.flatMap Tree.leaves := by
  induction trees generalizing start with
  | nil => rfl
  | cons tree rest ih => rw [row, leavesOf_cons, ih, List.flatMap_cons]

/-- A place in a row starts as far on as the leaves before it are long. -/
theorem start_of_row {above : List (Tree × Nat)} {start : Nat} {trees : List Tree}
    {before after : List Place} (split : row above start trees = before ++ place :: after) :
    place.start = start + extentOf (leavesOf before) := by
  induction before generalizing start trees with
  | nil =>
    cases trees with
    | nil => cases split
    | cons tree rest =>
      obtain ⟨rfl, -⟩ := List.cons.inj split
      rfl
  | cons first before ih =>
    cases trees with
    | nil => cases split
    | cons tree rest =>
      obtain ⟨rfl, others⟩ := List.cons.inj split
      -- The row goes on where its first tree ends, which is as wide as its leaves.
      rw [ih others, leavesOf_cons, extentOf_append, Tree.width_eq_total_leaves, Nat.add_assoc]
      rfl

/-- Places are as wide together as their leaves are long. -/
theorem total_width (places : List Place) :
    total (places.map fun place => place.tree.width) = extentOf (leavesOf places) := by
  induction places with
  | nil => rfl
  | cons place rest ih =>
    rw [List.map_cons, total_cons, ih, leavesOf_cons, extentOf_append, Tree.width_eq_total_leaves]
    rfl

/-- The trees of a row are those of its places. -/
theorem map_tree_row (above : List (Tree × Nat)) (start : Nat) (trees : List Tree) :
    (row above start trees).map Place.tree = trees := by
  induction trees generalizing start with
  | nil => rfl
  | cons tree rest ih => rw [row, List.map_cons, ih]

/-- What stands beside a child of a node is before or after it among the leaves. -/
theorem leaves_of_children {before after : List Place}
    (split : place.children = before ++ child :: after) :
    place.tree.leaves = leavesOf before ++ (child.tree.leaves ++ leavesOf after)
      ∧ child.start = place.start + extentOf (leavesOf before) := by
  refine ⟨?_, start_of_row split⟩
  rw [← leavesOf_cons, ← leavesOf_append, ← split]
  obtain ⟨tree, start, above⟩ := place
  cases tree with
  | leaf kind text => simp [children, Tree.children, row] at split
  | node kind trees => rw [children, leavesOf_row, Tree.leaves_node]; rfl

/-- The leaves of a place stand among those of any place around it as far from its start as the place does. -/
theorem Within.exists_leaves (within : inner.Within outer) :
    ∃ before after, outer.tree.leaves = before ++ (inner.tree.leaves ++ after)
      ∧ inner.start = outer.start + extentOf before := by
  -- One step down, and then as many as there are to the inner place.
  have step {child place : Place} (member : child ∈ place.children) :
      ∃ before after, place.tree.leaves = before ++ (child.tree.leaves ++ after)
        ∧ child.start = place.start + extentOf before := by
    obtain ⟨before, after, split⟩ := List.append_of_mem member
    exact ⟨_, _, leaves_of_children split⟩
  rcases within with rfl | below
  · exact ⟨[], [], by simp, rfl⟩
  · induction below with
    | child member => exact step member
    | deeper member _ ih =>
      -- What comes before the inner place comes after what comes before the middle one.
      obtain ⟨outside, beyond, whole, begins⟩ := ih
      obtain ⟨before, after, part, starts⟩ := step member
      refine ⟨outside ++ before, after ++ beyond, ?_, ?_⟩
      · rw [whole, part]
        simp only [List.append_assoc]
      · rw [starts, begins, extentOf_append, Nat.add_assoc]

/-- The leaves of tokens are as long as their texts joined. -/
theorem extentOf_entries (tokens : List Token) :
    extentOf (tokens.map Token.entry) = (joinTexts tokens).utf8ByteSize := by
  induction tokens with
  | nil => rfl
  | cons token rest ih =>
    rw [joinTexts_cons, String.utf8ByteSize_append, ← ih]
    rfl

/-- The leaves of tokens have their texts. -/
theorem map_leavesOf {places : List Place} (tokens : ∀ place ∈ places, place.isToken = true) :
    (leavesOf places).map Prod.snd = places.map text := by
  induction places with
  | nil => rfl
  | cons place rest ih =>
    have others := ih fun other member => tokens other (List.mem_cons_of_mem place member)
    rw [leavesOf_cons, List.map_append, others, List.map_cons]
    obtain ⟨tree, start, above⟩ := place
    cases tree with
    | leaf => rfl
    | node => cases tokens _ List.mem_cons_self

/-- Leaves are as long as their texts together. -/
theorem extentOf_eq_utf8ByteSize (leaves : List (Kind × String)) :
    extentOf leaves = (String.join (leaves.map Prod.snd)).utf8ByteSize := by
  rw [extentOf, Tree.utf8ByteSize_join, List.map_map]
  rfl

/-- Between two parts of a node, the text of the tree is that of the leaves between them. -/
theorem Within.exists_extract {tree : Tree} {base : Nat} (within : place.Within (root tree base))
    {before between after : List Place} {opening closing : Place}
    (split : place.children = before ++ opening :: (between ++ closing :: after)) :
    ∃ (opens : (String.Pos.Raw.mk (opening.stop - base)).IsValid tree.text)
      (closes : (String.Pos.Raw.mk (closing.start - base)).IsValid tree.text),
      tree.text.extract ⟨⟨opening.stop - base⟩, opens⟩ ⟨⟨closing.start - base⟩, closes⟩
        = String.join ((leavesOf between).map Prod.snd) := by
  obtain ⟨outside, beyond, whole, begins⟩ := within.exists_leaves
  obtain ⟨row, opens⟩ := leaves_of_children split
  rw [← List.cons_append, ← List.append_assoc] at split
  obtain ⟨-, closes⟩ := leaves_of_children split
  have stops : opening.stop = opening.start + extentOf opening.tree.leaves := by
    rw [stop, Tree.width_eq_total_leaves]
    rfl
  have starts : place.start = base + extentOf outside := begins
  -- The text falls into what ends with the first part, what lies between, and the rest.
  have parts : tree.text
      = String.join ((outside ++ leavesOf before ++ opening.tree.leaves).map Prod.snd)
        ++ (String.join ((leavesOf between).map Prod.snd)
          ++ String.join ((closing.tree.leaves ++ leavesOf after ++ beyond).map Prod.snd)) := by
    rw [Tree.text, show tree.leaves = _ from whole, row]
    simp only [leavesOf_append, leavesOf_cons, List.map_append, String.join_append,
      String.append_assoc, List.append_assoc]
  simp only [leavesOf_append, leavesOf_cons, extentOf_append] at closes
  apply Dxl.exists_extract parts
  · rw [← extentOf_eq_utf8ByteSize, extentOf_append, extentOf_append]
    omega
  · rw [← extentOf_eq_utf8ByteSize, ← extentOf_eq_utf8ByteSize, extentOf_append, extentOf_append]
    omega

variable {clean : Prop}

/-- Leaves of children that carry no meaning are trivia. -/
theorem proper?_of_mem_leavesOf {skipped : List Place}
    (formed : ∀ child ∈ skipped, child.tree.Formed clean)
    (passed : ∀ child ∈ skipped, child.kind.passes TokenKind.isTrivia = true)
    {leaf : Kind × String} (member : leaf ∈ leavesOf skipped) : leaf.1.proper? = none := by
  obtain ⟨child, among, inside⟩ := List.mem_flatMap.mp member
  have passes := passed child among
  obtain ⟨tree, start, above⟩ := child
  cases formed _ among with
  | leaf kind text =>
    obtain rfl : leaf = (.token kind, text) := List.mem_singleton.mp inside
    have trivia : kind.isTrivia = true := passes
    simp [Kind.proper?, trivia]
  | node => cases passes

/-- Between a token and its neighbour in a node, only trivia stands before what the neighbour begins with. -/
theorem exists_tokens_of_neighbours {tokens : List Token} {tree : Tree}
    (leaves : tree.leaves = tokens.map Token.entry) (adjoining : Adjoining 0 tokens) {base : Nat}
    (within : outer.Within (root tree base)) (formed : outer.tree.Formed clean)
    {before after : List Place} {neighbour : Place} {kind begins : TokenKind}
    (split : outer.significant = before ++ inner :: neighbour :: after)
    (isToken : inner.kind = .token kind) (first : neighbour.tree.first? = some begins) :
    ∃ front point trivia next rest, tokens = front ++ point :: (trivia ++ next :: rest)
      ∧ inner.start = base + point.start ∧ point.kind = kind
      ∧ (∀ token ∈ trivia, token.kind.isTrivia = true) ∧ next.kind = begins := by
  -- What a child that carries meaning has before and after it among all children.
  obtain ⟨left, others, children, -, split⟩ := List.filter_eq_append_iff.mp split
  obtain ⟨ahead, right, rfl, -, -, split⟩ := List.filter_eq_cons_iff.mp split
  obtain ⟨skipped, right, rfl, trivial, -, -⟩ := List.filter_eq_cons_iff.mp split
  rw [← List.append_assoc] at children
  have formedChild (child : Place) (member : child ∈ outer.children) : child.tree.Formed clean :=
    formed_of_mem_children formed member
  obtain ⟨text, leaf⟩ : ∃ text, inner.tree = .leaf (.token kind) text := by
    have formedInner := formedChild inner (by simp [children])
    obtain ⟨tree, start, above⟩ := inner
    cases formedInner with
    | leaf => cases isToken; exact ⟨_, rfl⟩
    | node => cases isToken
  obtain ⟨inside, starts⟩ := leaves_of_children children
  obtain ⟨preceding, following, whole, begun⟩ := within.exists_leaves
  obtain ⟨lead, found, beyond, body, isFirst, blank⟩ := List.findSome?_eq_some_iff.mp first
  -- The tokens fall apart as the leaves do.
  have row : tokens.map Token.entry = (preceding ++ leavesOf (left ++ ahead))
      ++ (.token kind, text) :: ((leavesOf skipped ++ lead)
        ++ found :: (beyond ++ leavesOf right ++ following)) := by
    rw [← leaves]
    refine whole.trans ?_
    simp [inside, leaf, body]
  obtain ⟨front, behind, rfl, isFront, row⟩ := List.map_eq_append_iff.mp row
  obtain ⟨point, behind, rfl, isPoint, row⟩ := List.map_eq_cons_iff.mp row
  obtain ⟨trivia, behind, rfl, isTrivia, row⟩ := List.map_eq_append_iff.mp row
  obtain ⟨next, rest, rfl, isNext, -⟩ := List.map_eq_cons_iff.mp row
  have proper (token : Token) : token.entry.1.proper?
      = if token.kind.isTrivia then none else some token.kind := rfl
  refine ⟨front, point, trivia, next, rest, rfl, ?_, Kind.token.inj (Prod.mk.inj isPoint).1,
    fun token member => ?_, ?_⟩
  · rw [starts, begun, adjoining.start_eq, ← extentOf_entries, isFront, extentOf_append]
    simp only [root]
    omega
  · have among : token.entry ∈ leavesOf skipped ++ lead := isTrivia ▸ List.mem_map_of_mem member
    have none : token.entry.1.proper? = none := by
      rcases List.mem_append.mp among with between | leads
      · have formedSkipped (child : Place) (member : child ∈ skipped) : child.tree.Formed clean :=
          formedChild child (by simp [children, member])
        exact proper?_of_mem_leavesOf formedSkipped (by simpa using trivial) between
      · exact blank _ leads
    rw [proper] at none
    split at none
    · assumption
    · cases none
  · rw [← isNext, proper] at isFirst
    split at isFirst
    · cases isFirst
    · exact Option.some.inj isFirst

end Dxl.Place
