import Dxl.Proofs.Grammar.Telling
import Dxl.Proofs.Place.Ranges

/-! Spreading: what every element of the open frame has, with the offset where it stands, all elements of what is added to the frame have. -/

namespace Dxl.Growth

variable {growth after inner : Growth} {limit : Option Nat} {property : Tree × Nat → Prop}
  {base : Nat} {kind : NodeKind}

/-- Every element in the frame that starts at the base has a property, given with its own start. -/
structure Spread (property : Tree × Nat → Prop) (base : Nat) (growth : Growth) : Prop where
  placed : base + total (growth.siblings.reverse.map Tree.width) = growth.offset
  each : ∀ spot ∈ spotsOfRow base growth.siblings.reverse, property spot

/-- A property that no leaf lacks. -/
def OfLeaves (property : Tree × Nat → Prop) : Prop :=
  ∀ kind text start, property (.leaf kind text, start)

namespace Spread

/-- Only the trees in the frame and the offset that was reached make a difference. -/
theorem congr (spread : growth.Spread property base) (siblings : after.siblings = growth.siblings)
    (offset : after.offset = growth.offset) : after.Spread property base := by
  obtain ⟨placed, each⟩ := spread
  exact ⟨by rw [siblings, offset, placed], by rwa [siblings]⟩

/-- What has a property has every weaker one. -/
theorem imp {weaker : Tree × Nat → Prop} (spread : growth.Spread property base)
    (implied : ∀ spot, property spot → weaker spot) : growth.Spread weaker base :=
  ⟨spread.placed, fun spot member => implied spot (spread.each spot member)⟩

/-- A token that is read is a leaf. -/
theorem addLeaf (spread : growth.Spread property base) (leaves : OfLeaves property)
    (token : Token) : (growth.addLeaf token).Spread property base := by
  have trees : (growth.addLeaf token).siblings.reverse = growth.siblings.reverse ++ [token.leaf] :=
    List.reverse_cons
  -- The leaf stands where the trees before it end.
  constructor
  · rw [trees, List.map_append, total_append, ← Nat.add_assoc, spread.placed]
    rfl
  · intro spot member
    rw [trees, spotsOfRow_append] at member
    rcases List.mem_append.mp member with earlier | last
    · exact spread.each spot earlier
    · rw [List.mem_singleton.mp last]
      exact leaves _ _ _

/-- Trivia consists of leaves. -/
theorem eatTrivia (spread : growth.Spread property base) (leaves : OfLeaves property) :
    growth.eatTrivia.Spread property base :=
  eatTrivia_induction spread fun _ token _ _ _ before => before.addLeaf leaves token

/-- A look reads nothing but trivia. -/
theorem look (spread : growth.Spread property base) (leaves : OfLeaves property) {symbol : Symbol}
    (looked : growth.look limit = .ok (symbol, after)) : after.Spread property base := by
  obtain ⟨token, rest, -, -, rfl, rfl⟩ := exists_of_look looked
  exact (spread.eatTrivia leaves).congr rfl rfl

/-- Reading a token adds leaves. -/
theorem bump (spread : growth.Spread property base) (leaves : OfLeaves property)
    (bumped : growth.bump = .ok after) : after.Spread property base := by
  obtain ⟨token, rest, -, -, rfl⟩ := exists_of_bump bumped
  exact ((spread.eatTrivia leaves).addLeaf leaves token).congr rfl rfl

/-- Nothing is in a new frame, which starts at the offset that was reached. -/
theorem enter (growth : Growth) : growth.enter.Spread property growth.offset :=
  ⟨rfl, nofun⟩

/-- What an inner frame holds in the end is held by the outer one. -/
theorem leave (spread : growth.Spread property base)
    (within : inner.Spread property growth.offset) : (growth.leave inner).Spread property base := by
  have trees : (growth.leave inner).siblings.reverse
      = growth.siblings.reverse ++ inner.siblings.reverse := List.reverse_append
  -- The inner trees stand where the outer ones end, which is where their frame began.
  constructor
  · rw [trees, List.map_append, total_append, ← Nat.add_assoc, spread.placed]
    exact within.placed
  · intro spot member
    rw [trees, spotsOfRow_append, spread.placed] at member
    rcases List.mem_append.mp member with earlier | later
    · exact spread.each spot earlier
    · exact within.each spot later

/-- A closed node has the property if all in it do and the node has it where it starts. -/
theorem close (within : inner.Spread property base)
    (holds : property (.node (.node kind) inner.siblings.reverse, base)) :
    (inner.close kind).Spread property base := by
  have trees : (inner.close kind).siblings.reverse
      = [.node (.node kind) inner.siblings.reverse] := rfl
  -- The node stands where its children begin, and they stand where they did before.
  constructor
  · rw [trees, List.map_singleton, Tree.width_node, total_cons]
    exact within.placed
  · intro spot member
    rw [trees, spotsOfRow, spotsOfRow, List.append_nil, spots] at member
    rcases List.mem_cons.mp member with rfl | below
    · exact holds
    · exact within.each spot below

end Spread

/-- The frame is as it says that it begins: there is nothing in it, or it begins with a node. -/
structure Headed (growth : Growth) : Prop where
  empty : growth.opening = .nothing → growth.siblings = []
  operand : growth.opening = .node →
    ∃ others operand, growth.siblings = others ++ [operand] ∧ operand.isLeaf = false

namespace Headed

/-- Nothing is in a new frame. -/
theorem enter (growth : Growth) : growth.enter.Headed :=
  ⟨fun _ => rfl, nofun⟩

/-- A token that is read comes after what the frame begins with, or the frame begins with it. -/
theorem addLeaf (headed : growth.Headed) (token : Token) : (growth.addLeaf token).Headed := by
  constructor
  · intro opens
    cases (Opening.orElse_eq_nothing.mp opens).2
  · intro opens
    have begins := (Opening.orElse_eq_node.mp opens).resolve_right (by simp)
    obtain ⟨others, operand, same, composite⟩ := headed.operand begins
    exact ⟨token.leaf :: others, operand, by simp [Growth.addLeaf, same], composite⟩

/-- Trivia comes after what the frame begins with, or the frame begins with it. -/
theorem eatTrivia (headed : growth.Headed) : growth.eatTrivia.Headed :=
  eatTrivia_induction headed fun _ token _ _ _ before => before.addLeaf token

/-- A look reads nothing but trivia. -/
theorem look (headed : growth.Headed) {symbol : Symbol}
    (looked : growth.look limit = .ok (symbol, after)) : after.Headed := by
  obtain ⟨token, rest, -, -, rfl, rfl⟩ := exists_of_look looked
  exact ⟨headed.eatTrivia.empty, headed.eatTrivia.operand⟩

/-- A token is read after trivia. -/
theorem bump (headed : growth.Headed) (bumped : growth.bump = .ok after) : after.Headed := by
  obtain ⟨token, rest, -, -, rfl⟩ := exists_of_bump bumped
  have read := headed.eatTrivia.addLeaf token
  exact ⟨read.empty, read.operand⟩

/-- A frame that begins with a mistake begins with no node. -/
theorem addMistake (headed : growth.Headed) (mistake : Mistake) :
    (growth.addMistake mistake).Headed := by
  constructor
  · intro opens
    cases (Opening.orElse_eq_nothing.mp opens).2
  · intro opens
    exact headed.operand ((Opening.orElse_eq_node.mp opens).resolve_right (by simp))

/-- What an inner frame begins with is what the outer one begins with, if that was empty. -/
theorem leave (headed : growth.Headed) (within : inner.Headed) : (growth.leave inner).Headed := by
  constructor
  · intro opens
    obtain ⟨outer, new⟩ := Opening.orElse_eq_nothing.mp opens
    rw [Growth.leave, headed.empty outer, within.empty new]
    rfl
  · intro opens
    -- A frame that has begun keeps its operand as the first of its trees.
    rcases Opening.orElse_eq_node.mp opens with outer | ⟨empty, new⟩
    · obtain ⟨others, operand, same, composite⟩ := headed.operand outer
      exact ⟨inner.siblings ++ others, operand, by simp [Growth.leave, same], composite⟩
    · obtain ⟨others, operand, same, composite⟩ := within.operand new
      exact ⟨others, operand, by simp [Growth.leave, headed.empty empty, same], composite⟩

/-- A closed node is all that its frame holds. -/
theorem close (inner : Growth) (kind : NodeKind) : (inner.close kind).Headed :=
  ⟨nofun, fun _ => ⟨[], _, rfl, rfl⟩⟩

end Headed

end Dxl.Growth
