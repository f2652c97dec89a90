import Dxl.Proofs.Grammar.Keeping
import Dxl.Proofs.Place.Ranges

/-! Flagging: every node that goes with a remark has one of its own, and tokens without use stand in such nodes only. -/

namespace Dxl

/-- Trivia is of use. -/
theorem TokenKind.isForeign_of_isTrivia {kind : TokenKind} (trivia : kind.isTrivia = true) :
    kind.isForeign = false := by
  cases kind <;> first | rfl | cases trivia

/-- Each range, ends included, holds an error of its own. -/
def Covered (ranges : List (Nat × Nat)) (errors : List Remark) : Prop :=
  ∃ chosen, List.Forall₂ (fun range error => range.1 ≤ error.offset ∧ error.offset ≤ range.2)
    ranges chosen ∧ chosen.Subperm errors

namespace Covered

variable {owed ranges others : List (Nat × Nat)} {errors : List Remark}

/-- The order of ranges makes no difference. -/
theorem perm (covered : Covered ranges errors) (same : ranges.Perm others) :
    Covered others errors := by
  obtain ⟨chosen, covers, once⟩ := covered
  -- The errors chosen are put into the new order along with the ranges.
  obtain ⟨other, coversOther, shuffled⟩ := List.perm_comp_forall₂ same.symm covers
  exact ⟨other, coversOther, shuffled.subperm.trans once⟩

/-- Some of the ranges can be left out. -/
theorem drop (covered : Covered (owed ++ ranges) errors) : Covered ranges errors := by
  induction owed with
  | nil => exact covered
  -- The error of a range left out is just not chosen.
  | cons range rest ih =>
    obtain ⟨chosen, covers, once⟩ := covered
    cases covers with
    | cons _ covers => exact ih ⟨_, covers, (List.sublist_cons_self _ _).subperm.trans once⟩

/-- An error in a range is in every wider one. -/
theorem widen {spot first stop : Nat} (covered : Covered ((spot, spot) :: ranges) errors)
    (low : first ≤ spot) (high : spot ≤ stop) : Covered ((first, stop) :: ranges) errors := by
  obtain ⟨chosen, covers, once⟩ := covered
  cases covers with
  | cons inside covers =>
    obtain ⟨lower, upper⟩ := inside
    -- The same errors are chosen, and only the first one has to fit a new range.
    exact ⟨_, .cons ⟨Nat.le_trans low lower, Nat.le_trans upper high⟩ covers, once⟩

/-- A further error holds the range of its own place. -/
theorem add (covered : Covered ranges errors) (error : Remark) :
    Covered ((error.offset, error.offset) :: ranges) (errors ++ [error]) := by
  obtain ⟨chosen, covers, once⟩ := covered
  -- The new error stands at the end of the report, and order is of no account.
  refine ⟨error :: chosen, .cons ⟨Nat.le_refl _, Nat.le_refl _⟩ covers, ?_⟩
  exact ((List.subperm_cons error).mpr once).trans
    (List.perm_append_singleton error errors).symm.subperm

end Covered

/-- Whether a tree is a token without use. -/
def Tree.isForeign : Tree → Bool
  | .leaf (.token kind) _ => kind.isForeign
  | _ => false

/-- Tokens without use stand right below nodes that are kept for tokens that are passed over. -/
inductive Tree.Tidy : Tree → Prop where
  | leaf (kind : TokenKind) (text : String) : Tidy (.leaf (.token kind) text)
  | node {kind : NodeKind} {children : List Tree} : (∀ child ∈ children, Tidy child) →
    (kind = .skipped ∨ ∀ child ∈ children, child.isForeign = false) →
    Tidy (.node (.node kind) children)

namespace Phase

/-- How far a phase is from being settled. -/
def rank : Phase → Nat
  | .calm | .noted => 0
  | .passing => 1
  | .lost => 2

/-- The error that is still to go with a node, as the range of its place: one that was noted stands at the given offset, and one of tokens that are passed over between both offsets. -/
def Owes : Phase → Nat → Nat → List (Nat × Nat) → Prop
  | .calm, _, _, owed => owed = []
  | .noted, _, offset, owed => owed = [(offset, offset)]
  | .passing, first, offset, owed => ∃ spot, first ≤ spot ∧ spot ≤ offset ∧ owed = [(spot, spot)]
  | .lost, _, _, _ => False

variable {phase : Phase}

/-- Phases of the lowest rank are settled. -/
theorem rank_eq_zero_iff : phase.rank = 0 ↔ phase.isSettled = true := by
  cases phase <;> decide

/-- A look does not lower the rank. -/
theorem rank_looked (phase : Phase) : phase.looked.rank = phase.rank := by
  cases phase <;> rfl

/-- Passing over tokens does not lower the rank. -/
theorem rank_le_passed (phase : Phase) : phase.rank ≤ phase.passed.rank := by
  cases phase <;> decide

/-- Where tokens can be passed over, the rank is at most theirs. -/
theorem rank_le_of_isPassable (passable : phase.isPassable = true) : phase.rank ≤ passing.rank := by
  cases phase <;> first | decide | cases passable

/-- A node that can be closed was begun where nothing was passed over. -/
theorem settled_of_closes {inside : Phase} {kind : NodeKind} (closes : inside.Closes kind)
    (onward : phase.entered.rank ≤ inside.rank) : phase.isSettled = true := by
  cases phase with
  | calm | noted => rfl
  | passing | lost =>
    -- Nothing can be closed in a node that was begun elsewhere.
    have lost : inside = .lost := by
      cases inside <;> first | rfl | simp [rank, entered] at onward
    subst lost
    unfold Closes at closes
    -- A lost phase closes neither kind of node.
    split at closes <;> cases closes

/-- Where an error was noted that can be passed over, one is owed inside of the node. -/
theorem Owes.spot {first offset : Nat} {owed : List (Nat × Nat)} (owes : phase.Owes first offset owed)
    (passable : phase.isPassable = true) (window : first ≤ offset) :
    ∃ spot, first ≤ spot ∧ spot ≤ offset ∧ owed = [(spot, spot)] := by
  cases phase with
  | calm | lost => cases passable
  -- The error was noted at the place reached, which is in the window.
  | noted => exact ⟨offset, window, Nat.le_refl _, owes⟩
  | passing => exact owes

end Phase

/-- The errors of a report. -/
def Report.errors (report : Report) : List Remark :=
  report.remarks.filter (·.severity == .error)

/-- Where the warnings of a report are made. -/
def Report.warned (report : Report) : List Nat :=
  (report.remarks.filter (·.severity == .warning)).map Remark.offset

namespace Growth

/-- The nodes of one kind in the frame that starts at the given offset. -/
def nodes (kind : NodeKind) (base : Nat) (growth : Growth) : List (Nat × Nat) :=
  ranges kind base growth.siblings.reverse

/-- In a frame that starts at the base, inside of a node that starts first, every node for qualifiers has its warning after earlier ones, every node for tokens that are passed over has an error apart from those demanded elsewhere, and tokens without use stand where they should. -/
structure Accounts (first base : Nat) (demands : List (Nat × Nat)) (notes : List Nat) (phase : Phase)
    (growth : Growth) : Prop where
  window : first ≤ base
  placed : base + total (growth.siblings.reverse.map Tree.width) = growth.offset
  warned : growth.report.warned = notes ++ (growth.nodes .ignored base).map Prod.fst
  owing : ∃ owed, phase.Owes first growth.offset owed
    ∧ Covered (owed ++ (growth.nodes .skipped base ++ demands)) growth.report.errors
  tidy : ∀ tree ∈ growth.siblings, tree.Tidy
  clean : phase.isSettled = true → ∀ tree ∈ growth.siblings, tree.isForeign = false

namespace Accounts

variable {growth inner after : Growth} {first base : Nat} {demands : List (Nat × Nat)}
  {notes : List Nat} {phase inside : Phase}

/-- The window of a frame is open up to what was read. -/
theorem base_le (accounts : growth.Accounts first base demands notes phase) : base ≤ growth.offset := by
  -- The place reached is the base and what the frame holds.
  rw [← accounts.placed]
  exact Nat.le_add_right _ _

/-- An error that was noted can be left alone. -/
theorem calm (accounts : growth.Accounts first base demands notes phase)
    (settled : phase.isSettled = true) : growth.Accounts first base demands notes .calm where
  window := accounts.window
  placed := accounts.placed
  warned := accounts.warned
  owing := by
    obtain ⟨owed, -, covered⟩ := accounts.owing
    exact ⟨[], rfl, covered.drop⟩
  tidy := accounts.tidy
  clean _ := accounts.clean settled

/-- Tokens can be passed over after an error that was noted. -/
theorem pass (accounts : growth.Accounts first base demands notes phase)
    (passable : phase.isPassable = true) : growth.Accounts first base demands notes .passing where
  window := accounts.window
  placed := accounts.placed
  warned := accounts.warned
  owing := by
    obtain ⟨owed, owes, covered⟩ := accounts.owing
    exact ⟨owed, owes.spot passable (Nat.le_trans accounts.window accounts.base_le), covered⟩
  tidy := accounts.tidy
  clean := nofun

/-- How often the next token was looked at and what the frame begins with are of no account. -/
theorem congr (accounts : growth.Accounts first base demands notes phase)
    (siblings : after.siblings = growth.siblings) (offset : after.offset = growth.offset)
    (report : after.report = growth.report) : after.Accounts first base demands notes phase := by
  -- Accounts are about the nodes, the place reached and the report only.
  obtain ⟨window, placed, warned, owing, tidy, clean⟩ := accounts
  refine ⟨window, ?_, ?_, ?_, ?_, ?_⟩ <;> simpa only [nodes, siblings, offset, report]

/-- A token is read, which is of use unless tokens are passed over. -/
theorem addLeaf (accounts : growth.Accounts first base demands notes phase) {token : Token}
    (known : phase = .calm ∧ token.kind.isForeign = false ∨ phase = .passing) :
    (growth.addLeaf token).Accounts first base demands notes phase := by
  -- A token adds no node of any kind.
  have nodes (kind : NodeKind) : (growth.addLeaf token).nodes kind base = growth.nodes kind base := by
    simp [Growth.nodes, Growth.addLeaf, Token.leaf, ranges_append]
  refine ⟨accounts.window, ?_, ?_, ?_, ?_, fun settled => ?_⟩
  · have placed := accounts.placed
    simp only [Growth.addLeaf, List.reverse_cons, List.map_append, total_append, List.map_cons,
      List.map_nil, total_cons, total_nil, Token.leaf, Tree.width_leaf]
    omega
  · rw [nodes]
    exact accounts.warned
  · obtain ⟨owed, owes, covered⟩ := accounts.owing
    rw [nodes]
    refine ⟨owed, ?_, covered⟩
    -- Nothing is owed in a calm phase; in passing, the place owed stays in the window, which grows.
    rcases known with ⟨rfl, -⟩ | rfl
    · exact owes
    · obtain ⟨spot, low, high, rfl⟩ := owes
      exact ⟨spot, low, Nat.le_trans high (Nat.le_add_right _ _), rfl⟩
  · exact List.forall_mem_cons.mpr ⟨.leaf _ _, accounts.tidy⟩
  · -- Only a phase that is settled promises that tokens are of use.
    rcases known with ⟨-, useful⟩ | rfl
    · exact List.forall_mem_cons.mpr ⟨useful, accounts.clean settled⟩
    · cases settled

/-- Trivia is read. -/
theorem eatTrivia (accounts : growth.Accounts first base demands notes phase)
    (known : phase = .calm ∨ phase = .passing) :
    growth.eatTrivia.Accounts first base demands notes phase :=
  eatTrivia_induction accounts fun _ _ _ _ trivia before =>
    before.addLeaf (known.imp_left fun calm => ⟨calm, TokenKind.isForeign_of_isTrivia trivia⟩)

/-- A look leaves alone what was noted. -/
theorem look (accounts : growth.Accounts first base demands notes phase) {limit : Option Nat}
    {symbol : Symbol} (looked : growth.look limit = .ok (symbol, after)) :
    after.Accounts first base demands notes phase.looked := by
  -- After a look no error is at hand any more, so the phase is calm or in passing.
  have known : phase.looked = .calm ∨ phase.looked = .passing := by
    obtain ⟨owed, owes, -⟩ := accounts.owing
    cases phase <;> first | exact .inl rfl | exact .inr rfl | exact owes.elim
  -- What was noted is left alone before the trivia is read.
  have began : growth.Accounts first base demands notes phase.looked := by
    cases phase with
    | noted => exact accounts.calm rfl
    | _ => exact accounts
  obtain ⟨token, rest, -, -, rfl, rfl⟩ := exists_of_look looked
  exact (began.eatTrivia known).congr rfl rfl rfl

/-- A token is read that was seen to be of use, or any token that is passed over. -/
theorem bump (accounts : growth.Accounts first base demands notes phase)
    (known : phase = .calm ∧ (∃ symbol, growth.Sees (some symbol) ∧ symbol.kind.isForeign = false)
      ∨ phase = .passing) (bumped : growth.bump = .ok after) :
    after.Accounts first base demands notes phase := by
  -- The trivia in front of the token is read first.
  have settled := accounts.eatTrivia (known.imp_left And.left)
  obtain ⟨token, rest, found, -, rfl⟩ := exists_of_bump bumped
  refine (settled.addLeaf (known.imp_left ?_)).congr rfl rfl rfl
  rintro ⟨rfl, symbol, sees, useful⟩
  -- What is read is what was seen.
  obtain rfl : token.symbol = symbol := (Symbol.fits_some _ _).mp (sees.fits found)
  exact ⟨rfl, useful⟩

/-- An error is noted at the next token. -/
theorem note (accounts : growth.Accounts first base demands notes phase)
    (settled : phase.isSettled = true) {mistake : Mistake} (isError : mistake.severity = .error) :
    (growth.addMistake mistake).Accounts first base demands notes .noted := by
  obtain ⟨owed, owes, covered⟩ := (accounts.calm settled).owing
  -- Whatever was owed is left alone, and the new error is owed in its place.
  obtain rfl : owed = [] := owes
  -- The mistake is an error, so the warnings stay what they were.
  have errors : (growth.addMistake mistake).report.errors
      = growth.report.errors ++ [mistake.remark growth.offset] := by
    simp [Report.errors, addMistake, Report.add, Mistake.remark, isError]
  have warned : (growth.addMistake mistake).report.warned = growth.report.warned := by
    simp [Report.warned, addMistake, Report.add, Mistake.remark, isError]
  refine ⟨accounts.window, accounts.placed, ?_, ⟨_, rfl, ?_⟩, accounts.tidy,
    fun _ => accounts.clean settled⟩
  · rw [warned]
    exact accounts.warned
  · rw [errors]
    exact covered.add (mistake.remark growth.offset)

/-- A new frame begins, whose node may begin there as well. -/
theorem enter (accounts : growth.Accounts first base demands notes phase) {begins : Nat}
    (window : begins ≤ growth.offset) (known : begins = first ∨ phase.isSettled = true) :
    growth.enter.Accounts begins growth.offset (growth.nodes .skipped base ++ demands)
      (notes ++ (growth.nodes .ignored base).map Prod.fst) phase where
  window := window
  placed := rfl
  warned := by simpa [nodes, Growth.enter] using accounts.warned
  owing := by
    obtain ⟨owed, owes, covered⟩ := accounts.owing
    refine ⟨owed, ?_, covered⟩
    -- What is owed depends on where the node begins only while tokens are passed over.
    rcases known with rfl | settled
    · exact owes
    · cases phase <;> first | exact owes | cases settled
  tidy := nofun
  clean _ := nofun

/-- The error that is owed goes with a node for tokens that are passed over, and with no other. -/
theorem covered_close (within : inner.Accounts growth.offset growth.offset demands notes inside)
    {kind : NodeKind} (closes : inside.Closes kind) (wider : base ≤ growth.offset) :
    Covered ((if kind = .skipped then [(base, inner.offset)] else [])
      ++ (inner.nodes .skipped growth.offset ++ demands)) inner.report.errors := by
  obtain ⟨owed, owes, covered⟩ := within.owing
  -- A node for tokens that are passed over takes the error owed; any other node drops it.
  by_cases skipped : kind = .skipped
  · rw [Phase.Closes, if_pos skipped] at closes
    -- The error owed stands somewhere inside of the node.
    obtain ⟨spot, low, high, rfl⟩ := owes.spot closes within.base_le
    rw [if_pos skipped]
    exact covered.widen (Nat.le_trans wider low) high
  · rw [if_neg skipped]
    exact covered.drop

/-- A node is closed in a frame of its own, which joins the outer one. -/
theorem leave_close (accounts : growth.Accounts first base demands notes phase)
    (settled : phase.isSettled = true) {kind : NodeKind}
    (within : inner.Accounts growth.offset growth.offset (growth.nodes .skipped base ++ demands)
      (notes ++ (growth.nodes .ignored base).map Prod.fst
        ++ if kind = .ignored then [growth.offset] else []) inside)
    (closes : inside.Closes kind) :
    (growth.leave (inner.close kind)).Accounts first base demands notes .calm := by
  -- The new node comes after the nodes of the outer frame and before those inside of it.
  have nodes (other : NodeKind) : (growth.leave (inner.close kind)).nodes other base
      = growth.nodes other base ++ ((if kind = other then [(growth.offset, inner.offset)] else [])
        ++ inner.nodes other growth.offset) := by
    simp only [Growth.nodes, leave, close, List.singleton_append, List.reverse_cons, ranges_append,
      accounts.placed, ranges_node, within.placed]
  refine ⟨accounts.window, ?_, ?_, ⟨[], rfl, ?_⟩, ?_, fun _ => ?_⟩
  · simp only [leave, close, List.singleton_append, List.reverse_cons, List.map_append,
      total_append, ← Nat.add_assoc, accounts.placed]
    simpa using within.placed
  · -- The warning of a qualifier comes before whatever is in its node.
    rw [nodes]
    refine within.warned.trans ?_
    by_cases ignored : kind = .ignored <;> simp [ignored]
  · rw [nodes]
    -- The demands of the outer frame and of the node only change places.
    refine (within.covered_close closes (Nat.le_refl _)).perm ?_
    rw [List.nil_append, ← List.append_assoc, ← List.append_assoc]
    exact List.Perm.append_right demands List.perm_append_comm
  · refine List.forall_mem_cons.mpr ⟨.node (by simpa using within.tidy) ?_, accounts.tidy⟩
    -- Tokens without use may stand right below the node if it is kept for them.
    by_cases skipped : kind = .skipped
    · exact .inl skipped
    · rw [Phase.Closes, if_neg skipped] at closes
      exact .inr (by simpa using within.clean closes)
  · exact List.forall_mem_cons.mpr ⟨rfl, accounts.clean settled⟩

/-- A node is closed around the operand of the frame. -/
theorem close_leave (accounts : growth.Accounts first base demands notes phase)
    (settled : phase.isSettled = true) {kind : NodeKind} (unmarked : kind ≠ .ignored)
    (within : inner.Accounts growth.offset growth.offset (growth.nodes .skipped base ++ demands)
      (notes ++ (growth.nodes .ignored base).map Prod.fst) inside)
    (closes : inside.Closes kind) :
    ((growth.leave inner).close kind).Accounts first base demands notes .calm := by
  -- The node begins with the frame and holds all that the frame has held.
  have trees : ((growth.leave inner).close kind).siblings
      = [.node (.node kind) (growth.siblings.reverse ++ inner.siblings.reverse)] := by
    simp [leave, close]
  have placed : base + total ((growth.siblings.reverse ++ inner.siblings.reverse).map Tree.width)
      = inner.offset := by
    rw [List.map_append, total_append, ← Nat.add_assoc, accounts.placed, within.placed]
  have nodes (other : NodeKind) : ((growth.leave inner).close kind).nodes other base
      = (if kind = other then [(base, inner.offset)] else [])
        ++ (growth.nodes other base ++ inner.nodes other growth.offset) := by
    simp only [Growth.nodes, trees, List.reverse_singleton, ranges_node, placed, ranges_append,
      accounts.placed]
  refine ⟨accounts.window, ?_, ?_, ⟨[], rfl, ?_⟩, ?_, fun _ => ?_⟩
  · rw [trees, List.reverse_singleton, List.map_singleton, Tree.width_node, total_cons]
    exact placed
  · rw [nodes, if_neg unmarked]
    -- The node is not one for a qualifier, so no warning goes with it.
    exact within.warned.trans (by simp)
  · rw [nodes]
    refine (within.covered_close closes accounts.base_le).perm ?_
    rw [List.nil_append, List.append_assoc]
    refine List.Perm.append_left _ ?_
    rw [← List.append_assoc]
    exact List.Perm.append_right demands List.perm_append_comm
  · have tidy : ∀ tree ∈ growth.siblings.reverse ++ inner.siblings.reverse, tree.Tidy := by
      simpa [or_imp, forall_and] using ⟨accounts.tidy, within.tidy⟩
    rw [trees]
    refine List.forall_mem_singleton.mpr (.node tidy ?_)
    -- The operand and what came after it are both below the new node now.
    by_cases skipped : kind = .skipped
    · exact .inl skipped
    · rw [Phase.Closes, if_neg skipped] at closes
      exact .inr (by
        simpa [or_imp, forall_and] using ⟨accounts.clean settled, within.clean closes⟩)
  · rw [trees]
    exact List.forall_mem_singleton.mpr rfl

/-- What an inner frame holds in the end is held by the outer one. -/
theorem leave (accounts : growth.Accounts first base demands notes phase)
    (onward : inside.isSettled = true → phase.isSettled = true)
    (within : inner.Accounts first growth.offset (growth.nodes .skipped base ++ demands)
      (notes ++ (growth.nodes .ignored base).map Prod.fst) inside) :
    (growth.leave inner).Accounts first base demands notes inside := by
  -- No node is closed here: the nodes of both frames stand one after the other.
  have nodes (other : NodeKind) : (growth.leave inner).nodes other base
      = growth.nodes other base ++ inner.nodes other growth.offset := by
    simp only [Growth.nodes, Growth.leave, List.reverse_append, ranges_append, accounts.placed]
  refine ⟨accounts.window, ?_, ?_, ?_, ?_, fun settled => ?_⟩
  · rw [Growth.leave, List.reverse_append, List.map_append, total_append, ← Nat.add_assoc,
      accounts.placed]
    exact within.placed
  · rw [nodes]
    exact within.warned.trans (by simp)
  · obtain ⟨owed, owes, covered⟩ := within.owing
    rw [nodes]
    refine ⟨owed, owes, covered.perm (List.Perm.append_left _ ?_)⟩
    rw [← List.append_assoc]
    exact List.Perm.append_right demands List.perm_append_comm
  · simpa [Growth.leave, or_imp, forall_and] using ⟨within.tidy, accounts.tidy⟩
  · -- The outer frame is clean wherever the inner one is settled in the end.
    have outer := accounts.clean (onward settled)
    simpa [Growth.leave, or_imp, forall_and] using ⟨within.clean settled, outer⟩

end Accounts

/-- A qualifier is warned of where its node begins. -/
theorem Accounts.warn {growth read : Growth} {first base : Nat} {demands : List (Nat × Nat)}
    {notes : List Nat} {symbol : Symbol} {word : Keyword}
    (accounts : growth.Accounts first base demands notes .calm)
    (qualifier : word = .constWord ∨ word = .staticWord) (kind : symbol.kind = .keyword word)
    (sees : growth.Sees (some symbol))
    (bumped : (growth.addMistake (.ignoredQualifier word)).enter.bump = .ok read) :
    ((growth.addMistake (.ignoredQualifier word)).leave (read.close .ignored)).Accounts first base
      demands notes .calm := by
  have warned : (growth.addMistake (.ignoredQualifier word)).report.warned
      = growth.report.warned ++ [growth.offset] := by
    simp [Report.warned, addMistake, Report.add, Mistake.remark, Mistake.severity]
  -- A warning is no error, so nothing new is owed.
  have errors : (growth.addMistake (.ignoredQualifier word)).report.errors
      = growth.report.errors := by
    simp [Report.errors, addMistake, Report.add, Mistake.remark, Mistake.severity]
  have useful : symbol.kind.isForeign = false := by
    rw [kind]
    rcases qualifier with rfl | rfl <;> rfl
  -- The node begins right where the warning was made.
  have entered : (growth.addMistake (.ignoredQualifier word)).enter.Accounts growth.offset
      growth.offset (growth.nodes .skipped base ++ demands)
      (notes ++ (growth.nodes .ignored base).map Prod.fst ++ [growth.offset]) .calm := by
    -- Apart from the warning, the node begins like any other.
    obtain ⟨owed, owes, covered⟩ := (accounts.enter (Nat.le_refl _) (.inr rfl)).owing
    refine ⟨Nat.le_refl _, rfl, ?_, ⟨owed, owes, ?_⟩, nofun, fun _ => nofun⟩
    · refine warned.trans ?_
      rw [accounts.warned]
      exact (List.append_nil _).symm
    · change Covered _ (growth.addMistake (.ignoredQualifier word)).report.errors
      rw [errors]
      exact covered
  -- The qualifier itself is a token of use.
  have within := entered.bump (.inl ⟨rfl, symbol, sees, useful⟩) bumped
  have closed : (growth.leave (read.close .ignored)).Accounts first base demands notes .calm :=
    accounts.leave_close rfl within rfl
  exact closed.congr rfl rfl rfl

/-- Accounts are kept in every frame, and what is not settled does not become so. -/
def flagging : Course Attention := fun state growth ending after =>
  state.phase.rank ≤ ending.phase.rank ∧ ∀ first base demands notes,
    growth.Accounts first base demands notes state.phase →
    after.Accounts first base demands notes ending.phase

/-- Every careful step keeps accounts of what goes with a remark. -/
theorem kept_flagging (makes : NodeKind → Prop) (limit : Option Nat) :
    Course.Kept flagging makes limit where
  stay _ _ := ⟨Nat.le_refl _, fun _ _ _ _ accounts => accounts⟩
  further early late := ⟨Nat.le_trans early.1 late.1, fun first base demands notes accounts =>
    late.2 first base demands notes (early.2 first base demands notes accounts)⟩
  calm _ settled := ⟨Nat.le_of_eq (Phase.rank_eq_zero_iff.mpr settled),
    fun _ _ _ _ accounts => accounts.calm settled⟩
  pass _ passable := ⟨Phase.rank_le_of_isPassable passable,
    fun _ _ _ _ accounts => accounts.pass passable⟩
  look looked := ⟨Nat.le_of_eq (Phase.rank_looked _).symm,
    fun _ _ _ _ accounts => accounts.look looked⟩
  bump sees useful bumped := ⟨Nat.le_refl _, fun _ _ _ _ accounts =>
    accounts.bump (.inl ⟨rfl, _, sees, useful⟩) bumped⟩
  -- Tokens are passed over only after an error, which accounts for them.
  skip {_ phase _ _} uncalm bumped := by
    refine ⟨phase.rank_le_passed, fun _ _ _ _ accounts => ?_⟩
    cases phase with
    | calm => exact absurd rfl uncalm
    | noted | passing => exact (accounts.pass rfl).bump (.inr rfl) bumped
    | lost =>
      obtain ⟨_, owes, -⟩ := accounts.owing
      exact owes.elim
  report _ isError _ settled := ⟨Nat.le_of_eq (Phase.rank_eq_zero_iff.mpr settled),
    fun _ _ _ _ accounts => accounts.note settled isError⟩
  -- A node that is closed here was settled from its beginning.
  node {kind _ phase _ _ _} unmarked _ closes within := by
    have settled : phase.isSettled = true := Phase.settled_of_closes closes within.1
    refine ⟨Nat.le_of_eq (Phase.rank_eq_zero_iff.mpr settled), fun _ _ _ _ accounts => ?_⟩
    refine accounts.leave_close settled ?_ closes
    rw [if_neg unmarked, List.append_nil]
    refine within.2 _ _ _ _ ?_
    simp only [Phase.entered_of_isSettled settled]
    exact accounts.enter (Nat.le_refl _) (.inr settled)
  -- Once settled, a frame cannot have come from anything unsettled.
  frame {state growth inside inner} within := by
    refine ⟨within.1, fun first base demands notes accounts => accounts.leave (fun settled => ?_) ?_⟩
    · have rank := Phase.rank_eq_zero_iff.mpr settled
      have onward := within.1
      exact Phase.rank_eq_zero_iff.mp (by omega)
    · have window : first ≤ growth.offset := Nat.le_trans accounts.window accounts.base_le
      exact within.2 _ _ _ _ (accounts.enter window (.inl rfl))
  -- The operand moves into the node, and what it accounts for with it.
  wrap {kind _ phase _ _ _} _ unmarked _ closes within := by
    have settled : phase.isSettled = true := Phase.settled_of_closes closes within.1
    refine ⟨Nat.le_of_eq (Phase.rank_eq_zero_iff.mpr settled), fun _ _ _ _ accounts => ?_⟩
    refine accounts.close_leave settled unmarked (within.2 _ _ _ _ ?_) closes
    simp only [Phase.entered_of_isSettled settled]
    exact accounts.enter (Nat.le_refl _) (.inr settled)
  warn qualifier kind sees bumped := ⟨Nat.le_refl _, fun _ _ _ _ accounts =>
    accounts.warn qualifier kind sees bumped⟩

end Growth

end Dxl
