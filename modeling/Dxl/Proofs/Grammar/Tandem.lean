import Dxl.Proofs.Grammar.Reading

/-! Tandems: of two sides that are related to each other, the second one can do whatever the first one does. -/

namespace Dxl

/-- A relation between two sides that every step keeps, as long as the first side leaves unread what it should; the second side can then take the same step. -/
structure Tandem (limit : Option Nat) (unread : List Token → Prop)
    (related : Growth → Growth → Prop) : Prop where
  /-- What should be unread in the end should be so before. -/
  earlier : ∀ {left} read, unread left → unread (read ++ left)
  look : ∀ {growth other after symbol}, related growth other →
    growth.look limit = .ok (symbol, after) →
    ∃ afterOther, other.look limit = .ok (symbol, afterOther) ∧ related after afterOther
  bump : ∀ {growth other after}, related growth other → growth.bump = .ok after →
    unread after.rest → ∃ afterOther, other.bump = .ok afterOther ∧ related after afterOther
  report : ∀ {growth other} mistake, related growth other →
    related (growth.addMistake mistake) (other.addMistake mistake)
  opening : ∀ {growth other}, related growth other → growth.opening = other.opening
  enter : ∀ {growth other}, related growth other → related growth.enter other.enter
  leave : ∀ {growth other inner innerOther}, related growth other → related inner innerOther →
    related (growth.leave inner) (other.leave innerOther)
  close : ∀ {inner innerOther} kind, related inner innerOther →
    related (inner.close kind) (innerOther.close kind)
  progress : ∀ {growth other after afterOther}, related growth other → related after afterOther →
    growth.Reads after → other.Reads afterOther →
    afterOther.hasProgressed other.rest = after.hasProgressed growth.rest

namespace Tandem

variable {limit : Option Nat} {unread : List Token → Prop} {related : Growth → Growth → Prop}
  {depth reach : Nat} {growth other after : Growth}

open Dxl.Parser in
/-- The second side runs what the first one does, if it can run the rules that are called. -/
theorem grow_of_calls (tandem : Tandem limit unread related)
    (calls : ∀ {rule : Rule} {growth other after : Growth},
      rule.grow limit depth growth = .ok after → unread after.rest → related growth other →
      ∃ afterOther, rule.grow limit reach other = .ok afterOther ∧ related after afterOther)
    {α : Type} {parser : Parser α} {value : α}
    (grown : parser.grow (fun rule => rule.grow limit depth) limit growth = .ok (value, after))
    (left : unread after.rest) (begin : related growth other) :
    ∃ afterOther, parser.grow (fun rule => rule.grow limit reach) limit other
        = .ok (value, afterOther) ∧ related after afterOther := by
  -- The induction follows the program; every step has a field of its own above.
  induction parser generalizing growth other after with
  | done result =>
    cases grown
    exact ⟨other, rfl, begin⟩
  | andThen first next ihFirst ihNext =>
    obtain ⟨found, between, early, late⟩ := grow_bind_ok.mp grown
    -- What is unread in the end was unread in between.
    obtain ⟨read, taken, -⟩ := (grow_reads (fun _ _ _ => Rule.grow_reads) late).tokens
    have leftBetween : unread between.rest := taken ▸ tandem.earlier read left
    obtain ⟨betweenOther, earlyOther, middle⟩ := ihFirst early leftBetween begin
    obtain ⟨afterOther, lateOther, last⟩ := ihNext found late left middle
    exact ⟨afterOther, grow_bind_ok.mpr ⟨found, betweenOther, earlyOther, lateOther⟩, last⟩
  | look => exact tandem.look begin grown
  | bump =>
    obtain ⟨afterOther, bumped, last⟩ := tandem.bump begin (grow_bump_ok.mp grown) left
    exact ⟨afterOther, grow_bump_ok.mpr bumped, last⟩
  | report mistake =>
    cases grown
    exact ⟨_, rfl, tandem.report mistake begin⟩
  | node body ih =>
    obtain ⟨inner, inside, rfl⟩ := grow_node_ok.mp grown
    obtain ⟨innerOther, insideOther, within⟩ := ih inside left (tandem.enter begin)
    exact ⟨_, grow_node_ok.mpr ⟨innerOther, insideOther, rfl⟩,
      tandem.leave begin (tandem.close value within)⟩
  | frame body ih =>
    obtain ⟨inner, inside, rfl⟩ := grow_frame_ok.mp grown
    obtain ⟨innerOther, insideOther, within⟩ := ih inside left (tandem.enter begin)
    exact ⟨_, grow_frame_ok.mpr ⟨innerOther, insideOther, rfl⟩, tandem.leave begin within⟩
  | wrap body ih =>
    obtain ⟨operand, inner, inside, rfl⟩ := grow_wrap_ok.mp grown
    obtain ⟨innerOther, insideOther, within⟩ := ih inside left (tandem.enter begin)
    -- The other frame begins with a node as well, so it can be wrapped too.
    have operandOther : other.opening = .node := (tandem.opening begin).symm.trans operand
    exact ⟨_, grow_wrap_ok.mpr ⟨operandOther, innerOther, insideOther, rfl⟩,
      tandem.close value (tandem.leave begin within)⟩
  | progress body ih =>
    obtain ⟨inside, rfl⟩ := grow_progress_ok.mp grown
    obtain ⟨afterOther, insideOther, last⟩ := ih inside left begin
    have reads := grow_reads (fun _ _ _ => Rule.grow_reads) inside
    have readsOther := grow_reads (fun _ _ _ => Rule.grow_reads) insideOther
    exact ⟨afterOther,
      grow_progress_ok.mpr ⟨insideOther, tandem.progress begin last reads readsOther⟩, last⟩
  | call rule =>
    obtain ⟨afterOther, called, last⟩ := calls (grow_call_ok.mp grown) left begin
    exact ⟨afterOther, grow_call_ok.mpr called, last⟩

/-- The second side runs a rule as the first one does, if its calls may nest at least as deeply. -/
theorem grow_rule (tandem : Tandem limit unread related) (deep : depth ≤ reach) {rule : Rule}
    (grown : rule.grow limit depth growth = .ok after) (left : unread after.rest)
    (begin : related growth other) :
    ∃ afterOther, rule.grow limit reach other = .ok afterOther ∧ related after afterOther := by
  -- The induction is on how deeply calls nest, which may be more on the other side.
  induction depth generalizing rule reach growth other after with
  | zero => cases grown
  | succ depth ih =>
    obtain ⟨further, rfl⟩ : ∃ further, reach = further + 1 := ⟨reach - 1, by omega⟩
    have inner : depth ≤ further := by omega
    obtain ⟨afterOther, grownOther, last⟩ := tandem.grow_of_calls
      (fun called left begin => ih inner called left begin) (Rule.grow_ok.mp grown) left begin
    exact ⟨afterOther, Rule.grow_ok.mpr grownOther, last⟩

/-- The second side runs a parser as the first one does, if its calls may nest at least as deeply. -/
theorem grow (tandem : Tandem limit unread related) (deep : depth ≤ reach) {α : Type}
    {parser : Parser α} {value : α}
    (grown : parser.grow (fun rule => rule.grow limit depth) limit growth = .ok (value, after))
    (left : unread after.rest) (begin : related growth other) :
    ∃ afterOther, parser.grow (fun rule => rule.grow limit reach) limit other
        = .ok (value, afterOther) ∧ related after afterOther :=
  tandem.grow_of_calls (fun called left begin => tandem.grow_rule deep called left begin) grown left
    begin

end Tandem

end Dxl
