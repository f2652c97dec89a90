import Dxl.Proofs.Form.Formation
import Dxl.Proofs.Form.Statement
import Dxl.Proofs.Form.Place
import Dxl.Proofs.Grammar.Makeup
import Dxl.Proofs.Parse.Lossless

/-! Forms: what the nodes of a source text are put together of. -/

namespace Dxl

/-- Every node of a source text is put together as its kind demands, and without errors nothing that is needed is left out. -/
theorem formed_of_parseText {text : String} {parsed : Parsed} (parses : parseText text = .ok parsed) :
    parsed.tree.Formed (parsed.report.errorCount = 0) := by
  obtain ⟨growth, program, rfl⟩ := exists_growth_of_parseText parses
  -- Trivia at the end of the text is read without a remark.
  have report : growth.eatTrivia.report = growth.report := growth.report_eatTrivia
  have spotless : growth.eatTrivia.report.errorCount = 0 → growth.report.errors = [] := by
    intro none
    rwa [report, Report.errorCount, Report.count, List.countP_eq_length_filter,
      List.length_eq_zero_iff] at none
  obtain ⟨formed, items, areItems, same⟩ :=
    Rule.formsIn_of_grow (fun rule _ _ => Grammar.writes_body rule) program spotless
      (by simp [Growth.Each, Growth.initial]) none (Growth.sees_none _) trivial
  obtain ⟨trivia, siblings, passed⟩ := growth.adds_eatTrivia
  have each : growth.eatTrivia.Each (Tree.Formed _) := formed.adds
    ⟨trivia, siblings, fun tree member => Growth.Each.of_isTrivia .leaf (passed tree member)⟩
  have whole : Tree.constituents growth.eatTrivia.siblings.reverse = items :=
    (Growth.constituents_adds growth.adds_eatTrivia).trans same
  refine .node (fun child member => each child (List.mem_reverse.mp member)) ?_
  rw [whole]
  exact areItems

/-- No node of a single token in a source text holds trivia. -/
theorem trimmed_of_parseText {text : String} {parsed : Parsed}
    (parses : parseText text = .ok parsed) : parsed.tree.Trimmed := by
  obtain ⟨growth, program, rfl⟩ := exists_growth_of_parseText parses
  have neat := Rule.neat_of_grow program ⟨by simp [Growth.Each, Growth.initial], by simp [Growth.initial]⟩
  obtain ⟨trivia, siblings, passed⟩ := growth.adds_eatTrivia
  have each : growth.eatTrivia.Each Tree.Trimmed := neat.trimmed.adds
    ⟨trivia, siblings, fun tree member => Growth.Each.of_isTrivia (fun _ => .leaf _) (passed tree member)⟩
  refine .node (fun child member => each child (List.mem_reverse.mp member)) ?_
  rintro ⟨⟩

/-- Every node of a source text holds what its kind tells, wherever the text begins. -/
theorem madeUp_of_parseText {text : String} {parsed : Parsed} (parses : parseText text = .ok parsed)
    (base : Nat) {place : Place} (inside : place.Within (.root parsed.tree base)) {kind : NodeKind}
    (isNode : place.kind = .node kind) :
    ∃ start children, place.start = base + start ∧ place.tree = .node (.node kind) children
      ∧ MadeUp (tokenize text) start kind children := by
  have composite := Place.isLeaf_of_formed
    (Place.formed_of_within (formed_of_parseText parses) inside) isNode
  have all : ∀ spot ∈ spots 0 parsed.tree, MadeUpAt (tokenize text) spot := by
    obtain ⟨growth, program, rfl⟩ := exists_growth_of_parseText parses
    -- Nothing is made before the first token is read.
    have initial : (Growth.initial (tokenize text)).Sound (tokenize text) 0 :=
      ⟨⟨List.suffix_refl _, adjoining_tokensFrom false 0 text.toList⟩, ⟨rfl, nofun⟩,
        fun _ => rfl, nofun⟩
    obtain ⟨_, _, -, -, brings⟩ := Rule.bringsIn_of_grow program .anything
    have each := ((brings.sound 0 initial).spread.eatTrivia (madeUpAt_leaf _)).each
    intro spot member
    rcases List.mem_cons.mp member with rfl | below
    · exact ⟨nofun, nofun, nofun⟩
    · exact each spot below
  obtain ⟨start, starts, member⟩ := inside.exists_spot
  have made := all _ member
  obtain ⟨tree, begin, above⟩ := place
  cases tree with
  | leaf => cases composite
  | node other children =>
    obtain rfl : other = .node kind := isNode
    exact ⟨start, children, starts, rfl, made⟩

end Dxl
