import Dxl.Proofs.Grammar.Supply
import Dxl.Proofs.Parse.Lossless

/-! Operands: which operands the operators of a source text have as long as it has no errors. -/

namespace Dxl

open Place

namespace Place

/-- The semicolons right below, which stand for empty operands of an operator. -/
def emptyOperands (place : Place) : List Place :=
  place.tokens.filter fun token => token.kind == .token (.sign .semicolon)

/-- A row is counted like its trees by a test that only depends on them. -/
theorem countP_row {test : Place → Bool} {shape : Tree → Bool} {above : List (Tree × Nat)}
    (agrees : ∀ tree start, test ⟨tree, start, above⟩ = shape tree) (start : Nat)
    (trees : List Tree) : (row above start trees).countP test = trees.countP shape := by
  induction trees generalizing start with
  | nil => rfl
  | cons tree rest ih => rw [row, List.countP_cons, List.countP_cons, agrees, ih]

/-- The expressions right below a place are those among the children of its tree. -/
theorem length_expressions (place : Place) :
    place.expressions.length = expressionCount place.tree.children := by
  rw [expressions, nodes, List.filter_filter, ← List.countP_eq_length_filter]
  refine countP_row (fun tree start => ?_) place.start _
  cases tree <;>
    simp [isExpression, isToken, Place.kind, Tree.kind, Tree.isLeaf, Tree.isExpression]

/-- The empty operands right below a place are the semicolons among the children of its tree. -/
theorem length_emptyOperands (place : Place) :
    place.emptyOperands.length = place.tree.children.countP Tree.isSemicolon := by
  rw [emptyOperands, tokens, List.filter_filter, ← List.countP_eq_length_filter]
  -- Places and trees are counted side by side; only a leaf that is a semicolon counts.
  refine countP_row (fun tree start => ?_) place.start _
  cases tree with
  | leaf kind text =>
    by_cases same : kind = .token (.sign .semicolon)
    · subst same
      rfl
    · have other : Tree.isSemicolon (.leaf kind text) = false := by
        unfold Tree.isSemicolon
        split <;> simp_all
      simp [isToken, Place.kind, Tree.kind, Tree.isLeaf, other, same]
  | node kind children => simp [isToken, Tree.isLeaf, Tree.isSemicolon]

end Place

/-- A source text without errors has only complete nodes. -/
theorem complete_of_parseText {text : String} {parsed : Parsed}
    (parses : parseText text = .ok parsed) (clean : parsed.report.errorCount = 0) :
    ∀ spot ∈ spots 0 parsed.tree, CompleteAt (tokenize text) spot := by
  obtain ⟨growth, program, rfl⟩ := exists_growth_of_parseText parses
  have isPlain : Rule.program.IsPlain := trivial
  have onward := (Rule.furnishes_grow (tokenize text) _ _).plain isPlain program
  -- Nothing is made before the first token is read.
  have initial : (Growth.initial (tokenize text)).Whole (tokenize text) 0 :=
    ⟨⟨List.suffix_refl _, adjoining_tokensFrom false 0 text.toList⟩, rfl, fun _ => nofun⟩
  have whole := (onward.whole 0 initial).eatTrivia
  have none : growth.eatTrivia.report.errors = [] := by
    rwa [Report.errorCount, Report.count, List.countP_eq_length_filter, List.length_eq_zero_iff]
      at clean
  intro spot member
  rcases List.mem_cons.mp member with rfl | below
  · exact .of_isSimple rfl
  · exact whole.complete none spot below

/-- Without errors every operator has all of its operands, except that empty ones may stand for those of any operator but the joining of text, and that the end of a statement may cut off the last one of any operator but that and an index. -/
theorem parseText_operands {text : String} {parsed : Parsed} (parses : parseText text = .ok parsed)
    (clean : parsed.report.errorCount = 0) {place : Place}
    (member : place ∈ (root parsed.tree 0).elements) {kind : NodeKind}
    (isNode : place.kind = .node kind) :
    (∀ n < kind.operandCount, (place.expression? n).isSome = true)
      ∨ kind ≠ .concat
        ∧ kind.operandCount ≤ place.expressions.length + place.emptyOperands.length
      ∨ kind ≠ .concat ∧ kind ≠ .index
        ∧ kind.operandCount ≤ place.expressions.length + place.emptyOperands.length + 1
        ∧ ∃ token ∈ tokenize text, (token.kind = .hardBreak ∨ token.kind = .endOfText)
          ∧ token.start = place.stop := by
  have complete := complete_of_parseText parses clean place.spot (by
    rw [← spots_elements parsed.tree 0 []]
    exact List.mem_map_of_mem member)
  rw [length_expressions, length_emptyOperands]
  have all (enough : kind.operandCount ≤ expressionCount place.tree.children) :
      ∀ n < kind.operandCount, (place.expression? n).isSome = true := by
    intro n low
    rw [expression?, List.getElem?_eq_getElem]
    · rfl
    · rw [length_expressions]
      exact Nat.lt_of_lt_of_le low enough
  -- In the whole tree nothing is flawed, so neither is what lies within.
  have flawless : place.tree.Flawless := by
    obtain ⟨_, _, _, -, -, -, -, -, whole⟩ := root_of_parseText parses
    refine (mem_elements_iff.mp member).inherit (fun flawless inside => ?_) whole
    rcases flawless with nonempty | below
    · cases inside
    · exact below _ inside
  obtain ⟨tree, start, above⟩ := place
  rcases flawless with nonempty | @⟨other, children, below⟩
  · cases isNode
  · obtain rfl : other = kind := Kind.node.inj isNode
    -- Enough expressions, enough together with the semicolons, or one less where the statement is
    -- cut off.
    rcases complete with enough | ⟨apart, enough⟩ | ⟨apart, closed, enough, token, among, ends, starts⟩
    · exact .inl (all enough)
    · exact .inr (.inl ⟨apart, enough⟩)
    · rw [← Tree.width_node (.node other)] at starts
      refine .inr (.inr ⟨apart, closed, enough, token, among, ?_, starts⟩)
      unfold TokenKind.cutsOff at ends
      split at ends
      · exact .inl ‹_›
      · exact .inr ‹_›
      · cases ends

/-- A line break that ends the statement cuts off the right operand, and no error tells of it. -/
theorem exists_cutOff_operand :
    ∃ parsed, parseText "a + \nb" = .ok parsed ∧ parsed.report.errorCount = 0
      ∧ ∃ place ∈ (root parsed.tree 0).elements, place.kind = .node .binary
        ∧ place.expression? 1 = none := by
  have found : (parseText "a + \nb").toOption.any (fun parsed =>
      parsed.report.errorCount == 0 && (root parsed.tree 0).elements.any fun place =>
        place.kind == .node .binary && (place.expression? 1).isNone) = true := by decide +kernel
  obtain ⟨parsed, parses, found⟩ := exists_ok_of_any found
  simp only [Bool.and_eq_true, beq_iff_eq, List.any_eq_true, Option.isNone_iff_eq_none] at found
  obtain ⟨clean, place, member, isNode, missing⟩ := found
  exact ⟨parsed, parses, clean, place, member, isNode, missing⟩

/-- The index is empty and the last branch is cut off, while the joined text has both of its operands. -/
theorem parseText_operands_choice :
    ∃ parsed, parseText "a[;] = b ? c \"d\" : \n" = .ok parsed ∧ parsed.report.errorCount = 0
      ∧ ∃ place ∈ (root parsed.tree 0).elements, place.kind = .node .ternary
        ∧ place.expressions.length = 2
        ∧ ∃ token ∈ tokenize "a[;] = b ? c \"d\" : \n",
          (token.kind = .hardBreak ∨ token.kind = .endOfText) ∧ token.start = place.stop := by
  have found : (parseText "a[;] = b ? c \"d\" : \n").toOption.any (fun parsed =>
      parsed.report.errorCount == 0 && (root parsed.tree 0).elements.any fun place =>
        place.kind == .node .ternary && place.expressions.length == 2
          && place.emptyOperands.length == 0) = true := by decide +kernel
  obtain ⟨parsed, parses, found⟩ := exists_ok_of_any found
  simp only [Bool.and_eq_true, beq_iff_eq, List.any_eq_true] at found
  obtain ⟨clean, place, member, ⟨isNode, two⟩, none⟩ := found
  refine ⟨parsed, parses, clean, place, member, isNode, two, ?_⟩
  rcases parseText_operands parses clean member isNode with all | ⟨-, enough⟩ | ⟨-, -, -, ends⟩
  · have last := all 2 (Nat.lt_succ_self 2)
    rw [expression?, List.getElem?_eq_none (Nat.le_of_eq two)] at last
    cases last
  · rw [two, none] at enough
    exact absurd enough (by decide)
  · exact ends

end Dxl
