import Dxl.Proofs.View.Parts
import Dxl.View.Outline

/-! Nesting: which lines of an outline are indented deeper than the line of the view that they belong to. -/

namespace Dxl

namespace Place

variable {place : Place} {levels : Nat} {part : Part place}

/-- A part that may be missing starts a line one level deeper. -/
@[simp] theorem line_mem_partLine {found : Option (Part place)} :
    .line levels part ∈ partLine found ↔ levels = 1 ∧ found = some part := by
  cases found <;> simp [partLine, eq_comm]

/-- Parts start lines which are all as much deeper. -/
@[simp] theorem line_mem_partLines {deeper : Nat} {found : List (Part place)} :
    .line levels part ∈ partLines deeper found ↔ levels = deeper ∧ part ∈ found := by
  simp only [partLines, List.mem_map, Piece.line.injEq]
  constructor
  · rintro ⟨_, among, rfl, rfl⟩
    exact ⟨rfl, among⟩
  · rintro ⟨rfl, among⟩
    exact ⟨part, among, rfl, rfl⟩

/-- A part on a line of its own is not on the same line. -/
@[simp] theorem inline_notMem_partLine {found : Option (Part place)} :
    .inline part ∉ partLine found := by
  cases found <;> simp [partLine]

/-- Parts on lines of their own are not on the same line. -/
@[simp] theorem inline_notMem_partLines {deeper : Nat} {found : List (Part place)} :
    .inline part ∉ partLines deeper found := by
  simp [partLines]

/-- A part after a tag starts no line. -/
@[simp] theorem line_notMem_tagged {tag : String} {found : Option (Part place)} :
    .line levels part ∉ tagged tag found := by
  cases found <;> simp [tagged]

/-- A part after a tag is on the same line. -/
@[simp] theorem inline_mem_tagged {tag : String} {found : Option (Part place)} :
    .inline part ∈ tagged tag found ↔ found = some part := by
  cases found <;> simp [tagged, eq_comm]

/-- The definitions of the pieces of an outline come down to lines, tags and texts. -/
theorem levels_of_line_mem_pieces (member : .line levels part ∈ place.pieces) :
    1 ≤ levels ∧ levels ≤ 2 := by
  unfold pieces at member
  split at member
  · cases member
  · rename_i kind isNode
    -- Each kind of node has its own pieces, which come down to the lemmas on lines above.
    cases kind <;>
      simp [piecesOf, operation, taggedText, nameLine, firstContent, statementLine, firstOperand,
        secondOperand, thirdOperand, typeText] at member <;>
      omega

/-- The lines below a root are those of its statements. -/
theorem isStatement_of_line_mem_pieces (isRoot : place.kind = .node .root)
    (member : .line levels part ∈ place.pieces) : part.1.isStatement = true := by
  have among : part ∈ place.statementParts := by
    simp only [pieces, isRoot, piecesOf, List.mem_cons, reduceCtorEq, false_or,
      line_mem_partLines] at member
    exact member.2
  have inside : part.1 ∈ place.statements := by
    rw [← map_partsAmong (below_of_mem_statements : ∀ {inner}, inner ∈ place.statements → _)]
    exact List.mem_map_of_mem among
  exact (List.mem_filter.mp inside).2

/-- What is printed on the same line is the object of a property access, or a name that is called or indexed. -/
theorem exists_of_inline_mem_pieces (member : .inline part ∈ place.pieces) :
    place.isExpression = true
      ∧ (place.isA .property = true ∧ place.expression? 0 = some part.1
        ∨ part.1.isNameRef = true) := by
  unfold pieces at member
  split at member
  · cases member
  · rename_i kind isNode
    -- The name on the same line is the leading name of the node.
    have leading (found : place.namePart? = some part) : part.1.isNameRef = true := by
      have same := congrArg (Option.map Subtype.val) found
      rw [namePart?, map_partAt?] at same
      exact (Option.filter_eq_some_iff.mp same).2
    -- Only a property access and what is called or indexed print something on the same line.
    cases kind <;>
      simp [piecesOf, operation, taggedText, nameLine, firstContent, statementLine, firstOperand,
        secondOperand, thirdOperand, typeText] at member
    case property =>
      have same := congrArg (Option.map Subtype.val) member
      rw [operandPart?, map_partAt?] at same
      exact ⟨by rw [isExpression, isNode]; rfl, .inl ⟨by simp [isA, isNode], same⟩⟩
    all_goals exact ⟨by rw [isExpression, isNode]; rfl, .inr (leading member)⟩

/-- A place that starts no line for any of its parts. -/
def IsFlat (place : Place) : Prop :=
  ∀ levels part, .line levels part ∉ place.pieces

/-- A reference to a name starts no line. -/
theorem isFlat_of_isNameRef (name : place.isNameRef = true) : place.IsFlat := by
  intro levels part member
  rw [isNameRef] at name
  unfold pieces at member
  split at member
  · cases member
  · rename_i kind isNode
    rw [isNode] at name
    -- The two kinds of names print a text and nothing else.
    cases kind <;> first | cases name; done | skip
    all_goals simp [piecesOf, taggedText] at member

/-- The object of a property access is printed on the line of the access. -/
theorem inline_mem_pieces {object : Place} (access : place.isA .property = true)
    (found : place.expression? 0 = some object) :
    ∃ part : Part place, part.1 = object ∧ .inline part ∈ place.pieces := by
  have same : (place.operandPart? 0).map Subtype.val = some object := by
    rw [operandPart?, map_partAt?, found]
  obtain ⟨part, first, rfl⟩ := Option.map_eq_some_iff.mp same
  refine ⟨part, rfl, ?_⟩
  simp [pieces, beq_iff_eq.mp access, piecesOf, first]

/-- No place is viewed both as a statement and as an expression. -/
theorem isExpression_of_isStatement (statement : place.isStatement = true) :
    place.isExpression = false := by
  rw [isStatement] at statement
  rw [isExpression]
  cases isKind : place.kind with
  | token kind => rfl
  | node kind =>
    rw [isKind] at statement
    cases kind <;> first | rfl | cases statement

end Place

/-- What an outline is made of: a text, or the start of a line, with the depth of the line it belongs to and its own depth. -/
inductive Mark where
  | text (written : String)
  | line (outer inner : Nat)
deriving DecidableEq

/-- What is printed for a mark. -/
def Mark.render : Mark → String
  | .text written => written
  | .line _ inner => Place.lineStart inner

/-- A view that is printed, with the depth of the line it is printed on and the depth from which its own lines are counted. -/
structure Entry where
  view : Place
  line : Nat
  depth : Nat

namespace Entry

/-- What an outline begins with. -/
def first (view : Place) : Entry :=
  ⟨view, 0, 0⟩

/-- A part on a line of its own. -/
def lower (entry : Entry) (levels : Nat) (part : Place) : Entry :=
  ⟨part, entry.depth + levels, entry.depth + levels⟩

/-- A part on the same line, below which the depth is counted anew. -/
def beside (entry : Entry) (part : Place) : Entry :=
  ⟨part, entry.line, 0⟩

/-- Everything that is printed from an entry on. -/
def marks (entry : Entry) : List Mark :=
  entry.view.pieces.flatMap fun
    | .text written => [.text written]
    | .line levels ⟨part, _⟩ =>
      .line entry.line (entry.depth + levels) :: marks (entry.lower levels part)
    | .inline ⟨part, _⟩ => marks (entry.beside part)
termination_by entry.view.tree.size
decreasing_by
  all_goals exact Place.Below.size_lt (by assumption)

/-- An entry is printed in the outline that begins with the topmost one. -/
inductive Prints (top : Entry) : Entry → Prop
  | itself : Prints top top
  | line {entry : Entry} {levels : Nat} {part : Place.Part entry.view} (prints : Prints top entry)
    (member : .line levels part ∈ entry.view.pieces) : Prints top (entry.lower levels part.1)
  | inline {entry : Entry} {part : Place.Part entry.view} (prints : Prints top entry)
    (member : .inline part ∈ entry.view.pieces) : Prints top (entry.beside part.1)

/-- Every line is indented deeper than the line that it belongs to. -/
def Nested (top : Entry) : Prop :=
  ∀ outer inner, .line outer inner ∈ top.marks → outer < inner

variable {top entry : Entry}

/-- The marks of an outline spell its text. -/
theorem join_marks (entry : Entry) :
    String.join (entry.marks.map Mark.render) = entry.view.outlineAt entry.depth := by
  -- Each piece contributes the same on both sides, its part by induction on the size of the view.
  rw [marks, Place.outlineAt, List.map_flatMap]
  induction entry.view.pieces with
  | nil => rfl
  | cons piece rest ih =>
    rw [List.flatMap_cons, String.join_append, ih, List.map_cons, String.join_cons]
    congr 1
    cases piece with
    | text written => simp [Mark.render, String.join_cons]
    | line levels part =>
      show String.join (Mark.render (.line _ _) :: (entry.lower levels part.1).marks.map _) = _
      rw [String.join_cons, join_marks (entry.lower levels part.1)]
      rfl
    | inline part => exact join_marks (entry.beside part.1)
termination_by entry.view.tree.size
decreasing_by
  all_goals exact part.2.size_lt

/-- What is printed in the outline of a part is printed in the outline around it. -/
theorem marks_subset (prints : top.Prints entry) : entry.marks ⊆ top.marks := by
  induction prints with
  -- From the innermost entry outwards, what an entry prints is part of what the one around it
  -- prints.
  | itself => exact List.Subset.refl _
  | @line entry levels part prints member ih =>
    refine List.Subset.trans ?_ ih
    intro mark among
    rw [marks, List.mem_flatMap]
    exact ⟨_, member, List.mem_cons_of_mem _ among⟩
  | @inline entry part prints member ih =>
    refine List.Subset.trans ?_ ih
    intro mark among
    rw [marks, List.mem_flatMap]
    exact ⟨_, member, among⟩

/-- What is printed in the outline of a part is printed in the outline around it. -/
theorem Prints.trans {outer middle inner : Entry} (first : outer.Prints middle)
    (second : middle.Prints inner) : outer.Prints inner := by
  induction second with
  | itself => exact first
  | line _ member ih => exact .line ih member
  | inline _ member ih => exact .inline ih member

/-- A line is started for a part of an entry that is printed. -/
theorem exists_of_line_mem_marks (top : Entry) {outer inner : Nat}
    (among : .line outer inner ∈ top.marks) :
    ∃ entry levels part, top.Prints entry ∧ .line levels part ∈ entry.view.pieces
      ∧ entry.line = outer ∧ entry.depth + levels = inner := by
  rw [marks, List.mem_flatMap] at among
  obtain ⟨piece, member, among⟩ := among
  -- The line is started by a piece of this entry, or within one of its parts.
  cases piece with
  | text written => simp at among
  | line levels part =>
    rcases List.mem_cons.mp among with same | further
    · cases same
      exact ⟨top, levels, part, .itself, member, rfl, rfl⟩
    · obtain ⟨entry, deeper, within, prints, found⟩ := exists_of_line_mem_marks _ further
      exact ⟨entry, deeper, within, (Prints.itself.line member).trans prints, found⟩
  | inline part =>
    obtain ⟨entry, levels, within, prints, found⟩ :=
      exists_of_line_mem_marks _ among
    exact ⟨entry, levels, within, (Prints.itself.inline member).trans prints, found⟩
termination_by top.view.tree.size
decreasing_by
  all_goals exact part.2.size_lt

/-- The lines of an outline are those that the printed entries start for their parts. -/
theorem nested_iff : top.Nested ↔ ∀ entry, top.Prints entry → ∀ levels part,
    .line levels part ∈ entry.view.pieces → entry.line < entry.depth + levels := by
  constructor
  · intro nested entry prints levels part member
    apply nested
    apply marks_subset prints
    rw [marks, List.mem_flatMap]
    exact ⟨_, member, List.mem_cons_self⟩
  · -- Every line among the marks was started by some printed entry, at its depth and for one of its
    -- parts.
    intro deeper outer inner among
    obtain ⟨entry, levels, part, prints, member, rfl, rfl⟩ := exists_of_line_mem_marks top among
    exact deeper entry prints levels part member

/-- Where every line is nested, an entry counts the depth from its own line, or is on the line of another one and has no room for lines of its own; an expression is at least two levels deep. -/
theorem Nested.placed (nested : top.Nested) (isRoot : top.view.kind = .node .root)
    (starts : top.line = 0 ∧ top.depth = 0) (prints : top.Prints entry) :
    (entry.line = entry.depth ∧ (entry.view.kind = .node .root ∨ 1 ≤ entry.line)
        ∨ entry.depth = 0 ∧ 2 ≤ entry.line)
      ∧ (entry.view.isExpression = true → 2 ≤ entry.line) := by
  induction prints with
  | itself =>
    -- The root is printed first, and it is no expression.
    refine ⟨.inl ⟨by omega, .inl isRoot⟩, ?_⟩
    intro expression
    rw [Place.isExpression, isRoot] at expression
    cases expression
  | @line entry levels part prints member ih =>
    obtain ⟨counted, -⟩ := ih
    have deeper := nested_iff.mp nested entry prints levels part member
    have bound := Place.levels_of_line_mem_pieces member
    -- A line is one or two levels deep when it is counted anew, which leaves none for what is
    -- two levels deep.
    obtain ⟨same, root | low⟩ := counted.resolve_right (by omega)
    · -- Below the root are statements, one level deep.
      have statement := Place.isStatement_of_line_mem_pieces root member
      refine ⟨.inl ⟨rfl, .inr (by simp only [lower]; omega)⟩, ?_⟩
      intro expression
      rw [lower, Place.isExpression_of_isStatement statement] at expression
      cases expression
    · -- Below any other line there is at least a second level.
      have deep : 2 ≤ entry.depth + levels := by omega
      exact ⟨.inl ⟨rfl, .inr (Nat.le_of_succ_le deep)⟩, fun _ => deep⟩
  | @inline entry part prints member ih =>
    -- What is printed on the same line keeps that line, which is deep enough for an expression.
    have deep := ih.2 (Place.exists_of_inline_mem_pieces member).1
    exact ⟨.inr ⟨rfl, deep⟩, fun _ => deep⟩

/-- If the object of every property access is printed on one line, an entry counts the depth from its own line or starts no line. -/
theorem Prints.counted (flat : ∀ access, top.Prints access → access.view.isA .property = true →
      ∀ object, access.view.expression? 0 = some object → object.IsFlat)
    (starts : top.line = top.depth) (prints : top.Prints entry) :
    entry.line = entry.depth ∨ entry.view.IsFlat := by
  induction prints with
  | itself => exact .inl starts
  | line => exact .inl rfl
  | @inline entry part prints member ih =>
    -- What is printed on the same line is the object of an access or a name, and neither starts
    -- lines.
    obtain ⟨-, ⟨access, object⟩ | name⟩ := Place.exists_of_inline_mem_pieces member
    · exact .inr (flat entry prints access _ object)
    · exact .inr (Place.isFlat_of_isNameRef name)

/-- The lines of an outline are nested just if the object of every property access in it is printed on one line. -/
theorem nested_first_iff {view : Place} (isRoot : view.kind = .node .root) :
    (first view).Nested ↔ ∀ access, (first view).Prints access →
      access.view.isA .property = true →
        ∀ object, access.view.expression? 0 = some object → object.IsFlat := by
  constructor
  · intro nested access prints property object found levels part member
    have expression : access.view.isExpression = true := by
      rw [Place.isExpression, beq_iff_eq.mp property]
      rfl
    have deep := (nested.placed isRoot ⟨rfl, rfl⟩ prints).2 expression
    -- The object is on the line of the access, so a line of its own would be at most two levels
    -- deep.
    obtain ⟨held, rfl, beside⟩ := Place.inline_mem_pieces property found
    have deeper := nested_iff.mp nested _ (prints.inline beside) levels part member
    have bound := (Place.levels_of_line_mem_pieces member).2
    simp only [Entry.beside] at deeper
    omega
  · intro flat
    apply nested_iff.mpr
    intro entry prints levels part member
    rcases prints.counted flat rfl with same | noLines
    · have := (Place.levels_of_line_mem_pieces member).1
      omega
    · exact absurd member (noLines levels part)

end Entry

end Dxl
