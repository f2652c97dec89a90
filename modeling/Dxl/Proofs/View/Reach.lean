import Dxl.Proofs.Place.Proper
import Dxl.View.Highlight

/-! Reach: what is looked at below a place, and which tokens the highlights are made of. -/

namespace Dxl

/-- A highlight has the range of a token within a place. -/
def Highlight.Marks (highlight : Highlight) (place : Place) : Prop :=
  ∃ token : Place, token.Within place ∧ token.isToken = true
    ∧ highlight.start = token.start ∧ highlight.stop = token.stop

/-- Highlights in order start one after the other. -/
theorem Highlight.start_le_of_precedes {left right : Highlight}
    (ordered : left.precedes right = true) : left.start ≤ right.start := by
  simp only [precedes, Bool.or_eq_true, Bool.and_eq_true, decide_eq_true_eq, beq_iff_eq] at ordered
  omega

namespace Highlight.Marks

variable {highlight : Highlight} {inner outer token : Place}

/-- What marks a place marks everything that the place is within. -/
theorem within (marks : highlight.Marks inner) (inside : inner.Within outer) :
    highlight.Marks outer := by
  obtain ⟨token, below, isToken, range⟩ := marks
  exact ⟨token, below.trans inside, isToken, range⟩

/-- A token right below a place is marked by a highlight of its range. -/
theorem of_mem_tokens (kind : HighlightKind) (member : token ∈ outer.tokens) :
    Marks ⟨kind, token.start, token.stop⟩ outer := by
  obtain ⟨inside, isToken⟩ := List.mem_filter.mp member
  exact ⟨token, .of_mem_children inside, isToken, rfl, rfl⟩

/-- What marks a proper place is not empty, and lies in its range. -/
theorem range (marks : highlight.Marks outer) (proper : outer.Proper) :
    outer.start ≤ highlight.start ∧ highlight.start < highlight.stop
      ∧ highlight.stop ≤ outer.stop := by
  obtain ⟨token, inside, isToken, starts, stops⟩ := marks
  have bounds := inside.range
  -- A token is a leaf, which is only without flaws if its text is not empty.
  have nonempty : token.start < token.stop := by
    obtain ⟨tree, start, above⟩ := token
    rcases (proper.of_within inside).flawless with nonempty | below
    · exact Nat.lt_add_of_pos_right
        (Nat.pos_of_ne_zero fun zero => nonempty (String.utf8ByteSize_eq_zero_iff.mp zero))
    · cases isToken
  omega

end Highlight.Marks

namespace Place

variable {place inner token : Place} {highlight : Highlight}

/-- A place is reached first, and then all that is reached from its parts. -/
theorem reached_eq (place : Place) :
    place.reached = place :: place.parts.flatMap fun part => part.1.reached := by
  rw [reached]

/-- What holds of a place if it holds of its parts holds of every place. -/
@[elab_as_elim]
theorem induct_parts {motive : Place → Prop}
    (step : ∀ place, (∀ part ∈ place.parts, motive part.1) → motive place) (place : Place) :
    motive place :=
  step place fun part _ => induct_parts step part.1
termination_by place.tree.size
decreasing_by
  -- Parts lie below the place.
  exact part.2.size_lt

/-- What is reached is the place itself or is reached from one of its parts. -/
theorem mem_reached_iff :
    inner ∈ place.reached ↔ inner = place ∨ ∃ part ∈ place.parts, inner ∈ part.1.reached := by
  rw [reached_eq, List.mem_cons, List.mem_flatMap]

/-- What is reached from a place is within it. -/
theorem within_of_mem_reached (member : inner ∈ place.reached) : inner.Within place := by
  induction place using induct_parts with
  | step place ih =>
    rcases mem_reached_iff.mp member with rfl | ⟨part, among, further⟩
    · exact .refl _
    · exact .inr ((ih part among further).trans_below part.2)

/-- A highlight that is made of a token has the range of that token. -/
theorem mem_highlight_iff {kind : HighlightKind} {found : Option Place} :
    highlight ∈ Place.highlight kind found
      ↔ ∃ token, found = some token ∧ highlight = ⟨kind, token.start, token.stop⟩ := by
  cases found <;> simp [Place.highlight]

/-- A highlight of a keyword has the range of that keyword right below. -/
theorem mem_keywordHighlights_iff {words : List Keyword} :
    highlight ∈ place.keywordHighlights words
      ↔ ∃ word ∈ words, ∃ token, place.tokenOf? [.keyword word] = some token
        ∧ highlight = ⟨.keyword, token.start, token.stop⟩ := by
  simp only [keywordHighlights, List.mem_flatMap, mem_highlight_iff]

/-- A literal is marked by its first token. -/
theorem exists_token_of_mem_literalHighlight (member : highlight ∈ place.literalHighlight) :
    ∃ token kind, place.firstToken? = some token
      ∧ highlight = ⟨kind, token.start, token.stop⟩ := by
  unfold literalHighlight at member
  split at member
  · cases member
  · rename_i token found
    refine ⟨token, ?_⟩
    -- Only strings, numbers and the two truth values stand out as literals.
    split at member
    all_goals first | cases member; done | skip
    all_goals
      obtain ⟨_, ⟨rfl⟩, same⟩ := mem_highlight_iff.mp member
      exact ⟨_, found, same⟩

/-- The name of a node is a token right below the name that the node starts with. -/
theorem exists_name_of_nameToken? (found : place.nameToken? = some token) :
    ∃ name ∈ place.nodes, name.isNameRef = true ∧ place.leadingName? = some name
      ∧ token ∈ name.tokens := by
  obtain ⟨name, leading, first⟩ := Option.bind_eq_some_iff.mp found
  obtain ⟨numbered, isName⟩ := Option.filter_eq_some_iff.mp leading
  refine ⟨name, ?_, isName, leading, List.mem_of_find?_eq_some first⟩
  exact (List.mem_filter.mp (List.mem_of_getElem? numbered)).1

/-- Every highlight that a place has of its own marks the place. -/
theorem marks_of_mem_ownHighlights (member : highlight ∈ place.ownHighlights) :
    highlight.Marks place := by
  rcases List.mem_append.mp member with comment | other
  · obtain ⟨token, among, rfl⟩ := List.mem_map.mp comment
    exact .of_mem_tokens _ (List.mem_filter.mp among).1
  · split at other
    · -- Other highlights are made of keywords, of the first token, or of the token of a name.
      cases other
    · rename_i kind isNode
      have keywords {words : List Keyword} (here : highlight ∈ place.keywordHighlights words) :
          highlight.Marks place := by
        obtain ⟨_, -, token, found, rfl⟩ := mem_keywordHighlights_iff.mp here
        exact .of_mem_tokens _ (List.mem_of_find?_eq_some found)
      cases kind
      case typeRef | nameRef | nullRef =>
        obtain ⟨token, found, rfl⟩ := mem_highlight_iff.mp other
        exact .of_mem_tokens _ (List.mem_of_find?_eq_some found)
      case funcDecl | call =>
        obtain ⟨token, found, rfl⟩ := mem_highlight_iff.mp other
        obtain ⟨name, among, -, -, inside⟩ := exists_name_of_nameToken? found
        exact (Highlight.Marks.of_mem_tokens _ inside).within
          (.of_mem_children (List.mem_filter.mp among).1)
      case literal =>
        obtain ⟨token, _, found, rfl⟩ := exists_token_of_mem_literalHighlight other
        exact .of_mem_tokens _ (List.mem_of_find?_eq_some found)
      all_goals first | exact keywords other | cases other

/-- Every highlight of a source text marks its root. -/
theorem marks_of_mem_ofPlace (member : highlight ∈ (Highlights.ofPlace place).tokens) :
    highlight.Marks place := by
  unfold Highlights.ofPlace at member
  split at member
  · obtain ⟨inner, reached, own⟩ := List.mem_flatMap.mp (List.mem_mergeSort.mp member)
    exact (marks_of_mem_ownHighlights own).within (within_of_mem_reached reached)
  · cases member

/-- The highlights of a source text are in order. -/
theorem pairwise_ofPlace (place : Place) :
    (Highlights.ofPlace place).tokens.Pairwise fun left right => left.precedes right = true := by
  unfold Highlights.ofPlace
  split
  · refine List.pairwise_mergeSort (fun first second third => ?_) (fun first second => ?_) _
    · simp only [Highlight.precedes, Bool.or_eq_true, Bool.and_eq_true, decide_eq_true_eq, beq_iff_eq]
      omega
    · simp only [Highlight.precedes, Bool.or_eq_true, Bool.and_eq_true, decide_eq_true_eq, beq_iff_eq]
      omega
  · exact .nil

end Place

end Dxl
