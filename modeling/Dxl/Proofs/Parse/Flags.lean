import Dxl.Proofs.Grammar.Flagging
import Dxl.Proofs.Parse.Lossless

/-! Flags: the nodes of a source text that go with remarks, and where tokens without use stand. -/

namespace Dxl

open Place

/-- What the frame of a whole program holds when it was read to the end. -/
theorem accounts_of_parseText {text : String} {parsed : Parsed}
    (parses : parseText text = .ok parsed) :
    ∃ growth : Growth, parsed = ⟨.node (.node .root) growth.siblings.reverse, growth.report⟩
      ∧ growth.Accounts 0 0 [] [] .calm := by
  obtain ⟨growth, program, made⟩ := exists_growth_of_parseText parses
  -- Nothing is owed before the first token is read.
  have initial : (Growth.initial (tokenize text)).Accounts 0 0 [] [] .calm :=
    ⟨Nat.le_refl _, rfl, rfl, ⟨[], rfl, [], .nil, List.Subperm.refl _⟩, nofun, fun _ => nofun⟩
  have ends := ((Growth.kept_flagging _ _).grow_rule program).2 0 0 [] [] initial
  exact ⟨growth.eatTrivia, made, ends.eatTrivia (.inl rfl)⟩

/-- What is below a tidy tree is tidy. -/
theorem Place.Within.tidy {inner outer : Place} (within : inner.Within outer)
    (tidy : outer.tree.Tidy) : inner.tree.Tidy := by
  refine within.inherit (fun {tree child} tidy member => ?_) tidy
  cases tidy with
  | leaf kind text => cases member
  | node each _ => exact each child member

/-- A token without use below a tidy node stands right below a node for tokens that are passed over. -/
theorem Place.Below.exists_skipped {leaf top : Place} (below : Below leaf top)
    (tidy : top.tree.Tidy) {kind : TokenKind} (isToken : leaf.kind = .token kind)
    (foreign : kind.isForeign = true) :
    ∃ parent, leaf.parent? = some parent ∧ parent.Within top ∧ parent.kind = .node .skipped := by
  obtain ⟨parent, member, within⟩ : ∃ parent : Place, leaf ∈ parent.children ∧ parent.Within top := by
    cases below with
    | child member => exact ⟨top, member, .refl top⟩
    | deeper member further => exact ⟨_, member, .inr further⟩
  refine ⟨parent, by rw [parent?, ancestors_of_mem_children member]; rfl, within, ?_⟩
  -- The parent is tidy, as is everything below a tidy tree.
  have around := within.tidy tidy
  have inside := tree_of_mem_row member
  obtain ⟨tree, start, above⟩ := parent
  cases around with
  | leaf kind text => cases inside
  | node each known =>
    rcases known with rfl | useful
    · rfl
    · -- Elsewhere every token is of use.
      have tidyLeaf := each _ inside
      have useless := useful _ inside
      obtain ⟨tree, start, above⟩ := leaf
      cases tidyLeaf with
      | leaf other text =>
        obtain rfl : other = kind := Kind.token.inj isToken
        rw [Tree.isForeign, foreign] at useless
        cases useless
      | node => cases isToken

/-- Every token of a source text stands somewhere in its tree, unless it is the one at the end. -/
theorem exists_leaf_of_parseText {text : String} {parsed : Parsed}
    (parses : parseText text = .ok parsed) {token : Token} (member : token ∈ tokenize text)
    (proper : token.kind ≠ .endOfText) :
    ∃ leaf, Below leaf (root parsed.tree 0) ∧ leaf.kind = .token token.kind
      ∧ leaf.start = token.start := by
  obtain ⟨tokens, stop, children, scanned, adjoining, -, isRoot, leaves, -⟩ := root_of_parseText parses
  -- The token is not the one at the end, which alone has no place in the tree.
  have earlier : token ∈ tokens := by
    rw [scanned] at member
    rcases List.mem_append.mp member with earlier | last
    · exact earlier
    · rw [List.mem_singleton.mp last] at proper
      exact absurd rfl proper
  -- The tokens below the root are laid out like those of the text.
  have laid := laidOut_adjoining adjoining 0
  rw [Nat.add_zero, ← leaves, isRoot, ← extents_root (.node .root) children 0] at laid
  have listed := List.mem_map_of_mem (f := fun token : Token => (Kind.token token.kind, token.text,
    0 + token.start, 0 + token.stop)) earlier
  rw [← laid] at listed
  obtain ⟨leaf, inside, same⟩ := List.mem_map.mp listed
  obtain ⟨element, isToken⟩ := List.mem_filter.mp inside
  obtain ⟨kind, -, starts, -⟩ : leaf.kind = .token token.kind ∧ leaf.text = token.text
      ∧ leaf.start = 0 + token.start ∧ leaf.stop = 0 + token.stop := by
    simpa only [extent, Prod.mk.injEq] using same
  rw [isRoot]
  refine ⟨leaf, ?_, kind, by rw [starts, Nat.zero_add]⟩
  rcases mem_elements_iff.mp element with rfl | below
  · cases isToken
  · exact below

/-- Nodes that go with remarks do so one by one: those for qualifiers with the warnings, in order and where they begin, and those for tokens that are passed over each with an error of its own in its range; a token without use stands right below one of the latter, so that a text with such a token is never free of errors. -/
theorem parseText_flags {text : String} {parsed : Parsed} (parses : parseText text = .ok parsed) :
    ((root parsed.tree 0).elements.filter (isA .ignored)).map Place.start
        = (parsed.report.remarks.filter (·.severity == .warning)).map Remark.offset
      ∧ (∃ chosen : List Remark, chosen.Subperm
          (parsed.report.remarks.filter (·.severity == .error))
        ∧ List.Forall₂ (fun node error => node.covers error.offset = true)
            ((root parsed.tree 0).elements.filter (isA .skipped)) chosen)
      ∧ (∀ leaf ∈ (root parsed.tree 0).elements, ∀ kind, leaf.kind = .token kind →
          kind.isForeign = true →
          ∃ parent, leaf.parent? = some parent ∧ parent.kind = .node .skipped)
      ∧ ((∃ token ∈ tokenize text, token.kind.isForeign = true) →
          0 < parsed.report.errorCount) := by
  obtain ⟨growth, made, accounts⟩ := accounts_of_parseText parses
  have tree : parsed.tree = .node (.node .root) growth.siblings.reverse := congrArg Parsed.tree made
  have report : parsed.report = growth.report := congrArg Parsed.report made
  -- The nodes in the frame of the program are those of the tree, apart from the root.
  have nodes (kind : NodeKind) (other : kind ≠ .root) : growth.nodes kind 0
      = ((root parsed.tree 0).elements.filter (isA kind)).map fun place =>
          (place.start, place.stop) := by
    rw [← ranges_eq_elements, tree, ranges_node, if_neg other.symm]
    rfl
  -- The root is no node for tokens that are passed over, and it holds no such token.
  have tidy : parsed.tree.Tidy := by
    rw [tree]
    exact .node (by simpa using accounts.tidy) (.inr (by simpa using accounts.clean rfl))
  obtain ⟨owed, none, chosen, covers, once⟩ := accounts.owing
  obtain rfl : owed = [] := none
  rw [List.nil_append, List.append_nil, nodes .skipped nofun, List.forall₂_map_left_iff] at covers
  -- Everywhere in the tree, a token without use has such a node around it.
  have skipped {leaf : Place} {kind : TokenKind} (below : Below leaf (root parsed.tree 0))
      (isToken : leaf.kind = .token kind) (foreign : kind.isForeign = true) :=
    below.exists_skipped tidy isToken foreign
  refine ⟨?_, ⟨chosen, ?_, ?_⟩, fun leaf member kind isToken foreign => ?_, ?_⟩
  · have warned := accounts.warned
    rw [List.nil_append, nodes .ignored nofun, List.map_map] at warned
    rw [report]
    exact warned.symm
  · rw [report]
    exact once
  · refine covers.imp fun node error inside => ?_
    simpa [Place.covers] using inside
  · -- The root is no token, so the leaf is below it.
    rcases mem_elements_iff.mp member with rfl | below
    · rw [Place.kind, root, tree] at isToken
      cases isToken
    · obtain ⟨parent, above, -, kept⟩ := skipped below isToken foreign
      exact ⟨parent, above, kept⟩
  · rintro ⟨token, member, foreign⟩
    have proper : token.kind ≠ .endOfText := fun last => by rw [last] at foreign; cases foreign
    obtain ⟨leaf, below, isToken, -⟩ := exists_leaf_of_parseText parses member proper
    obtain ⟨parent, -, within, kept⟩ := skipped below isToken foreign
    -- The node around the token has an error of its own.
    have listed : parent ∈ (root parsed.tree 0).elements.filter (isA .skipped) :=
      List.mem_filter.mpr ⟨mem_elements_iff.mpr within, by simpa [isA] using kept⟩
    have some : 0 < chosen.length := by
      rw [← covers.length_eq]
      exact List.length_pos_of_mem listed
    rw [report, Report.errorCount, Report.count, List.countP_eq_length_filter]
    exact Nat.lt_of_lt_of_le some once.length_le

/-- The qualifier has a warning of its own, and the sign that has no use an error. -/
theorem parseText_flags_foreign :
    ∃ parsed, parseText "const a = <>" = .ok parsed
      ∧ ((root parsed.tree 0).elements.filter (isA .ignored)).map Place.start = [0]
      ∧ parsed.report.remarks.map Remark.offset = [0, 10]
      ∧ (∃ token ∈ tokenize "const a = <>", token.kind.isForeign = true)
      ∧ 0 < parsed.report.errorCount
      ∧ ∀ leaf ∈ (root parsed.tree 0).elements, leaf.kind = .token (.sign .lessGreater) →
          ∃ parent, leaf.parent? = some parent ∧ parent.kind = .node .skipped := by
  have remarked : (parseText "const a = <>").toOption.any (fun parsed =>
      (parsed.report.remarks.filter (·.severity == .warning)).map Remark.offset == [0]
        && parsed.report.remarks.map Remark.offset == [0, 10]) = true := by decide +kernel
  have foreign : ∃ token ∈ tokenize "const a = <>", token.kind.isForeign = true := by
    decide +kernel
  obtain ⟨parsed, parses, remarked⟩ := exists_ok_of_any remarked
  simp only [Bool.and_eq_true, beq_iff_eq] at remarked
  obtain ⟨warnings, offsets⟩ := remarked
  obtain ⟨warned, -, useless, errors⟩ := parseText_flags parses
  exact ⟨parsed, parses, warned.trans warnings, offsets, foreign, errors foreign,
    fun leaf member isToken => useless leaf member _ isToken rfl⟩

end Dxl
