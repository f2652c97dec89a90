import Dxl.Proofs.Parse.Lossless
import Dxl.Proofs.Parse.Safety
import Dxl.Proofs.Tree.Making
import Dxl.Proofs.Tree.Sharing

/-! Sharing in the tree of a source text: small nodes that are alike are stored once, which does not change the tree. -/

namespace Dxl

/-- No kind of node may hold a root. -/
theorem NodeKind.mayHold_root (kind : NodeKind) : kind.mayHold .root = false := by
  cases kind <;> rfl

/-- There is no root right below the top of a sound tree. -/
theorem Tree.Sound.ne_root {tree : Tree} {kind : Kind} {children : List Tree} (sound : tree.Sound)
    (member : .node kind children ∈ tree.children) : kind ≠ .node .root := by
  cases sound with
  | leaf other text => nomatch member
  | node below admitted single =>
    rintro rfl
    -- The root would be among the kinds that the top admits.
    have listed : NodeKind.root ∈ nodeKinds _ := List.mem_filterMap.mpr ⟨_, member, rfl⟩
    have held := List.all_eq_true.mp (NodeKind.all_mayHold admitted) .root listed
    rw [NodeKind.mayHold_root] at held
    cases held

namespace StoredTree

/-- The nodes of several trees are the nodes of each of them. -/
theorem mem_nodesAll {trees : List StoredTree} {inner : StoredTree} :
    inner ∈ nodesAll trees ↔ ∃ tree ∈ trees, inner ∈ tree.nodes := by
  induction trees with
  | nil => simp [nodesAll]
  | cons tree rest ih => simp [nodesAll, ih]

/-- There is no root below the top of a sound tree, wherever it is stored. -/
theorem ne_root_of_mem_nodesAll {tree inner : StoredTree} (sound : tree.erase.Sound)
    (member : inner ∈ nodesAll tree.children) : inner.kind ≠ .node .root := by
  induction tree with
  | leaf kind text => nomatch member
  | node place kind children ih =>
    obtain ⟨child, isChild, inside⟩ := mem_nodesAll.mp member
    have below : child.erase ∈ eraseAll children := by
      rw [eraseAll_eq_map]
      exact List.mem_map_of_mem isChild
    -- The inner node is a child of the top, which no root is, or further down.
    cases child with
    | leaf other text => nomatch inside
    | node other innerKind others =>
      rcases List.mem_cons.mp inside with rfl | deeper
      · exact sound.ne_root below
      · refine ih _ isChild ?_ deeper
        cases sound with
        | node below' admitted single => exact below' _ below

end StoredTree

open StoredTree

/-- Storing small nodes once goes as well as parsing does, and gives the same tree, stored. -/
theorem storeText_eq_map (text : String) :
    storeText text = (parseText text).map fun parsed => ⟨parsed.tree.store, parsed.report⟩ :=
  buildWithin_eq_map (some lookLimit) (tokenize text)

/-- Storing small nodes once does not change the tree that the events of a source text stand for; two of its nodes share their storage exactly if they are of the same kind with the same children, at most three leaves, and the root shares with no other node. -/
theorem storeText_exact {text : String} {stored : StoredTree} {report : Report}
    (stores : storeText text = .ok ⟨stored, report⟩) :
    (∃ recorder, recordWithin (some lookLimit) (tokenize text) = .ok recorder
      ∧ Assembly.ofEvents (tokenize text) recorder.events = .ok (⟨stored, report⟩ : Parsed StoredTree)
      ∧ Assembly.ofEvents (tokenize text) recorder.events = .ok (⟨stored.erase, report⟩ : Parsed))
    ∧ stored.nodes.Pairwise (fun first second => first.shares second = true ↔ first.Alike second)
    ∧ ∃ inner, stored.nodes = stored :: inner ∧ ∀ node ∈ inner, stored.shares node = false := by
  -- What is stored is the tree that parsing gives.
  obtain ⟨parsed, parses, rfl, rfl⟩ : ∃ parsed, parseText text = .ok parsed
      ∧ parsed.tree.store = stored ∧ parsed.report = report := by
    rw [storeText_eq_map] at stores
    cases parses : parseText text with
    | error failure => simp [parses, Except.map] at stores
    | ok parsed => exact ⟨parsed, rfl, by simpa [parses, Except.map] using stores⟩
  obtain ⟨_, _, children, -, -, -, top, -, -⟩ := root_of_parseText parses
  obtain ⟨place, row, made, erased, exactly, apart⟩ := Tree.exists_store (.node .root) children
  have erases : parsed.tree.store.erase = parsed.tree := by
    rw [top, made, erase, erased]
  refine ⟨?_, ?_, ?_⟩
  · -- Both trees are made of the same events.
    rw [erases]
    cases records : recordWithin (some lookLimit) (tokenize text) with
    | error failure => simp [storeText, buildWithin, records] at stores
    | ok recorder =>
      refine ⟨recorder, rfl, ?_, ?_⟩
      · simpa only [storeText, buildWithin, records] using stores
      · simpa only [parseText, parse, parseWithin, buildWithin, records] using parses
  · rw [top, made, nodes]
    refine List.Pairwise.cons (fun inner member => ?_) exactly
    -- The root is like no other node, for none of them is a root.
    have sound : parsed.tree.store.erase.Sound := by
      rw [erases]
      exact sound_of_parseText parses
    rw [top, made] at sound
    rw [apart inner member]
    refine iff_of_false Bool.false_ne_true fun alike => ?_
    exact ne_root_of_mem_nodesAll sound member alike.1.symm
  · rw [top, made, nodes]
    exact ⟨nodesAll row, rfl, apart⟩

/-- A name that is used twice is stored once, in nodes that are alike. -/
theorem storeText_exact_name :
    ∃ stored report outer statement first other second, storeText "a\na" = .ok ⟨stored, report⟩
      ∧ stored.nodes = [outer, statement, first, other, second]
      ∧ first.shares second = true ∧ first.Alike second := by
  -- The two names are the third and the fifth node.
  let check (result : Parsed StoredTree) : Bool :=
    result.tree.nodes.length == 5
      && result.tree.nodes[2]?.any fun first => result.tree.nodes[4]?.any first.shares
  have passes : (storeText "a\na").toOption.any check = true := by decide +kernel
  obtain ⟨result, stores, passes⟩ := exists_ok_of_any passes
  obtain ⟨stored, report⟩ := result
  have exactly := (storeText_exact stores).2.1
  simp only [check, Bool.and_eq_true, beq_iff_eq] at passes
  obtain ⟨count, shared⟩ := passes
  rcases listed : stored.nodes with _ | ⟨outer, _ | ⟨statement, _ | ⟨first, _ | ⟨other, _ |
    ⟨second, rest⟩⟩⟩⟩⟩
  case cons.cons.cons.cons.cons =>
    rw [listed] at exactly count shared
    obtain rfl : rest = [] := List.length_eq_zero_iff.mp (by simpa using count)
    have shares : first.shares second = true := by simpa using shared
    have alike : first.Alike second := by
      simp only [List.pairwise_cons, List.mem_cons, forall_eq_or_imp] at exactly
      exact exactly.2.2.1.2.1.mp shares
    exact ⟨stored, report, outer, statement, first, other, second, stores, listed, shares, alike⟩
  all_goals simp [listed] at count

end Dxl
