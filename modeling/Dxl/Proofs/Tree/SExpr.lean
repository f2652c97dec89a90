import Dxl.Proofs.Text.Quoted
import Dxl.Proofs.Tree.Leaves
import Dxl.Tree.SExpr

/-! Nested expressions: what is written for a tree determines the tree. -/

namespace Dxl

namespace Kind

/-- Every kind is in the vocabulary. -/
theorem mem_all (kind : Kind) : kind ∈ all := by
  have signs (mark : Sign) : mark ∈ Sign.all := by cases mark <;> decide
  have words (word : Keyword) : word ∈ Keyword.all := by cases word <;> decide
  cases kind with
  | token kind =>
    refine List.mem_append_left _ (List.mem_map_of_mem ?_)
    rw [TokenKind.all]
    cases kind with
    -- Signs and keywords have lists of their own; each other kind of token is named in the list.
    | sign mark => simp [signs mark]
    | keyword word => simp [words word]
    | _ => exact List.mem_append_right _ (by decide)
  | node kind =>
    refine List.mem_append_right _ (List.mem_map_of_mem ?_)
    cases kind <;> decide

/-- No two kinds have the same name. -/
theorem dumpName_injective : Function.Injective dumpName := by
  have distinct : (all.map dumpName).Nodup := by decide +kernel
  exact fun kind other same => List.inj_on_of_nodup_map distinct kind.mem_all other.mem_all same

/-- The name of a kind is made of capital letters. -/
theorem isUpper_of_mem_dumpName (kind : Kind) : ∀ c ∈ kind.dumpName.toList, c.isUpper = true := by
  -- Each name is looked at on its own.
  rw [← List.all_eq_true]
  cases kind with
  | token kind =>
    cases kind with
    | sign mark => cases mark <;> simp [dumpName, TokenKind.dumpName, Sign.name]
    | keyword word => cases word <;> simp [dumpName, TokenKind.dumpName, Keyword.name]
    | _ => simp [dumpName, TokenKind.dumpName]
  | node kind => cases kind <;> simp [dumpName, NodeKind.dumpName]

/-- Behind the name of a kind, whatever does not begin with a capital letter shows where the name ends. -/
theorem eq_of_dumpName_append {kind other : Kind} {rest further : List Char}
    (same : kind.dumpName.toList ++ rest = other.dumpName.toList ++ further)
    (stops : ∀ c ∈ rest.head?, c.isUpper = false) (marks : ∀ c ∈ further.head?, c.isUpper = false) :
    kind = other ∧ rest = further := by
  -- The name is the run of capital letters.
  have name (kind : Kind) {rest : List Char} (stops : ∀ c ∈ rest.head?, c.isUpper = false) :
      (kind.dumpName.toList ++ rest).takeWhile Char.isUpper = kind.dumpName.toList := by
    rw [List.takeWhile_append_of_pos kind.isUpper_of_mem_dumpName]
    cases rest with
    | nil => simp
    | cons stop rest => simp [stops stop rfl]
  have names : kind.dumpName.toList = other.dumpName.toList := by
    rw [← name kind stops, same, name other marks]
  rw [names] at same
  exact ⟨dumpName_injective (String.toList_inj.mp names), List.append_cancel_left same⟩

end Kind

namespace Tree

variable {isHidden : Char → Bool}

/-- A child is written behind a blank. -/
def childChars (isHidden : Char → Bool) (child : Tree) : List Char :=
  ' ' :: (child.sexpr isHidden).toList

/-- A leaf is written as its kind and its quoted text. -/
theorem toList_sexpr_leaf (kind : Kind) (text : String) :
    ((leaf kind text).sexpr isHidden).toList
      = kind.dumpName.toList ++ (quote text isHidden).toList :=
  String.toList_append

/-- A node is written as its kind and its children, in parentheses. -/
theorem toList_sexpr_node (kind : Kind) (children : List Tree) :
    ((node kind children).sexpr isHidden).toList
      = '(' :: (kind.dumpName.toList ++ (children.flatMap (childChars isHidden) ++ [')'])) := by
  have joined : (String.join (children.map fun child => " " ++ child.sexpr isHidden)).toList
      = children.flatMap (childChars isHidden) := by
    induction children with
    | nil => rfl
    | cons child rest ih =>
      rw [List.map_cons, String.join_cons, String.toList_append, ih, String.toList_append]
      rfl
  rw [sexpr, fold_node, List.map_map, String.toList_append, String.toList_append,
    String.toList_append, ← joined, List.append_assoc, List.append_assoc]
  rfl

/-- What is written for a leaf does not begin as what is written for a node. -/
theorem sexpr_leaf_append_ne (kind : Kind) (text : String) (rest further : List Char) :
    ((leaf kind text).sexpr isHidden).toList ++ rest ≠ '(' :: further := by
  intro same
  rw [toList_sexpr_leaf, toList_quote, List.append_assoc, List.cons_append] at same
  -- A parenthesis is neither a capital letter nor a quote mark.
  cases name : kind.dumpName.toList with
  | nil =>
    rw [name] at same
    cases same
  | cons first others =>
    have upper := kind.isUpper_of_mem_dumpName first (by simp [name])
    rw [name] at same
    rw [(List.cons.inj same).1] at upper
    cases upper

/-- What is written for a tree shows which tree it is and where it ends. -/
theorem delimits_sexpr (tree : Tree) :
    Delimits (fun tree => (sexpr tree isHidden).toList) tree := by
  -- Children are written behind blanks, so that a parenthesis instead of one ends them.
  induction tree with
  | leaf kind text =>
    rintro (⟨other, otherText⟩ | ⟨other, children⟩) rest further same
    · simp only [toList_sexpr_leaf, List.append_assoc] at same
      -- Behind the kind there is a quote mark.
      have mark (text : String) (rest : List Char) :
          ∀ c ∈ ((quote text isHidden).toList ++ rest).head?, c.isUpper = false := by
        simp [toList_quote]
      obtain ⟨rfl, quoted⟩ :=
        Kind.eq_of_dumpName_append same (mark text rest) (mark otherText further)
      obtain ⟨rfl, behind⟩ := delimits_quote text otherText rest further quoted
      exact ⟨rfl, behind⟩
    · simp only [toList_sexpr_node, List.cons_append] at same
      exact absurd same (sexpr_leaf_append_ne kind text _ _)
  | node kind children ih =>
    rintro (⟨other, otherText⟩ | ⟨other, others⟩) rest further same
    · simp only [toList_sexpr_node, List.cons_append] at same
      exact absurd same.symm (sexpr_leaf_append_ne other otherText _ _)
    · simp only [toList_sexpr_node, List.cons_append, List.append_assoc, List.nil_append,
        List.cons.injEq, true_and] at same
      -- Behind the kind there is a blank or the closing parenthesis.
      have mark (trees : List Tree) (rest : List Char) :
          ∀ c ∈ (trees.flatMap (childChars isHidden) ++ ')' :: rest).head?, c.isUpper = false := by
        cases trees <;> simp [childChars]
      obtain ⟨rfl, joined⟩ :=
        Kind.eq_of_dumpName_append same (mark children rest) (mark others further)
      have begins (child : Tree) :
          ∃ first tail, childChars isHidden child = first :: tail ∧ first ≠ ')' :=
        ⟨' ', _, rfl, by decide⟩
      have each : ∀ child ∈ children, Delimits (childChars isHidden) child :=
        fun child member other rest further same => ih child member _ _ _ (List.cons.inj same).2
      obtain ⟨rfl, behind⟩ := eq_of_flatMap_append begins each joined
      exact ⟨rfl, behind⟩

/-- Two trees are written alike just if they are the same, whichever characters are hidden. -/
theorem sexpr_inj {isHidden : Char → Bool} {left right : Tree} :
    left.sexpr isHidden = right.sexpr isHidden ↔ left = right := by
  constructor
  · intro same
    exact (delimits_sexpr left right [] [] (congrArg (·.toList ++ []) same)).1
  · rintro rfl
    rfl

end Tree

end Dxl
