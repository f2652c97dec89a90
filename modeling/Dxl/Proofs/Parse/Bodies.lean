import Dxl.Proofs.Grammar.Breaks
import Dxl.Proofs.Parse.Forms
import Dxl.Proofs.Parse.Names
import Dxl.Proofs.Place.Neighbours
import Dxl.Proofs.View.Header

/-! Bodies: what line breaks between a header and the block after it make of the block. -/

namespace Dxl

open Form Place

/-- Loops with parentheses, and functions. -/
def NodeKind.takesBody : NodeKind → Bool
  | .whileStmt | .forStmt | .funcDecl => true
  | _ => false

namespace Form

variable {clean : Prop} {constituents : List Constituent}

/-- The header of a loop or a function ends with the first closing parenthesis, and a block comes right after it or not at all. -/
inductive Headed : List Constituent → Prop
  | mk {before body : List Constituent} : .token (.sign .rightParen) ∉ before →
    (∀ first, .node .block first ∉ before) → (∀ first, .node .block first ∉ body.tail) →
    Headed (before ++ .token (.sign .rightParen) :: body)

/-- After a statement there is no block. -/
theorem tail_of_statement (statement : Statement constituents) (first : Option TokenKind) :
    .node .block first ∉ constituents.tail := by
  obtain @⟨kind, begins, ends, -, areEnds⟩ := statement
  intro member
  -- Whatever comes after the statement are tokens that end it.
  obtain ⟨_, same, -⟩ := areEnds _ member
  cases same

/-- Loops and functions that have a closing parenthesis have a header that ends with it. -/
theorem headed_of_forms {kind : NodeKind} (takes : kind.takesBody = true)
    (forms : kind.Forms clean constituents) (closed : .token (.sign .rightParen) ∈ constituents) :
    Headed constituents := by
  -- A header that is cut short has no closing parenthesis.
  cases kind <;> first | cases takes; done | skip
  case whileStmt =>
    cases forms with
    | bare => simp at closed
    | cut => simp at closed
    -- The parenthesis is closed, so the body is a single statement after it.
    | @closed body condition isBody =>
      have header : Headed ([.token (.keyword .whileWord), .token (.sign .leftParen),
          .node .exprStmt condition] ++ .token (.sign .rightParen) :: body) :=
        .mk (by simp) (by simp) (tail_of_statement isBody)
      exact header
  case forStmt =>
    cases forms with
    | cut clauses => cases clauses <;> simp at closed
    -- The clauses hold neither a parenthesis nor a block.
    | @closed inside body clauses isBody =>
      have header : Headed (.token (.keyword .forWord) :: .token (.sign .leftParen) :: inside
          ++ .token (.sign .rightParen) :: body) := by
        refine .mk ?_ ?_ (tail_of_statement isBody)
        · cases clauses <;> simp
        · cases clauses <;> simp
      exact header
  case funcDecl =>
    cases forms with
    -- A function without a name has no parentheses.
    | unnamed type isMark => cases isMark <;> simp at closed
    | @named mark inside close body type name isMark parameters closes isBody =>
      cases closes with
      | absent => cases isMark <;> cases parameters <;> cases isBody <;> simp at closed
      | present =>
        have header : Headed (.node .typeRef type :: (mark ++ .node .nameRef name
            :: .token (.sign .leftParen) :: inside) ++ .token (.sign .rightParen) :: body) := by
          -- Before the parenthesis there are the type, the mark, the name and the parameters only.
          refine .mk ?_ ?_ ?_
          · cases isMark <;> cases parameters <;> simp
          · cases isMark <;> cases parameters <;> simp
          · cases isBody <;> simp
        simpa using header

end Form

namespace Place

variable {place closing body child : Place} {clean : Prop} {constituents : List Constituent}
  {places : List Place}

/-- A token among places is one of the constituents that they match. -/
theorem mem_of_token (matched : List.Forall₂ Matches places constituents) (member : child ∈ places)
    {kind : TokenKind} (isToken : child.kind = .token kind) : .token kind ∈ constituents := by
  obtain ⟨constituent, among, same⟩ := exists_matches matched member
  cases constituent with
  | token other =>
    cases isToken.symm.trans same.1
    exact among
  | node other first => cases isToken.symm.trans same.1

/-- A node among places is one of the constituents that they match. -/
theorem exists_of_node (matched : List.Forall₂ Matches places constituents)
    (member : child ∈ places) {kind : NodeKind} (isNode : child.kind = .node kind) :
    ∃ first, .node kind first ∈ constituents := by
  obtain ⟨constituent, among, same⟩ := exists_matches matched member
  cases constituent with
  | token other => cases isNode.symm.trans same.1
  | node other first =>
    cases isNode.symm.trans same.1
    exact ⟨first, among⟩

/-- A block in a loop or a function comes right after the first closing parenthesis. -/
theorem exists_neighbours (formed : place.tree.Formed clean) {kind : NodeKind}
    (isNode : place.kind = .node kind) (takes : kind.takesBody = true)
    (closes : place.tokenOf? [.sign .rightParen] = some closing)
    (member : body ∈ place.nodes) (isBlock : body.kind = .node .block) :
    ∃ before after, place.significant = before ++ closing :: body :: after := by
  have first := closes
  rw [tokenOf?_eq_significant formed rfl] at first
  have isClosing : closing.kind = .token (.sign .rightParen) := by
    simpa using List.find?_some first
  have matched := forall₂_significant formed
  have closed := mem_of_token matched (List.mem_of_find?_eq_some first) isClosing
  -- The constituents tell where the block stands, and the places match them.
  have headed := headed_of_forms takes (forms_of_kind formed isNode) closed
  generalize Tree.constituents place.tree.children = constituents at matched headed
  obtain @⟨header, rest, noParen, noBlock, noOther⟩ := headed
  obtain ⟨before, behind, split, isHeader, isBehind⟩ := exists_append_of_forall₂ matched
  obtain ⟨mark, behind, isMark, isRest, rfl⟩ := List.forall₂_cons_right_iff.mp isBehind
  -- It is the first parenthesis that is found, and the header holds no other one.
  obtain rfl : mark = closing := by
    have found := tokenOf?_of_split formed split isMark.1 fun child member isParen =>
      noParen (mem_of_token isHeader member isParen)
    exact Option.some.inj (found.symm.trans closes)
  have among : body ∈ place.significant :=
    List.mem_filter.mpr ⟨(List.mem_filter.mp member).1, by simp [isBlock, Kind.passes]⟩
  -- The block stands neither before the parenthesis nor after what comes next.
  rw [split] at among ⊢
  rcases List.mem_append.mp among with early | late
  · -- The header holds no block.
    obtain ⟨first, wrong⟩ := exists_of_node isHeader early isBlock
    exact absurd wrong (noBlock first)
  · rcases List.mem_cons.mp late with rfl | late
    · -- The parenthesis itself is no block.
      cases isBlock.symm.trans isClosing
    · cases isRest with
      | nil => cases late
      | cons same others =>
        rcases List.mem_cons.mp late with rfl | late
        · exact ⟨before, _, rfl⟩
        · obtain ⟨first, wrong⟩ := exists_of_node others late isBlock
          exact absurd wrong (noOther first)

/-- A block begins with its brace. -/
theorem first?_of_block (formed : place.tree.Formed clean) (isBlock : place.kind = .node .block) :
    place.tree.first? = some (.sign .leftBrace) := by
  have forms : Block clean _ := forms_of_kind formed isBlock
  obtain ⟨tree, start, above⟩ := place
  cases formed with
  | leaf => cases isBlock
  | node formed =>
    rw [Tree.first?_node formed]
    generalize same : Tree.constituents _ = constituents
    simp only [Tree.children, same] at forms
    -- Each form of a block has the brace as its first constituent.
    cases forms
    rfl

/-- The first closing parenthesis of a choice closes it where it stands. -/
theorem closesChoice_of_tokenOf? (proper : place.Proper) (isChoice : place.kind = .node .ifStmt)
    (closes : place.tokenOf? [.sign .rightParen] = some closing) {base start offset : Nat}
    (begins : place.start = base + start) (closesAt : closing.start = base + offset) :
    ClosesChoice offset (place.tree, start) := by
  rw [tokenOf?, tokens, List.find?_filter] at closes
  -- The token that is found is the first one of its kind among the children.
  obtain ⟨passes, before, after, split, others⟩ := List.find?_eq_some_iff_append.mp closes
  obtain ⟨isToken, isClosing⟩ : closing.isToken = true
      ∧ closing.kind = .token (.sign .rightParen) := by simpa using passes
  have properChild (child : Place) (member : child ∈ place.children) : child.Proper :=
    proper.of_mem_children member
  obtain ⟨text, leaf, solid⟩ : ∃ text, closing.tree = .leaf (.token (.sign .rightParen)) text
      ∧ text ≠ "" := by
    have flawless := (properChild closing (by simp [split])).flawless
    obtain ⟨tree, start, above⟩ := closing
    cases flawless with
    | leaf solid => cases isClosing; exact ⟨_, rfl, solid⟩
    | node => cases isClosing
  -- As trees, the children are split at the parenthesis in the same way.
  obtain ⟨trees, whole⟩ := proper.exists_children isChoice
  have row : trees = before.map Place.tree
      ++ .leaf (.token (.sign .rightParen)) text :: after.map Place.tree := by
    have same : place.children.map Place.tree = trees := by
      rw [children, whole]
      exact map_tree_row _ _ _
    rw [← same, split, List.map_append, List.map_cons, leaf]
  refine ⟨before.map Place.tree, text, after.map Place.tree, by rw [whole, row], solid, ?_, ?_⟩
  · -- Another one before it would have been found.
    intro tree member isParen
    obtain ⟨child, among, rfl⟩ := List.mem_map.mp member
    have inside : child ∈ place.children := by simp [split, among]
    have flawless := (properChild child inside).flawless
    have isToken : child.isToken = true := by
      have above : child.above ≠ [] := by simp [above_of_mem_row inside]
      obtain ⟨tree, start, above⟩ := child
      cases flawless with
      | leaf => simpa [Place.isToken, Tree.isLeaf] using above
      | node => cases isParen
    have missed := others child among
    simp [isToken, Place.kind, isParen] at missed
  · have starts := (leaves_of_children split).2
    rw [List.map_map]
    have width := total_width before
    simp only [Function.comp_def]
    omega

end Place

/-- Between a closing parenthesis and a block next to it in a node, a source text has only trivia. -/
theorem exists_tokens_of_parseText {text : String} {parsed : Parsed}
    (parses : parseText text = .ok parsed) {base : Nat} {header closing body : Place}
    (within : header.Within (root parsed.tree base)) {before after : List Place}
    (split : header.significant = before ++ closing :: body :: after)
    (isClosing : closing.kind = .token (.sign .rightParen)) (isBlock : body.kind = .node .block) :
    ∃ front point back, tokenize text = front ++ point :: back
      ∧ closing.start = base + point.start ∧ point.text ≠ "" ∧ back ≠ []
      ∧ ∀ token ∈ back.head?, token.kind ≠ .hardBreak := by
  obtain ⟨tokens, stop, children, scanned, adjoining, -, -, leaves, -⟩ := root_of_parseText parses
  have formed := formed_of_within (formed_of_parseText parses) within
  have among : body ∈ header.significant := by simp [split]
  have first := first?_of_block
    (formed_of_mem_children formed (List.mem_filter.mp among).1) isBlock
  obtain ⟨front, point, trivia, next, rest, rfl, starts, kind, blank, begins⟩ :=
    exists_tokens_of_neighbours leaves adjoining within formed split isClosing first
  refine ⟨front, point, trivia ++ next :: rest ++ [⟨.endOfText, "", stop⟩], by simp [scanned],
    starts, ?_, by simp, ?_⟩
  · -- Only the token at the end has no text, and it is no parenthesis.
    obtain ⟨others, _, same, proper, -, -⟩ := tokensFrom_partition false 0 text.toList
    have member : point ∈ tokenize text := by simp [scanned]
    rw [tokenize, same] at member
    rcases List.mem_append.mp member with inside | last
    · exact (proper point inside).2
    · cases List.mem_singleton.mp last
      cases kind
  · -- Trivia is no line break, and neither is a brace.
    intro token isHead
    cases trivia with
    | nil =>
      obtain rfl : next = token := by simpa using isHead
      simp [begins]
    | cons other trivia =>
      obtain rfl : other = token := by simpa using isHead
      have isTrivia := blank other (by simp)
      intro isBreak
      rw [isBreak] at isTrivia
      cases isTrivia

/-- Line breaks after the first closing parenthesis of a choice change nothing but blanks. -/
theorem exists_counterpart_of_choice {text other : String} {parsed : Parsed}
    (parses : parseText text = .ok parsed) {base : Nat} {header closing : Place}
    (within : header.Within (root parsed.tree base)) (isChoice : header.kind = .node .ifStmt)
    (closes : header.tokenOf? [.sign .rightParen] = some closing)
    {front back gap later : List Token} {point : Token}
    (scanned : tokenize text = front ++ point :: back)
    (scannedOther : tokenize other = front ++ point :: (gap ++ later))
    (starts : closing.start = base + point.start) (loosened : Loosened point back gap later)
    (more : back ≠ []) :
    ∃ counterpart, parseText other = .ok counterpart
      ∧ counterpart.tree.core = parsed.tree.core
      ∧ counterpart.report.wordings = parsed.report.wordings := by
  have proper := (rooted_of_parseText parses base).proper.of_within within
  obtain ⟨start, begins, member⟩ := within.exists_spot
  -- In the tree, the choice is closed where its parenthesis stands in the text.
  have closesChoice := closesChoice_of_tokenOf? proper isChoice closes begins starts
  have adjoining : Adjoining 0 (front ++ point :: back) := scanned ▸ adjoining_tokensFrom ..
  rw [parseText, parse, parseWithin_eq_growWithin, scanned] at parses
  rw [parseText, parse, parseWithin_eq_growWithin, scannedOther]
  exact growWithin_loosened loosened rfl adjoining more parses member closesChoice

/-- A loop or a function has no block where a line break comes right after its first closing parenthesis. -/
theorem nodeOf?_block_of_hardBreak {text : String} {parsed : Parsed}
    (parses : parseText text = .ok parsed) {base : Nat} {holder mark : Place}
    (within : holder.Within (root parsed.tree base))
    (takes : holder.kind.isNodeWith NodeKind.takesBody = true)
    (closes : holder.tokenOf? [.sign .rightParen] = some mark) {front back : List Token}
    {point next : Token} (scanned : tokenize text = front ++ point :: next :: back)
    (solid : point.text ≠ "") (starts : mark.start = base + point.start)
    (isBreak : next.kind = .hardBreak) : holder.nodeOf? .block = none := by
  rw [nodeOf?, List.find?_eq_none]
  intro child among isBlock
  have formed := formed_of_within (formed_of_parseText parses) within
  have isMark : mark.kind = .token (.sign .rightParen) := by simpa using List.find?_some closes
  obtain ⟨kind, isNode, takes⟩ : ∃ kind, holder.kind = .node kind ∧ kind.takesBody = true := by
    cases isNode : holder.kind with
    | token other => simp [isNode, Kind.isNodeWith] at takes
    | node other => exact ⟨other, rfl, by simpa [isNode, Kind.isNodeWith] using takes⟩
  -- A block would follow the parenthesis at once, but for trivia.
  obtain ⟨_, _, split⟩ :=
    exists_neighbours formed isNode takes closes among (beq_iff_eq.mp isBlock)
  obtain ⟨_, _, _, scannedOther, startsOther, solidOther, -, apart⟩ :=
    exists_tokens_of_parseText parses within split isMark (beq_iff_eq.mp isBlock)
  have adjoining : Adjoining 0 (tokenize text) := adjoining_tokensFrom ..
  rw [scanned] at adjoining scannedOther
  -- Both ways to split the tokens at the place of the parenthesis are the same.
  have behind := adjoining.split_unique scannedOther solid solidOther (by omega)
  refine apart next ?_ isBreak
  rw [← behind]
  rfl

/-- Line breaks between the closing parenthesis of a header and a block change nothing but blanks in a choice; in a loop or a function there is no block any more. -/
theorem parseText_lineBreaks {left breaks right : String} {parsed : Parsed}
    (parses : parseText (left ++ ")" ++ right) = .ok parsed) (base : Nat)
    {header closing body : Place} (within : header.Within (root parsed.tree base))
    (closes : header.tokenOf? [.sign .rightParen] = some closing)
    (closesAt : closing.start = base + left.utf8ByteSize) {before after : List Place}
    (follows : header.significant = before ++ closing :: body :: after)
    (isBlock : body.isA .block = true)
    (feeds : ∀ c ∈ breaks.toList, c = '\n' ∨ c = '\r') :
    (header.isA .ifStmt = true →
        ∃ counterpart, parseText (left ++ ")" ++ breaks ++ right) = .ok counterpart
          ∧ counterpart.tree.core = parsed.tree.core
          ∧ counterpart.report.wordings = parsed.report.wordings)
      ∧ (breaks ≠ "" →
        ∀ counterpart, parseText (left ++ ")" ++ breaks ++ right) = .ok counterpart →
          ∀ holder mark : Place, holder.Within (root counterpart.tree base) →
            holder.kind.isNodeWith NodeKind.takesBody = true →
            holder.tokenOf? [.sign .rightParen] = some mark → mark.start = closing.start →
            holder.nodeOf? .block = none) := by
  have isClosing : closing.kind = .token (.sign .rightParen) := by
    simpa using List.find?_some closes
  obtain ⟨front, point, back, scanned, starts, solid, more, apart⟩ :=
    exists_tokens_of_parseText parses within follows isClosing (beq_iff_eq.mp isBlock)
  have place : point.start = left.utf8ByteSize := by omega
  -- Both texts have the same tokens but for the line breaks, which stand right after the parenthesis.
  obtain ⟨kind, gap, loosened, isBreak, gapText⟩ := tokenize_insert scanned place feeds apart
  constructor
  · intro isChoice
    -- The tokens after the breaks are moved on, and keep their kinds and texts.
    have entries : back.map Token.entry
        = (back.map (Token.later breaks.utf8ByteSize)).map Token.entry := by
      rw [List.map_map]
      rfl
    exact exists_counterpart_of_choice parses within (beq_iff_eq.mp isChoice) closes scanned
      loosened starts ⟨kind, solid, isBreak, entries⟩ more
  · intro written counterpart parsesOther holder mark inside takes closesOther same
    cases gap with
    -- Something was inserted, so there is at least one line break.
    | nil => exact absurd gapText.symm written
    | cons token gap =>
      exact nodeOf?_block_of_hardBreak parsesOther inside takes closesOther loosened solid
        (same.trans starts) (isBreak token (by simp))

/-- A node whose parts have the kinds of a header and a block has the block next to its first closing parenthesis. -/
theorem Place.exists_follows {header closing : Place} {clean : Prop}
    (formed : header.tree.Formed clean) {left right : List Kind}
    (kinds : header.significant.map Place.kind
      = left ++ .token (.sign .rightParen) :: .node .block :: right)
    (first : .token (.sign .rightParen) ∉ left)
    (closes : header.tokenOf? [.sign .rightParen] = some closing) :
    ∃ before body after, header.significant = before ++ closing :: body :: after
      ∧ body.isA .block = true := by
  obtain ⟨before, others, split, rfl, same⟩ := List.map_eq_append_iff.mp kinds
  obtain ⟨mark, others, rfl, isMark, same⟩ := List.map_eq_cons_iff.mp same
  obtain ⟨body, after, rfl, isBlock, -⟩ := List.map_eq_cons_iff.mp same
  -- The parenthesis before the block is the first one, so it is the one that was found.
  have found := tokenOf?_of_split formed split isMark fun child member isParen =>
    first (List.mem_map.mpr ⟨child, member, isParen⟩)
  obtain rfl : mark = closing := Option.some.inj (found.symm.trans closes)
  exact ⟨before, body, after, split, beq_iff_eq.mpr isBlock⟩

/-- After a line break the block of a loop is on its own, without any error, while that of a choice stays where it is. -/
theorem parseText_lineBreaks_block :
    (∃ parsed counterpart, parseText "if (x) \x7b y \x7d" = .ok parsed
      ∧ parseText "if (x)\n \x7b y \x7d" = .ok counterpart
      ∧ counterpart.tree.core = parsed.tree.core)
    ∧ ∃ parsed counterpart, ∃ loop body holder : Place,
      parseText "while (x) \x7b y \x7d" = .ok parsed ∧ loop.Within (root parsed.tree 0)
        ∧ loop.isA .whileStmt = true ∧ loop.statementAfter? (.sign .rightParen) = some body
        ∧ body.isA .block = true ∧ parseText "while (x)\n \x7b y \x7d" = .ok counterpart
        ∧ counterpart.report.errorCount = 0 ∧ holder.Within (root counterpart.tree 0)
        ∧ holder.isA .whileStmt = true ∧ holder.nodeOf? .block = none := by
  constructor
  · have passes : (parseText "if (x) \x7b y \x7d").toOption.any (fun parsed =>
        (root parsed.tree 0).elements.any fun header => header.isA .ifStmt
          && (header.tokenOf? [.sign .rightParen]).any (·.start == 5)
          && header.significant.map Place.kind == [.token (.keyword .ifWord),
            .token (.sign .leftParen), .node .exprStmt, .token (.sign .rightParen),
            .node .block]) = true := by decide +kernel
    obtain ⟨parsed, parses, passes⟩ := exists_ok_of_any passes
    simp only [Bool.and_eq_true, beq_iff_eq, List.any_eq_true, Option.any_eq_true] at passes
    obtain ⟨header, among, ⟨isChoice, closing, closes, starts⟩, kinds⟩ := passes
    have within := mem_elements_iff.mp among
    have formed := formed_of_within (formed_of_parseText parses) within
    have parts : header.significant.map Place.kind
        = [.token (.keyword .ifWord), .token (.sign .leftParen), .node .exprStmt]
          ++ .token (.sign .rightParen) :: .node .block :: [] := kinds
    obtain ⟨_, _, _, follows, isBlock⟩ := exists_follows formed parts (by decide) closes
    obtain ⟨same, -⟩ := @parseText_lineBreaks "if (x" "\n" " \x7b y \x7d" parsed parses 0 header
      closing _ within closes starts _ _ follows isBlock (by simp)
    obtain ⟨counterpart, parsesOther, cores, -⟩ := same isChoice
    exact ⟨parsed, counterpart, parses, parsesOther, cores⟩
  · have passes : (parseText "while (x) \x7b y \x7d").toOption.any (fun parsed =>
        (root parsed.tree 0).elements.any fun loop => loop.isA .whileStmt
          && (loop.tokenOf? [.sign .rightParen]).any (·.start == 8)
          && (loop.statementAfter? (.sign .rightParen)).any (isA .block)
          && loop.significant.map Place.kind == [.token (.keyword .whileWord),
            .token (.sign .leftParen), .node .exprStmt, .token (.sign .rightParen),
            .node .block]) = true := by decide +kernel
    have passesOther : (parseText "while (x)\n \x7b y \x7d").toOption.any (fun counterpart =>
        counterpart.report.errorCount == 0
          && (root counterpart.tree 0).elements.any fun holder => holder.isA .whileStmt
            && (holder.tokenOf? [.sign .rightParen]).any (·.start == 8)) = true := by
      decide +kernel
    obtain ⟨parsed, parses, passes⟩ := exists_ok_of_any passes
    obtain ⟨counterpart, parsesOther, passesOther⟩ := exists_ok_of_any passesOther
    simp only [Bool.and_eq_true, beq_iff_eq, List.any_eq_true, Option.any_eq_true] at passes
    simp only [Bool.and_eq_true, beq_iff_eq, List.any_eq_true, Option.any_eq_true] at passesOther
    obtain ⟨loop, among, ⟨⟨isLoop, closing, closes, starts⟩, body, found, isBody⟩, kinds⟩ := passes
    obtain ⟨spotless, holder, amongOther, isHolder, mark, closesOther, startsOther⟩ := passesOther
    have within := mem_elements_iff.mp among
    have withinOther := mem_elements_iff.mp amongOther
    have formed := formed_of_within (formed_of_parseText parses) within
    have parts : loop.significant.map Place.kind
        = [.token (.keyword .whileWord), .token (.sign .leftParen), .node .exprStmt]
          ++ .token (.sign .rightParen) :: .node .block :: [] := kinds
    obtain ⟨_, _, _, follows, isBlock⟩ := exists_follows formed parts (by decide) closes
    -- The loop of the counterpart may be another place, but its parenthesis starts where the first
    -- one did.
    obtain ⟨-, without⟩ := @parseText_lineBreaks "while (x" "\n" " \x7b y \x7d" parsed parses 0 loop
      closing _ within closes starts _ _ follows isBlock (by simp)
    have takes : holder.kind.isNodeWith NodeKind.takesBody = true := by
      rw [beq_iff_eq.mp isHolder]
      rfl
    have none := without (by decide) counterpart parsesOther holder mark withinOther takes
      closesOther (startsOther.trans starts.symm)
    exact ⟨parsed, counterpart, loop, body, holder, parses, within, isLoop, found, isBody,
      parsesOther, spotless, withinOther, isHolder, none⟩

end Dxl
