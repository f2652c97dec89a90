import Dxl.Proofs.Grammar.Agreement
import Dxl.Proofs.Grammar.Closing

/-! Breaks: line breaks after the closing parenthesis of a choice make no difference to it. -/

namespace Dxl

/-- Line breaks stand between a closing parenthesis and what else follows it. -/
structure Loosened (point : Token) (back gap later : List Token) : Prop where
  closing : point.kind = .sign .rightParen
  solid : point.text ≠ ""
  breaks : ∀ token ∈ gap, token.kind = .hardBreak
  entries : back.map Token.entry = later.map Token.entry

namespace Loosened

variable {point : Token} {back gap later : List Token}

/-- A closing parenthesis is no trivia. -/
theorem proper (loosened : Loosened point back gap later) : point.kind.isTrivia = false := by
  rw [loosened.closing]
  rfl

end Loosened

namespace Growth

variable {point : Token} {back gap later : List Token} {growth other after : Growth}
  {limit : Option Nat}

/-- Line breaks that are read are blanks in a frame that has begun. -/
theorem agrees_foldl_addLeaf (breaks : ∀ token ∈ gap, token.kind = .hardBreak)
    (split : other.rest = gap ++ later) (opened : growth.opening ≠ .nothing)
    (agrees : growth.Agrees { other with rest := later }) :
    growth.Agrees (gap.foldl addLeaf other) := by
  -- The line breaks are consumed one after the other, on the other side only.
  induction gap generalizing other with
  | nil =>
    rw [List.nil_append] at split
    rw [List.foldl_nil]
    exact ⟨agrees.looks, agrees.opening, split ▸ agrees.entries, agrees.cores, agrees.wordings⟩
  | cons token gap ih =>
    have isBreak := breaks token (by simp)
    refine ih (fun more member => breaks more (by simp [member])) (by simp [addLeaf, split]) ?_
    refine ⟨agrees.looks, ?_, agrees.entries, ?_, agrees.wordings⟩
    · have opening : growth.opening = other.opening := agrees.opening
      simp only [addLeaf]
      rw [← opening]
      -- The frame has begun, so a break does not become its beginning.
      cases begins : growth.opening with
      | nothing => exact absurd begins opened
      | node | other => rfl
    · -- A break is blank, so it leaves no core.
      have blank : Tree.cores [token.leaf] = [] := by
        simp [Tree.cores, Token.leaf, Tree.isBlank, isBreak, TokenKind.isBlank]
      simp only [addLeaf]
      rw [Tree.cores_cons, blank, List.nil_append]
      exact agrees.cores

/-- Once the line breaks are read, both sides agree. -/
theorem Past.agrees (loosened : Loosened point back gap later)
    (past : Past back (gap ++ later) growth other) : growth.Agrees (gap.foldl addLeaf other) := by
  refine agrees_foldl_addLeaf loosened.breaks past.restOther past.opened ?_
  rw [past.same]
  -- Apart from the breaks, the same entries are left on both sides.
  exact ⟨rfl, rfl, by rw [past.rest, loosened.entries], rfl, rfl⟩

end Growth

/-- Fewer proper tokens come after one than from somewhere before it. -/
theorem length_symbols_lt {point : Token} (proper : point.kind.isTrivia = false)
    {rest back : List Token} (fewer : (symbols rest).length ≤ (symbols back).length)
    (front : List Token) :
    (symbols rest).length < (symbols (front ++ point :: back)).length := by
  have length : (symbols (front ++ point :: back)).length
      = (symbols front).length + ((symbols back).length + 1) := by
    simp [symbols, properTokens, proper]
  omega

open Growth in
/-- Both sides have progressed when they have read across the parenthesis. -/
theorem Growth.hasProgressed_across {point : Token} {back gap later : List Token}
    (loosened : Loosened point back gap later) {growth other after afterOther : Growth}
    (before : Before point back (gap ++ later) growth other) (crossed : after.rest <:+ back)
    (agrees : after.Agrees afterOther) (reads : growth.Reads after)
    (readsOther : other.Reads afterOther) :
    after.hasProgressed growth.rest = true ∧ afterOther.hasProgressed other.rest = true := by
  obtain ⟨front, split, splitOther, -⟩ := before.split
  have fewer : (symbols after.rest).length ≤ (symbols back).length := by
    simpa [symbols, properTokens] using (crossed.sublist.filter _).length_le
  -- The other side has the same symbols left, and the line breaks only add to what it began with.
  have fewerOther : (symbols afterOther.rest).length ≤ (symbols (gap ++ later)).length := by
    have more : (symbols later).length ≤ (symbols (gap ++ later)).length := by
      simp [symbols, properTokens]
    rw [← symbols_eq agrees.entries]
    rw [← symbols_eq loosened.entries] at more
    omega
  rw [hasProgressed_eq reads, hasProgressed_eq readsOther, split, splitOther]
  exact ⟨decide_eq_true (length_symbols_lt loosened.proper fewer front),
    decide_eq_true (length_symbols_lt loosened.proper fewerOther front)⟩

open Growth in
/-- What is read across the parenthesis agrees on both sides, unless it makes no choice with its first closing parenthesis there. -/
theorem Parser.grow_across {point : Token} {back gap later : List Token}
    (loosened : Loosened point back gap later) {limit : Option Nat} {depth reach : Nat}
    (deep : depth ≤ reach) {α : Type} {parser : Parser α} {post : α → Unit → Prop}
    (obeys : parser.Obeys (making (· ≠ .ifStmt)) () post) {growth other after : Growth} {value : α}
    (grown : parser.grow (fun rule => rule.grow limit depth) limit growth = .ok (value, after))
    (before : Before point back (gap ++ later) growth other) (crossed : after.rest <:+ back)
    (calls : ∀ {rule : Rule} {growth other after : Growth},
      rule.grow limit depth growth = .ok after →
      Before point back (gap ++ later) growth other → after.rest <:+ back →
      (∃ afterOther, rule.grow limit reach other = .ok afterOther ∧ after.Agrees afterOther)
        ∨ ∀ base, growth.Spread (Elsewhere point.start) base →
            after.Spread (Elsewhere point.start) base) :
    (∃ afterOther, parser.grow (fun rule => rule.grow limit reach) limit other
        = .ok (value, afterOther) ∧ after.Agrees afterOther)
      ∨ ∀ base, growth.Spread (Elsewhere point.start) base →
          after.Spread (Elsewhere point.start) base := by
  -- The induction is on the parser, up to the smallest part that reads across the parenthesis.
  induction parser generalizing growth other after with
  | done result =>
    cases grown
    exact .inr fun _ spread => spread
  | andThen first next ihFirst ihNext =>
    obtain ⟨found, between, left, right⟩ := grow_bind_ok.mp grown
    obtain ⟨nextObeys, early⟩ := spares_grow left obeys fun called => Rule.spares_grow called
    obtain ⟨-, late⟩ := spares_grow right nextObeys fun called => Rule.spares_grow called
    -- The parenthesis is read by one of the two, and the other one does the same on both sides.
    rcases before.unread_or_lt early.paces loosened.solid with unread | ⟨behind, beyond⟩
    · obtain ⟨betweenOther, leftOther, further⟩ :=
        grow_before loosened.proper deep left unread before
      rcases ihNext found nextObeys right further crossed with
        ⟨afterOther, rightOther, last⟩ | spares
      · exact .inl ⟨afterOther, grow_bind_ok.mpr ⟨found, betweenOther, leftOther, rightOther⟩, last⟩
      · refine .inr fun base spread => spares base ?_
        exact early.spares (.inl further.offset_le) base spread
    · rcases ihFirst obeys left before behind with ⟨betweenOther, leftOther, agrees⟩ | spares
      · obtain ⟨afterOther, rightOther, last⟩ := grow_agrees deep right agrees
        exact .inl ⟨afterOther, grow_bind_ok.mpr ⟨found, betweenOther, leftOther, rightOther⟩, last⟩
      · exact .inr fun base spread => late.spares (.inr beyond) base (spares base spread)
  -- Neither a look nor a single token makes a choice.
  | look => exact .inr fun _ spread => spread.look (elsewhere_leaf _) grown
  | bump => exact .inr fun _ spread => spread.bump (elsewhere_leaf _) (grow_bump_ok.mp grown)
  | report mistake =>
    cases grown
    exact .inr fun _ spread => spread.congr rfl rfl
  | node body ih =>
    obtain ⟨inner, left, rfl⟩ := grow_node_ok.mp grown
    obtain ⟨⟨different, -⟩, -⟩ : _ ∧ growth.enter.Spares point.start inner :=
      spares_grow left obeys fun called => Rule.spares_grow called
    rcases ih obeys left before.enter crossed with ⟨innerOther, leftOther, within⟩ | spares
    · refine .inl ⟨_, grow_node_ok.mpr ⟨innerOther, leftOther, rfl⟩, ?_⟩
      exact .leave (by rw [before.same]) (by rw [before.same]) (within.close value)
    · -- A node that is not a choice may close at the parenthesis without any harm.
      refine .inr fun base spread => ?_
      have made := spares growth.offset (.enter growth)
      exact spread.leave (made.close (elsewhere_of_ne different _ _))
  | frame body ih =>
    obtain ⟨inner, left, rfl⟩ := grow_frame_ok.mp grown
    rcases ih obeys left before.enter crossed with ⟨innerOther, leftOther, within⟩ | spares
    · refine .inl ⟨_, grow_frame_ok.mpr ⟨innerOther, leftOther, rfl⟩, ?_⟩
      exact .leave (by rw [before.same]) (by rw [before.same]) within
    · exact .inr fun base spread => spread.leave (spares growth.offset (.enter growth))
  | wrap body ih =>
    obtain ⟨operand, inner, left, rfl⟩ := grow_wrap_ok.mp grown
    obtain ⟨⟨different, -⟩, -⟩ : _ ∧ growth.enter.Spares point.start inner :=
      spares_grow left obeys fun called => Rule.spares_grow called
    rcases ih obeys left before.enter crossed with ⟨innerOther, leftOther, within⟩ | spares
    · have operandOther : other.opening = .node := by rw [before.same, operand]
      have openings : growth.opening = other.opening := by rw [before.same]
      have cores : Tree.cores growth.siblings = Tree.cores other.siblings := by rw [before.same]
      have joined := Agrees.leave openings cores within
      refine .inl ⟨_, grow_wrap_ok.mpr ⟨operandOther, innerOther, leftOther, rfl⟩, ?_⟩
      exact joined.close value
    · refine .inr fun base spread => ?_
      have made := spares growth.offset (.enter growth)
      exact (spread.leave made).close (elsewhere_of_ne different _ _)
  | progress body ih =>
    obtain ⟨left, rfl⟩ := grow_progress_ok.mp grown
    rcases ih obeys left before crossed with ⟨afterOther, leftOther, agrees⟩ | spares
    · refine .inl ⟨afterOther, grow_progress_ok.mpr ⟨leftOther, ?_⟩, agrees⟩
      -- At least the parenthesis was read on both sides.
      obtain ⟨progressed, progressedOther⟩ := hasProgressed_across loosened before crossed agrees
        (grow_reads (fun _ _ _ => Rule.grow_reads) left)
        (grow_reads (fun _ _ _ => Rule.grow_reads) leftOther)
      rw [progressed, progressedOther]
    · exact .inr spares
  | call rule =>
    rcases calls (grow_call_ok.mp grown) before crossed with ⟨afterOther, called, agrees⟩ | spares
    · exact .inl ⟨afterOther, grow_call_ok.mpr called, agrees⟩
    · exact .inr spares

/-- Line breaks that end statements are read one by one. -/
theorem Rule.grow_lineEnds {limit : Option Nat} (limited : limit.any (· ≤ 0) = false)
    {gap later : List Token} (breaks : ∀ token ∈ gap, token.kind = .hardBreak) {growth : Growth}
    (split : growth.rest = gap ++ later) (looks : growth.looks = 0) (depth : Nat) :
    Rule.lineEnds.grow limit (depth + gap.length) growth
      = Rule.lineEnds.grow limit depth (gap.foldl Growth.addLeaf growth) := by
  induction gap generalizing growth with
  | nil => rfl
  | cons token gap ih =>
    have isBreak := breaks token (by simp)
    -- The break is the next token, for it is no trivia.
    have settled (count : Nat) : { growth with looks := count }.eatTrivia
        = { growth with looks := count } := by
      simp [Growth.eatTrivia, split, isBreak, TokenKind.isTrivia]
    have next : growth.eatTrivia.rest = token :: (gap ++ later) := by
      rw [settled growth.looks, split, List.cons_append]
    have look : growth.look limit = .ok (token.symbol, { growth with looks := 1 }) := by
      rw [Growth.look_eq next, looks, limited, if_neg Bool.false_ne_true, settled growth.looks]
    -- The break was looked at once, which the bump forgets again.
    have bumped : { growth with looks := 1 }.bump = .ok (growth.addLeaf token) := by
      have nextStill : { growth with looks := 1 }.eatTrivia.rest = token :: (gap ++ later) := by
        rw [settled 1, split, List.cons_append]
      rw [Growth.bump_eq nextStill, if_neg (by simp [isBreak]), settled 1, Growth.addLeaf,
        Growth.addLeaf, ← looks]
    rw [List.length_cons, ← Nat.add_assoc, Rule.grow, Rule.body, Grammar.lineEnds,
      Parser.grow_bind_of_ok (Parser.grow_accept_of_look look isBreak bumped), if_pos rfl]
    -- The rule calls itself for the breaks that are left.
    have further : (growth.addLeaf token).rest = gap ++ later := by simp [Growth.addLeaf, split]
    rw [List.foldl_cons, ← ih (fun more member => breaks more (by simp [member])) further looks]
    simp only [Parser.grow]
    cases Rule.lineEnds.grow limit (depth + gap.length) (growth.addLeaf token) <;> rfl

/-- The body of a choice agrees on both sides once the line breaks before it are read. -/
theorem Grammar.grow_conditionalBody_past {point : Token} {back gap later : List Token}
    (loosened : Loosened point back gap later) {limit : Option Nat}
    (limited : limit.any (· ≤ 0) = false) {depth reach : Nat} (deep : depth + gap.length ≤ reach)
    {growth other after : Growth} (past : Growth.Past back (gap ++ later) growth other)
    (grown : conditionalBody.grow (fun rule => rule.grow limit depth) limit growth
      = .ok ((), after)) :
    ∃ afterOther, conditionalBody.grow (fun rule => rule.grow limit reach) limit other
        = .ok ((), afterOther) ∧ after.Agrees afterOther := by
  obtain ⟨_, ended, called, rest⟩ := Parser.grow_bind_ok.mp grown
  have looks : other.looks = 0 := by rw [past.same, past.looks]
  obtain ⟨further, rfl⟩ : ∃ further, reach = further + gap.length := ⟨reach - gap.length, by omega⟩
  -- The line breaks take as many calls as there are of them.
  obtain ⟨endedOther, calledOther, agrees⟩ := Rule.grow_agrees (show depth ≤ further by omega)
    (Parser.grow_call_ok.mp called) (past.agrees loosened)
  rw [← Rule.grow_lineEnds limited loosened.breaks past.restOther looks] at calledOther
  -- After the breaks both sides agree, and whatever agrees grows alike.
  obtain ⟨afterOther, restOther, last⟩ :=
    Parser.grow_agrees (show depth ≤ further + gap.length by omega) rest agrees
  exact ⟨afterOther, Parser.grow_bind_ok.mpr ⟨(), endedOther,
    Parser.grow_call_ok.mpr calledOther, restOther⟩, last⟩

open Growth in
/-- A choice that is closed at the parenthesis agrees on both sides. -/
theorem Grammar.grow_choice_across {point : Token} {back gap later : List Token}
    (loosened : Loosened point back gap later) {limit : Option Nat}
    (limited : limit.any (· ≤ 0) = false) {depth reach : Nat} (deep : depth + gap.length ≤ reach)
    {growth other inner : Growth} (before : Before point back (gap ++ later) growth other)
    (grown : choice.grow (fun rule => rule.grow limit depth) limit growth.enter = .ok ((), inner))
    (closes : ClosesChoice point.start
      (.node (.node .ifStmt) inner.siblings.reverse, growth.offset)) :
    ∃ innerOther, choice.grow (fun rule => rule.grow limit reach) limit other.enter
        = .ok ((), innerOther) ∧ inner.Agrees innerOther := by
  -- The header is read alike, its parenthesis is the one that the line breaks follow.
  obtain ⟨symbol, looked, closed, read, seen, bumped, rest, short, long⟩ :=
    exists_header grown closes
  have shallow : depth ≤ reach := by omega
  have paces := Parser.grow_paces (fun called => Rule.grow_paces called) read
  rcases before.enter.unread_or_lt paces loosened.solid with unread | ⟨-, beyond⟩
  · obtain ⟨lookedOther, readOther, further⟩ :=
      Parser.grow_before loosened.proper shallow read unread before.enter
    obtain ⟨closedOther, bumpedOther, still | past⟩ := further.bump loosened.proper bumped
    · -- The token that closes the header is the parenthesis, so it does not stay unread.
      have := still.offset_le
      omega
    · rw [grow_choice_of_header readOther seen bumpedOther]
      exact grow_conditionalBody_past loosened limited deep past rest
  · -- The header ends before the parenthesis does, so it has not read across it.
    omega

open Dxl.Parser Dxl.Growth Grammar in
/-- A rule that reads across the parenthesis agrees on both sides, unless it makes no choice with its first closing parenthesis there. -/
theorem Rule.grow_across {point : Token} {back gap later : List Token}
    (loosened : Loosened point back gap later) {limit : Option Nat}
    (limited : limit.any (· ≤ 0) = false) {rule : Rule} {depth reach : Nat}
    (deep : depth + gap.length ≤ reach) {growth other after : Growth}
    (grown : rule.grow limit depth growth = .ok after)
    (before : Before point back (gap ++ later) growth other) (crossed : after.rest <:+ back) :
    (∃ afterOther, rule.grow limit reach other = .ok afterOther ∧ after.Agrees afterOther)
      ∨ ∀ base, growth.Spread (Elsewhere point.start) base →
          after.Spread (Elsewhere point.start) base := by
  -- On the other side, calls may nest deeper by as many levels as there are line breaks.
  induction depth generalizing rule reach growth other after with
  | zero => cases grown
  | succ depth ih =>
    obtain ⟨further, rfl⟩ : ∃ further, reach = further + 1 := ⟨reach - 1, by omega⟩
    have deepest : depth + gap.length ≤ further := by omega
    have inner : depth ≤ further := by omega
    have body := Rule.grow_ok.mp grown
    by_cases isChoice : rule = .conditional
    · subst isChoice
      rw [Rule.body, conditional_eq] at body
      obtain ⟨inside, within, rfl⟩ := grow_nodeOf_ok body
      -- The node of the choice is closed on both sides in the same way.
      have conclude : (∃ insideOther, choice.grow (fun rule => rule.grow limit further) limit
            other.enter = .ok ((), insideOther) ∧ inside.Agrees insideOther) →
          ∃ afterOther, Rule.conditional.grow limit (further + 1) other = .ok afterOther
            ∧ (growth.leave (inside.close .ifStmt)).Agrees afterOther := by
        rintro ⟨insideOther, withinOther, agrees⟩
        refine ⟨_, Rule.grow_ok.mpr (grow_nodeOf_of_ok withinOther), ?_⟩
        exact .leave (by rw [before.same]) (by rw [before.same]) (agrees.close .ifStmt)
      -- Either a part of the choice reads across the parenthesis, or the choice may do so itself.
      rcases Parser.grow_across loosened inner obeys_making_choice within before.enter crossed
        (fun called before crossed => ih deepest called before crossed) with agrees | spares
      · exact .inl (conclude agrees)
      -- The choice itself may be the one whose header is closed at the parenthesis.
      by_cases closes : ClosesChoice point.start
        (.node (.node .ifStmt) inside.siblings.reverse, growth.offset)
      · exact .inl (conclude (grow_choice_across loosened limited deepest before within closes))
      · refine .inr fun base spread => ?_
        have made := spares growth.offset (.enter growth)
        exact spread.leave (made.close closes)
    · -- Any other rule makes no choice but by its calls.
      rcases Parser.grow_across loosened inner (obeys_making isChoice) body before crossed
        (fun called before crossed => ih deepest called before crossed) with
        ⟨afterOther, bodyOther, agrees⟩ | spares
      · exact .inl ⟨afterOther, Rule.grow_ok.mpr bodyOther, agrees⟩
      · exact .inr spares

/-- Roots agree that are made of what agrees. -/
theorem Growth.Agrees.finish {growth other : Growth} (agrees : growth.Agrees other)
    {parsed : Parsed}
    (finished : growth.finish = .ok parsed) :
    ∃ counterpart, other.finish = .ok counterpart ∧ counterpart.tree.core = parsed.tree.core
      ∧ counterpart.report.wordings = parsed.report.wordings := by
  have settled := agrees.eatTrivia
  unfold Growth.finish at finished ⊢
  split at finished
  · cases finished
  · rename_i token rest next
    split at finished
    · rename_i last
      cases finished
      -- Exactly one token is left on both sides, which is the end of the text.
      obtain ⟨counterpart, others, nextOther, -, further⟩ := settled.exists_cons next
      have lastOther : others = [] := by simpa [List.isEmpty_iff.mp last] using further.symm
      rw [nextOther, lastOther]
      refine ⟨_, rfl, ?_, settled.wordings.symm⟩
      rw [Tree.core_node, Tree.core_node, Tree.cores_reverse, Tree.cores_reverse, settled.cores]
    · cases finished

/-- No root is made while a token has not been read that others follow. -/
theorem Growth.finish_of_unread {point : Token} (proper : point.kind.isTrivia = false)
    {back : List Token} (more : back ≠ []) {growth : Growth}
    (unread : point :: back <:+ growth.rest)
    (parsed : Parsed) : growth.finish ≠ .ok parsed := by
  obtain ⟨front, split⟩ := unread
  -- The token is no trivia, so it is still there when trivia is dropped.
  obtain ⟨skipped, rest⟩ : ∃ skipped, growth.eatTrivia.rest = skipped ++ point :: back := by
    rw [rest_eatTrivia, ← split, List.dropWhile_append]
    split
    · exact ⟨[], by rw [List.dropWhile_cons_of_neg (by simp [proper])]; rfl⟩
    · exact ⟨_, rfl⟩
  intro finished
  unfold Growth.finish at finished
  split at finished
  · cases finished
  · rename_i token others next
    split at finished
    · -- Two tokens at least would be the last one.
      rename_i last
      have length := congrArg List.length (next.symm.trans rest)
      have atLeast := List.length_pos_iff.mpr more
      simp only [List.isEmpty_iff.mp last, List.length_append, List.length_cons,
        List.length_nil] at length
      omega
    · cases finished

/-- Line breaks after the first closing parenthesis of a choice change nothing but blanks. -/
theorem growWithin_loosened {point : Token} {front back gap later : List Token}
    (loosened : Loosened point back gap later) {limit : Option Nat}
    (limited : limit.any (· ≤ 0) = false) (adjoining : Adjoining 0 (front ++ point :: back))
    (more : back ≠ []) {parsed : Parsed}
    (grown : growWithin limit (front ++ point :: back) = .ok parsed)
    {spot : Tree × Nat} (member : spot ∈ spots 0 parsed.tree)
    (closes : ClosesChoice point.start spot) :
    ∃ counterpart, growWithin limit (front ++ point :: (gap ++ later)) = .ok counterpart
      ∧ counterpart.tree.core = parsed.tree.core
      ∧ counterpart.report.wordings = parsed.report.wordings := by
  obtain ⟨growth, program, finished, tree⟩ := growWithin_ok grown
  have before : Growth.Before point back (gap ++ later) (.initial (front ++ point :: back))
      (.initial (front ++ point :: (gap ++ later))) :=
    ⟨rfl, front, rfl, rfl, adjoining.start_eq.symm⟩
  -- The line breaks are tokens, so they make the permitted depth larger by enough.
  have deep : Rule.depthFor (front ++ point :: back).length + gap.length
      ≤ Rule.depthFor (front ++ point :: (gap ++ later)).length := by
    have lengths := congrArg List.length loosened.entries
    simp only [List.length_map] at lengths
    simp only [Rule.depthFor, List.length_append, List.length_cons]
    omega
  -- The text is consumed up to its end, which is beyond the parenthesis.
  rcases before.unread_or_lt (Rule.grow_paces program) loosened.solid with unread | ⟨crossed, -⟩
  · exact absurd finished (Growth.finish_of_unread loosened.proper more unread parsed)
  rcases Rule.grow_across loosened limited deep program before crossed with
    ⟨other, programOther, agrees⟩ | spares
  · obtain ⟨counterpart, finishedOther, cores, wordings⟩ := agrees.finish finished
    refine ⟨counterpart, ?_, cores, wordings⟩
    rw [growWithin_eq, programOther]
    exact finishedOther
  · -- Otherwise no choice would have its first closing parenthesis there.
    have none := ((spares 0 ⟨rfl, nofun⟩).eatTrivia (elsewhere_leaf _)).each
    rw [tree, spots, List.mem_cons] at member
    rcases member with rfl | below
    · exact absurd closes (elsewhere_of_ne (by decide) _ _)
    · exact absurd closes (none spot below)

end Dxl
