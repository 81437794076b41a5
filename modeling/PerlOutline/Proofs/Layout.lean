import PerlOutline.Proofs.Derivation
import PerlOutline.Proofs.FirstToken

/-!
# Comments and layout

Two texts that are alike but for their trivia are parsed alike: the trees are the same when trivia
is dropped, and the errors say the same of the same tokens. All that counts of trivia is where it
stands between two tokens, since that is what tells a subscript from a block.

## Layers
- **`Token.layout`**: what counts of trivia, and texts that are alike.
- **`Note`**: errors that point at a token by its number.
- **`InStep`**: parses of two texts that are in step.
- **Steps** of a parse, one lemma for each.
- **Rules and goals** keep parses in step, and so do whole parses.
-/

namespace PerlOutline.Syntax

open PerlOutline.Source (Range byteWidth byteWidth_append)
open PerlOutline.Grammar.State (significant)

/-! ## Layout -/

namespace Token

/-- The tokens that are no trivia, each with whether trivia stands right before it. Whether trivia
stands before the first one of the list is given. -/
def layoutFrom (gap : Bool) : List Token → List (Bool × Token)
  | [] => []
  | t :: ts => if t.isTrivia then layoutFrom true ts else (gap, t) :: layoutFrom false ts

/-- The tokens that are no trivia, each with whether trivia stands right before it. -/
def layout (ts : List Token) : List (Bool × Token) :=
  layoutFrom false ts

/-- For each two tokens in a row that are no trivia, whether trivia stands between them. -/
def gaps (ts : List Token) : List Bool :=
  (layout ts).tail.map (·.1)

/-- Two lists of tokens that differ only in what their trivia is, and in whether they begin or end
with trivia. -/
structure Alike (a b : List Token) : Prop where
  tokens : a.filter (!·.isTrivia) = b.filter (!·.isTrivia)
  gaps : gaps a = gaps b

/-- Without what is said of trivia a layout lists the tokens that are none. -/
theorem layoutFrom_snd (gap : Bool) (ts : List Token) :
    (layoutFrom gap ts).map (·.2) = ts.filter (!·.isTrivia) := by
  induction ts generalizing gap with
  | nil => rfl
  | cons t ts ih =>
    cases trivia : t.isTrivia with
    | true => simp [layoutFrom, trivia, ih]
    | false => simp [layoutFrom, trivia, ih]

/-- What is said of the trivia before the first token counts for that token only. -/
theorem layoutFrom_tail (gap : Bool) (ts : List Token) :
    (layoutFrom gap ts).tail = layout (significant ts).tail := by
  -- Trivia at the start changes `gap`, so the induction is for both values of it.
  induction ts generalizing gap with
  | nil => rfl
  | cons t ts ih =>
    cases trivia : t.isTrivia with
    | true => simpa [layoutFrom, trivia, significant] using ih true
    | false => simp [layoutFrom, trivia, significant, layout]

/-- Where trivia at the start is dropped, only what is said of the first token changes. -/
theorem layout_significant (ts : List Token) :
    layout (significant ts) =
      ((ts.filter (!·.isTrivia)).head?.map (false, ·)).toList ++ (layout ts).tail := by
  rw [layout, layout, layoutFrom_tail]
  induction ts with
  | nil => rfl
  | cons t ts ih =>
    cases trivia : t.isTrivia with
    | true => simpa [significant, trivia] using ih
    | false => simp [significant, trivia, layout, layoutFrom]

/-- A token is next to what comes before it if no trivia is between. -/
theorem adjacent_eq (ts : List Token) :
    (ts.head?.any fun t => !t.isTrivia) = (layout ts).head?.any (!·.1) := by
  -- Behind trivia the first token never stands next to what comes before.
  have behind (ts : List Token) : (layoutFrom true ts).head?.any (!·.1) = false := by
    induction ts with
    | nil => rfl
    | cons t ts ih =>
      cases trivia : t.isTrivia with
      | true => simpa [layoutFrom, trivia] using ih
      | false => simp [layoutFrom, trivia]
  cases ts with
  | nil => rfl
  | cons t ts =>
    cases trivia : t.isTrivia with
    | true => simpa [layout, layoutFrom, trivia] using (behind ts).symm
    | false => simp [layout, layoutFrom, trivia]

/-- Lists that are alike have the same layout from their first token on. -/
theorem Alike.layout_significant {a b : List Token} (h : Alike a b) :
    layout (significant a) = layout (significant b) := by
  have seconds (ts : List Token) :
      (layout ts).tail.map Prod.snd = (ts.filter (!·.isTrivia)).tail := by
    rw [← layoutFrom_snd false ts, List.map_tail]
    rfl
  -- The pairs are known from what is first in them and what is second.
  have tails : (layout a).tail = (layout b).tail := by
    rw [List.zip_of_prod h.gaps (seconds a), h.tokens]
    exact (List.zip_of_prod rfl (seconds b)).symm
  rw [Token.layout_significant, Token.layout_significant, h.tokens, tails]

/-! ## Places of tokens -/

/-- Where the token number `i` of those that are no trivia stands, counted from zero, or the end of
the text if there are not so many. -/
def place (tokens : List Token) (i : Nat) : Range :=
  match ((placed 0 tokens).filter (!·.2.isTrivia))[i]? with
  | some (start, t) => Range.sized start t.width
  | none => Range.empty (byteWidth (spell tokens))

/-- Placing does not change the tokens. -/
theorem map_snd_placed (offset : Nat) (ts : List Token) :
    (placed offset ts).map (·.2) = ts := by
  induction ts generalizing offset with
  | nil => rfl
  | cons t ts ih => simp [ih]

/-- As many tokens are no trivia, placed or not. -/
theorem length_placed_significant (offset : Nat) (ts : List Token) :
    ((placed offset ts).filter (!·.2.isTrivia)).length = (ts.filter (!·.isTrivia)).length := by
  -- Only the side without places is rewritten.
  conv => rhs; rw [← map_snd_placed offset ts, List.filter_map, List.length_map]
  rfl

/-- The first token that is no trivia comes after the trivia at the start. -/
theorem head?_placed (offset : Nat) (ts : List Token) :
    ((placed offset ts).filter (!·.2.isTrivia)).head? =
      (significant ts).head?.map
        (offset + byteWidth (spell (ts.takeWhile (·.isTrivia))), ·) := by
  induction ts generalizing offset with
  | nil => rfl
  | cons t ts ih =>
    cases trivia : t.isTrivia with
    | true => simp [significant, trivia, ih, width, Nat.add_assoc]
    | false => simp [significant, trivia]

end Token

/-! ## Notes -/

/-- What an error says, with the number of the token at which it was noticed among those that are
no trivia. -/
structure Note where
  problem : Problem
  code : ErrorCode
  index : Nat

/-- The error that a note stands for in a text. -/
def Note.errorIn (tokens : List Token) (n : Note) : SyntaxError :=
  ⟨n.problem, n.code, Token.place tokens n.index⟩

end PerlOutline.Syntax

namespace PerlOutline.Grammar

open PerlOutline.Source (Range byteWidth byteWidth_append)
open PerlOutline.Syntax (Kind Token Tree Problem ErrorCode SyntaxError Note)

/-! ## Parses in step -/

namespace State

/-- The state is one of a parse of `text`: what is not read yet is the end of it. -/
def Within (text : List Token) (s : State) : Prop :=
  s.rest <:+ text ∧ s.extent = byteWidth (Token.spell text)

/-- How many tokens of a text that are no trivia have been read. -/
def passed (text : List Token) (s : State) : Nat :=
  (text.filter (!·.isTrivia)).length - (s.rest.filter (!·.isTrivia)).length

variable {text : List Token} {s s' : State}

/-- What is left later is an end of what was left. -/
theorem Within.advances (within : s.Within text) (h : s.Advances s') : s'.Within text :=
  ⟨h.rest.trans within.1, h.extent.trans within.2⟩

/-- The next token of a parse is the first that has not been passed. -/
theorem Within.nextRange (within : s.Within text) :
    s.nextRange = Token.place text (s.passed text) := by
  obtain ⟨⟨read, hread⟩, extent⟩ := within
  -- What was read is as wide as the offset says and holds the tokens that were passed.
  rw [State.extent, ← hread, Token.spell_append, byteWidth_append] at extent
  have offset : s.offset = byteWidth (Token.spell read) := by omega
  have passed : s.passed text = (read.filter (!·.isTrivia)).length := by
    rw [State.passed, ← hread, List.filter_append, List.length_append]
    omega
  have first := Token.head?_placed s.offset s.rest
  rw [passed, Token.place, ← hread, Token.placed_append, List.filter_append,
    List.getElem?_append_right (Nat.le_of_eq (Token.length_placed_significant 0 read)),
    Token.length_placed_significant, Nat.sub_self, ← List.head?_eq_getElem?, Nat.zero_add,
    ← offset, first]
  simp only [State.nextRange, State.next?]
  cases left : (significant s.rest).head? with
  | some t => rfl
  | none =>
    -- Nothing but trivia is left, and the text ends after it.
    have nothing : significant s.rest = [] := List.head?_eq_none_iff.mp left
    have trivia : s.rest.takeWhile (·.isTrivia) = s.rest := by
      conv => rhs; rw [← List.takeWhile_append_dropWhile (p := (·.isTrivia)) (l := s.rest)]
      rw [show s.rest.dropWhile (·.isTrivia) = [] from nothing, List.append_nil]
    simp [trivia, offset]

/-- Where no token is left, none is left later. -/
theorem next?_eq_none_of_suffix (onward : s'.rest <:+ s.rest) (ended : s.next? = none) :
    s'.next? = none := by
  obtain ⟨read, hread⟩ := onward
  have nothing : s.config.rest = [] := List.head?_eq_none_iff.mp ((next?_eq s).symm.trans ended)
  have left : s'.config.rest = [] := by
    rw [config, ← hread, List.filter_append] at nothing
    exact (List.append_eq_nil_iff.mp nothing).2
  rw [next?_eq, left]
  rfl

/-- Where no token is left, none can be rejected. -/
theorem insisted_of_ended (onward : s.Advances s') (ended : s.next? = none) (start : Nat) :
    s'.insisted start = { s' with last := none } := by
  have nothing := next?_eq_none_of_suffix onward.rest ended
  simp only [insisted, rejectNext, nothing, ite_self]

/-- Taking moves the next token into the open scope, if there is one. -/
theorem config_take_eq (s : State) :
    s.take.config =
      ⟨s.config.rest.tail, (s.config.rest.head?.map .token).toList ++ s.config.out,
        s.config.last⟩ := by
  cases left : s.config.rest with
  | cons t ts =>
    exact config_take (show s.config = ⟨t :: ts, s.config.out, s.config.last⟩ by rw [← left])
  | nil =>
    have ended : s.next? = none := by rw [next?_eq, left]; rfl
    have nothing : s.skipTrivia.rest = [] := by
      rw [rest_skipTrivia]
      exact significant_eq_nil_of_next? ended
    have still : s.skipTrivia.advance = s.skipTrivia := by simp only [advance, nothing]
    rw [take_eq, still, config_skipTrivia]
    exact congrArg (fun rest => (⟨rest, s.config.out, s.config.last⟩ : Config)) left

/-! ## Groups -/

/-- Take the next `n` tokens, each with the trivia before it. -/
def takes (s : State) : Nat → State
  | 0 => s
  | n + 1 => s.take.takes n

/-- How many tokens the first `n` tokens that are no trivia are with the trivia before them. -/
def span (n : Nat) : List Token → Nat
  | [] => n
  | t :: ts =>
    match n with
    | 0 => 0
    | m + 1 => if t.isTrivia then span n ts + 1 else span m ts + 1

/-- No tokens span none. -/
theorem span_zero (ts : List Token) : span 0 ts = 0 := by
  cases ts <;> rfl

/-- The first token that is no trivia is next where no trivia is ahead. -/
theorem span_one (ts : List Token) : span 1 (significant ts) = 1 := by
  induction ts with
  | nil => rfl
  | cons t ts ih =>
    cases trivia : t.isTrivia with
    | true => simpa [significant, trivia] using ih
    | false => simp [significant, trivia, span, span_zero]

/-- A token spans at least itself. -/
theorem span_succ_ne_zero (n : Nat) (ts : List Token) : span (n + 1) ts ≠ 0 := by
  cases ts with
  | nil => exact Nat.succ_ne_zero n
  | cons t ts =>
    rw [span]
    split <;> exact Nat.succ_ne_zero _

/-- Trivia ahead lengthens a span, unless nothing is spanned. -/
theorem span_trivia {t : Token} (trivia : t.isTrivia = true) (n : Nat) (ts : List Token) :
    span n (t :: ts) = if span n ts = 0 then 0 else span n ts + 1 := by
  cases n with
  | zero => simp [span_zero]
  | succ n => simp [span, trivia, span_succ_ne_zero]

/-- To read a span is to take its tokens. -/
theorem consume_span (s : State) (n : Nat) : s.consume (span n s.rest) = s.takes n := by
  generalize hrest : s.rest = rest
  induction rest generalizing s n with
  | nil =>
    -- At the end of the text there is nothing to read and nothing to take.
    have still : s.advance = s := by simp only [advance, hrest]
    have none : s.take = s := by simp [take, triviaAhead, hrest, consume, still]
    induction n with
    | zero => rfl
    | succ n ih =>
      rw [takes, none, ← ih, span, span, consume, still]
  | cons t ts ih =>
    have next : s.advance.rest = ts := by rw [rest_advance, hrest]; rfl
    cases n with
    | zero => rfl
    | succ n =>
      -- Trivia is read as part of taking the token behind it.
      cases trivia : t.isTrivia with
      | true =>
        rw [takes, take_of_trivia hrest trivia, span, if_pos trivia]
        exact ih s.advance (n + 1) next
      | false =>
        have first : s.take = s.advance := by
          simp [take, triviaAhead, hrest, trivia, consume]
        rw [takes, first, span, if_neg (by simp [trivia])]
        exact ih s.advance n next

/-- The length of a group is counted from where one begins to count. -/
theorem groupLength_from (level kept seen : Nat) (ts : List Token) :
    groupLength level kept seen ts =
      if groupLength level 0 0 ts = 0 then kept else seen + groupLength level 0 0 ts := by
  induction ts generalizing level kept seen with
  | nil => rfl
  | cons t ts ih =>
    -- A token that belongs to the group makes it longer than nothing.
    have held (level : Nat) : groupLength level (seen + 1) (seen + 1) ts =
        if groupLength level 1 1 ts = 0 then kept else seen + groupLength level 1 1 ts := by
      rw [ih level (seen + 1) (seen + 1), ih level 1 1]
      split
      · rfl
      · rw [if_neg (by omega), Nat.add_assoc]
    unfold groupLength
    split
    · -- Trivia is seen and not kept, until a token behind it is.
      rw [ih level kept (seen + 1), ih level 0 1]
      split
      · rfl
      · rw [if_neg (by omega), Nat.add_assoc]
    · split
      · exact held _
      · split
        · cases level with
          | zero => rfl
          | succ outer => exact held outer
        · split
          · rfl
          · exact held _

/-- A group holds the same tokens whatever trivia is between them. -/
theorem groupLength_eq_span (level : Nat) (ts : List Token) :
    groupLength level 0 0 ts = span (groupLength level 0 0 (ts.filter (!·.isTrivia))) ts := by
  have held (level : Nat) (ts : List Token) :
      groupLength level 1 1 ts = groupLength level 0 0 ts + 1 := by
    rw [groupLength_from]
    split <;> omega
  induction ts generalizing level with
  | nil => rfl
  | cons t ts ih =>
    cases trivia : t.isTrivia with
    | true =>
      have passed : groupLength level 0 0 (t :: ts) = groupLength level 0 1 ts := by
        simp only [groupLength, trivia, if_true]
      -- Trivia in front belongs to the group only if something behind it does.
      rw [span_trivia trivia, List.filter_cons_of_neg (by simp [trivia]), ← ih, passed,
        groupLength_from, Nat.add_comm]
    | false =>
      have further (level : Nat) : groupLength level 1 1 ts =
          span (groupLength level 1 1 (ts.filter (!·.isTrivia))) (t :: ts) := by
        rw [held, held, ih, span, if_neg (by simp [trivia])]
      rw [List.filter_cons_of_pos (by simp [trivia])]
      -- Any other token counts alike on both sides, whichever case it is.
      simp only [groupLength, trivia, Bool.false_eq_true, if_false]
      split
      · exact further _
      · split
        · cases level with
          | zero => exact (span_zero _).symm
          | succ outer => exact further outer
        · split
          · exact (span_zero _).symm
          · exact further _

end State

/-- Parses of two texts that are in step: what is left has the same layout, what was built is the
same but for trivia, and what was reported are the same notes. -/
structure InStep (a b : List Token) (s s' : State) : Prop where
  here : s.Within a
  there : s'.Within b
  layout : Token.layout s.rest = Token.layout s'.rest
  out : Tree.bareForest s.out = Tree.bareForest s'.out
  last : s.last = s'.last
  depth : s.depth = s'.depth
  notes : ∃ notes : List Note,
    s.errors = notes.map (·.errorIn a) ∧ s'.errors = notes.map (·.errorIn b)

namespace InStep

variable {a b : List Token} {s s' : State}

/-- The same tokens are left but for trivia. -/
theorem rest (h : InStep a b s s') :
    s.rest.filter (!·.isTrivia) = s'.rest.filter (!·.isTrivia) := by
  rw [← Token.layoutFrom_snd false, ← Token.layoutFrom_snd false s'.rest]
  exact congrArg _ h.layout

/-- The configurations are the same. -/
theorem config (h : InStep a b s s') : s.config = s'.config := by
  rw [State.config, State.config, h.rest, h.out, h.last]

/-- The next token is the same. -/
theorem next? (h : InStep a b s s') : s.next? = s'.next? := by
  rw [State.next?_eq, State.next?_eq, h.config]

/-- Tests are answered alike. -/
theorem satisfies (h : InStep a b s s') (test : Test) : s.satisfies test = s'.satisfies test := by
  -- What trivia does to a test is in the layout, and the rest in the configuration.
  induction test with
  | next | word | atEnd => simp only [State.satisfies, h.next?]
  | second => simp only [State.satisfies, State.second?_eq, h.config]
  | adjacent => simp only [State.satisfies, Token.adjacent_eq, h.layout]
  | parsed | parsedAs => simp only [State.satisfies, h.last]
  | both _ _ iha ihb | either _ _ iha ihb => simp only [State.satisfies, iha, ihb]
  | fails _ ih => simp only [State.satisfies, ih]

/-! ## Steps -/

/-- Steps that only read keep two parses in step if they read the same. -/
theorem reads (h : InStep a b s s') {m n : Nat}
    (layout : Token.layout (s.rest.drop m) = Token.layout (s'.rest.drop n))
    (out : Tree.bareForest (s.consume m).out = Tree.bareForest (s'.consume n).out) :
    InStep a b (s.consume m) (s'.consume n) where
  here := h.here.advances (s.consume_advances m)
  there := h.there.advances (s'.consume_advances n)
  layout := by rw [State.rest_consume, State.rest_consume, layout]
  out := out
  last := by rw [State.consume_frame, s'.consume_frame]; exact h.last
  depth := (s.consume_advances m).depth.trans (h.depth.trans (s'.consume_advances n).depth.symm)
  notes := by rw [State.errors_consume, State.errors_consume]; exact h.notes

/-- Trivia is skipped on both sides, whatever it is. -/
theorem skipTrivia (h : InStep a b s s') : InStep a b s.skipTrivia s'.skipTrivia := by
  apply h.reads
  · rw [State.drop_triviaAhead, State.drop_triviaAhead, Token.layout_significant,
      Token.layout_significant, h.rest, h.layout]
  · have same : s.skipTrivia.config = s'.skipTrivia.config := by
      rw [State.config_skipTrivia, State.config_skipTrivia, h.config]
    exact congrArg Config.out same

/-- The next token is taken on both sides. -/
theorem take (h : InStep a b s s') : InStep a b s.take s'.take := by
  have left (s : State) : s.rest.drop (s.triviaAhead + 1) = (State.significant s.rest).tail := by
    rw [← State.drop_triviaAhead, List.tail_drop]
  apply h.reads
  · rw [left, left, ← Token.layoutFrom_tail false, ← Token.layoutFrom_tail false s'.rest]
    exact congrArg List.tail h.layout
  · have same : s.take.config = s'.take.config := by
      rw [State.config_take_eq, State.config_take_eq, h.config]
    exact congrArg Config.out same

/-- What was parsed last is said on both sides. -/
theorem recorded (h : InStep a b s s') (last : Option Kind) :
    InStep a b { s with last := last } { s' with last := last } :=
  { h with last := rfl }

/-- Scopes are opened on both sides, behind the trivia. -/
theorem opened (h : InStep a b s s') : InStep a b s.skipTrivia.opened s'.skipTrivia.opened :=
  { h.skipTrivia with out := rfl }

/-- Scopes become nodes on both sides. -/
theorem closed (h : InStep a b s s') (kind : Kind) {outer outer' : List Tree}
    (outside : Tree.bareForest outer = Tree.bareForest outer') :
    InStep a b (s.closed kind outer) (s'.closed kind outer') :=
  { h with
    out := by simp [State.closed, Tree.bareForest, Tree.bare, h.out, outside]
    last := rfl }

/-- Scopes go over into those around them on both sides. -/
theorem merged (h : InStep a b s s') {outer outer' : List Tree}
    (outside : Tree.bareForest outer = Tree.bareForest outer') :
    InStep a b (s.merged outer) (s'.merged outer') :=
  { h with out := by simp [State.merged, h.out, outside] }

/-- The next level is entered on both sides. -/
theorem entered (h : InStep a b s s') : InStep a b s.entered s'.entered :=
  { h with depth := congrArg (· + 1) h.depth }

/-- Several tokens are taken on both sides. -/
theorem takes (h : InStep a b s s') (n : Nat) : InStep a b (s.takes n) (s'.takes n) := by
  induction n generalizing s s' with
  | zero => exact h
  | succ n ih => exact ih h.take

/-- Setting aside as many tokens, whatever trivia is between them. -/
theorem setAside (h : InStep a b s s') (n : Nat) :
    InStep a b (s.setAside (State.span n (State.significant s.rest)))
      (s'.setAside (State.span n (State.significant s'.rest))) := by
  -- What is set aside is read as a span, so trivia between the tokens goes along.
  have inside (s : State) :
      s.skipTrivia.opened.consume (State.span n (State.significant s.rest)) =
        s.skipTrivia.opened.takes n := by
    rw [← State.rest_skipTrivia]
    exact s.skipTrivia.opened.consume_span n
  simp only [State.setAside, inside]
  exact { h.opened.takes n with
    out := by
      simp [Tree.bareForest, Tree.bare, (h.opened.takes n).out, h.skipTrivia.out] }

section Reports

variable (same : a.filter (!·.isTrivia) = b.filter (!·.isTrivia))
include same

/-- A problem is noted at the same number of a token. -/
theorem complain (h : InStep a b s s') (problem : Problem) (code : ErrorCode) :
    InStep a b (s.complain problem code) (s'.complain problem code) := by
  obtain ⟨notes, old, old'⟩ := h.notes
  have passed : s'.passed b = s.passed a := by rw [State.passed, State.passed, h.rest, same]
  refine { h with notes := ⟨⟨problem, code, s.passed a⟩ :: notes, ?_, ?_⟩ }
  · rw [State.complain, h.here.nextRange, old]
    rfl
  · rw [State.complain, h.there.nextRange, old', passed]
    rfl

/-- The next token is rejected on both sides. -/
theorem reject (h : InStep a b s s') (problem : Problem) (code : ErrorCode) :
    InStep a b (s.reject problem code) (s'.reject problem code) := by
  have reported := h.complain same problem code
  have aside := reported.setAside 1
  simp only [State.reject, h.next?]
  split
  · exact reported
  · -- A single token spans one where the trivia before it was skipped.
    rwa [State.span_one, State.span_one] at aside

/-- So it is where it is unexpected. -/
theorem rejectNext (h : InStep a b s s') (code : ErrorCode) :
    InStep a b (s.rejectNext code) (s'.rejectNext code) := by
  simp only [State.rejectNext, h.next?]
  split
  · exact h.reject same _ code
  · exact h

/-- Groups are abandoned on both sides. -/
theorem abandonGroup (h : InStep a b s s') (limit : Nat) :
    InStep a b (s.abandonGroup limit) (s'.abandonGroup limit) := by
  -- The groups are as long as the same number of tokens that are no trivia.
  have held (s : State) : State.groupLength 0 0 0 (State.significant s.rest) =
      State.span (State.groupLength 0 0 0 s.config.rest) (State.significant s.rest) := by
    rw [State.groupLength_eq_span, ← State.rest_skipTrivia]
    exact congrArg (State.span · _) (congrArg (State.groupLength 0 0 0 ·.rest) s.config_skipTrivia)
  have aside := (h.complain same (.tooDeep limit) .e0205).setAside
    (State.groupLength 0 0 0 s.config.rest)
  rw [State.abandonGroup, State.abandonGroup, held, held, ← h.config]
  exact aside

/-- Goals are given up on both sides. -/
theorem giveUp (h : InStep a b s s') (limit : Nat) (goal : Goal) :
    InStep a b (s.giveUp limit goal) (s'.giveUp limit goal) := by
  simp only [State.giveUp, h.satisfies]
  split
  · -- Nothing is read, and what was given up silently is no part of being in step.
    exact { h with last := rfl }
  · exact (h.abandonGroup same limit).recorded (some .error)

end Reports

end InStep

/-! ## Rules and goals -/

/-- A step keeps parses of two texts in step unless it cuts one of them off. -/
def Tracks (a b : List Token) (f : State → State) : Prop :=
  ∀ s s', InStep a b s s' → (f s).starved = false → (f s').starved = false →
    InStep a b (f s) (f s')

variable {limits : Limits} {a b : List Token}

/-- A loop makes the same turns in both parses. -/
theorem State.repeatWhile_tracks {test : Test} {body : State → State}
    (hadvances : ∀ s : State, s.Advances (body s)) (hbody : Tracks a b body) (turns : Nat) :
    Tracks a b (State.repeatWhile (·.satisfies test) body turns) := by
  intro s s' h ok ok'
  -- The test answers alike in both parses, so they make the same turns.
  induction turns generalizing s s' with
  | zero =>
    simp only [State.repeatWhile, ← h.satisfies] at ok ok' ⊢
    split at ok
    · exact absurd ok (fun h => Bool.noConfusion h)
    · next fails => rwa [if_neg fails, if_neg fails]
  | succ turns ih =>
    -- A turn before one that is not cut off is not cut off, either.
    have later (s : State) : s.Advances (State.repeatWhile (·.satisfies test) body turns s) :=
      (Advances.kept ⟨0, 0⟩).repeatWhile hadvances turns s
    simp only [State.repeatWhile, ← h.satisfies] at ok ok' ⊢
    split at ok
    · next holds =>
      rw [if_pos holds] at ok' ⊢
      rw [if_pos holds]
      exact ih _ _ (hbody s s' h ((later _).not_starved ok) ((later _).not_starved ok')) ok ok'
    · next fails => rwa [if_neg fails, if_neg fails]

/-- Whether a rule insists on nothing but statements. -/
def Rule.insistsOnStatements : Rule → Bool
  | .insist body => body == .nested .statement
  | .andThen first next => first.insistsOnStatements && next.insistsOnStatements
  | .branch _ yes no => yes.insistsOnStatements && no.insistsOnStatements
  | .loop _ body | .node _ body | .group body | .wrap _ body => body.insistsOnStatements
  | _ => true

/-- All that the grammar insists on are statements. -/
theorem insistsOnStatements_grammar (goal : Goal) :
    (grammar goal).insistsOnStatements = true := by
  revert goal
  decide +kernel

section Tracking

variable (same : a.filter (!·.isTrivia) = b.filter (!·.isTrivia))
include same

/-- A nested goal is entered in both parses or given up in both. -/
theorem State.deeper_tracks {reach : Goal → State → State}
    (hreach : ∀ goal, Tracks a b (reach goal)) (goal : Goal) :
    Tracks a b (State.deeper limits reach goal) := by
  intro s s' h ok ok'
  simp only [State.deeper, ← h.depth] at ok ok' ⊢
  split at ok
  · next room =>
    rw [if_pos room] at ok' ⊢
    rw [if_pos room]
    exact { hreach goal s.entered s'.entered h.entered ok ok' with depth := rfl }
  · next full =>
    rw [if_neg full, if_neg full]
    exact h.giveUp same limits.maxDepth goal

/-- A rule keeps two parses in step where the goals that it reaches do, and the statements that it
insists on. -/
theorem Rule.follow_tracks {reach : Goal → State → State}
    (hadvances : ∀ goal (s : State), s.Advances (reach goal s))
    (hreach : ∀ goal, Tracks a b (reach goal))
    (hinsist : Tracks a b fun s => (s.deeper limits reach .statement).insisted s.offset)
    (rule : Rule) (insists : rule.insistsOnStatements = true) :
    Tracks a b (rule.follow limits reach) := by
  intro s s' h ok ok'
  -- Induction on the rule. A part of a rule that is not cut off is not cut off either.
  induction rule generalizing s s' with
  | done => exact h
  | andThen first next ihFirst ihNext =>
    obtain ⟨insistsFirst, insistsNext⟩ := Bool.and_eq_true_iff.mp insists
    have later (s : State) : (first.follow limits reach s).Advances
        (next.follow limits reach (first.follow limits reach s)) :=
      next.follow_advances hadvances _
    have middle := ihFirst insistsFirst s s' h ((later s).not_starved ok)
      ((later s').not_starved ok')
    exact ihNext insistsNext _ _ middle ok ok'
  | take => exact h.take
  | complain problem code => exact h.complain same problem code
  | reject problem code => exact h.reject same problem code
  | rejectNext code => exact h.rejectNext same code
  | yield parsed => exact h.recorded parsed
  | branch test yes no ihYes ihNo =>
    obtain ⟨insistsYes, insistsNo⟩ := Bool.and_eq_true_iff.mp insists
    simp only [Rule.follow, ← h.satisfies] at ok ok' ⊢
    split at ok
    · next holds =>
      rw [if_pos holds] at ok' ⊢
      rw [if_pos holds]
      exact ihYes insistsYes s s' h ok ok'
    · next fails =>
      rw [if_neg fails] at ok' ⊢
      rw [if_neg fails]
      exact ihNo insistsNo s s' h ok ok'
  | loop test body ih =>
    exact State.repeatWhile_tracks (body.follow_advances hadvances) (ih insists) limits.maxTurns
      s s' h ok ok'
  | insist body =>
    obtain rfl := beq_iff_eq.mp insists
    exact hinsist s s' h ok ok'
  -- The trivia before the node is read outside of it, so the scopes around agree.
  | node kind body ih =>
    exact (ih insists _ _ h.opened ok ok').closed kind h.skipTrivia.out
  | group body ih => exact (ih insists _ _ h.opened ok ok').merged h.skipTrivia.out
  | wrap kind body ih => exact (ih insists s s' h ok ok').closed kind rfl
  | call goal => exact hreach goal s s' h ok ok'
  | nested goal => exact State.deeper_tracks same hreach goal s s' h ok ok'

/-- A statement that has to get on keeps two parses in step: either it is given up silently in both
of them, and both reject the first token, or both read that token. -/
theorem State.insisted_tracks {allowance : Nat}
    (hreach : ∀ goal, Tracks a b (reach grammar limits allowance goal)) :
    Tracks a b fun s =>
      (s.deeper limits (reach grammar limits allowance) .statement).insisted s.offset := by
  intro s s' h ok ok'
  have tracks : Tracks a b (State.deeper limits (reach grammar limits allowance) .statement) :=
    State.deeper_tracks same hreach .statement
  simp only [State.starved_insisted] at ok ok'
  show InStep a b (State.insisted _ _) (State.insisted _ _)
  cases left : s.next? with
  -- Nothing but trivia is left, so nothing can be rejected.
  | none =>
    rw [State.insisted_of_ended s.statement_advances left,
      State.insisted_of_ended s'.statement_advances (h.next? ▸ left)]
    exact (tracks s s' h ok ok').recorded none
  | some t =>
    have present : s.next?.isSome = true := by rw [left]; rfl
    have present' : s'.next?.isSome = true := h.next? ▸ present
    -- What happens is the same after the trivia ahead, where the first token is next.
    have passed := State.insisted_skipTrivia present ok
    have passed' := State.insisted_skipTrivia present' ok'
    rw [← State.starved_insisted _ s.offset, ← passed, State.starved_insisted] at ok
    rw [← State.starved_insisted _ s'.offset, ← passed', State.starved_insisted] at ok'
    rw [← passed, ← passed']
    have ready := h.skipTrivia
    have alike : s'.skipTrivia.hushes limits = s.skipTrivia.hushes limits := by
      rw [State.hushes, State.hushes, ready.depth, ready.satisfies]
    cases hushed : s.skipTrivia.hushes limits with
    | true =>
      -- Neither parse reads anything, and both reject the token.
      rw [State.deeper_of_hushes hushed, State.deeper_of_hushes (alike.trans hushed)]
      simp only [State.insisted, if_true]
      have given (stop stop' : Stop) : InStep a b
          { s.skipTrivia with last := some .error, hushed := stop :: s.skipTrivia.hushed }
          { s'.skipTrivia with last := some .error, hushed := stop' :: s'.skipTrivia.hushed } :=
        { ready with last := rfl }
      exact ((given _ _).rejectNext same .e0901).recorded none
    | false =>
      -- Both parses read the token, so none is rejected.
      have next : s.skipTrivia.next?.isSome = true := s.next?_skipTrivia ▸ present
      have next' : s'.skipTrivia.next?.isSome = true := s'.next?_skipTrivia ▸ present'
      rw [State.insisted_of_moved (State.statement_advances _)
          (State.moved_statement next hushed) ok,
        State.insisted_of_moved (State.statement_advances _)
          (State.moved_statement next' (alike.trans hushed)) ok']
      exact (tracks _ _ ready ok ok').recorded none

/-- Goals keep two parses in step. -/
theorem reach_tracks (allowance : Nat) (goal : Goal) :
    Tracks a b (reach grammar limits allowance goal) := by
  -- Induction on the allowance. Without calls left both parses are cut off, which was excluded.
  induction allowance generalizing goal with
  | zero => exact fun _ _ _ ok => absurd ok (fun h => Bool.noConfusion h)
  | succ allowance ih =>
    exact (grammar goal).follow_tracks same (reach_advances grammar allowance) ih
      (State.insisted_tracks same ih) (insistsOnStatements_grammar goal)

end Tracking

/-! ## Parses -/

/-- After the trivia at the start, parses of texts that are alike begin in step. -/
theorem start_inStep (alike : Token.Alike a b) :
    InStep a b (State.start a).skipTrivia (State.start b).skipTrivia := by
  have within (ts : List Token) : (State.start ts).Within ts :=
    ⟨List.suffix_refl _, Nat.zero_add _⟩
  -- Nothing is reported before anything is parsed.
  have reported (ts : List Token) : (State.start ts).skipTrivia.errors = [] :=
    State.errors_consume _ _
  have shown (ts : List Token) :
      (State.start ts).skipTrivia.config = ⟨ts.filter (!·.isTrivia), [], none⟩ :=
    State.config_skipTrivia _
  have same : (State.start a).skipTrivia.config = (State.start b).skipTrivia.config := by
    rw [shown, shown, alike.tokens]
  have level (ts : List Token) : (State.start ts).skipTrivia.depth = 0 :=
    (State.skipTrivia_advances _).depth
  exact {
    here := (within a).advances (State.skipTrivia_advances _)
    there := (within b).advances (State.skipTrivia_advances _)
    layout := by
      rw [State.rest_skipTrivia, State.rest_skipTrivia]
      exact alike.layout_significant
    out := congrArg Config.out same
    last := congrArg Config.last same
    depth := (level a).trans (level b).symm
    notes := ⟨[], reported a, reported b⟩ }

/-- A parse may as well begin after the trivia at the start, and with more turns. -/
theorem finalState_skipTrivia {maxDepth turns : Nat} {tokens : List Token}
    (enough : tokens.length ≤ turns) :
    (reach grammar ⟨maxDepth, turns⟩ (callAllowance maxDepth) (.statements false)
        (State.start tokens).skipTrivia).skipTrivia = finalState maxDepth tokens := by
  have parsed : (reach grammar ⟨maxDepth, turns⟩ (callAllowance maxDepth) (.statements false)
      (State.start tokens)).skipTrivia = finalState maxDepth tokens :=
    finalState_more enough (Nat.le_refl _)
  have fed := finalState_not_starved maxDepth tokens
  rw [← parsed, State.skipTrivia, State.starved_consume] at fed
  exact (State.statements_skipTrivia fed).trans parsed

/-- Parses of texts that are alike end in step. -/
theorem finalState_inStep (alike : Token.Alike a b) (maxDepth : Nat) :
    InStep a b (finalState maxDepth a) (finalState maxDepth b) := by
  -- Both parses are followed with turns enough for either of them.
  have parsed : _ = finalState maxDepth a :=
    finalState_skipTrivia (Nat.le_add_right a.length b.length)
  have parsed' : _ = finalState maxDepth b :=
    finalState_skipTrivia (Nat.le_add_left b.length a.length)
  have fed := finalState_not_starved maxDepth a
  have fed' := finalState_not_starved maxDepth b
  rw [← parsed, State.skipTrivia, State.starved_consume] at fed
  rw [← parsed', State.skipTrivia, State.starved_consume] at fed'
  rw [← parsed, ← parsed']
  exact (reach_tracks alike.tokens (callAllowance maxDepth) (.statements false) _ _
    (start_inStep alike) fed fed').skipTrivia

end PerlOutline.Grammar
