import PerlOutline.Proofs.SideBySide
import PerlOutline.Proofs.Termination

/-!
# Statements begin at their first token

Trivia before a statement is read together with its first token, and every statement reads that
token, whatever it is, unless it is given up silently at the nesting limit. So the check that each
statement gets on never sees the trivia before it.

## Layers
- **Trivia that is read first**: rules that begin by reading the trivia ahead.
- **Groups**: giving up a group reads its first token.
- **`seizes`**: goals that read the next token even where they are given up.
- **Statements**: one statement, and the statements of a text, after trivia and without.
-/

namespace PerlOutline.Grammar

open PerlOutline.Syntax (Kind Token Tree Problem ErrorCode SyntaxError)

variable {limits : Limits}

/-! ## Trivia that is read first -/

namespace State

variable {s : State}

theorem triviaAhead_skipTrivia (s : State) : s.skipTrivia.triviaAhead = 0 := by
  rw [triviaAhead, rest_skipTrivia, takeWhile_significant, List.length_nil]

/-- Trivia is read once. -/
@[simp] theorem skipTrivia_skipTrivia (s : State) : s.skipTrivia.skipTrivia = s.skipTrivia := by
  rw [skipTrivia, triviaAhead_skipTrivia]
  rfl

theorem take_skipTrivia (s : State) : s.skipTrivia.take = s.take := by
  rw [take_eq, take_eq, skipTrivia_skipTrivia]

theorem second?_skipTrivia (s : State) : s.skipTrivia.second? = s.second? := by
  rw [second?, second?, rest_skipTrivia, significant_significant]

theorem last_skipTrivia (s : State) : s.skipTrivia.last = s.last := by
  rw [skipTrivia, consume_frame]

/-- Reading does not look at what was reported. -/
theorem consume_reported (s : State) (errors : List SyntaxError) (n : Nat) :
    consume { s with errors := errors } n = { s.consume n with errors := errors } := by
  induction n generalizing s with
  | zero => rfl
  | succ n ih =>
    have first : advance { s with errors := errors } = { s.advance with errors := errors } := by
      obtain ⟨rest⟩ := s
      cases rest <;> rfl
    rw [consume, consume, first, ih]

/-- What is reported at the next token is reported alike after the trivia before it. -/
theorem complain_skipTrivia (s : State) (problem : Problem) (code : ErrorCode) :
    (s.complain problem code).skipTrivia = s.skipTrivia.complain problem code := by
  have errors : s.skipTrivia.errors = s.errors := by rw [skipTrivia, consume_frame]
  rw [complain, complain, nextRange_skipTrivia, errors]
  exact s.consume_reported _ s.triviaAhead

theorem setAside_skipTrivia (s : State) (n : Nat) : s.skipTrivia.setAside n = s.setAside n := by
  simp only [setAside, skipTrivia_skipTrivia]

theorem reject_skipTrivia {t : Token} (h : s.next? = some t) (problem : Problem)
    (code : ErrorCode) : s.skipTrivia.reject problem code = s.reject problem code := by
  simp only [reject, next?_skipTrivia, h, Option.isNone_some, Bool.false_eq_true, if_false,
    ← complain_skipTrivia, setAside_skipTrivia]

theorem rejectNext_skipTrivia {t : Token} (h : s.next? = some t) (code : ErrorCode) :
    s.skipTrivia.rejectNext code = s.rejectNext code := by
  simp only [rejectNext, next?_skipTrivia, h]
  exact reject_skipTrivia h _ code

end State

/-- Whether a test answers alike before trivia and after it. -/
def Test.looksThrough : Test → Bool
  | .adjacent => false
  | .both a b | .either a b => a.looksThrough && b.looksThrough
  | .fails t => t.looksThrough
  | _ => true

theorem State.satisfies_skipTrivia {test : Test} (through : test.looksThrough = true) (s : State) :
    s.skipTrivia.satisfies test = s.satisfies test := by
  induction test with
  | next | word | atEnd => simp only [State.satisfies, next?_skipTrivia]
  | second => simp only [State.satisfies, second?_skipTrivia]
  | parsed | parsedAs => simp only [State.satisfies, last_skipTrivia]
  | adjacent => simp [Test.looksThrough] at through
  | both a b iha ihb | either a b iha ihb =>
    obtain ⟨throughA, throughB⟩ := Bool.and_eq_true_iff.mp through
    simp only [State.satisfies, iha throughA, ihb throughB]
  | fails t ih => simp only [State.satisfies, ih through]

/-- Whether it is seen from a rule that it begins by reading the trivia ahead, where `calls` tells
this of goals. -/
def Rule.clears (calls : Goal → Bool) : Rule → Bool
  | .take | .reject .. | .rejectNext _ | .node .. | .group _ => true
  | .andThen first _ => first.clears calls
  | .branch test yes no => test.looksThrough && yes.clears calls && no.clears calls
  | .call goal => calls goal
  | _ => false

/-- Whether it is seen of a goal, looking through at most `n` calls. -/
def clears (grammar : Goal → Rule) : Nat → Goal → Bool
  | 0, _ => false
  | n + 1, goal => (grammar goal).clears (clears grammar n)

/-- A rule that begins by reading trivia does the same after it. -/
theorem Rule.follow_skipTrivia {reach : Goal → State → State} {calls : Goal → Bool}
    (hadvances : ∀ goal (s : State), s.Advances (reach goal s))
    (hcalls : ∀ goal, calls goal = true → ∀ s : State, s.next?.isSome = true →
      (reach goal s).starved = false → reach goal s.skipTrivia = reach goal s)
    (rule : Rule) (clear : rule.clears calls = true) (s : State) (left : s.next?.isSome = true)
    (ok : (rule.follow limits reach s).starved = false) :
    rule.follow limits reach s.skipTrivia = rule.follow limits reach s := by
  obtain ⟨t, ht⟩ := Option.isSome_iff_exists.mp left
  -- Induction on the rule; only the first step counts, and tests see through the trivia.
  induction rule with
  | take => exact s.take_skipTrivia
  | reject problem code => exact State.reject_skipTrivia ht problem code
  | rejectNext code => exact State.rejectNext_skipTrivia ht code
  | node kind body | group body => simp only [Rule.follow, State.skipTrivia_skipTrivia]
  | andThen first next ihFirst _ =>
    have later : (first.follow limits reach s).Advances
        (next.follow limits reach (first.follow limits reach s)) :=
      next.follow_advances hadvances _
    rw [Rule.follow, Rule.follow, ihFirst clear (later.not_starved ok)]
  | branch test yes no ihYes ihNo =>
    simp only [Rule.clears, Bool.and_eq_true] at clear
    simp only [Rule.follow] at ok ⊢
    rw [State.satisfies_skipTrivia clear.1.1]
    split at ok
    · next holds => rw [if_pos holds, if_pos holds]; exact ihYes clear.1.2 ok
    · next fails => rw [if_neg fails, if_neg fails]; exact ihNo clear.2 ok
  | call goal => exact hcalls goal clear s left ok
  | done | complain | yield | loop | insist | wrap | nested => simp [Rule.clears] at clear

/-- A goal that begins by reading trivia does the same after it. -/
theorem reach_skipTrivia {grammar : Goal → Rule} (n : Nat) {goal : Goal}
    (clear : clears grammar n goal = true) (allowance : Nat) (s : State)
    (left : s.next?.isSome = true)
    (ok : (reach grammar limits allowance goal s).starved = false) :
    reach grammar limits allowance goal s.skipTrivia = reach grammar limits allowance goal s := by
  induction n generalizing goal allowance s with
  | zero => exact absurd clear (by simp [clears])
  | succ n ih =>
    cases allowance with
    | zero => exact absurd ok (fun h => Bool.noConfusion h)
    | succ allowance =>
      exact (grammar goal).follow_skipTrivia (reach_advances grammar allowance)
        (fun g hg s hs => ih hg allowance s hs) clear s left ok

/-! ## Groups -/

namespace State

variable {s : State}

theorem kept_le_groupLength (level kept seen : Nat) (ts : List Token) (passed : kept ≤ seen) :
    kept ≤ groupLength level kept seen ts := by
  -- Induction on the tokens: what is passed over later can only add to the group.
  induction ts generalizing level kept seen with
  | nil => exact Nat.le_refl _
  | cons t ts ih =>
    have further (level : Nat) : kept ≤ groupLength level (seen + 1) (seen + 1) ts := by
      have := ih level (seen + 1) (seen + 1) (Nat.le_refl _)
      omega
    unfold groupLength
    split
    · exact ih level kept (seen + 1) (by omega)
    · split
      · exact further _
      · split
        · cases level with
          | zero => exact Nat.le_refl _
          | succ outer => exact further outer
        · split
          · exact Nat.le_refl _
          · exact further _

/-- A group that begins with a token at which no expression ends holds that token. -/
theorem groupLength_pos {t : Token} (significant : t.isTrivia = false)
    (inside : t.kind ∉ expressionEnds) (ts : List Token) : 0 < groupLength 0 0 0 (t :: ts) := by
  have closing : ∀ k ∈ closers, k ∈ expressionEnds := by decide
  have closes : closers.contains t.kind = false := by
    simpa using mt (closing t.kind) inside
  have ends : t.kind ≠ .semicolon := by
    intro same
    simp [same, expressionEnds] at inside
  -- The token opens a bracket or stands for itself, and in both cases it is kept.
  have held (level : Nat) : 0 < groupLength level 1 1 ts :=
    kept_le_groupLength level 1 1 ts (Nat.le_refl _)
  simp only [groupLength, significant, closes, ends, Bool.false_eq_true, if_false,
    decide_false, Bool.false_and]
  split
  · exact held 1
  · exact held 0

/-! ## Goals that read the next token -/

/-- A goal at the nesting limit is given up without a report where an expression ends. -/
def hushes (limits : Limits) (s : State) : Bool :=
  limits.maxDepth ≤ s.depth && s.satisfies .endsExpression

/-- A goal that is given up without a report leaves the text alone. -/
theorem deeper_of_hushes {reach : Goal → State → State} {goal : Goal}
    (hushed : s.hushes limits = true) :
    s.deeper limits reach goal =
      { s with
        last := some .error
        hushed := ⟨goal, s.next?.map (·.kind)⟩ :: s.hushed } := by
  obtain ⟨full, ends⟩ := Bool.and_eq_true_iff.mp hushed
  rw [deeper, if_neg (Nat.not_lt.mpr (of_decide_eq_true full)), giveUp, if_pos ends]

/-- The next token is no trivia. -/
theorem isTrivia_of_next? {t : Token} (h : s.next? = some t) : t.isTrivia = false := by
  have first := List.head?_dropWhile_not (·.isTrivia) s.rest
  rwa [show (s.rest.dropWhile (·.isTrivia)).head? = some t from h] at first

/-- Giving up a group reads a token, unless an expression ends there. -/
theorem length_rest_abandonGroup_lt {t : Token} (h : s.next? = some t)
    (inside : t.kind ∉ expressionEnds) (limit : Nat) :
    (s.abandonGroup limit).rest.length < s.rest.length := by
  obtain ⟨ts, hts⟩ := List.head?_eq_some_iff.mp h
  have held : 0 < groupLength 0 0 0 (significant s.rest) :=
    hts ▸ groupLength_pos (isTrivia_of_next? h) inside ts
  obtain ⟨n, hn⟩ := Nat.exists_eq_add_one.mpr held
  have same : (s.complain (.tooDeep limit) .e0205).next? = some t := h
  rw [abandonGroup, hn]
  exact length_rest_setAside_lt same n

/-- A goal that reads the next token on a deeper level has read it too where it was given up,
unless that was silent. -/
theorem moved_deeper {reach : Goal → State → State} {goal : Goal}
    (left : s.next?.isSome = true) (inside : s.entered.Moved (reach goal s.entered))
    (loud : s.hushes limits = false) : s.Moved (s.deeper limits reach goal) := by
  obtain ⟨t, ht⟩ := Option.isSome_iff_exists.mp left
  unfold deeper
  split
  · exact inside
  · next full =>
    -- At the limit the group is given up, and its first token with it.
    have goesOn : s.satisfies .endsExpression = false := by
      simpa [hushes, Nat.not_lt.mp full] using loud
    have kind : t.kind ∉ expressionEnds := by
      simpa [satisfies, Test.endsExpression, ht] using goesOn
    rw [giveUp, if_neg (by simp [goesOn])]
    exact .inr (length_rest_abandonGroup_lt ht kind limits.maxDepth)

end State

/-- Whether it is seen of a goal, looking through at most `n` calls, that it reads a token of kind
`k` if that is the next one. A list goes to a deeper level for its first item, which may be given
up there, but where no expression ends that reads the token too. -/
def seizes : Nat → Goal → Kind → Bool
  | 0, _, _ => false
  | n + 1, .list, k => !(.comma :: .fatComma :: expressionEnds).contains k && seizes n .assignment k
  | n + 1, goal, k => (grammar goal).surelyReads (seizes n) k

/-- A list reads its first token if an assignment does and no expression ends there. -/
theorem moved_list {reach : Goal → State → State} {k : Kind} {s : State}
    (hadvances : ∀ goal (s : State), s.Advances (reach goal s))
    (hassignment : ∀ s : State, s.ahead = some k → s.Moved (reach .assignment s))
    (begins : k ∉ Kind.comma :: .fatComma :: expressionEnds) (seen : s.ahead = some k) :
    s.Moved (Rule.list.follow limits reach s) := by
  -- The list opens a group, in which the same token is next.
  have seen : s.skipTrivia.opened.ahead = some k := s.ahead_skipTrivia.trans seen
  have glance := s.skipTrivia.opened.shows_ahead
  rw [seen] at glance
  have noComma : s.skipTrivia.opened.satisfies (.next [.comma, .fatComma]) = false := by
    apply State.satisfies_of_decided glance
    simp_all [Test.decided]
  have loud : s.skipTrivia.opened.hushes limits = false := by
    have goesOn : s.skipTrivia.opened.satisfies .endsExpression = false := by
      apply State.satisfies_of_decided glance
      simp_all [Test.endsExpression, Test.decided]
    rw [State.hushes, goesOn, Bool.and_false]
  obtain ⟨t, ht, -⟩ := Option.map_eq_some_iff.mp seen
  have first : s.skipTrivia.opened.Moved
      (s.skipTrivia.opened.deeper limits reach .assignment) :=
    State.moved_deeper (Option.isSome_of_mem ht) (hassignment _ seen) loud
  have item : s.skipTrivia.opened.Moved
      ((Rule.lacking (.next [.comma, .fatComma]) (.nested .assignment)).follow limits reach
        s.skipTrivia.opened) := by
    rw [Rule.lacking, Rule.follow, noComma]
    exact first
  exact (item.advances (Rule.follow_advances hadvances _ _)).of_le
    s.skipTrivia_advances.length_rest_le

/-- A goal that is seen to read the next token does so. -/
theorem moved_of_seizes (n : Nat) {goal : Goal} {k : Kind} (reads : seizes n goal k = true)
    (allowance : Nat) (s : State) (seen : s.ahead = some k) :
    s.Moved (reach grammar limits allowance goal s) := by
  -- Induction on the number of calls that are looked through. A list is a case of its own, since
  -- its first item is reached on a deeper level.
  induction n generalizing goal allowance s with
  | zero => exact absurd reads (by simp [seizes])
  | succ n ih =>
    cases allowance with
    | zero => exact .inl rfl
    | succ allowance =>
      by_cases list : goal = .list
      · subst list
        obtain ⟨begins, item⟩ := Bool.and_eq_true_iff.mp reads
        exact moved_list (reach_advances grammar allowance) (ih item allowance)
          (by simpa using begins) seen
      · exact (grammar goal).moved_of_surelyReads (reach_advances grammar allowance)
          (fun g hg s hs => ih hg allowance s hs) (by simpa [seizes, list] using reads) s seen

/-- Every statement is seen to read its first token, looking through the calls of two levels. -/
theorem seizes_statement (k : Kind) : seizes (2 * callsPerLevel) .statement k = true := by
  have all : Kind.all.all (seizes (2 * callsPerLevel) .statement) = true := by decide +kernel
  exact List.all_eq_true.mp all k k.mem_all

/-! ## Statements -/

theorem clears_statement : clears grammar 2 .statement = true := by decide +kernel

namespace State

variable {s : State} {allowance : Nat}

theorem statement_advances (s : State) :
    s.Advances (s.deeper limits (reach grammar limits allowance) .statement) :=
  (Rule.nested .statement).follow_advances (reach_advances grammar allowance) s

/-- Where something was read, nothing is rejected. -/
theorem insisted_of_moved {s' : State} (onward : s.Advances s') (moved : s.Moved s')
    (ok : s'.starved = false) : s'.insisted s.offset = { s' with last := none } := by
  have := onward.offset_lt (moved.resolve_left (by simp [ok]))
  rw [insisted, if_neg (by omega)]

/-- A statement reads its first token, unless it is given up silently. -/
theorem moved_statement (left : s.next?.isSome = true) (loud : s.hushes limits = false) :
    s.Moved (s.deeper limits (reach grammar limits allowance) .statement) := by
  obtain ⟨t, ht⟩ := Option.isSome_iff_exists.mp left
  have seen : s.entered.ahead = some t.kind := by
    rw [ahead, show s.entered.next? = some t from ht]
    rfl
  exact moved_deeper left (moved_of_seizes _ (seizes_statement t.kind) allowance s.entered seen)
    loud

theorem hushes_skipTrivia (s : State) : s.skipTrivia.hushes limits = s.hushes limits := by
  have depth : s.skipTrivia.depth = s.depth := s.skipTrivia_advances.depth
  rw [hushes, hushes, depth, satisfies_skipTrivia (by decide)]

/-- What is counted and noted has nothing to do with trivia. -/
theorem skipTrivia_withTally (s : State) (change : Tally → Tally) :
    s.skipTrivia.withTally (change s.skipTrivia.tally) =
      (s.withTally (change s.tally)).skipTrivia := by
  rw [plain_skipTrivia.tally, plain_skipTrivia]

/-- A statement that is not given up silently is the same after the trivia before it. -/
theorem statement_skipTrivia (left : s.next?.isSome = true) (loud : s.hushes limits = false)
    (ok : (s.deeper limits (reach grammar limits allowance) .statement).starved = false) :
    s.skipTrivia.deeper limits (reach grammar limits allowance) .statement =
      s.deeper limits (reach grammar limits allowance) .statement := by
  have depth : s.skipTrivia.depth = s.depth := s.skipTrivia_advances.depth
  have entered : s.skipTrivia.entered = s.entered.skipTrivia :=
    s.skipTrivia_withTally fun t =>
      { t with depth := t.depth + 1, deepest := max t.deepest (t.depth + 1) }
  -- The statement is reached if there is room for a level; otherwise its group is given up, which
  -- begins by reading the trivia as well.
  unfold deeper at ok ⊢
  rw [depth]
  split at ok
  · next room =>
    rw [if_pos room, if_pos room, entered,
      reach_skipTrivia 2 clears_statement allowance s.entered left ok]
  · next full =>
    have goesOn : s.satisfies .endsExpression = false := by
      simpa [hushes, Nat.not_lt.mp full] using loud
    rw [if_neg full, if_neg full, giveUp, giveUp, satisfies_skipTrivia (by decide),
      if_neg (by simp [goesOn]), if_neg (by simp [goesOn]), abandonGroup, abandonGroup,
      rest_skipTrivia, significant_significant, ← complain_skipTrivia]
    simp only [setAside_skipTrivia]

/-- A statement that has to get on is the same after the trivia before it. -/
theorem insisted_skipTrivia (left : s.next?.isSome = true)
    (ok : (s.deeper limits (reach grammar limits allowance) .statement).starved = false) :
    (s.skipTrivia.deeper limits (reach grammar limits allowance) .statement).insisted
        s.skipTrivia.offset =
      (s.deeper limits (reach grammar limits allowance) .statement).insisted s.offset := by
  obtain ⟨t, ht⟩ := Option.isSome_iff_exists.mp left
  cases hushed : s.hushes limits with
  | true =>
    -- Nothing was read, so the first token is rejected in both cases.
    have given : s.skipTrivia.hushes limits = true := s.hushes_skipTrivia.trans hushed
    have ready := s.skipTrivia_withTally fun t' =>
      { t' with last := some .error, hushed := ⟨.statement, some t.kind⟩ :: t'.hushed }
    have rejected := rejectNext_skipTrivia (s := s.withTally
      { s.tally with last := some .error, hushed := ⟨.statement, some t.kind⟩ :: s.hushed })
      ht .e0901
    rw [deeper_of_hushes hushed, deeper_of_hushes given, next?_skipTrivia, ht]
    simp only [insisted, if_true]
    exact congrArg (fun r : State => { r with last := none }) (ready ▸ rejected)
  | false =>
    have same := statement_skipTrivia left hushed ok
    have moved : s.skipTrivia.Moved
        (s.skipTrivia.deeper limits (reach grammar limits allowance) .statement) :=
      moved_statement (s.next?_skipTrivia ▸ left) (s.hushes_skipTrivia.trans hushed)
    have onward : s.skipTrivia.Advances
        (s.skipTrivia.deeper limits (reach grammar limits allowance) .statement) :=
      s.skipTrivia.statement_advances
    -- The first token was read, and the trivia before it.
    rw [same] at moved onward ⊢
    rw [insisted_of_moved onward moved ok,
      insisted_of_moved s.statement_advances (moved.of_le s.skipTrivia_advances.length_rest_le) ok]

/-- The statements of a text are the same after the trivia with which it begins. -/
theorem statements_skipTrivia
    (ok : (reach grammar limits allowance (.statements false) s).starved = false) :
    (reach grammar limits allowance (.statements false) s.skipTrivia).skipTrivia =
      (reach grammar limits allowance (.statements false) s).skipTrivia := by
  cases allowance with
  | zero => exact absurd ok (fun h => Bool.noConfusion h)
  | succ allowance =>
    simp only [reach, grammar, Rule.statements, Rule.follow, Bool.false_eq_true, if_false] at ok ⊢
    have sees : s.skipTrivia.satisfies (.fails .atEnd) = s.satisfies (.fails .atEnd) :=
      satisfies_skipTrivia (by decide) s
    cases left : s.satisfies (.fails .atEnd) with
    | false =>
      -- Nothing but trivia is left, and no turn is made.
      have stays (r : State) (ended : r.satisfies (.fails .atEnd) = false) (turns : Nat)
          (body : State → State) : repeatWhile (·.satisfies (.fails .atEnd)) body turns r = r := by
        cases turns <;> simp [repeatWhile, ended]
      rw [stays s left, stays s.skipTrivia (sees.trans left), skipTrivia_skipTrivia]
    | true =>
      cases turns : limits.maxTurns with
      | zero => simp [turns, repeatWhile, left] at ok
      | succ turns' =>
        -- The first turn is the same, and so are those after it.
        rw [turns] at ok
        simp only [repeatWhile, left, sees, if_true] at ok ⊢
        have turn (r : State) : r.Advances
            ((r.deeper limits (reach grammar limits allowance) .statement).insisted r.offset) :=
          (Rule.insist (.nested .statement)).follow_advances (reach_advances grammar allowance) r
        have fed : ((s.deeper limits (reach grammar limits allowance) .statement).insisted
            s.offset).starved = false :=
          Advances.not_starved ((Advances.kept ⟨0, 0⟩).repeatWhile turn turns' _) ok
        rw [starved_insisted] at fed
        rw [insisted_skipTrivia (by simpa [satisfies] using left) fed]

end State

end PerlOutline.Grammar
