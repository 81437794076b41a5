import PerlOutline.Proofs.Reading

/-!
# Rules that surely read

What the next token is decides many tests. So it can be seen from a rule alone that it reads a
token whenever the next one has a certain kind, and that each turn of a loop reads one.

## Layers
- **`Glance`**: what is known of a state, and the tests that it decides.
- **Reading ahead**: trivia, and the token after it.
- **`surelyReads`**: rules that read a token, seen from the rule.
- **`progressive`**: rules whose loops read a token at every turn.
-/

namespace PerlOutline.Grammar

open PerlOutline.Syntax (Kind Token Tree Problem ErrorCode)

/-! ## Glances -/

/-- What is known of a state. -/
structure Glance where
  /-- The kind of the next token, if one is left. -/
  ahead : Option Kind
  /-- Whether an expression was just parsed, where that is known. -/
  parsed : Option Bool

namespace State

/-- The kind of the next token, if one is left. -/
def ahead (s : State) : Option Kind :=
  s.next?.map (·.kind)

/-- What is known of a state is true of it. -/
def Shows (s : State) (g : Glance) : Prop :=
  s.ahead = g.ahead ∧ ∀ b, g.parsed = some b → s.last.isSome = b

/-- Nothing is known but the next token. -/
theorem shows_ahead (s : State) : s.Shows ⟨s.ahead, none⟩ :=
  ⟨rfl, fun _ h => nomatch h⟩

end State

/-- Whether a test holds, where a glance decides that. -/
def Test.decided (g : Glance) : Test → Option Bool
  | .next kinds => some (g.ahead.any kinds.contains)
  | .atEnd => some g.ahead.isNone
  | .parsed => g.parsed
  | .both a b =>
    match a.decided g, b.decided g with
    | some true, known | known, some true => known
    | some false, _ | _, some false => some false
    | none, none => none
  | .either a b =>
    match a.decided g, b.decided g with
    | some false, known | known, some false => known
    | some true, _ | _, some true => some true
    | none, none => none
  | .fails t => (t.decided g).map (!·)
  | _ => none

/-- A test that a glance decides comes out that way. -/
theorem State.satisfies_of_decided {s : State} {g : Glance} (shown : s.Shows g) {t : Test}
    {b : Bool} (known : t.decided g = some b) : s.satisfies t = b := by
  induction t generalizing b with
  | next kinds =>
    obtain rfl := Option.some.inj known
    rw [← shown.1]
    simp only [State.satisfies, State.ahead]
    cases s.next? <;> rfl
  | atEnd =>
    obtain rfl := Option.some.inj known
    rw [← shown.1]
    simp only [State.satisfies, State.ahead]
    cases s.next? <;> rfl
  | parsed => exact shown.2 b known
  | both a c iha ihc =>
    simp only [Test.decided] at known
    simp only [State.satisfies]
    -- A conjunction may be decided where only one of its parts is.
    split at known <;> simp_all
  | either a c iha ihc =>
    simp only [Test.decided] at known
    unfold State.satisfies
    split at known <;> simp_all
  | fails t ih =>
    obtain ⟨c, hc, rfl⟩ := Option.map_eq_some_iff.mp known
    simp only [State.satisfies, ih hc]
  -- Of these a glance decides nothing.
  | second kinds | word words | adjacent | parsedAs kinds =>
    simp [Test.decided] at known

/-! ## Reading ahead -/

namespace State

theorem rest_advance (s : State) : s.advance.rest = s.rest.tail := by
  cases hrest : s.rest with
  | nil => simp [advance, hrest]
  | cons t ts => simp [advance, hrest]

theorem rest_consume (s : State) (n : Nat) : (s.consume n).rest = s.rest.drop n := by
  induction n generalizing s with
  | zero => rfl
  | succ n ih => rw [consume, ih, rest_advance, List.drop_tail]

theorem drop_triviaAhead (s : State) : s.rest.drop s.triviaAhead = significant s.rest := by
  have parts : s.rest = s.rest.takeWhile (·.isTrivia) ++ significant s.rest :=
    List.takeWhile_append_dropWhile.symm
  -- As many tokens are dropped as the trivia ahead are.
  calc s.rest.drop s.triviaAhead
      = (s.rest.takeWhile (·.isTrivia) ++ significant s.rest).drop s.triviaAhead := by rw [← parts]
    _ = significant s.rest := List.drop_left

theorem rest_skipTrivia (s : State) : s.skipTrivia.rest = significant s.rest := by
  rw [skipTrivia, rest_consume, drop_triviaAhead]

theorem significant_significant (ts : List Token) :
    significant (significant ts) = significant ts := by
  induction ts with
  | nil => rfl
  | cons t ts ih =>
    simp only [significant] at ih ⊢
    cases ht : t.isTrivia with
    | true => simpa [List.dropWhile_cons, ht] using ih
    | false => simp [ht]

theorem next?_skipTrivia (s : State) : s.skipTrivia.next? = s.next? := by
  rw [next?, next?, rest_skipTrivia, significant_significant]

/-- Nothing but trivia is left where no token is ahead. -/
theorem significant_eq_nil_of_next? {s : State} (h : s.next? = none) : significant s.rest = [] :=
  List.head?_eq_none_iff.mp h

theorem rest_ne_nil_of_next? {s : State} {t : Token} (h : s.next? = some t) : s.rest ≠ [] := by
  intro hrest
  simp [next?, hrest, significant] at h

/-- Taking reads a token if one is ahead. -/
theorem length_rest_take_lt {s : State} {t : Token} (h : s.next? = some t) :
    s.take.rest.length < s.rest.length := by
  have left : 0 < s.rest.length := List.length_pos_iff.mpr (rest_ne_nil_of_next? h)
  rw [take, rest_consume, List.length_drop]
  omega

/-- To set tokens aside reads them, the trivia in front of them included. -/
theorem length_rest_setAside_lt {s : State} {t : Token} (h : s.next? = some t) (n : Nat) :
    (s.setAside (n + 1)).rest.length < s.rest.length := by
  have some : 0 < s.rest.length := List.length_pos_iff.mpr (rest_ne_nil_of_next? h)
  have left : (s.setAside (n + 1)).rest = (s.rest.drop s.triviaAhead).drop (n + 1) := by
    rw [drop_triviaAhead, ← rest_skipTrivia]
    exact rest_consume s.skipTrivia.opened (n + 1)
  rw [left, List.length_drop, List.length_drop]
  omega

theorem length_rest_reject_lt {s : State} {t : Token} (h : s.next? = some t) (problem : Problem)
    (code : ErrorCode) : (s.reject problem code).rest.length < s.rest.length := by
  have seen : s.next?.isNone = false := by rw [h]; rfl
  have same : (s.complain problem code).next? = some t := h
  simp only [reject, seen]
  exact length_rest_setAside_lt same 0

theorem length_rest_rejectNext_lt {s : State} {t : Token} (h : s.next? = some t)
    (code : ErrorCode) : (s.rejectNext code).rest.length < s.rest.length := by
  simp only [rejectNext, h]
  exact length_rest_reject_lt h _ code

end State

/-! ## Rules that surely read -/

/-- Whether it is seen from a rule that it reads a token when the next one is of kind `k`, where
`calls` tells this of goals. -/
def Rule.surelyReads (calls : Goal → Kind → Bool) (k : Kind) : Rule → Bool
  | .take | .reject .. | .rejectNext _ | .insist _ => true
  | .andThen first _ => first.surelyReads calls k
  | .branch test yes no =>
    match test.decided ⟨some k, none⟩ with
    | some true => yes.surelyReads calls k
    | some false => no.surelyReads calls k
    | none => yes.surelyReads calls k && no.surelyReads calls k
  | .node _ body | .group body | .wrap _ body => body.surelyReads calls k
  | .call goal => calls goal k
  | _ => false

/-- Whether it is seen of a goal, looking through at most `n` calls. -/
def surelyReads (grammar : Goal → Rule) : Nat → Goal → Kind → Bool
  | 0, _, _ => false
  | n + 1, goal, k => (grammar goal).surelyReads (surelyReads grammar n) k

namespace State

/-- Something was read, or the parse was cut off. -/
def Moved (s s' : State) : Prop :=
  s'.starved = true ∨ s'.rest.length < s.rest.length

theorem Moved.of_le {s s' s'' : State} (moved : s'.Moved s'')
    (le : s'.rest.length ≤ s.rest.length) : s.Moved s'' :=
  moved.imp_right fun shorter => Nat.lt_of_lt_of_le shorter le

theorem Moved.advances {s s' s'' : State} (moved : s.Moved s') (h : s'.Advances s'') :
    s.Moved s'' :=
  moved.imp h.starved fun shorter => Nat.lt_of_le_of_lt h.length_rest_le shorter

theorem moved_insisted {s s' : State} (h : s.Advances s') {t : Token} (seen : s.next? = some t) :
    s.Moved (s'.insisted s.offset) := by
  right
  unfold insisted
  split
  · -- Where the body read nothing, the next token is still there to be rejected.
    next still =>
    -- To read past the offset would have moved it.
    have same : s'.rest = s.rest := by
      apply h.rest.eq_of_length_le
      refine Nat.not_lt.mp fun shorter => ?_
      have := h.offset_lt shorter
      omega
    have ahead : s'.next? = some t := by rw [next?, same]; exact seen
    rw [← same]
    exact length_rest_rejectNext_lt ahead .e0901
  · next moved => exact h.length_rest_lt moved

end State

variable {limits : Limits}

/-- A rule that is seen to read does read. -/
theorem Rule.moved_of_surelyReads {reach : Goal → State → State} {calls : Goal → Kind → Bool}
    {k : Kind} (hreach : ∀ goal (s : State), s.Advances (reach goal s))
    (hcalls : ∀ goal, calls goal k = true → ∀ s : State, s.ahead = some k →
      s.Moved (reach goal s))
    (rule : Rule) (reads : rule.surelyReads calls k = true) (s : State) (seen : s.ahead = some k) :
    s.Moved (rule.follow limits reach s) := by
  -- Induction on the rule. The token ahead is named once, since the steps that read want it.
  obtain ⟨t, ht, -⟩ := Option.map_eq_some_iff.mp seen
  induction rule generalizing s t with
  | take => exact .inr (State.length_rest_take_lt ht)
  | reject problem code => exact .inr (State.length_rest_reject_lt ht problem code)
  | rejectNext code => exact .inr (State.length_rest_rejectNext_lt ht code)
  | insist body ih => exact State.moved_insisted (body.follow_advances hreach s) ht
  | andThen first next ihFirst _ =>
    exact (ihFirst reads s seen t ht).advances (next.follow_advances hreach _)
  | branch test yes no ihYes ihNo =>
    -- A test that the next token decides picks the branch that counts; otherwise both of them read.
    have glance := s.shows_ahead
    rw [seen] at glance
    simp only [Rule.surelyReads] at reads
    unfold Rule.follow
    split at reads
    · next known =>
      rw [if_pos (State.satisfies_of_decided glance known)]
      exact ihYes reads s seen t ht
    · next known =>
      rw [if_neg (by rw [State.satisfies_of_decided glance known]; decide)]
      exact ihNo reads s seen t ht
    · obtain ⟨hyes, hno⟩ := Bool.and_eq_true_iff.mp reads
      split
      · exact ihYes hyes s seen t ht
      · exact ihNo hno s seen t ht
  | node kind body ih =>
    -- The trivia in front of a node is skipped first, and the token ahead stays the same.
    have ready : s.skipTrivia.opened.next? = some t := s.next?_skipTrivia.trans ht
    have inside := ih reads s.skipTrivia.opened
      (by rw [State.ahead, ready, ← ht]; exact seen) t ready
    exact inside.of_le s.skipTrivia_advances.length_rest_le
  | group body ih =>
    have ready : s.skipTrivia.opened.next? = some t := s.next?_skipTrivia.trans ht
    have inside := ih reads s.skipTrivia.opened
      (by rw [State.ahead, ready, ← ht]; exact seen) t ready
    exact inside.of_le s.skipTrivia_advances.length_rest_le
  | wrap kind body ih => exact ih reads s seen t ht
  | call goal => exact hcalls goal reads s seen
  | done | complain | yield | loop | nested => exact absurd reads (by simp [Rule.surelyReads])

/-- A goal that is seen to read does read. -/
theorem moved_of_surelyReads {grammar : Goal → Rule} (n : Nat) {goal : Goal} {k : Kind}
    (reads : surelyReads grammar n goal k = true) (allowance : Nat) (s : State)
    (seen : s.ahead = some k) : s.Moved (reach grammar limits allowance goal s) := by
  -- Induction on the number of calls that are looked through. An allowance that is used up cuts the
  -- parse off, which counts as moving.
  induction n generalizing goal allowance s with
  | zero => exact absurd reads (by simp [surelyReads])
  | succ n ih =>
    cases allowance with
    | zero => exact .inl rfl
    | succ allowance =>
      exact (grammar goal).moved_of_surelyReads (reach_advances grammar allowance)
        (fun g hg s hs => ih hg allowance s hs) reads s seen

/-! ## Loops that get on -/

/-- Whether a loop over `body` stops at the end of the text and reads a token at every turn. -/
def Test.guards (calls : Goal → Kind → Bool) (test : Test) (body : Rule) : Bool :=
  test.decided ⟨none, none⟩ == some false &&
    Kind.all.all fun k =>
      test.decided ⟨some k, none⟩ == some false || body.surelyReads calls k

/-- Whether it is seen from a rule that all its loops get on. -/
def Rule.progressive (calls : Goal → Kind → Bool) : Rule → Bool
  | .andThen first next => first.progressive calls && next.progressive calls
  | .branch _ yes no => yes.progressive calls && no.progressive calls
  | .loop test body => test.guards calls body && body.progressive calls
  | .insist body | .node _ body | .group body | .wrap _ body => body.progressive calls
  | _ => true

end PerlOutline.Grammar
