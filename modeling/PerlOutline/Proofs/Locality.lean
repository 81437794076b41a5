import PerlOutline.Proofs.Derivation
import PerlOutline.Proofs.Survey

/-!
# What stands around a text does not count

As long as a parse that reports nothing has a semicolon ahead, what comes after the semicolon does
not count, and what was parsed before never does. So two such parses, of texts that are the same
from where they are up to a semicolon, or up to the end of both, build the same trees.

## Layers
- **`Sequel`**: what may come later in two texts.
- **`Beside`**: parses that are at the same place of the same tokens, in texts that may differ
  before and after them.
- **Tests** that do not look past a semicolon.
- **Steps** of a parse, one lemma for each.
- **Rules and goals** keep parses beside each other.
-/

namespace PerlOutline.Grammar

open PerlOutline.Syntax (Kind Token Tree Problem ErrorCode SyntaxError)
open State (significant)

/-! ## Sequels -/

/-- What comes later in two texts: the same semicolon and anything after it, or nothing at all. -/
inductive Sequel : List Token → List Token → Prop where
  | semicolon {t : Token} (kind : t.kind = .semicolon) (xs ys : List Token) :
    Sequel (t :: xs) (t :: ys)
  | ended : Sequel [] []

namespace Sequel

variable {x y : List Token}

/-- What comes later in two texts comes later in them the other way round. -/
theorem symm (q : Sequel x y) : Sequel y x := by
  cases q with
  | semicolon kind xs ys => exact .semicolon kind ys xs
  | ended => exact .ended

/-- The same token comes first. -/
theorem head? (q : Sequel x y) : x.head? = y.head? := by
  cases q <;> rfl

/-- No trivia comes first. -/
theorem takeWhile_trivia (q : Sequel x y) (r : List Token) :
    (r ++ x).takeWhile (·.isTrivia) = r.takeWhile (·.isTrivia) := by
  have none : x.takeWhile (·.isTrivia) = [] := by
    cases q with
    | semicolon kind => simp [Token.isTrivia, kind, Kind.isTrivia]
    | ended => rfl
  rw [List.takeWhile_append, none]
  -- the sequel is seen only where all that comes before it is trivia
  split
  · next all =>
    rw [List.append_nil]
    exact ((List.takeWhile_prefix _).eq_of_length all).symm
  · rfl

/-- Trivia is skipped up to the sequel at most. -/
theorem significant_append (q : Sequel x y) (r : List Token) :
    significant (r ++ x) = significant r ++ x := by
  have trivia := q.takeWhile_trivia r
  have parts := List.takeWhile_append_dropWhile (p := (·.isTrivia)) (l := r ++ x)
  rw [trivia] at parts
  -- the trivia in front is the same with the sequel and without it, so what follows it is too
  conv at parts => rhs; rw [← List.takeWhile_append_dropWhile (p := (·.isTrivia)) (l := r)]
  rw [List.append_assoc] at parts
  exact List.append_cancel_left parts

end Sequel

/-- Where the offset stays, nothing was read, and the other way round. -/
theorem State.Advances.offset_eq_iff {s s' : State} (onward : s.Advances s') :
    s'.offset = s.offset ↔ s'.rest = s.rest := by
  constructor
  · -- a shorter rest would mean a greater offset
    intro still
    refine onward.rest.eq_of_length_le (Nat.not_lt.mp fun shorter => ?_)
    have := onward.offset_lt shorter
    omega
  · intro same
    refine Decidable.byContradiction fun moved => ?_
    have := onward.length_rest_lt moved
    rw [same] at this
    omega

/-! ## Parses beside each other -/

/-- Two parses are at the same place: what is left is the same up to `x` in one text and `y` in the
other, and what was built is the same on top of what was there before. The second one has reported
nothing and was not cut off. -/
structure Beside (before before' : List Tree) (x y : List Token) (s s' : State) : Prop where
  rest : ∃ r, s.rest = r ++ x ∧ s'.rest = r ++ y
  out : ∃ o, s.out = o ++ before ∧ s'.out = o ++ before'
  depth : s.depth = s'.depth
  last : s.last = s'.last
  errors : s'.errors = []
  starved : s'.starved = false

/-- A parse has reported nothing, was not cut off, and has not come into `x`, with which its text
ends. -/
structure Clear (x : List Token) (s : State) : Prop where
  starved : s.starved = false
  errors : s.errors = []
  ahead : x.length ≤ s.rest.length

namespace Clear

variable {x : List Token} {s t : State}

/-- What is clear at the end was clear before, since a parse takes back nothing. -/
theorem earlier (h : Clear x t) (onward : s.Advances t) : Clear x s where
  starved := onward.not_starved h.starved
  errors := by
    obtain ⟨new, told, -⟩ := onward.errors
    rw [h.errors] at told
    exact (List.append_eq_nil_iff.mp told.symm).2
  ahead := Nat.le_trans h.ahead onward.length_rest_le

/-- It has not reported anything. -/
theorem not_reported {e : SyntaxError} (h : Clear x t) {new old : List SyntaxError}
    (told : t.errors = new ++ e :: old) : False := by
  rw [h.errors] at told
  exact absurd (List.append_eq_nil_iff.mp told.symm).2 (List.cons_ne_nil _ _)

/-- Whether a parse is clear is seen from three of its fields. -/
theorem of_same (h : Clear x t) (starved : s.starved = t.starved) (errors : s.errors = t.errors)
    (rest : s.rest = t.rest) : Clear x s :=
  ⟨starved.trans h.starved, errors.trans h.errors, rest ▸ h.ahead⟩

/-- A parse that reports something is not clear. -/
theorem not_complain (problem : Problem) (code : ErrorCode) :
    ¬ Clear x (s.complain problem code) := by
  intro h
  have told : (s.complain problem code).errors = [] ++ ⟨problem, code, s.nextRange⟩ :: s.errors :=
    rfl
  exact h.not_reported told

/-- A parse that rejects something is not clear. -/
theorem not_reject (problem : Problem) (code : ErrorCode) : ¬ Clear x (s.reject problem code) := by
  intro h
  obtain ⟨new, told⟩ := State.opens_reject (s := s) problem code
  exact h.not_reported told

/-- Where no next token was rejected, there is none. -/
theorem next?_eq_none {code : ErrorCode} (h : Clear x (s.rejectNext code)) : s.next? = none := by
  cases seen : s.next? with
  | none => rfl
  | some u =>
    have ahead : s.ahead = some u.kind := by rw [State.ahead, seen]; rfl
    obtain ⟨new, told⟩ := State.opens_rejectNext ahead code
    exact (h.not_reported told).elim

end Clear

/-! ## Tests -/

/-- Whether a test asks for the token after the next one. -/
def Test.looksFar : Test → Bool
  | .second _ => true
  | .both a b | .either a b => a.looksFar || b.looksFar
  | .fails t => t.looksFar
  | _ => false

/-- Whether a test does not look past a semicolon. It may look past the next token if that is known
to be no semicolon, or if the answer at a semicolon does not depend on what follows. -/
def Test.nearsighted (apart : Bool) (t : Test) : Bool :=
  apart || !t.looksFar || (t.decided ⟨some .semicolon, none⟩).isSome

/-- Whether a test holds at no semicolon. -/
def Test.keepsApart (t : Test) : Bool :=
  t.decided ⟨some .semicolon, none⟩ == some false

namespace State

/-- The next token is no semicolon. -/
def Apart (s : State) : Prop :=
  s.ahead ≠ some .semicolon

/-- At a semicolon no more than the semicolon is shown. -/
theorem shows_semicolon {s : State} (h : s.ahead = some .semicolon) :
    s.Shows ⟨some .semicolon, none⟩ :=
  ⟨h, fun _ known => nomatch known⟩

/-- To open a scope does not change what comes next. -/
theorem Apart.opened {s : State} (h : s.Apart) : s.skipTrivia.opened.Apart :=
  fun seen => h (s.ahead_skipTrivia.symm.trans seen)

/-- Where a test holds that holds at no semicolon, there is none. -/
theorem apart_of_satisfies {s : State} {test : Test} (keeps : test.keepsApart = true)
    (holds : s.satisfies test = true) : s.Apart := by
  intro seen
  have fails := satisfies_of_decided (shows_semicolon seen) (beq_iff_eq.mp keeps)
  rw [fails] at holds
  exact absurd holds (by decide)

end State

namespace Beside

variable {before before' : List Tree} {x y : List Token} {s s' : State} {limits : Limits}

section Tests

variable (q : Sequel x y)
include q

/-- The next token is the same. -/
theorem next? (h : Beside before before' x y s s') : s.next? = s'.next? := by
  obtain ⟨r, here, there⟩ := h.rest
  rw [State.next?, State.next?, here, there, q.significant_append, q.symm.significant_append,
    List.head?_append, List.head?_append, q.head?]

/-- The kind of the next token is the same. -/
theorem ahead (h : Beside before before' x y s s') : s.ahead = s'.ahead := by
  rw [State.ahead, State.ahead, h.next? q]

/-- The token after the next one is the same, unless the next one is the semicolon. -/
theorem second? (h : Beside before before' x y s s') (apart : s.Apart) :
    s.second? = s'.second? := by
  obtain ⟨r, here, there⟩ := h.rest
  simp only [State.second?, here, there, q.significant_append, q.symm.significant_append]
  -- the next token is before the sequel, or it is the first of the sequel
  cases first : significant r with
  | cons t ts =>
    simp only [List.cons_append, List.tail_cons, q.significant_append, q.symm.significant_append,
      List.head?_append, q.head?]
  | nil =>
    -- at the end of both texts there is no second token, and a semicolon was excluded
    cases q with
    | ended => rfl
    | semicolon kind xs ys =>
      refine absurd ?_ apart
      simp [State.ahead, State.next?, here, Sequel.significant_append (.semicolon kind xs ys),
        first, kind]

/-- Whether trivia comes first is the same. -/
theorem adjacent (h : Beside before before' x y s s') :
    s.satisfies .adjacent = s'.satisfies .adjacent := by
  obtain ⟨r, here, there⟩ := h.rest
  simp only [State.satisfies, here, there, List.head?_append, q.head?]

/-- A test answers alike where the token after the next one is the same, if the test asks for it. -/
theorem satisfies_of_second? (h : Beside before before' x y s s') {test : Test}
    (same : test.looksFar = true → s.second? = s'.second?) :
    s.satisfies test = s'.satisfies test := by
  induction test with
  | next | word | atEnd => simp only [State.satisfies, h.next? q]
  | second => simp only [State.satisfies, same rfl]
  | adjacent => exact h.adjacent q
  | parsed | parsedAs => simp only [State.satisfies, h.last]
  | both a b iha ihb | either a b iha ihb =>
    simp only [Test.looksFar, Bool.or_eq_true] at same
    simp only [State.satisfies, iha fun far => same (.inl far), ihb fun far => same (.inr far)]
  | fails t ih => simp only [State.satisfies, ih same]

/-- A test that does not look past a semicolon answers alike. -/
theorem satisfies (h : Beside before before' x y s s') {test : Test} {apart : Bool}
    (near : test.nearsighted apart = true) (known : apart = true → s.Apart) :
    s.satisfies test = s'.satisfies test := by
  by_cases seen : s.ahead = some .semicolon
  · -- At a semicolon the answer is known, or the test does not look further.
    simp only [Test.nearsighted, Bool.or_eq_true, Bool.not_eq_true'] at near
    rcases near with (apart | short) | decided
    · exact absurd seen (known apart)
    · exact h.satisfies_of_second? q fun far => absurd far (by simp [short])
    · obtain ⟨b, answer⟩ := Option.isSome_iff_exists.mp decided
      rw [State.satisfies_of_decided (State.shows_semicolon seen) answer,
        State.satisfies_of_decided (State.shows_semicolon ((h.ahead q).symm.trans seen)) answer]
  · -- elsewhere the token after the next one is the same as well
    exact h.satisfies_of_second? q fun _ => h.second? q seen

/-! ## Steps -/

/-- The same amount of trivia comes first. -/
theorem triviaAhead (h : Beside before before' x y s s') : s.triviaAhead = s'.triviaAhead := by
  obtain ⟨r, here, there⟩ := h.rest
  rw [State.triviaAhead, State.triviaAhead, here, there, q.takeWhile_trivia,
    q.symm.takeWhile_trivia]

omit q in
/-- Reading as many tokens of those that are the same. -/
theorem consume_of_le (h : Beside before before' x y s s') {r : List Token}
    (here : s.rest = r ++ x) (there : s'.rest = r ++ y) {n : Nat}
    (short : n ≤ r.length ∨ x = [] ∧ y = []) :
    Beside before before' x y (s.consume n) (s'.consume n) := by
  obtain ⟨o, built, built'⟩ := h.out
  -- what is read is before the sequel, or the sequel is nothing
  have parts (z : List Token) (short : n ≤ r.length ∨ z = []) :
      (r ++ z).drop n = r.drop n ++ z ∧ (r ++ z).take n = r.take n := by
    rcases short with short | rfl
    · exact ⟨List.drop_append_of_le_length short, List.take_append_of_le_length short⟩
    · simp
  obtain ⟨dropped, taken⟩ := parts x (short.imp_right And.left)
  obtain ⟨dropped', taken'⟩ := parts y (short.imp_right And.right)
  exact {
    rest := ⟨r.drop n, by rw [State.rest_consume, here, dropped],
      by rw [State.rest_consume, there, dropped']⟩
    out := ⟨((r.take n).map Tree.token).reverse ++ o,
      by rw [State.out_consume, here, taken, built, List.append_assoc],
      by rw [State.out_consume, there, taken', built', List.append_assoc]⟩
    depth := by rw [(s.consume_advances n).depth, (s'.consume_advances n).depth, h.depth]
    last := by rw [State.consume_frame, s'.consume_frame]; exact h.last
    errors := (State.errors_consume s' n).trans h.errors
    starved := (State.starved_consume s' n).trans h.starved }

/-- Reading as many tokens, up to the sequel at most. -/
theorem consume (h : Beside before before' x y s s') (n : Nat)
    (ahead : x.length ≤ (s.consume n).rest.length) :
    Beside before before' x y (s.consume n) (s'.consume n) := by
  obtain ⟨r, here, there⟩ := h.rest
  refine h.consume_of_le here there ?_
  -- Either the sequel is not reached, or it is the end of both texts.
  rw [State.rest_consume, here, List.length_drop, List.length_append] at ahead
  cases q with
  | semicolon kind xs ys => rw [List.length_cons] at ahead; omega
  | ended => exact .inr ⟨rfl, rfl⟩

/-- Skipping trivia does not come to the sequel. -/
theorem skipTrivia (h : Beside before before' x y s s') :
    Beside before before' x y s.skipTrivia s'.skipTrivia := by
  rw [State.skipTrivia, State.skipTrivia, ← h.triviaAhead q]
  refine h.consume q _ ?_
  obtain ⟨r, here, -⟩ := h.rest
  rw [State.rest_consume, State.drop_triviaAhead, here, q.significant_append, List.length_append]
  exact Nat.le_add_left _ _

/-- Taking a token keeps parses beside each other, where it is before the sequel. -/
theorem take (h : Beside before before' x y s s') (clear : Clear x s.take) :
    Beside before before' x y s.take s'.take := by
  rw [State.take, State.take, ← h.triviaAhead q]
  exact h.consume q _ clear.ahead

/-- Opening a scope hides what was built before. -/
theorem opened (h : Beside before before' x y s s') :
    Beside [] [] x y s.skipTrivia.opened s'.skipTrivia.opened :=
  { h.skipTrivia q with out := ⟨[], rfl, rfl⟩ }

end Tests

/-- What was parsed last is noted in both. -/
theorem recorded (h : Beside before before' x y s s') (last : Option Kind) :
    Beside before before' x y { s with last := last } { s' with last := last } :=
  { h with last := rfl }

/-- A scope becomes a node of the scope around it. -/
theorem closed (h : Beside [] [] x y s s') (kind : Kind) {outer outer' : List Tree}
    (outside : ∃ o, outer = o ++ before ∧ outer' = o ++ before') :
    Beside before before' x y (s.closed kind outer) (s'.closed kind outer') := by
  obtain ⟨o, built, built'⟩ := h.out
  obtain ⟨p, around, around'⟩ := outside
  refine { h with out := ⟨.node kind o.reverse :: p, ?_, ?_⟩, last := rfl }
  · simp [State.closed, built, around]
  · simp [State.closed, built', around']

/-- A scope leaves what it holds to the scope around it. -/
theorem merged (h : Beside [] [] x y s s') {outer outer' : List Tree}
    (outside : ∃ o, outer = o ++ before ∧ outer' = o ++ before') :
    Beside before before' x y (s.merged outer) (s'.merged outer') := by
  obtain ⟨o, built, built'⟩ := h.out
  obtain ⟨p, around, around'⟩ := outside
  refine { h with out := ⟨o ++ p, ?_, ?_⟩ }
  · simp [State.merged, built, around]
  · simp [State.merged, built', around']

/-- A nesting level is entered in both. -/
theorem entered (h : Beside before before' x y s s') :
    Beside before before' x y s.entered s'.entered :=
  { h with depth := congrArg (· + 1) h.depth }

/-- Something was read in both parses or in none. -/
theorem offset_eq_iff {t t' : State} (h : Beside before before' x y s s')
    (later : Beside before before' x y t t') (onward : s.Advances t) (onward' : s'.Advances t') :
    t.offset = s.offset ↔ t'.offset = s'.offset := by
  -- what was left before and what is left later end with the same sequel in each text
  obtain ⟨r, here, there⟩ := h.rest
  obtain ⟨u, here', there'⟩ := later.rest
  rw [onward.offset_eq_iff, onward'.offset_eq_iff, here, there, here', there',
    List.append_left_inj, List.append_left_inj]

/-- A token that is rejected would be reported, so there is none in either text. -/
theorem rejectNext (q : Sequel x y) (h : Beside before before' x y s s') {code : ErrorCode}
    {z : List Token} (clear : Clear z (s.rejectNext code)) :
    Beside before before' x y (s.rejectNext code) (s'.rejectNext code) := by
  simp only [State.rejectNext, ← h.next? q, clear.next?_eq_none]
  exact h

/-- Insisting does nothing more where something was read, in both parses. -/
theorem insisted (q : Sequel x y) (h : Beside before before' x y s s') {start start' : Nat}
    (same : s.offset = start ↔ s'.offset = start') (clear : Clear x (s.insisted start)) :
    Beside before before' x y (s.insisted start) (s'.insisted start') := by
  unfold State.insisted at clear ⊢
  simp only [same] at clear ⊢
  split
  · -- nothing was read, so the next token would be rejected
    next still =>
    rw [if_pos still] at clear
    have quiet : Clear x (s.rejectNext .e0901) := clear.of_same rfl rfl rfl
    exact (h.rejectNext q quiet).recorded none
  · exact h.recorded none

/-- A goal that is given up without a report ends an expression in both. -/
theorem giveUp (q : Sequel x y) (h : Beside before before' x y s s') (limit : Nat) (goal : Goal)
    (clear : Clear x (s.giveUp limit goal)) :
    Beside before before' x y (s.giveUp limit goal) (s'.giveUp limit goal) := by
  have near : Test.endsExpression.nearsighted false = true := by decide
  unfold State.giveUp at clear ⊢
  rw [← h.satisfies q near nofun]
  split
  · -- the expression ends here, and nothing is reported
    exact { h with last := rfl }
  · next goesOn =>
    rw [if_neg goesOn] at clear
    have told : (s.abandonGroup limit).errors =
        [] ++ ⟨.tooDeep limit, .e0205, s.nextRange⟩ :: s.errors := by
      rw [State.abandonGroup, State.setAside_frame]
      rfl
    exact (clear.not_reported told).elim

end Beside

/-! ## Rules and goals -/

/-- The goals whose rules look past the next token at once. They are called where it is known to be
no semicolon. -/
def Goal.looksFar : Goal → Bool
  | .wordOrCall => true
  | _ => false

/-- Whether it is seen from a rule that it does not look past a semicolon. `apart` says whether the
next token is known to be none, and `own` whether the open scope belongs to the rule. -/
def Rule.nearsighted (own apart : Bool) : Rule → Bool
  | .andThen first next => first.nearsighted own apart && next.nearsighted own false
  | .branch test yes no =>
    test.nearsighted apart && yes.nearsighted own (apart || test.keepsApart) &&
      no.nearsighted own apart
  | .loop test body => test.nearsighted false && body.nearsighted own test.keepsApart
  | .insist body => body.nearsighted own apart
  | .node _ body | .group body => body.nearsighted true apart
  | .wrap _ body => own && body.nearsighted true apart
  | .call goal | .nested goal => apart || !goal.looksFar
  | _ => true

/-- No rule of the grammar looks past a semicolon, which is decided rule by rule. -/
theorem nearsighted_grammar (goal : Goal) :
    (grammar goal).nearsighted false goal.looksFar = true := by
  revert goal
  decide +kernel

variable {limits : Limits} {x y : List Token}

/-- A step keeps parses beside each other, where the first one stays clear of the sequel. -/
def StaysBeside (x y : List Token) (apart : Bool) (f : State → State) : Prop :=
  ∀ before before' s s', Beside before before' x y s s' → (apart = true → s.Apart) →
    Clear x (f s) → Beside before before' x y (f s) (f s')

/-- A loop makes the same turns in both parses. -/
theorem State.repeatWhile_beside (q : Sequel x y) {before before' : List Tree} {test : Test}
    {body : State → State} (near : test.nearsighted false = true)
    (hadvances : ∀ s : State, s.Advances (body s))
    (hbody : ∀ s s', Beside before before' x y s s' → (test.keepsApart = true → s.Apart) →
      Clear x (body s) → Beside before before' x y (body s) (body s'))
    (turns : Nat) {s s' : State} (h : Beside before before' x y s s')
    (clear : Clear x (State.repeatWhile (·.satisfies test) body turns s)) :
    Beside before before' x y (State.repeatWhile (·.satisfies test) body turns s)
      (State.repeatWhile (·.satisfies test) body turns s') := by
  -- The test answers alike in both parses, so they make the same turns.
  have alike {s s' : State} (h : Beside before before' x y s s') :
      s.satisfies test = s'.satisfies test :=
    h.satisfies q near fun apart => Bool.noConfusion apart
  induction turns generalizing s s' with
  | zero =>
    simp only [State.repeatWhile, ← alike h] at clear ⊢
    -- with no turn left the first parse would be cut off
    split
    · next holds =>
      rw [if_pos holds] at clear
      exact absurd clear.starved (fun same => Bool.noConfusion same)
    · exact h
  | succ turns ih =>
    simp only [State.repeatWhile, ← alike h] at clear ⊢
    split
    · next holds =>
      rw [if_pos holds] at clear
      have onward : (body s).Advances (State.repeatWhile (·.satisfies test) body turns (body s)) :=
        (State.Advances.kept ⟨0, 0⟩).repeatWhile hadvances turns (body s)
      have apart (keeps : test.keepsApart = true) : s.Apart := State.apart_of_satisfies keeps holds
      exact ih (hbody s s' h apart (clear.earlier onward)) clear
    · exact h

/-- A rule that does not look past a semicolon keeps parses beside each other where the goals that
it reaches do. -/
theorem Rule.follow_beside (q : Sequel x y) {reach : Goal → State → State}
    (hadvances : ∀ goal (s : State), s.Advances (reach goal s))
    (hreach : ∀ goal, StaysBeside x y goal.looksFar (reach goal)) (rule : Rule) (own apart : Bool)
    (near : rule.nearsighted own apart = true) {before before' : List Tree}
    (scope : own = true → before = [] ∧ before' = []) {s s' : State}
    (h : Beside before before' x y s s') (known : apart = true → s.Apart)
    (clear : Clear x (rule.follow limits reach s)) :
    Beside before before' x y (rule.follow limits reach s) (rule.follow limits reach s') := by
  -- Induction on the rule. The first parse stays clear of the sequel in each part of the rule, and
  -- a part that reports something is excluded.
  induction rule generalizing own apart before before' s s' with
  | done => exact h
  | andThen first next ihFirst ihNext =>
    obtain ⟨nearFirst, nearNext⟩ := Bool.and_eq_true_iff.mp near
    have onward : (first.follow limits reach s).Advances
        (next.follow limits reach (first.follow limits reach s)) :=
      next.follow_advances hadvances _
    have middle := ihFirst own apart nearFirst scope h known (clear.earlier onward)
    exact ihNext own false nearNext scope middle nofun clear
  | take => exact h.take q clear
  | complain problem code => exact (clear.not_complain problem code).elim
  | reject problem code => exact (clear.not_reject problem code).elim
  | rejectNext code => exact h.rejectNext q clear
  | yield parsed => exact h.recorded parsed
  | branch test yes no ihYes ihNo =>
    obtain ⟨nearTest, nearNo⟩ := Bool.and_eq_true_iff.mp near
    obtain ⟨nearTest, nearYes⟩ := Bool.and_eq_true_iff.mp nearTest
    simp only [Rule.follow, ← h.satisfies q nearTest known] at clear ⊢
    split
    · next holds =>
      rw [if_pos holds] at clear
      -- the test may have told that the next token is no semicolon
      refine ihYes own _ nearYes scope h (fun apart => ?_) clear
      rcases Bool.or_eq_true_iff.mp apart with before | now
      · exact known before
      · exact State.apart_of_satisfies now holds
    · next fails =>
      rw [if_neg fails] at clear
      exact ihNo own apart nearNo scope h known clear
  | loop test body ih =>
    obtain ⟨nearTest, nearBody⟩ := Bool.and_eq_true_iff.mp near
    exact State.repeatWhile_beside q nearTest (body.follow_advances hadvances)
      (fun s s' h known clear => ih own _ nearBody scope h known clear) limits.maxTurns h clear
  | insist body ih =>
    have onward (s : State) : (body.follow limits reach s).Advances
        ((body.follow limits reach s).insisted s.offset) :=
      (State.Advances.kept limits).insisted trivial _ _
    -- something was read in both, or in none
    have later := ih own apart near scope h known (clear.earlier (onward s))
    exact later.insisted q (h.offset_eq_iff later (body.follow_advances hadvances s)
      (body.follow_advances hadvances s')) clear
  | node kind body ih =>
    have inside := ih true apart near (fun _ => ⟨rfl, rfl⟩) (h.opened q)
      (fun apart => (known apart).opened) (clear.of_same rfl rfl rfl)
    exact inside.closed kind (h.skipTrivia q).out
  | group body ih =>
    have inside := ih true apart near (fun _ => ⟨rfl, rfl⟩) (h.opened q)
      (fun apart => (known apart).opened) (clear.of_same rfl rfl rfl)
    exact inside.merged (h.skipTrivia q).out
  | wrap kind body ih =>
    obtain ⟨isOwn, near⟩ := Bool.and_eq_true_iff.mp near
    -- the scope is the own one of the rule, so nothing was in it before
    obtain ⟨rfl, rfl⟩ := scope isOwn
    have inside := ih true apart near (fun _ => ⟨rfl, rfl⟩) h known (clear.of_same rfl rfl rfl)
    exact inside.closed kind ⟨[], rfl, rfl⟩
  | call goal =>
    refine hreach goal before before' s s' h (fun far => known ?_) clear
    simpa [Rule.nearsighted, far] using near
  | nested goal =>
    simp only [Rule.follow, State.deeper, ← h.depth] at clear ⊢
    split
    · next room =>
      rw [if_pos room] at clear
      have entered : goal.looksFar = true → s.entered.Apart := fun far =>
        known (by simpa [Rule.nearsighted, far] using near)
      have inside := hreach goal before before' s.entered s'.entered h.entered entered
        (clear.of_same rfl rfl rfl)
      -- the level is left in both
      exact { inside with depth := rfl }
    · next full =>
      rw [if_neg full] at clear
      exact h.giveUp q limits.maxDepth goal clear

/-- Goals keep parses beside each other. -/
theorem reach_beside (q : Sequel x y) (allowance : Nat) (goal : Goal) :
    StaysBeside x y goal.looksFar (reach grammar limits allowance goal) := by
  induction allowance generalizing goal with
  | zero => exact fun _ _ _ _ _ _ clear => absurd clear.starved (fun same => Bool.noConfusion same)
  | succ allowance ih =>
    intro before before' s s' h known clear
    exact (grammar goal).follow_beside q (reach_advances grammar allowance) ih false goal.looksFar
      (nearsighted_grammar goal) nofun h known clear

end PerlOutline.Grammar
