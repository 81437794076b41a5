import PerlOutline.Proofs.Progress

/-!
# What a rule does first

Before a rule reads the next token or reports something about it, nothing changes that a test could
see. So what a rule does first can be read off the rule, from the kind of the next token and from
whether an expression was just parsed.

## Layers
- **`Opening`**: what a rule may do first, and what that means for the states around it.
- **Steps** at the next token.
- **Openings of rules**, where those of goals are given.
- **Openings of goals**, looking through a number of calls.
-/

namespace PerlOutline.Grammar

open PerlOutline.Source (Range byteWidth byteWidth_append)
open PerlOutline.Syntax (Kind Token Tree Problem ErrorCode SyntaxError)

/-! ## Openings -/

/-- What a rule does first. -/
inductive Opening where
  /-- It reads the next token. -/
  | read
  /-- It reports a problem at the next token. -/
  | report (problem : Problem) (code : ErrorCode)
  /-- It ends without either. Whether an expression is then parsed may be known. -/
  | pass (parsed : Option Bool)
  /-- That is not seen. -/
  | lost
  deriving DecidableEq, Repr

namespace State

/-- Time went by: the later state has read as much or more, and what it reported since is about
tokens that the earlier one had not read. Scopes and nesting levels may have been left. -/
structure Later (s s' : State) : Prop where
  offset : s.offset ≤ s'.offset
  errors : ∃ new, s'.errors = new ++ s.errors ∧ ∀ e ∈ new, s.offset ≤ e.range.start
  hushed : s.hushed <:+ s'.hushed
  starved : s.starved = true → s'.starved = true

/-- To advance is to let time go by, in the same scope and on the same level. -/
theorem Advances.later {s s' : State} (h : s.Advances s') : s.Later s' :=
  ⟨h.offset_le, h.errors, h.hushed, h.starved⟩

theorem Later.trans {a b c : State} (ab : a.Later b) (bc : b.Later c) : a.Later c where
  offset := Nat.le_trans ab.offset bc.offset
  errors := errors_trans ab.offset ab.errors bc.errors
  hushed := ab.hushed.trans bc.hushed
  starved h := bc.starved (ab.starved h)

/-- Where all that counts is the same, no time went by. -/
theorem later_of_same {s s' : State} (offset : s'.offset = s.offset)
    (errors : s'.errors = s.errors) (hushed : s'.hushed = s.hushed)
    (starved : s'.starved = s.starved) : s.Later s' where
  offset := Nat.le_of_eq offset.symm
  errors := ⟨[], errors, fun _ h => nomatch h⟩
  hushed := hushed ▸ List.suffix_refl _
  starved := starved.trans

/-- What an opening means for the state before a rule and the state after it. -/
def Opens (s : State) : Opening → State → Prop
  | .read, s' =>
    s.nextRange.start < s'.offset ∧
      ∃ new, s'.errors = new ++ s.errors ∧ ∀ e ∈ new, s.nextRange.start < e.range.start
  | .report problem code, s' =>
    ∃ new, s'.errors = new ++ ⟨problem, code, s.nextRange⟩ :: s.errors
  | .pass parsed, s' =>
    s'.errors = s.errors ∧ s'.nextRange = s.nextRange ∧ s'.Shows ⟨s.ahead, parsed⟩
  | .lost, _ => True

/-- One of the openings is what happened, or the parse was cut off. -/
def OpensBy (s : State) (os : List Opening) (s' : State) : Prop :=
  s'.starved = true ∨ ∃ o ∈ os, s.Opens o s'

variable {s s' s'' : State}

/-- An opening that happened is enough for any list that has it. -/
theorem OpensBy.of_mem {os : List Opening} {o : Opening} (member : o ∈ os) (h : s.Opens o s') :
    s.OpensBy os s' :=
  .inr ⟨o, member, h⟩

/-- An opening that happened is enough. -/
theorem OpensBy.of_opens {o : Opening} (h : s.Opens o s') : s.OpensBy [o] s' :=
  .of_mem (List.mem_singleton_self o) h

/-- What happened is listed in a longer list, too. -/
theorem OpensBy.mono {os ps : List Opening} (h : s.OpensBy os s') (sub : ∀ o ∈ os, o ∈ ps) :
    s.OpensBy ps s' := by
  rcases h with cut | ⟨o, member, opened⟩
  · exact .inl cut
  · exact .of_mem (sub o member) opened

/-- What was read or reported first does not change later. -/
theorem Opens.later {o : Opening} (h : s.Opens o s') (final : ∀ parsed, o ≠ .pass parsed)
    (later : s'.Later s'') : s.Opens o s'' := by
  obtain ⟨added, hadded, ahead⟩ := later.errors
  cases o with
  | read =>
    -- The offset is past the next token already, so later reports are about tokens behind it.
    obtain ⟨behind, new, hnew, further⟩ := h
    refine ⟨Nat.lt_of_lt_of_le behind later.offset, added ++ new, ?_, ?_⟩
    · rw [hadded, hnew, List.append_assoc]
    · intro e he
      rcases List.mem_append.mp he with late | early
      · exact Nat.lt_of_lt_of_le behind (ahead e late)
      · exact further e early
  | report problem code =>
    -- Reports are added on top, so the first one stays where it is.
    obtain ⟨new, hnew⟩ := h
    exact ⟨added ++ new, by rw [hadded, hnew, List.append_assoc]⟩
  | pass parsed => exact absurd rfl (final parsed)
  | lost => trivial

/-- An opening is about what is reported and about the next token only. -/
theorem Opens.start_from {o : Opening} (h : s'.Opens o s'') (errors : s'.errors = s.errors)
    (range : s'.nextRange = s.nextRange) (ahead : s'.ahead = s.ahead) : s.Opens o s'' := by
  cases o with
  | read => rwa [Opens, errors, range] at h
  | report problem code => rwa [Opens, errors, range] at h
  | pass parsed => rwa [Opens, errors, range, ahead] at h
  | lost => trivial

/-- Where nothing has happened yet, what happens next happens first. -/
theorem Opens.of_pass {parsed : Option Bool} (passed : s.Opens (.pass parsed) s') {o : Opening}
    (h : s'.Opens o s'') : s.Opens o s'' :=
  h.start_from passed.1 passed.2.1 passed.2.2.1

/-! ## Steps at the next token -/

/-- Reading moves the offset by the width of what is read. -/
theorem offset_consume (s : State) (n : Nat) :
    (s.consume n).offset = s.offset + byteWidth (Token.spell (s.rest.take n)) := by
  induction n generalizing s with
  | zero => simp [consume]
  | succ n ih =>
    rw [consume, ih, rest_advance]
    cases hrest : s.rest with
    | nil => simp [advance, hrest]
    | cons t ts => simp [advance, hrest, Token.width, Nat.add_assoc]

/-- As much as is ahead of trivia is the trivia. -/
theorem take_triviaAhead (s : State) :
    s.rest.take s.triviaAhead = s.rest.takeWhile (·.isTrivia) := by
  have parts : s.rest = s.rest.takeWhile (·.isTrivia) ++ significant s.rest :=
    List.takeWhile_append_dropWhile.symm
  calc s.rest.take s.triviaAhead
      = (s.rest.takeWhile (·.isTrivia) ++ significant s.rest).take s.triviaAhead := by rw [← parts]
    _ = s.rest.takeWhile (·.isTrivia) := List.take_left

/-- The next token begins behind the trivia ahead. -/
theorem nextRange_start (s : State) :
    s.nextRange.start = s.offset + byteWidth (Token.spell (s.rest.takeWhile (·.isTrivia))) := by
  unfold nextRange
  cases s.next? <;> rfl

/-- Behind the trivia ahead the next token begins. -/
theorem offset_skipTrivia (s : State) : s.skipTrivia.offset = s.nextRange.start := by
  rw [skipTrivia, offset_consume, take_triviaAhead, nextRange_start]

/-- Where no trivia is ahead, none comes first. -/
theorem takeWhile_significant (ts : List Token) :
    (significant ts).takeWhile (·.isTrivia) = [] := by
  induction ts with
  | nil => rfl
  | cons t ts ih =>
    simp only [significant] at ih ⊢
    cases ht : t.isTrivia with
    | true => simpa [List.dropWhile_cons, ht] using ih
    | false => simp [ht]

/-- Trivia before the next token does not move it. -/
theorem nextRange_skipTrivia (s : State) : s.skipTrivia.nextRange = s.nextRange := by
  have start : s.skipTrivia.offset +
      byteWidth (Token.spell (s.skipTrivia.rest.takeWhile (·.isTrivia))) =
        s.offset + byteWidth (Token.spell (s.rest.takeWhile (·.isTrivia))) := by
    rw [rest_skipTrivia, takeWhile_significant, skipTrivia, offset_consume, take_triviaAhead]
    simp
  unfold nextRange
  rw [start, next?_skipTrivia]

/-- The last of some tokens can be read after the others. -/
theorem consume_succ (s : State) (n : Nat) : s.consume (n + 1) = (s.consume n).advance := by
  induction n generalizing s with
  | zero => rfl
  | succ n ih => exact ih s.advance

/-- To take a token is to read it behind the trivia. -/
theorem take_eq (s : State) : s.take = s.skipTrivia.advance :=
  s.consume_succ s.triviaAhead

/-- Taking the next token goes past where it begins. -/
theorem nextRange_start_lt_take {k : Kind} (seen : s.ahead = some k) :
    s.nextRange.start < s.take.offset := by
  obtain ⟨t, ht, -⟩ := Option.map_eq_some_iff.mp seen
  -- The trivia ahead is read first, and then the token itself, which has a width.
  have first : ∃ ts, s.skipTrivia.rest = t :: ts := by
    rw [rest_skipTrivia]
    exact List.head?_eq_some_iff.mp ht
  obtain ⟨ts, hts⟩ := first
  have width := t.width_pos
  rw [take_eq, ← offset_skipTrivia]
  simp only [advance, hts]
  omega

/-- To take a token is to read first. -/
theorem opens_take {k : Kind} (seen : s.ahead = some k) : s.Opens .read s.take := by
  refine ⟨nextRange_start_lt_take seen, [], ?_, fun _ h => nomatch h⟩
  rw [take, consume_frame]
  rfl

/-- To complain is to report first. -/
theorem opens_complain (problem : Problem) (code : ErrorCode) :
    s.Opens (.report problem code) (s.complain problem code) :=
  ⟨[], rfl⟩

/-- To reject is to report first, whatever is set aside then. -/
theorem opens_reject (problem : Problem) (code : ErrorCode) :
    s.Opens (.report problem code) (s.reject problem code) := by
  unfold reject
  split
  · exact opens_complain problem code
  · refine ⟨[], ?_⟩
    rw [setAside_frame]
    rfl

/-- To reject the next token is to report it as unexpected. -/
theorem opens_rejectNext {k : Kind} (seen : s.ahead = some k) (code : ErrorCode) :
    s.Opens (.report (.unexpected k) code) (s.rejectNext code) := by
  obtain ⟨t, ht, rfl⟩ := Option.map_eq_some_iff.mp seen
  simp only [rejectNext, ht]
  exact opens_reject _ code

/-- At the end no token is rejected. -/
theorem rejectNext_of_ended (ended : s.ahead = none) (code : ErrorCode) :
    s.rejectNext code = s := by
  simp only [rejectNext, Option.map_eq_none_iff.mp ended]

end State

/-! ## Openings of rules -/

/-- What follows where nothing was done yet. -/
def Opening.andThen (next : Option Bool → List Opening) : Opening → List Opening
  | .pass parsed => next parsed
  | o => [o]

/-- The opening of a rule that ends with an expression, whatever was parsed inside. -/
def Opening.closed : Opening → Opening
  | .pass _ => .pass (some true)
  | o => o

/-- Whether the opening leaves the next token to what follows. -/
def Opening.passes : Opening → Bool
  | .pass _ => true
  | _ => false

/-- What a loop may do first, where `turn` is what a turn may do first. After a turn that passes it
is not known whether an expression was parsed. -/
def Opening.ofLoop (goesOn : Option Bool) (parsed : Option Bool) (turn : List Opening) :
    List Opening :=
  if goesOn = some false then [.pass parsed]
  else
    turn.filter (!·.passes) ++
      if goesOn = some true && !turn.any Opening.passes then [] else [.pass none]

/-- What a rule may do first where the kind of the next token is `ahead`. What goals do is given,
for those on the same nesting level and for those that may lie one deeper. -/
def Rule.openings (calls nests : Goal → Option Bool → List Opening) (ahead : Option Kind) :
    Rule → Option Bool → List Opening
  | .done, parsed => [.pass parsed]
  | .andThen first next, parsed =>
    (first.openings calls nests ahead parsed).flatMap <|
      Opening.andThen (next.openings calls nests ahead)
  | .take, _ => if ahead.isSome then [.read] else [.lost]
  | .complain problem code, _ | .reject problem code, _ => [.report problem code]
  | .rejectNext code, parsed =>
    match ahead with
    | some k => [.report (.unexpected k) code]
    | none => [.pass parsed]
  | .yield parsed, _ => [.pass (some parsed.isSome)]
  | .branch test yes no, parsed =>
    match test.decided ⟨ahead, parsed⟩ with
    | some true => yes.openings calls nests ahead parsed
    | some false => no.openings calls nests ahead parsed
    | none => yes.openings calls nests ahead parsed ++ no.openings calls nests ahead parsed
  | .loop test body, parsed =>
    Opening.ofLoop (test.decided ⟨ahead, parsed⟩) parsed (body.openings calls nests ahead none)
  | .insist body, parsed =>
    (body.openings calls nests ahead parsed).flatMap <| Opening.andThen fun _ =>
      (ahead.map fun k => .report (.unexpected k) .e0901).toList ++ [.pass (some false)]
  | .node _ body, parsed | .wrap _ body, parsed =>
    (body.openings calls nests ahead parsed).map Opening.closed
  | .group body, parsed => body.openings calls nests ahead parsed
  | .call goal, parsed => calls goal parsed
  | .nested goal, parsed => nests goal parsed

namespace State

variable {s s' s'' : State} {ahead : Option Kind} {parsed : Option Bool}

/-- What happens first in one step after another is what happens first in the first, or else in the
second. -/
theorem OpensBy.andThen {os : List Opening} {next : Option Bool → List Opening}
    (first : s.OpensBy os s') (later : s'.Later s'')
    (hnext : ∀ p, s'.Shows ⟨s.ahead, p⟩ → s'.OpensBy (next p) s'') :
    s.OpensBy (os.flatMap (Opening.andThen next)) s'' := by
  rcases first with starved | ⟨o, member, opened⟩
  · exact .inl (later.starved starved)
  · have stays (final : ∀ p, o ≠ .pass p) (same : Opening.andThen next o = [o]) :
        s.OpensBy (os.flatMap (Opening.andThen next)) s'' := by
      refine .of_mem (List.mem_flatMap.mpr ⟨o, member, ?_⟩) (opened.later final later)
      rw [same]
      exact List.mem_singleton_self o
    -- An opening that is final stays what it is; one that passes leaves the first move to the rest.
    cases o with
    | pass p =>
      rcases hnext p opened.2.2 with starved | ⟨o', member', opened'⟩
      · exact .inl starved
      · exact .of_mem (List.mem_flatMap.mpr ⟨_, member, member'⟩) (opened.of_pass opened')
    | read => exact stays (by simp) rfl
    | report problem code => exact stays (by simp) rfl
    | lost => exact stays (by simp) rfl

/-- Leaving a scope or a nesting level changes nothing that was read or reported. -/
theorem OpensBy.leave {os : List Opening} (h : s.OpensBy os s') {s'' : State}
    (errors : s''.errors = s'.errors) (rest : s''.rest = s'.rest)
    (offset : s''.offset = s'.offset) (starved : s''.starved = s'.starved)
    (last : s''.last = s'.last) : s.OpensBy os s'' := by
  apply h.imp (starved.trans ·)
  rintro ⟨o, member, opened⟩
  refine ⟨o, member, ?_⟩
  cases o with
  | read => rwa [Opens, errors, offset]
  | report problem code => rwa [Opens, errors]
  | pass p =>
    obtain ⟨old, range, same, known⟩ := opened
    refine ⟨errors.trans old, ?_, ?_, ?_⟩
    · rw [← range]
      simp only [nextRange, next?, rest, offset]
    · rw [← same]
      simp only [State.ahead, next?, rest]
    · rw [last]
      exact known
  | lost => trivial

/-- A scope that is closed as a node leaves an expression. -/
theorem OpensBy.close {os : List Opening} (h : s.OpensBy os s') (kind : Kind)
    (outer : List Tree) : s.OpensBy (os.map Opening.closed) (s'.closed kind outer) := by
  apply h.imp id
  rintro ⟨o, member, opened⟩
  refine ⟨o.closed, List.mem_map_of_mem member, ?_⟩
  cases o with
  | pass p =>
    obtain ⟨old, range, same, _⟩ := opened
    exact ⟨old, range, same, fun b known => Option.some.inj known⟩
  | read => exact opened
  | report problem code => exact opened
  | lost => trivial

/-- Trivia hides no token. -/
theorem ahead_skipTrivia (s : State) : s.skipTrivia.ahead = s.ahead := by
  rw [State.ahead, State.ahead, next?_skipTrivia]

/-- Less is known than is true. -/
theorem Shows.forget (shown : s.Shows ⟨ahead, parsed⟩) : s.Shows ⟨ahead, none⟩ :=
  ⟨shown.1, fun _ known => nomatch known⟩

/-- What is known of a state is known where the trivia ahead is read and a scope is opened. -/
theorem Shows.opened {g : Glance} (shown : s.Shows g) : s.skipTrivia.opened.Shows g := by
  refine ⟨s.ahead_skipTrivia.trans shown.1, ?_⟩
  have last : s.skipTrivia.last = s.last := by rw [skipTrivia, consume_frame]
  intro b known
  rw [State.opened, last]
  exact shown.2 b known

/-- What follows trivia comes first. -/
theorem OpensBy.of_skipTrivia {os : List Opening} (h : s.skipTrivia.opened.OpensBy os s') :
    s.OpensBy os s' := by
  -- Reading trivia reports nothing and leaves the next token where it is.
  have errors : s.skipTrivia.errors = s.errors := by rw [skipTrivia, consume_frame]
  -- The opening that happened behind the trivia is the one that happened before it.
  apply h.imp id
  rintro ⟨o, member, opened⟩
  exact ⟨o, member, opened.start_from errors s.nextRange_skipTrivia s.ahead_skipTrivia⟩

/-- To insist reports the next token unless something was read. -/
theorem insisted_opens (s : State) (start : Nat) :
    s.OpensBy ((s.ahead.map fun k => .report (.unexpected k) .e0901).toList ++
      [.pass (some false)]) (s.insisted start) := by
  unfold insisted
  split
  · -- Nothing was read, so the next token is rejected, if one is left.
    cases hahead : s.ahead with
    | none =>
      rw [rejectNext_of_ended hahead]
      refine .of_mem (List.mem_append_right _ (List.mem_singleton_self _)) ?_
      exact ⟨rfl, rfl, rfl, fun b known => Option.some.inj known⟩
    | some k =>
      exact .of_mem (List.mem_append_left _ (List.mem_singleton_self _))
        (opens_rejectNext hahead .e0901)
  · -- Something was read before, so to insist says nothing and passes.
    refine .of_mem (List.mem_append_right _ (List.mem_singleton_self _)) ?_
    exact ⟨rfl, rfl, rfl, fun b known => Option.some.inj known⟩

section Loop

variable {test : Test} {body : State → State} {turn : List Opening} {level : Nat}

/-- What a turn does first is done first, if what comes after a turn that passes is. -/
theorem OpensBy.afterTurn {os : List Opening} (first : s.OpensBy turn s') (later : s'.Advances s'')
    (final : ∀ o ∈ turn, o.passes = false → o ∈ os)
    (hnext : ∀ p, .pass p ∈ turn → s'.Shows ⟨s.ahead, none⟩ → s'.OpensBy os s'') :
    s.OpensBy os s'' := by
  rcases first with starved | ⟨o, member, opened⟩
  · exact .inl (later.starved starved)
  · cases hpasses : o.passes with
    | false =>
      refine .of_mem (final o member hpasses) (opened.later ?_ later.later)
      rintro p rfl
      simp [Opening.passes] at hpasses
    | true =>
      obtain ⟨p, rfl⟩ : ∃ p, o = .pass p := by
        cases o <;> simp_all [Opening.passes]
      have shown : s'.Shows ⟨s.ahead, none⟩ := opened.2.2.forget
      exact (hnext p member shown).imp id fun ⟨o', member', opened'⟩ =>
        ⟨o', member', opened.of_pass opened'⟩

/-- A number of turns does first what one turn does, or passes. -/
theorem opens_turns (hadvances : ∀ s : State, s.Advances (body s))
    (hbody : ∀ s : State, s.Shows ⟨ahead, none⟩ → s.depth = level → s.OpensBy turn (body s))
    (turns : Nat) (s : State) (shown : s.Shows ⟨ahead, none⟩) (depth : s.depth = level) :
    s.OpensBy (turn.filter (!·.passes) ++ [.pass none])
      (repeatWhile (·.satisfies test) body turns s) := by
  -- Where no turn is made the loop passes.
  have still (s : State) (shown : s.Shows ⟨ahead, none⟩) :
      s.OpensBy (turn.filter (!·.passes) ++ [.pass none]) s :=
    .of_mem (List.mem_append_right _ (List.mem_singleton_self _)) ⟨rfl, rfl, shown.1 ▸ shown⟩
  -- Induction on the turns: a turn that passes leaves the state as it was for tests, and the next
  -- one begins alike.
  induction turns generalizing s with
  | zero =>
    unfold repeatWhile
    split
    · exact .inl rfl
    · exact still s shown
  | succ turns ih =>
    unfold repeatWhile
    split
    · have onward : (body s).Advances (repeatWhile (·.satisfies test) body turns (body s)) :=
        (Advances.kept ⟨0, 0⟩).repeatWhile hadvances turns (body s)
      refine (hbody s shown depth).afterTurn onward ?_ ?_
      · intro o member final
        exact List.mem_append_left _ (List.mem_filter.mpr ⟨member, by simp [final]⟩)
      · intro p _ shown'
        rw [shown.1] at shown'
        exact ih _ shown' ((hadvances s).depth.trans depth)
    · exact still s shown

/-- A loop may do first what a turn may do first. -/
theorem repeatWhile_opens (hadvances : ∀ s : State, s.Advances (body s))
    (hbody : ∀ s : State, s.Shows ⟨ahead, none⟩ → s.depth = level → s.OpensBy turn (body s))
    (turns : Nat) (parsed : Option Bool) (s : State) (shown : s.Shows ⟨ahead, parsed⟩)
    (depth : s.depth = level) :
    s.OpensBy (Opening.ofLoop (test.decided ⟨ahead, parsed⟩) parsed turn)
      (repeatWhile (·.satisfies test) body turns s) := by
  have unknown : s.Shows ⟨ahead, none⟩ := shown.forget
  unfold Opening.ofLoop
  -- It may be known that the test fails, or that it holds, or neither.
  split
  · next known =>
    have fails := State.satisfies_of_decided shown known
    have stays : repeatWhile (·.satisfies test) body turns s = s := by
      cases turns <;> simp [repeatWhile, fails]
    rw [stays]
    exact .of_opens ⟨rfl, rfl, shown.1 ▸ shown⟩
  · split
    · next always =>
      -- the test holds and no turn passes, so the first turn settles it
      obtain ⟨known, settles⟩ := Bool.and_eq_true_iff.mp always
      have holds := State.satisfies_of_decided shown (of_decide_eq_true known)
      rw [List.append_nil]
      cases turns with
      | zero =>
        -- The loop has no turns though its test holds, so it is cut off.
        simp only [repeatWhile, holds]
        exact .inl rfl
      | succ turns =>
        simp only [repeatWhile, holds]
        have onward : (body s).Advances (repeatWhile (·.satisfies test) body turns (body s)) :=
          (Advances.kept ⟨0, 0⟩).repeatWhile hadvances turns (body s)
        refine (hbody s unknown depth).afterTurn onward ?_ ?_
        · intro o member final
          exact List.mem_filter.mpr ⟨member, by simp [final]⟩
        · intro p member _
          have never : turn.any Opening.passes = false := by simpa using settles
          exact absurd rfl (List.any_eq_false.mp never _ member)
    · -- Otherwise the loop may pass, after any number of turns that do.
      exact opens_turns hadvances hbody turns s unknown depth

end Loop

end State

variable {limits : Limits}

/-- What may happen first is seen from the rule. -/
theorem Rule.follow_opens {reach : Goal → State → State}
    {calls nests : Goal → Option Bool → List Opening}
    {ahead : Option Kind} {level : Nat} (hadvances : ∀ goal (s : State), s.Advances (reach goal s))
    (hcalls : ∀ goal parsed (s : State), s.Shows ⟨ahead, parsed⟩ → s.depth = level →
      s.OpensBy (calls goal parsed) (reach goal s))
    (hnests : ∀ goal parsed (s : State), s.Shows ⟨ahead, parsed⟩ → s.depth = level →
      s.OpensBy (nests goal parsed) (s.deeper limits reach goal))
    (rule : Rule) (parsed : Option Bool) (s : State) (shown : s.Shows ⟨ahead, parsed⟩)
    (depth : s.depth = level) :
    s.OpensBy (rule.openings calls nests ahead parsed) (rule.follow limits reach s) := by
  -- Induction on the rule, with what is known of the last expression as it changes on the way.
  induction rule generalizing parsed s with
  | done => exact .of_opens ⟨rfl, rfl, shown.1 ▸ shown⟩
  | andThen first next ihFirst ihNext =>
    -- The second rule matters only where the first one passes.
    have later : (first.follow limits reach s).Advances
        (next.follow limits reach (first.follow limits reach s)) :=
      next.follow_advances hadvances _
    refine (ihFirst parsed s shown depth).andThen later.later ?_
    intro p shown'
    rw [shown.1] at shown'
    exact ihNext p _ shown' ((first.follow_advances hadvances s).depth.trans depth)
  | take =>
    simp only [Rule.openings]
    cases hahead : ahead with
    | none => exact .of_opens trivial
    | some k => exact .of_opens (State.opens_take (shown.1.trans hahead))
  | complain problem code =>
    exact .of_opens (State.opens_complain problem code)
  | reject problem code =>
    exact .of_opens (State.opens_reject problem code)
  | rejectNext code =>
    simp only [Rule.openings, Rule.follow]
    cases hahead : ahead with
    | none =>
      rw [State.rejectNext_of_ended (shown.1.trans hahead)]
      exact .of_opens ⟨rfl, rfl, rfl, shown.2⟩
    | some k =>
      exact .of_opens
        (State.opens_rejectNext (shown.1.trans hahead) code)
  | yield last =>
    exact .of_opens ⟨rfl, rfl, rfl, fun b known => Option.some.inj known⟩
  | branch test yes no ihYes ihNo =>
    simp only [Rule.openings, Rule.follow]
    split
    · next known =>
      rw [if_pos (State.satisfies_of_decided shown known)]
      exact ihYes parsed s shown depth
    · next known =>
      rw [if_neg (by rw [State.satisfies_of_decided shown known]; decide)]
      exact ihNo parsed s shown depth
    · -- The test is decided only when the parse is there.
      split
      · -- A test that is not decided may go either way.
        exact (ihYes parsed s shown depth).mono fun o => List.mem_append_left _
      · exact (ihNo parsed s shown depth).mono fun o => List.mem_append_right _
  | loop test body ih =>
    exact State.repeatWhile_opens (body.follow_advances hadvances) (ih none) limits.maxTurns
      parsed s shown depth
  | insist body ih =>
    have later : (body.follow limits reach s).Advances
        ((body.follow limits reach s).insisted s.offset) :=
      (State.Advances.kept limits).insisted trivial _ _
    refine (ih parsed s shown depth).andThen later.later ?_
    intro p shown'
    -- Whether something was read is not looked at: both ways to insist are listed.
    have listed := State.insisted_opens (body.follow limits reach s) s.offset
    rw [shown'.1, shown.1] at listed
    exact listed
  | node kind body ih =>
    -- The trivia before the node reports nothing, and to close the node adds nothing first.
    have inside := ih parsed s.skipTrivia.opened shown.opened
      (s.skipTrivia_advances.depth.trans depth)
    exact inside.of_skipTrivia.close kind _
  | group body ih =>
    have inside := ih parsed s.skipTrivia.opened shown.opened
      (s.skipTrivia_advances.depth.trans depth)
    exact inside.of_skipTrivia.leave rfl rfl rfl rfl rfl
  | wrap kind body ih => exact (ih parsed s shown depth).close kind []
  | call goal => exact hcalls goal parsed s shown depth
  | nested goal => exact hnests goal parsed s shown depth

/-! ## Openings of goals -/

/-- What a goal that is given up at the nesting limit does first. -/
def Opening.ofGivenUp (ahead : Option Kind) : Opening :=
  if Test.endsExpression.decided ⟨ahead, none⟩ = some true then .pass (some true) else .lost

/-- What a goal may do first, looking through at most `n` calls, where there is room for `room`
nesting levels. Whether there is room for more is not known. -/
def goalOpenings (grammar : Goal → Rule) :
    Nat → Nat → Option Kind → Goal → Option Bool → List Opening
  | 0, _, _, _, _ => [.lost]
  | n + 1, 0, ahead, goal, parsed =>
    (grammar goal).openings (goalOpenings grammar n 0 ahead)
      (fun goal parsed => goalOpenings grammar n 0 ahead goal parsed ++ [.ofGivenUp ahead])
      ahead parsed
  | n + 1, room + 1, ahead, goal, parsed =>
    (grammar goal).openings (goalOpenings grammar n (room + 1) ahead)
      (goalOpenings grammar n room ahead) ahead parsed

/-- What a rule of a grammar may do first, looking through at most `n` calls, where it is not known
whether there is room for a nesting level. -/
def Rule.first (grammar : Goal → Rule) (n : Nat) (ahead : Option Kind) (rule : Rule)
    (parsed : Option Bool) : List Opening :=
  rule.openings (goalOpenings grammar n 0 ahead)
    (fun goal parsed => goalOpenings grammar n 0 ahead goal parsed ++ [.ofGivenUp ahead])
    ahead parsed

namespace State

variable {s s' : State} {ahead : Option Kind} {parsed : Option Bool}

/-- What happens first on the next level happens first on this one. -/
theorem OpensBy.of_entered {os : List Opening} (h : s.entered.OpensBy os s') :
    s.OpensBy os { s' with depth := s.depth } := by
  have before : s.OpensBy os s' :=
    h.imp id fun ⟨o, member, opened⟩ => ⟨o, member, opened.start_from rfl rfl rfl⟩
  exact before.leave rfl rfl rfl rfl rfl

/-- A goal that is given up where an expression ends passes, and otherwise it is not seen what it
does. -/
theorem giveUp_opens (shown : s.Shows ⟨ahead, parsed⟩) (limit : Nat) (goal : Goal) :
    s.OpensBy [.ofGivenUp ahead] (s.giveUp limit goal) := by
  apply OpensBy.of_opens
  unfold Opening.ofGivenUp
  -- Only what is known of the next token is asked, whether or not an expression was parsed.
  split
  · next known =>
    have ends : s.satisfies .endsExpression = true :=
      satisfies_of_decided shown.forget known
    rw [giveUp, if_pos ends]
    exact ⟨rfl, rfl, rfl, fun b known => Option.some.inj known⟩
  · trivial

/-- What may happen first at a goal that may lie on a deeper level. -/
theorem deeper_opens {reach : Goal → State → State} {os : List Opening} {goal : Goal}
    (shown : s.Shows ⟨ahead, parsed⟩) (inside : s.entered.OpensBy os (reach goal s.entered)) :
    s.OpensBy (os ++ [.ofGivenUp ahead]) (s.deeper limits reach goal) := by
  unfold deeper
  split
  · exact inside.of_entered.mono fun o => List.mem_append_left _
  · exact (giveUp_opens shown _ goal).mono fun o => List.mem_append_right _

end State

/-- What a rule may do first it does, where that is so of the goals that it reaches. -/
theorem Rule.first_opens {grammar : Goal → Rule} {n : Nat} {reach : Goal → State → State}
    {ahead : Option Kind} (hadvances : ∀ goal (s : State), s.Advances (reach goal s))
    (hreach : ∀ goal parsed (s : State), s.Shows ⟨ahead, parsed⟩ →
      s.OpensBy (goalOpenings grammar n 0 ahead goal parsed) (reach goal s))
    (rule : Rule) {parsed : Option Bool} {s : State} (shown : s.Shows ⟨ahead, parsed⟩) :
    s.OpensBy (rule.first grammar n ahead parsed) (rule.follow limits reach s) :=
  rule.follow_opens hadvances (fun goal p t ht _ => hreach goal p t ht)
    (fun goal p t ht _ => State.deeper_opens ht (hreach goal p t.entered ht)) parsed s shown rfl

/-- What may happen first is seen of every goal. -/
theorem reach_opens (grammar : Goal → Rule) (n allowance room : Nat) {ahead : Option Kind}
    (goal : Goal) (parsed : Option Bool) (s : State) (shown : s.Shows ⟨ahead, parsed⟩)
    (deep : room = 0 ∨ s.depth + room ≤ limits.maxDepth) :
    s.OpensBy (goalOpenings grammar n room ahead goal parsed)
      (reach grammar limits allowance goal s) := by
  -- Induction on the number of calls that are looked through, which need not be the allowance.
  induction n generalizing allowance room goal parsed s with
  | zero => exact .of_opens trivial
  | succ n ih =>
    cases allowance with
    | zero => exact .inl rfl
    | succ allowance =>
      cases room with
      -- With no room known, a nested goal may be reached or given up.
      | zero =>
        exact (grammar goal).first_opens (reach_advances grammar allowance)
          (fun g p t ht => ih allowance 0 g p t ht (.inl rfl)) shown
      | succ room =>
        have enough : s.depth + (room + 1) ≤ limits.maxDepth := deep.resolve_left (by simp)
        refine (grammar goal).follow_opens (reach_advances grammar allowance) ?_ ?_ parsed s
          shown rfl
        · intro g p t ht hdepth
          exact ih allowance (room + 1) g p t ht (.inr (by omega))
        · intro g p t ht hdepth
          -- There is room for the level, so the nested goal is reached and not given up.
          have fits : t.depth < limits.maxDepth := by omega
          rw [State.deeper, if_pos fits]
          refine (ih allowance room g p t.entered ht (.inr ?_)).of_entered
          show t.depth + 1 + room ≤ limits.maxDepth
          omega

end PerlOutline.Grammar
