import PerlOutline.Proofs.SideBySide
import PerlOutline.Proofs.Termination
import PerlOutline.Syntax.Parse

/-!
# The nesting limit

A parse that comes to the nesting limit reports it, unless it stands where an expression ends. It
then goes on as if there were an expression, or passes over a statement. This module says exactly
when that makes a difference: a larger limit gives the same tree and the same errors just if
nothing was given up but statements at tokens that no statement begins with.

## Layers
- **Trails**: what a parse that was cut short does next, seen from the rules.
- **Giving up**: what the parse with the larger limit does there.
- **Rules and goals** keep two parses in step or part them.
- **Texts**.
-/

namespace PerlOutline.Grammar

open PerlOutline.Syntax (Kind Token Tree Problem ErrorCode SyntaxError)

/-! ## Trails -/

/-- The opening is not the report that an expression is missing. -/
def Opening.benign : Opening → Bool
  | .report problem code => !(problem == .missingExpression && code == .e0401)
  | .lost => false
  | _ => true

/-- What is known of whether an expression was parsed, after an opening that passes. -/
def Opening.parsed? : Opening → Option (Option Bool)
  | .pass parsed => some parsed
  | _ => none

/-- What is known of whether an expression was parsed after a goal that was cut short in it. -/
def Goal.trail : Goal → Option Bool
  | .statements _ | .statement | .block | .package | .moduleUse | .subDefinition | .prototype
  | .conditional | .parenthesizedCondition | .whileLoop | .forLoop | .returnStatement
  | .expressionStatement | .modifier => none
  | _ => some true

/-- How many calls are looked through to see what comes after a cut. -/
def callsAfterCut : Nat := 3

/-- What a rule may do first after a cut. -/
def Rule.afterCut (rule : Rule) (ahead : Option Kind) (parsed : Option Bool) : List Opening :=
  rule.first grammar callsAfterCut ahead parsed

/-- What may be known of whether an expression was parsed, after a rule that was cut short in it
and has done nothing since. -/
def Rule.trails (ahead : Option Kind) : Rule → List (Option Bool)
  | .andThen first next =>
    next.trails ahead ++ (first.trails ahead).flatMap fun parsed =>
      (next.afterCut ahead parsed).filterMap Opening.parsed?
  | .branch _ yes no => yes.trails ahead ++ no.trails ahead
  | .loop test body =>
    (body.trails ahead).flatMap fun parsed =>
      ((Rule.loop test body).afterCut ahead parsed).filterMap Opening.parsed?
  | .insist _ => [some false]
  | .node _ body | .wrap _ body => if (body.trails ahead).isEmpty then [] else [some true]
  | .group body => body.trails ahead
  | .call goal => [goal.trail]
  | .nested goal => [goal.trail, some true]
  | _ => []

/-- After a cut the rule does not report a missing expression next. -/
def Rule.calm (ahead : Option Kind) : Rule → Bool
  | .andThen first next =>
    first.calm ahead && next.calm ahead &&
      (first.trails ahead).all fun parsed => (next.afterCut ahead parsed).all Opening.benign
  | .branch _ yes no => yes.calm ahead && no.calm ahead
  | .loop test body =>
    body.calm ahead && (body.trails ahead).all fun parsed =>
      ((Rule.loop test body).afterCut ahead parsed).all Opening.benign
  | .node _ body | .wrap _ body | .group body => body.calm ahead
  | _ => true

/-- Where an expression ends the goal first reports that one is missing. -/
def Goal.answers (goal : Goal) : Bool :=
  expressionStops.all fun ahead =>
    goalOpenings grammar callsPerLevel 1 ahead goal none ==
      [.report .missingExpression .e0401]

/-- The rule goes a level deeper only for a statement that it insists on, and for goals that
answer or that are not reached where an expression ends. -/
def Rule.answered : Rule → Bool
  | .andThen first next => first.answered && next.answered
  | .branch test yes no =>
    (yes.answered || (yes == .nested .dereference &&
      expressionStops.all fun ahead => test.decided ⟨ahead, none⟩ == some false)) && no.answered
  | .insist body => body == .nested .statement
  | .loop _ body | .node _ body | .wrap _ body | .group body => body.answered
  | .nested goal => goal.answers
  | _ => true

/-- After a cut no rule of the grammar reports a missing expression next, and the trails of goals
are right. -/
theorem calm_grammar (goal : Goal) : ∀ ahead ∈ expressionStops,
    (grammar goal).calm ahead = true ∧
      ∀ parsed ∈ (grammar goal).trails ahead, goal.trail = none ∨ parsed = goal.trail := by
  revert goal
  decide +kernel

/-- All goals of the grammar that are nested answer, or stand where an expression does not end. -/
theorem answered_grammar (goal : Goal) : (grammar goal).answered = true := by
  revert goal
  decide +kernel

/-- What is left of a rule where a glance decides tests. -/
def Rule.remaining (g : Glance) : Rule → Rule
  | .branch test yes no =>
    match test.decided g with
    | some true => yes.remaining g
    | some false => no.remaining g
    | none => .branch test yes no
  | rule => rule

/-- Decided tests need not be asked. -/
theorem Rule.follow_remaining {limits : Limits} {reach : Goal → State → State} {g : Glance}
    {s : State} (shown : s.Shows g) (rule : Rule) :
    (rule.remaining g).follow limits reach s = rule.follow limits reach s := by
  induction rule with
  | branch test yes no ihYes ihNo =>
    unfold remaining
    split
    · next known =>
      rw [ihYes, Rule.follow, if_pos (State.satisfies_of_decided shown known)]
    · next known =>
      rw [ihNo, Rule.follow, if_neg (by rw [State.satisfies_of_decided shown known]; decide)]
    · rfl
  | _ => rfl

/-! ## What comes after a cut -/

section Meetings

variable {m m' : Nat} {a b a' b' : State}
variable {trails trails' : Option Kind → List (Option Bool)}

/-- A token that was read without a report is not reported later. -/
theorem State.Opens.denies_of_read {s s' : State} (opened : s.Opens .read s') {x : SyntaxError}
    (place : x.range = s.nextRange) : s'.Denies x s.errors := by
  obtain ⟨behind, new, hnew, further⟩ := opened
  -- Errors are kept last first, so the first new one is at the end.
  rcases List.eq_nil_or_concat new with rfl | ⟨init, y, rfl⟩
  · exact .inl ⟨hnew, place ▸ behind⟩
  · refine .inr ⟨init, y, by simp [hnew], ?_⟩
    rintro rfl
    have later := further y (by simp)
    rw [place] at later
    exact absurd later (Nat.lt_irrefl _)

/-- Where a missing expression could be reported, something else comes first. -/
theorem State.Opens.denies {o : Opening} {s s' : State} (opened : s.Opens o s')
    (benign : o.benign = true) (final : ∀ parsed, o ≠ .pass parsed) :
    s'.Denies s.missing s.errors := by
  cases o with
  | read => exact opened.denies_of_read rfl
  | report problem code =>
    obtain ⟨new, hnew⟩ := opened
    refine .inr ⟨new, _, hnew, ?_⟩
    intro same
    obtain ⟨rfl, rfl, -⟩ := SyntaxError.mk.inj same
    exact absurd benign (by decide)
  | pass parsed => exact absurd rfl (final parsed)
  | lost => exact absurd benign (by decide)

/-- A parse that waits goes on to wait, or the two are parted. -/
theorem Meeting.proceed (cut : a.Cut)
    (awaits : m + 2 ≤ m' → ∃ parsed ∈ trails a.ahead, a.Awaits parsed b)
    {os : Option Bool → List Opening}
    (opened : ∀ parsed, a.Shows ⟨a.ahead, parsed⟩ → a.OpensBy (os parsed) a')
    (benign : a.ahead ∈ expressionStops → ∀ parsed ∈ trails a.ahead,
      ∀ o ∈ os parsed, o.benign = true)
    (onward : ∀ parsed ∈ trails a.ahead, ∀ later, .pass later ∈ os parsed →
      later ∈ trails' a.ahead)
    (ha : a.Later a') (hb : b.Later b') : Meeting m m' trails' a' b' := by
  -- One level more need not be enough for the second parse to report anything.
  by_cases deep : m + 2 ≤ m'
  · obtain ⟨parsed, member, waits⟩ := awaits deep
    rcases opened parsed ⟨rfl, waits.parsed⟩ with starved | ⟨o, among, did⟩
    · exact .parted (.starved (.inl starved))
    · have harmless := benign waits.ends parsed member o among
      -- Passing keeps the first parse waiting. Anything else settles that it does not report what
      -- the second one has reported.
      cases o with
      | pass later =>
        obtain ⟨errors, range, shown⟩ := did
        refine .waiting (cut.later ha) fun _ => ⟨later, ?_, ?_, shown.2, ?_⟩
        · rw [shown.1]
          exact onward parsed member later among
        · rw [shown.1]
          exact waits.ends
        · rw [errors, State.missing, range]
          exact waits.reports.later hb
      | read =>
        refine .parted (.apart (cut.later ha) fun _ => ⟨_, _, .inr ⟨waits.reports.later hb, ?_⟩⟩)
        exact did.denies harmless (by simp)
      | report problem code =>
        refine .parted (.apart (cut.later ha) fun _ => ⟨_, _, .inr ⟨waits.reports.later hb, ?_⟩⟩)
        exact did.denies harmless (by simp)
      | lost => exact absurd harmless (by decide)
  · exact .waiting (cut.later ha) fun deep' => absurd deep' deep

/-- Where two parses in step come to a meeting, so do parses that have met before. -/
theorem Meeting.next (h : Meeting m m' trails a b) (os : Option Bool → List Opening)
    (hsame : Same m a b → Meeting m m' trails' a' b')
    (opened : ∀ parsed, a.Shows ⟨a.ahead, parsed⟩ → a.OpensBy (os parsed) a')
    (benign : a.ahead ∈ expressionStops → ∀ parsed ∈ trails a.ahead,
      ∀ o ∈ os parsed, o.benign = true)
    (onward : ∀ parsed ∈ trails a.ahead, ∀ later, .pass later ∈ os parsed →
      later ∈ trails' a.ahead)
    (ha : a.Later a') (hb : b.Later b') : Meeting m m' trails' a' b' := by
  cases h with
  | same same => exact hsame same
  | waiting cut awaits => exact Meeting.proceed cut awaits opened benign onward ha hb
  | parted parted => exact .parted (parted.later ha hb)

/-- To know more possibilities of a waiting parse does no harm. -/
theorem Meeting.mono (h : Meeting m m' trails a b)
    (more : ∀ parsed ∈ trails a.ahead, parsed ∈ trails' a.ahead) : Meeting m m' trails' a b := by
  cases h with
  | same same => exact .same same
  | waiting cut awaits =>
    refine .waiting cut fun deep => ?_
    obtain ⟨parsed, member, waits⟩ := awaits deep
    exact ⟨parsed, more parsed member, waits⟩
  | parted parted => exact .parted parted

/-- To know less of a waiting parse does no harm. -/
theorem Meeting.know (h : Meeting m m' trails a b) {known : Option Bool}
    (right : ∀ ahead ∈ expressionStops, ∀ parsed ∈ trails ahead,
      known = none ∨ parsed = known) : Meeting m m' (fun _ => [known]) a b := by
  cases h with
  | same same => exact .same same
  | waiting cut awaits =>
    refine .waiting cut fun deep => ⟨known, List.mem_singleton_self _, ?_⟩
    obtain ⟨parsed, member, waits⟩ := awaits deep
    -- A trail that says nothing is right of every state.
    rcases right a.ahead waits.ends parsed member with rfl | rfl
    · exact { waits with parsed := fun _ is => nomatch is }
    · exact waits
  | parted parted => exact .parted parted

/-- The trivia ahead makes no difference. -/
theorem Meeting.skipTrivia (h : Meeting m m' trails a b) :
    Meeting m m' trails a.skipTrivia b.skipTrivia := by
  refine h.next (fun parsed => [.pass parsed])
    (fun same => .same (same.plain State.plain_skipTrivia))
    ?_ ?_ ?_ a.skipTrivia_advances.later b.skipTrivia_advances.later
  · intro parsed shown
    -- Reading trivia reports nothing.
    have errors : a.skipTrivia.errors = a.errors := by rw [State.skipTrivia, State.consume_frame]
    exact .of_opens
      ⟨errors, a.nextRange_skipTrivia, shown.opened.1, shown.opened.2⟩
  · simp [Opening.benign]
  · simp

/-- A scope that both parses close as a node. -/
theorem Meeting.close (h : Meeting m m' trails a b) (kind : Kind) {outer outer' : List Tree}
    (outside : outer = outer') :
    Meeting m m' (fun ahead => if (trails ahead).isEmpty then [] else [some true])
      (a.closed kind outer) (b.closed kind outer') := by
  refine h.next (fun _ => [.pass (some true)]) (fun same => .same (same.closed kind outside))
    ?_ ?_ ?_ (State.later_of_same rfl rfl rfl rfl) (State.later_of_same rfl rfl rfl rfl)
  · intro parsed _
    exact .of_opens ⟨rfl, rfl, rfl, fun _ known => Option.some.inj known⟩
  · simp [Opening.benign]
  · -- A trail that is not empty is why the node was closed after a cut.
    intro parsed member later hlater
    have some : (trails a.ahead).isEmpty = false := by
      rw [List.isEmpty_eq_false_iff]
      exact List.ne_nil_of_mem member
    simp_all

/-- A scope that both parses leave as it is. -/
theorem Meeting.merge (h : Meeting m m' trails a b) {outer outer' : List Tree}
    (outside : outer = outer') : Meeting m m' trails (a.merged outer) (b.merged outer') := by
  refine h.next (fun parsed => [.pass parsed]) (fun same => .same (same.merged outside))
    ?_ ?_ ?_ (State.later_of_same rfl rfl rfl rfl) (State.later_of_same rfl rfl rfl rfl)
  · intro parsed shown
    exact .of_opens ⟨rfl, rfl, shown⟩
  · simp [Opening.benign]
  · simp

/-- To insist is a step like others: time goes by. -/
theorem later_insisted (s : State) (start : Nat) : s.Later (s.insisted start) :=
  ((State.Advances.kept ⟨0, 0⟩).insisted trivial s start).later

/-- Both parses insist on what they read. -/
theorem Meeting.insist (h : Meeting m m' trails a b) {start start' : Nat}
    (hstart : start = start') :
    Meeting m m' (fun _ => [some false]) (a.insisted start) (b.insisted start') := by
  refine h.next (fun _ => (a.ahead.map fun k => .report (.unexpected k) .e0901).toList ++
    [.pass (some false)]) (fun same => .same (same.insisted hstart)) ?_ ?_ ?_
    (later_insisted a start) (later_insisted b start')
  · intro parsed _
    exact a.insisted_opens start
  · intro _ parsed _ o among
    have either : (∃ k, a.ahead = some k ∧ .report (.unexpected k) .e0901 = o) ∨
        o = .pass (some false) := by
      simpa using among
    rcases either with ⟨k, _, rfl⟩ | rfl
    · rfl
    · rfl
  · intro parsed _ later among
    cases hahead : a.ahead <;> simp_all

/-! ## Giving up -/

section GivingUp

variable {turns calls calls' : Nat}

/-- Both parses go a level deeper. -/
theorem Meeting.deeper {goal : Goal} (same : Same m a b) (longer : m < m') (room : a.depth < m)
    (inside : Meeting m m' trails (reach grammar ⟨m, turns⟩ calls goal a.entered)
      (reach grammar ⟨m', turns⟩ calls' goal b.entered)) :
    Meeting m m' trails (a.deeper ⟨m, turns⟩ (reach grammar ⟨m, turns⟩ calls) goal)
      (b.deeper ⟨m', turns⟩ (reach grammar ⟨m', turns⟩ calls') goal) := by
  rw [State.deeper, State.deeper, if_pos room, if_pos (same.room longer)]
  refine inside.next (fun parsed => [.pass parsed]) ?_ ?_ ?_ ?_
    (State.later_of_same rfl rfl rfl rfl) (State.later_of_same rfl rfl rfl rfl)
  · -- On the way out both parses come back to the depths they had.
    intro within
    exact .same { within with depth := same.depth, shallow := same.shallow }
  · intro parsed shown
    exact .of_opens ⟨rfl, rfl, shown⟩
  · simp [Opening.benign]
  · simp

/-- Where an expression does not end, giving up reports the depth. -/
theorem State.reportsDepth_giveUp {s : State} (goesOn : s.satisfies .endsExpression = false)
    (limit : Nat) (goal : Goal) : (s.giveUp limit goal).ReportsDepth := by
  refine ⟨⟨.tooDeep limit, .e0205, s.nextRange⟩, ?_, rfl⟩
  simp only [giveUp, goesOn, abandonGroup, Bool.false_eq_true, if_false]
  rw [setAside_frame]
  exact List.mem_cons_self ..

/-- What a statement is given up for where an expression ends: it is rejected just as well, or
something is read. -/
theorem statement_openings : ∀ ahead ∈ expressionStops,
    if ahead.all strays.contains then
      Rule.statement.remaining ⟨ahead, none⟩ = .rejectNext .e0901
    else goalOpenings grammar callsAfterCut 0 ahead .statement none = [.read] := by
  decide +kernel

/-- Where nothing was read the next token is rejected. -/
theorem State.insisted_of_eq {s : State} {start : Nat} (still : s.offset = start) :
    s.insisted start = { s.rejectNext .e0901 with last := none } := by
  simp [insisted, still]

/-- Where something was read nothing is rejected. -/
theorem State.insisted_of_ne {s : State} {start : Nat} (moved : ¬ s.offset = start) :
    s.insisted start = { s with last := none } := by
  simp [insisted, moved]

/-- Where an expression ends, a parse insists on what it gave up by rejecting the next token. -/
theorem State.insisted_giveUp {s : State} (ends : s.satisfies .endsExpression = true)
    (limit : Nat) (goal : Goal) :
    (s.giveUp limit goal).insisted s.offset =
      (s.rejectNext .e0901).withTally
        ⟨s.depth, s.deepest, none, s.starved, ⟨goal, s.ahead⟩ :: s.hushed⟩ := by
  -- The rejection does not see the tally, which is all that giving up has changed.
  have rejected := plain_rejectNext .e0901 s
    ⟨s.depth, s.deepest, some .error, s.starved, ⟨goal, s.ahead⟩ :: s.hushed⟩
  rw [giveUp, if_pos ends, insisted_of_eq rfl]
  exact congrArg (fun s : State => { s with last := none }) rejected

/-- A parse that rejects the next token on a deeper level does not insist any more. -/
theorem State.insisted_entered (s : State) :
    { s.entered.rejectNext .e0901 with depth := s.depth }.insisted s.offset =
      (s.rejectNext .e0901).withTally
        ⟨s.depth, max s.deepest (s.depth + 1), none, s.starved, s.hushed⟩ := by
  have rejected : s.entered.rejectNext .e0901 = (s.rejectNext .e0901).withTally
      ⟨s.depth + 1, max s.deepest (s.depth + 1), s.last, s.starved, s.hushed⟩ :=
    plain_rejectNext .e0901 s
      ⟨s.depth + 1, max s.deepest (s.depth + 1), s.last, s.starved, s.hushed⟩
  rw [rejected]
  show ((s.rejectNext .e0901).withTally
    ⟨s.depth, max s.deepest (s.depth + 1), s.last, s.starved, s.hushed⟩).insisted s.offset = _
  cases hnext : s.next? with
  -- At the end there is nothing to reject, on either level.
  | none =>
    have ended : s.ahead = none := by rw [State.ahead, hnext]; rfl
    have still (t : Tally) : (s.withTally t).rejectNext .e0901 = s.withTally t :=
      (plain_rejectNext .e0901 s t).trans
        (congrArg (·.withTally t) (rejectNext_of_ended ended .e0901))
    rw [rejectNext_of_ended ended]
    refine (insisted_of_eq rfl).trans ?_
    rw [still]
    rfl
  | some t =>
    have advances : s.Advances (s.rejectNext .e0901) :=
      (Advances.kept ⟨0, 0⟩).rejectNext trivial s .e0901
    have moved : ¬ (s.rejectNext .e0901).offset = s.offset :=
      -- A token was rejected inside, so the offset has moved and the insisting adds nothing.
      Nat.ne_of_gt (advances.offset_lt (length_rest_rejectNext_lt hnext .e0901))
    refine (insisted_of_ne ?_).trans rfl
    exact moved

/-- Where no statement begins, the second parse rejects the next token one level deeper, and the
first one rejects it because it insists. -/
theorem insist_stray (same : Same m a b) (ends : a.satisfies .endsExpression = true)
    (stray : a.ahead.all strays.contains = true) :
    Meeting m m' trails ((a.giveUp m .statement).insisted a.offset)
      ({ reach grammar ⟨m', turns⟩ calls' .statement b.entered with
        depth := b.depth }.insisted b.offset) := by
  have openings := statement_openings a.ahead (State.ahead_mem_expressionStops ends)
  rw [if_pos stray] at openings
  cases calls' with
  | zero =>
    refine .parted (.starved (.inr ?_))
    exact (later_insisted _ _).starved rfl
  | succ calls' =>
    -- The rule of statements comes down to rejecting the next token.
    have rejects : reach grammar ⟨m', turns⟩ (calls' + 1) .statement b.entered =
        b.entered.rejectNext .e0901 := by
      show Rule.statement.follow _ _ _ = _
      rw [← Rule.follow_remaining same.shows_entered, openings]
      rfl
    have rejected := same.plain (State.plain_rejectNext .e0901)
    rw [State.insisted_giveUp ends, rejects, State.insisted_entered]
    -- The two differ only in what they count and note, and what the first one notes is harmless.
    refine .same {
      rest := rejected.rest, offset := rejected.offset, out := rejected.out
      errors := rejected.errors, depth := same.depth, last := rfl
      shallow := same.shallow, harmless := ?_ }
    intro stop member
    rcases List.mem_cons.mp member with rfl | earlier
    · simp [Stop.harmless, stray]
    · exact same.harmless stop earlier

/-- Where a statement begins, the second parse reads the token that the first one rejects. -/
theorem insist_begins (same : Same m a b) (ends : a.satisfies .endsExpression = true)
    (begins : ¬ a.ahead.all strays.contains = true) :
    Parted m m' ((a.giveUp m .statement).insisted a.offset)
      ({ reach grammar ⟨m', turns⟩ calls' .statement b.entered with
        depth := b.depth }.insisted b.offset) := by
  have harm : Stop.harmless ⟨.statement, a.ahead⟩ = false := by
    simp only [Stop.harmless, Bool.and_eq_false_iff]
    exact .inr (Bool.eq_false_iff.mpr begins)
  -- At the end of the text there is no token, and that is harmless.
  obtain ⟨k, hk⟩ : ∃ k, a.ahead = some k := by
    apply Option.isSome_iff_exists.mp
    apply Option.isSome_iff_ne_none.mpr
    intro ended
    rw [ended] at begins
    exact begins rfl
  have openings := statement_openings a.ahead (State.ahead_mem_expressionStops ends)
  rw [if_neg begins] at openings
  have opened : b.entered.OpensBy (goalOpenings grammar callsAfterCut 0 a.ahead .statement none)
      (reach grammar ⟨m', turns⟩ calls' .statement b.entered) :=
    reach_opens grammar callsAfterCut calls' 0 .statement none b.entered same.shows_entered
      (.inl rfl)
  rw [openings] at opened
  rw [State.insisted_giveUp ends]
  -- The second parse reads the token or is cut off; its first error can only be about a later one.
  rcases opened with starved | ⟨o, among, read⟩
  · refine .starved (.inr ?_)
    exact (later_insisted _ _).starved starved
  · obtain rfl := List.mem_singleton.mp among
    refine .apart ⟨_, List.mem_cons_self .., harm⟩ fun _ =>
      ⟨⟨.unexpected k, .e0901, a.nextRange⟩, a.errors, .inl ⟨?_, ?_⟩⟩
    · exact State.opens_rejectNext hk .e0901
    · have place : a.nextRange = b.entered.nextRange := same.nextRange
      have before : a.errors = b.entered.errors := same.errors
      have denies := read.denies_of_read (x := ⟨.unexpected k, .e0901, a.nextRange⟩) place
      rw [← before] at denies
      refine denies.later (State.Later.trans ?_ (later_insisted _ _))
      exact State.later_of_same rfl rfl rfl rfl

/-- Both parses insist on a statement. -/
theorem insist_meets (longer : m < m') (same : Same m a b)
    (hstatement : ∀ a b, Same m a b → Meeting m m' (fun _ => [none])
      (reach grammar ⟨m, turns⟩ calls .statement a)
      (reach grammar ⟨m', turns⟩ calls' .statement b)) :
    Meeting m m' (fun _ => [some false])
      ((a.deeper ⟨m, turns⟩ (reach grammar ⟨m, turns⟩ calls) .statement).insisted a.offset)
      ((b.deeper ⟨m', turns⟩ (reach grammar ⟨m', turns⟩ calls') .statement).insisted b.offset) := by
  by_cases room : a.depth < m
  · -- With room on both sides both enter the statement.
    have inside := hstatement a.entered b.entered (same.entered room)
    exact (Meeting.deeper same longer room inside).insist same.offset
  rw [State.deeper, State.deeper, if_neg room, if_pos (same.room longer)]
  cases ends : a.satisfies .endsExpression with
  | false =>
    -- The report of the depth stays, whatever is insisted on afterwards.
    have reported := State.reportsDepth_giveUp ends m .statement
    exact .parted (.reported (reported.later (later_insisted _ _)))
  | true =>
    by_cases stray : a.ahead.all strays.contains = true
    · exact insist_stray same ends stray
    · exact .parted (insist_begins same ends stray)

/-- Where an expression ends, a goal that answers is given up silently, and on a deeper level it
reports that an expression is missing. -/
theorem awaits_of_answers (same : Same m a b) {goal : Goal} (answers : goal.answers = true)
    (ends : a.satisfies .endsExpression = true) :
    Meeting m m' (fun _ => [goal.trail, some true]) (a.giveUp m goal)
      { reach grammar ⟨m', turns⟩ calls' goal b.entered with depth := b.depth } := by
  have stops := State.ahead_mem_expressionStops ends
  have harm : Stop.harmless ⟨goal, a.ahead⟩ = false := by
    have other : goal ≠ .statement := by
      rintro rfl
      exact absurd answers (by decide +kernel)
    simp [Stop.harmless, other]
  rw [State.giveUp, if_pos ends]
  by_cases deep : m + 2 ≤ m'
  · -- The goal is looked through with one level to spare, which is there.
    have enough : b.entered.depth + 1 ≤ m' := by
      have shallow := same.shallow
      show b.depth + 1 + 1 ≤ m'
      rw [← same.depth]
      omega
    have opened : b.entered.OpensBy (goalOpenings grammar callsPerLevel 1 a.ahead goal none)
        (reach grammar ⟨m', turns⟩ calls' goal b.entered) :=
      reach_opens grammar callsPerLevel calls' 1 goal none b.entered same.shows_entered
        (.inr enough)
    rw [eq_of_beq (List.all_eq_true.mp answers a.ahead stops)] at opened
    -- The goal of the second parse opens with the report that the first one never makes.
    rcases opened with starved | ⟨o, among, reports⟩
    · exact .parted (.starved (.inr starved))
    · obtain rfl := List.mem_singleton.mp among
      obtain ⟨new, hnew⟩ := reports
      refine .waiting ⟨_, List.mem_cons_self .., harm⟩ fun _ =>
        ⟨some true, List.mem_cons_of_mem _ (List.mem_singleton_self _), stops,
          fun _ known => Option.some.inj known, new, ?_⟩
      have place : a.nextRange = b.entered.nextRange := same.nextRange
      have before : a.errors = b.entered.errors := same.errors
      show _ = new ++ ⟨.missingExpression, .e0401, a.nextRange⟩ :: a.errors
      rw [place, before]
      exact hnew
  · -- With one level more the second parse may be cut short in the same way.
    exact .waiting ⟨_, List.mem_cons_self .., harm⟩ fun deep' => absurd deep' deep

/-- Both parses go a level deeper for a goal that answers where an expression ends. -/
theorem nested_meets (longer : m < m') (same : Same m a b) {goal : Goal}
    (hgoal : ∀ a b, Same m a b → Meeting m m' (fun _ => [goal.trail])
      (reach grammar ⟨m, turns⟩ calls goal a) (reach grammar ⟨m', turns⟩ calls' goal b))
    (answers : a.satisfies .endsExpression = true → goal.answers = true) :
    Meeting m m' (fun _ => [goal.trail, some true])
      (a.deeper ⟨m, turns⟩ (reach grammar ⟨m, turns⟩ calls) goal)
      (b.deeper ⟨m', turns⟩ (reach grammar ⟨m', turns⟩ calls') goal) := by
  by_cases room : a.depth < m
  · have inside := hgoal a.entered b.entered (same.entered room)
    apply (Meeting.deeper same longer room inside).mono
    intro parsed member
    exact List.mem_cons.mpr (.inl (List.mem_singleton.mp member))
  -- The first parse has no room, and the second one has.
  rw [State.deeper, State.deeper, if_neg room, if_pos (same.room longer)]
  cases ends : a.satisfies .endsExpression with
  | false => exact .parted (.reported (State.reportsDepth_giveUp ends m goal))
  | true => exact awaits_of_answers same (answers ends) ends

end GivingUp

/-! ## Rules and goals -/

section Rules

variable {turns calls calls' : Nat}

/-- What a rule may do first after a cut is what it does first, whoever has cut it. -/
theorem Rule.afterCut_opens (rule : Rule) {limits : Limits} {ahead : Option Kind}
    {parsed : Option Bool} {s : State} (shown : s.Shows ⟨ahead, parsed⟩) :
    s.OpensBy (rule.afterCut ahead parsed) (rule.follow limits (reach grammar limits calls) s) :=
  rule.first_opens (reach_advances grammar calls)
    (fun goal p t ht => reach_opens grammar callsAfterCut calls 0 goal p t ht (.inl rfl)) shown

/-- Both parses go on with a rule. -/
theorem Meeting.andThen {next : Rule} (h : Meeting m m' trails a b)
    (hsame : Same m a b → Meeting m m' next.trails
      (next.follow ⟨m, turns⟩ (reach grammar ⟨m, turns⟩ calls) a)
      (next.follow ⟨m', turns⟩ (reach grammar ⟨m', turns⟩ calls') b))
    (benign : a.ahead ∈ expressionStops → ∀ parsed ∈ trails a.ahead,
      ∀ o ∈ next.afterCut a.ahead parsed, o.benign = true) :
    Meeting m m'
      (fun ahead => next.trails ahead ++ (trails ahead).flatMap fun parsed =>
        (next.afterCut ahead parsed).filterMap Opening.parsed?)
      (next.follow ⟨m, turns⟩ (reach grammar ⟨m, turns⟩ calls) a)
      (next.follow ⟨m', turns⟩ (reach grammar ⟨m', turns⟩ calls') b) := by
  refine h.next (next.afterCut a.ahead) ?_ ?_ benign ?_
    (next.follow_advances (reach_advances grammar calls) a).later
    (next.follow_advances (reach_advances grammar calls') b).later
  · intro same
    exact (hsame same).mono fun _ => List.mem_append_left _
  · intro parsed shown
    exact next.afterCut_opens shown
  · intro parsed member later hlater
    refine List.mem_append_right _ (List.mem_flatMap.mpr ⟨parsed, member, ?_⟩)
    exact List.mem_filterMap.mpr ⟨_, hlater, rfl⟩

/-- Both parses repeat a rule. -/
theorem loop_meets {test : Test} {body : Rule}
    (hbody : ∀ a b, Same m a b → Meeting m m' body.trails
      (body.follow ⟨m, turns⟩ (reach grammar ⟨m, turns⟩ calls) a)
      (body.follow ⟨m', turns⟩ (reach grammar ⟨m', turns⟩ calls') b))
    (benign : ∀ ahead ∈ expressionStops, ∀ parsed ∈ body.trails ahead,
      ∀ o ∈ (Rule.loop test body).afterCut ahead parsed, o.benign = true)
    (left : Nat) (same : Same m a b) :
    Meeting m m' (Rule.loop test body).trails
      (State.repeatWhile (·.satisfies test)
        (body.follow ⟨m, turns⟩ (reach grammar ⟨m, turns⟩ calls)) left a)
      (State.repeatWhile (·.satisfies test)
        (body.follow ⟨m', turns⟩ (reach grammar ⟨m', turns⟩ calls')) left b) := by
  have advances (s : State) :
      s.Advances (body.follow ⟨m, turns⟩ (reach grammar ⟨m, turns⟩ calls) s) :=
    body.follow_advances (reach_advances grammar calls) s
  have advances' (s : State) :
      s.Advances (body.follow ⟨m', turns⟩ (reach grammar ⟨m', turns⟩ calls') s) :=
    body.follow_advances (reach_advances grammar calls') s
  -- Induction on the turns: after each turn the parses have met, and are in step or have parted.
  induction left generalizing a b with
  | zero =>
    simp only [State.repeatWhile, ← same.satisfies test]
    split
    · -- The turns are the same in both parses, so if one runs out of them both do.
      exact .parted (.starved (.inl rfl))
    · exact .same same
  | succ left ih =>
    simp only [State.repeatWhile, ← same.satisfies test]
    split
    · have turn := hbody a b same
      refine turn.next ((Rule.loop test body).afterCut _) ih ?_ (benign _) ?_
        ((State.Advances.kept ⟨0, 0⟩).repeatWhile advances left _).later
        ((State.Advances.kept ⟨0, 0⟩).repeatWhile advances' left _).later
      · intro parsed shown
        exact State.repeatWhile_opens advances
          (fun s shown _ => body.afterCut_opens shown) left parsed _ shown rfl
      · intro parsed member later hlater
        refine List.mem_flatMap.mpr ⟨parsed, member, ?_⟩
        exact List.mem_filterMap.mpr ⟨_, hlater, rfl⟩
    · exact .same same

/-- Two parses in step follow a rule of the grammar in step, or part. -/
theorem Rule.follow_meets (longer : m < m')
    (hgoals : ∀ goal a b, Same m a b → Meeting m m' (fun _ => [goal.trail])
      (reach grammar ⟨m, turns⟩ calls goal a) (reach grammar ⟨m', turns⟩ calls' goal b))
    (rule : Rule) (calm : ∀ ahead ∈ expressionStops, rule.calm ahead = true)
    (answered : rule.answered = true) (same : Same m a b) :
    Meeting m m' rule.trails (rule.follow ⟨m, turns⟩ (reach grammar ⟨m, turns⟩ calls) a)
      (rule.follow ⟨m', turns⟩ (reach grammar ⟨m', turns⟩ calls') b) := by
  -- Induction on the rule. Plain steps keep step, goals do by assumption, and only nested goals can
  -- be given up by one parse alone.
  induction rule generalizing a b with
  | done => exact .same same
  | take => exact .same (same.plain State.plain_take)
  | complain problem code => exact .same (same.plain (State.plain_complain problem code))
  | reject problem code => exact .same (same.plain (State.plain_reject problem code))
  | rejectNext code => exact .same (same.plain (State.plain_rejectNext code))
  | yield parsed => exact .same (same.recorded parsed)
  | andThen first next ihFirst ihNext =>
    -- The parses meet after the first rule, and the second one is calm after what that leaves.
    obtain ⟨answeredFirst, answeredNext⟩ := Bool.and_eq_true_iff.mp answered
    have parts (ahead) (stops : ahead ∈ expressionStops) :=
      Bool.and_eq_true_iff.mp (calm ahead stops)
    have calmBoth (ahead) (stops : ahead ∈ expressionStops) :=
      Bool.and_eq_true_iff.mp (parts ahead stops).1
    have start := ihFirst (fun ahead stops => (calmBoth ahead stops).1) answeredFirst same
    apply start.andThen
    · exact ihNext (fun ahead stops => (calmBoth ahead stops).2) answeredNext
    · intro stops parsed member o among
      exact List.all_eq_true.mp (List.all_eq_true.mp (parts _ stops).2 parsed member) o among
  | branch test yes no ihYes ihNo =>
    obtain ⟨answeredYes, answeredNo⟩ := Bool.and_eq_true_iff.mp answered
    have calmBoth (ahead) (stops : ahead ∈ expressionStops) :=
      Bool.and_eq_true_iff.mp (calm ahead stops)
    -- Parses in step see the same next tokens, so they take the same branch.
    simp only [Rule.follow, ← same.satisfies test]
    split
    · next holds =>
      have goesOn : Meeting m m' yes.trails
          (yes.follow ⟨m, turns⟩ (reach grammar ⟨m, turns⟩ calls) a)
          (yes.follow ⟨m', turns⟩ (reach grammar ⟨m', turns⟩ calls') b) := by
        rcases Bool.or_eq_true_iff.mp answeredYes with answers | guarded
        · exact ihYes (fun ahead stops => (calmBoth ahead stops).1) answers same
        · -- this goal is not reached where an expression ends
          obtain ⟨isNested, never⟩ := Bool.and_eq_true_iff.mp guarded
          obtain rfl := eq_of_beq isNested
          apply nested_meets longer same (hgoals .dereference)
          intro ends
          have known := List.all_eq_true.mp never a.ahead (State.ahead_mem_expressionStops ends)
          have fails := State.satisfies_of_decided a.shows_ahead (eq_of_beq known)
          rw [fails] at holds
          simp at holds
      exact goesOn.mono fun _ => List.mem_append_left _
    · have goesOn := ihNo (fun ahead stops => (calmBoth ahead stops).2) answeredNo same
      exact goesOn.mono fun _ => List.mem_append_right _
  | loop test body ih =>
    have calmBoth (ahead) (stops : ahead ∈ expressionStops) :=
      Bool.and_eq_true_iff.mp (calm ahead stops)
    refine loop_meets ?_ ?_ turns same
    · intro a b same
      exact ih (fun ahead stops => (calmBoth ahead stops).1) answered same
    · intro ahead stops parsed member o among
      exact List.all_eq_true.mp (List.all_eq_true.mp (calmBoth ahead stops).2 parsed member) o among
  | insist body ih =>
    obtain rfl := eq_of_beq answered
    exact insist_meets longer same (hgoals .statement)
  | node kind body ih =>
    have before := same.plain State.plain_skipTrivia
    exact (ih calm answered same.opened).close kind before.out
  | group body ih =>
    have before := same.plain State.plain_skipTrivia
    exact (ih calm answered same.opened).merge before.out
  | wrap kind body ih => exact (ih calm answered same).close kind rfl
  | call goal => exact hgoals goal a b same
  | nested goal => exact nested_meets longer same (hgoals goal) fun _ => answered

/-- Two parses in step reach a goal in step, or part. -/
theorem reach_meets (longer : m < m') (calls calls' : Nat) (goal : Goal) (same : Same m a b) :
    Meeting m m' (fun _ => [goal.trail]) (reach grammar ⟨m, turns⟩ calls goal a)
      (reach grammar ⟨m', turns⟩ calls' goal b) := by
  -- Induction on the calls of the first parse. A parse that has none left is cut off.
  induction calls generalizing calls' goal a b with
  | zero => exact .parted (.starved (.inl rfl))
  | succ calls ih =>
    cases calls' with
    | zero => exact .parted (.starved (.inr rfl))
    | succ calls' =>
      have meets := (grammar goal).follow_meets longer
        (fun goal a b same => ih calls' goal same)
        (fun ahead stops => (calm_grammar goal ahead stops).1) (answered_grammar goal) same
      exact meets.know fun ahead stops => (calm_grammar goal ahead stops).2

end Rules

end Meetings

/-! ## Texts -/

variable {m m' : Nat} {tokens : List Token}

/-- Two parses of one text meet at the end. -/
theorem finalState_meets (longer : m < m') (tokens : List Token) :
    Meeting m m' (fun _ => [none]) (finalState m tokens) (finalState m' tokens) := by
  have start : Same m (State.start tokens) (State.start tokens) :=
    -- They begin in the same state, in step.
    ⟨rfl, rfl, rfl, rfl, rfl, rfl, Nat.zero_le m, fun _ member => nomatch member⟩
  have parsed : Meeting m m' (fun _ => [Goal.trail (.statements false)])
      (reach grammar ⟨m, tokens.length⟩ (callAllowance m) (.statements false)
        (State.start tokens))
      (reach grammar ⟨m', tokens.length⟩ (callAllowance m') (.statements false)
        (State.start tokens)) :=
    reach_meets longer _ _ _ start
  exact parsed.skipTrivia

/-- Where nothing is reported and nothing is cut short, a larger limit changes nothing. -/
theorem finalState_same (longer : m < m') (unreported : ¬ (finalState m tokens).ReportsDepth)
    (uncut : ¬ (finalState m tokens).Cut) :
    Same m (finalState m tokens) (finalState m' tokens) := by
  cases finalState_meets longer tokens with
  | same same => exact same
  | waiting cut _ => exact absurd cut uncut
  | parted parted =>
    cases parted with
    -- No whole parse is cut off.
    | starved cut => simp [finalState_not_starved] at cut
    | reported depth => exact absurd depth unreported
    | apart cut _ => exact absurd cut uncut

/-- Where something is cut short without a report, two levels more bring it to light. -/
theorem finalState_errors_ne (unreported : ¬ (finalState m tokens).ReportsDepth)
    (cut : (finalState m tokens).Cut) :
    (finalState m tokens).errors ≠ (finalState (m + 2) tokens).errors := by
  have deep : m + 2 ≤ m + 2 := Nat.le_refl _
  have longer : m < m + 2 := by omega
  cases finalState_meets longer tokens with
  | same same =>
    obtain ⟨stop, member, harm⟩ := cut
    rw [same.harmless stop member] at harm
    simp at harm
  | waiting _ awaits =>
    -- The second parse has reported a missing expression, and the first one has not.
    obtain ⟨_, _, waits⟩ := awaits deep
    exact waits.errors_ne
  | parted parted =>
    cases parted with
    | starved cut => simp [finalState_not_starved] at cut
    | reported depth => exact absurd depth unreported
    | apart _ conflicts => exact (conflicts deep).errors_ne

end PerlOutline.Grammar

namespace PerlOutline.Syntax.Parse

open PerlOutline.Grammar

/-- A parse that does not report its nesting limit has the tree and the errors that it has with
every larger limit, just if it gave up nothing but statements at tokens that no statement begins
with. -/
theorem same_beyond_limit_iff (m : Nat) (text : List Char)
    (unreported : ∀ e ∈ (ofTextWithin m text).errors, e.code ≠ .e0205) :
    (∀ m', m ≤ m' →
        (ofTextWithin m' text).tree = (ofTextWithin m text).tree ∧
          (ofTextWithin m' text).errors = (ofTextWithin m text).errors) ↔
      ∀ stop ∈ (finalState m (tokenize text)).hushed, stop.harmless = true := by
  have silent : ¬ (finalState m (tokenize text)).ReportsDepth := by
    rintro ⟨e, member, code⟩
    exact unreported e (List.mem_reverse.mpr member) code
  constructor
  · intro alike stop member
    cases harm : stop.harmless with
    | true => rfl
    | false =>
      have differ := finalState_errors_ne silent ⟨stop, member, harm⟩
      -- What holds of all larger limits holds two levels further down, where the errors differ.
      have same := (alike (m + 2) (by omega)).2
      exact absurd (List.reverse_inj.mp same).symm differ
  · intro harmless m' longer
    -- With the same limit there is nothing to compare.
    rcases Nat.eq_or_lt_of_le longer with rfl | longer
    · exact ⟨rfl, rfl⟩
    · have uncut : ¬ (finalState m (tokenize text)).Cut := by
        rintro ⟨stop, member, harm⟩
        rw [harmless stop member] at harm
        simp at harm
      have same := finalState_same longer silent uncut
      constructor
      · show Tree.node .sourceFile (finalState m' (tokenize text)).out.reverse =
          Tree.node .sourceFile (finalState m (tokenize text)).out.reverse
        rw [same.out]
      · show (finalState m' (tokenize text)).errors.reverse =
          (finalState m (tokenize text)).errors.reverse
        rw [same.errors]

/-- Where a closing bracket is given up, nothing is lost. Where the operand of a long row of
negations is given up, the row is accepted although its operand is missing. -/
theorem same_beyond_limit_bangs :
    (∀ m', 1 ≤ m' → (ofTextWithin m' "{)}".toList).tree = (ofTextWithin 1 "{)}".toList).tree ∧
      (ofTextWithin m' "{)}".toList).errors = (ofTextWithin 1 "{)}".toList).errors) ∧
    let bangs := List.replicate 255 '!' ++ [';']
    (ofText bangs).errors = [] ∧
      ¬ ∀ m', defaultMaxDepth ≤ m' → (ofTextWithin m' bangs).tree = (ofText bangs).tree ∧
        (ofTextWithin m' bangs).errors = (ofText bangs).errors := by
  constructor
  · have spare : ∀ stop ∈ (finalState 1 (tokenize "{)}".toList)).hushed,
        stop.harmless = true := by decide +kernel
    exact (same_beyond_limit_iff 1 "{)}".toList (by decide +kernel)).mpr spare
  · intro bangs
    have accepted : (ofText bangs).errors = [] ∧
        ¬ ∀ stop ∈ (finalState defaultMaxDepth (tokenize bangs)).hushed,
          stop.harmless = true := by decide +kernel
    have unreported : ∀ e ∈ (ofText bangs).errors, e.code ≠ .e0205 := by simp [accepted.1]
    refine ⟨accepted.1, fun alike => accepted.2 ?_⟩
    exact (same_beyond_limit_iff defaultMaxDepth bangs unreported).mp alike

end PerlOutline.Syntax.Parse
