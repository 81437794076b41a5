import PerlOutline.Proofs.Opening

/-!
# Two parses side by side

Two parses of one text with different nesting limits are in step until the shorter limit gives
something up. This module says what it is for them to be in step, and what makes sure that they
never report the same again.

## Layers
- **`Tally`**: what a parse counts and notes, which reading neither sees nor changes.
- **`Same`**: parses in step.
- **`Reports`** and **`Denies`**: what is reported first after some errors.
- **`Awaits`** and **`Parted`**: parses that are not in step any more.
-/

namespace PerlOutline.Grammar

open PerlOutline.Syntax (Kind Token Tree Problem ErrorCode SyntaxError)

/-! ## Tallies -/

/-- What a parse counts and notes besides the text. -/
structure Tally where
  depth : Nat
  deepest : Nat
  last : Option Kind
  starved : Bool
  hushed : List Stop

namespace State

/-- The tally of a state. -/
def tally (s : State) : Tally :=
  ⟨s.depth, s.deepest, s.last, s.starved, s.hushed⟩

/-- The state with another tally. -/
def withTally (s : State) (t : Tally) : State :=
  { s with
    depth := t.depth, deepest := t.deepest, last := t.last, starved := t.starved
    hushed := t.hushed }

/-- A step neither sees nor changes the tally. -/
def Plain (f : State → State) : Prop :=
  ∀ s t, f (s.withTally t) = (f s).withTally t

/-- A plain step keeps the tally. -/
theorem Plain.tally {f : State → State} (plain : Plain f) (s : State) :
    (f s).tally = s.tally := by
  have moved : f s = (f s).withTally s.tally := plain s s.tally
  rw [moved]
  rfl

/-- Plain steps follow each other plainly. -/
theorem Plain.comp {f g : State → State} (hg : Plain g) (hf : Plain f) :
    Plain fun s => g (f s) := by
  intro s t
  show g (f (s.withTally t)) = (g (f s)).withTally t
  rw [hf, hg]

/-- To read a token is plain. -/
theorem plain_advance : Plain advance := by
  intro s t
  have same : (s.withTally t).rest = s.rest := rfl
  unfold advance
  rw [same]
  cases s.rest <;> rfl

/-- So it is to read several. -/
theorem plain_consume (n : Nat) : Plain (consume · n) := by
  induction n with
  | zero => exact fun _ _ => rfl
  | succ n ih => exact ih.comp plain_advance

/-- Trivia is read plainly. -/
theorem plain_skipTrivia : Plain skipTrivia :=
  fun s t => plain_consume s.triviaAhead s t

/-- So is the token behind it. -/
theorem plain_take : Plain take :=
  fun s t => plain_consume (s.triviaAhead + 1) s t

/-- To complain notes an error, and errors do not belong to the tally. -/
theorem plain_complain (problem : Problem) (code : ErrorCode) : Plain (complain · problem code) :=
  fun _ _ => rfl

/-- To set tokens aside is plain: the error node has its own scope and the same tally. -/
theorem plain_setAside (n : Nat) : Plain (setAside · n) := by
  intro s t
  have inside : (s.skipTrivia.opened.withTally t).consume n =
      (s.skipTrivia.opened.consume n).withTally t := plain_consume n s.skipTrivia.opened t
  have opened : (s.skipTrivia.withTally t).opened = s.skipTrivia.opened.withTally t := rfl
  simp only [setAside, plain_skipTrivia s t, opened, inside]
  rfl

/-- To reject looks at the next token and sets it aside. -/
theorem plain_reject (problem : Problem) (code : ErrorCode) : Plain (reject · problem code) := by
  intro s t
  have same : (s.withTally t).next? = s.next? := rfl
  simp only [reject, same]
  split
  · rfl
  · exact plain_setAside 1 (s.complain problem code) t

/-- The next token is rejected plainly. -/
theorem plain_rejectNext (code : ErrorCode) : Plain (rejectNext · code) := by
  intro s t
  have same : (s.withTally t).next? = s.next? := rfl
  simp only [rejectNext, same]
  split
  · exact plain_reject _ code s t
  · rfl

end State

/-! ## Parses in step -/

/-- The kinds that no statement begins with although they end an expression. -/
def strays : List Kind :=
  [.rParen, .rBracket, .rBrace, .colon, .orKw, .andKw, .xorKw]

/-- What was given up could not have been reached on a deeper level either: no statement begins
there. -/
def Stop.harmless (stop : Stop) : Bool :=
  stop.goal == .statement && stop.ahead.all strays.contains

/-- Two parses agree in all that matters later, and the first one has only given up what could not
be reached anyway. -/
structure Same (m : Nat) (a b : State) : Prop where
  rest : a.rest = b.rest
  offset : a.offset = b.offset
  out : a.out = b.out
  errors : a.errors = b.errors
  depth : a.depth = b.depth
  last : a.last = b.last
  shallow : a.depth ≤ m
  harmless : ∀ stop ∈ a.hushed, stop.harmless = true

namespace Same

variable {m : Nat} {a b : State}

/-- The next token is the same. -/
theorem next? (same : Same m a b) : a.next? = b.next? := by
  rw [State.next?, State.next?, same.rest]

/-- So is its range. -/
theorem nextRange (same : Same m a b) : a.nextRange = b.nextRange := by
  simp only [State.nextRange, same.next?, same.rest, same.offset]

/-- So is its kind. -/
theorem ahead (same : Same m a b) : a.ahead = b.ahead := by
  rw [State.ahead, State.ahead, same.next?]

/-- The kind that the first parse sees ahead is there for the second one on the next level. -/
theorem shows_entered (same : Same m a b) : b.entered.Shows ⟨a.ahead, none⟩ := by
  rw [same.ahead]
  exact b.shows_ahead

/-- Tests are answered alike. -/
theorem satisfies (same : Same m a b) (test : Test) : a.satisfies test = b.satisfies test := by
  -- A test sees the tokens that are left and the last expression, and nothing else.
  induction test with
  | next | word | atEnd => simp only [State.satisfies, same.next?]
  | second => simp only [State.satisfies, State.second?, same.rest]
  | adjacent => simp only [State.satisfies, same.rest]
  | parsed | parsedAs => simp only [State.satisfies, same.last]
  | both _ _ iha ihb | either _ _ iha ihb => simp only [State.satisfies, iha, ihb]
  | fails _ ih => simp only [State.satisfies, ih]

/-- A step that does not touch the tally is the same step in both parses. -/
theorem plain (same : Same m a b) {f : State → State} (hf : State.Plain f) :
    Same m (f a) (f b) := by
  have depthA : (f a).depth = a.depth := congrArg Tally.depth (hf.tally a)
  have depthB : (f b).depth = b.depth := congrArg Tally.depth (hf.tally b)
  have lastA : (f a).last = a.last := congrArg Tally.last (hf.tally a)
  have lastB : (f b).last = b.last := congrArg Tally.last (hf.tally b)
  have hushedA : (f a).hushed = a.hushed := congrArg Tally.hushed (hf.tally a)
  -- Up to the tally the two states are equal, so the step gives equal states up to the tally.
  have text : (f a).withTally a.tally = (f b).withTally a.tally := by
    rw [← hf, ← hf]
    congr 1
    simp only [State.withTally, same.rest, same.offset, same.out, same.errors]
  exact {
    rest := (congrArg State.rest text :)
    offset := (congrArg State.offset text :)
    out := (congrArg State.out text :)
    errors := (congrArg State.errors text :)
    depth := depthA.trans (same.depth.trans depthB.symm)
    last := lastA.trans (same.last.trans lastB.symm)
    shallow := Nat.le_trans (Nat.le_of_eq depthA) same.shallow
    harmless := by rw [hushedA]; exact same.harmless }

/-- What was parsed last can be said on both sides. -/
theorem recorded (same : Same m a b) (last : Option Kind) :
    Same m { a with last := last } { b with last := last } :=
  { same with last := rfl }

/-- Scopes are opened on both sides. -/
theorem opened (same : Same m a b) : Same m a.skipTrivia.opened b.skipTrivia.opened :=
  { same.plain State.plain_skipTrivia with out := rfl }

/-- Scopes become nodes on both sides. -/
theorem closed (same : Same m a b) (kind : Kind) {outer outer' : List Tree}
    (outside : outer = outer') : Same m (a.closed kind outer) (b.closed kind outer') where
  rest := same.rest
  offset := same.offset
  out := by simp only [State.closed, same.out, outside]
  errors := same.errors
  depth := same.depth
  last := rfl
  shallow := same.shallow
  harmless := same.harmless

/-- Scopes go over into those around them on both sides. -/
theorem merged (same : Same m a b) {outer outer' : List Tree} (outside : outer = outer') :
    Same m (a.merged outer) (b.merged outer') :=
  { same with out := by simp only [State.merged, same.out, outside] }

/-- Whether something was read is the same on both sides. -/
theorem insisted (same : Same m a b) {start start' : Nat} (hstart : start = start') :
    Same m (a.insisted start) (b.insisted start') := by
  simp only [State.insisted, same.offset, hstart]
  split
  · exact (same.plain (State.plain_rejectNext .e0901)).recorded none
  · exact same.recorded none

/-- Where the shorter limit is kept, a longer one leaves room for another level. -/
theorem room (same : Same m a b) {m' : Nat} (longer : m < m') : b.depth < m' := by
  rw [← same.depth]
  exact Nat.lt_of_le_of_lt same.shallow longer

/-- The next level is entered on both sides. -/
theorem entered (same : Same m a b) (room : a.depth < m) : Same m a.entered b.entered :=
  { same with depth := congrArg (· + 1) same.depth, shallow := room }

end Same

/-! ## What is reported first -/

namespace State

/-- After the errors `old`, the first error that was reported is `x`. -/
def Reports (s : State) (x : SyntaxError) (old : List SyntaxError) : Prop :=
  ∃ new, s.errors = new ++ x :: old

/-- After the errors `old`, the first error that was reported or will be is not `x`. -/
def Denies (s : State) (x : SyntaxError) (old : List SyntaxError) : Prop :=
  (s.errors = old ∧ x.range.start < s.offset) ∨ ∃ new y, s.errors = new ++ y :: old ∧ y ≠ x

variable {a b a' b' s s' : State} {x : SyntaxError} {old : List SyntaxError}

/-- The first report stays the first. -/
theorem Reports.later (h : s.Reports x old) (later : s.Later s') : s'.Reports x old := by
  obtain ⟨new, hnew⟩ := h
  obtain ⟨added, hadded, _⟩ := later.errors
  exact ⟨added ++ new, by rw [hadded, hnew, List.append_assoc]⟩

/-- Nor can the denial be taken back: what is reported later is about later tokens. -/
theorem Denies.later (h : s.Denies x old) (later : s.Later s') : s'.Denies x old := by
  obtain ⟨added, hadded, ahead⟩ := later.errors
  rcases h with ⟨nothing, behind⟩ | ⟨new, y, hnew, different⟩
  · rcases List.eq_nil_or_concat added with rfl | ⟨init, y, rfl⟩
    · exact .inl ⟨hadded.trans nothing, Nat.lt_of_lt_of_le behind later.offset⟩
    · -- the first error that was added is about a later token
      refine .inr ⟨init, y, by simp [hadded, nothing], ?_⟩
      rintro rfl
      have := ahead y (by simp)
      omega
  · exact .inr ⟨added ++ new, y, by rw [hadded, hnew, List.append_assoc], different⟩

/-- What one parse reports and the other denies, they do not have in common. -/
theorem Reports.ne_of_denies (h : a.Reports x old) (denied : b.Denies x old) :
    a.errors ≠ b.errors := by
  obtain ⟨new, hnew⟩ := h
  intro same
  rw [hnew] at same
  -- Equal errors would have the same length and then the same error above the old ones.
  rcases denied with ⟨nothing, _⟩ | ⟨new', y, hnew', different⟩
  · have := congrArg List.length (same.trans nothing)
    simp at this
    omega
  · have heads : x :: old = y :: old :=
      List.append_inj_right' (same.trans hnew') (by simp)
    exact different (List.cons.inj heads).1.symm

/-- One of two parses has reported what the other denies. -/
def Conflicts (a b : State) : Prop :=
  ∃ x old, (a.Reports x old ∧ b.Denies x old) ∨ (b.Reports x old ∧ a.Denies x old)

/-- A conflict stays, whatever both parses do. -/
theorem Conflicts.later (h : a.Conflicts b) (ha : a.Later a') (hb : b.Later b') :
    a'.Conflicts b' := by
  obtain ⟨x, old, ⟨reports, denies⟩ | ⟨reports, denies⟩⟩ := h
  · exact ⟨x, old, .inl ⟨reports.later ha, denies.later hb⟩⟩
  · exact ⟨x, old, .inr ⟨reports.later hb, denies.later ha⟩⟩

/-- Parses in conflict report different errors. -/
theorem Conflicts.errors_ne (h : a.Conflicts b) : a.errors ≠ b.errors := by
  obtain ⟨x, old, ⟨reports, denies⟩ | ⟨reports, denies⟩⟩ := h
  · exact reports.ne_of_denies denies
  · exact (reports.ne_of_denies denies).symm

/-! ## Parses that are not in step -/

/-- The parse has reported that nesting goes too deep. -/
def ReportsDepth (s : State) : Prop :=
  ∃ e ∈ s.errors, e.code = .e0205

/-- The parse has given up silently what could be reached on a deeper level. -/
def Cut (s : State) : Prop :=
  ∃ stop ∈ s.hushed, stop.harmless = false

/-- What was reported stays reported. -/
theorem ReportsDepth.later (h : s.ReportsDepth) (later : s.Later s') : s'.ReportsDepth := by
  obtain ⟨e, member, code⟩ := h
  obtain ⟨added, hadded, _⟩ := later.errors
  exact ⟨e, hadded ▸ List.mem_append_right _ member, code⟩

/-- What was given up stays given up. -/
theorem Cut.later (h : s.Cut) (later : s.Later s') : s'.Cut := by
  obtain ⟨stop, member, harm⟩ := h
  exact ⟨stop, later.hushed.subset member, harm⟩

end State

/-- The tokens at which an expression ends, and the end of the text. -/
def expressionStops : List (Option Kind) :=
  none :: expressionEnds.map some

/-- Where an expression ends, such a token is ahead or none. -/
theorem State.ahead_mem_expressionStops {s : State} (ends : s.satisfies .endsExpression = true) :
    s.ahead ∈ expressionStops := by
  have either : s.next?.isNone = true ∨
      s.next?.any (fun t => expressionEnds.contains t.kind) = true := by
    simpa [State.satisfies, Test.endsExpression] using ends
  cases hnext : s.next? with
  | none => simp [State.ahead, hnext, expressionStops]
  | some t =>
    rw [hnext] at either
    have member : t.kind ∈ expressionEnds := by simpa using either
    rw [State.ahead, hnext]
    exact List.mem_cons_of_mem _ (List.mem_map_of_mem member)

namespace State

variable {a b : State}

/-- What a missing expression is reported as. -/
def missing (s : State) : SyntaxError :=
  ⟨.missingExpression, .e0401, s.nextRange⟩

/-- A parse stands where an expression ends, and another one has reported there that one is
missing. -/
structure Awaits (parsed : Option Bool) (a b : State) : Prop where
  ends : a.ahead ∈ expressionStops
  parsed : ∀ p, parsed = some p → a.last.isSome = p
  reports : b.Reports a.missing a.errors

/-- Its errors are one short of those of the other parse. -/
theorem Awaits.errors_ne {parsed : Option Bool} (h : Awaits parsed a b) : a.errors ≠ b.errors := by
  obtain ⟨new, hnew⟩ := h.reports
  intro same
  -- The second parse has at least one error more.
  have := congrArg List.length (same.trans hnew)
  simp at this
  omega

end State

/-- Two parses, following `m` and `m'` nesting levels, that never come in step again: one was cut
off, or the first one has reported its limit, or it was cut short. In the last case their errors
differ if the second one follows at least two levels more. -/
inductive Parted (m m' : Nat) (a b : State) : Prop where
  | starved (cut : a.starved = true ∨ b.starved = true)
  | reported (depth : a.ReportsDepth)
  | apart (cut : a.Cut) (conflicts : m + 2 ≤ m' → a.Conflicts b)

/-- Parses that are parted stay so. -/
theorem Parted.later {m m' : Nat} {a b a' b' : State} (h : Parted m m' a b) (ha : a.Later a')
    (hb : b.Later b') : Parted m m' a' b' := by
  cases h with
  | starved cut => exact .starved (cut.imp ha.starved hb.starved)
  | reported depth => exact .reported (depth.later ha)
  | apart cut conflicts => exact .apart (cut.later ha) fun deep => (conflicts deep).later ha hb

/-- How two parses can stand to each other. While the first one waits, `trails` says what may be
known of whether it parsed an expression, depending on the next token. -/
inductive Meeting (m m' : Nat) (trails : Option Kind → List (Option Bool)) (a b : State) :
    Prop where
  | same (same : Same m a b)
  | waiting (cut : a.Cut)
      (awaits : m + 2 ≤ m' → ∃ parsed ∈ trails a.ahead, a.Awaits parsed b)
  | parted (parted : Parted m m' a b)

end PerlOutline.Grammar
