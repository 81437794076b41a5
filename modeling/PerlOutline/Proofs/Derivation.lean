import PerlOutline.Proofs.Bare
import PerlOutline.Proofs.Termination
import PerlOutline.Syntax.Parse

/-!
# Derivations

What the grammar says of a program, without trivia, allowances and turns: a derivation follows the
rules over the tokens of the program and builds its tree. Whatever is derived is what a parse does,
and it does so without an error.

## Layers
- **`Config`**: what a state shows when trivia is left out, and the tests that it answers.
- **Reading** in terms of configurations.
- **`Derives`**: one way to use each instruction.
- **`Tells`**: what a parse does and reports, instruction by instruction.
- **Soundness**: a parse follows what is derived.
-/

namespace PerlOutline.Grammar

open PerlOutline.Syntax (Kind Token Tree Parse Problem ErrorCode SyntaxError)

/-! ## Configurations -/

/-- What a state shows when trivia is left out. -/
structure Config where
  /-- The tokens that are not read yet. -/
  rest : List Token
  /-- What the open scope holds, last first. -/
  out : List Tree
  /-- Kind of the expression just parsed, if there was one. -/
  last : Option Kind

/-- The answer to a test. Where trivia is, a configuration does not know. -/
def Config.answer (c : Config) : Test → Option Bool
  | .next kinds => some (c.rest.head?.any fun t => kinds.contains t.kind)
  | .second kinds => some (c.rest.tail.head?.any fun t => kinds.contains t.kind)
  | .word words => some (c.rest.head?.any fun t => words.contains t.text)
  | .atEnd => some c.rest.isEmpty
  -- whether two tokens touch is told by the trivia between them
  | .adjacent => none
  | .parsed => some c.last.isSome
  | .parsedAs kinds => some (c.last.any kinds.contains)
  | .both a b =>
    match c.answer a, c.answer b with
    -- one part that fails decides the test, known or not
    | some true, known | known, some true => known
    | some false, _ | _, some false => some false
    | none, none => none
  | .either a b =>
    match c.answer a, c.answer b with
    | some false, known | known, some false => known
    | some true, _ | _, some true => some true
    | none, none => none
  | .fails t => (c.answer t).map (!·)

namespace State

/-- What a state shows when trivia is left out. -/
def config (s : State) : Config where
  rest := s.rest.filter (!·.isTrivia)
  out := Tree.bareForest s.out
  last := s.last

/-- What is significant first is first where trivia is left out, and so is what follows it. -/
theorem significant_eq (ts : List Token) :
    (significant ts).head? = (ts.filter (!·.isTrivia)).head? ∧
      (significant ts).tail.filter (!·.isTrivia) = (ts.filter (!·.isTrivia)).tail := by
  induction ts with
  | nil => exact ⟨rfl, rfl⟩
  | cons t ts ih =>
    cases trivia : t.isTrivia with
    | true => simpa [significant, trivia] using ih
    | false => simp [significant, trivia]

/-- The next token is the first that is shown. -/
theorem next?_eq (s : State) : s.next? = s.config.rest.head? :=
  (significant_eq s.rest).1

/-- The token after the next is the second that is shown. -/
theorem second?_eq (s : State) : s.second? = s.config.rest.tail.head? := by
  rw [second?, (significant_eq _).1, (significant_eq s.rest).2]
  rfl

/-- A test that is answered is answered right. -/
theorem satisfies_of_answer {s : State} {t : Test} {b : Bool} (known : s.config.answer t = some b) :
    s.satisfies t = b := by
  induction t generalizing b with
  | next kinds =>
    rw [satisfies, next?_eq]
    exact Option.some.inj known
  | second kinds =>
    rw [satisfies, second?_eq]
    exact Option.some.inj known
  | word words =>
    rw [satisfies, next?_eq]
    exact Option.some.inj known
  | atEnd =>
    rw [satisfies, next?_eq, ← Option.some.inj known]
    cases s.config.rest <;> rfl
  | adjacent => simp [Config.answer] at known
  | parsed | parsedAs kinds => exact Option.some.inj known
  | both a c iha ihc =>
    simp only [Config.answer] at known
    simp only [satisfies]
    -- The second test is decided even where only one of the two parts is.
    split at known <;> simp_all
  | either a c iha ihc =>
    simp only [Config.answer] at known
    unfold satisfies
    split at known <;> simp_all
  | fails t ih =>
    obtain ⟨c, hc, rfl⟩ := Option.map_eq_some_iff.mp known
    simp only [satisfies, ih hc]

/-! ## Reading -/

variable {s : State} {t : Token} {ts : List Token} {out : List Tree} {last : Option Kind}

/-- Reading trivia changes nothing that is shown. -/
theorem config_advance_trivia (h : s.rest = t :: ts) (trivia : t.isTrivia = true) :
    s.advance.config = s.config := by
  simp [config, advance, h, Tree.bareForest, Tree.bare, trivia]

/-- Trivia in front is skipped one token at a time. -/
theorem skipTrivia_of_trivia (h : s.rest = t :: ts) (trivia : t.isTrivia = true) :
    s.skipTrivia = s.advance.skipTrivia := by
  have more : s.triviaAhead = s.advance.triviaAhead + 1 := by
    simp [triviaAhead, rest_advance, h, trivia]
  rw [skipTrivia, more]
  rfl

/-- Trivia in front is skipped before a token is taken. -/
theorem take_of_trivia (h : s.rest = t :: ts) (trivia : t.isTrivia = true) :
    s.take = s.advance.take := by
  have more : s.triviaAhead = s.advance.triviaAhead + 1 := by
    simp [triviaAhead, rest_advance, h, trivia]
  rw [take, more]
  rfl

/-- Skipping trivia changes nothing that is shown. -/
theorem config_skipTrivia (s : State) : s.skipTrivia.config = s.config := by
  -- induction on the tokens ahead, of which trivia is read one after the other
  generalize hrest : s.rest = rest
  induction rest generalizing s with
  | nil => simp [skipTrivia, triviaAhead, hrest, consume]
  | cons t ts ih =>
    cases trivia : t.isTrivia with
    | true =>
      rw [skipTrivia_of_trivia hrest trivia, ih s.advance (by rw [rest_advance, hrest]; rfl)]
      exact config_advance_trivia hrest trivia
    | false => simp [skipTrivia, triviaAhead, hrest, trivia, consume]

/-- Taking a token moves it from the rest into the open scope. -/
theorem config_take (h : s.config = ⟨t :: ts, out, last⟩) :
    s.take.config = ⟨ts, .token t :: out, last⟩ := by
  generalize hrest : s.rest = rest
  -- trivia in front of the token is read first
  induction rest generalizing s with
  | nil => simp [config, hrest] at h
  | cons t' ts' ih =>
    cases trivia : t'.isTrivia with
    | true =>
      rw [take_of_trivia hrest trivia]
      exact ih ((config_advance_trivia hrest trivia).trans h) (by rw [rest_advance, hrest]; rfl)
    | false =>
      simp only [config, hrest, trivia, Bool.not_false, List.filter_cons_of_pos,
        Config.mk.injEq, List.cons.injEq] at h
      obtain ⟨⟨rfl, rfl⟩, rfl, rfl⟩ := h
      simp [take, triviaAhead, hrest, trivia, consume, config, advance, Tree.bareForest,
        Tree.bare]

/-- Consuming tokens reports nothing. -/
theorem errors_consume (s : State) (n : Nat) : (s.consume n).errors = s.errors := by
  rw [consume_frame]

/-- Consuming tokens does not change the deepest level. -/
theorem deepest_consume (s : State) (n : Nat) : (s.consume n).deepest = s.deepest := by
  rw [consume_frame]

end State

/-! ## Derivations -/

/-- A rule leads from one configuration to another without an error. It begins at nesting level
`depth`, and `deepest` is the deepest level that it comes to. -/
inductive Derives : (depth deepest : Nat) → Rule → Config → Config → Prop where
  | done {depth : Nat} {c : Config} : Derives depth depth .done c c
  | andThen {depth before after : Nat} {first next : Rule} {a b c : Config} :
    Derives depth before first a b → Derives depth after next b c →
    Derives depth (max before after) (.andThen first next) a c
  | take {depth : Nat} {t : Token} {ts : List Token} {out : List Tree} {last : Option Kind} :
    Derives depth depth .take ⟨t :: ts, out, last⟩ ⟨ts, .token t :: out, last⟩
  | yield {depth : Nat} {parsed last : Option Kind} {ts : List Token} {out : List Tree} :
    Derives depth depth (.yield parsed) ⟨ts, out, last⟩ ⟨ts, out, parsed⟩
  | yes {depth deepest : Nat} {test : Test} {yes no : Rule} {a b : Config} :
    a.answer test = some true → Derives depth deepest yes a b →
    Derives depth deepest (.branch test yes no) a b
  | no {depth deepest : Nat} {test : Test} {yes no : Rule} {a b : Config} :
    a.answer test = some false → Derives depth deepest no a b →
    Derives depth deepest (.branch test yes no) a b
  | stop {depth : Nat} {test : Test} {body : Rule} {c : Config} :
    c.answer test = some false → Derives depth depth (.loop test body) c c
  | turn {depth before after : Nat} {test : Test} {body : Rule} {a b c : Config} :
    a.answer test = some true → Derives depth before body a b →
    Derives depth after (.loop test body) b c →
    Derives depth (max before after) (.loop test body) a c
  | insist {depth deepest : Nat} {body : Rule} {a : Config} {ts : List Token} {out : List Tree}
    {last : Option Kind} :
    Derives depth deepest body a ⟨ts, out, last⟩ → ts.length < a.rest.length →
    Derives depth deepest (.insist body) a ⟨ts, out, none⟩
  | node {depth deepest : Nat} {kind : Kind} {body : Rule} {ts us : List Token}
    {out inner : List Tree} {last ended : Option Kind} :
    Derives depth deepest body ⟨ts, [], last⟩ ⟨us, inner, ended⟩ →
    Derives depth deepest (.node kind body) ⟨ts, out, last⟩
      ⟨us, .node kind inner.reverse :: out, some kind⟩
  | group {depth deepest : Nat} {body : Rule} {ts us : List Token} {out inner : List Tree}
    {last ended : Option Kind} :
    Derives depth deepest body ⟨ts, [], last⟩ ⟨us, inner, ended⟩ →
    Derives depth deepest (.group body) ⟨ts, out, last⟩ ⟨us, inner ++ out, ended⟩
  | wrap {depth deepest : Nat} {kind : Kind} {body : Rule} {a : Config} {us : List Token}
    {inner : List Tree} {ended : Option Kind} :
    Derives depth deepest body a ⟨us, inner, ended⟩ →
    Derives depth deepest (.wrap kind body) a ⟨us, [.node kind inner.reverse], some kind⟩
  | call {depth deepest : Nat} {goal : Goal} {a b : Config} :
    Derives depth deepest (grammar goal) a b → Derives depth deepest (.call goal) a b
  | nested {depth deepest : Nat} {goal : Goal} {a b : Config} :
    Derives (depth + 1) deepest (grammar goal) a b → Derives depth deepest (.nested goal) a b

/-- A derivation does not end above the level where it begins. -/
theorem Derives.depth_le {depth deepest : Nat} {rule : Rule} {a b : Config}
    (h : Derives depth deepest rule a b) : depth ≤ deepest := by
  induction h with
  | done | take | yield | stop => exact Nat.le_refl _
  | andThen _ _ ih _ => exact Nat.le_trans ih (Nat.le_max_left _ _)
  | turn _ _ _ ih _ => exact Nat.le_trans ih (Nat.le_max_left _ _)
  | yes _ _ ih | no _ _ ih | insist _ _ ih | node _ ih | group _ ih | wrap _ ih | call _ ih =>
    exact ih
  | nested _ ih => exact Nat.le_of_succ_le ih

/-! ## Reports -/

/-- Follow a rule; a loop makes at most the given number of turns. -/
def Rule.followFor (turns : Nat) (limits : Limits) (reach : Goal → State → State) :
    Rule → State → State
  | .loop test body, s =>
    State.repeatWhile (·.satisfies test) (body.follow limits reach) turns s
  | rule, s => rule.follow limits reach s

/-- A loop is followed for as many turns as the limits allow. -/
theorem Rule.follow_eq (limits : Limits) (reach : Goal → State → State) (rule : Rule) (s : State) :
    rule.follow limits reach s = rule.followFor limits.maxTurns limits reach s := by
  cases rule <;> rfl

/-- The state shows `c` at a nesting level that was noted. -/
structure State.Ready (s : State) (depth : Nat) (c : Config) : Prop where
  config : s.config = c
  level : s.depth = depth
  noted : depth ≤ s.deepest

/-- After a step the state shows `c`, `told` was reported on the way, last first, and the step came
down to the level `deepest`. -/
structure State.Tells (s : State) (deepest : Nat) (told : List (Problem × ErrorCode)) (s' : State)
    (c : Config) : Prop where
  config : s'.config = c
  errors : ∃ new : List SyntaxError,
    s'.errors = new ++ s.errors ∧ new.map (fun e => (e.problem, e.code)) = told
  deepest : s'.deepest = max s.deepest deepest

namespace State.Tells

variable {s s' s'' : State} {told told' : List (Problem × ErrorCode)} {b c : Config}
  {depth deepest before after : Nat}

/-- What changes neither the errors nor the levels tells nothing and comes down no deeper. -/
theorem of_same (start : s.Ready depth b) (config : s'.config = c) (errors : s'.errors = s.errors)
    (same : s'.deepest = s.deepest) : s.Tells depth [] s' c :=
  ⟨config, ⟨[], errors, rfl⟩, same.trans (Nat.max_eq_left start.noted).symm⟩

/-- After a step the state is ready for the next one. -/
theorem ready (h : s.Tells deepest told s' c) (start : s.Ready depth b)
    (same : s'.depth = s.depth) : s'.Ready depth c :=
  ⟨h.config, same.trans start.level,
    h.deepest ▸ Nat.le_trans start.noted (Nat.le_max_left _ _)⟩

/-- Steps tell what each of them tells, and come down as deep as the deeper one. -/
theorem trans (first : s.Tells before told s' b) (next : s'.Tells after told' s'' c) :
    s.Tells (max before after) (told' ++ told) s'' c := by
  obtain ⟨new, errors, rfl⟩ := first.errors
  obtain ⟨new', errors', rfl⟩ := next.errors
  refine ⟨next.config, ⟨new' ++ new, ?_, List.map_append⟩, ?_⟩
  · rw [errors', errors, List.append_assoc]
  · rw [next.deepest, first.deepest, Nat.max_assoc]

end State.Tells

/-- Where a rule is not cut off it leads from `a` to `b`, reports `told` on the way and comes down
to the level `deepest`, whatever the allowances are. -/
def Rule.Tells (limits : Limits) (depth deepest : Nat) (told : List (Problem × ErrorCode))
    (rule : Rule) (a b : Config) : Prop :=
  ∀ allowance turns (s : State), s.Ready depth a →
    (rule.followFor turns limits (reach grammar limits allowance) s).starved = false →
    s.Tells deepest told (rule.followFor turns limits (reach grammar limits allowance) s) b

section Reports

variable {limits : Limits} {depth deepest before after : Nat} {rule body : Rule} {a b c : Config}
  {told told' : List (Problem × ErrorCode)} {allowance : Nat} {s : State}

/-- Following a rule only moves on. -/
theorem Rule.follow_onward (limits : Limits) (allowance : Nat) (rule : Rule) (s : State) :
    s.Advances (rule.follow limits (reach grammar limits allowance) s) :=
  rule.follow_advances (reach_advances grammar allowance) s

/-- Repeating a rule only moves on. -/
theorem Rule.repeat_onward (limits : Limits) (allowance : Nat) (body : Rule) (test : Test)
    (turns : Nat) (s : State) :
    s.Advances (State.repeatWhile (·.satisfies test)
      (body.follow limits (reach grammar limits allowance)) turns s) :=
  (State.Advances.kept limits).repeatWhile (body.follow_onward limits allowance) turns s

namespace Rule.Tells

/-- What a rule tells does not depend on how its turns are counted. -/
theorem follow (h : rule.Tells limits depth deepest told a b) (start : s.Ready depth a)
    (fed : (rule.follow limits (reach grammar limits allowance) s).starved = false) :
    s.Tells deepest told (rule.follow limits (reach grammar limits allowance) s) b := by
  rw [Rule.follow_eq] at fed ⊢
  exact h allowance limits.maxTurns s start fed

/-- One rule after the other: the reports of the second come in front, as the last ones. -/
theorem andThen {first next : Rule} (hfirst : first.Tells limits depth before told a b)
    (hnext : next.Tells limits depth after told' b c) :
    (Rule.andThen first next).Tells limits depth (max before after) (told' ++ told) a c := by
  intro allowance turns s start fed
  have onward := first.follow_onward limits allowance s
  have further := next.follow_onward limits allowance
    (first.follow limits (reach grammar limits allowance) s)
  -- the second rule was fed, so the first one was
  have middle := hfirst.follow start (further.not_starved fed)
  exact middle.trans (hnext.follow (middle.ready start onward.depth) fed)

/-- A branch whose test is answered tells what the rule of the answer tells. -/
theorem branch {test : Test} {yes no : Rule} {answer : Bool}
    (answered : a.answer test = some answer)
    (h : (if answer then yes else no).Tells limits depth deepest told a b) :
    (Rule.branch test yes no).Tells limits depth deepest told a b := by
  intro allowance turns s start fed
  have same : s.satisfies test = answer := State.satisfies_of_answer (start.config ▸ answered)
  simp only [Rule.followFor, Rule.follow, same] at fed ⊢
  cases answer with
  | true => exact h.follow start fed
  | false => exact h.follow start fed

/-- A loop that is done tells nothing, even without a turn left. -/
theorem stop {test : Test} (answered : a.answer test = some false) :
    (Rule.loop test body).Tells limits depth depth [] a a := by
  intro allowance turns s start fed
  have same : s.satisfies test = false := State.satisfies_of_answer (start.config ▸ answered)
  cases turns with
  | zero =>
    simp only [followFor, State.repeatWhile, same, Bool.false_eq_true, if_false]
    exact .of_same start start.config rfl rfl
  | succ turns =>
    simp only [followFor, State.repeatWhile, same, Bool.false_eq_true, if_false]
    exact .of_same start start.config rfl rfl

/-- A loop that goes on tells what its turn and the loop after it tell. -/
theorem turn {test : Test} (answered : a.answer test = some true)
    (hbody : body.Tells limits depth before told a b)
    (hloop : (Rule.loop test body).Tells limits depth after told' b c) :
    (Rule.loop test body).Tells limits depth (max before after) (told' ++ told) a c := by
  intro allowance turns s start fed
  have same : s.satisfies test = true := State.satisfies_of_answer (start.config ▸ answered)
  cases turns with
  | zero =>
    -- a loop without a turn left would be cut off
    simp [followFor, State.repeatWhile, same] at fed
  | succ turns =>
    simp only [followFor, State.repeatWhile, same, if_true] at fed ⊢
    have onward := body.follow_onward limits allowance s
    have further := body.repeat_onward limits allowance test turns
      (body.follow limits (reach grammar limits allowance) s)
    -- the turns after this one were fed, so this one was
    have middle := hbody.follow start (further.not_starved fed)
    exact middle.trans (hloop allowance turns _ (middle.ready start onward.depth) fed)

/-- What must move on moves on where there is less to read afterwards. -/
theorem insist {ts : List Token} {out : List Tree} {last : Option Kind}
    (hbody : body.Tells limits depth deepest told a ⟨ts, out, last⟩)
    (shorter : ts.length < a.rest.length) :
    (Rule.insist body).Tells limits depth deepest told a ⟨ts, out, none⟩ := by
  intro allowance turns s start fed
  have fed' := (State.starved_insisted _ _).symm.trans fed
  have inside := hbody.follow start fed'
  have onward := body.follow_onward limits allowance s
  have moved : (body.follow limits (reach grammar limits allowance) s).offset ≠ s.offset := by
    -- had it stayed where it was, there would be as much to read as before
    intro still
    have same : (body.follow limits (reach grammar limits allowance) s).rest = s.rest := by
      apply onward.rest.eq_of_length_le
      refine Nat.not_lt.mp fun less => ?_
      have := onward.offset_lt less
      omega
    have rest : s.config.rest = ts := by
      rw [State.config, ← same]
      exact congrArg Config.rest inside.config
    rw [← start.config, rest] at shorter
    exact absurd shorter (Nat.lt_irrefl _)
  obtain ⟨config, errors, deepest⟩ := inside
  simp only [State.config, Config.mk.injEq] at config
  simp only [followFor, Rule.follow, State.insisted, if_neg moved]
  exact ⟨by simp [State.config, config], errors, deepest⟩

/-- A scope inside the open one begins with nothing in it. -/
theorem scope {ts : List Token} {out : List Tree} {last : Option Kind}
    (start : s.Ready depth ⟨ts, out, last⟩) :
    s.skipTrivia.opened.Ready depth ⟨ts, [], last⟩ ∧ Tree.bareForest s.skipTrivia.out = out := by
  have ready := s.config_skipTrivia.trans start.config
  simp only [State.config, Config.mk.injEq] at ready
  -- skipping trivia and opening a scope change neither what is shown nor how deep it is
  refine ⟨⟨by simp [State.config, State.opened, ready, Tree.bareForest],
    s.skipTrivia_advances.depth.trans start.level, ?_⟩, ready.2.1⟩
  show depth ≤ (s.consume _).deepest
  rw [State.deepest_consume]
  exact start.noted

/-- What a rule tells in a scope of its own is told outside of it. -/
theorem inScope {ts us : List Token} {inner : List Tree} {last ended : Option Kind}
    (h : body.Tells limits depth deepest told ⟨ts, [], last⟩ ⟨us, inner, ended⟩) {out : List Tree}
    (start : s.Ready depth ⟨ts, out, last⟩)
    (fed : (body.follow limits (reach grammar limits allowance) s.skipTrivia.opened).starved =
      false) :
    s.Tells deepest told (body.follow limits (reach grammar limits allowance) s.skipTrivia.opened)
      ⟨us, inner, ended⟩ := by
  have inside := h.follow (scope start).1 fed
  have same : s.skipTrivia.opened.errors = s.errors := s.errors_consume _
  have level : s.skipTrivia.opened.deepest = s.deepest := s.deepest_consume _
  exact ⟨inside.config, same ▸ inside.errors, level ▸ inside.deepest⟩

/-- A node tells what the rule inside of it tells. -/
theorem node {kind : Kind} {ts us : List Token} {out inner : List Tree} {last ended : Option Kind}
    (h : body.Tells limits depth deepest told ⟨ts, [], last⟩ ⟨us, inner, ended⟩) :
    (Rule.node kind body).Tells limits depth deepest told ⟨ts, out, last⟩
      ⟨us, .node kind inner.reverse :: out, some kind⟩ := by
  intro allowance turns s start fed
  obtain ⟨config, errors, deepest⟩ := h.inScope start fed
  have outer := (scope start).2
  simp only [State.config, Config.mk.injEq] at config
  refine ⟨?_, errors, deepest⟩
  simp [followFor, Rule.follow, State.closed, State.config, Tree.bareForest, Tree.bare, config,
    outer]

/-- A group tells what the rule inside of it tells. -/
theorem group {ts us : List Token} {out inner : List Tree} {last ended : Option Kind}
    (h : body.Tells limits depth deepest told ⟨ts, [], last⟩ ⟨us, inner, ended⟩) :
    (Rule.group body).Tells limits depth deepest told ⟨ts, out, last⟩
      ⟨us, inner ++ out, ended⟩ := by
  intro allowance turns s start fed
  obtain ⟨config, errors, deepest⟩ := h.inScope start fed
  have outer := (scope start).2
  simp only [State.config, Config.mk.injEq] at config
  refine ⟨?_, errors, deepest⟩
  simp [followFor, Rule.follow, State.merged, State.config, config, outer]

/-- A scope that becomes a node tells what the rule in it tells. -/
theorem wrap {kind : Kind} {us : List Token} {inner : List Tree} {ended : Option Kind}
    (h : body.Tells limits depth deepest told a ⟨us, inner, ended⟩) :
    (Rule.wrap kind body).Tells limits depth deepest told a
      ⟨us, [.node kind inner.reverse], some kind⟩ := by
  intro allowance turns s start fed
  obtain ⟨config, errors, deepest⟩ := h.follow start fed
  simp only [State.config, Config.mk.injEq] at config
  refine ⟨?_, errors, deepest⟩
  simp [followFor, Rule.follow, State.closed, State.config, Tree.bareForest, Tree.bare, config]

/-- A call tells what the rule of its goal tells. -/
theorem call {goal : Goal} (h : (grammar goal).Tells limits depth deepest told a b) :
    (Rule.call goal).Tells limits depth deepest told a b := by
  intro allowance turns s start fed
  cases allowance with
  -- without an allowance the call would be cut off
  | zero => exact absurd fed (fun h => Bool.noConfusion h)
  | succ allowance => exact h.follow start fed

/-- A goal one level further down tells what its rule tells, if there is a level left. -/
theorem nested {goal : Goal} (below : depth + 1 ≤ deepest) (room : depth < limits.maxDepth)
    (h : (grammar goal).Tells limits (depth + 1) deepest told a b) :
    (Rule.nested goal).Tells limits depth deepest told a b := by
  intro allowance turns s start fed
  have level : s.depth < limits.maxDepth := start.level.symm ▸ room
  simp only [followFor, Rule.follow, State.deeper, if_pos level] at fed ⊢
  cases allowance with
  | zero => exact absurd fed (fun h => Bool.noConfusion h)
  | succ allowance =>
    -- the level was noted when it was entered, and what is below is deeper still
    have entered : s.entered.Ready (depth + 1) a :=
      ⟨start.config, congrArg (· + 1) start.level, start.level ▸ Nat.le_max_right _ _⟩
    have inside := h.follow entered fed
    refine ⟨inside.config, inside.errors, inside.deepest.trans ?_⟩
    show max (max s.deepest (s.depth + 1)) deepest = max s.deepest deepest
    rw [start.level, Nat.max_assoc, Nat.max_eq_right below]

end Rule.Tells

end Reports

/-! ## Soundness -/

/-- Whatever is derived is what a rule does where it is not cut off, if the limit is not passed, and
nothing is reported on the way. -/
theorem Derives.tells {limits : Limits} {depth deepest : Nat} {rule : Rule} {a b : Config}
    (h : Derives depth deepest rule a b) (room : deepest ≤ limits.maxDepth) :
    rule.Tells limits depth deepest [] a b := by
  -- Induction on the derivation, one case for each instruction.
  induction h with
  | done => exact fun _ _ _ start _ => .of_same start start.config rfl rfl
  | take =>
    intro allowance turns s start _
    -- taking the token shows no more and no less than the derivation says
    exact .of_same start (State.config_take start.config) (s.errors_consume _)
      (s.deepest_consume _)
  | yield =>
    intro allowance turns s start _
    have shown := start.config
    simp only [State.config, Config.mk.injEq] at shown
    exact .of_same start (by simp [Rule.followFor, Rule.follow, State.config, shown]) rfl rfl
  | andThen _ _ ihFirst ihNext =>
    -- the limit is not passed by either of the two
    have parts := Nat.max_le.mp room
    exact (ihFirst parts.1).andThen (ihNext parts.2)
  | yes answered _ ih => exact .branch answered (ih room)
  | no answered _ ih => exact .branch answered (ih room)
  | stop answered => exact .stop answered
  | turn answered _ _ ihBody ihLoop =>
    have parts := Nat.max_le.mp room
    exact .turn answered (ihBody parts.1) (ihLoop parts.2)
  | insist _ shorter ih => exact (ih room).insist shorter
  | node _ ih => exact (ih room).node
  | group _ ih => exact (ih room).group
  | wrap _ ih => exact (ih room).wrap
  | call _ ih => exact (ih room).call
  | nested inside ih =>
    have below := inside.depth_le
    -- the derivation below comes down at least as deep as it begins
    exact .nested below (Nat.lt_of_lt_of_le below room) (ih room)

/-- What is told of the tokens of a text is the parse of the text, with just these errors and just
as deep. -/
theorem Rule.Tells.parse {maxDepth deepest : Nat} {tokens : List Token}
    {told : List (Problem × ErrorCode)} {out : List Tree} {last : Option Kind}
    (h : (grammar (.statements false)).Tells (Limits.forTokens maxDepth tokens) 0 deepest told
      ⟨tokens.filter (!·.isTrivia), [], none⟩ ⟨[], out, last⟩) :
    (Parse.ofTokensWithin maxDepth tokens).errors.map (fun e => (e.problem, e.code)) =
        told.reverse ∧
      (Parse.ofTokensWithin maxDepth tokens).depth = deepest ∧
      (Parse.ofTokensWithin maxDepth tokens).tree.bare = [.node .sourceFile out.reverse] := by
  have fed := statements_fed maxDepth tokens
  have start : (State.start tokens).Ready 0 ⟨tokens.filter (!·.isTrivia), [], none⟩ :=
    ⟨rfl, rfl, Nat.zero_le _⟩
  obtain ⟨config, ⟨new, errors, rfl⟩, level⟩ :=
    h.call (callAllowance maxDepth) 0 (State.start tokens) start fed
  -- the trivia at the end of the text is not shown
  have shown := (State.config_skipTrivia _).trans config
  refine ⟨?_, ?_, ?_⟩
  · -- errors are kept last first, and a parse lists them in order
    simp only [Parse.ofTokensWithin, finalState, State.skipTrivia, State.errors_consume]
    rw [← List.map_reverse]
    exact congrArg (fun errors => (List.reverse errors).map _) (errors.trans (List.append_nil _))
  · -- it begins at level zero
    simp only [Parse.ofTokensWithin, finalState, State.skipTrivia, State.deepest_consume]
    exact level.trans (Nat.zero_max _)
  · -- the trees are kept last first as well
    have built : Tree.bareForest (finalState maxDepth tokens).out = out :=
      congrArg Config.out shown
    simp only [Parse.ofTokensWithin, Parse.tree, Tree.bare, Tree.bareForest_reverse, built]

/-- What is derived for the tokens of a text is the parse of the text. There is no error, and the
parse comes down just as deep as the derivation. -/
theorem Derives.parse {maxDepth deepest : Nat} {tokens : List Token} {out : List Tree}
    {last : Option Kind}
    (h : Derives 0 deepest (grammar (.statements false))
      ⟨tokens.filter (!·.isTrivia), [], none⟩ ⟨[], out, last⟩) (room : deepest ≤ maxDepth) :
    (Parse.ofTokensWithin maxDepth tokens).errors = [] ∧
      (Parse.ofTokensWithin maxDepth tokens).depth = deepest ∧
      (Parse.ofTokensWithin maxDepth tokens).tree.bare = [.node .sourceFile out.reverse] := by
  have fits : deepest ≤ (Limits.forTokens maxDepth tokens).maxDepth := room
  obtain ⟨errors, levels⟩ := (h.tells fits).parse
  exact ⟨List.map_eq_nil_iff.mp errors, levels⟩

end PerlOutline.Grammar
