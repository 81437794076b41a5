import PerlOutline.Proofs.Prospect

/-!
# What goals leave behind

A goal adds trees to the open scope, and what it can add is seen from its rule. A survey says of
each goal what may be left behind, measured by a gauge, and of each kind what its nodes may hold. It
is checked rule by rule; then it is true of every parse, since each instruction adds what the survey
says that it adds.

## Layers
- **`Gauge`**: a measure of trees that is taken piece by piece.
- **`Survey`**: what goals may find, what they may leave, and which parses are surveyed.
- **`outcomes`**: how a rule may end, seen from the rule.
- **Steps** of a parse, measured.
- **Rules and goals** end as the survey says.
-/

namespace PerlOutline.Syntax.Tree

/-! ## Nodes of a tree -/

mutual

/-- Every node of the tree and what it holds are as `P` says. -/
def Throughout (P : Kind → List Tree → Prop) : Tree → Prop
  | .token _ => True
  | .node kind children => P kind children ∧ ForestThroughout P children

/-- Every node of the trees and what it holds are as `P` says. -/
def ForestThroughout (P : Kind → List Tree → Prop) : List Tree → Prop
  | [] => True
  | t :: ts => t.Throughout P ∧ ForestThroughout P ts

end

/-- Trees are as `P` says where each of them is. -/
theorem forestThroughout_iff {P : Kind → List Tree → Prop} {ts : List Tree} :
    ForestThroughout P ts ↔ ∀ t ∈ ts, t.Throughout P := by
  induction ts with
  | nil => simp [ForestThroughout]
  | cons t ts ih => simp [ForestThroughout, ih]

end PerlOutline.Syntax.Tree

namespace PerlOutline.Grammar

open PerlOutline.Syntax (Kind Token Tree Problem ErrorCode SyntaxError)

/-! ## Gauges -/

/-- A measure of lists of trees that is taken piece by piece. Trivia has no weight. -/
structure Gauge (α : Type) where
  of : List Tree → α
  /-- The measure of a token that is no trivia. -/
  token : Kind → α
  /-- The measures that tokens can have. -/
  tokens : List α
  /-- The measure of a node, from what it holds. -/
  node : Kind → α → α
  join : α → α → α
  token_mem : ∀ kind, token kind ∈ tokens
  of_append : ∀ ts us, of (ts ++ us) = join (of ts) (of us)
  of_token : ∀ t : Token, of [.token t] = if t.isTrivia then of [] else token t.kind
  of_node : ∀ kind children, of [.node kind children] = node kind (of children)

namespace Gauge

variable {α : Type} (g : Gauge α)

/-- Nothing more is measured where nothing is added. -/
theorem join_nil (ts : List Tree) : g.join (g.of ts) (g.of []) = g.of ts := by
  rw [← g.of_append, List.append_nil]

/-- Trivia has the measure of nothing. -/
theorem of_trivia {ts : List Token} (trivia : ∀ t ∈ ts, t.isTrivia = true) :
    g.of (ts.map .token) = g.of [] := by
  induction ts with
  | nil => rfl
  | cons t ts ih =>
    have single : g.of [.token t] = g.of [] := by
      rw [g.of_token, if_pos (trivia t (List.mem_cons_self ..))]
    rw [List.map_cons, ← List.singleton_append, g.of_append, single,
      ih fun u hu => trivia u (List.mem_cons_of_mem _ hu), g.join_nil]

end Gauge

/-! ## Surveys -/

/-- What goals find and leave, and what nodes hold. -/
structure Survey (α : Type) where
  gauge : Gauge α
  /-- Whether parses that report something are surveyed. -/
  reports : Bool
  /-- Whether parses that come to the nesting limit are surveyed. -/
  cuts : Bool
  /-- Whether a node of a kind may hold what is measured so. -/
  fits : Kind → α → Bool
  /-- It does not count what nodes of a kind hold. -/
  plain : Kind → Bool
  /-- What goals may add to the open scope, if that counts, and whether an expression is then
  parsed. -/
  leaves : Goal → List (Option Bool × Option α)
  of_plain : ∀ kind, plain kind = true → ∀ held,
    fits kind held = true ∧ gauge.node kind held = gauge.node kind (gauge.of [])
  plain_error : reports = true → plain .error = true

/-- What is known of the tokens ahead wherever a goal is called. -/
def Goal.entry : Goal → Prospect
  | .package => ⟨.among [.packageKw], .unknown, none⟩
  | .moduleUse => ⟨.among [.useKw, .noKw], .unknown, none⟩
  | .subDefinition => ⟨.among [.subKw], .among [.ident], none⟩
  | .prototype | .parenthesizedArguments => ⟨.among [.lParen], .unknown, none⟩
  | .conditional => ⟨.among [.ifKw, .unlessKw], .unknown, none⟩
  | .whileLoop => ⟨.among [.whileKw, .untilKw], .unknown, none⟩
  | .forLoop => ⟨.among [.forKw, .foreachKw], .unknown, none⟩
  | .returnStatement => ⟨.among [.returnKw], .unknown, none⟩
  | .subscript => ⟨.among [.lBracket, .lBrace], .unknown, none⟩
  | .plainVariable =>
    ⟨.among [.scalarName, .arrayName, .hashName, .arrayLastIndex], .unknown, none⟩
  | .declaration => ⟨.among Kind.declarators, .unknown, none⟩
  | .dereference => ⟨.among [.dollar, .atSign, .percent, .amp], .unknown, none⟩
  | .wordOrCall => ⟨.among [.ident], .unknown, none⟩
  | _ => .unseen none

/-! ## Outcomes -/

/-- How a rule may end. -/
inductive Outcome (α : Type) where
  /-- What is then known, and what the scope of the rule holds, if that counts. -/
  | ended (p : Prospect) (held : Option α)
  /-- That is not seen. -/
  | lost
  deriving DecidableEq

namespace Outcome

variable {α : Type}

/-- What follows where a rule has ended. -/
def andThen (next : Prospect → Option α → List (Outcome α)) : Outcome α → List (Outcome α)
  | .ended p held => next p held
  | .lost => [.lost]

/-- How many turns are looked through to see all ways in which a turn may begin. -/
def loopTurns : Nat := 6

/-- All that is seen in at most `turns` turns. -/
def explore [DecidableEq α] (turn : Outcome α → List (Outcome α)) :
    Nat → List (Outcome α) → List (Outcome α)
  | 0, seen => seen
  | turns + 1, seen =>
    let more := (seen ++ seen.flatMap turn).eraseDups
    if more.length = seen.length then seen else explore turn turns more

/-- How a loop may end, where `turn` says how a turn may end. The ways in which a turn may begin are
explored, and the loop is lost if there are more of them than were found. -/
def ofLoop [DecidableEq α] (test : Test) (turn : Prospect → Option α → List (Outcome α))
    (p : Prospect) (held : Option α) : List (Outcome α) :=
  -- a turn goes on from where the test holds
  let onward := andThen fun q held => (test.refine true q).flatMap (turn · held)
  let seen := explore onward loopTurns [.ended p held]
  -- every turn from a way that was found must lead to one that was found
  if seen.contains (.ended p held) && seen.all fun o => (onward o).all seen.contains then
    -- and the loop ends from each of them where the test fails
    seen.flatMap (andThen fun q held => (test.refine false q).map (.ended · held))
  else [.lost]

end Outcome

namespace Survey

variable {α : Type} (v : Survey α)

/-- What a scope holds to which something is added. -/
def add : Option α → Option α → Option α
  | some held, some more => some (v.gauge.join held more)
  | _, _ => none

/-- What a scope holds in which nothing is yet. -/
def nothing : Option α :=
  some (v.gauge.of [])

/-- What a scope holds that becomes a node of the given kind, where that counts. -/
def kept (kind : Kind) (held : Option α) : Option α :=
  if v.plain kind then none else held

/-- How a step may end that sets tokens aside, if parses with reports are surveyed. -/
def mishaps (parsed : Option Bool) (held : Option α) : List (Outcome α) :=
  if v.reports then
    [.ended (.unseen parsed) (v.add held (some (v.gauge.node .error (v.gauge.of []))))]
  else []

/-- How a goal may end that is given up, if parses that come to the nesting limit are surveyed. -/
def givenUp (held : Option α) : List (Outcome α) :=
  if v.cuts then .ended (.unseen (some true)) held :: v.mishaps (some true) held else []

/-- The measures of the tokens that may come next. -/
def ahead : Glimpse → List α
  | .among kinds => kinds.map v.gauge.token
  | _ => v.gauge.tokens

/-- How a step may end that takes the next token, if there is one. -/
def taken (p : Prospect) (held : Option α) : List (Outcome α) :=
  -- what came second comes next, and what comes after that is not seen
  let after : Prospect := ⟨p.second, .unknown, p.parsed⟩
  -- nothing is taken at the end of the text, which is possible only where the next kind is not
  -- known
  (if p.next = .unknown then [.ended after held] else []) ++
    (v.ahead p.next).map fun token => .ended after (v.add held (some token))

/-- A goal leaves what the survey says, if it finds what it should. -/
def reached (goal : Goal) (p : Prospect) (held : Option α) : List (Outcome α) :=
  -- the entry was checked for the least that a call of the goal may find
  if p.covers goal.entry then
    (v.leaves goal).map fun left => .ended (.unseen left.1) (v.add held left.2)
  else [.lost]

/-- The measure of a node that holds `inner`, if it may hold that. -/
def node? (kind : Kind) : Option α → Option α
  | some inner => if v.fits kind inner then some (v.gauge.node kind inner) else none
  | none => if v.plain kind then some (v.gauge.node kind (v.gauge.of [])) else none

/-- A scope becomes a node of the scope that holds `held`. -/
def closed (kind : Kind) (held : Option α) : Outcome α → Outcome α
  | .ended p inner =>
    match v.node? kind inner with
    | some node => .ended { p with parsed := some true } (v.add held (some node))
    | none => .lost
  | .lost => .lost

/-- All that a scope holds becomes one node of it. -/
def wrapped (kind : Kind) : Outcome α → Outcome α
  | .ended p inner =>
    match v.node? kind inner with
    | some node => .ended { p with parsed := some true } (some node)
    | none => .lost
  | .lost => .lost

/-- A scope leaves what it holds to the scope that holds `held`. -/
def merged (held : Option α) : Outcome α → Outcome α
  | .ended p inner => .ended p (v.add held inner)
  | .lost => .lost

end Survey

/-- How a rule may end where `p` is known and the rule has added `held` before. The scope in which
it works is its own if the rule has opened it. -/
def Rule.outcomes {α : Type} [DecidableEq α] (v : Survey α) :
    Bool → Rule → Prospect → Option α → List (Outcome α)
  | _, .done, p, held => [.ended p held]
  | own, .andThen first next, p, held =>
    ((first.outcomes v own p held).flatMap (Outcome.andThen (next.outcomes v own))).eraseDups
  | _, .take, p, held => (v.taken p held).eraseDups
  | _, .complain .., p, held => if v.reports then [.ended p held] else []
  | _, .reject .., p, held =>
    if v.reports then .ended p held :: v.mishaps p.parsed held else []
  | _, .rejectNext _, p, held =>
    -- at the end of the text there is nothing to reject
    (if p.next = .unknown then [.ended p held] else []) ++ v.mishaps p.parsed held
  | _, .yield parsed, p, held => [.ended { p with parsed := some parsed.isSome } held]
  | own, .branch test yes no, p, held =>
    (test.refine true p).flatMap (yes.outcomes v own · held) ++
      (test.refine false p).flatMap (no.outcomes v own · held)
  | own, .loop test body, p, held => Outcome.ofLoop test (body.outcomes v own) p held
  | own, .insist body, p, held =>
    (body.outcomes v own p held).flatMap <| Outcome.andThen fun q held =>
      -- it turned out that nothing was read, so a token may be set aside
      .ended { q with parsed := some false } held :: v.mishaps (some false) held
  | _, .node kind body, p, held =>
    ((body.outcomes v true p (v.kept kind v.nothing)).map (v.closed kind held)).eraseDups
  | _, .group body, p, held => (body.outcomes v true p v.nothing).map (v.merged held)
  | own, .wrap kind body, p, held =>
    -- a scope that others have begun holds more than what the rule added to it
    if own then
      ((body.outcomes v true p (v.kept kind held)).map (v.wrapped kind)).eraseDups
    else [.lost]
  | _, .call goal, p, held => v.reached goal p held
  | _, .nested goal, p, held =>
    v.reached goal p held ++ v.givenUp held

namespace Survey

variable {α : Type} [DecidableEq α] (v : Survey α)

/-- What is added by a goal is not looked at if the survey says nothing of it. -/
def begun (goal : Goal) : Option α :=
  if (v.leaves goal).all (·.2.isNone) then none else v.nothing

/-- An outcome of a goal is one of those that the survey lists. -/
def lists (goal : Goal) : Outcome α → Bool
  | .ended p held =>
    (v.leaves goal).any fun left =>
      (left.1 == none || left.1 == p.parsed) && (left.2 == none || left.2 == held)
  | .lost => false

/-- The survey is right about a goal, if it is right about all goals that the goal reaches. -/
def checks (goal : Goal) : Bool :=
  ((grammar goal).outcomes v false goal.entry (v.begun goal)).all
    (v.lists goal)

end Survey

/-! ## Steps -/

/-- A node of a kind may hold these trees. -/
def Survey.Fitting {α : Type} (v : Survey α) (kind : Kind) (children : List Tree) : Prop :=
  v.fits kind (v.gauge.of children) = true

namespace State

variable {α : Type} {v : Survey α} {limits : Limits} {s s' : State} {outer : List Tree}
  {held more : Option α} {p : Prospect}

/-! ### Parses that are not surveyed -/

/-- The parse is not surveyed. -/
def Spoiled (v : Survey α) (limits : Limits) (s : State) : Prop :=
  s.starved = true ∨ (v.reports = false ∧ s.errors ≠ []) ∨
    (v.cuts = false ∧ limits.maxDepth ≤ s.deepest)

/-- What spoils a parse is in three fields of the state. -/
theorem Spoiled.of_same (h : s.Spoiled v limits) (starved : s'.starved = s.starved)
    (errors : s'.errors = s.errors) (deepest : s'.deepest = s.deepest) :
    s'.Spoiled v limits := by
  unfold Spoiled
  rwa [starved, errors, deepest]

/-- A parse is surveyed where it was not cut off, and neither reports anything nor comes to the
limit unless the survey is about such parses too. -/
theorem not_spoiled (fed : s.starved = false) (quiet : v.reports = false → s.errors = [])
    (shallow : v.cuts = false → s.deepest < limits.maxDepth) : ¬ s.Spoiled v limits := by
  rintro (cut | ⟨reports, reported⟩ | ⟨cuts, deep⟩)
  · exact Bool.noConfusion (fed.symm.trans cut)
  · exact reported (quiet reports)
  · exact Nat.not_le.mpr (shallow cuts) deep

/-- Nothing brings a parse back among those that are surveyed. -/
theorem spoiled_kept (v : Survey α) (limits : Limits) :
    Kept (fun _ => True) limits fun s s' => s.Spoiled v limits → s'.Spoiled v limits where
  refl s h := h
  trans ab bc h := bc (ab h)
  advance s h := by
    rw [advance_frame]
    exact h.of_same rfl rfl rfl
  -- a report spoils a parse unless such parses are surveyed
  complain s problem code h := h.imp id (.imp_left fun ⟨quiet, _⟩ => ⟨quiet, List.cons_ne_nil _ _⟩)
  recorded s last h := h
  starved s h := .inl rfl
  hushed s stop h := h
  closed kind _ inside h := inside h
  merged inside h := inside h
  wrapped kind _ inside h := inside h
  -- the nesting level that was come to is never forgotten
  deeper room inside h :=
    inside (h.imp id (.imp id fun ⟨uncut, deep⟩ =>
      ⟨uncut, Nat.le_trans deep (Nat.le_max_left _ _)⟩))

/-! ### What scopes hold -/

/-- The open scope has got what is measured so, besides `outer`, and the nodes in it hold what they
may. -/
def Holds (v : Survey α) (outer : List Tree) (held : Option α) (s : State) : Prop :=
  ∃ added, s.out = added ++ outer ∧ (∀ a, held = some a → v.gauge.of added.reverse = a) ∧
    ∀ t ∈ added, t.Throughout v.Fitting

/-- Nothing was added to a scope since it was opened. -/
theorem holds_nothing (v : Survey α) (s : State) : s.Holds v s.out v.nothing :=
  ⟨[], rfl, fun _ h => Option.some.inj h, fun _ h => absurd h List.not_mem_nil⟩

/-- What scopes hold is in the output alone. -/
theorem Holds.of_out (h : s.Holds v outer held) (same : s'.out = s.out) :
    s'.Holds v outer held := by
  unfold Holds
  rwa [same]

/-- What a scope holds need not be counted. -/
theorem Holds.forget (h : s.Holds v outer held) : s.Holds v outer none := by
  obtain ⟨added, parts, -, fitting⟩ := h
  exact ⟨added, parts, nofun, fitting⟩

/-- What a scope holds is counted unless the kind of its node does not ask. -/
theorem Holds.kept (h : s.Holds v outer held) (kind : Kind) :
    s.Holds v outer (v.kept kind held) := by
  unfold Survey.kept
  split
  · exact h.forget
  · exact h

/-- What is added later comes on top. -/
theorem Holds.add (h : s.Holds v outer held) (h' : s'.Holds v s.out more) :
    s'.Holds v outer (v.add held more) := by
  obtain ⟨added, parts, measured, fitting⟩ := h
  obtain ⟨later, parts', measured', fitting'⟩ := h'
  refine ⟨later ++ added, by rw [parts', parts, List.append_assoc], ?_, ?_⟩
  · -- the sum is known where both of its parts are
    intro a sum
    cases held with
    | none => simp [Survey.add] at sum
    | some held =>
      cases more with
      | none => simp [Survey.add] at sum
      | some more =>
        obtain rfl := Option.some.inj sum
        rw [List.reverse_append, v.gauge.of_append, measured held rfl, measured' more rfl]
  · intro t member
    rcases List.mem_append.mp member with late | early
    · exact fitting' t late
    · exact fitting t early

/-- What is consumed comes on top of the output. -/
theorem out_consume (s : State) (n : Nat) :
    (s.consume n).out = ((s.rest.take n).map Tree.token).reverse ++ s.out := by
  induction n generalizing s with
  | zero => simp [consume]
  | succ n ih =>
    rw [consume, ih, rest_advance]
    cases hrest : s.rest with
    | nil => simp [advance, hrest]
    | cons t ts => simp [advance, hrest]

/-- Tokens have no nodes. -/
theorem throughout_tokens {P : Kind → List Tree → Prop} {ts : List Token} {t : Tree}
    (member : t ∈ ts.map Tree.token) : t.Throughout P := by
  obtain ⟨token, -, rfl⟩ := List.mem_map.mp member
  trivial

/-- Trivia does not count. -/
theorem Holds.skipTrivia (h : s.Holds v outer held) : s.skipTrivia.Holds v outer held := by
  obtain ⟨added, parts, measured, fitting⟩ := h
  have out := s.out_consume s.triviaAhead
  -- the trivia that was read comes on top
  rw [take_triviaAhead, parts, ← List.append_assoc] at out
  refine ⟨_, out, ?_, ?_⟩
  · intro a known
    have trivia : ∀ t ∈ s.rest.takeWhile (·.isTrivia), t.isTrivia = true :=
      fun t member => List.all_eq_true.mp List.all_takeWhile t member
    rw [List.reverse_append, List.reverse_reverse, v.gauge.of_append, v.gauge.of_trivia trivia,
      v.gauge.join_nil, measured a known]
  · intro t member
    rcases List.mem_append.mp member with late | early
    · exact throughout_tokens (List.mem_reverse.mp late)
    · exact fitting t early

/-- A token that is taken counts as its kind says. -/
theorem Holds.take {t : Token} (h : s.Holds v outer held) (seen : s.next? = some t) :
    s.take.Holds v outer (v.add held (some (v.gauge.token t.kind))) := by
  obtain ⟨ts, ready⟩ : ∃ ts, s.skipTrivia.rest = t :: ts := by
    rw [rest_skipTrivia]
    exact List.head?_eq_some_iff.mp seen
  -- once the trivia is read, the token comes next
  have read : s.take.Holds v s.skipTrivia.out (some (v.gauge.token t.kind)) := by
    refine ⟨[.token t], by simp [take_eq, advance, ready], ?_, ?_⟩
    · intro a known
      obtain rfl := Option.some.inj known
      simp [v.gauge.of_token, isTrivia_of_next? seen]
    · intro u member
      obtain rfl := List.mem_singleton.mp member
      trivial
  exact h.skipTrivia.add read

/-- Where no token is left, taking one reads the trivia at the end. -/
theorem take_of_ended (ended : s.next? = none) : s.take = s.skipTrivia := by
  have nothing : s.skipTrivia.rest = [] := by
    rw [rest_skipTrivia]
    exact significant_eq_nil_of_next? ended
  rw [take_eq, advance, nothing]

/-- A scope that holds what a node may hold becomes a node. -/
theorem Holds.closed {kind : Kind} {node : α} (h : s.Holds v [] held)
    (fits : v.node? kind held = some node) (outer : List Tree) :
    (s.closed kind outer).Holds v outer (some node) := by
  obtain ⟨added, parts, measured, fitting⟩ := h
  rw [List.append_nil] at parts
  -- Either the scope was measured or what it holds does not count.
  have told : v.fits kind (v.gauge.of added.reverse) = true ∧
      v.gauge.node kind (v.gauge.of added.reverse) = node := by
    cases held with
    | some inner =>
      obtain ⟨may, same⟩ := Option.ite_none_right_eq_some.mp fits
      obtain rfl := Option.some.inj same
      rw [measured inner rfl]
      exact ⟨may, rfl⟩
    | none =>
      obtain ⟨plain, same⟩ := Option.ite_none_right_eq_some.mp fits
      obtain rfl := Option.some.inj same
      exact v.of_plain kind plain _
  -- what was added becomes the only tree, and holds what it may
  refine ⟨[.node kind added.reverse], by simp [State.closed, parts], ?_, ?_⟩
  · intro a known
    obtain rfl := Option.some.inj known
    rw [List.reverse_singleton, v.gauge.of_node, told.2]
  · intro t member
    obtain rfl := List.mem_singleton.mp member
    refine ⟨told.1, Tree.forestThroughout_iff.mpr fun child hchild => ?_⟩
    exact fitting child (List.mem_reverse.mp hchild)

/-- A scope that is merged leaves what it holds. -/
theorem Holds.merged (h : s.Holds v [] held) (outer : List Tree) :
    (s.merged outer).Holds v outer held := by
  obtain ⟨added, parts, measured, fitting⟩ := h
  rw [List.append_nil] at parts
  exact ⟨added, by rw [State.merged, parts], measured, fitting⟩

/-- What is set aside becomes an error node. -/
theorem Holds.setAside (h : s.Holds v outer held) (reports : v.reports = true) (n : Nat) :
    (s.setAside n).Holds v outer
      (v.add held (some (v.gauge.node .error (v.gauge.of [])))) := by
  -- inside of the error node nothing is counted
  have inside : (s.skipTrivia.opened.consume n).Holds v [] none := by
    refine ⟨_, s.skipTrivia.opened.out_consume n, nofun, ?_⟩
    intro t member
    exact throughout_tokens (List.mem_reverse.mp member)
  -- and an error node may hold anything, if there are any
  have error : v.node? .error none = some (v.gauge.node .error (v.gauge.of [])) :=
    if_pos (v.plain_error reports)
  exact h.skipTrivia.add ((inside.closed error s.skipTrivia.out).of_out rfl)

/-! ### Where steps arrive -/

/-- What is known of a state, and what its open scope holds besides `outer`. -/
structure Arrives (v : Survey α) (outer : List Tree) (p : Prospect) (held : Option α)
    (s : State) : Prop where
  faces : s.Faces p
  holds : s.Holds v outer held
  /-- The nesting level was noted when it was entered. -/
  noted : s.depth ≤ s.deepest

/-- The outcome is what happened. -/
def Ends (v : Survey α) (outer : List Tree) (s : State) : Outcome α → Prop
  | .ended p held => s.Arrives v outer p held
  | .lost => True

/-- One of the outcomes is what happened, or the parse is not surveyed. -/
def EndsBy (v : Survey α) (limits : Limits) (outer : List Tree) (os : List (Outcome α))
    (s : State) : Prop :=
  s.Spoiled v limits ∨ ∃ o ∈ os, s.Ends v outer o

variable {os os' : List (Outcome α)}

/-- A state that is arrived at is one of the outcomes. -/
theorem Arrives.endsBy (h : s.Arrives v outer p held) (listed : .ended p held ∈ os) :
    s.EndsBy v limits outer os :=
  .inr ⟨_, listed, h⟩

/-- More outcomes may be listed than those that happen. -/
theorem EndsBy.mono (h : s.EndsBy v limits outer os) (sub : ∀ o ∈ os, o ∈ os') :
    s.EndsBy v limits outer os' :=
  h.imp id fun ⟨o, member, ends⟩ => ⟨o, sub o member, ends⟩

/-- It does not matter how often an outcome is listed. -/
theorem EndsBy.eraseDups [DecidableEq α] (h : s.EndsBy v limits outer os) :
    s.EndsBy v limits outer os.eraseDups :=
  h.mono fun _ member => List.mem_eraseDups.mpr member

/-- What follows where a rule has ended. -/
theorem EndsBy.andThen {next : Prospect → Option α → List (Outcome α)}
    (h : s.EndsBy v limits outer os) (spoils : s.Spoiled v limits → s'.Spoiled v limits)
    (hnext : ∀ p held, s.Arrives v outer p held → s'.EndsBy v limits outer (next p held)) :
    s'.EndsBy v limits outer (os.flatMap (Outcome.andThen next)) := by
  -- what follows a rule that is lost is lost too
  rcases h with spoiled | ⟨o, member, ends⟩
  · exact .inl (spoils spoiled)
  · cases o with
    | lost =>
      exact .inr ⟨.lost, List.mem_flatMap.mpr ⟨_, member, List.mem_singleton_self _⟩, trivial⟩
    | ended p held =>
      refine (hnext p held ends).mono fun o listed => ?_
      exact List.mem_flatMap.mpr ⟨_, member, listed⟩

/-- Each outcome becomes another. -/
theorem EndsBy.map {f : Outcome α → Outcome α} {outer' : List Tree}
    (h : s.EndsBy v limits outer os) (spoils : s.Spoiled v limits → s'.Spoiled v limits)
    (hf : ∀ o, s.Ends v outer o → s'.Ends v outer' (f o)) :
    s'.EndsBy v limits outer' (os.map f) := by
  rcases h with spoiled | ⟨o, member, ends⟩
  · exact .inl (spoils spoiled)
  · exact .inr ⟨_, List.mem_map_of_mem member, hf o ends⟩

/-- More is known of the tokens ahead. -/
theorem Arrives.refined {q : Prospect} (h : s.Arrives v outer p held) (faces : s.Faces q) :
    s.Arrives v outer q held :=
  { h with faces := faces }

/-- What was parsed last is noted. -/
theorem Arrives.recorded (h : s.Arrives v outer p held) (last : Option Kind) :
    Arrives v outer { p with parsed := some last.isSome } held { s with last := last } where
  faces := ⟨h.faces.next, h.faces.second, fun _ known => Option.some.inj known⟩
  holds := h.holds.of_out rfl
  noted := h.noted

/-- To skip trivia changes nothing of what is known. -/
theorem Arrives.skipTrivia (h : s.Arrives v outer p held) :
    s.skipTrivia.Arrives v outer p held where
  faces := h.faces.skipTrivia
  holds := h.holds.skipTrivia
  noted := by
    rw [State.skipTrivia, consume_frame]
    exact h.noted

/-- A scope that is opened holds nothing. -/
theorem Arrives.opened (h : s.Arrives v outer p held) :
    s.skipTrivia.opened.Arrives v [] p v.nothing where
  faces := ⟨h.skipTrivia.faces.next, h.skipTrivia.faces.second, h.skipTrivia.faces.parsed⟩
  holds := holds_nothing v s.skipTrivia.opened
  noted := h.skipTrivia.noted

/-- To take a token is one of the outcomes of that step. -/
theorem Arrives.take (h : s.Arrives v outer p held) :
    s.take.EndsBy v limits outer (v.taken p held) := by
  have noted : s.take.depth ≤ s.take.deepest := by
    rw [State.take, consume_frame]
    exact h.noted
  cases seen : s.next? with
  -- there is none to take, which can only be where the next kind was not known
  | none =>
    have unknown : p.next = .unknown := by
      refine Decidable.byContradiction fun known => ?_
      have there := h.faces.next.isSome known
      simp [seen] at there
    have holds : s.take.Holds v outer held := take_of_ended seen ▸ h.holds.skipTrivia
    refine Arrives.endsBy ⟨h.faces.take, holds, noted⟩ (List.mem_append_left _ ?_)
    rw [if_pos unknown]
    exact List.mem_singleton_self _
  | some t =>
    refine Arrives.endsBy ⟨h.faces.take, h.holds.take seen, noted⟩ (List.mem_append_right _ ?_)
    apply List.mem_map_of_mem
    -- A token of which a kind is known has the measure of such a kind.
    unfold Survey.ahead
    split
    · next kinds known =>
      have told := h.faces.next
      rw [known] at told
      obtain ⟨u, same, listed⟩ := told.exists_token
      obtain rfl := Option.some.inj (seen.symm.trans same)
      exact List.mem_map_of_mem listed
    · exact v.gauge.token_mem t.kind

/-- Setting tokens aside is a report, so it may spoil the parse. -/
theorem Arrives.setAside (h : s.Arrives v outer p held) (told : s.errors ≠ []) (n : Nat) :
    (s.setAside n).EndsBy v limits outer (v.mishaps p.parsed held) := by
  -- unless reports are surveyed, the report that went before spoils the parse
  cases reports : v.reports with
  | false =>
    refine .inl (.inr (.inl ⟨reports, ?_⟩))
    rw [setAside_frame]
    exact told
  | true =>
    have last : (s.setAside n).last = s.last := by rw [setAside_frame]
    have noted : (s.setAside n).depth ≤ (s.setAside n).deepest := by
      rw [setAside_frame]
      exact h.noted
    have faces : (s.setAside n).Faces (.unseen p.parsed) :=
      faces_unseen fun b known => last ▸ h.faces.parsed b known
    refine Arrives.endsBy ⟨faces, h.holds.setAside reports n, noted⟩ ?_
    rw [Survey.mishaps, if_pos reports]
    exact List.mem_singleton_self _

/-- A report changes nothing of what is known. -/
theorem Arrives.complain (h : s.Arrives v outer p held) (problem : Problem) (code : ErrorCode) :
    (s.complain problem code).Arrives v outer p held where
  faces := ⟨h.faces.next, h.faces.second, h.faces.parsed⟩
  holds := h.holds.of_out rfl
  noted := h.noted

/-- To reject a token reports it and sets it aside. -/
theorem Arrives.reject (h : s.Arrives v outer p held) (problem : Problem) (code : ErrorCode) :
    (s.reject problem code).EndsBy v limits outer
      (if v.reports then .ended p held :: v.mishaps p.parsed held else []) := by
  have told : (s.complain problem code).errors ≠ [] := List.cons_ne_nil _ _
  have reported := h.complain problem code
  -- at the end of the text only the report is left
  cases left : s.next?.isNone with
  | true =>
    simp only [State.reject, left]
    cases reports : v.reports with
    | false => exact .inl (.inr (.inl ⟨reports, told⟩))
    | true => exact reported.endsBy (List.mem_cons_self ..)
  -- otherwise one token is set aside
  | false =>
    simp only [State.reject, left]
    refine (reported.setAside told 1).mono fun o member => ?_
    cases reports : v.reports with
    | false => simp [Survey.mishaps, reports] at member
    | true => exact List.mem_cons_of_mem _ member

/-- To reject what comes next does nothing at the end of the text. -/
theorem Arrives.rejectNext (h : s.Arrives v outer p held) (code : ErrorCode) :
    (s.rejectNext code).EndsBy v limits outer
      ((if p.next = .unknown then [.ended p held] else []) ++ v.mishaps p.parsed held) := by
  unfold State.rejectNext
  cases seen : s.next? with
  | none =>
    have unknown : p.next = .unknown := by
      refine Decidable.byContradiction fun known => ?_
      have there := h.faces.next.isSome known
      simp [seen] at there
    rw [if_pos unknown]
    exact h.endsBy (List.mem_append_left _ (List.mem_singleton_self _))
  | some t =>
    have told : (s.complain (.unexpected t.kind) code).errors ≠ [] := List.cons_ne_nil _ _
    have left : s.next?.isNone = false := by rw [seen]; rfl
    simp only [State.reject, left]
    refine ((h.complain (.unexpected t.kind) code).setAside told 1).mono fun o => ?_
    exact List.mem_append_right _

/-- To insist rejects the next token unless something was read. -/
theorem Arrives.insisted (h : s.Arrives v outer p held) (start : Nat) :
    (s.insisted start).EndsBy v limits outer
      (.ended { p with parsed := some false } held :: v.mishaps (some false) held) := by
  unfold State.insisted
  split
  · -- What is known of the next token stays so, or the token is set aside.
    have rejected : (s.rejectNext .e0901).EndsBy v limits outer _ := h.rejectNext .e0901
    rcases rejected with spoiled | ⟨o, member, ends⟩
    · exact .inl (spoiled.of_same rfl rfl rfl)
    · rcases List.mem_append.mp member with still | aside
      · split at still
        · obtain rfl := List.mem_singleton.mp still
          exact (ends.recorded none).endsBy (List.mem_cons_self ..)
        · exact absurd still List.not_mem_nil
      · unfold Survey.mishaps at aside
        split at aside
        · next reports =>
          obtain rfl := List.mem_singleton.mp aside
          refine (ends.recorded none).endsBy (List.mem_cons_of_mem _ ?_)
          rw [Survey.mishaps, if_pos reports]
          exact List.mem_singleton_self _
        · exact absurd aside List.not_mem_nil
  · exact (h.recorded none).endsBy (List.mem_cons_self ..)

/-- A goal that is given up leaves an error node, or nothing where an expression ends. -/
theorem Arrives.giveUp (h : s.Arrives v outer p held) (full : limits.maxDepth ≤ s.depth)
    (goal : Goal) :
    (s.giveUp limits.maxDepth goal).EndsBy v limits outer (v.givenUp held) := by
  have deepest : (s.giveUp limits.maxDepth goal).deepest = s.deepest := by
    unfold State.giveUp
    split
    · rfl
    · rw [abandonGroup, setAside_frame]
      rfl
  -- the goal is given up at the limit only, which spoils the parse unless such parses are surveyed
  cases cuts : v.cuts with
  | false => exact .inl (.inr (.inr ⟨cuts, deepest ▸ Nat.le_trans full h.noted⟩))
  | true =>
    rw [Survey.givenUp, if_pos cuts]
    unfold State.giveUp
    split
    · -- where an expression ends nothing is reported
      refine Arrives.endsBy ⟨?_, h.holds.of_out rfl, h.noted⟩ (List.mem_cons_self ..)
      exact faces_unseen fun _ known => Option.some.inj known
    · -- elsewhere a whole group is set aside
      have reported := h.complain (.tooDeep limits.maxDepth) .e0205
      have aside : (s.abandonGroup limits.maxDepth).EndsBy v limits outer _ :=
        reported.setAside (List.cons_ne_nil _ _) (groupLength 0 0 0 (significant s.rest))
      rcases aside with spoiled | ⟨o, member, ends⟩
      · exact .inl (spoiled.of_same rfl rfl rfl)
      · unfold Survey.mishaps at member
        split at member
        · next reports =>
          obtain rfl := List.mem_singleton.mp member
          refine (ends.recorded (some .error)).endsBy (List.mem_cons_of_mem _ ?_)
          rw [Survey.mishaps, if_pos reports]
          exact List.mem_singleton_self _
        · exact absurd member List.not_mem_nil

/-! ### Loops -/

section Loop

variable {test : Test} {body : State → State}
  {turn : Prospect → Option α → List (Outcome α)}

/-- A loop ends in one of the ways that are listed, if each turn begins in one of those that were
explored. -/
theorem repeatWhile_endsBy {seen os : List (Outcome α)}
    (spoils : ∀ s : State, s.Spoiled v limits → (body s).Spoiled v limits)
    (hbody : ∀ s p held, s.Arrives v outer p held →
      (body s).EndsBy v limits outer (turn p held))
    (onward : ∀ p held, .ended p held ∈ seen → ∀ q ∈ test.refine true p, ∀ o ∈ turn q held,
      o ∈ seen)
    (done : ∀ p held, .ended p held ∈ seen → ∀ q ∈ test.refine false p, .ended q held ∈ os)
    (lost : .lost ∈ seen → .lost ∈ os) (turns : Nat) (s : State)
    (begun : s.EndsBy v limits outer seen) :
    (repeatWhile (·.satisfies test) body turns s).EndsBy v limits outer os := by
  -- the test fails: what is known then is one of the ends
  have stays {s : State} (begun : s.EndsBy v limits outer seen)
      (fails : s.satisfies test = false) : s.EndsBy v limits outer os := by
    rcases begun with spoiled | ⟨o, member, ends⟩
    · exact .inl spoiled
    · cases o with
      | lost => exact .inr ⟨.lost, lost member, trivial⟩
      | ended p held =>
        obtain ⟨q, told, faces⟩ := ends.faces.refine fails
        exact (ends.refined faces).endsBy (done p held member q told)
  -- the test holds: the turn leads to a state from which a turn was explored
  have goesOn {s : State} (begun : s.EndsBy v limits outer seen)
      (holds : s.satisfies test = true) : (body s).EndsBy v limits outer seen := by
    rcases begun with spoiled | ⟨o, member, ends⟩
    · exact .inl (spoils s spoiled)
    · cases o with
      | lost => exact .inr ⟨.lost, member, trivial⟩
      | ended p held =>
        obtain ⟨q, told, faces⟩ := ends.faces.refine holds
        exact (hbody s q held (ends.refined faces)).mono (onward p held member q told)
  -- Induction on the turns. The ways in which a turn may begin are those explored, again and again.
  induction turns generalizing s with
  | zero =>
    -- the turns have run out, which spoils the parse, unless the loop is done as well
    unfold repeatWhile
    split
    · exact .inl (.inl rfl)
    · next fails => exact stays begun (Bool.eq_false_iff.mpr fails)
  | succ turns ih =>
    unfold repeatWhile
    split
    · next holds => exact ih (body s) (goesOn begun holds)
    · next fails => exact stays begun (Bool.eq_false_iff.mpr fails)

/-- A loop ends as it is seen to. -/
theorem Arrives.repeatWhile [DecidableEq α] (h : s.Arrives v outer p held)
    (spoils : ∀ s : State, s.Spoiled v limits → (body s).Spoiled v limits)
    (hbody : ∀ s p held, s.Arrives v outer p held →
      (body s).EndsBy v limits outer (turn p held)) (turns : Nat) :
    (State.repeatWhile (·.satisfies test) body turns s).EndsBy v limits outer
      (Outcome.ofLoop test turn p held) := by
  simp only [Outcome.ofLoop]
  -- whatever was explored, only the test of it counts
  generalize Outcome.explore (α := α) _ _ _ = seen
  split
  · next explored =>
    obtain ⟨first, closed⟩ := Bool.and_eq_true_iff.mp explored
    refine repeatWhile_endsBy spoils hbody ?_ ?_ ?_ turns s
      (h.endsBy (List.contains_iff_mem.mp first))
    · -- a turn from an explored state leads to an explored one
      intro q held member q' told o listed
      have inside := List.all_eq_true.mp (List.all_eq_true.mp closed _ member) o
        (List.mem_flatMap.mpr ⟨q', told, listed⟩)
      exact List.contains_iff_mem.mp inside
    · -- and from each of them the loop may end
      intro q held member q' told
      exact List.mem_flatMap.mpr ⟨_, member, List.mem_map_of_mem told⟩
    · intro member
      exact List.mem_flatMap.mpr ⟨_, member, List.mem_singleton_self _⟩
  · exact .inr ⟨.lost, List.mem_singleton_self _, trivial⟩

end Loop

end State

/-! ## Rules and goals -/

section Rules

variable {α : Type} {v : Survey α} {limits : Limits} {reach : Goal → State → State}

/-- A rule does not bring back a parse that is not surveyed. -/
theorem Rule.follow_spoiled
    (spoils : ∀ goal (s : State), s.Spoiled v limits → (reach goal s).Spoiled v limits)
    (rule : Rule) (s : State) (h : s.Spoiled v limits) :
    (rule.follow limits reach s).Spoiled v limits :=
  rule.follow_kept (State.spoiled_kept v limits) trivial spoils (fun _ _ => trivial) s h

/-- What the survey says of a goal is so. -/
def Survey.Right (v : Survey α) (limits : Limits) (reach : Goal → State → State) : Prop :=
  ∀ goal (s : State), s.Faces goal.entry → s.depth ≤ s.deepest →
    (reach goal s).EndsBy v limits s.out
      ((v.leaves goal).map fun left => .ended (.unseen left.1) left.2)

/-- A goal that is reached ends as the survey says, and what it leaves is added to the scope. -/
theorem State.Arrives.reached {s : State} {outer : List Tree} {p : Prospect} {held : Option α}
    (h : s.Arrives v outer p held) (right : v.Right limits reach) (goal : Goal) :
    (reach goal s).EndsBy v limits outer (v.reached goal p held) := by
  unfold Survey.reached
  split
  · next covers =>
    rcases right goal s (h.faces.of_covers covers) h.noted with spoiled | ⟨o, member, ends⟩
    · exact .inl spoiled
    · obtain ⟨left, listed, rfl⟩ := List.mem_map.mp member
      exact State.Arrives.endsBy ⟨ends.faces, h.holds.add ends.holds, ends.noted⟩
        (List.mem_map_of_mem listed)
  · -- a goal that finds less than its entry asks for is not looked at
    exact .inr ⟨.lost, List.mem_singleton_self _, trivial⟩

/-- A rule ends as it is seen to. -/
theorem Rule.follow_outcomes [DecidableEq α]
    (hadvances : ∀ goal (s : State), s.Advances (reach goal s))
    (spoils : ∀ goal (s : State), s.Spoiled v limits → (reach goal s).Spoiled v limits)
    (right : v.Right limits reach) (rule : Rule) (own : Bool) {p : Prospect} {held : Option α}
    {outer : List Tree} {s : State} (start : s.Arrives v outer p held)
    (scope : own = true → outer = []) :
    (rule.follow limits reach s).EndsBy v limits outer (rule.outcomes v own p held) := by
  -- Induction on the rule, one case for each instruction. A scope that the rule opens begins with
  -- nothing around it.
  induction rule generalizing own p held outer s with
  | done => exact start.endsBy (List.mem_singleton_self _)
  | andThen first next ihFirst ihNext =>
    refine ((ihFirst own start scope).andThen (next.follow_spoiled spoils _) ?_).eraseDups
    exact fun q held middle => ihNext own middle scope
  | take => exact start.take.eraseDups
  | complain problem code =>
    simp only [Rule.outcomes, Rule.follow]
    split
    · exact (start.complain problem code).endsBy (List.mem_singleton_self _)
    · next quiet => exact .inl (.inr (.inl ⟨Bool.eq_false_iff.mpr quiet, List.cons_ne_nil _ _⟩))
  | reject problem code => exact start.reject problem code
  | rejectNext code => exact start.rejectNext code
  | yield parsed => exact (start.recorded parsed).endsBy (List.mem_singleton_self _)
  | branch test yes no ihYes ihNo =>
    -- whichever way the branch goes, what its test told is known
    simp only [Rule.outcomes, Rule.follow]
    split
    · next holds =>
      obtain ⟨q, told, faces⟩ := start.faces.refine holds
      refine (ihYes own (start.refined faces) scope).mono fun o listed => ?_
      exact List.mem_append_left _ (List.mem_flatMap.mpr ⟨q, told, listed⟩)
    · next fails =>
      obtain ⟨q, told, faces⟩ := start.faces.refine (Bool.eq_false_iff.mpr fails)
      refine (ihNo own (start.refined faces) scope).mono fun o listed => ?_
      exact List.mem_append_right _ (List.mem_flatMap.mpr ⟨q, told, listed⟩)
  | loop test body ih =>
    exact start.repeatWhile (body.follow_spoiled spoils) (fun _ _ _ h => ih own h scope)
      limits.maxTurns
  | insist body ih =>
    refine (ih own start scope).andThen ?_ fun q held h => h.insisted s.offset
    exact (State.spoiled_kept v limits).insisted trivial _ _
  | node kind body ih =>
    -- the scope of the node begins with nothing in it
    have opened : s.skipTrivia.opened.Arrives v [] p (v.kept kind v.nothing) :=
      { start.opened with holds := start.opened.holds.kept kind }
    refine State.EndsBy.eraseDups ((ih true opened fun _ => rfl).map id fun o ends => ?_)
    cases o with
    | lost => trivial
    | ended q inner =>
      simp only [Survey.closed]
      split
      · next node fits =>
        have inside := ends.holds.closed fits s.skipTrivia.out
        have faces := (ends.recorded (some kind)).faces
        exact ⟨⟨faces.next, faces.second, faces.parsed⟩, start.holds.skipTrivia.add inside,
          ends.noted⟩
      · trivial
  | group body ih =>
    refine (ih true start.opened fun _ => rfl).map id fun o ends => ?_
    cases o with
    | lost => trivial
    | ended q inner =>
      have inside := ends.holds.merged s.skipTrivia.out
      exact ⟨⟨ends.faces.next, ends.faces.second, ends.faces.parsed⟩,
        start.holds.skipTrivia.add inside, ends.noted⟩
  | wrap kind body ih =>
    simp only [Rule.outcomes]
    split
    · next isOwn =>
      -- all that the scope holds is what the rule has added, so there is nothing around it
      obtain rfl := scope isOwn
      have kept : s.Arrives v [] p (v.kept kind held) :=
        { start with holds := start.holds.kept kind }
      refine State.EndsBy.eraseDups ((ih true kept fun _ => rfl).map id fun o ends => ?_)
      cases o with
      | lost => trivial
      | ended q inner =>
        simp only [Survey.wrapped]
        split
        · next node fits =>
          have faces := (ends.recorded (some kind)).faces
          exact ⟨⟨faces.next, faces.second, faces.parsed⟩, ends.holds.closed fits [], ends.noted⟩
        · trivial
    · -- the scope was not opened by the rule, so what it holds is not known
      exact .inr ⟨.lost, List.mem_singleton_self _, trivial⟩
  | call goal => exact start.reached right goal
  | nested goal =>
    simp only [Rule.outcomes, Rule.follow, State.deeper]
    split
    · -- The goal is reached one level deeper, and the level is left afterwards.
      have entered : s.entered.Arrives v outer p held :=
        ⟨⟨start.faces.next, start.faces.second, start.faces.parsed⟩, start.holds.of_out rfl,
          Nat.le_max_right _ _⟩
      have depth : (reach goal s.entered).depth = s.depth + 1 := (hadvances goal s.entered).depth
      rcases entered.reached right goal with spoiled | ⟨o, member, ends⟩
      · exact .inl (spoiled.of_same rfl rfl rfl)
      · refine .inr ⟨o, List.mem_append_left _ member, ?_⟩
        cases o with
        | lost => trivial
        | ended q inner =>
          have noted := ends.noted
          refine ⟨⟨ends.faces.next, ends.faces.second, ends.faces.parsed⟩,
            ends.holds.of_out rfl, ?_⟩
          simp only
          omega
    · next full =>
      -- no deeper level is left
      exact (start.giveUp (Nat.not_lt.mp full) goal).mono fun o => List.mem_append_right _

end Rules

/-- A goal does not bring back a parse that is not surveyed. -/
theorem reach_spoiled {α : Type} (v : Survey α) (limits : Limits) (allowance : Nat) (goal : Goal)
    (s : State) (h : s.Spoiled v limits) :
    (reach grammar limits allowance goal s).Spoiled v limits :=
  reach_kept (State.spoiled_kept v limits) trivial (fun _ _ _ => trivial) allowance goal s h

/-- A survey that is checked is right. -/
theorem Survey.right_of_checks {α : Type} [DecidableEq α] {v : Survey α}
    (checked : ∀ goal, v.checks goal = true) (limits : Limits) (allowance : Nat) :
    v.Right limits (reach grammar limits allowance) := by
  -- Induction on the allowance: what a survey says of the goals that a goal reaches is so.
  induction allowance with
  | zero => exact fun _ _ _ _ => .inl (.inl rfl)
  | succ allowance ih =>
    intro goal s faces noted
    -- a goal finds what its entry says, and has added nothing yet
    have start : s.Arrives v s.out goal.entry (v.begun goal) := by
      refine ⟨faces, ?_, noted⟩
      unfold Survey.begun
      split
      · exact (State.holds_nothing v s).forget
      · exact State.holds_nothing v s
    rcases (grammar goal).follow_outcomes (reach_advances grammar allowance)
      (reach_spoiled v limits allowance) ih false start (fun own => absurd own (by decide)) with
      spoiled | ⟨o, member, ends⟩
    · exact .inl spoiled
    · have listed := List.all_eq_true.mp (checked goal) o member
      cases o with
      | lost => exact absurd listed (by simp [Survey.lists])
      | ended p held =>
        -- The survey may say less than what is seen.
        obtain ⟨left, said, same⟩ := List.any_eq_true.mp listed
        obtain ⟨parsed, added⟩ := Bool.and_eq_true_iff.mp same
        refine State.Arrives.endsBy ⟨?_, ?_, ends.noted⟩ (List.mem_map_of_mem said)
        · refine State.faces_unseen fun b known => ?_
          rcases Bool.or_eq_true_iff.mp parsed with silent | same
          · simp [beq_iff_eq.mp silent] at known
          · exact ends.faces.parsed b (beq_iff_eq.mp same ▸ known)
        · rcases Bool.or_eq_true_iff.mp added with silent | same
          · rw [beq_iff_eq.mp silent]
            exact ends.holds.forget
          · rw [beq_iff_eq.mp same]
            exact ends.holds

/-- All nodes of a text that is surveyed hold what they may. -/
theorem Survey.throughout_finalState {α : Type} [DecidableEq α] {v : Survey α}
    (checked : ∀ goal, v.checks goal = true)
    (root : ∀ left ∈ v.leaves (.statements false), (v.node? .sourceFile left.2).isSome = true)
    (maxDepth : Nat) (tokens : List Token) :
    (finalState maxDepth tokens).Spoiled v (Limits.forTokens maxDepth tokens) ∨
      (Syntax.Tree.node .sourceFile (finalState maxDepth tokens).out.reverse).Throughout
        v.Fitting := by
  have faces : (State.start tokens).Faces (.unseen none) := State.faces_unseen nofun
  rcases Survey.right_of_checks checked (Limits.forTokens maxDepth tokens)
    (callAllowance maxDepth) (.statements false) (State.start tokens) faces
    (Nat.le_refl 0) with spoiled | ⟨o, member, ends⟩
  · -- the text has one goal, and the trivia at its end comes after it
    exact .inl ((State.spoiled_kept v _).consume _ _ spoiled)
  · obtain ⟨left, listed, rfl⟩ := List.mem_map.mp member
    -- what it leaves fits into the root
    obtain ⟨node, fits⟩ := Option.isSome_iff_exists.mp (root left listed)
    obtain ⟨added, parts, -, fitting⟩ := ends.holds.skipTrivia.closed fits []
    rw [List.append_nil] at parts
    exact .inr (fitting _ (parts ▸ List.mem_singleton_self _))

end PerlOutline.Grammar
