import PerlOutline.Proofs.Derivation
import PerlOutline.Proofs.Layout

/-!
# Groups that are given up

A goal at the nesting limit is given up with all that is left of its group, and reported once. What
is around it goes on as if the group had been read. So a run with such a group is made of parts that
are derived, and of one part that is not.

## Layers
- **`levelBehind`**: brackets counted alike, whatever their kinds.
- **Groups** end where their brackets are closed.
- **`Overflows`**: rules that give up one group on their way.
- **Giving up**: a group becomes an error node.
-/

namespace PerlOutline.Grammar

open PerlOutline.Syntax (Kind Token Tree Problem ErrorCode)
open State (openers closers significant)

/-! ## Brackets counted alike -/

/-- How many opening brackets there are, of all kinds. -/
def openings (ts : List Token) : Nat :=
  ts.countP fun t => openers.contains t.kind

/-- How many closing brackets there are, of all kinds. -/
def closings (ts : List Token) : Nat :=
  ts.countP fun t => closers.contains t.kind

/-- There are as many closing brackets as opening ones, and nowhere more of them before. -/
structure Balanced (ts : List Token) : Prop where
  even : openings ts = closings ts
  covered : ∀ before, before <+: ts → closings before ≤ openings before

/-- Only so many lists of tokens begin a list of tokens. -/
instance (ts : List Token) : Decidable (Balanced ts) :=
  decidable_of_iff
    (openings ts = closings ts ∧
      ∀ n < ts.length + 1, closings (ts.take n) ≤ openings (ts.take n))
    ⟨fun ⟨even, covered⟩ => ⟨even, fun before prior => by
      rw [List.prefix_iff_eq_take.mp prior]
      exact covered _ (Nat.lt_succ_of_le prior.length_le)⟩,
     fun h => ⟨h.even, fun n _ => h.covered _ (List.take_prefix n ts)⟩⟩

/-- How many brackets are open behind tokens, if never more of them are closed than are open. -/
def levelBehind (level : Nat) : List Token → Option Nat
  | [] => some level
  | t :: ts =>
    if openers.contains t.kind then levelBehind (level + 1) ts
    else if closers.contains t.kind then
      match level with
      | 0 => none
      | outer + 1 => levelBehind outer ts
    else levelBehind level ts

/-- No bracket both opens and closes. -/
theorem closers_of_openers {k : Kind} (opens : openers.contains k = true) :
    closers.contains k = false := by
  revert opens
  cases k <;> decide

/-- The level follows from the numbers of brackets. -/
theorem levelBehind_of_covered {level behind : Nat} {ts : List Token}
    (even : level + openings ts = behind + closings ts)
    (covered : ∀ before, before <+: ts → closings before ≤ level + openings before) :
    levelBehind level ts = some behind := by
  -- Induction on the tokens: what holds of all that can stand before holds behind the first one.
  induction ts generalizing level with
  | nil =>
    simp only [openings, closings, List.countP_nil, Nat.add_zero] at even
    rw [levelBehind, even]
  | cons t ts ih =>
    have further (before : List Token) (h : before <+: ts) :
        closings (t :: before) ≤ level + openings (t :: before) :=
      covered _ (List.cons_prefix_cons.mpr ⟨rfl, h⟩)
    simp only [openings, closings, List.countP_cons] at even further
    unfold levelBehind
    by_cases opens : openers.contains t.kind = true
    · -- An opening bracket raises the level for the tokens behind it.
      rw [if_pos opens]
      simp only [opens, closers_of_openers opens, if_true, Bool.false_eq_true, if_false]
        at even further
      refine ih (by simp only [openings, closings]; omega) fun before h => ?_
      have := further before h
      simp only [openings, closings]
      omega
    · rw [if_neg opens]
      simp only [opens, Bool.false_eq_true, if_false] at even further
      by_cases closes : closers.contains t.kind = true
      · -- A closing one lowers it, which there is room for: the bracket alone begins the tokens.
        rw [if_pos closes]
        simp only [closes, if_true] at even further
        cases level with
        | zero =>
          have := further [] List.nil_prefix
          simp at this
        | succ outer =>
          refine ih (by simp only [openings, closings]; omega) fun before h => ?_
          have := further before h
          simp only [openings, closings]
          omega
      · -- Any other token leaves it as it is.
        rw [if_neg closes]
        simp only [closes, Bool.false_eq_true, if_false] at even further
        exact ih even further

/-- Balanced tokens close all that they open. -/
theorem Balanced.levelBehind {ts : List Token} (h : Balanced ts) : levelBehind 0 ts = some 0 := by
  refine levelBehind_of_covered (by rw [h.even]) fun before prior => ?_
  rw [Nat.zero_add]
  exact h.covered before prior

/-- The level behind tokens is the level before those that follow. -/
theorem levelBehind_append (level : Nat) (ts us : List Token) :
    levelBehind level (ts ++ us) = (levelBehind level ts).bind (levelBehind · us) := by
  induction ts generalizing level with
  | nil => rfl
  | cons t ts ih =>
    simp only [List.cons_append, levelBehind]
    -- An opening bracket, a closing one with or without one to close, or another token.
    split
    · exact ih _
    · split
      · cases level with
        | zero => rfl
        | succ outer => exact ih _
      · exact ih _

/-- More brackets around do not matter. -/
theorem levelBehind_add {level behind : Nat} {ts : List Token}
    (h : levelBehind level ts = some behind) (more : Nat) :
    levelBehind (level + more) ts = some (behind + more) := by
  induction ts generalizing level with
  | nil => rw [levelBehind, Option.some.inj h]
  | cons t ts ih =>
    simp only [levelBehind] at h ⊢
    split at h
    · next opens =>
      rw [if_pos opens, Nat.add_right_comm]
      exact ih h
    · next opens =>
      rw [if_neg opens]
      split at h
      · next closes =>
        rw [if_pos closes]
        cases level with
        | zero => cases h
        | succ outer =>
          rw [Nat.add_right_comm]
          exact ih h
      · next closes =>
        rw [if_neg closes]
        exact ih h

/-- Trivia is no bracket. -/
theorem levelBehind_filter (level : Nat) (ts : List Token) :
    levelBehind level (ts.filter (!·.isTrivia)) = levelBehind level ts := by
  have plain {k : Kind} (trivia : k.isTrivia = true) :
      openers.contains k = false ∧ closers.contains k = false := by
    revert trivia
    cases k <;> decide
  induction ts generalizing level with
  | nil => rfl
  | cons t ts ih =>
    cases trivia : t.isTrivia with
    | true =>
      -- Trivia is left out on the one side and passed over on the other.
      obtain ⟨opens, closes⟩ := plain (k := t.kind) trivia
      rw [List.filter_cons_of_neg (by simp [trivia]), ih]
      simp only [levelBehind, opens, closes, Bool.false_eq_true, if_false]
    | false =>
      rw [List.filter_cons_of_pos (by simp [trivia])]
      simp only [levelBehind, ih]

/-! ## Groups -/

/-- Where a bracket is open, all tokens belong to the group as long as it stays open. -/
theorem groupLength_of_levelBehind {level behind : Nat} {ts : List Token}
    (plain : ∀ t ∈ ts, t.isTrivia = false) (h : levelBehind level ts = some behind) (seen : Nat)
    (rest : List Token) :
    State.groupLength (level + 1) seen seen (ts ++ rest) =
      State.groupLength (behind + 1) (seen + ts.length) (seen + ts.length) rest := by
  induction ts generalizing level seen with
  | nil => rw [Option.some.inj h]; rfl
  | cons t ts ih =>
    obtain ⟨significant, later⟩ := List.forall_mem_cons.mp plain
    -- The length counts from the tokens seen so far, so that the induction moves one token over to
    -- them.
    have length : seen + (t :: ts).length = seen + 1 + ts.length := by
      rw [List.length_cons]
      omega
    rw [length]
    simp only [List.cons_append, State.groupLength, significant, Bool.false_eq_true, if_false]
    simp only [levelBehind] at h
    split at h
    · next opens => rw [if_pos opens, ih later h]
    · next opens =>
      rw [if_neg opens]
      split at h
      · next closes =>
        rw [if_pos closes]
        -- The bracket that opened the group is still open, so none of these closes it.
        cases level with
        | zero => cases h
        | succ outer => exact ih later h _
      · next closes =>
        rw [if_neg closes, if_neg (by simp), ih later h]

/-- What stands next ends a group: a bracket that closes what is around it, or a semicolon. -/
def EndsGroup (ts : List Token) : Prop :=
  ∃ t us, ts = t :: us ∧ (t.kind = .rParen ∨ t.kind = .semicolon)

/-- A group in brackets that are balanced goes to the bracket that closes it. -/
theorem groupLength_enclosed {first final : Token} {inner ts : List Token}
    (opens : first.kind = .lParen) (closes : final.kind = .rParen)
    (plain : ∀ t ∈ inner, t.isTrivia = false) (h : levelBehind 0 inner = some 0)
    (ends : EndsGroup ts) :
    State.groupLength 0 0 0 (first :: (inner ++ [final]) ++ ts) =
      (first :: (inner ++ [final])).length := by
  have whole : first :: (inner ++ [final]) ++ ts = first :: (inner ++ final :: ts) := by simp
  -- Three stretches: the bracket that opens, what is inside, and the bracket that closes.
  have opened : State.groupLength 0 0 0 (first :: (inner ++ final :: ts)) =
      State.groupLength 1 1 1 (inner ++ final :: ts) := by
    simp [State.groupLength, Token.isTrivia, opens, openers, Kind.isTrivia]
  have closed (n : Nat) : State.groupLength 1 n n (final :: ts) =
      State.groupLength 0 (n + 1) (n + 1) ts := by
    simp [State.groupLength, Token.isTrivia, closes, openers, closers, Kind.isTrivia]
  -- Outside all brackets a bracket that closes and a semicolon both stop the count.
  have ended (n : Nat) : State.groupLength 0 n n ts = n := by
    obtain ⟨t, us, rfl, kind⟩ := ends
    rcases kind with kind | kind
    all_goals simp [State.groupLength, Token.isTrivia, kind, openers, closers, Kind.isTrivia]
  rw [whole, opened, groupLength_of_levelBehind plain h, closed, ended]
  simp only [List.length_cons, List.length_append, List.length_nil]
  omega

/-! ## Runs with one group given up -/

/-- The rule leads from `a` to `b` where it is not cut off. On the way it comes down to the nesting
limit and gives up one group there, and it reports nothing else. -/
def Rule.Overflows (limits : Limits) (depth : Nat) (rule : Rule) (a b : Config) : Prop :=
  rule.Tells limits depth limits.maxDepth [(.tooDeep limits.maxDepth, .e0205)] a b

namespace Rule.Overflows

variable {limits : Limits} {depth deepest : Nat} {first next : Rule} {a b c : Config}

/-- The group is in the first of two rules. -/
theorem thenDerives (h : first.Overflows limits depth a b)
    (derived : Derives depth deepest next b c) (room : deepest ≤ limits.maxDepth) :
    (Rule.andThen first next).Overflows limits depth a c := by
  have both := Rule.Tells.andThen h (derived.tells room)
  -- The part that is derived goes no deeper than the limit, which the other part comes down to.
  rwa [List.nil_append, Nat.max_eq_left room] at both

/-- The group is in the second of two rules. -/
theorem derivesThen (derived : Derives depth deepest first a b) (room : deepest ≤ limits.maxDepth)
    (h : next.Overflows limits depth b c) :
    (Rule.andThen first next).Overflows limits depth a c := by
  have both := Rule.Tells.andThen (derived.tells room) h
  rwa [List.append_nil, Nat.max_eq_right room] at both

/-- The group is on the way that is taken where the test holds. -/
theorem yes {test : Test} {no : Rule} (answered : a.answer test = some true)
    (h : first.Overflows limits depth a b) :
    (Rule.branch test first no).Overflows limits depth a b :=
  Rule.Tells.branch answered h

/-- The group is on the way that is taken where the test fails. -/
theorem no {test : Test} {yes : Rule} (answered : a.answer test = some false)
    (h : first.Overflows limits depth a b) :
    (Rule.branch test yes first).Overflows limits depth a b :=
  Rule.Tells.branch answered h

/-- The group is below, where there is room for one more level. -/
theorem nested {goal : Goal} (room : depth < limits.maxDepth)
    (h : (grammar goal).Overflows limits (depth + 1) a b) :
    (Rule.nested goal).Overflows limits depth a b :=
  Rule.Tells.nested room room h

/-- The group is in what is called on the same level. -/
theorem call {goal : Goal} (h : (grammar goal).Overflows limits depth a b) :
    (Rule.call goal).Overflows limits depth a b :=
  Rule.Tells.call h

/-- The group is in the first turn of a loop. -/
theorem turn {test : Test} {body : Rule} (answered : a.answer test = some true)
    (h : body.Overflows limits depth a b) (derived : Derives depth deepest (.loop test body) b c)
    (room : deepest ≤ limits.maxDepth) : (Rule.loop test body).Overflows limits depth a c := by
  have both := Rule.Tells.turn answered h (derived.tells room)
  rwa [List.nil_append, Nat.max_eq_left room] at both

section Scopes

variable {kind : Kind} {goal : Goal} {body tail : Rule} {ts us : List Token}
  {out inner children : List Tree} {t : Tree} {last ended : Option Kind} {k : Kind}

/-- A group that builds one tree. -/
theorem group_one (h : body.Overflows limits depth ⟨ts, [], last⟩ ⟨us, [t], ended⟩) :
    (Rule.group body).Overflows limits depth ⟨ts, out, last⟩ ⟨us, t :: out, ended⟩ :=
  Rule.Tells.group h

/-- A node of known children. -/
theorem node_of (h : body.Overflows limits depth ⟨ts, [], last⟩ ⟨us, inner, ended⟩)
    (built : inner.reverse = children) :
    (Rule.node kind body).Overflows limits depth ⟨ts, out, last⟩
      ⟨us, .node kind children :: out, some kind⟩ :=
  built ▸ Rule.Tells.node h

/-- A scope of known children that becomes a node. -/
theorem wrap_of (h : body.Overflows limits depth a ⟨us, inner, ended⟩)
    (built : inner.reverse = children) :
    (Rule.wrap kind body).Overflows limits depth a ⟨us, [.node kind children], some kind⟩ :=
  built ▸ Rule.Tells.wrap h

/-- What a goal reads is passed on where its rule does nothing further. -/
theorem passed (h : (grammar goal).Overflows limits depth ⟨ts, [], last⟩ ⟨us, [t], some k⟩)
    (idle : Derives depth depth tail ⟨us, [t], some k⟩ ⟨us, [t], some k⟩)
    (room : depth ≤ limits.maxDepth) :
    (Rule.group (.andThen (.call goal) tail)).Overflows limits depth ⟨ts, out, last⟩
      ⟨us, t :: out, some k⟩ :=
  group_one (thenDerives h.call idle room)

end Scopes

end Rule.Overflows

/-! ## Giving up -/

namespace State

variable {s : State} {group ts : List Token} {out : List Tree} {last : Option Kind}

/-- Tokens that are read off one by one stand in the scope, the last one on top. -/
theorem config_takes (h : s.config = ⟨group ++ ts, out, last⟩) :
    (s.takes group.length).config = ⟨ts, (group.map Tree.token).reverse ++ out, last⟩ := by
  induction group generalizing s out with
  | nil => exact h
  | cons t group ih =>
    rw [List.length_cons, takes, ih (config_take h)]
    simp

/-- Tokens that are set aside become an error node. -/
theorem config_setAside (h : s.config = ⟨group ++ ts, out, last⟩) :
    (s.setAside (span group.length (significant s.rest))).config =
      ⟨ts, .node .error (group.map .token) :: out, last⟩ := by
  -- The scope of the error node opens behind trivia, of which the configuration knows nothing.
  have opened : s.skipTrivia.opened.config = ⟨group ++ ts, [], last⟩ := by
    have shown := s.config_skipTrivia.trans h
    simp only [config, Config.mk.injEq] at shown
    simp [config, State.opened, shown, Tree.bareForest]
  have taken := config_takes opened
  -- As many tokens as are spanned are as many significant ones as the group has.
  have inside : s.skipTrivia.opened.consume (span group.length (significant s.rest)) =
      s.skipTrivia.opened.takes group.length := by
    rw [← rest_skipTrivia]
    exact s.skipTrivia.opened.consume_span _
  have outer : Tree.bareForest s.skipTrivia.out = out :=
    congrArg Config.out (s.config_skipTrivia.trans h)
  simp only [setAside, inside]
  simp only [config, Config.mk.injEq] at taken ⊢
  simp [Tree.bareForest, Tree.bare, taken, outer]

end State

/-- At the nesting limit a group is given up, where something can be given up at all. -/
theorem overflows_group {limits : Limits} {goal : Goal} {group ts : List Token} {out : List Tree}
    {last : Option Kind}
    (goesOn : Config.answer ⟨group ++ ts, out, last⟩ .endsExpression = some false)
    (length : State.groupLength 0 0 0 (group ++ ts) = group.length) :
    (Rule.nested goal).Overflows limits limits.maxDepth ⟨group ++ ts, out, last⟩
      ⟨ts, .node .error (group.map .token) :: out, some .error⟩ := by
  intro allowance turns s start _
  have full : ¬ s.depth < limits.maxDepth := by
    rw [start.level]
    exact Nat.lt_irrefl _
  have ends : s.satisfies .endsExpression = false :=
    State.satisfies_of_answer (start.config ▸ goesOn)
  -- The group is measured in the tokens that are left, with the trivia between its words.
  have held : State.groupLength 0 0 0 (significant s.rest) =
      State.span group.length (significant s.rest) := by
    have shown : s.skipTrivia.config = ⟨group ++ ts, out, last⟩ :=
      s.config_skipTrivia.trans start.config
    rw [State.groupLength_eq_span, ← State.rest_skipTrivia, ← length]
    exact congrArg (State.span · _)
      (congrArg (fun c : Config => State.groupLength 0 0 0 c.rest) shown)
  have reported : (s.complain (.tooDeep limits.maxDepth) .e0205).config =
      ⟨group ++ ts, out, last⟩ := start.config
  have aside : ((s.complain (.tooDeep limits.maxDepth) .e0205).setAside
      (State.span group.length (significant s.rest))).config =
        ⟨ts, .node .error (group.map .token) :: out, last⟩ := State.config_setAside reported
  -- The three things that a run tells: where it ends, what it reports, and how deep it went.
  simp only [Rule.followFor, Rule.follow, State.deeper, if_neg full, State.giveUp, ends,
    Bool.false_eq_true, if_false, State.abandonGroup, held]
  simp only [State.config, Config.mk.injEq] at aside
  refine ⟨?_, ⟨[⟨.tooDeep limits.maxDepth, .e0205, s.nextRange⟩], ?_, rfl⟩, ?_⟩
  · simp [State.config, aside]
  · rw [State.setAside_frame]
    rfl
  · rw [State.setAside_frame]
    exact (Nat.max_eq_left start.noted).symm

end PerlOutline.Grammar
