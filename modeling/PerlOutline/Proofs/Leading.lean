import PerlOutline.Proofs.Building
import PerlOutline.Proofs.Survey

/-!
# Nodes begin with a token that counts

The trivia before a node is read before its scope is opened, and a node that takes in what its group
has built begins where the group began. So no node begins with trivia, however broken the text is.

## Layers
- **Nodes of a scope**: what is true of all of them stays so where tokens or nodes are added.
- **`Led`** and **`Begun`**: scopes whose nodes do not begin with trivia, and scopes that do not
  begin with it themselves.
- **Steps** of a parse keep both.
- **Rules and goals** build such nodes only.
-/

namespace PerlOutline.Syntax.Tree

/-- What a node holds does not begin with trivia. -/
def Led (children : List Tree) : Prop :=
  ∀ t, (forestLeaves children).head? = some t → t.isTrivia = false

end PerlOutline.Syntax.Tree

namespace PerlOutline.Grammar

open PerlOutline.Syntax (Kind Token Tree Problem ErrorCode)

namespace State

variable {s s' inner : State} {P : Kind → List Tree → Prop}

/-! ## Nodes of a scope -/

/-- Tokens that are read hold no nodes. -/
theorem throughout_consume (h : ∀ t ∈ s.out, t.Throughout P) (n : Nat) :
    ∀ t ∈ (s.consume n).out, t.Throughout P := by
  intro t member
  rw [out_consume] at member
  rcases List.mem_append.mp member with read | before
  · exact throughout_tokens (List.mem_reverse.mp read)
  · exact h t before

/-- A scope that becomes a node asks it of the new node, of what is in it and of what is around it.
-/
theorem throughout_closed {kind : Kind} {outer : List Tree} (holds : P kind inner.out.reverse)
    (inside : ∀ t ∈ inner.out, t.Throughout P) (around : ∀ t ∈ outer, t.Throughout P) :
    ∀ t ∈ (inner.closed kind outer).out, t.Throughout P := by
  refine List.forall_mem_cons.mpr ⟨⟨holds, ?_⟩, around⟩
  exact Tree.forestThroughout_iff.mpr fun t member => inside t (List.mem_reverse.mp member)

/-- A scope that goes over into the one around it makes no node. -/
theorem throughout_merged {outer : List Tree} (inside : ∀ t ∈ inner.out, t.Throughout P)
    (around : ∀ t ∈ outer, t.Throughout P) : ∀ t ∈ (inner.merged outer).out, t.Throughout P :=
  fun t member => (List.mem_append.mp member).elim (inside t) (around t)

/-! ## Scopes -/

/-- No node in the open scope begins with trivia. -/
def Led (s : State) : Prop :=
  ∀ t ∈ s.out, t.Throughout fun _ => Tree.Led

/-- The open scope does not begin with trivia, nor would it with what is left to read. -/
def Begun (s : State) : Prop :=
  ∀ t, s.tokens.head? = some t → t.isTrivia = false

/-- A scope that was just opened holds nothing. -/
theorem led_opened (s : State) : s.opened.Led :=
  fun _ none => absurd none List.not_mem_nil

/-- A scope that is opened behind trivia begins with what comes then. -/
theorem begun_opened (s : State) : s.skipTrivia.opened.Begun := by
  have left : s.skipTrivia.opened.tokens = significant s.rest := s.rest_skipTrivia
  intro t first
  rw [left] at first
  exact isTrivia_of_next? first

/-- What is read moves from what is left into the scope, and the first token of both together stays.
-/
theorem Begun.advances (h : s.Begun) (later : s.Advances s') : s'.Begun := by
  unfold Begun
  rw [later.tokens]
  exact h

/-- What a scope holds that has begun so can become a node. -/
theorem Begun.led (h : s.Begun) : Tree.Led s.out.reverse := by
  intro t first
  apply h
  rw [State.tokens, List.head?_append, first]
  rfl

/-- A scope that has begun well is closed to a node that does. -/
theorem Led.closed (h : inner.Led) (begun : inner.Begun) (kind : Kind)
    {outer : List Tree} (around : ∀ t ∈ outer, t.Throughout fun _ => Tree.Led) :
    (inner.closed kind outer).Led :=
  throughout_closed begun.led h around

/-! ## Steps -/

/-- Tokens that are read are no nodes. -/
theorem Led.consume (h : s.Led) (n : Nat) : (s.consume n).Led :=
  throughout_consume h n

/-- Nor is trivia. -/
theorem Led.skipTrivia (h : s.Led) : s.skipTrivia.Led :=
  h.consume _

/-- What is set aside becomes an error node, which is opened behind trivia like any other. -/
theorem Led.setAside (h : s.Led) (n : Nat) : (s.setAside n).Led := by
  have inside := (led_opened s.skipTrivia).consume n
  have begun := s.begun_opened.advances (s.skipTrivia.opened.consume_advances n)
  exact inside.closed begun .error h.skipTrivia

/-- What is rejected is set aside, if there is anything left. -/
theorem Led.reject (h : s.Led) (problem : Problem) (code : ErrorCode) :
    (s.reject problem code).Led := by
  have reported : (s.complain problem code).Led := h
  unfold State.reject
  split
  · exact reported
  · exact reported.setAside 1

/-- The next token is rejected. -/
theorem Led.rejectNext (h : s.Led) (code : ErrorCode) : (s.rejectNext code).Led := by
  unfold State.rejectNext
  split
  · exact h.reject _ code
  · exact h

/-- A rule that has to read something rejects a token where it has read none. -/
theorem Led.insisted (h : s.Led) (start : Nat) : (s.insisted start).Led := by
  unfold State.insisted
  split
  · exact h.rejectNext .e0901
  · exact h

/-- A group that is given up is set aside. -/
theorem Led.giveUp (h : s.Led) (limit : Nat) (goal : Goal) : (s.giveUp limit goal).Led := by
  have reported : (s.complain (.tooDeep limit) .e0205).Led := h
  unfold State.giveUp
  split
  · exact h
  · exact reported.setAside _

end State

/-! ## Rules and goals -/

variable {limits : Limits} {reach : Goal → State → State}

/-- A rule builds no node that begins with trivia, if it wraps only what a group of its own has
built. -/
theorem Rule.follow_led (hadvances : ∀ goal (s : State), s.Advances (reach goal s))
    (goals : ∀ goal (s : State), s.Led → (reach goal s).Led) (rule : Rule) {grouped : Bool}
    (wraps : rule.wrapsInGroups grouped = true) {s : State} (h : s.Led)
    (begun : grouped = true → s.Begun) : (rule.follow limits reach s).Led := by
  -- Induction on the rule. In a group the scope has begun behind trivia, and reading on does not
  -- change how it begins.
  induction rule generalizing grouped s with
  | done => exact h
  | andThen first next ihFirst ihNext =>
    obtain ⟨wrapsFirst, wrapsNext⟩ := Bool.and_eq_true_iff.mp wraps
    exact ihNext wrapsNext (ihFirst wrapsFirst h begun) fun group =>
      (begun group).advances (first.follow_advances hadvances s)
  | take => exact h.consume _
  | complain problem code => exact h
  | reject problem code => exact h.reject problem code
  | rejectNext code => exact h.rejectNext code
  | yield parsed => exact h
  | branch test yes no ihYes ihNo =>
    obtain ⟨wrapsYes, wrapsNo⟩ := Bool.and_eq_true_iff.mp wraps
    simp only [Rule.follow]
    -- Both rules are followed from the same scope, so whichever is taken keeps what is known of it.
    split
    · exact ihYes wrapsYes h begun
    · exact ihNo wrapsNo h begun
  | loop test body ih =>
    -- Induction on the turns, since a further turn starts from where the body has left the scope.
    simp only [Rule.follow]
    generalize limits.maxTurns = turns
    induction turns generalizing s with
    | zero =>
      unfold State.repeatWhile
      split <;> exact h
    | succ turns again =>
      unfold State.repeatWhile
      split
      · exact again (ih wraps h begun) fun group =>
          (begun group).advances (body.follow_advances hadvances s)
      · exact h
  | insist body ih => exact (ih wraps h begun).insisted s.offset
  | node kind body ih =>
    -- A node opens a scope of its own, and nothing inside it can wrap what was there before.
    have inside := ih wraps (State.led_opened s.skipTrivia) (fun group => Bool.noConfusion group)
    have started : (body.follow limits reach s.skipTrivia.opened).Begun :=
      s.begun_opened.advances (body.follow_advances hadvances _)
    exact inside.closed started kind h.skipTrivia
  | group body ih =>
    have inside := ih wraps (State.led_opened s.skipTrivia) fun _ => s.begun_opened
    exact State.throughout_merged inside h.skipTrivia
  | wrap kind body ih =>
    -- What is wrapped is all that the group has built, which is why the group has to have begun
    -- well.
    obtain ⟨group, wrapsBody⟩ := Bool.and_eq_true_iff.mp wraps
    have inside := ih wrapsBody h (fun group => Bool.noConfusion group)
    have started : (body.follow limits reach s).Begun :=
      (begun group).advances (body.follow_advances hadvances s)
    exact inside.closed started kind fun _ none => absurd none List.not_mem_nil
  | call goal => exact goals goal s h
  | nested goal =>
    simp only [Rule.follow, State.deeper]
    -- Cut off, the goal is not entered and its group set aside.
    split
    · exact goals goal s.entered h
    · exact h.giveUp limits.maxDepth goal

/-- No node of a parse begins with trivia. -/
theorem finalState_led (maxDepth : Nat) (tokens : List Token) :
    (finalState maxDepth tokens).Led := by
  -- Induction on the allowance: a goal that is reached with one call less builds such nodes.
  have goals (limits : Limits) (allowance : Nat) :
      ∀ goal (s : State), s.Led → (Grammar.reach grammar limits allowance goal s).Led := by
    induction allowance with
    | zero => exact fun _ _ h => h
    | succ allowance ih =>
      intro goal s h
      exact (grammar goal).follow_led (reach_advances grammar allowance) ih
        (wrapsInGroups_grammar goal) h fun group => Bool.noConfusion group
  have start : (State.start tokens).Led := fun _ none => absurd none List.not_mem_nil
  exact (goals _ _ _ _ start).skipTrivia

end PerlOutline.Grammar
