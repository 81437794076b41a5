import PerlOutline.Proofs.Progress

/-!
# A parse ends by itself

Neither the allowance of calls nor the limit of turns ever cuts a parse off. Between two nesting
levels calls go down the table of goals, and each turn of a loop reads a token.

## Layers
- **`Goal.rank`**: calls go to goals of a lower rank.
- **Loops**: turns do not run out.
- **Rules and goals**: neither do calls.
- **Larger bounds** change nothing where a parse is not cut off.
- **Texts**: the parse of a text reads all of it.
-/

namespace PerlOutline.Syntax

/-- The list of all kinds is complete. -/
theorem Kind.mem_all (k : Kind) : k ∈ Kind.all := by
  apply List.contains_iff_mem.mp
  cases k <;> rfl

end PerlOutline.Syntax

namespace PerlOutline.Grammar

open PerlOutline.Syntax (Kind Token)

/-! ## Ranks -/

/-- How tightly the operators of a tier bind. -/
def Tier.rank : Tier → Nat
  | .lowOr => 3
  | .lowAnd => 2
  | .range => 20
  | .logicalOr => 19
  | .logicalAnd => 18
  | .bitwiseOr => 17
  | .bitwiseAnd => 16
  | .equality => 15
  | .relational => 14
  | .additive => 13
  | .multiplicative => 12
  | .binding => 11

/-- How many calls can be open inside a goal without going a nesting level deeper. -/
def Goal.rank : Goal → Nat
  | .statements _ | .prototype | .list | .plainVariable => 0
  | .block | .negation | .declaration => 1
  | .package | .subDefinition | .bareArguments _ | .dereference => 2
  | .moduleUse | .parenthesizedCondition | .forLoop | .modifier => 4
  | .subscript | .parenthesizedArguments => 4
  | .conditional | .whileLoop | .returnStatement | .expressionStatement | .wordOrCall => 5
  | .statement | .term => 6
  | .postfixChain => 7
  | .increment => 8
  | .power => 9
  | .unary => 10
  | .ternary => 21
  | .assignment => 22
  | .binary tier => tier.rank

/-- Between two nesting levels there is an allowance for the goals of every rank. -/
theorem Goal.rank_lt (goal : Goal) : goal.rank < callsPerLevel := by
  revert goal
  decide

/-- The goals that a rule calls at its own nesting level. -/
def Rule.calls : Rule → List Goal
  | .andThen first next => first.calls ++ next.calls
  | .branch _ yes no => yes.calls ++ no.calls
  | .loop _ body | .insist body | .node _ body | .group body | .wrap _ body => body.calls
  | .call goal => [goal]
  | _ => []

/-- Calls go down the table. -/
theorem rank_lt_of_mem_calls {goal called : Goal} (h : called ∈ (grammar goal).calls) :
    called.rank < goal.rank := by
  -- The calls of each rule are a finite list, so the ranks can be compared one by one.
  have lower : ∀ goal, (grammar goal).calls.all fun g => decide (g.rank < goal.rank) := by
    decide +kernel
  simpa using List.all_eq_true.mp (lower goal) called h

/-- How many calls have to be looked through to see that every loop gets on. -/
def callsSeen : Nat := 1

/-- Every loop of the grammar gets on. -/
theorem progressive_grammar (goal : Goal) :
    (grammar goal).progressive (surelyReads grammar callsSeen) = true := by
  revert goal
  decide +kernel

/-! ## Loops -/

namespace State

/-- The state is not cut off, stands on the given nesting level, and loops have turns for all
tokens that are left. -/
structure Fed (limits : Limits) (level : Nat) (s : State) : Prop where
  starved : s.starved = false
  depth : s.depth = level
  turns : s.rest.length ≤ limits.maxTurns

variable {limits : Limits} {level : Nat} {s s' : State}

/-- Whatever a state that is not cut off does, it stays fed, since it never has more to read. -/
theorem Fed.advances (fed : s.Fed limits level) (h : s.Advances s') (ok : s'.starved = false) :
    s'.Fed limits level where
  starved := ok
  depth := h.depth.trans fed.depth
  turns := Nat.le_trans h.length_rest_le fed.turns

/-- A loop that reads a token at every turn is not cut off. -/
theorem repeatWhile_fed {test : State → Bool} {body : State → State}
    (hadvances : ∀ s : State, s.Advances (body s))
    (hread : ∀ s : State, test s = true → s.Moved (body s))
    (hend : ∀ s : State, s.rest = [] → test s = false)
    (hfed : ∀ s : State, s.Fed limits level → (body s).starved = false)
    (turns : Nat) (s : State) (fed : s.Fed limits level) (enough : s.rest.length ≤ turns) :
    (repeatWhile test body turns s).starved = false := by
  induction turns generalizing s with
  | zero =>
    -- No turn is left, and no token either, so the test fails.
    have nothing : s.rest = [] := List.eq_nil_of_length_eq_zero (Nat.le_zero.mp enough)
    simp only [repeatWhile, hend s nothing]
    exact fed.starved
  | succ turns ih =>
    unfold repeatWhile
    split
    · next holds =>
      have ok : (body s).starved = false := hfed s fed
      -- Being cut off is no excuse here, since the body is not.
      have shorter : (body s).rest.length < s.rest.length := by
        rcases hread s holds with cut | shorter
        · rw [ok] at cut
          simp at cut
        · exact shorter
      exact ih (body s) (fed.advances (hadvances s) ok) (by omega)
    · exact fed.starved

/-- A loop that is not cut off ends because its test fails. -/
theorem repeatWhile_stops {test : State → Bool} {body : State → State} (turns : Nat) (s : State)
    (ok : (repeatWhile test body turns s).starved = false) :
    test (repeatWhile test body turns s) = false := by
  induction turns generalizing s with
  | zero =>
    simp only [repeatWhile] at ok ⊢
    split at ok
    · exact absurd ok (fun h => Bool.noConfusion h)
    · next fails => rw [if_neg fails]; exact Bool.eq_false_iff.mpr fails
  | succ turns ih =>
    simp only [repeatWhile] at ok ⊢
    split at ok
    · next holds => rw [if_pos holds]; exact ih (body s) ok
    · next fails => rw [if_neg fails]; exact Bool.eq_false_iff.mpr fails

end State

/-! ## Rules and goals -/

variable {limits : Limits} {level : Nat}

/-- A test guards a loop if it fails at the end, and elsewhere fails or lets the body read. -/
theorem Test.guards_iff {calls : Goal → Kind → Bool} {test : Test} {body : Rule} :
    test.guards calls body = true ↔
      test.decided ⟨none, none⟩ = some false ∧
        ∀ k, test.decided ⟨some k, none⟩ = some false ∨ body.surelyReads calls k = true := by
  simp only [Test.guards, Bool.and_eq_true, beq_iff_eq, List.all_eq_true, Bool.or_eq_true]
  exact ⟨fun h => ⟨h.1, fun k => h.2 k k.mem_all⟩, fun h => ⟨h.1, fun k _ => h.2 k⟩⟩

/-- No rule whose loops get on is cut off where the goals that it reaches are not. -/
theorem Rule.follow_fed {reach : Goal → State → State} {seen : Goal → Kind → Bool}
    (hadvances : ∀ goal (s : State), s.Advances (reach goal s))
    (hseen : ∀ goal k, seen goal k = true → ∀ s : State, s.ahead = some k →
      s.Moved (reach goal s))
    (hnested : level < limits.maxDepth → ∀ goal s, s.Fed limits (level + 1) →
      (reach goal s).starved = false)
    (rule : Rule) (loops : rule.progressive seen = true)
    (hcalls : ∀ goal ∈ rule.calls, ∀ s : State, s.Fed limits level →
      (reach goal s).starved = false)
    (s : State) (fed : s.Fed limits level) : (rule.follow limits reach s).starved = false := by
  have ready {s : State} (fed : s.Fed limits level) : s.skipTrivia.Fed limits level := by
    apply fed.advances s.skipTrivia_advances
    rw [State.skipTrivia, State.starved_consume]
    exact fed.starved
  -- Induction on the rule. Only loops and calls could be cut off, and giving up never is.
  induction rule generalizing s with
  | done | complain | yield => exact fed.starved
  | take => exact (s.starved_consume _).trans fed.starved
  | reject problem code => exact (s.starved_reject problem code).trans fed.starved
  | rejectNext code => exact (s.starved_rejectNext code).trans fed.starved
  | andThen first next ihFirst ihNext =>
    obtain ⟨loopsFirst, loopsNext⟩ := Bool.and_eq_true_iff.mp loops
    have ok := ihFirst loopsFirst (fun g hg => hcalls g (List.mem_append_left _ hg)) s fed
    exact ihNext loopsNext (fun g hg => hcalls g (List.mem_append_right _ hg)) _
      (fed.advances (first.follow_advances hadvances s) ok)
  | branch test yes no ihYes ihNo =>
    obtain ⟨loopsYes, loopsNo⟩ := Bool.and_eq_true_iff.mp loops
    unfold Rule.follow
    split
    · exact ihYes loopsYes (fun g hg => hcalls g (List.mem_append_left _ hg)) s fed
    · exact ihNo loopsNo (fun g hg => hcalls g (List.mem_append_right _ hg)) s fed
  | loop test body ih =>
    obtain ⟨guarded, loopsBody⟩ := Bool.and_eq_true_iff.mp loops
    obtain ⟨atEnd, atKind⟩ := Test.guards_iff.mp guarded
    -- A turn is made only at a token at which the body reads, or not at all.
    refine State.repeatWhile_fed (body.follow_advances hadvances) ?_ ?_
      (ih loopsBody hcalls) limits.maxTurns s fed fed.turns
    · intro s holds
      cases hahead : s.ahead with
      | none =>
        -- At the end the test fails, so there is no turn.
        have glance := s.shows_ahead
        rw [hahead] at glance
        rw [State.satisfies_of_decided glance atEnd] at holds
        simp at holds
      | some k =>
        have glance := s.shows_ahead
        rw [hahead] at glance
        rcases atKind k with fails | reads
        · rw [State.satisfies_of_decided glance fails] at holds
          simp at holds
        · exact body.moved_of_surelyReads hadvances (fun g hg => hseen g k hg) reads s hahead
    · intro s nothing
      have glance := s.shows_ahead
      have ended : s.ahead = none := by
        simp [State.ahead, State.next?, nothing, State.significant]
      rw [ended] at glance
      exact State.satisfies_of_decided glance atEnd
  | insist body ih => exact (State.starved_insisted _ _).trans (ih loops hcalls s fed)
  | node kind body ih =>
    -- A scope of its own has as much to read.
    have inside : s.skipTrivia.opened.Fed limits level :=
      ⟨(ready fed).starved, (ready fed).depth, (ready fed).turns⟩
    exact ih loops hcalls s.skipTrivia.opened inside
  | group body ih =>
    have inside : s.skipTrivia.opened.Fed limits level :=
      ⟨(ready fed).starved, (ready fed).depth, (ready fed).turns⟩
    exact ih loops hcalls s.skipTrivia.opened inside
  | wrap kind body ih => exact ih loops hcalls s fed
  | call goal => exact hcalls goal (List.mem_singleton_self goal) s fed
  | nested goal =>
    simp only [Rule.follow, State.deeper]
    split
    · next room =>
      -- One level deeper the same turns suffice.
      rw [fed.depth] at room
      exact hnested room goal s.entered ⟨fed.starved, congrArg (· + 1) fed.depth, fed.turns⟩
    · exact (s.starved_giveUp limits.maxDepth goal).trans fed.starved

/-- A goal is not cut off if its allowance covers the levels below and its rank. -/
theorem reach_fed (allowance : Nat) (goal : Goal) (s : State) (fed : s.Fed limits level)
    (shallow : level ≤ limits.maxDepth)
    (enough : (limits.maxDepth - level) * callsPerLevel + goal.rank < allowance) :
    (reach grammar limits allowance goal s).starved = false := by
  -- Induction on the allowance. A call lowers the rank; a nested goal may have any rank, but it
  -- uses up a level.
  induction allowance generalizing level goal s with
  | zero => exact absurd enough (Nat.not_lt_zero _)
  | succ allowance ih =>
    refine (grammar goal).follow_fed (reach_advances grammar allowance) ?_ ?_
      (progressive_grammar goal) ?_ s fed
    · intro g k hg s hs
      exact moved_of_surelyReads callsSeen hg allowance s hs
    · intro room g s inside
      have := g.rank_lt
      -- The level that is entered pays for the calls between this level and the next.
      have levels : (limits.maxDepth - level) * callsPerLevel =
          (limits.maxDepth - (level + 1)) * callsPerLevel + callsPerLevel := by
        rw [← Nat.succ_mul]
        congr 1
        omega
      exact ih g s inside room (by omega)
    · intro g hg s same
      have := rank_lt_of_mem_calls hg
      exact ih g s same shallow (by omega)

/-! ## Larger bounds -/

/-- A loop that is not cut off goes alike with more turns and with a body that goes on alike. -/
theorem State.repeatWhile_more {test : State → Bool} {body body' : State → State}
    (hadvances : ∀ s : State, s.Advances (body s))
    (hbody : ∀ s, (body s).starved = false → body' s = body s) {turns turns' : Nat}
    (more : turns ≤ turns') (s : State) (ok : (repeatWhile test body turns s).starved = false) :
    repeatWhile test body' turns' s = repeatWhile test body turns s := by
  -- Both loops make the same turns, and the longer one has turns to spare.
  induction turns generalizing turns' s with
  | zero =>
    simp only [repeatWhile] at ok ⊢
    -- No turn was made, so the test fails and the longer loop makes none, either.
    split at ok
    · exact absurd ok (fun h => Bool.noConfusion h)
    · next fails => cases turns' <;> simp only [repeatWhile, if_neg fails]
  | succ turns ih =>
    obtain ⟨turns', rfl⟩ : ∃ n, turns' = n + 1 := Nat.exists_eq_add_one.mpr (by omega)
    simp only [repeatWhile] at ok ⊢
    split at ok
    · next holds =>
      -- The rest of the loop is not cut off, so the body was not.
      have later : (body s).Advances (repeatWhile test body turns (body s)) :=
        (Advances.kept ⟨0, 0⟩).repeatWhile hadvances turns (body s)
      have same : body' s = body s := hbody s (later.not_starved ok)
      rw [if_pos holds, if_pos holds, same]
      exact ih (Nat.le_of_succ_le_succ more) (body s) ok
    · next fails => rw [if_neg fails, if_neg fails]

/-- More turns, and goals that are reached alike where they are not cut off, change nothing for a
rule that is not cut off. -/
theorem Rule.follow_more {reach reach' : Goal → State → State} {turns turns' maxDepth : Nat}
    (hadvances : ∀ goal (s : State), s.Advances (reach goal s))
    (hreach : ∀ goal s, (reach goal s).starved = false → reach' goal s = reach goal s)
    (more : turns ≤ turns') (rule : Rule) (s : State)
    (ok : (rule.follow ⟨maxDepth, turns⟩ reach s).starved = false) :
    rule.follow ⟨maxDepth, turns'⟩ reach' s = rule.follow ⟨maxDepth, turns⟩ reach s := by
  -- Induction on the rule. A part of a rule that is not cut off is not cut off either, since being
  -- cut off is never undone.
  induction rule generalizing s with
  | done | take | complain | reject | rejectNext | yield => rfl
  | andThen first next ihFirst ihNext =>
    simp only [Rule.follow] at ok ⊢
    have later : (first.follow ⟨maxDepth, turns⟩ reach s).Advances
        (next.follow ⟨maxDepth, turns⟩ reach (first.follow ⟨maxDepth, turns⟩ reach s)) :=
      next.follow_advances hadvances _
    rw [ihFirst s (later.not_starved ok)]
    exact ihNext _ ok
  | branch test yes no ihYes ihNo =>
    simp only [Rule.follow] at ok ⊢
    split at ok
    · next holds => rw [if_pos holds, if_pos holds]; exact ihYes s ok
    · next fails => rw [if_neg fails, if_neg fails]; exact ihNo s ok
  | loop test body ih =>
    exact State.repeatWhile_more (body.follow_advances hadvances) ih more s ok
  | insist body ih =>
    simp only [Rule.follow] at ok ⊢
    rw [ih s ((State.starved_insisted _ _).symm.trans ok)]
  | node kind body ih =>
    simp only [Rule.follow] at ok ⊢
    rw [ih _ ok]
  -- A group, like a node or a wrap, is cut off just if its body is.
  | group body ih =>
    simp only [Rule.follow] at ok ⊢
    rw [ih _ ok]
  | wrap kind body ih =>
    simp only [Rule.follow] at ok ⊢
    rw [ih _ ok]
  | call goal => exact hreach goal s ok
  | nested goal =>
    -- The same room is left on both sides, since only the turns differ.
    simp only [Rule.follow, State.deeper] at ok ⊢
    split at ok
    · next room => rw [if_pos room, if_pos room, hreach goal s.entered ok]
    · next full => rw [if_neg full, if_neg full]

/-- A goal that is not cut off is reached alike with more calls and more turns. -/
theorem reach_more {maxDepth turns turns' allowance allowance' : Nat} (moreTurns : turns ≤ turns')
    (moreCalls : allowance ≤ allowance') (goal : Goal) (s : State)
    (ok : (reach grammar ⟨maxDepth, turns⟩ allowance goal s).starved = false) :
    reach grammar ⟨maxDepth, turns'⟩ allowance' goal s =
      reach grammar ⟨maxDepth, turns⟩ allowance goal s := by
  induction allowance generalizing allowance' goal s with
  | zero => exact absurd ok (fun h => Bool.noConfusion h)
  | succ allowance ih =>
    obtain ⟨allowance', rfl⟩ : ∃ n, allowance' = n + 1 := Nat.exists_eq_add_one.mpr (by omega)
    exact (grammar goal).follow_more (reach_advances grammar allowance)
      (ih (Nat.le_of_succ_le_succ moreCalls)) moreTurns s ok

/-! ## Texts -/

/-- What is reached from the goal of a whole text. -/
theorem statements_fed (maxDepth : Nat) (tokens : List Token) :
    (reach grammar (Limits.forTokens maxDepth tokens) (callAllowance maxDepth)
      (.statements false) (State.start tokens)).starved = false := by
  have fed : (State.start tokens).Fed (Limits.forTokens maxDepth tokens) 0 :=
    ⟨rfl, rfl, Nat.le_refl _⟩
  apply reach_fed (callAllowance maxDepth) (.statements false) _ fed (Nat.zero_le _)
  -- On level 0 there is the whole allowance, and the goal of a text is of rank 0.
  simp only [callAllowance, Limits.forTokens, Goal.rank, callsPerLevel]
  omega

/-- A parse is never cut off. -/
theorem finalState_not_starved (maxDepth : Nat) (tokens : List Token) :
    (finalState maxDepth tokens).starved = false :=
  (State.starved_consume _ _).trans (statements_fed maxDepth tokens)

/-- A parse with more calls and more turns ends alike. -/
theorem finalState_more {maxDepth turns allowance : Nat} {tokens : List Token}
    (moreTurns : tokens.length ≤ turns) (moreCalls : callAllowance maxDepth ≤ allowance) :
    (reach grammar ⟨maxDepth, turns⟩ allowance (.statements false)
      (State.start tokens)).skipTrivia = finalState maxDepth tokens :=
  congrArg State.skipTrivia
    (reach_more moreTurns moreCalls _ _ (statements_fed maxDepth tokens))

/-- A loop that goes on until the end stops where nothing is left that counts. -/
theorem State.next?_eq_none {s : State} (h : s.satisfies (.fails .atEnd) = false) :
    s.next? = none := by
  simpa [State.satisfies] using h

/-- A parse reads all tokens. -/
theorem finalState_rest (maxDepth : Nat) (tokens : List Token) :
    (finalState maxDepth tokens).rest = [] := by
  have ok := statements_fed maxDepth tokens
  obtain ⟨allowance, hallowance⟩ : ∃ n, callAllowance maxDepth = n + 1 :=
    Nat.exists_eq_add_one.mpr (Nat.mul_pos (Nat.succ_pos _) (by decide))
  simp only [finalState]
  rw [hallowance] at ok ⊢
  rw [State.rest_skipTrivia]
  refine State.significant_eq_nil_of_next? ?_
  -- the loop over the statements of a text goes on until no token is ahead
  exact State.next?_eq_none (State.repeatWhile_stops _ _ ok)

end PerlOutline.Grammar
