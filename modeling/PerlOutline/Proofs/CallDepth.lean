import PerlOutline.Proofs.Termination
import PerlOutline.Syntax.Parse

/-!
# Calls do not pile up

However long and however deeply nested a text is, only so many calls are open at any time of its
parse. Calls on one nesting level go down the table of goals, and there is a last nesting level.

## Layers
- **`Tariff`**: what calls cost.
- **`metered`**: a parse in which open calls use up a budget, and which fails when nothing is left.
- **Bounds**: how large a budget is enough.
- **Texts**: one budget is enough for all of them.
-/

namespace PerlOutline.Grammar

open PerlOutline.Syntax (Kind Token Parse tokenize)

/-! ## Tariffs -/

/-- What calls cost. A goal may stand for several procedures that call each other in turn, so each
has a price of its own. -/
structure Tariff where
  /-- How many units it takes beyond the first to follow the rule of a goal. -/
  call : Goal → Nat
  /-- How many units it takes beyond the first to go one nesting level deeper for a goal, or to give
  it up at the limit. -/
  nested : Goal → Nat

/-- No goal costs more than `most`, the way one level deeper included. -/
def Tariff.AtMost (tariff : Tariff) (most : Nat) : Prop :=
  ∀ goal, tariff.call goal + 1 + (tariff.nested goal + 1) ≤ most

/-- There are only so many goals, so one price is the highest. -/
theorem Tariff.exists_atMost (tariff : Tariff) : ∃ most, tariff.AtMost most := by
  suffices listed : ∀ goals : List Goal, ∃ most, ∀ goal ∈ goals,
      tariff.call goal + 1 + (tariff.nested goal + 1) ≤ most by
    obtain ⟨most, dearest⟩ := listed Goal.all
    exact ⟨most, fun goal => dearest goal goal.mem_all⟩
  -- The highest price of a list of goals, by induction on the list.
  intro goals
  induction goals with
  | nil => exact ⟨0, fun _ h => nomatch h⟩
  | cons first goals ih =>
    obtain ⟨most, dearest⟩ := ih
    refine ⟨max most (tariff.call first + 1 + (tariff.nested first + 1)), ?_⟩
    intro goal member
    rcases List.mem_cons.mp member with rfl | later
    · exact Nat.le_max_right _ _
    · exact Nat.le_trans (dearest goal later) (Nat.le_max_left _ _)

/-! ## Parsing on a budget -/

/-- Repeat `body` while `test` holds. Turns cost nothing. -/
def State.meteredWhile (test : State → Bool) (body : State → Option State) :
    Nat → State → Option State
  | 0, s => if test s then none else some s
  | turns + 1, s => if test s then (body s).bind (meteredWhile test body turns) else some s

/-- Follow a rule, where goals may be out of reach. -/
def Rule.metered (limits : Limits) (call nest : Goal → State → Option State) :
    Rule → State → Option State
  | .done, s => some s
  | .andThen first next, s =>
    (first.metered limits call nest s).bind (next.metered limits call nest)
  | .take, s => some s.take
  | .complain problem code, s => some (s.complain problem code)
  | .reject problem code, s => some (s.reject problem code)
  | .rejectNext code, s => some (s.rejectNext code)
  | .yield parsed, s => some { s with last := parsed }
  | .branch test yes no, s =>
    if s.satisfies test then yes.metered limits call nest s else no.metered limits call nest s
  | .loop test body, s =>
    State.meteredWhile (·.satisfies test) (body.metered limits call nest) limits.maxTurns s
  | .insist body, s => (body.metered limits call nest s).map (·.insisted s.offset)
  | .node kind body, s =>
    (body.metered limits call nest s.skipTrivia.opened).map (·.closed kind s.skipTrivia.out)
  | .group body, s =>
    (body.metered limits call nest s.skipTrivia.opened).map (·.merged s.skipTrivia.out)
  | .wrap kind body, s => (body.metered limits call nest s).map (·.closed kind [])
  | .call goal, s => call goal s
  | .nested goal, s => nest goal s

/-- Reach a goal on a budget. What a call takes is missing while the call is open, and is back when
it returns. There is no other limit, and no result where the budget does not cover a call. -/
def metered (limits : Limits) (tariff : Tariff) (budget : Nat) (goal : Goal) (s : State) :
    Option State :=
  if tariff.call goal < budget then
    let left := budget - (tariff.call goal + 1)
    (grammar goal).metered limits
      (fun called s => metered limits tariff left called s)
      (fun called s =>
        if tariff.nested called < left then
          if s.depth < limits.maxDepth then
            (metered limits tariff (left - (tariff.nested called + 1)) called s.entered).map
              ({ · with depth := s.depth })
          else some (s.giveUp limits.maxDepth called)
        else none)
      s
  else none
termination_by budget
decreasing_by all_goals omega

end PerlOutline.Grammar

namespace PerlOutline.Syntax.Parse

open PerlOutline.Grammar

/-- Parse a text on a budget for open calls. -/
def metered (tariff : Tariff) (budget : Nat) (text : List Char) : Option Parse :=
  let tokens := tokenize text
  (Grammar.metered (Limits.forTokens defaultMaxDepth tokens) tariff budget (.statements false)
    (State.start tokens)).map fun parsed =>
      let final := parsed.skipTrivia
      { items := final.out.reverse
        errors := final.errors.reverse
        depth := final.deepest }

end PerlOutline.Syntax.Parse

namespace PerlOutline.Grammar

open PerlOutline.Syntax (Kind Token Parse tokenize)

/-! ## Bounds -/

variable {limits : Limits} {level : Nat}

theorem State.meteredWhile_eq {test : State → Bool} {body : State → Option State}
    {plain : State → State} (hadvances : ∀ s : State, s.Advances (plain s))
    (hbody : ∀ s : State, s.depth = level → (plain s).starved = false → body s = some (plain s))
    (turns : Nat) (s : State) (depth : s.depth = level)
    (ok : (repeatWhile test plain turns s).starved = false) :
    meteredWhile test body turns s = some (repeatWhile test plain turns s) := by
  induction turns generalizing s with
  | zero =>
    simp only [repeatWhile, meteredWhile] at ok ⊢
    split at ok
    · exact absurd ok (fun h => Bool.noConfusion h)
    · next fails => rw [if_neg fails, if_neg fails]
  | succ turns ih =>
    simp only [repeatWhile, meteredWhile] at ok ⊢
    split at ok
    · next holds =>
      -- What is not cut off in the end was not cut off after the first turn.
      have later : (plain s).Advances (repeatWhile test plain turns (plain s)) :=
        (Advances.kept ⟨0, 0⟩).repeatWhile hadvances turns (plain s)
      rw [if_pos holds, if_pos holds, hbody s depth (later.not_starved ok)]
      exact ih (plain s) ((hadvances s).depth.trans depth) ok
    · next fails => rw [if_neg fails, if_neg fails]

/-- A rule that is not cut off is followed as always where its goals are in reach. -/
theorem Rule.metered_eq {reach : Goal → State → State} {call nest : Goal → State → Option State}
    (hadvances : ∀ goal (s : State), s.Advances (reach goal s))
    (hnest : ∀ goal (s : State), s.depth = level →
      (s.deeper limits reach goal).starved = false →
      nest goal s = some (s.deeper limits reach goal))
    (rule : Rule)
    (hcall : ∀ goal ∈ rule.calls, ∀ s : State, s.depth = level →
      (reach goal s).starved = false → call goal s = some (reach goal s))
    (s : State) (depth : s.depth = level) (ok : (rule.follow limits reach s).starved = false) :
    rule.metered limits call nest s = some (rule.follow limits reach s) := by
  -- Induction on the rule. A part of a rule that is not cut off is not cut off either, and it
  -- starts on the nesting level of the rule.
  induction rule generalizing s with
  | done | take | complain | reject | rejectNext | yield => rfl
  | andThen first next ihFirst ihNext =>
    simp only [Rule.follow, Rule.metered] at ok ⊢
    have later : (first.follow limits reach s).Advances
        (next.follow limits reach (first.follow limits reach s)) :=
      next.follow_advances hadvances _
    rw [ihFirst (fun g hg => hcall g (List.mem_append_left _ hg)) s depth (later.not_starved ok)]
    exact ihNext (fun g hg => hcall g (List.mem_append_right _ hg)) _
      ((first.follow_advances hadvances s).depth.trans depth) ok
  | branch test yes no ihYes ihNo =>
    simp only [Rule.follow, Rule.metered] at ok ⊢
    split at ok
    · next holds =>
      rw [if_pos holds, if_pos holds]
      exact ihYes (fun g hg => hcall g (List.mem_append_left _ hg)) s depth ok
    · next fails =>
      rw [if_neg fails, if_neg fails]
      exact ihNo (fun g hg => hcall g (List.mem_append_right _ hg)) s depth ok
  | loop test body ih =>
    exact State.meteredWhile_eq (body.follow_advances hadvances) (ih hcall) limits.maxTurns s
      depth ok
  | insist body ih =>
    simp only [Rule.follow, Rule.metered] at ok ⊢
    rw [ih hcall s depth ((State.starved_insisted _ _).symm.trans ok)]
    rfl
  | node kind body ih =>
    simp only [Rule.follow, Rule.metered] at ok ⊢
    rw [ih hcall s.skipTrivia.opened (s.skipTrivia_advances.depth.trans depth) ok]
    rfl
  | group body ih =>
    simp only [Rule.follow, Rule.metered] at ok ⊢
    rw [ih hcall s.skipTrivia.opened (s.skipTrivia_advances.depth.trans depth) ok]
    rfl
  | wrap kind body ih =>
    simp only [Rule.follow, Rule.metered] at ok ⊢
    rw [ih hcall s depth ok]
    rfl
  | call goal => exact hcall goal (List.mem_singleton_self goal) s depth ok
  | nested goal => exact hnest goal s depth ok

/-- A budget that is enough for a goal of rank `rank` where `levels` nesting levels are left and no
goal costs more than `most`. -/
def enoughCalls (most levels rank : Nat) : Nat :=
  (levels * (callsPerLevel + 1) + rank + 2) * most

/-- What is left of the budget after a call is enough for calls of a lower rank. -/
theorem enoughCalls_of_rank_lt {most levels rank rank' budget price : Nat} (lower : rank' < rank)
    (enough : enoughCalls most levels rank ≤ budget) (cheap : price ≤ most) :
    enoughCalls most levels rank' ≤ budget - price := by
  have step : enoughCalls most levels rank' + most ≤ enoughCalls most levels rank := by
    rw [enoughCalls, enoughCalls, ← Nat.succ_mul]
    exact Nat.mul_le_mul_right most (by omega)
  omega

/-- What is left of it on the next nesting level is enough for any goal. -/
theorem enoughCalls_deeper {most levels rank budget price : Nat} (goal : Goal)
    (enough : enoughCalls most (levels + 1) rank ≤ budget) (cheap : price ≤ most + most) :
    enoughCalls most levels goal.rank ≤ budget - price := by
  have step : enoughCalls most levels goal.rank + (most + most) ≤
      enoughCalls most (levels + 1) rank := by
    have := goal.rank_lt
    rw [← Nat.two_mul, enoughCalls, enoughCalls, ← Nat.add_mul]
    exact Nat.mul_le_mul_right most (by rw [Nat.succ_mul]; omega)
  omega

/-- A goal that is not cut off is reached as always on a budget that is large enough. -/
theorem metered_eq_reach {tariff : Tariff} {most : Nat} (prices : tariff.AtMost most)
    {allowance budget : Nat} {goal : Goal} {s : State} (depth : s.depth = level)
    (shallow : level ≤ limits.maxDepth)
    (enough : enoughCalls most (limits.maxDepth - level) goal.rank ≤ budget)
    (ok : (reach grammar limits allowance goal s).starved = false) :
    metered limits tariff budget goal s = some (reach grammar limits allowance goal s) := by
  -- Induction on the allowance of the parse without a budget. A call lowers the rank, and a nested
  -- goal uses up a level.
  induction allowance generalizing level budget goal s with
  | zero => exact absurd ok (fun h => Bool.noConfusion h)
  | succ allowance ih =>
    have price := prices goal
    -- The budget covers the dearest goal twice, so it covers this one.
    have covered : most + most ≤ budget := by
      refine Nat.le_trans ?_ enough
      rw [← Nat.two_mul, enoughCalls]
      exact Nat.mul_le_mul_right most (Nat.le_add_left _ _)
    rw [metered, if_pos (by omega)]
    refine (grammar goal).metered_eq (reach_advances grammar allowance) ?_ ?_ s depth ok
    · intro called t same fed
      have nested := prices called
      rw [if_pos (by omega)]
      unfold State.deeper at fed ⊢
      split at fed
      · next room =>
        -- There is room for a level, and the level pays for all calls on it.
        obtain ⟨levels, levelsLeft⟩ : ∃ n, limits.maxDepth - level = n + 1 :=
          Nat.exists_eq_add_one.mpr (by omega)
        have left : enoughCalls most (limits.maxDepth - (level + 1)) called.rank ≤
            budget - (tariff.call goal + 1) - (tariff.nested called + 1) := by
          rw [levelsLeft] at enough
          have here : limits.maxDepth - (level + 1) = levels := by omega
          rw [here, Nat.sub_sub]
          exact enoughCalls_deeper called enough (by omega)
        have inside : t.entered.depth = level + 1 := congrArg (· + 1) same
        rw [if_pos room, if_pos room, ih inside (by omega) left fed]
        rfl
      · next full => rw [if_neg full, if_neg full]
    · intro called member t same fed
      -- A call on the same level is to a goal of lower rank, for which the rest is enough.
      have lower := rank_lt_of_mem_calls member
      exact ih same shallow (enoughCalls_of_rank_lt lower enough (by omega)) fed

/-! ## Levels -/

/-- A parse notes no level past the limit. -/
theorem deepest_le (limits : Limits) :
    Kept (fun _ => True) limits fun s s' => s.deepest ≤ limits.maxDepth →
      s'.deepest ≤ limits.maxDepth where
  refl s h := h
  trans ab bc h := bc (ab h)
  advance s h := by rwa [State.advance_frame]
  complain s problem code h := h
  recorded s last h := h
  starved s h := h
  hushed s stop h := h
  closed kind _ inside h := inside h
  merged inside h := inside h
  wrapped kind _ inside h := inside h
  deeper room inside h := inside (Nat.max_le.mpr ⟨h, room⟩)

theorem finalState_deepest_le (maxDepth : Nat) (tokens : List Token) :
    (finalState maxDepth tokens).deepest ≤ maxDepth := by
  have kept := deepest_le (Limits.forTokens maxDepth tokens)
  have parsed := reach_kept kept trivial (fun (goal : Goal) _ (_ : _ ∈ (grammar goal).nodeKinds) =>
    trivial) (callAllowance maxDepth) (.statements false) (State.start tokens) (Nat.zero_le _)
  exact kept.consume _ _ parsed

/-- Calls on one nesting level never come back to a goal that is still open. -/
theorem not_transGen_calls (goal : Goal) :
    ¬ Relation.TransGen (fun caller called => called ∈ (grammar caller).calls) goal goal := by
  -- Each call lowers the rank, so a path of calls does, and no path leads back.
  have lower {caller called : Goal}
      (path : Relation.TransGen (fun caller called => called ∈ (grammar caller).calls)
        caller called) : called.rank < caller.rank := by
    induction path with
    | single member => exact rank_lt_of_mem_calls member
    | tail _ member ih => exact Nat.lt_trans (rank_lt_of_mem_calls member) ih
  exact fun path => Nat.lt_irrefl _ (lower path)

end PerlOutline.Grammar

namespace PerlOutline.Syntax.Parse

open PerlOutline.Grammar

/-! ## Texts -/

/-- How deep calls go does not depend on the text. Whatever calls cost, one budget is enough for the
parse of every text, and to have more changes nothing. All that leads from a goal back to itself
goes through a deeper nesting level; no level past the limit is entered, and a goal that is reached
leaves the level on which it began. -/
theorem call_depth_bounded :
    (∀ tariff : Tariff, ∃ enough, ∀ text budget, enough ≤ budget →
      metered tariff budget text = some (ofText text)) ∧
    (∀ goal, ¬ Relation.TransGen (fun caller called => called ∈ (grammar caller).calls)
      goal goal) ∧
    (∀ text, (ofText text).depth ≤ defaultMaxDepth) ∧
    (∀ limits allowance goal s, (reach grammar limits allowance goal s).depth = s.depth) := by
  refine ⟨?_, not_transGen_calls, ?_, ?_⟩
  · intro tariff
    obtain ⟨most, prices⟩ := tariff.exists_atMost
    refine ⟨enoughCalls most defaultMaxDepth (Goal.rank (.statements false)), ?_⟩
    intro text budget enough
    -- The parse of a text is not cut off, and so it is what a large budget gives.
    have fed := statements_fed defaultMaxDepth (tokenize text)
    rw [metered, metered_eq_reach prices rfl (Nat.zero_le _) enough fed]
    rfl
  · intro text
    exact finalState_deepest_le defaultMaxDepth (tokenize text)
  · intro limits allowance goal s
    exact (reach_advances grammar allowance goal s).depth

end PerlOutline.Syntax.Parse
