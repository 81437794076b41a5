import PerlOutline.Grammar.State

/-!
# Following rules

`Rule.follow` gives each instruction its meaning, with the meaning of goals as a parameter.
`reach` ties the knot: it follows the rule of a goal, and each call spends one unit of an
allowance that is given back on return. A loop spends nothing, but its turns are limited by the
number of tokens, since each turn reads one.
-/

namespace PerlOutline.Grammar

open PerlOutline.Syntax (Kind)

/-- The limits of a parse. -/
structure Limits where
  /-- How many nesting levels are followed. -/
  maxDepth : Nat
  /-- How many turns a loop can take. -/
  maxTurns : Nat
  deriving DecidableEq, Repr

/-- The kinds that end an expression without belonging to it. -/
def expressionEnds : List Kind :=
  [.rParen, .rBracket, .rBrace, .semicolon, .colon, .orKw, .andKw, .xorKw,
   .ifKw, .unlessKw, .whileKw, .untilKw, .forKw, .foreachKw]

/-- Nothing of an expression can stand here. -/
def Test.endsExpression : Test :=
  .either .atEnd (.next expressionEnds)

namespace State

/-- Repeat `body` while `test` holds, for at most the given number of turns. -/
def repeatWhile (test : State → Bool) (body : State → State) : Nat → State → State
  -- A loop that would go on without a turn left is cut off, which never happens to a parse.
  | 0, s => if test s then { s with starved := true } else s
  | turns + 1, s => if test s then repeatWhile test body turns (body s) else s

/-- Go one nesting level deeper. -/
def entered (s : State) : State :=
  { s with depth := s.depth + 1, deepest := max s.deepest (s.depth + 1) }

/-- Give up a goal at the nesting limit, together with the rest of the group. Where an expression
ends there is nothing left to give up, and nothing is reported. -/
def giveUp (s : State) (limit : Nat) (goal : Goal) : State :=
  if s.satisfies .endsExpression then
    -- The caller is told that something was parsed, so it reports nothing either.
    { s with
      last := some .error
      hushed := ⟨goal, s.next?.map (·.kind)⟩ :: s.hushed }
  else { s.abandonGroup limit with last := some .error }

/-- Reach a goal one nesting level deeper, or give it up at the limit. -/
def deeper (limits : Limits) (reach : Goal → State → State) (goal : Goal) (s : State) : State :=
  -- The way back restores the level, whatever the goal did.
  if s.depth < limits.maxDepth then { reach goal s.entered with depth := s.depth }
  else s.giveUp limits.maxDepth goal

/-- Reject the next token if nothing was read since `start`. No expression is left behind. -/
def insisted (s : State) (start : Nat) : State :=
  let moved := if s.offset = start then s.rejectNext .e0901 else s
  { moved with last := none }

end State

/-- Follow a rule, where `reach` says how goals are reached. -/
def Rule.follow (limits : Limits) (reach : Goal → State → State) : Rule → State → State
  | .done, s => s
  | .andThen first next, s => next.follow limits reach (first.follow limits reach s)
  | .take, s => s.take
  | .complain problem code, s => s.complain problem code
  | .reject problem code, s => s.reject problem code
  | .rejectNext code, s => s.rejectNext code
  | .yield parsed, s => { s with last := parsed }
  | .branch test yes no, s =>
    if s.satisfies test then yes.follow limits reach s else no.follow limits reach s
  | .loop test body, s =>
    State.repeatWhile (·.satisfies test) (body.follow limits reach) limits.maxTurns s
  | .insist body, s => (body.follow limits reach s).insisted s.offset
  | .node kind body, s =>
    -- The trivia before a node stays outside it.
    let ready := s.skipTrivia
    (body.follow limits reach ready.opened).closed kind ready.out
  | .group body, s =>
    let ready := s.skipTrivia
    (body.follow limits reach ready.opened).merged ready.out
  -- What the group holds so far becomes the first part of the node.
  | .wrap kind body, s => (body.follow limits reach s).closed kind []
  | .call goal, s => reach goal s
  | .nested goal, s => s.deeper limits reach goal

/-- Reach a goal of a grammar with an allowance of calls. -/
def reach (grammar : Goal → Rule) (limits : Limits) : Nat → Goal → State → State
  -- A call that is out of reach is cut off, which never happens to a parse.
  | 0, _, s => { s with starved := true }
  | allowance + 1, goal, s =>
    (grammar goal).follow limits (reach grammar limits allowance) s

end PerlOutline.Grammar
