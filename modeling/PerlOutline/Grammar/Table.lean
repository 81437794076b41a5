import PerlOutline.Grammar.Expression

/-!
# The grammar

The table that gives each goal its rule, and the allowance of calls that a parse needs. Only
nested goals lead back up the table, so between two nesting levels at most `callsPerLevel` calls
are open.
-/

namespace PerlOutline.Grammar

open PerlOutline.Syntax (Token)

/-- The rule of each goal. -/
def grammar : Goal → Rule
  | .statements inBlock => .statements inBlock
  | .statement => .statement
  | .block => .block
  | .package => .package
  | .moduleUse => .moduleUse
  | .subDefinition => .subDefinition
  | .prototype => .prototype
  | .conditional => .conditional
  | .parenthesizedCondition => .parenthesizedCondition
  | .whileLoop => .whileLoop
  | .forLoop => .forLoop
  | .returnStatement => .returnStatement
  | .expressionStatement => .expressionStatement
  | .modifier => .modifier
  | .binary tier => .binary tier
  | .negation => .negation
  | .list => .list
  | .assignment => .assignment
  | .ternary => .ternary
  | .unary => .unary
  | .power => .power
  | .increment => .increment
  | .postfixChain => .postfixChain
  | .subscript => .subscript
  | .parenthesizedArguments => .parenthesizedArguments
  | .bareArguments leadingBlock => .bareArguments leadingBlock
  | .term => .term
  | .plainVariable => .plainVariable
  | .declaration => .declaration
  | .dereference => .dereference
  | .wordOrCall => .wordOrCall

/-- How many calls can be open between two nesting levels. -/
def callsPerLevel : Nat := 32

/-- How many nesting levels a parse follows unless told otherwise. -/
def defaultMaxDepth : Nat := 256

/-- The allowance of calls of a parse that follows `maxDepth` nesting levels. -/
def callAllowance (maxDepth : Nat) : Nat :=
  (maxDepth + 1) * callsPerLevel

/-- The limits of a parse of `tokens` that follows `maxDepth` nesting levels. -/
def Limits.forTokens (maxDepth : Nat) (tokens : List Token) : Limits where
  maxDepth := maxDepth
  -- A turn takes at least one token, so no parse needs more turns than there are tokens.
  maxTurns := tokens.length

/-- The state in which a parse of `tokens` ends. -/
def finalState (maxDepth : Nat) (tokens : List Token) : State :=
  let limits := Limits.forTokens maxDepth tokens
  let parsed := reach grammar limits (callAllowance maxDepth) (.statements false)
    (State.start tokens)
  -- Trivia at the end belongs to no statement, but to the source file.
  parsed.skipTrivia

end PerlOutline.Grammar
