import PerlOutline.Syntax.Problem

/-!
# Grammar rules

The grammar is data: each construct of the language is a goal, and a rule says in a small
language of instructions how to reach it. Rules are closed under a handful of instructions, so a
fact that each instruction keeps holds of every rule.

## Layers
- **`Test`**: questions about the tokens ahead and about the expression just parsed.
- **`Tier`**: the tiers of binary operators that group to the left.
- **`Goal`**: the constructs that rules can call.
- **`Rule`**: the instructions.
-/

namespace PerlOutline.Grammar

open PerlOutline.Syntax (Kind Problem ErrorCode)

/-! ## Tests -/

/-- A question about the tokens ahead, or about the expression just parsed. Trivia is looked
through everywhere but in `adjacent`. -/
inductive Test where
  /-- The next token has one of the kinds. -/
  | next (kinds : List Kind)
  /-- The token after the next one has one of the kinds. -/
  | second (kinds : List Kind)
  /-- The next token is one of the words. -/
  | word (words : List (List Char))
  /-- No token is left. -/
  | atEnd
  /-- The next token follows without trivia before it. -/
  | adjacent
  /-- An expression was just parsed. -/
  | parsed
  /-- An expression of one of the kinds was just parsed. -/
  | parsedAs (kinds : List Kind)
  | both (a b : Test)
  | either (a b : Test)
  | fails (t : Test)
  deriving DecidableEq, Repr

/-! ## Goals -/

/-- A tier of binary operators that group to the left, from the loosest to the tightest. -/
inductive Tier where
  | lowOr
  | lowAnd
  | range
  | logicalOr
  | logicalAnd
  | bitwiseOr
  | bitwiseAnd
  | equality
  | relational
  | additive
  | multiplicative
  | binding
  deriving DecidableEq, Repr

/-- A construct of the language. -/
inductive Goal where
  /-- Statements up to the end of the text, or inside a block up to its closing brace. -/
  | statements (inBlock : Bool)
  | statement
  | block
  | package
  | moduleUse
  | subDefinition
  | prototype
  | conditional
  | parenthesizedCondition
  | whileLoop
  | forLoop
  | returnStatement
  | expressionStatement
  | modifier
  | binary (tier : Tier)
  | negation
  | list
  | assignment
  | ternary
  | unary
  | power
  | increment
  | postfixChain
  | subscript
  | parenthesizedArguments
  /-- Arguments without parentheses; `leadingBlock` says whether a brace opens a block. -/
  | bareArguments (leadingBlock : Bool)
  | term
  | plainVariable
  | declaration
  | dereference
  | wordOrCall
  deriving DecidableEq, Repr

/-- All tiers, the loosest first. -/
def Tier.all : List Tier :=
  [.lowOr, .lowAnd, .range, .logicalOr, .logicalAnd, .bitwiseOr, .bitwiseAnd, .equality,
   .relational, .additive, .multiplicative, .binding]

/-- All goals. -/
def Goal.all : List Goal :=
  [.statements false, .statements true, .statement, .block, .package, .moduleUse, .subDefinition,
   .prototype, .conditional, .parenthesizedCondition, .whileLoop, .forLoop, .returnStatement,
   .expressionStatement, .modifier, .negation, .list, .assignment, .ternary, .unary, .power,
   .increment, .postfixChain, .subscript, .parenthesizedArguments, .bareArguments false,
   .bareArguments true, .term, .plainVariable, .declaration, .dereference, .wordOrCall] ++
  Tier.all.map .binary

theorem Goal.mem_all (goal : Goal) : goal ∈ Goal.all := by
  cases goal with
  | statements inBlock => cases inBlock <;> decide
  | bareArguments leadingBlock => cases leadingBlock <;> decide
  | binary tier => cases tier <;> decide
  | _ => decide

/-- There are only so many goals, so what can be decided of each can be decided of all. -/
instance Goal.decidableForall (p : Goal → Prop) [DecidablePred p] : Decidable (∀ goal, p goal) :=
  -- What is decided one by one of the list holds of every goal, since the list has them all.
  decidable_of_decidable_of_iff (p := ∀ goal ∈ Goal.all, p goal)
    ⟨fun listed goal => listed goal goal.mem_all, fun each goal _ => each goal⟩

/-! ## Rules -/

/-- An instruction of the grammar. -/
inductive Rule where
  /-- Nothing to do. -/
  | done
  /-- One after the other. -/
  | andThen (first next : Rule)
  /-- Take the next token, with the trivia before it. -/
  | take
  /-- Report a problem at the next token. -/
  | complain (problem : Problem) (code : ErrorCode)
  /-- Report a problem at the next token and set the token aside as an error node. -/
  | reject (problem : Problem) (code : ErrorCode)
  /-- Reject the next token because it cannot stand here. -/
  | rejectNext (code : ErrorCode)
  /-- Record which expression was parsed, if any. -/
  | yield (parsed : Option Kind)
  /-- Go one way or the other. -/
  | branch (test : Test) (yes no : Rule)
  /-- Repeat while the test holds. -/
  | loop (test : Test) (body : Rule)
  /-- Follow the rule, and reject the next token if the rule took none. -/
  | insist (body : Rule)
  /-- What the rule builds becomes one node. -/
  | node (kind : Kind) (body : Rule)
  /-- Open a group, in which `wrap` works. -/
  | group (body : Rule)
  /-- What the group has built so far becomes one node, together with what the rule adds. -/
  | wrap (kind : Kind) (body : Rule)
  /-- Follow the rule of a goal. -/
  | call (goal : Goal)
  /-- Follow the rule of a goal one nesting level deeper. -/
  | nested (goal : Goal)
  deriving DecidableEq, Repr

namespace Rule

/-- Rules in a row. -/
def steps : List Rule → Rule
  | [] => .done
  | [r] => r
  | r :: rs => .andThen r (steps rs)

/-- Follow the rule if the test holds. -/
def given (t : Test) (r : Rule) : Rule :=
  .branch t r .done

/-- Follow the rule unless the test holds. -/
def lacking (t : Test) (r : Rule) : Rule :=
  .branch t .done r

/-- Follow the rule of the first test that holds, or the last rule if none does. -/
def select (cases : List (Test × Rule)) (otherwise : Rule) : Rule :=
  cases.foldr (fun entry r => .branch entry.1 entry.2 r) otherwise

/-- Take a token of the given kind, or report that it is missing. -/
def expect (kind : Kind) (code : ErrorCode) : Rule :=
  .branch (.next [kind]) .take (.complain (.missingToken kind) code)

/-- Report a problem unless an expression was just parsed. -/
def required (problem : Problem) (code : ErrorCode) : Rule :=
  lacking .parsed (.complain problem code)

end Rule

end PerlOutline.Grammar
