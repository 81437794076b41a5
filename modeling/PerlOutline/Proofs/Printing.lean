import PerlOutline.Grammar.Rule
import PerlOutline.Proofs.Spacing

/-!
# Expressions and how they are written

Expressions as a programmer thinks of them, with the operators of each level and the order of the
levels. An expression is written with parentheses just where its levels ask for them.

## Layers
- **Names and numbers**.
- **`Level`**: from the loosest to the tightest.
- **Operators** of the levels.
- **`Expr`**: expressions, the words they are written with, and how deep they nest.
-/

namespace PerlOutline.Program

open PerlOutline.Syntax (Kind Token EndsWord)
open PerlOutline.Syntax.Lexeme (isName)
open PerlOutline.Grammar (Tier)

/-! ## Names and numbers -/

/-- A name: segments of letters, digits and underscores with two colons between them. -/
structure Name where
  text : List Char
  isName : isName text = true
  deriving DecidableEq

/-- A decimal integer. -/
structure Digits where
  text : List Char
  ne_nil : text ≠ []
  digits : text.all Char.isDigit = true

/-- The word of a kind that is spelled `first` and then `more`. -/
def word (kind : Kind) (first : Char) (more : List Char) : Token :=
  ⟨kind, first :: more, List.cons_ne_nil first more⟩

/-- The token of a scalar with a name. -/
def Name.scalar (name : Name) : Token :=
  word .scalarName '$' name.text

/-- The token of a number. -/
def Digits.number (digits : Digits) : Token :=
  ⟨.number, digits.text, digits.ne_nil⟩

/-! ## Levels -/

/-- How tightly an expression holds together. -/
inductive Level where
  /-- Binary operators that group to the left. -/
  | binary (tier : Tier)
  /-- The loose negation. -/
  | negation
  | assignment
  | ternary
  /-- Operators before their operand. -/
  | unary
  | power
  | increment
  /-- Variables, numbers, and what is in parentheses. -/
  | atom
  deriving DecidableEq, Repr

namespace Level

/-- The place of a level among all, from the loosest to the tightest. -/
def rank : Level → Nat
  | .binary .lowOr => 1
  | .binary .lowAnd => 2
  | .negation => 3
  | .assignment => 4
  | .ternary => 5
  | .binary .range => 6
  | .binary .logicalOr => 7
  | .binary .logicalAnd => 8
  | .binary .bitwiseOr => 9
  | .binary .bitwiseAnd => 10
  | .binary .equality => 11
  | .binary .relational => 12
  | .binary .additive => 13
  | .binary .multiplicative => 14
  | .binary .binding => 15
  | .unary => 16
  | .power => 17
  | .increment => 18
  | .atom => 19

/-- The next tighter level. -/
def tighter : Level → Level
  | .binary .lowOr => .binary .lowAnd
  | .binary .lowAnd => .negation
  | .negation => .assignment
  | .assignment => .ternary
  | .ternary => .binary .range
  | .binary .range => .binary .logicalOr
  | .binary .logicalOr => .binary .logicalAnd
  | .binary .logicalAnd => .binary .bitwiseOr
  | .binary .bitwiseOr => .binary .bitwiseAnd
  | .binary .bitwiseAnd => .binary .equality
  | .binary .equality => .binary .relational
  | .binary .relational => .binary .additive
  | .binary .additive => .binary .multiplicative
  | .binary .multiplicative => .binary .binding
  | .binary .binding => .unary
  | .unary => .power
  | .power => .increment
  | .increment | .atom => .atom

end Level

/-! ## Operators -/

/-- An operator between two operands. -/
structure BinaryOperator where
  tier : Tier
  token : Token
  deriving DecidableEq

/-- The binary operators that group to the left, from the loosest to the tightest. -/
def binaryOperators : List BinaryOperator :=
  [⟨.lowOr, word .orKw 'o' ['r']⟩, ⟨.lowOr, word .xorKw 'x' ['o', 'r']⟩,
   ⟨.lowAnd, word .andKw 'a' ['n', 'd']⟩,
   ⟨.range, word .dotDot '.' ['.']⟩,
   ⟨.logicalOr, word .pipePipe '|' ['|']⟩, ⟨.logicalOr, word .slashSlash '/' ['/']⟩,
   ⟨.logicalAnd, word .ampAmp '&' ['&']⟩,
   ⟨.bitwiseOr, word .pipe '|' []⟩, ⟨.bitwiseOr, word .caret '^' []⟩,
   ⟨.bitwiseAnd, word .amp '&' []⟩,
   ⟨.equality, word .eqEq '=' ['=']⟩, ⟨.equality, word .bangEq '!' ['=']⟩,
   ⟨.equality, word .spaceship '<' ['=', '>']⟩, ⟨.equality, word .eqKw 'e' ['q']⟩,
   ⟨.equality, word .neKw 'n' ['e']⟩, ⟨.equality, word .cmpKw 'c' ['m', 'p']⟩,
   ⟨.relational, word .lt '<' []⟩, ⟨.relational, word .gt '>' []⟩,
   ⟨.relational, word .ltEq '<' ['=']⟩, ⟨.relational, word .gtEq '>' ['=']⟩,
   ⟨.relational, word .ltKw 'l' ['t']⟩, ⟨.relational, word .gtKw 'g' ['t']⟩,
   ⟨.relational, word .leKw 'l' ['e']⟩, ⟨.relational, word .geKw 'g' ['e']⟩,
   ⟨.additive, word .plus '+' []⟩, ⟨.additive, word .minus '-' []⟩,
   ⟨.additive, word .dot '.' []⟩,
   ⟨.multiplicative, word .star '*' []⟩, ⟨.multiplicative, word .slash '/' []⟩,
   ⟨.multiplicative, word .percent '%' []⟩,
   ⟨.binding, word .eqTilde '=' ['~']⟩, ⟨.binding, word .bangTilde '!' ['~']⟩]

/-- A plain assignment, and assignments that compute with the old value. -/
def assignmentOperators : List Token :=
  [word .eq '=' [], word .plusEq '+' ['='], word .minusEq '-' ['='], word .starEq '*' ['='],
   word .slashEq '/' ['='], word .dotEq '.' ['='], word .pipePipeEq '|' ['|', '='],
   word .slashSlashEq '/' ['/', '='], word .ampAmpEq '&' ['&', '=']]

/-- The operators before an operand. -/
def unaryOperators : List Token :=
  [word .bang '!' [], word .tilde '~' [], word .backslash '\\' [], word .minus '-' [],
   word .plus '+' []]

/-- The increment and the decrement. -/
def stepOperators : List Token :=
  [word .plusPlus '+' ['+'], word .minusMinus '-' ['-']]

/-- The operator of powers. -/
def powerOperator : Token :=
  word .starStar '*' ['*']

/-- The loose negation, which is a word. -/
def negationOperator : Token :=
  word .notKw 'n' ['o', 't']

def question : Token :=
  word .question '?' []

def colon : Token :=
  word .colon ':' []

def lParen : Token :=
  word .lParen '(' []

def rParen : Token :=
  word .rParen ')' []

def semicolon : Token :=
  word .semicolon ';' []

/-! ## Expressions -/

/-- An expression. -/
inductive Expr where
  | scalar (name : Name)
  | integer (digits : Digits)
  | stepBefore (op : {t // t ∈ stepOperators}) (operand : Expr)
  | stepAfter (op : {t // t ∈ stepOperators}) (operand : Expr)
  | power (base exponent : Expr)
  | unary (op : {t // t ∈ unaryOperators}) (operand : Expr)
  | binary (op : {o // o ∈ binaryOperators}) (left right : Expr)
  | ternary (condition yes no : Expr)
  | assign (op : {t // t ∈ assignmentOperators}) (target value : Expr)
  | negation (operand : Expr)

namespace Expr

/-- The level of the operator that holds an expression together. -/
def level : Expr → Level
  | .scalar _ | .integer _ => .atom
  | .stepBefore .. | .stepAfter .. => .increment
  | .power .. => .power
  | .unary .. => .unary
  | .binary op .. => .binary op.val.tier
  | .ternary .. => .ternary
  | .assign .. => .assignment
  | .negation _ => .negation

end Expr

/-- What stands where `least` is wanted is put in parentheses if it is looser. -/
def enclose (least actual : Level) (words : List Token) : List Token :=
  -- Parentheses would change nothing around what is tight enough.
  if least.rank ≤ actual.rank then words else lParen :: (words ++ [rParen])

/-- Parentheses nest one level deeper. -/
def enclosedNesting (least actual : Level) (nesting : Nat) : Nat :=
  if least.rank ≤ actual.rank then nesting else nesting + 1

namespace Expr

/-- The words with which an expression is written. -/
def words : Expr → List Token
  | .scalar name => [name.scalar]
  | .integer digits => [digits.number]
  | .stepBefore op e => op.val :: enclose .increment e.level e.words
  | .stepAfter op e => enclose .atom e.level e.words ++ [op.val]
  -- Powers group to the right, so the base has to be tighter than a power and the exponent need
  -- not.
  | .power b e => enclose .increment b.level b.words ++ powerOperator ::
      enclose .unary e.level e.words
  | .unary op e => op.val :: enclose .unary e.level e.words
  -- Of two operators of a tier the first one takes the other's left operand.
  | .binary op l r => enclose (.binary op.val.tier) l.level l.words ++ op.val.token ::
      enclose (Level.binary op.val.tier).tighter r.level r.words
  | .ternary c y n => enclose (.binary .range) c.level c.words ++ question ::
      (enclose .assignment y.level y.words ++ colon :: enclose .assignment n.level n.words)
  | .assign op t v => enclose (.binary .range) t.level t.words ++ op.val ::
      enclose .assignment v.level v.words
  | .negation e => negationOperator :: enclose .negation e.level e.words

/-- How deep an expression nests: on the way to an operand, each pair of parentheses, each operator
before the operand, each assignment or power on the right of which it stands, and each choice of
which it is a branch is one level. -/
def nesting : Expr → Nat
  | .scalar _ | .integer _ => 0
  | .stepBefore _ e => enclosedNesting .increment e.level e.nesting + 1
  | .stepAfter _ e => enclosedNesting .atom e.level e.nesting
  | .power b e => max (enclosedNesting .increment b.level b.nesting)
      (enclosedNesting .unary e.level e.nesting + 1)
  | .unary _ e => enclosedNesting .unary e.level e.nesting + 1
  | .binary op l r => max (enclosedNesting (.binary op.val.tier) l.level l.nesting)
      (enclosedNesting (Level.binary op.val.tier).tighter r.level r.nesting)
  | .ternary c y n => max (enclosedNesting (.binary .range) c.level c.nesting)
      (max (enclosedNesting .assignment y.level y.nesting)
        (enclosedNesting .assignment n.level n.nesting) + 1)
  | .assign _ t v => max (enclosedNesting (.binary .range) t.level t.nesting)
      (enclosedNesting .assignment v.level v.nesting + 1)
  | .negation e => enclosedNesting .negation e.level e.nesting + 1

end Expr

end PerlOutline.Program
