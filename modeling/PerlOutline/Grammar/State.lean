import PerlOutline.Syntax.Tree
import PerlOutline.Grammar.Rule

/-!
# State of a parse

A parse reads tokens from left to right and builds trees in the scope that is open. All reading
goes through `consume`, so no token can be lost or read twice.

## Layers
- **Looking ahead**: the tokens that tests see.
- **Reading**: tokens move from the rest into the open scope.
- **Reporting**: errors at the next token.
- **Giving up**: the rest of a group becomes an error node.
-/

namespace PerlOutline.Grammar

open PerlOutline.Source (Range byteWidth)
open PerlOutline.Syntax (Kind Token Tree Problem ErrorCode SyntaxError)

/-- A goal that was given up at the nesting limit without a report, because no expression could go
on there. -/
structure Stop where
  /-- What was to be reached. -/
  goal : Goal
  /-- The kind of the next token, if one is left. -/
  ahead : Option Kind
  deriving DecidableEq, Repr

/-- State of a parse. -/
structure State where
  /-- The tokens that are not read yet. -/
  rest : List Token
  /-- The number of bytes read. -/
  offset : Nat
  /-- What the open scope holds, last first. -/
  out : List Tree
  /-- The errors reported, last first. -/
  errors : List SyntaxError
  /-- The nesting level. -/
  depth : Nat
  /-- The deepest nesting level so far. -/
  deepest : Nat
  /-- Kind of the expression just parsed, if there was one. -/
  last : Option Kind
  /-- Whether a call or a loop was cut off because its allowance ran out. -/
  starved : Bool
  /-- The goals given up without a report, last first. -/
  hushed : List Stop

namespace State

/-- The state in which a parse of `tokens` begins. -/
def start (tokens : List Token) : State where
  rest := tokens
  offset := 0
  out := []
  errors := []
  depth := 0
  deepest := 0
  last := none
  starved := false
  hushed := []

/-! ## Looking ahead -/

/-- Tokens from the first one that is no trivia. -/
def significant (tokens : List Token) : List Token :=
  tokens.dropWhile (·.isTrivia)

/-- The next token that is no trivia. -/
def next? (s : State) : Option Token :=
  (significant s.rest).head?

/-- The token that is no trivia after the next one. -/
def second? (s : State) : Option Token :=
  (significant (significant s.rest).tail).head?

/-- The number of trivia tokens before the next token. -/
def triviaAhead (s : State) : Nat :=
  (s.rest.takeWhile (·.isTrivia)).length

/-- Whether a test holds. -/
def satisfies (s : State) : Test → Bool
  | .next kinds => s.next?.any fun t => kinds.contains t.kind
  | .second kinds => s.second?.any fun t => kinds.contains t.kind
  | .word words => s.next?.any fun t => words.contains t.text
  | .atEnd => s.next?.isNone
  | .adjacent => s.rest.head?.any fun t => !t.isTrivia
  | .parsed => s.last.isSome
  | .parsedAs kinds => s.last.any kinds.contains
  | .both a b => s.satisfies a && s.satisfies b
  | .either a b => s.satisfies a || s.satisfies b
  | .fails t => !s.satisfies t

/-! ## Reading -/

/-- Read one token into the open scope. -/
def advance (s : State) : State :=
  match s.rest with
  | [] => s
  | t :: ts => { s with rest := ts, offset := s.offset + t.width, out := .token t :: s.out }

/-- Read `n` tokens into the open scope. -/
def consume (s : State) : Nat → State
  | 0 => s
  | n + 1 => s.advance.consume n

/-- Read the trivia before the next token. -/
def skipTrivia (s : State) : State :=
  s.consume s.triviaAhead

/-- Read the next token and the trivia before it. -/
def take (s : State) : State :=
  s.consume (s.triviaAhead + 1)

/-! ## Scopes -/

/-- Open a scope with nothing in it. -/
def opened (s : State) : State :=
  { s with out := [] }

/-- Close a scope as one node of the scope around it, which holds `outer`. -/
def closed (s : State) (kind : Kind) (outer : List Tree) : State :=
  { s with out := .node kind s.out.reverse :: outer, last := some kind }

/-- Close a scope and leave what it holds to the scope around it, which holds `outer`. -/
def merged (s : State) (outer : List Tree) : State :=
  { s with out := s.out ++ outer }

/-! ## Reporting -/

/-- The range of the next token, or the end of the text. -/
def nextRange (s : State) : Range :=
  let start := s.offset + byteWidth (Token.spell (s.rest.takeWhile (·.isTrivia)))
  match s.next? with
  | some t => Range.sized start t.width
  | none => Range.empty start

/-- Report a problem at the next token. -/
def complain (s : State) (problem : Problem) (code : ErrorCode) : State :=
  { s with errors := ⟨problem, code, s.nextRange⟩ :: s.errors }

/-- Read `n` tokens, after the trivia before them, as an error node. -/
def setAside (s : State) (n : Nat) : State :=
  -- The trivia stays outside the error node.
  let ready := s.skipTrivia
  let inside := ready.opened.consume n
  { inside with out := .node .error inside.out.reverse :: ready.out }

/-- Report a problem at the next token and set the token aside. -/
def reject (s : State) (problem : Problem) (code : ErrorCode) : State :=
  let reported := s.complain problem code
  -- At the end of the text there is nothing to set aside.
  if s.next?.isNone then reported else reported.setAside 1

/-- Reject the next token because it cannot stand here. -/
def rejectNext (s : State) (code : ErrorCode) : State :=
  match s.next? with
  | some t => s.reject (.unexpected t.kind) code
  | none => s

/-! ## Giving up -/

/-- The kinds that open a bracket. -/
def openers : List Kind :=
  [.lParen, .lBracket, .lBrace]

/-- The kinds that close a bracket. -/
def closers : List Kind :=
  [.rParen, .rBracket, .rBrace]

/-- How many tokens belong to the group in which `tokens` stand: those before its closing bracket
or before a semicolon outside brackets, without trivia at the end. `level` brackets are open,
`seen` tokens were passed, and `kept` of them belong to the group so far. -/
def groupLength (level kept seen : Nat) : List Token → Nat
  | [] => kept
  | t :: ts =>
    -- Trivia belongs to the group only if something that is no trivia follows in it.
    if t.isTrivia then groupLength level kept (seen + 1) ts
    else if openers.contains t.kind then groupLength (level + 1) (seen + 1) (seen + 1) ts
    else if closers.contains t.kind then
      match level with
      -- The bracket closes what is around the group.
      | 0 => kept
      | outer + 1 => groupLength outer (seen + 1) (seen + 1) ts
    else if t.kind = .semicolon && level = 0 then kept
    else groupLength level (seen + 1) (seen + 1) ts

/-- Report that nesting goes past `limit` levels and set the rest of the group aside. -/
def abandonGroup (s : State) (limit : Nat) : State :=
  let reported := s.complain (.tooDeep limit) .e0205
  -- The tokens are counted from the first one that is no trivia, as they are set aside.
  reported.setAside (groupLength 0 0 0 (significant s.rest))

end State

end PerlOutline.Grammar
