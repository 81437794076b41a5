import PerlOutline.Syntax.Kind

/-!
# Lexemes

A lexeme says how a text begins: the kind of its first token and how many characters the token
has after its first one. So no lexeme is empty.

## Layers
- **Classes** of characters. The names and numbers of the language are ASCII.
- **Runs**: how many characters of a class a text begins with.
-/

namespace PerlOutline.Syntax

/-- Kind and length of the token with which a text begins. -/
structure Lexeme where
  /-- What the token is. -/
  kind : Kind
  /-- How many characters follow the first one. -/
  more : Nat
  deriving DecidableEq, Repr

namespace Lexeme

/-! ## Classes of characters -/

/-- Blanks between tokens: space, tab, carriage return, line feed and form feed. -/
def isBlank (c : Char) : Bool :=
  c = ' ' || c = '\t' || c = '\r' || c = '\n' || c = '\x0c'

/-- Blanks that may stand between a quoting word and its delimiter. -/
def isInlineBlank (c : Char) : Bool :=
  c = ' ' || c = '\t'

/-- What a name can begin with. -/
def isNameStart (c : Char) : Bool :=
  c.isAlpha || c = '_'

/-- What a name can go on with. -/
def isNameChar (c : Char) : Bool :=
  isNameStart c || c.isDigit

/-- Digits of a decimal number; underscores group them. -/
def isGroupedDigit (c : Char) : Bool :=
  c.isDigit || c = '_'

/-- Digits of a hexadecimal number; underscores group them. -/
def isGroupedHexDigit (c : Char) : Bool :=
  isGroupedDigit c || ('a' ≤ c && c ≤ 'f') || ('A' ≤ c && c ≤ 'F')

/-! ## Runs -/

/-- How many characters of class `p` a text begins with. -/
def run (p : Char → Bool) (text : List Char) : Nat :=
  (text.takeWhile p).length

/-- How many characters the first line of a text has, its line end included. -/
def lineLength (text : List Char) : Nat :=
  let body := run (· ≠ '\n') text
  -- Only the last line can lack its line end.
  if body < text.length then body + 1 else body

end Lexeme

end PerlOutline.Syntax
