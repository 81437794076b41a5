import PerlOutline.Syntax.Token
import PerlOutline.Syntax.Lexeme.Section
import PerlOutline.Syntax.Lexeme.Quoted
import PerlOutline.Syntax.Lexeme.Number
import PerlOutline.Syntax.Lexeme.Variable
import PerlOutline.Syntax.Lexeme.Punctuation

/-!
# Tokens of a text

A text is cut into tokens from left to right. At each place the first reading that fits is taken;
where none fits, one character is an error token. So every text has tokens, and together they
spell the text.

## Layers
- **`scan`**: the lexeme with which a text begins.
- **`tokenize`**: all tokens of a text.
-/

namespace PerlOutline.Syntax

namespace Lexeme

/-! ## The lexeme with which a text begins -/

/-- Blanks run on as long as there are blanks. -/
def blanks? (c : Char) (cs : List Char) : Option Lexeme :=
  if isBlank c then some ⟨.whitespace, run isBlank cs⟩ else none

/-- A comment runs to the end of its line. -/
def comment? (c : Char) (cs : List Char) : Option Lexeme :=
  if c = '#' then some ⟨.lineComment, run (· ≠ '\n') cs⟩ else none

/-- The lexeme of the text that begins with `c` and goes on with `cs`. Sections count only at the
start of a line. -/
def scan (atLineStart : Bool) (c : Char) (cs : List Char) : Lexeme :=
  -- Word lists come before words, since `qw` would be a word otherwise.
  ((if atLineStart then section? c cs else none)
    <|> string? c cs
    <|> wordList? c cs
    <|> blanks? c cs
    <|> comment? c cs
    <|> word? c cs
    <|> number? c cs
    <|> sigiled? c cs
    <|> punctuation? c cs).getD ⟨.error, 0⟩

end Lexeme

/-! ## All tokens of a text -/

/-- The first token of the text that begins with `c` and goes on with `cs`. -/
def Token.first (atLineStart : Bool) (c : Char) (cs : List Char) : Token :=
  let lexeme := Lexeme.scan atLineStart c cs
  { kind := lexeme.kind
    text := c :: cs.take lexeme.more
    text_ne_nil := List.cons_ne_nil c (cs.take lexeme.more) }

/-- Whether a line begins right after a token. -/
def Token.endsLine (t : Token) : Bool :=
  t.text.getLast? = some '\n'

/-- The tokens of a text of at most `size` characters. -/
def tokenizeFrom (atLineStart : Bool) : Nat → List Char → List Token
  | 0, _ => []
  | _, [] => []
  | size + 1, c :: cs =>
    -- A token has a character, so the size that is left is enough for the rest.
    let token := Token.first atLineStart c cs
    token :: tokenizeFrom token.endsLine size (cs.drop (token.text.length - 1))

/-- The tokens of a text, in order. -/
def tokenize (text : List Char) : List Token :=
  tokenizeFrom true text.length text

end PerlOutline.Syntax
