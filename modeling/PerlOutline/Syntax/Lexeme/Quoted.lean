import PerlOutline.Syntax.Lexeme.Word

/-!
# Quoted text

A string runs to the next quote of its kind; a backslash takes the character after it along. A
word list runs to the first closing delimiter, which nests nowhere. Where the text ends first,
what is left of it is an error token.
-/

namespace PerlOutline.Syntax.Lexeme

/-! ## Strings -/

/-- The rest of a string after `count` characters. A backslash that ends the text stays out. -/
def stringTail (quote : Char) (count : Nat) : List Char → Lexeme
  | [] => ⟨.error, count⟩
  | c :: cs =>
    if c = quote then ⟨.string, count + 1⟩
    -- A backslash takes the next character along, whatever it is.
    else if c = '\\' then
      match cs with
      | [] => ⟨.error, count⟩
      | _ :: ds => stringTail quote (count + 2) ds
    else stringTail quote (count + 1) cs

/-- The string that begins with `c` and goes on with `cs`. -/
def string? (c : Char) (cs : List Char) : Option Lexeme :=
  if c = '\'' || c = '"' then some (stringTail c 0 cs) else none

/-! ## Word lists -/

/-- The delimiter that closes a word list opened by `c`. -/
def closingDelimiter? (c : Char) : Option Char :=
  if c = '(' then some ')'
  else if c = '/' then some '/'
  else if c = '{' then some '}'
  else if c = '[' then some ']'
  else none

/-- A word list whose quoting word and blanks take `opened` characters after the first one, and
that goes on with `text`. Blanks without a delimiter after them belong to a name. -/
def wordListTail? (opened : Nat) (text : List Char) : Option Lexeme :=
  match text.head?.bind closingDelimiter? with
  | some close =>
    let inside := run (· ≠ close) text.tail
    -- A list that is not closed runs to the end of the text, and is invalid as a whole.
    if inside < text.tail.length then some ⟨.qwList, opened + inside + 2⟩
    else some ⟨.error, opened + text.length⟩
  -- Without a blank the word may go on, so it is left to be read as a name.
  | none => if opened = 1 then none else some ⟨.ident, opened + nameTail text⟩

/-- The word list that begins with `c` and goes on with `cs`. -/
def wordList? (c : Char) (cs : List Char) : Option Lexeme :=
  if c = 'q' && cs.head? = some 'w' then
    let blanks := run isInlineBlank cs.tail
    wordListTail? (1 + blanks) (cs.tail.drop blanks)
  else none

end PerlOutline.Syntax.Lexeme
