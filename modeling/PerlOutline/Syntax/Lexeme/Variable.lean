import PerlOutline.Syntax.Lexeme.Word

/-!
# Names of variables

A sigil with a name is a variable. The dollar sign also goes with a name in the main package, with
digits, with an exclamation or at sign, and with a hash sign for the last index of an array.
-/

namespace PerlOutline.Syntax.Lexeme

/-- The variable that a dollar sign begins. -/
def scalar? : List Char → Option Lexeme
  | [] => none
  | c :: cs =>
    if isNameStart c then some ⟨.scalarName, nameTail cs + 1⟩
    -- Numbered variables and the special ones have no further segments.
    else if c.isDigit then some ⟨.scalarName, run Char.isDigit cs + 1⟩
    else if c = '!' || c = '@' then some ⟨.scalarName, 1⟩
    -- The index of the last element of an array is asked for by its name.
    else if c = '#' && cs.head?.any isNameStart then
      some ⟨.arrayLastIndex, run isNameChar cs + 1⟩
    -- A leading separator names the main package, and no separators follow it.
    else if c = ':' && cs.head? = some ':' && cs.tail.head?.any isNameStart then
      some ⟨.scalarName, run isNameChar cs.tail + 2⟩
    else none

/-- The variable that begins with `c` and goes on with `cs`. -/
def sigiled? (c : Char) (cs : List Char) : Option Lexeme :=
  if c = '$' then scalar? cs
  else if c = '@' && 0 < nameLength cs then some ⟨.arrayName, nameLength cs⟩
  else if c = '%' && 0 < nameLength cs then some ⟨.hashName, nameLength cs⟩
  else none

end PerlOutline.Syntax.Lexeme
