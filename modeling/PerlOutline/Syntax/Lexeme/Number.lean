import PerlOutline.Syntax.Lexeme.Basic

/-!
# Numbers

A decimal number has digits, a fraction with at least one digit, and an exponent with at least one
digit; a hexadecimal number follows its mark with at least one digit. A part that is not complete
stays out of the number.
-/

namespace PerlOutline.Syntax.Lexeme

/-- How many characters the fraction has with which a text begins. -/
def fraction : List Char → Nat
  | point :: d :: ds =>
    -- A point without a digit after it is an operator, and so are two points.
    if point = '.' && d.isDigit then run isGroupedDigit ds + 2 else 0
  | _ => 0

/-- How many characters the sign has with which a text begins. -/
def sign (text : List Char) : Nat :=
  if text.head?.any (fun c => c = '+' || c = '-') then 1 else 0

/-- How many characters the exponent has with which a text begins. -/
def exponent : List Char → Nat
  | [] => 0
  | c :: cs =>
    let digits := run Char.isDigit (cs.drop (sign cs))
    -- Without digits the letter begins a word, and the sign is an operator.
    if (c = 'e' || c = 'E') && 0 < digits then sign cs + digits + 1 else 0

/-- How many characters go on a decimal number after its first digit. -/
def decimalTail (text : List Char) : Nat :=
  let whole := run isGroupedDigit text
  let fractional := whole + fraction (text.drop whole)
  fractional + exponent (text.drop fractional)

/-- How many characters go on a hexadecimal number after the digit `first`. -/
def hexTail (first : Char) : List Char → Nat
  | [] => 0
  | mark :: cs =>
    let digits := run isGroupedHexDigit cs
    -- A mark without digits is no part of the number.
    if first = '0' && (mark = 'x' || mark = 'X') && 0 < digits then digits + 1 else 0

/-- The number that begins with `c` and goes on with `cs`. -/
def number? (c : Char) (cs : List Char) : Option Lexeme :=
  -- Read as a decimal number, a hexadecimal one ends behind its zero, so the longer reading is
  -- meant.
  if c.isDigit then some ⟨.number, max (decimalTail cs) (hexTail c cs)⟩ else none

end PerlOutline.Syntax.Lexeme
