import PerlOutline.Syntax.Lexeme.Basic

/-!
# Sections of a text that are no program

At the start of a line, an end marker turns all that follows into data, and an equals sign with a
letter opens a block of documentation. The block runs through the next line that begins with the
closing command, or to the end of the text.
-/

namespace PerlOutline.Syntax.Lexeme

/-- The words that end the program. -/
def endMarkers : List (List Char) :=
  ["__END__".toList, "__DATA__".toList]

/-- The command that closes a block of documentation. -/
def closingCommand : List Char :=
  "=cut".toList

/-- How many characters of `text` belong to a block of documentation that is open, added to
`count`. `atLineStart` says whether `text` begins a line. -/
def documentationTail (atLineStart : Bool) (count : Nat) : List Char → Nat
  | [] => count
  | c :: cs =>
    -- The line of the closing command belongs to the block.
    if atLineStart && closingCommand.isPrefixOf (c :: cs) then count + lineLength (c :: cs)
    else documentationTail (c = '\n') (count + 1) cs

/-- The section that begins with `c` and goes on with `cs`, both at the start of a line. -/
def section? (c : Char) (cs : List Char) : Option Lexeme :=
  if endMarkers.any (·.isPrefixOf (c :: cs)) then some ⟨.dataSection, cs.length⟩
  else if c = '=' && cs.head?.any Char.isAlpha then
    -- The line that opens the block does not close it, since its first character was taken.
    some ⟨.pod, documentationTail false 0 cs⟩
  else none

end PerlOutline.Syntax.Lexeme
