import PerlOutline.Syntax.Lexeme.Basic

/-!
# Punctuation

Brackets, separators and operators have fixed spellings; the longest that fits is taken.
-/

namespace PerlOutline.Syntax.Lexeme

/-- The spelling of each punctuation token, longer ones first. -/
def punctuationTable : List (List Char × Kind) :=
  [(['<', '=', '>'], .spaceship), (['|', '|', '='], .pipePipeEq),
   (['/', '/', '='], .slashSlashEq), (['&', '&', '='], .ampAmpEq),
   (['=', '>'], .fatComma), (['-', '>'], .arrow), (['.', '.'], .dotDot),
   (['+', '='], .plusEq), (['-', '='], .minusEq), (['*', '='], .starEq),
   (['/', '='], .slashEq), (['.', '='], .dotEq), (['=', '='], .eqEq),
   (['!', '='], .bangEq), (['<', '='], .ltEq), (['>', '='], .gtEq),
   (['=', '~'], .eqTilde), (['!', '~'], .bangTilde), (['*', '*'], .starStar),
   (['+', '+'], .plusPlus), (['-', '-'], .minusMinus), (['&', '&'], .ampAmp),
   (['|', '|'], .pipePipe), (['/', '/'], .slashSlash),
   (['{'], .lBrace), (['}'], .rBrace), (['['], .lBracket), ([']'], .rBracket),
   (['('], .lParen), ([')'], .rParen), ([';'], .semicolon), ([':'], .colon),
   ([','], .comma), (['.'], .dot), (['?'], .question), (['$'], .dollar),
   (['@'], .atSign), (['='], .eq), (['<'], .lt), (['>'], .gt), (['+'], .plus),
   (['-'], .minus), (['*'], .star), (['/'], .slash), (['%'], .percent),
   (['!'], .bang), (['\\'], .backslash), (['&'], .amp), (['|'], .pipe),
   (['^'], .caret), (['~'], .tilde)]

/-- The punctuation that begins with `c` and goes on with `cs`. -/
def punctuation? (c : Char) (cs : List Char) : Option Lexeme :=
  -- Longer spellings come first, so the first one that fits is the longest one that does.
  (punctuationTable.find? (·.1.isPrefixOf (c :: cs))).map fun entry =>
    ⟨entry.2, entry.1.length - 1⟩

end PerlOutline.Syntax.Lexeme
