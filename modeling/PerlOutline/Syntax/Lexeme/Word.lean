import PerlOutline.Syntax.Lexeme.Basic

/-!
# Names and keywords

A name is a sequence of segments with two colons between them. A name that spells a reserved word
is a keyword, unless a colon follows it.
-/

namespace PerlOutline.Syntax.Lexeme

/-! ## Names -/

/-- How many characters go on a name: the rest of a segment, and more segments. Colons without a
segment after them stay out. -/
def nameTail : List Char → Nat
  | [] => 0
  | c :: cs =>
    if isNameChar c then nameTail cs + 1
    else if c = ':' then
      match cs with
      -- A separator belongs to the name only with a segment behind it.
      | d :: e :: es => if d = ':' && isNameStart e then nameTail es + 3 else 0
      | _ => 0
    else 0

/-- How many characters the name has with which a text begins. -/
def nameLength : List Char → Nat
  | [] => 0
  | c :: cs => if isNameStart c then nameTail cs + 1 else 0

/-! ## Keywords -/

/-- The spelling of each keyword. -/
def keywordTable : List (List Char × Kind) :=
  [("my".toList, .myKw), ("our".toList, .ourKw), ("local".toList, .localKw),
   ("state".toList, .stateKw), ("sub".toList, .subKw), ("package".toList, .packageKw),
   ("use".toList, .useKw), ("no".toList, .noKw), ("if".toList, .ifKw),
   ("unless".toList, .unlessKw), ("elsif".toList, .elsifKw), ("else".toList, .elseKw),
   ("while".toList, .whileKw), ("until".toList, .untilKw), ("for".toList, .forKw),
   ("foreach".toList, .foreachKw), ("return".toList, .returnKw), ("and".toList, .andKw),
   ("or".toList, .orKw), ("not".toList, .notKw), ("xor".toList, .xorKw), ("eq".toList, .eqKw),
   ("ne".toList, .neKw), ("lt".toList, .ltKw), ("gt".toList, .gtKw), ("le".toList, .leKw),
   ("ge".toList, .geKw), ("cmp".toList, .cmpKw)]

/-- The keyword that a word spells, if it is one. -/
def keyword? (word : List Char) : Option Kind :=
  (keywordTable.find? (·.1 = word)).map (·.2)

/-- The name or keyword that begins with `c` and goes on with `cs`. -/
def word? (c : Char) (cs : List Char) : Option Lexeme :=
  if isNameStart c then
    let more := nameTail cs
    -- A word before a colon is never a keyword.
    if (cs.drop more).head? = some ':' then some ⟨.ident, more⟩
    else some ⟨(keyword? (c :: cs.take more)).getD .ident, more⟩
  else none

end PerlOutline.Syntax.Lexeme
