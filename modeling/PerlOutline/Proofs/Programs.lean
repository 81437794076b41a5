import PerlOutline.Proofs.Printing

/-!
# Programs and how they are written

Statements as a programmer thinks of them, with the words they are written with. A program is a list
of statements, written on one line with single blanks between the words.

## Layers
- **Parts**: names, variables, declarations, modifiers.
- **`Stmt`**: statements, the words they are written with, and how deep they nest.
- **Written words**: each word of a program is read back where it stands.
-/

namespace PerlOutline.Program

open PerlOutline.Syntax (Kind Token tokenize tokenize_spaced)
open PerlOutline.Syntax.Lexeme (keyword? keywordTable punctuationTable)

/-! ## Parts -/

/-- The name of a package, a module or a sub, which means nothing else. -/
structure Identifier extends Name where
  noKeyword : keyword? text = none
  noList : text ≠ ['q', 'w']
  deriving DecidableEq

/-- No name is empty. -/
theorem Name.text_ne_nil (name : Name) : name.text ≠ [] := by
  have isName := name.isName
  intro empty
  rw [empty] at isName
  exact absurd isName (by decide)

/-- The word of a name that stands alone. -/
def Identifier.word (name : Identifier) : Token :=
  ⟨.ident, name.text, name.text_ne_nil⟩

/-- The character before the name of a variable, which says what it holds. -/
inductive Sigil where
  | scalar
  | array
  | hash
  deriving DecidableEq, Repr

def Sigil.char : Sigil → Char
  | .scalar => '$'
  | .array => '@'
  | .hash => '%'

/-- The kind of the token that a variable with the sigil is. -/
def Sigil.tokenKind : Sigil → Kind
  | .scalar => .scalarName
  | .array => .arrayName
  | .hash => .hashName

/-- A variable. -/
structure SigiledName where
  sigil : Sigil
  name : Name
  deriving DecidableEq

/-- A variable is one word: the sigil with the name right behind it. -/
def SigiledName.word (v : SigiledName) : Token :=
  Program.word v.sigil.tokenKind v.sigil.char v.name.text

def comma : Token :=
  word .comma ',' []

def lBrace : Token :=
  word .lBrace '{' []

def rBrace : Token :=
  word .rBrace '}' []

/-- Words in parentheses. -/
def parenthesized (words : List Token) : List Token :=
  lParen :: (words ++ [rParen])

/-- Words in braces. -/
def braced (words : List Token) : List Token :=
  lBrace :: (words ++ [rBrace])

/-- The words that open a declaration of variables. -/
def declaringWords : List Token :=
  [word .myKw 'm' ['y'], word .ourKw 'o' ['u', 'r'], word .stateKw 's' ['t', 'a', 't', 'e']]

/-- The word that declares the variable of a loop. -/
def myWord : Token :=
  word .myKw 'm' ['y']

/-- What a declaration introduces: a variable, or any number of them in parentheses. -/
inductive Declared where
  | one (v : SigiledName)
  | several (vs : List SigiledName)
  deriving DecidableEq

/-- The words of what a declaration introduces, with commas between several variables. -/
def Declared.words : Declared → List Token
  | .one v => [v.word]
  | .several vs => parenthesized ((vs.map (·.word)).intersperse comma)

/-- A declaration of variables. -/
structure Declaration where
  declarator : {t // t ∈ declaringWords}
  declared : Declared

/-- The words of a declaration. -/
def Declaration.words (d : Declaration) : List Token :=
  d.declarator.val :: d.declared.words

/-- The words that open a modifier. -/
def modifyingWords : List Token :=
  [word .ifKw 'i' ['f'], word .unlessKw 'u' ['n', 'l', 'e', 's', 's'],
   word .whileKw 'w' ['h', 'i', 'l', 'e'], word .untilKw 'u' ['n', 't', 'i', 'l'],
   word .forKw 'f' ['o', 'r'], word .foreachKw 'f' ['o', 'r', 'e', 'a', 'c', 'h']]

/-- A modifier after a statement: a condition, or a list to loop over. -/
structure Modifier where
  keyword : {t // t ∈ modifyingWords}
  condition : Expr

/-- The words of a part that can be left out. -/
def optionalWords {α : Type} (wordsOf : α → List Token) (part : Option α) : List Token :=
  part.elim [] wordsOf

/-- The nesting of a part that can be left out. -/
def optionalNesting {α : Type} (nestingOf : α → Nat) (part : Option α) : Nat :=
  part.elim 0 nestingOf

/-- The words of a modifier. -/
def Modifier.words (m : Modifier) : List Token :=
  m.keyword.val :: m.condition.words

/-- An expression nests one level below its statement. -/
def Expr.levels (e : Expr) : Nat :=
  e.nesting + 1

def equals : Token :=
  word .eq '=' []

/-- A first value, which stands after an equals sign. -/
def valueWords (value : Expr) : List Token :=
  equals :: enclose .assignment value.level value.words

/-- The value stands on the right of an assignment. -/
def valueNesting (value : Expr) : Nat :=
  enclosedNesting .assignment value.level value.nesting + 1

/-! ## Statements -/

/-- What a loop runs over. -/
inductive Header where
  /-- A list of values for a variable that the loop declares. -/
  | each (name : Name) (list : Expr)
  /-- A start, a condition, and a step. -/
  | count (start condition step : Expr)

/-- The words of what a loop runs over. -/
def Header.words : Header → List Token
  | .each name list => myWord :: name.scalar :: parenthesized list.words
  | .count start condition step =>
    parenthesized (start.words ++ semicolon :: (condition.words ++ semicolon :: step.words))

/-- How deep what a loop runs over nests: each of its expressions is one level below the loop. -/
def Header.nesting : Header → Nat
  | .each _ list => list.levels
  | .count start condition step => max start.levels (max condition.levels step.levels)

/-- A statement. -/
inductive Stmt where
  | package (name : Identifier)
  | packageBlock (name : Identifier) (body : List Stmt)
  | moduleUse (name : Identifier)
  /-- A sub that is defined elsewhere. -/
  | forward (name : Identifier)
  | sub (name : Identifier) (body : List Stmt)
  /-- A choice between blocks, of which the last needs no condition. -/
  | conditional (negated : Bool) (condition : Expr) (body : List Stmt)
    (further : List (Expr × List Stmt)) (last : Option (List Stmt))
  | whileLoop (negated : Bool) (condition : Expr) (body : List Stmt)
  | forLoop (each : Bool) (header : Header) (body : List Stmt)
  | returning (value : Option Expr) (modifier : Option Modifier)
  | block (body : List Stmt)
  | expression (e : Expr) (modifier : Option Modifier)
  | declaration (d : Declaration) (value : Option Expr)

def packageWord : Token :=
  word .packageKw 'p' ['a', 'c', 'k', 'a', 'g', 'e']

def useWord : Token :=
  word .useKw 'u' ['s', 'e']

def subWord : Token :=
  word .subKw 's' ['u', 'b']

/-- The word of a condition and that of a negated one. -/
def conditionalWord : Bool → Token
  | false => word .ifKw 'i' ['f']
  | true => word .unlessKw 'u' ['n', 'l', 'e', 's', 's']

def elsifWord : Token :=
  word .elsifKw 'e' ['l', 's', 'i', 'f']

def elseWord : Token :=
  word .elseKw 'e' ['l', 's', 'e']

/-- The word of a loop with a condition and that of a loop with a negated one. -/
def whileWord : Bool → Token
  | false => word .whileKw 'w' ['h', 'i', 'l', 'e']
  | true => word .untilKw 'u' ['n', 't', 'i', 'l']

/-- The two words of a loop over a header, which mean the same. -/
def forWord : Bool → Token
  | false => word .forKw 'f' ['o', 'r']
  | true => word .foreachKw 'f' ['o', 'r', 'e', 'a', 'c', 'h']

def returnWord : Token :=
  word .returnKw 'r' ['e', 't', 'u', 'r', 'n']

mutual

/-- The words with which a statement is written. -/
def Stmt.words : Stmt → List Token
  | .package name => [packageWord, name.word, semicolon]
  | .packageBlock name body => packageWord :: name.word :: braced (wordsOf body)
  | .moduleUse name => [useWord, name.word, semicolon]
  | .forward name => [subWord, name.word, semicolon]
  | .sub name body => subWord :: name.word :: braced (wordsOf body)
  | .conditional negated condition body further last =>
    conditionalWord negated :: (parenthesized condition.words ++
      -- the clauses follow the block without anything between
      (braced (wordsOf body) ++ (furtherWords further ++ lastWords last)))
  | .whileLoop negated condition body =>
    whileWord negated :: (parenthesized condition.words ++ braced (wordsOf body))
  | .forLoop each header body => forWord each :: (header.words ++ braced (wordsOf body))
  | .returning value modifier =>
    returnWord :: (optionalWords Expr.words value ++
      (optionalWords Modifier.words modifier ++ [semicolon]))
  -- a block is written without a semicolon after it, and so is every statement that ends in one
  | .block body => braced (wordsOf body)
  | .expression e modifier => e.words ++ (optionalWords Modifier.words modifier ++ [semicolon])
  | .declaration d value => d.words ++ (optionalWords valueWords value ++ [semicolon])

/-- The words with which statements are written, one after the other. -/
def wordsOf : List Stmt → List Token
  | [] => []
  | s :: rest => s.words ++ wordsOf rest

/-- The words of the further conditions of a choice, with their blocks. -/
def furtherWords : List (Expr × List Stmt) → List Token
  | [] => []
  | (condition, body) :: rest =>
    (elsifWord :: (parenthesized condition.words ++ braced (wordsOf body))) ++ furtherWords rest

/-- The words of the last block of a choice. -/
def lastWords : Option (List Stmt) → List Token
  | none => []
  | some body => elseWord :: braced (wordsOf body)

end

mutual

/-- How deep a statement nests below its own level: what is directly in a block and the expressions
of a statement are one level deeper. -/
def Stmt.nesting : Stmt → Nat
  -- these have neither blocks nor expressions
  | .package _ | .moduleUse _ | .forward _ => 0
  | .packageBlock _ body | .sub _ body | .block body => nestingOf body
  | .conditional _ condition body further last =>
    max condition.levels (max (nestingOf body) (max (furtherNesting further) (lastNesting last)))
  | .whileLoop _ condition body => max condition.levels (nestingOf body)
  | .forLoop _ header body => max header.nesting (nestingOf body)
  | .returning value modifier =>
    max (optionalNesting Expr.levels value) (optionalNesting (·.condition.levels) modifier)
  | .expression e modifier => max e.levels (optionalNesting (·.condition.levels) modifier)
  -- the declaration itself is the expression of a statement
  | .declaration _ value => optionalNesting valueNesting value + 1

/-- How deep statements nest: each is one level below the list. -/
def nestingOf : List Stmt → Nat
  | [] => 0
  | s :: rest => max (s.nesting + 1) (nestingOf rest)

/-- The deepest of the further conditions and their blocks. -/
def furtherNesting : List (Expr × List Stmt) → Nat
  | [] => 0
  | (condition, body) :: rest =>
    max condition.levels (max (nestingOf body) (furtherNesting rest))

/-- The nesting of the last block of a choice. -/
def lastNesting : Option (List Stmt) → Nat
  | none => 0
  | some body => nestingOf body

end

/-! ## Written words -/

/-- The kinds of the words with which statements begin. -/
def openers : List Kind :=
  [.packageKw, .useKw, .subKw, .ifKw, .unlessKw, .whileKw, .untilKw, .forKw, .foreachKw, .returnKw,
   .lBrace, .myKw, .ourKw, .stateKw, .notKw, .bang, .tilde, .backslash, .minus, .plus, .plusPlus,
   .minusMinus, .scalarName, .number, .lParen]

/-- The word is read back where words like it are written, and so at the start of a line if a
statement can begin with it. -/
def Written (t : Token) : Prop :=
  -- at the start of a line a word with an equals sign in front would open documentation
  ∀ atLineStart, (atLineStart = true → t.kind ∈ openers) → t.Stands atLineStart

/-- The words of a program are read back. -/
theorem tokenize_words {words : List Token} (written : ∀ t ∈ words, Written t)
    (opened : ∀ t ∈ words.head?, t.kind ∈ openers) :
    (tokenize (Token.spaced words)).filter (!·.isTrivia) = words := by
  cases words with
  | nil => rfl
  | cons t ts =>
    rw [List.forall_mem_cons] at written
    -- only the first word stands at the start of a line
    exact tokenize_spaced (written.1 true fun _ => opened t rfl)
      fun u member => written.2 u member false nofun

/-- The word is a keyword or punctuation that is told by its spelling. -/
def isFixed (t : Token) : Bool :=
  keywordTable.contains (t.text, t.kind) ||
    punctuationTable.contains (t.text, t.kind) &&
      (!openers.contains t.kind || t.text.head? ≠ some '=')

/-- A keyword or a mark is read back wherever it may stand. -/
theorem written_of_isFixed {t : Token} (fixed : isFixed t = true) : Written t := by
  intro atLineStart opens
  simp only [isFixed, Bool.or_eq_true, Bool.and_eq_true, List.contains_iff_mem, Bool.not_eq_true',
    decide_eq_true_eq] at fixed
  rcases fixed with keyword | ⟨mark, plain⟩
  · exact Token.stands_keyword keyword
  · apply Token.stands_punctuation mark
    -- a mark that may begin a statement has no equals sign in front
    intro start
    have opens := opens start
    simpa [opens] using plain

/-- All words are read back. -/
def AllWritten (words : List Token) : Prop :=
  ∀ t ∈ words, Written t

namespace AllWritten

variable {t : Token} {words words' : List Token}

/-- There is nothing to read back. -/
theorem nil : AllWritten [] :=
  nofun

/-- The first word and the others. -/
theorem cons (first : Written t) (more : AllWritten words) : AllWritten (t :: words) :=
  List.forall_mem_cons.mpr ⟨first, more⟩

/-- Words after words. -/
theorem append (first : AllWritten words) (more : AllWritten words') :
    AllWritten (words ++ words') :=
  List.forall_mem_append.mpr ⟨first, more⟩

/-- Words that stand alone can be left to `decide`. -/
theorem fixed (known : words.all isFixed = true) : AllWritten words :=
  fun t member => written_of_isFixed (List.all_eq_true.mp known t member)

/-- The parentheses are read back too. -/
theorem parenthesized (inner : AllWritten words) : AllWritten (Program.parenthesized words) :=
  cons (written_of_isFixed (by decide)) (inner.append (fixed (by decide)))

/-- The braces are read back too. -/
theorem braced (inner : AllWritten words) : AllWritten (Program.braced words) :=
  cons (written_of_isFixed (by decide)) (inner.append (fixed (by decide)))

/-- Words in parentheses, where the levels ask for them. -/
theorem enclose (inner : AllWritten words) (least actual : Level) :
    AllWritten (Program.enclose least actual words) := by
  unfold Program.enclose
  split
  · exact inner
  · exact inner.parenthesized

/-- The words of a part that may be left out. -/
theorem optional {α : Type} {wordsOf : α → List Token} (h : ∀ part, AllWritten (wordsOf part))
    (part : Option α) : AllWritten (optionalWords wordsOf part) := by
  cases part with
  | none => exact nil
  | some part => exact h part

/-- Words with a word between each two of them. -/
theorem intersperse (sep : Written t) (h : AllWritten words) :
    AllWritten (words.intersperse t) := by
  induction words with
  | nil => exact nil
  | cons u us ih =>
    obtain ⟨first, more⟩ := List.forall_mem_cons.mp h
    cases us with
    | nil => exact h
    | cons v vs => exact cons first (cons sep (ih more))

end AllWritten

/-- The words of a table are read back where each of them is fixed. -/
theorem written_of_table {table : List Token} (known : table.all isFixed = true)
    (t : {t // t ∈ table}) : Written t.val :=
  AllWritten.fixed known t.val t.property

/-- A name is read back. It does not begin a statement. -/
theorem Identifier.written (name : Identifier) : Written name.word := by
  -- at the start of a line a name might mark the end of the program, but there it never stands
  have noOpener : name.word.kind ∉ openers := by
    show Kind.ident ∉ openers
    decide
  intro atLineStart opens
  obtain rfl : atLineStart = false := by simpa [noOpener] using opens
  exact Token.stands_ident name.isName name.noKeyword name.noList rfl

/-- A variable is read back with its sigil. -/
theorem SigiledName.written (v : SigiledName) : Written v.word := by
  intro atLineStart _
  have known : ∀ s : Sigil, (s.char, s.tokenKind) ∈
      [('$', Kind.scalarName), ('@', .arrayName), ('%', .hashName)] := by
    intro s
    cases s <;> decide
  exact Token.stands_variable rfl v.name.isName (known v.sigil)

/-- The name of a scalar is read back with its sigil. -/
theorem Name.written (name : Name) : Written name.scalar :=
  SigiledName.written ⟨.scalar, name⟩

/-- A number is read back. -/
theorem Digits.written (digits : Digits) : Written digits.number :=
  fun _ _ => Token.stands_number digits.digits rfl

/-- The words of an expression are read back. -/
theorem Expr.written (e : Expr) : AllWritten e.words := by
  induction e with
  | scalar name => exact .cons name.written .nil
  | integer digits => exact .cons digits.written .nil
  | stepBefore op e ih => exact .cons (written_of_table (by decide) op) (ih.enclose _ _)
  | stepAfter op e ih =>
    exact (ih.enclose _ _).append (.cons (written_of_table (by decide) op) .nil)
  | power b e ihBase ihExponent =>
    exact (ihBase.enclose _ _).append
      (.cons (written_of_isFixed (by decide)) (ihExponent.enclose _ _))
  | unary op e ih => exact .cons (written_of_table (by decide) op) (ih.enclose _ _)
  | binary op l r ihLeft ihRight =>
    have known : ∀ o ∈ binaryOperators, isFixed o.token = true := by decide
    exact (ihLeft.enclose _ _).append
      (.cons (written_of_isFixed (known _ op.property)) (ihRight.enclose _ _))
  | ternary c y n ihCondition ihYes ihNo =>
    exact (ihCondition.enclose _ _).append (.cons (written_of_isFixed (by decide))
      ((ihYes.enclose _ _).append (.cons (written_of_isFixed (by decide)) (ihNo.enclose _ _))))
  | assign op t v ihTarget ihValue =>
    exact (ihTarget.enclose _ _).append
      (.cons (written_of_table (by decide) op) (ihValue.enclose _ _))
  | negation e ih => exact .cons (written_of_isFixed (by decide)) (ih.enclose _ _)

/-- The words of a modifier are read back. -/
theorem Modifier.written (m : Modifier) : AllWritten m.words :=
  .cons (written_of_table (by decide) m.keyword) m.condition.written

/-- The words of a declaration are read back. -/
theorem Declaration.written (d : Declaration) : AllWritten d.words := by
  refine .cons (written_of_table (by decide) d.declarator) ?_
  cases d.declared with
  | one v => exact .cons v.written .nil
  | several vs =>
    refine .parenthesized (.intersperse (written_of_isFixed (by decide)) ?_)
    intro t member
    obtain ⟨v, -, rfl⟩ := List.mem_map.mp member
    exact v.written

/-- The words of a first value are read back. -/
theorem valueWords_written (value : Expr) : AllWritten (valueWords value) :=
  .cons (written_of_isFixed (by decide)) (value.written.enclose _ _)

/-- The words of what a loop runs over are read back. -/
theorem Header.written : (h : Header) → AllWritten h.words
  | .each name list =>
    .cons (written_of_isFixed (by decide)) (.cons name.written list.written.parenthesized)
  | .count start condition step =>
    .parenthesized (start.written.append (.cons (written_of_isFixed (by decide))
      (condition.written.append (.cons (written_of_isFixed (by decide)) step.written))))

mutual

/-- The words of a statement are read back. -/
theorem Stmt.written : (s : Stmt) → AllWritten s.words
  | .package name =>
    .cons (written_of_isFixed (by decide)) (.cons name.written (.fixed (by decide)))
  | .packageBlock name body =>
    .cons (written_of_isFixed (by decide)) (.cons name.written (wordsOf_written body).braced)
  | .moduleUse name =>
    .cons (written_of_isFixed (by decide)) (.cons name.written (.fixed (by decide)))
  | .forward name =>
    .cons (written_of_isFixed (by decide)) (.cons name.written (.fixed (by decide)))
  | .sub name body =>
    .cons (written_of_isFixed (by decide)) (.cons name.written (wordsOf_written body).braced)
  | .conditional negated condition body further last =>
    .cons (written_of_isFixed (by cases negated <;> decide))
      (condition.written.parenthesized.append ((wordsOf_written body).braced.append
        ((furtherWords_written further).append (lastWords_written last))))
  | .whileLoop negated condition body =>
    .cons (written_of_isFixed (by cases negated <;> decide))
      (condition.written.parenthesized.append (wordsOf_written body).braced)
  | .forLoop each header body =>
    .cons (written_of_isFixed (by cases each <;> decide))
      (header.written.append (wordsOf_written body).braced)
  | .returning value modifier =>
    .cons (written_of_isFixed (by decide)) ((AllWritten.optional Expr.written value).append
      ((AllWritten.optional Modifier.written modifier).append (.fixed (by decide))))
  | .block body => (wordsOf_written body).braced
  | .expression e modifier =>
    e.written.append ((AllWritten.optional Modifier.written modifier).append (.fixed (by decide)))
  | .declaration d value =>
    d.written.append ((AllWritten.optional valueWords_written value).append (.fixed (by decide)))

/-- Every word of a program is read back where it stands. -/
theorem wordsOf_written : (body : List Stmt) → AllWritten (wordsOf body)
  | [] => .nil
  | s :: rest => s.written.append (wordsOf_written rest)

/-- The words of the further conditions of a choice are read back. -/
theorem furtherWords_written : (further : List (Expr × List Stmt)) →
    AllWritten (furtherWords further)
  | [] => .nil
  | (condition, body) :: rest =>
    AllWritten.append (.cons (written_of_isFixed (by decide))
      (condition.written.parenthesized.append (wordsOf_written body).braced))
      (furtherWords_written rest)

/-- The words of the last block of a choice are read back. -/
theorem lastWords_written : (last : Option (List Stmt)) → AllWritten (lastWords last)
  | none => .nil
  | some body => .cons (written_of_isFixed (by decide)) (wordsOf_written body).braced

end

end PerlOutline.Program
