/-!
# Syntax kinds

Every token and every node of a syntax tree has a kind. This module holds the closed list of
kinds and their classes.

## Layers
- **Trivia**: blanks, comments, documentation blocks and the data section. They belong to the
  text and not to the program.
- **Tokens**: names and literals, punctuation, keywords.
- **Nodes**: statements, declarations, expressions, and `error` for text that is no program.

`error` is the one kind that both tokens and nodes carry.
-/

namespace PerlOutline.Syntax

/-- The kind of a token or of a node. -/
inductive Kind where
  -- trivia
  | whitespace | lineComment | pod | dataSection
  -- names and literals
  | ident | number | string | qwList | scalarName | arrayName | hashName | arrayLastIndex
  -- punctuation
  | lBrace | rBrace | lBracket | rBracket | lParen | rParen | semicolon | colon | comma
  | fatComma | arrow | dot | dotDot | question | dollar | atSign | eq | plusEq | minusEq
  | starEq | slashEq | dotEq | pipePipeEq | slashSlashEq | ampAmpEq | eqEq | bangEq | lt | gt
  | ltEq | gtEq | spaceship | eqTilde | bangTilde | plus | minus | star | slash | percent
  | starStar | plusPlus | minusMinus | bang | backslash | ampAmp | pipePipe | slashSlash | amp
  | pipe | caret | tilde
  -- keywords
  | myKw | ourKw | localKw | stateKw | subKw | packageKw | useKw | noKw | ifKw | unlessKw
  | elsifKw | elseKw | whileKw | untilKw | forKw | foreachKw | returnKw | andKw | orKw | notKw
  | xorKw | eqKw | neKw | ltKw | gtKw | leKw | geKw | cmpKw
  -- statements and their parts
  | sourceFile | block | packageStatement | useStatement | subDefinition | prototype
  | ifStatement | elsifClause | elseClause | condition | whileStatement | forStatement
  | returnStatement | exprStatement | statementModifier
  -- declarations and variables
  | variableDeclaration | scalarVariable | arrayVariable | hashVariable | arrayIndexVariable
  -- expressions
  | assignExpr | ternaryExpr | binaryExpr | unaryExpr | op3PrefixExpr | op3SuffixExpr
  | elementExpr | methodCallExpr | callExpr | argList | listExpr | anonArrayExpr | anonHashExpr
  | anonSubExpr | derefExpr | literal | barewordExpr
  -- what recovery kept
  | error
  deriving DecidableEq, Repr

namespace Kind

/-! ## The list of kinds -/

/-- Tokens that carry no meaning for the program. -/
def triviaKinds : List Kind :=
  [.whitespace, .lineComment, .pod, .dataSection]

/-- Words that are no keywords, numbers, quoted texts and names with a sigil. -/
def literalKinds : List Kind :=
  [.ident, .number, .string, .qwList, .scalarName, .arrayName, .hashName, .arrayLastIndex]

/-- Brackets, separators and operators. -/
def punctuation : List Kind :=
  [.lBrace, .rBrace, .lBracket, .rBracket, .lParen, .rParen, .semicolon, .colon, .comma,
  .fatComma, .arrow, .dot, .dotDot, .question, .dollar, .atSign, .eq, .plusEq, .minusEq,
  .starEq, .slashEq, .dotEq, .pipePipeEq, .slashSlashEq, .ampAmpEq, .eqEq, .bangEq, .lt, .gt,
  .ltEq, .gtEq, .spaceship, .eqTilde, .bangTilde, .plus, .minus, .star, .slash, .percent,
  .starStar, .plusPlus, .minusMinus, .bang, .backslash, .ampAmp, .pipePipe, .slashSlash, .amp,
  .pipe, .caret, .tilde]

/-- Words with a meaning of their own. -/
def keywords : List Kind :=
  [.myKw, .ourKw, .localKw, .stateKw, .subKw, .packageKw, .useKw, .noKw, .ifKw, .unlessKw,
  .elsifKw, .elseKw, .whileKw, .untilKw, .forKw, .foreachKw, .returnKw, .andKw, .orKw, .notKw,
  .xorKw, .eqKw, .neKw, .ltKw, .gtKw, .leKw, .geKw, .cmpKw]

/-- Every kind that a node of a syntax tree can have. -/
def nodeKinds : List Kind :=
  [.sourceFile, .block, .packageStatement, .useStatement, .subDefinition, .prototype,
  .ifStatement, .elsifClause, .elseClause, .condition, .whileStatement, .forStatement,
  .returnStatement, .exprStatement, .statementModifier, .variableDeclaration, .scalarVariable,
  .arrayVariable, .hashVariable, .arrayIndexVariable, .assignExpr, .ternaryExpr, .binaryExpr,
  .unaryExpr, .op3PrefixExpr, .op3SuffixExpr, .elementExpr, .methodCallExpr, .callExpr,
  .argList, .listExpr, .anonArrayExpr, .anonHashExpr, .anonSubExpr, .derefExpr, .literal,
  .barewordExpr, .error]

/-- All kinds; the place of a kind in this list is its number. -/
def all : List Kind :=
  triviaKinds ++ literalKinds ++ punctuation ++ keywords ++ nodeKinds

/-- The kind with the given number, if there is one. -/
def ofNumber? (n : Nat) : Option Kind :=
  all[n]?

/-! ## Classes -/

/-- Blanks, comments, documentation blocks and the data section. -/
def isTrivia : Kind → Bool
  | .whitespace | .lineComment | .pod | .dataSection => true
  | _ => false

/-- Words that the language keeps for itself. -/
def isKeyword (k : Kind) : Bool :=
  keywords.contains k

def isPunctuation (k : Kind) : Bool :=
  punctuation.contains k

/-- Kinds of nodes, as opposed to kinds of tokens. -/
def isNode (k : Kind) : Bool :=
  nodeKinds.contains k

/-- The words that open a variable declaration. -/
def declarators : List Kind :=
  [.myKw, .ourKw, .localKw, .stateKw]

def isDeclarator (k : Kind) : Bool :=
  declarators.contains k

/-- A plain assignment, and assignments that compute with the old value. -/
def assignmentOperators : List Kind :=
  [.eq, .plusEq, .minusEq, .starEq, .slashEq, .dotEq, .pipePipeEq, .slashSlashEq, .ampAmpEq]

def isAssignmentOperator (k : Kind) : Bool :=
  assignmentOperators.contains k

/-- Nodes that are a variable. -/
def variableKinds : List Kind :=
  [.scalarVariable, .arrayVariable, .hashVariable, .arrayIndexVariable]

def isVariable (k : Kind) : Bool :=
  variableKinds.contains k

/-- Nodes that are a statement. -/
def statementKinds : List Kind :=
  [.block, .packageStatement, .useStatement, .subDefinition, .ifStatement, .whileStatement,
  .forStatement, .returnStatement, .exprStatement]

def isStatement (k : Kind) : Bool :=
  statementKinds.contains k

/-- Nodes that are an expression; a declaration and a variable are expressions too. -/
def expressionKinds : List Kind :=
  [.assignExpr, .ternaryExpr, .binaryExpr, .unaryExpr, .op3PrefixExpr, .op3SuffixExpr,
  .elementExpr, .methodCallExpr, .callExpr, .listExpr, .anonArrayExpr, .anonHashExpr,
  .anonSubExpr, .derefExpr, .literal, .barewordExpr, .variableDeclaration, .scalarVariable,
  .arrayVariable, .hashVariable, .arrayIndexVariable]

def isExpression (k : Kind) : Bool :=
  expressionKinds.contains k

end Kind

end PerlOutline.Syntax
