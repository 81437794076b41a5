import PerlOutline.Grammar.Run

/-!
# Rules for statements

Programs are lists of statements. A statement that cannot go on reports why and leaves the rest
to the statement after it.

## Layers
- **Lists**: statements of a text and of a block.
- **Declarations** of packages, modules and subs.
- **Control flow**.
- **Simple statements** with their modifiers.
-/

namespace PerlOutline.Grammar

open PerlOutline.Syntax (Kind)

namespace Rule

/-! ## Shared parts -/

/-- An expression of any kind, from the loosest tier on. -/
def expression : Rule :=
  .call (.binary .lowOr)

/-- An expression, where one can begin. -/
def optionalExpression : Rule :=
  lacking .endsExpression expression

/-- A semicolon, which may be left out before a closing brace and at the end of the text. -/
def statementEnd : Rule :=
  select
    [(.next [.semicolon], .take),
     (.next [.rBrace], .done),
     (.atEnd, .done)]
    (.complain .missingSemicolon .e0201)

/-! ## Lists of statements -/

/-- Statements, each of which reads a token or gives one up. -/
def statements (inBlock : Bool) : Rule :=
  let goesOn : Test :=
    -- A brace that closes nothing does not end a text.
    if inBlock then .fails (.either .atEnd (.next [.rBrace])) else .fails .atEnd
  .loop goesOn (.insist (.nested .statement))

/-- Statements in braces. -/
def block : Rule :=
  .node .block <| steps
    [expect .lBrace .e0303,
     .call (.statements true),
     expect .rBrace .e0202]

/-- The kinds that an argument without parentheses can begin with. -/
def argumentStarts : List Kind :=
  [.scalarName, .arrayName, .hashName, .arrayLastIndex, .number, .string, .qwList, .ident,
   .lBrace, .lBracket, .backslash, .subKw, .dollar, .atSign, .bang,
   .myKw, .ourKw, .localKw, .stateKw]

/-- The kinds that an expression can begin with. -/
def expressionStarts : List Kind :=
  argumentStarts ++
  [.lParen, .minus, .plus, .tilde, .plusPlus, .minusMinus, .notKw, .percent, .amp, .returnKw]

/-- A statement, told by its first tokens. -/
def statement : Rule :=
  select
    [(.next [.semicolon], .take),
     (.next [.packageKw], .call .package),
     (.next [.useKw, .noKw], .call .moduleUse),
     -- A sub without a name is an expression.
     (.both (.next [.subKw]) (.second [.ident]), .call .subDefinition),
     (.next [.ifKw, .unlessKw], .call .conditional),
     (.next [.whileKw, .untilKw], .call .whileLoop),
     (.next [.forKw, .foreachKw], .call .forLoop),
     (.next [.returnKw], .call .returnStatement),
     (.next [.lBrace], .call .block),
     -- A character that no token begins with is set aside, and the next statement begins after it.
     (.next [.error], .reject .invalidCharacter .e0101),
     (.next expressionStarts, .call .expressionStatement)]
    (.rejectNext .e0901)

/-! ## Declarations -/

/-- A package with a name, a version if there is one, and a block or a semicolon. -/
def package : Rule :=
  .node .packageStatement <| steps
    [.take,
     expect .ident .e0301,
     given (.next [.number]) .take,
     .branch (.next [.lBrace]) (.call .block) statementEnd]

/-- Use of a module or of a version, with a list of what to import. A number after the module is
a version unless a comma follows it. -/
def moduleUse : Rule :=
  .node .useStatement <| steps
    [.take,
     select
       [(.next [.ident], steps
          [.take,
           -- Before a comma the number is the first thing to import.
           given (.both (.next [.number]) (.fails (.second [.comma, .fatComma]))) .take]),
        (.next [.number], .take)]
       (.complain .missingModule .e0301),
     optionalExpression,
     statementEnd]

/-- A named sub with a prototype if there is one, and a block or a semicolon. -/
def subDefinition : Rule :=
  .node .subDefinition <| steps
    [.take,
     expect .ident .e0301,
     given (.next [.lParen]) (.call .prototype),
     select
       [(.next [.lBrace], .call .block),
        (.next [.semicolon], .take)]
       (.complain .missingSubBody .e0303)]

/-- Any tokens in parentheses; a brace before the closing parenthesis ends them. -/
def prototype : Rule :=
  .node .prototype <| steps
    [.take,
     -- The parenthesis that opens the prototype was taken, and brackets in it do not count.
     .loop (.fails (.either .atEnd (.next [.rParen, .lBrace]))) .take,
     expect .rParen .e0203]

/-! ## Control flow -/

/-- A condition with its block, further conditions, and a last block. -/
def conditional : Rule :=
  .node .ifStatement <| steps
    [.take,
     .call .parenthesizedCondition,
     .call .block,
     .loop (.next [.elsifKw]) <| .node .elsifClause <| steps
       [.take,
        .call .parenthesizedCondition,
        .call .block],
     -- At most one last block; a second one is left to the next statement.
     given (.next [.elseKw]) <| .node .elseClause <| steps
       [.take,
        .call .block]]

/-- An expression in parentheses. -/
def parenthesizedCondition : Rule :=
  .node .condition <| steps
    [expect .lParen .e0902,
     .branch (.next [.rParen]) (.complain .missingCondition .e0401) expression,
     expect .rParen .e0203]

/-- A loop with a condition. -/
def whileLoop : Rule :=
  .node .whileStatement <| steps
    [.take,
     .call .parenthesizedCondition,
     .call .block]

/-- A loop over a list, with its variable if there is one, or over three expressions with
semicolons between them. -/
def forLoop : Rule :=
  .node .forStatement <| steps
    [.take,
     select
       -- The loop variable, declared here or before.
       [(.next Kind.declarators, .call .declaration),
        (.next [.scalarName], .call .plainVariable)]
       .done,
     .node .condition <| steps
       [expect .lParen .e0902,
        lacking (.next [.rParen, .semicolon]) expression,
        -- A semicolon makes it a counting loop, whose three parts may each be left out.
        given (.next [.semicolon]) <| steps
          [.take,
           lacking (.next [.semicolon]) expression,
           expect .semicolon .e0201,
           lacking (.next [.rParen]) expression],
        expect .rParen .e0203],
     .call .block]

/-! ## Simple statements -/

/-- A return with its value if there is one. -/
def returnStatement : Rule :=
  .node .returnStatement <| steps
    [.take,
     optionalExpression,
     .call .modifier,
     statementEnd]

/-- An expression with a modifier if there is one. -/
def expressionStatement : Rule :=
  .node .exprStatement <| steps
    [expression,
     .call .modifier,
     statementEnd]

/-- A modifier of the statement before it, if one follows. -/
def modifier : Rule :=
  given (.next [.ifKw, .unlessKw, .whileKw, .untilKw, .forKw, .foreachKw]) <|
    .node .statementModifier <| steps
      [.take,
       expression,
       required .missingModifierCondition .e0401]

end Rule

end PerlOutline.Grammar
