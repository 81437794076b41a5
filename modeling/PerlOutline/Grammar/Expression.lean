import PerlOutline.Grammar.Statement

/-!
# Rules for expressions

From the loosest to the tightest: the tiers of binary operators, with negation, lists, assignment
and the conditional expression between them; prefix operators; powers; increments; chains of
subscripts and calls; terms.

A rule for an expression records which expression it parsed, or that there was none.

## Layers
- **Operators** by tier.
- **Chains**: subscripts, calls and methods after a term.
- **Terms**.
- **Variables** and their declarations.
- **Calls** by name.
-/

namespace PerlOutline.Grammar

open PerlOutline.Syntax (Kind)

/-! ## Tiers -/

namespace Tier

def operators : Tier → List Kind
  | .lowOr => [.orKw, .xorKw]
  | .lowAnd => [.andKw]
  | .range => [.dotDot]
  | .logicalOr => [.pipePipe, .slashSlash]
  | .logicalAnd => [.ampAmp]
  | .bitwiseOr => [.pipe, .caret]
  | .bitwiseAnd => [.amp]
  | .equality => [.eqEq, .bangEq, .spaceship, .eqKw, .neKw, .cmpKw]
  | .relational => [.lt, .gt, .ltEq, .gtEq, .ltKw, .gtKw, .leKw, .geKw]
  | .additive => [.plus, .minus, .dot]
  | .multiplicative => [.star, .slash, .percent]
  | .binding => [.eqTilde, .bangTilde]

/-- What stands between the operators of a tier. -/
def operand : Tier → Goal
  | .lowOr => .binary .lowAnd
  | .lowAnd => .negation
  | .range => .binary .logicalOr
  | .logicalOr => .binary .logicalAnd
  | .logicalAnd => .binary .bitwiseOr
  | .bitwiseOr => .binary .bitwiseAnd
  | .bitwiseAnd => .binary .equality
  | .equality => .binary .relational
  | .relational => .binary .additive
  | .additive => .binary .multiplicative
  | .multiplicative => .binary .binding
  | .binding => .unary

end Tier

namespace Rule

/-! ## Operators -/

/-- Operands with operators between them, grouped to the left. -/
def binary (tier : Tier) : Rule :=
  .group <| steps
    [.call tier.operand,
     -- Each turn takes what was parsed so far as the left operand.
     given .parsed <| .loop (.next tier.operators) <| .wrap .binaryExpr <| steps
       [.take,
        .call tier.operand,
        required .missingOperand .e0402]]

/-- An operator before an operand that may begin with such an operator again. -/
def prefixed (kind : Kind) (goal : Goal) : Rule :=
  .node kind <| steps
    [.take,
     .nested goal,
     required .missingOperand .e0402]

/-- The loose negation. -/
def negation : Rule :=
  .branch (.next [.notKw]) (prefixed .unaryExpr .negation) (.call .list)

/-- Expressions with commas between them; a comma may end the list. -/
def list : Rule :=
  let atComma : Test := .next [.comma, .fatComma]
  .group <| steps
    [lacking atComma (.nested .assignment),
     -- A comma in front begins a list without a first item.
     given atComma <| .wrap .listExpr <| steps
       [.yield (some .listExpr),
        .loop (.both atComma .parsed) <| steps
          -- A comma may stand last. Anywhere else an item has to follow it, and one that fails ends
          -- the list: of two commas in a row the second one is reported.
          [.take,
           lacking .endsExpression (.nested .assignment)]]]

/-- An assignment, grouped to the right, or what is tighter. -/
def assignment : Rule :=
  .group <| steps
    [.call .ternary,
     given (.both .parsed (.next Kind.assignmentOperators)) <| .wrap .assignExpr <| steps
       [.take,
        .nested .assignment,
        required .missingAssignedValue .e0402]]

/-- A choice between two expressions, or what is tighter. -/
def ternary : Rule :=
  .group <| steps
    [.call (.binary .range),
     given (.both .parsed (.next [.question])) <| .wrap .ternaryExpr <| steps
       [.take,
        -- The middle part is as loose as an assignment, and so is the last one.
        .nested .assignment,
        required .missingExpression .e0402,
        expect .colon .e0902,
        .nested .assignment,
        required .missingExpression .e0402]]

/-- Prefix operators. -/
def unary : Rule :=
  .branch (.next [.bang, .tilde, .backslash, .minus, .plus])
    (prefixed .unaryExpr .unary)
    (.call .power)

/-- A power; its exponent may begin with prefix operators. -/
def power : Rule :=
  .group <| steps
    [.call .increment,
     -- A power is not followed by another one here, since its exponent has taken that one.
     given (.both .parsed (.next [.starStar])) <| .wrap .binaryExpr <| steps
       [.take,
        .nested .unary,
        required .missingExponent .e0402]]

/-- An increment or decrement before or after its operand. -/
def increment : Rule :=
  let atOperator : Test := .next [.plusPlus, .minusMinus]
  .branch atOperator
    (prefixed .op3PrefixExpr .increment)
    (.group <| steps
      [.call .postfixChain,
       given (.both .parsed atOperator) (.wrap .op3SuffixExpr .take)])

/-! ## Chains -/

/-- The kinds that can follow an arrow. -/
def arrowTargets : List Kind :=
  [.lBracket, .lBrace, .lParen, .ident, .scalarName] ++ Kind.keywords

/-- The expressions that a subscript can follow without an arrow. -/
def subscriptable : List Kind :=
  [.scalarVariable, .arrayVariable, .elementExpr, .derefExpr]

/-- One link of a chain: a subscript, a call or a method after an arrow, or a subscript. -/
def link : Rule :=
  select
    -- An arrow before a bracket changes nothing about the element.
    [(.both (.next [.arrow]) (.second [.lBracket, .lBrace]),
      .wrap .elementExpr <| steps [.take, .call .subscript]),
     (.both (.next [.arrow]) (.second [.lParen]),
      .wrap .callExpr <| steps [.take, .call .parenthesizedArguments]),
     (.next [.arrow],
      .wrap .methodCallExpr <| steps
        [.take,
         -- What follows the arrow is a name, a keyword or a variable: a method.
         .take,
         given (.next [.lParen]) (.call .parenthesizedArguments)])]
    (.wrap .elementExpr (.call .subscript))

/-- A term with its chain. An arrow that leads nowhere is taken along. -/
def postfixChain : Rule :=
  let arrowed : Test := .both (.next [.arrow]) (.second arrowTargets)
  -- Without an arrow a bracket has to touch what it belongs to.
  let glued : Test :=
    .both (.next [.lBracket, .lBrace]) (.both .adjacent (.parsedAs subscriptable))
  .group <| steps
    [.call .term,
     given .parsed <| steps
       [.loop (.either arrowed glued) link,
        -- The loop stops at an arrow only if what follows it can be no link.
        given (.next [.arrow]) <| steps
          [.take,
           .complain .missingMethodOrSubscript .e0902]]]

/-- An index in brackets or a key in braces. -/
def subscript : Rule :=
  .branch (.next [.lBracket])
    (steps
      [.take,
       expression,
       required .missingIndex .e0401,
       expect .rBracket .e0204])
    (steps
      -- Whatever follows that is no bracket is reported where the brace should stand.
      [expect .lBrace .e0902,
       expression,
       required .missingKey .e0401,
       expect .rBrace .e0202])

/-- Arguments in parentheses. -/
def parenthesizedArguments : Rule :=
  .node .argList <| steps
    [.take,
     lacking (.next [.rParen]) expression,
     expect .rParen .e0203]

/-- Arguments without parentheses. -/
def bareArguments (leadingBlock : Bool) : Rule :=
  .node .argList <| steps
    -- The block before the arguments has no comma behind it.
    [if leadingBlock then given (.next [.lBrace]) (.call .block) else .done,
     lacking .endsExpression (.call .list)]

/-! ## Terms -/

/-- An expression, which may be left out, between a bracket and its closing one. -/
def bracketed (kind close : Kind) (code : PerlOutline.Syntax.ErrorCode) : Rule :=
  .node kind <| steps
    [.take,
     lacking (.next [close]) expression,
     expect close code]

/-- A term, told by its first tokens. -/
def term : Rule :=
  select
    -- The first test that holds decides, and what fits none of them is rejected.
    [(.next [.scalarName, .arrayName, .hashName, .arrayLastIndex], .call .plainVariable),
     (.next Kind.declarators, .call .declaration),
     (.next [.number, .string, .qwList], .node .literal .take),
     (.next [.lParen], bracketed .listExpr .rParen .e0203),
     (.next [.lBracket], bracketed .anonArrayExpr .rBracket .e0204),
     (.next [.lBrace], bracketed .anonHashExpr .rBrace .e0202),
     (.next [.subKw],
      .node .anonSubExpr <| steps
        [.take,
         given (.next [.lParen]) (.call .prototype),
         .call .block]),
     -- A sigil that stands alone is a dereference only before something that can be one.
     (.both (.next [.dollar, .atSign, .percent]) (.second [.scalarName, .dollar, .lBrace]),
      .call .dereference),
     (.both (.next [.amp]) (.second [.ident]),
      .node .callExpr <| steps
        [.take,
         .take,
         given (.next [.lParen]) (.call .parenthesizedArguments)]),
     (.both (.next [.amp]) (.second [.scalarName, .lBrace]), .call .dereference),
     -- Inside an expression `return` is a call with bare arguments.
     (.next [.returnKw],
      .node .callExpr <| steps
        [.take,
         lacking .endsExpression (.call (.bareArguments false))]),
     (.next [.ident], .call .wordOrCall),
     (.next [.error],
      steps [.reject .invalidCharacter .e0101, .yield none]),
     -- The token is left for what encloses the expression.
     (.endsExpression,
      steps [.complain .missingExpression .e0401, .yield none])]
    (steps [.rejectNext .e0401, .yield none])

/-! ## Variables -/

/-- A variable on its own, of the kind that its sigil tells. -/
def plainVariable : Rule :=
  select
    [(.next [.arrayName], .node .arrayVariable .take),
     (.next [.hashName], .node .hashVariable .take),
     (.next [.arrayLastIndex], .node .arrayIndexVariable .take)]
    -- Anything else is taken as a scalar.
    (.node .scalarVariable .take)

/-- The kinds of name that a declaration can introduce. -/
def declarable : List Kind :=
  [.scalarName, .arrayName, .hashName]

/-- Variables in parentheses; a word stands for a place without a variable. -/
def declaredList : Rule :=
  steps
    [.take,
     -- Commas are taken as they come, also several in a row.
     .loop (.next (declarable ++ [.ident, .comma])) <| select
       [(.next declarable, .call .plainVariable),
        (.next [.ident], .node .barewordExpr .take)]
       .take,
     lacking (.either .atEnd (.next [.rParen])) (.complain .missingListedVariable .e0302),
     expect .rParen .e0203]

/-- A declarator with a variable or a list of them; the localising one takes any chain. -/
def declaration : Rule :=
  .node .variableDeclaration <|
    .branch (.next [.localKw])
      (steps
        [.take,
         -- What is localised may be an element, so the whole chain belongs to it.
         select
           [(.next [.lParen], declaredList),
            (.endsExpression, .complain .missingDeclaredVariable .e0302)]
           (steps [.nested .postfixChain, required .missingLocalized .e0302])])
      (steps
        [.take,
         select
           [(.next [.lParen], declaredList),
            (.next declarable, .call .plainVariable)]
           (.complain .missingDeclaredVariable .e0302)])

/-- A sigil before a scalar, another dereference, or a block. -/
def dereference : Rule :=
  .node .derefExpr <| steps
    [.take,
     select
       [(.next [.scalarName], .call .plainVariable),
        (.next [.dollar], .nested .dereference)]
       -- What is no variable has to be a block with the reference in it.
       (.call .block)]

/-! ## Calls by name -/

/-- The words whose first argument in braces is a block. -/
def blockTakers : List (List Char) :=
  ["map".toList, "grep".toList, "sort".toList, "eval".toList, "do".toList, "first".toList,
   "any".toList, "all".toList, "none".toList]

/-- A word, or a call with or without parentheses. -/
def wordOrCall : Rule :=
  -- The second token decides, before the words are looked at.
  select
    [(.second [.lParen],
      .node .callExpr <| steps [.take, .call .parenthesizedArguments]),
     -- A brace after these words opens a block and no hash.
     (.both (.second argumentStarts) (.word blockTakers),
      .node .callExpr <| steps [.take, .call (.bareArguments true)]),
     (.second argumentStarts,
      .node .callExpr <| steps [.take, .call (.bareArguments false)])]
    (.node .barewordExpr .take)

end Rule

end PerlOutline.Grammar
