import PerlOutline.Source.Range
import PerlOutline.Syntax.Kind.Label

/-!
# Syntax errors

A syntax error says what is wrong, under which code, and where.

## Layers
- **`ErrorCode`**: the published codes, in five categories.
- **`Problem`**: the causes, and the words for them.
- **`SyntaxError`**: a cause with a code and a range.
-/

namespace PerlOutline.Syntax

open PerlOutline.Source (Range)

/-! ## Codes -/

/-- The published code of a syntax error. -/
inductive ErrorCode where
  /-- Invalid character. -/
  | e0101
  /-- Missing semicolon. -/
  | e0201
  /-- Unclosed brace. -/
  | e0202
  /-- Unclosed parenthesis. -/
  | e0203
  /-- Unclosed bracket. -/
  | e0204
  /-- Nesting deeper than the parser follows. -/
  | e0205
  /-- Missing name of a package, sub or module. -/
  | e0301
  /-- Declarator without a variable. -/
  | e0302
  /-- Missing block. -/
  | e0303
  /-- Missing expression. -/
  | e0401
  /-- Missing operand of an operator. -/
  | e0402
  /-- Token that does not fit here. -/
  | e0901
  /-- Missing token of a fixed kind. -/
  | e0902
  deriving DecidableEq, Repr

namespace ErrorCode

/-- How a code is written. -/
def label : ErrorCode → String
  | .e0101 => "E0101"
  | .e0201 => "E0201"
  | .e0202 => "E0202"
  | .e0203 => "E0203"
  | .e0204 => "E0204"
  | .e0205 => "E0205"
  | .e0301 => "E0301"
  | .e0302 => "E0302"
  | .e0303 => "E0303"
  | .e0401 => "E0401"
  | .e0402 => "E0402"
  | .e0901 => "E0901"
  | .e0902 => "E0902"

/-- The group of errors that a code belongs to. -/
def category : ErrorCode → String
  | .e0101 => "lexical error"
  | .e0201 | .e0202 | .e0203 | .e0204 | .e0205 => "structural error"
  | .e0301 | .e0302 | .e0303 => "declaration error"
  | .e0401 | .e0402 => "expression error"
  | .e0901 | .e0902 => "syntax error"

end ErrorCode

/-! ## Causes -/

/-- What is wrong with a text. -/
inductive Problem where
  /-- A token that the language does not have. -/
  | invalidCharacter
  /-- A token of the given kind cannot stand here. -/
  | unexpected (kind : Kind)
  /-- A token of the given kind should stand here. -/
  | missingToken (kind : Kind)
  | missingSemicolon
  | missingModule
  | missingSubBody
  | missingCondition
  | missingModifierCondition
  | missingExpression
  | missingOperand
  | missingExponent
  | missingAssignedValue
  | missingMethodOrSubscript
  | missingIndex
  | missingKey
  /-- Something other than a variable in a list of declared variables. -/
  | missingListedVariable
  /-- No variable after the declarator. -/
  | missingDeclaredVariable
  /-- Nothing that could be localised after its declarator. -/
  | missingLocalized
  /-- Nesting went past `limit` levels. -/
  | tooDeep (limit : Nat)
  deriving DecidableEq, Repr

/-- The words in which a problem is told. -/
def Problem.message : Problem → String
  | .invalidCharacter => "invalid character"
  | .unexpected kind => "unexpected token: " ++ kind.label
  | .missingToken kind => "expected " ++ kind.label
  | .missingSemicolon => "expected `;`"
  | .missingModule => "expected module name or version"
  | .missingSubBody => "expected sub body"
  | .missingCondition => "expected condition"
  | .missingModifierCondition => "expected modifier condition"
  | .missingExpression => "expected expression"
  | .missingOperand => "expected operand"
  | .missingExponent => "expected exponent"
  | .missingAssignedValue => "expected value to assign"
  | .missingMethodOrSubscript => "expected method name or subscript"
  | .missingIndex => "expected index"
  | .missingKey => "expected key"
  | .missingListedVariable => "expected variable"
  | .missingDeclaredVariable => "expected variable after declarator"
  | .missingLocalized => "expected lvalue after `local`"
  | .tooDeep limit => "nesting deeper than " ++ toString limit ++ " levels"

/-! ## Errors -/

/-- A problem with its code and its place. -/
structure SyntaxError where
  /-- What is wrong. -/
  problem : Problem
  /-- The published code. -/
  code : ErrorCode
  /-- The token at which it was noticed, or the end of the text. -/
  range : Range
  deriving DecidableEq, Repr

namespace SyntaxError

/-- The words in which an error is told. -/
def message (e : SyntaxError) : String :=
  e.problem.message

/-- An error on one line: words, code and place. -/
def display (e : SyntaxError) : String :=
  e.message ++ " [" ++ e.code.label ++ "] at " ++ e.range.label

end SyntaxError

end PerlOutline.Syntax
