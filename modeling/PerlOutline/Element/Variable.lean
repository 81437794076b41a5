import PerlOutline.Element.View

/-!
# Variables and their declarations

A variable is a sigil with a name. A declaration holds the variables that it introduces as its
children, so a variable is declared where its parent is a declaration.
-/

namespace PerlOutline.Element

open PerlOutline.Syntax (Kind)

/-! ## Declarators -/

/-- The word that opens a declaration. -/
inductive Declarator where
  | my
  | our
  | localized
  | state
  deriving DecidableEq, Repr

namespace Declarator

/-- The declarator that a keyword is. -/
def ofKind? : Kind → Option Declarator
  | .myKw => some .my
  | .ourKw => some .our
  | .localKw => some .localized
  | .stateKw => some .state
  | _ => none

/-- How a declarator is written. -/
def label : Declarator → String
  | .my => "my"
  | .our => "our"
  | .localized => "local"
  | .state => "state"

end Declarator

/-! ## Declarations -/

/-- A declaration of variables. -/
abbrev VariableDeclaration : Type :=
  Typed .variableDeclaration

namespace VariableDeclaration

/-- The declarator is the first token of a declaration that is no trivia. -/
def declarator (d : VariableDeclaration) : Except StructuralError Declarator :=
  d.node.require .declarator (d.node.firstToken?.bind fun t => Declarator.ofKind? t.kind)

/-- The variables that the declaration introduces. A localised element introduces none. -/
def declared (d : VariableDeclaration) : List Variable :=
  d.node.childViews

/-- Whether the variables stand in parentheses. -/
def isList (d : VariableDeclaration) : Bool :=
  d.node.hasToken .lParen

end VariableDeclaration

/-! ## Variables -/

/-- A scalar. -/
abbrev ScalarVariable : Type :=
  Typed .scalarVariable

/-- An array. -/
abbrev ArrayVariable : Type :=
  Typed .arrayVariable

/-- A hash. -/
abbrev HashVariable : Type :=
  Typed .hashVariable

/-- The last index of an array. -/
abbrev ArrayIndexVariable : Type :=
  Typed .arrayIndexVariable

/-- The kind of the token under a variable of the given kind. -/
def variableTokenKind : Kind → Kind
  | .arrayVariable => .arrayName
  | .hashVariable => .hashName
  | .arrayIndexVariable => .arrayLastIndex
  | _ => .scalarName

/-- The sigil of a variable of the given kind. -/
def variableSigil : Kind → String
  | .arrayVariable => "@"
  | .hashVariable => "%"
  | .arrayIndexVariable => "$#"
  | _ => "$"

namespace Variable

/-- The sigil of a variable. -/
def sigil (v : Variable) : String :=
  variableSigil v.node.kind

/-- The token with the name of a variable, and its sigil. -/
def nameToken (v : Variable) : Except StructuralError PlacedToken :=
  v.node.require .variableName (v.node.token? (variableTokenKind v.node.kind))

/-- The name without its sigil; a package before it is kept. -/
def name (v : Variable) : Except StructuralError String :=
  v.nameToken.map fun t => String.ofList (t.token.text.drop v.sigil.length)

/-- The declaration that introduces the variable, if one does. -/
def declaration? (v : Variable) : Option VariableDeclaration :=
  v.node.parent?.bind View.ofNode?

end Variable

end PerlOutline.Element
