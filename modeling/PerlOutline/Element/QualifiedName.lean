/-!
# Qualified names

A qualified name has its package before the last pair of colons. Nothing before the colons stands
for the main package.
-/

namespace PerlOutline.Element

/-- The package of code that no package statement covers. -/
def mainPackage : String :=
  "main"

/-- A name with the package before it, if one is written. -/
structure QualifiedName where
  /-- The package that is written before the name. -/
  inPackage : Option String
  /-- The name itself. -/
  name : String
  deriving DecidableEq, Repr

namespace QualifiedName

/-- How many characters stand before the last pair of colons. -/
def lastSeparator? : List Char → Option Nat
  | [] => none
  | c :: cs =>
    -- A pair further on is looked for first, so the last one is found.
    match lastSeparator? cs with
    | some i => some (i + 1)
    | none => if c = ':' && cs.head? = some ':' then some 0 else none

/-- Split a name at its last pair of colons. -/
def ofChars (name : List Char) : QualifiedName :=
  match lastSeparator? name with
  | none => ⟨none, String.ofList name⟩
  -- Nothing before the colons stands for the main package.
  | some 0 => ⟨some mainPackage, String.ofList (name.drop 2)⟩
  | some (i + 1) => ⟨some (String.ofList (name.take (i + 1))), String.ofList (name.drop (i + 3))⟩

/-- Split a name at its last pair of colons. -/
def ofString (name : String) : QualifiedName :=
  ofChars name.toList

/-- A package and a name with two colons between them. -/
def join (inPackage name : String) : String :=
  inPackage ++ "::" ++ name

end QualifiedName

end PerlOutline.Element
