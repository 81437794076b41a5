import PerlOutline.Element.QualifiedName
import PerlOutline.Stub.Flags
import PerlOutline.Stub.Kind

/-!
# Stubs

A stub is what stays of a declaration when its text is put away: what it declares, its name, its
package and its flags.
-/

namespace PerlOutline

/-- Summary of a declaration. -/
structure Stub where
  kind : Stub.DeclarationKind
  /-- The name without sigil and package; a package has its full name. -/
  name : String
  /-- The package to which the declaration belongs. -/
  inPackage : String
  /-- What is known of the scope. -/
  flags : Stub.Flags
  deriving DecidableEq, Repr

namespace Stub

/-- The index in which a stub is usually filed. -/
def indexKey (s : Stub) : IndexKey :=
  s.kind.indexKey

/-- The name with the package before it. -/
def qualifiedName (s : Stub) : String :=
  Element.QualifiedName.join s.inPackage s.name

end Stub

end PerlOutline
