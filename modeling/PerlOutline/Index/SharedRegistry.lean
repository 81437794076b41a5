import PerlOutline.Index.Registry

/-!
# The shared registry

A process shares at most one registry. It is installed once, and can be taken away so that another
one can be installed; who already holds it keeps it.
-/

namespace PerlOutline.Index

/-- The registry that a process shares, if one is installed. -/
structure SharedRegistry where
  installed? : Option Registry
  deriving DecidableEq, Repr

namespace SharedRegistry

/-- Nothing is installed. -/
def vacant : SharedRegistry :=
  ⟨none⟩

/-- Install a registry where none is installed. -/
def install (shared : SharedRegistry) (r : Registry) : Except IndexError SharedRegistry :=
  match shared.installed? with
  | some _ => .error .alreadyInstalled
  | none => .ok ⟨some r⟩

/-- The installed registry. -/
def get (shared : SharedRegistry) : Except IndexError Registry :=
  match shared.installed? with
  | some r => .ok r
  | none => .error .notInstalled

end SharedRegistry

end PerlOutline.Index
