import PerlOutline.Index.Error

/-!
# Registries of keys

A registry says which kind of declarations is filed under which key. Keys keep the order in which
they were registered. A registry is complete before an index uses it.
-/

namespace PerlOutline.Index

open PerlOutline.Stub (DeclarationKind IndexKey)

/-- Keys with the kinds that are filed under them, in the order of registration. -/
structure Registry where
  entries : List (IndexKey × DeclarationKind)
  deriving DecidableEq, Repr

namespace Registry

/-- The registry without keys. -/
def empty : Registry :=
  ⟨[]⟩

/-- The registry with the usual key for each kind of declaration. -/
def perl : Registry :=
  ⟨DeclarationKind.all.map fun kind => (kind.indexKey, kind)⟩

/-- The kind that is filed under a key. -/
def kindFor? (r : Registry) (key : IndexKey) : Option DeclarationKind :=
  r.entries.lookup key

/-- The key under which a kind is filed: the first that was registered for it. -/
def keyFor? (r : Registry) (kind : DeclarationKind) : Option IndexKey :=
  (r.entries.find? (·.2 == kind)).map (·.1)

/-- Whether a key is registered. -/
def contains (r : Registry) (key : IndexKey) : Bool :=
  (r.kindFor? key).isSome

/-- The registered keys, the first one first. -/
def keys (r : Registry) : List IndexKey :=
  r.entries.map (·.1)

/-- The number of registered keys. -/
def size (r : Registry) : Nat :=
  r.entries.length

/-- Whether nothing is registered. -/
def isEmpty (r : Registry) : Bool :=
  r.entries.isEmpty

/-- Register a key for a kind. To register a pair again changes nothing. -/
def register (r : Registry) (key : IndexKey) (kind : DeclarationKind) :
    Except IndexError Registry :=
  match r.kindFor? key with
  | none => .ok ⟨r.entries ++ [(key, kind)]⟩
  | some existing => if existing = kind then .ok r else .error (.duplicateKey key existing)

/-- The registry with the given pairs, registered one after the other. -/
def ofList (pairs : List (IndexKey × DeclarationKind)) : Except IndexError Registry :=
  pairs.foldlM (fun r pair => r.register pair.1 pair.2) empty

end Registry

end PerlOutline.Index
