import Std.Data.ExtTreeMap
import PerlOutline.Index.NameKey
import PerlOutline.Index.Registry

/-!
# The stubs of one file

The stubs of one version of a file in source order, with their positions by name.
-/

namespace PerlOutline.Index

open PerlOutline (Stub)
open PerlOutline.Stub (DeclarationKind IndexKey)

/-- The stubs of one version of a file. -/
structure StubSet where
  /-- The version of the text that the stubs are of. -/
  version : Version
  /-- The stubs in source order. -/
  stubs : List Stub
  /-- The positions of the stubs of each name, in ascending order. -/
  byName : Std.ExtTreeMap NameKey (List Nat)

namespace StubSet

/-- The name under which a stub is filed; a kind without a key is reported. -/
def nameKey (r : Registry) (s : Stub) : Except DeclarationKind NameKey :=
  match r.keyFor? s.kind with
  | some key => .ok ⟨key, s.name⟩
  | none => .error s.kind

/-- The positions of each of the names, where the first name has position `start`. -/
def positions (start : Nat) : List NameKey → Std.ExtTreeMap NameKey (List Nat)
  | [] => ∅
  | name :: names =>
    -- Later positions are filed before, so each list is in ascending order.
    (positions (start + 1) names).alter name fun later => some (start :: later.getD [])

/-- The set of the given stubs; the first kind without a key is reported. -/
def ofStubs (r : Registry) (version : Version) (stubs : List Stub) :
    Except DeclarationKind StubSet := do
  -- No set is made if one of the stubs cannot be filed.
  let names ← stubs.mapM (nameKey r)
  return ⟨version, stubs, positions 0 names⟩

/-- The number of stubs. -/
def size (set : StubSet) : Nat :=
  set.stubs.length

/-- Whether there are no stubs. -/
def isEmpty (set : StubSet) : Bool :=
  set.stubs.isEmpty

/-- The names under which stubs are filed, each once. -/
def names (set : StubSet) : List NameKey :=
  set.byName.keys

/-- Whether a stub is filed under a name. -/
def holds (set : StubSet) (name : NameKey) : Bool :=
  set.byName.contains name

/-- The stubs of a name with their positions, in source order. -/
def matching (set : StubSet) (name : NameKey) : List (Nat × Stub) :=
  (set.byName[name]?.getD []).filterMap fun i => set.stubs[i]?.map fun stub => (i, stub)

end StubSet

end PerlOutline.Index
