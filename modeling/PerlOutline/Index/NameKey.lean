import PerlOutline.Stub.Kind

/-!
# Names under keys

What a lookup asks for: a name under a key. Names under keys are ordered by key, then by name.
-/

namespace PerlOutline.Index

open PerlOutline.Stub (IndexKey)

/-- A name that is filed under a key. -/
structure NameKey where
  key : IndexKey
  name : String
  deriving DecidableEq, Repr

namespace NameKey

/-- Compare by key, then by name. -/
def compareParts (a b : NameKey) : Ordering :=
  (compareLex (compareOn fun k : NameKey => k.key.name) (compareOn NameKey.name)) a b

/-- Names are in the order of their keys, and under one key in their own order. -/
instance : Ord NameKey := ⟨compareParts⟩

instance : Std.TransOrd NameKey :=
  inferInstanceAs (Std.TransCmp
    (compareLex (compareOn fun k : NameKey => k.key.name) (compareOn NameKey.name)))

/-- Names that compare equal are equal, key and all. -/
theorem eq_of_compareParts {a b : NameKey} (h : compareParts a b = .eq) : a = b := by
  -- The comparison goes on to the name only if the keys are equal.
  have parts : compare a.key.name b.key.name = .eq ∧ compare a.name b.name = .eq := by
    simpa only [compareParts, compareLex, compareOn, Ordering.then_eq_eq] using h
  obtain ⟨⟨key⟩, name⟩ := a
  obtain ⟨⟨key'⟩, name'⟩ := b
  have hkey : key = key' := Std.LawfulEqOrd.eq_of_compare parts.1
  have hname : name = name' := Std.LawfulEqOrd.eq_of_compare parts.2
  rw [hkey, hname]

instance : Std.LawfulEqOrd NameKey where
  compare_self := Std.ReflCmp.compare_self
  eq_of_compare := eq_of_compareParts

end NameKey

end PerlOutline.Index
