/-!
# File identities

The host that owns the files hands out their identities; the index only compares them.
-/

namespace PerlOutline.Source

/-- Identity of a source file. -/
structure FileId where
  /-- The number that the host gave to the file. -/
  raw : UInt32
  deriving DecidableEq, Repr

namespace FileId

/-- The name of a file in messages. -/
def label (f : FileId) : String :=
  "file#" ++ toString f.raw

instance : ToString FileId := ⟨label⟩

/-- Files are in the order of their numbers. -/
instance : Ord FileId := ⟨fun a b => compare a.raw b.raw⟩

instance : Std.TransOrd FileId where
  eq_swap {a b} := @Std.OrientedCmp.eq_swap UInt32 compare _ a.raw b.raw
  isLE_trans {a b c} := @Std.TransCmp.isLE_trans UInt32 compare _ a.raw b.raw c.raw

instance : Std.LawfulEqOrd FileId where
  compare_self {a} := @Std.ReflCmp.compare_self UInt32 compare _ a.raw
  eq_of_compare {a b} h := by
    -- Two files that compare equal have equal numbers, and a file is its number.
    have hraw : a.raw = b.raw := @Std.LawfulEqCmp.eq_of_compare UInt32 compare _ a.raw b.raw h
    cases a
    cases b
    exact congrArg FileId.mk hraw

end FileId

end PerlOutline.Source
