/-!
# Flags of declarations

How a declaration was introduced and whether it stands outside every block. Persisted stubs hold
the flags as a number with one bit for each.
-/

namespace PerlOutline.Stub

/-- What is known of the scope of a declaration. -/
structure Flags where
  /-- Visible in its block only, as `my` and `state` introduce it. -/
  lexical : Bool
  /-- A name of the package, as `our` introduces it. -/
  package : Bool
  /-- A saved value, as `local` introduces it. -/
  localized : Bool
  /-- Initialised once, as `state` introduces it. -/
  state : Bool
  /-- Declared outside every block. -/
  fileScope : Bool
  deriving DecidableEq, Repr

namespace Flags

/-- No flags. -/
def empty : Flags :=
  ⟨false, false, false, false, false⟩

/-- The flags as a number below 32. -/
def bits (f : Flags) : Nat :=
  f.lexical.toNat + 2 * f.package.toNat + 4 * f.localized.toNat + 8 * f.state.toNat +
    16 * f.fileScope.toNat

/-- The flags that a number holds, if it has no other bits. -/
def ofBits? (n : Nat) : Option Flags :=
  if n < 32 then
    some ⟨n.testBit 0, n.testBit 1, n.testBit 2, n.testBit 3, n.testBit 4⟩
  else none

/-- The flags of both. -/
def union (f g : Flags) : Flags where
  lexical := f.lexical || g.lexical
  package := f.package || g.package
  localized := f.localized || g.localized
  state := f.state || g.state
  fileScope := f.fileScope || g.fileScope

/-- Whether the first has each flag of the second. -/
def contains (f g : Flags) : Bool :=
  f.union g == f

/-- Whether there are no flags. -/
def isEmpty (f : Flags) : Bool :=
  f == empty

/-! ## Numbers below 32 are exactly the flags -/

/-- Five flags give the numbers below 32. -/
theorem bits_lt (f : Flags) : f.bits < 32 := by
  rcases f with ⟨a, b, c, d, e⟩
  cases a <;> cases b <;> cases c <;> cases d <;> cases e <;> decide

/-- The flags come back from their number. -/
@[simp] theorem ofBits?_bits (f : Flags) : ofBits? f.bits = some f := by
  rcases f with ⟨a, b, c, d, e⟩
  cases a <;> cases b <;> cases c <;> cases d <;> cases e <;> rfl

end Flags

end PerlOutline.Stub
