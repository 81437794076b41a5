import PerlOutline.Syntax.Kind

/-!
# Kinds of declarations

The five kinds of declarations that have stubs. Tags are what persisted stubs hold, so they never
change.
-/

namespace PerlOutline.Stub

open PerlOutline.Syntax (Kind)

/-- What a declaration declares. -/
inductive DeclarationKind where
  | scalar
  | array
  | hash
  | sub
  | package
  deriving DecidableEq, Repr

/-- Name of an index of stubs. -/
structure IndexKey where
  /-- The name itself. -/
  name : String
  deriving DecidableEq, Repr

namespace DeclarationKind

/-- All kinds in the order of their tags. -/
def all : List DeclarationKind :=
  [.scalar, .array, .hash, .sub, .package]

/-- The number that stands for a kind in persisted stubs. -/
def tag : DeclarationKind → Nat
  | .scalar => 1
  | .array => 2
  | .hash => 3
  | .sub => 4
  | .package => 5

/-- The kind with the given tag, if there is one. -/
def ofTag? (tag : Nat) : Option DeclarationKind :=
  all.find? (·.tag == tag)

/-- What a kind is called in messages. -/
def label : DeclarationKind → String
  | .scalar => "scalar variable"
  | .array => "array variable"
  | .hash => "hash variable"
  | .sub => "sub definition"
  | .package => "package"

/-- The index in which stubs of a kind are usually filed. -/
def indexKey : DeclarationKind → IndexKey
  | .scalar => ⟨"perl.scalar"⟩
  | .array => ⟨"perl.array"⟩
  | .hash => ⟨"perl.hash"⟩
  | .sub => ⟨"perl.sub"⟩
  | .package => ⟨"perl.package"⟩

/-- The kind of the nodes that declare what the kind says. -/
def nodeKind : DeclarationKind → Kind
  | .scalar => .scalarVariable
  | .array => .arrayVariable
  | .hash => .hashVariable
  | .sub => .subDefinition
  | .package => .packageStatement

/-- What nodes of a kind declare, if they can. -/
def ofNodeKind? (kind : Kind) : Option DeclarationKind :=
  all.find? (·.nodeKind == kind)

/-! ## Tags and node kinds name one kind each -/

/-- The list has all kinds. -/
theorem mem_all (k : DeclarationKind) : k ∈ all := by
  cases k <;> decide

@[simp] theorem ofTag?_tag (k : DeclarationKind) : ofTag? k.tag = some k := by
  cases k <;> rfl

/-- A tag stands for no other kind. -/
theorem tag_of_ofTag? {t : Nat} {k : DeclarationKind} (h : ofTag? t = some k) : k.tag = t := by
  simpa using List.find?_some h

@[simp] theorem ofNodeKind?_nodeKind (k : DeclarationKind) : ofNodeKind? k.nodeKind = some k := by
  cases k <;> rfl

/-- Nodes of a kind declare nothing else. -/
theorem nodeKind_of_ofNodeKind? {kind : Kind} {k : DeclarationKind}
    (h : ofNodeKind? kind = some k) : k.nodeKind = kind := by
  simpa using List.find?_some h

end DeclarationKind

end PerlOutline.Stub
