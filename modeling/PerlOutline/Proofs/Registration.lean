import Mathlib.Data.List.Nodup
import PerlOutline.Proofs.Indexing

/-!
# What is found under a registered key

Several keys can be registered for one kind of declaration, but stubs are filed under the first of
them alone. So a key finds all stubs of its kind or none at all, and which of the two depends on
the order of registration only.

## Layers
- **Registering** pairs one after the other: which kind a key stands for, and under which key a
  kind is filed.
- **`Enumerates`**: a list of what is committed, in order.
- **Lookups** under registered keys, and the registries in which every key finds its stubs.
-/

namespace PerlOutline.Index

open PerlOutline (Stub)
open PerlOutline.Source (FileId)
open PerlOutline.Stub (DeclarationKind IndexKey)

/-! ## Registering -/

namespace Registry

variable {r r' : Registry} {key : IndexKey} {kind : DeclarationKind}

/-- What it does to register a key. -/
theorem register_cases (registered : r.register key kind = .ok r') :
    (r.kindFor? key = some kind ∧ r' = r) ∨
      (r.kindFor? key = none ∧ r' = ⟨r.entries ++ [(key, kind)]⟩) := by
  unfold register at registered
  cases known : r.kindFor? key with
  | none =>
    rw [known] at registered
    exact .inr ⟨rfl, (Except.ok.inj registered).symm⟩
  | some existing =>
    rw [known] at registered
    by_cases same : existing = kind
    · rw [same] at registered ⊢
      simp only [if_pos] at registered
      exact .inl ⟨rfl, (Except.ok.inj registered).symm⟩
    · simp [same] at registered

theorem mem_of_kindFor? (h : r.kindFor? key = some kind) : (key, kind) ∈ r.entries := by
  obtain ⟨earlier, later, entries, -⟩ := List.lookup_eq_some_iff.mp h
  rw [entries]
  exact List.mem_append_right earlier (List.mem_cons_self ..)

theorem mem_of_keyFor? (h : r.keyFor? kind = some key) : (key, kind) ∈ r.entries := by
  obtain ⟨⟨key', kind'⟩, found, same⟩ := Option.map_eq_some_iff.mp h
  obtain rfl : kind' = kind := by simpa using List.find?_some found
  obtain rfl : key' = key := same
  exact List.mem_of_find?_eq_some found

theorem isSome_keyFor? (h : (key, kind) ∈ r.entries) : (r.keyFor? kind).isSome := by
  rw [keyFor?, Option.isSome_map, List.find?_isSome]
  exact ⟨(key, kind), h, beq_self_eq_true kind⟩

/-- A key that is new stands for the kind, and one that was known keeps its kind. -/
theorem kindFor?_register (registered : r.register key kind = .ok r') (other : IndexKey) :
    r'.kindFor? other = (r.kindFor? other).or (if other = key then some kind else none) := by
  rcases register_cases registered with ⟨known, rfl⟩ | ⟨-, rfl⟩
  · by_cases same : other = key
    · rw [same, known, Option.some_or]
    · rw [if_neg same, Option.or_none]
  · simp only [kindFor?, List.lookup_append, List.lookup_cons, List.lookup_nil]
    by_cases same : other = key
    · simp [same]
    · simp [same, beq_false_of_ne same]

/-- A kind that was filed already is filed as before. -/
theorem keyFor?_register (registered : r.register key kind = .ok r') (other : DeclarationKind) :
    r'.keyFor? other = (r.keyFor? other).or (if kind = other then some key else none) := by
  rcases register_cases registered with ⟨known, rfl⟩ | ⟨-, rfl⟩
  · by_cases same : kind = other
    · -- the pair is there already, so the kind has a key
      have filed : (r'.keyFor? other).isSome := same ▸ isSome_keyFor? (mem_of_kindFor? known)
      obtain ⟨first, found⟩ := Option.isSome_iff_exists.mp filed
      rw [found, Option.some_or]
    · rw [if_neg same, Option.or_none]
  · simp only [keyFor?, List.find?_append, Option.map_or, List.find?_cons, List.find?_nil]
    by_cases same : kind = other
    · simp [same]
    · simp [same, beq_false_of_ne same]

/-- No key is registered twice. -/
def Distinct (r : Registry) : Prop :=
  r.keys.Nodup

theorem Distinct.register (h : r.Distinct) (registered : r.register key kind = .ok r') :
    r'.Distinct := by
  rcases register_cases registered with ⟨-, rfl⟩ | ⟨unknown, rfl⟩
  · exact h
  · -- a key that stands for no kind is in no entry
    have fresh : ∀ p ∈ r.entries, p.1 ≠ key := by
      intro p member same
      simpa [same] using List.lookup_eq_none_iff.mp unknown p member
    simp only [Distinct, keys, List.map_append, List.map_cons, List.map_nil]
    refine List.nodup_append.mpr ⟨h, List.nodup_singleton key, ?_⟩
    intro known member last single
    obtain ⟨p, hp, rfl⟩ := List.mem_map.mp member
    rw [List.mem_singleton.mp single]
    exact fresh p hp

/-- A key stands for the kind with which it is registered. -/
theorem Distinct.kindFor? (h : r.Distinct) (member : (key, kind) ∈ r.entries) :
    r.kindFor? key = some kind := by
  obtain ⟨earlier, later, entries⟩ := List.append_of_mem member
  refine List.lookup_eq_some_iff.mpr ⟨earlier, later, entries, ?_⟩
  intro p hp
  simp only [Distinct, keys, entries, List.map_append, List.map_cons] at h
  have different := (List.nodup_append.mp h).2.2 p.1 (List.mem_map_of_mem hp) key
    (List.mem_cons_self ..)
  simpa using Ne.symm different

/-- What pairs add to a registry: of two pairs with the same key or the same kind the first
counts. -/
theorem registerAll {pairs : List (IndexKey × DeclarationKind)}
    (built : pairs.foldlM (fun r pair => r.register pair.1 pair.2) r = .ok r')
    (distinct : r.Distinct) :
    r'.Distinct ∧
      (∀ key, r'.kindFor? key = (r.kindFor? key).or (pairs.lookup key)) ∧
      (∀ kind, r'.keyFor? kind =
        (r.keyFor? kind).or ((pairs.find? (·.2 = kind)).map (·.1))) := by
  -- Induction on the pairs. What the registry has comes before the first pair, and that before the
  -- others, so one step only moves the brackets of `or`.
  induction pairs generalizing r with
  | nil =>
    obtain rfl : r = r' := Except.ok.inj built
    refine ⟨distinct, ?_, ?_⟩
    · intro key
      rw [List.lookup_nil, Option.or_none]
    · intro kind
      rw [List.find?_nil, Option.map_none, Option.or_none]
  | cons pair pairs ih =>
    rw [List.foldlM_cons] at built
    cases registered : r.register pair.1 pair.2 with
    | error refused => rw [registered] at built; exact absurd built (by rintro ⟨⟩)
    | ok next =>
      rw [registered] at built
      obtain ⟨distinct', kinds, keys⟩ := ih built (distinct.register registered)
      refine ⟨distinct', ?_, ?_⟩
      · intro key
        rw [kinds, kindFor?_register registered, Option.or_assoc, List.lookup_cons]
        by_cases same : key = pair.1
        · simp [same]
        · simp [same, beq_false_of_ne same]
      · intro kind
        rw [keys, keyFor?_register registered, Option.or_assoc, List.find?_cons]
        by_cases same : pair.2 = kind
        · simp [same]
        · simp [same]

theorem of_ofList {pairs : List (IndexKey × DeclarationKind)} (built : ofList pairs = .ok r) :
    r.Distinct ∧ (∀ key, r.kindFor? key = pairs.lookup key) ∧
      (∀ kind, r.keyFor? kind = (pairs.find? (·.2 = kind)).map (·.1)) := by
  have result := registerAll built List.nodup_nil
  simpa only [empty, Registry.kindFor?, keyFor?, List.lookup_nil, List.find?_nil, Option.map_none,
    Option.none_or] using result

/-- Under a key there are stubs of its kind only, and these if it is the first key of the kind. -/
theorem Distinct.files_iff (h : r.Distinct) (stands : r.kindFor? key = some kind) (name : String)
    (stub : Stub) :
    r.Files key name stub ↔ r.keyFor? kind = some key ∧ stub.kind = kind ∧ stub.name = name := by
  constructor
  · rintro ⟨filed, named⟩
    -- The key stands for the kind of every stub that is filed under it, and for one kind only.
    have standsToo := h.kindFor? (mem_of_keyFor? filed)
    obtain rfl : stub.kind = kind := Option.some.inj (standsToo.symm.trans stands)
    exact ⟨filed, rfl, named⟩
  · rintro ⟨first, rfl, named⟩
    exact ⟨first, named⟩

/-- Every kind has one key at most if each key is the one under which its kind is filed. -/
theorem Distinct.nodup_kinds_iff (h : r.Distinct) :
    (r.entries.map (·.2)).Nodup ↔
      ∀ key kind, r.kindFor? key = some kind → r.keyFor? kind = some key := by
  constructor
  · intro single key kind stands
    obtain ⟨earlier, later, entries⟩ := List.append_of_mem (mem_of_kindFor? stands)
    simp only [entries, List.map_append, List.map_cons] at single
    -- no pair before this one has its kind
    have absent : earlier.find? (·.2 == kind) = none := by
      rw [List.find?_eq_none]
      intro p hp same
      exact (List.nodup_append.mp single).2.2 p.2 (List.mem_map_of_mem hp) kind
        (List.mem_cons_self ..) (by simpa using same)
    rw [keyFor?, entries, List.find?_append, absent, Option.none_or, List.find?_cons]
    simp
  · intro first
    -- The kinds are told apart by the keys under which they are filed.
    have filed : (r.entries.map (·.2)).map r.keyFor? = r.keys.map some := by
      rw [keys, List.map_map, List.map_map]
      apply List.map_congr_left
      rintro ⟨key, kind⟩ member
      exact first key kind (h.kindFor? member)
    apply List.Nodup.of_map r.keyFor?
    rw [filed]
    exact h.map fun _ _ => Option.some.inj

end Registry

/-! ## Enumerations -/

/-- Found in an earlier file, or earlier in the same file. -/
def FoundStub.Before (found later : FoundStub) : Prop :=
  compare found.file later.file = .lt ∨ found.file = later.file ∧ found.position < later.position

/-- The stub is committed: it has this position among the committed stubs of the file. -/
def Store.Commits (s : Store) (found : FoundStub) : Prop :=
  ∃ set, s.fileStubs? found.file = some set ∧ set.stubs[found.position]? = some found.stub

/-- The committed stubs with a property, all of them and no others, by file and then in source
order. -/
structure Store.Enumerates (s : Store) (wanted : Stub → Prop) (found : List FoundStub) :
    Prop where
  exact : ∀ f, f ∈ found ↔ s.Commits f ∧ wanted f.stub
  ordered : found.Pairwise FoundStub.Before

namespace StubSet

variable {set : StubSet} {r : Registry} {key : IndexKey} {name : String}

theorem mem_scan {position : Nat} {stub : Stub} :
    (position, stub) ∈ set.scan r key name ↔
      set.stubs[position]? = some stub ∧ r.Files key name stub := by
  simp only [scan, List.mem_map, List.mem_filter, decide_eq_true_eq, Prod.mk.injEq, Prod.exists]
  constructor
  · rintro ⟨stub', position', ⟨member, filed⟩, rfl, rfl⟩
    exact ⟨List.mem_zipIdx_iff_getElem?.mp member, filed⟩
  · rintro ⟨here, filed⟩
    exact ⟨stub, position, ⟨List.mem_zipIdx_iff_getElem?.mpr here, filed⟩, rfl, rfl⟩

theorem scan_ascending : (set.scan r key name).Pairwise (·.1 < ·.1) := by
  have positions : (set.stubs.zipIdx.map (·.2)).Pairwise (· < ·) := by
    rw [List.zipIdx_map_snd]
    exact List.pairwise_lt_range'
  exact List.pairwise_map.mpr ((List.pairwise_map.mp positions).filter _)

end StubSet

namespace Store

variable {s : Store} {wanted wanted' : Stub → Prop} {found : List FoundStub}

theorem Enumerates.congr (h : s.Enumerates wanted found)
    (same : ∀ stub, wanted stub ↔ wanted' stub) : s.Enumerates wanted' found := by
  refine ⟨?_, h.ordered⟩
  intro f
  rw [h.exact, same]

/-- Going through all files and their stubs gives the stubs under a key in order. -/
theorem enumerates_scan (s : Store) (key : IndexKey) (name : String) :
    s.Enumerates (s.registry.Files key name) (s.scan key name) where
  exact f := by
    simp only [scan, List.mem_flatMap, List.mem_map, Prod.exists]
    constructor
    · rintro ⟨file, -, position, stub, member, rfl⟩
      cases committed : s.fileStubs? file with
      | none => simp [committed] at member
      | some set =>
        rw [committed, Option.elim_some] at member
        obtain ⟨here, filed⟩ := StubSet.mem_scan.mp member
        exact ⟨⟨set, committed, here⟩, filed⟩
    · rintro ⟨⟨set, committed, here⟩, filed⟩
      refine ⟨f.file, ?_, f.position, f.stub, ?_, rfl⟩
      · exact mem_fileIds_of_committed committed
      · rw [committed, Option.elim_some]
        exact StubSet.mem_scan.mpr ⟨here, filed⟩
  ordered := by
    -- Within a file the positions ascend, and from file to file the files do.
    refine List.pairwise_flatMap.mpr ⟨?_, ?_⟩
    · intro file _
      refine List.pairwise_map.mpr ?_
      cases s.fileStubs? file with
      | none => exact List.Pairwise.nil
      | some set => exact StubSet.scan_ascending.imp fun lt => .inr ⟨rfl, lt⟩
    · refine s.fileIds_ascending.imp ?_
      intro file later lt f hf g hg
      obtain ⟨_, _, rfl⟩ := List.mem_map.mp hf
      obtain ⟨_, _, rfl⟩ := List.mem_map.mp hg
      exact .inl lt

/-- A stub of a kind that has a key can be committed. -/
theorem exists_commits {r : Registry} (stub : Stub) (filed : (r.keyFor? stub.kind).isSome)
    (file : FileId) : ∃ requests, ((empty r).run requests).Commits ⟨file, 0, stub⟩ := by
  have unfiled : r.unfiled? [stub] = none := by
    obtain ⟨key, found⟩ := Option.isSome_iff_exists.mp filed
    simp [Registry.unfiled?, found]
  refine ⟨[.commit file 0 [stub]], ?_⟩
  simp only [run, List.foldl_cons, List.foldl_nil, perform, snd_answer]
  rcases (empty r).commit_cases file 0 [stub] with
    ⟨refused, -, -, why⟩ | ⟨set, held, -, replaces, -⟩
  · -- nothing is committed yet that could be newer
    have newest : (empty r).committedVersion? file = none := by
      simp [committedVersion?, Entry.committedVersion?, Entry.blank]
    have granted : (empty r).registry.unfiled? [stub] = none := unfiled
    have refusal := why (.inl granted)
    rw [Registry.refusal?, newest, granted] at refusal
    simp at refusal
  · refine ⟨set, ?_, ?_⟩
    · rw [replaces.stubs, if_pos rfl]
    · rw [(StubSet.wellFiled_of_ofStubs held).2.2]
      rfl

end Store

/-! ## Lookups under registered keys -/

namespace Registry

variable {r : Registry} {key : IndexKey} {kind : DeclarationKind}

/-- Whatever was requested before, a lookup under the key finds all stubs of the kind that have
the name, and no others. -/
def Serves (r : Registry) (key : IndexKey) (kind : DeclarationKind) : Prop :=
  ∀ (requests : List Operation) (name : String),
    let s := (Store.empty r).run requests
    ∃ found, s.lookup key name = .ok found ∧
      s.Enumerates (fun stub => stub.kind = kind ∧ stub.name = name) found

theorem Distinct.lookup (h : r.Distinct) (stands : r.kindFor? key = some kind)
    (requests : List Operation) (name : String) :
    let s := (Store.empty r).run requests
    ∃ found, s.lookup key name = .ok found ∧
      s.Enumerates
        (fun stub => r.keyFor? kind = some key ∧ stub.kind = kind ∧ stub.name = name) found := by
  intro s
  have unchanged : s.registry = r := Store.registry_run (Store.empty r) requests
  have known : r.contains key = true := by rw [contains, stands, Option.isSome_some]
  refine ⟨s.scan key name, ?_, ?_⟩
  · rw [(Store.lookup_exact r requests).1 key name, if_pos known]
  · refine (s.enumerates_scan key name).congr ?_
    intro stub
    rw [unchanged]
    exact h.files_iff stands name stub

/-- A key finds the stubs of its kind if they are filed under it, and else not even one of them. -/
theorem Distinct.serves_iff (h : r.Distinct) (stands : r.kindFor? key = some kind) :
    r.Serves key kind ↔ r.keyFor? kind = some key := by
  constructor
  · intro serves
    -- A stub of the kind can be committed, and whoever finds it has it filed under the key.
    let stub : Stub := ⟨kind, "", "", .empty⟩
    obtain ⟨requests, committed⟩ :=
      Store.exists_commits stub (isSome_keyFor? (mem_of_kindFor? stands)) ⟨0⟩
    obtain ⟨found, answer, all⟩ := serves requests ""
    obtain ⟨found', answer', filed⟩ := h.lookup stands requests ""
    obtain rfl : found = found' := Except.ok.inj (answer.symm.trans answer')
    have member := (all.exact ⟨⟨0⟩, 0, stub⟩).mpr ⟨committed, rfl, rfl⟩
    exact ((filed.exact _).mp member).2.1
  · intro first requests name
    obtain ⟨found, answer, filed⟩ := h.lookup stands requests name
    refine ⟨found, answer, filed.congr ?_⟩
    intro stub
    simp only [first, true_and]

/-- In a registry of pairs that were registered one after the other, a key stands for the kind of
its first pair, and a kind is filed under the key of its first pair. A lookup under a registered
key finds, by file and then in source order, all committed stubs of its kind that have the name if
the kind is filed under this key, and none if not. So all keys find the stubs of their kinds if and
only if no kind has two keys. -/
theorem lookup_of_registered {pairs : List (IndexKey × DeclarationKind)}
    (built : ofList pairs = .ok r) :
    (∀ key, r.kindFor? key = pairs.lookup key) ∧
    (∀ kind, r.keyFor? kind = (pairs.find? (·.2 = kind)).map (·.1)) ∧
    (∀ key kind, r.kindFor? key = some kind → ∀ (requests : List Operation) (name : String),
      let s := (Store.empty r).run requests
      ∃ found, s.lookup key name = .ok found ∧
        s.Enumerates
          (fun stub => r.keyFor? kind = some key ∧ stub.kind = kind ∧ stub.name = name) found) ∧
    (∀ key kind, r.kindFor? key = some kind →
      (r.Serves key kind ↔ r.keyFor? kind = some key)) ∧
    ((∀ key kind, r.kindFor? key = some kind → r.Serves key kind) ↔
      (r.entries.map (·.2)).Nodup) := by
  obtain ⟨distinct, kinds, keys⟩ := of_ofList built
  refine ⟨kinds, keys, fun _ _ => distinct.lookup, fun _ _ => distinct.serves_iff, ?_⟩
  rw [distinct.nodup_kinds_iff]
  constructor
  · intro serve key kind stands
    exact (distinct.serves_iff stands).mp (serve key kind stands)
  · intro first key kind stands
    exact (distinct.serves_iff stands).mpr (first key kind stands)

/-- Of two keys for scalars the first finds them all, and the second finds nothing. -/
theorem lookup_of_registered_second_key :
    let pairs := [(⟨"perl.scalar"⟩, .scalar), (⟨"perl.array"⟩, .scalar)]
    let r : Registry := ⟨pairs⟩
    ofList pairs = .ok r ∧ r.Serves ⟨"perl.scalar"⟩ .scalar ∧ ¬ r.Serves ⟨"perl.array"⟩ .scalar ∧
      ∀ (requests : List Operation) (name : String),
        ((Store.empty r).run requests).lookup ⟨"perl.array"⟩ name = .ok [] := by
  intro pairs r
  have built : ofList pairs = .ok r := by decide
  have second : r.kindFor? ⟨"perl.array"⟩ = some .scalar := by decide
  obtain ⟨-, -, lookups, serves_iff, -⟩ := lookup_of_registered built
  refine ⟨built, ?_, ?_, ?_⟩
  · exact (serves_iff ⟨"perl.scalar"⟩ .scalar (by decide)).mpr (by decide)
  · rw [serves_iff _ _ second]
    decide
  · intro requests name
    obtain ⟨found, answer, filed⟩ := lookups _ _ second requests name
    rw [answer]
    refine congrArg Except.ok (List.eq_nil_iff_forall_not_mem.mpr ?_)
    intro f member
    exact absurd ((filed.exact f).mp member).2.1 (by decide)

end Registry

end PerlOutline.Index
