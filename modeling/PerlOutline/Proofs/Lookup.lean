import PerlOutline.Proofs.NameTable
import PerlOutline.Proofs.Operation

/-!
# A lookup is a scan

The name table and the positions by name only save work: a lookup finds what one finds by going
through all files and all their stubs. Every operation keeps table and stubs in step.

## Layers
- **Scanning**: what a lookup stands for.
- **One set**: the positions by name are those of a scan.
- **`Consistent`**: table and committed stubs agree.
- **Operations** keep stores consistent.
- **Lookups** in consistent stores.
-/

namespace PerlOutline.Index

open PerlOutline (Stub)
open PerlOutline.Source (FileId)
open PerlOutline.Stub (DeclarationKind IndexKey)

/-! ## Scanning -/

/-- The registry files the stub under the key, and the stub has the name. -/
def Registry.Files (r : Registry) (key : IndexKey) (name : String) (stub : Stub) : Prop :=
  r.keyFor? stub.kind = some key ∧ stub.name = name

instance (r : Registry) (key : IndexKey) (name : String) (stub : Stub) :
    Decidable (r.Files key name stub) :=
  inferInstanceAs (Decidable (_ ∧ _))

/-- The stubs of a name under a key with their positions, found by going through all stubs. -/
def StubSet.scan (set : StubSet) (r : Registry) (key : IndexKey) (name : String) :
    List (Nat × Stub) :=
  (set.stubs.zipIdx.filter fun p => r.Files key name p.1).map fun p => (p.2, p.1)

/-- The stubs of a name under a key, found by going through all known files and their stubs. -/
def Store.scan (s : Store) (key : IndexKey) (name : String) : List FoundStub :=
  s.fileIds.flatMap fun file =>
    ((s.fileStubs? file).elim [] (·.scan s.registry key name)).map fun found =>
      ⟨file, found.1, found.2⟩

/-! ## One set -/

namespace StubSet

/-- The positions under a name are those at which it stands among the names. -/
theorem getElem?_positions (start : Nat) (names : List NameKey) (name : NameKey) :
    (positions start names)[name]?.getD [] =
      ((names.zipIdx start).filter fun p => p.1 = name).map (·.2) := by
  induction names generalizing start with
  | nil => simp [positions]
  | cons first names ih =>
    simp only [positions, Std.ExtTreeMap.getElem?_alter, Std.LawfulEqOrd.compare_eq_iff_eq,
      List.zipIdx_cons, List.filter_cons]
    -- The first position is put before the later ones of the same name.
    by_cases same : first = name
    · subst same
      simp [ih]
    · simp [same, ih]

/-- A name has positions just if it is among the names. -/
theorem mem_positions {start : Nat} {names : List NameKey} {name : NameKey} :
    name ∈ positions start names ↔ name ∈ names := by
  induction names generalizing start with
  | nil => simp [positions]
  | cons first names ih =>
    simp only [positions, Std.ExtTreeMap.mem_alter, Std.LawfulEqOrd.compare_eq_iff_eq,
      List.mem_cons, ih]
    by_cases same : first = name
    · simp [same]
    · simp [same, Ne.symm same]

variable {r : Registry}

/-- The key of a stub is that under which the registry files it, with its name. -/
theorem nameKey_eq_ok {stub : Stub} {name : NameKey} :
    nameKey r stub = .ok name ↔ r.Files name.key name.name stub := by
  simp only [nameKey, Registry.Files]
  cases r.keyFor? stub.kind with
  | none => simp
  | some key => cases name; simp

/-- Stubs have keys one by one. -/
theorem mapM_nameKey_cons {stub : Stub} {stubs : List Stub} {names : List NameKey}
    (h : (stub :: stubs).mapM (nameKey r) = .ok names) :
    ∃ name rest, nameKey r stub = .ok name ∧ stubs.mapM (nameKey r) = .ok rest ∧
      names = name :: rest := by
  rw [List.mapM_cons] at h
  cases hname : nameKey r stub with
  | error kind => rw [hname] at h; exact absurd h (by rintro ⟨⟩)
  | ok name =>
    cases hrest : stubs.mapM (nameKey r) with
    | error kind => rw [hname, hrest] at h; exact absurd h (by rintro ⟨⟩)
    | ok rest =>
      rw [hname, hrest] at h
      exact ⟨name, rest, rfl, rfl, (Except.ok.inj h).symm⟩

/-- A name is at the same positions as the stubs that are filed under it. -/
theorem filter_names_eq {stubs : List Stub} {names : List NameKey} {key : IndexKey}
    {name : String} (h : stubs.mapM (nameKey r) = .ok names) (start : Nat) :
    ((names.zipIdx start).filter fun p => p.1 = ⟨key, name⟩).map (·.2) =
      ((stubs.zipIdx start).filter fun p => r.Files key name p.1).map (·.2) := by
  induction stubs generalizing names start with
  | nil => rw [← Except.ok.inj h]; rfl
  | cons stub stubs ih =>
    obtain ⟨first, rest, hfirst, hrest, rfl⟩ := mapM_nameKey_cons h
    have later := ih hrest (start + 1)
    -- So the two filters keep or drop the first entry together.
    have agree : first = ⟨key, name⟩ ↔ r.Files key name stub := by
      constructor
      · rintro rfl
        exact nameKey_eq_ok.mp hfirst
      · intro filed
        have same : nameKey r stub = .ok ⟨key, name⟩ := nameKey_eq_ok.mpr filed
        exact Except.ok.inj (hfirst.symm.trans same)
    simp only [List.zipIdx_cons, List.filter_cons, agree]
    by_cases filed : r.Files key name stub
    · simp [filed, later]
    · simp [filed, later]

/-- Looking stubs up by their positions gives them back. -/
theorem filterMap_positions (stubs : List Stub) (found : List (Stub × Nat))
    (h : ∀ p ∈ found, p ∈ stubs.zipIdx) :
    ((found.map (·.2)).filterMap fun i => stubs[i]?.map fun stub => (i, stub)) =
      found.map fun p => (p.2, p.1) := by
  induction found with
  | nil => rfl
  | cons p found ih =>
    have here : stubs[p.2]? = some p.1 :=
      List.mem_zipIdx_iff_getElem?.mp (h p (List.mem_cons_self ..))
    have later := ih fun q hq => h q (List.mem_cons_of_mem _ hq)
    simp only [List.map_cons, List.filterMap_cons, here, Option.map_some, later]

/-- The set is what filing its stubs gives. -/
def WellFiled (r : Registry) (set : StubSet) : Prop :=
  ofStubs r set.version set.stubs = .ok set

variable {set : StubSet}

/-- Filed stubs are filed well, and nothing else about them is changed. -/
theorem wellFiled_of_ofStubs {version : Version} {stubs : List Stub}
    (h : ofStubs r version stubs = .ok set) :
    set.WellFiled r ∧ set.version = version ∧ set.stubs = stubs := by
  simp only [ofStubs] at h
  cases hnames : stubs.mapM (nameKey r) with
  | error kind => rw [hnames] at h; exact absurd h (by rintro ⟨⟩)
  | ok names =>
    rw [hnames] at h
    obtain rfl := Except.ok.inj h
    exact ⟨by simp only [WellFiled, ofStubs, hnames]; rfl, rfl, rfl⟩

/-- The positions of well filed stubs are those of their names. -/
theorem WellFiled.names (h : set.WellFiled r) :
    ∃ names, set.stubs.mapM (nameKey r) = .ok names ∧ set.byName = positions 0 names := by
  simp only [WellFiled, ofStubs] at h
  cases hnames : set.stubs.mapM (nameKey r) with
  | error kind => rw [hnames] at h; exact absurd h (by rintro ⟨⟩)
  | ok names =>
    rw [hnames] at h
    exact ⟨names, rfl, (congrArg StubSet.byName (Except.ok.inj h)).symm⟩

/-- Stubs can stand for another version. -/
theorem WellFiled.restamp (h : set.WellFiled r) (version : Version) :
    ({ set with version := version } : StubSet).WellFiled r := by
  obtain ⟨names, hnames, hbyName⟩ := h.names
  simp only [WellFiled, ofStubs, hnames, hbyName]
  rfl

/-- The positions by name find what a scan of the stubs finds. -/
theorem WellFiled.matching_eq_scan (h : set.WellFiled r) (key : IndexKey) (name : String) :
    set.matching ⟨key, name⟩ = set.scan r key name := by
  obtain ⟨names, hnames, hbyName⟩ := h.names
  rw [matching, hbyName, getElem?_positions, filter_names_eq hnames, scan]
  exact filterMap_positions set.stubs _ fun p hp => (List.mem_filter.mp hp).1

/-- A well filed set holds a name just if one of its stubs is filed under it. -/
theorem WellFiled.holds_iff (h : set.WellFiled r) (name : NameKey) :
    set.holds name = true ↔ ∃ stub ∈ set.stubs, r.Files name.key name.name stub := by
  obtain ⟨names, hnames, hbyName⟩ := h.names
  rw [holds, hbyName, Std.ExtTreeMap.contains_iff_mem, mem_positions]
  -- The names were computed from the stubs in order, so the induction goes over both.
  clear hbyName
  generalize set.stubs = stubs at hnames
  induction stubs generalizing names with
  | nil => rw [← Except.ok.inj hnames]; simp
  | cons stub stubs ih =>
    obtain ⟨first, rest, hfirst, hrest, rfl⟩ := mapM_nameKey_cons hnames
    have here : name = first ↔ r.Files name.key name.name stub := by
      rw [← nameKey_eq_ok, hfirst, Except.ok.injEq, eq_comm]
    simp only [List.mem_cons, ih rest hrest, here, exists_eq_or_imp]

/-- The names of a set are those that it holds. -/
theorem mem_names {name : NameKey} : name ∈ set.names ↔ set.holds name = true := by
  rw [names, holds, Std.ExtTreeMap.mem_keys, Std.ExtTreeMap.contains_iff_mem]

end StubSet

/-! ## Table and stubs in step -/

namespace Entry

/-- The names of an entry are those that it holds. -/
theorem mem_names {e : Entry} {name : NameKey} : name ∈ e.names ↔ e.holds name = true := by
  simp only [names, holds]
  cases e.committed? with
  | none => simp
  | some set => simpa using StubSet.mem_names

/-- After stubs are installed the entry holds their names. -/
@[simp] theorem holds_install (e : Entry) (set : StubSet) (name : NameKey) :
    (e.install set).holds name = set.holds name := rfl

end Entry

namespace Store

/-- The name table and the committed stubs agree. -/
structure Consistent (s : Store) : Prop where
  /-- Committed stubs are filed under the keys of the registry. -/
  filed : ∀ file set, s.fileStubs? file = some set → set.WellFiled s.registry
  /-- The table lists the files whose committed stubs have the name, and no others. -/
  listed : ∀ name file, s.names.Lists name file ↔ (s.entry file).holds name = true
  populated : s.names.Populated

/-- In a store without files nothing is listed and nothing is committed. -/
theorem consistent_empty (r : Registry) : (empty r).Consistent where
  filed file set h := by simp [fileStubs?, Entry.blank] at h
  listed name file := by
    rw [entry_empty]
    exact iff_of_false (NameTable.not_lists_empty name file) (by simp [Entry.holds, Entry.blank])
  populated := NameTable.populated_empty

variable {s : Store}

/-- A change that leaves the names of a file alone needs no change of the table. -/
theorem Consistent.change (h : s.Consistent) (file : FileId) (f : Entry → Entry)
    (hfiled : ∀ set, (f (s.entry file)).committed? = some set → set.WellFiled s.registry)
    (hholds : ∀ name, (f (s.entry file)).holds name = (s.entry file).holds name) :
    (s.change file f).Consistent where
  filed other set hset := by
    simp only [fileStubs?, entry_change] at hset
    split at hset
    · exact hfiled set hset
    · exact h.filed other set hset
  listed name other := by
    rw [names_change, h.listed, entry_change]
    split
    · next same => rw [hholds, same]
    · rfl
  populated := h.populated

/-- So does one that leaves the committed stubs alone. -/
theorem Consistent.change_same (h : s.Consistent) (file : FileId) (f : Entry → Entry)
    (same : (f (s.entry file)).committed? = (s.entry file).committed?) :
    (s.change file f).Consistent := by
  apply h.change file f
  · intro set hset
    exact h.filed file set (same.symm.trans hset)
  · intro name
    rw [Entry.holds, Entry.holds, same]

/-- To touch a file changes neither its names nor its stubs. -/
theorem Consistent.touch (h : s.Consistent) (file : FileId) : (s.touch file).Consistent :=
  h.change_same file id rfl

/-- The names that the old and the new stubs share are linked again and not unlinked. -/
theorem Consistent.install (h : s.Consistent) (file : FileId) {set : StubSet}
    (filed : set.WellFiled s.registry) : (s.install file set).Consistent where
  filed other found hfound := by
    simp only [fileStubs?, entry_install] at hfound
    split at hfound
    · rw [← Option.some.inj hfound]
      exact filed
    · exact h.filed other found hfound
  listed name other := by
    rw [names_install, entry_install, NameTable.lists_unlink, NameTable.lists_link, h.listed,
      List.mem_filter, Entry.mem_names, StubSet.mem_names]
    -- Of the file itself old names that are no new ones are dropped, and the new ones are listed.
    by_cases same : file = other
    · subst same
      cases (s.entry file).holds name <;> cases new : set.holds name <;> simp [new]
    · simp [same, Ne.symm same]
  populated := NameTable.populated_unlink (NameTable.populated_link h.populated _) _

/-- Without the names of a file the table lists the other files as before. -/
theorem Consistent.unlinkAll_lists (h : s.Consistent) (file : FileId) (name : NameKey)
    (other : FileId) :
    (s.unlinkAll file).names.Lists name other ↔
      file ≠ other ∧ (s.entry other).holds name = true := by
  simp only [unlinkAll, NameTable.lists_unlink, h.listed, Entry.mem_names]
  by_cases same : file = other
  · subst same
    simp
  · simp [same, Ne.symm same]

/-- A file whose names are taken out can be emptied. -/
theorem Consistent.reset (h : s.Consistent) (file : FileId) :
    ((s.unlinkAll file).change file Entry.reset).Consistent where
  filed other set hset := by
    simp only [fileStubs?, entry_change, entry_unlinkAll] at hset
    split at hset
    · simp [Entry.reset, Entry.blank] at hset
    · exact h.filed other set hset
  listed name other := by
    rw [names_change, h.unlinkAll_lists, entry_change, entry_unlinkAll, entry_unlinkAll]
    -- All old names of the file are unlinked, and nothing is committed any more.
    by_cases same : file = other
    · simp [same, Entry.reset, Entry.blank, Entry.holds]
    · simp [same]
  populated := NameTable.populated_unlink h.populated _

/-- A file can be forgotten. -/
theorem Consistent.remove (h : s.Consistent) (file : FileId) : (s.remove file).2.Consistent where
  filed other set hset := by
    rw [registry_remove]
    simp only [fileStubs?, entry_remove] at hset
    split at hset
    · simp [Entry.blank] at hset
    · exact h.filed other set hset
  listed name other := by
    rw [entry_remove]
    unfold Store.remove
    split
    · by_cases same : file = other
      · simp [h.unlinkAll_lists, same, Entry.holds, Entry.blank]
      · simp [h.unlinkAll_lists, same]
    · -- A file that is not known had no names to unlink.
      next unknown =>
      rw [h.listed]
      split
      · next same => rw [← same, entry_of_unknown unknown]
      · rfl
  populated := by
    unfold Store.remove
    split
    · exact NameTable.populated_unlink h.populated _
    · exact h.populated

/-! ## Operations -/

/-- Stubs come back from bytes only filed. -/
theorem wellFiled_of_restore {bytes : MessagePack.Bytes} {set : StubSet}
    (h : s.restore bytes = .ok set) : set.WellFiled s.registry := by
  simp only [Store.restore] at h
  cases held : Stub.FileStubs.decode bytes with
  | error cause => rw [held] at h; exact absurd h (by rintro ⟨⟩)
  | ok stubs =>
    rw [held] at h
    cases filed : StubSet.ofStubs s.registry stubs.version stubs.stubs with
    | error kind => simp [filed, bind, Except.bind] at h
    | ok restored =>
      simp only [filed, bind, Except.bind, pure, Except.pure, Except.ok.injEq] at h
      exact h ▸ (StubSet.wellFiled_of_ofStubs filed).1

/-- To begin changes no stubs. -/
theorem Consistent.begin (h : s.Consistent) (file : FileId) (version : Version) :
    (s.begin file version).2.Consistent := by
  have touched := h.touch file
  simp only [Store.begin]
  split
  · exact touched
  · exact touched.change_same file (·.begin version) rfl

/-- A commit is refused, or it installs stubs that were filed. -/
theorem Consistent.commit (h : s.Consistent) (file : FileId) (version : Version)
    (stubs : List Stub) : (s.commit file version stubs).2.Consistent := by
  simp only [Store.commit]
  split
  · exact h
  · next set hset =>
    have touched := h.touch file
    split
    · exact touched
    · exact touched.install file (StubSet.wellFiled_of_ofStubs hset).1

theorem Consistent.recommit (h : s.Consistent) (file : FileId) (expected version : Version) :
    (s.recommit file expected version).2.Consistent := by
  unfold Store.recommit
  split
  · exact h
  · next entry known =>
    -- The entry is that of a known file.
    have here : s.entry file = entry := by rw [Store.entry, known, Option.getD_some]
    split
    · exact h
    · split
      · exact h
      · next set committed =>
        have old : s.fileStubs? file = some set := by rw [fileStubs?, here, committed]
        split
        · -- the names stay, so the table is left as it is
          apply h.change file (·.install { set with version := version })
          · intro stamped hstamped
            rw [← Option.some.inj hstamped]
            exact (h.filed file set old).restamp version
          · intro name
            rw [Entry.holds_install, here, Entry.holds, committed]
            rfl
        · exact h

/-- A load is refused, installs filed stubs, or empties the entry after its names are gone. -/
theorem Consistent.load (h : s.Consistent) (file : FileId) (bytes : MessagePack.Bytes) :
    (s.load file bytes).2.Consistent := by
  have touched := h.touch file
  simp only [Store.load]
  split
  · next set restored =>
    split
    · exact touched
    · exact touched.install file (wellFiled_of_restore restored)
  · exact touched.reset file

/-- To give up a version changes no stubs. -/
theorem Consistent.cancel (h : s.Consistent) (file : FileId) (version : Version) :
    (s.cancel file version).Consistent := by
  unfold Store.cancel
  split
  · exact h.change_same file (·.settle version) rfl
  · exact h

/-- Every operation keeps table and stubs in step. -/
theorem Consistent.perform (h : s.Consistent) (request : Operation) :
    (s.perform request).2.Consistent := by
  cases request with
  | markStale file version => exact h.change_same file (·.mention version) rfl
  | begin file version =>
    simp only [Store.perform, snd_answer]
    exact h.begin file version
  | commit file version stubs =>
    simp only [Store.perform, snd_answer]
    exact h.commit file version stubs
  | recommit file expected version =>
    simp only [Store.perform, snd_answer]
    exact h.recommit file expected version
  | cancel file version => exact h.cancel file version
  | remove file => exact h.remove file
  | load file bytes =>
    simp only [Store.perform, snd_answer]
    exact h.load file bytes

/-- So do any number of operations. -/
theorem Consistent.run (h : s.Consistent) (requests : List Operation) :
    (s.run requests).Consistent := by
  induction requests generalizing s with
  | nil => exact h
  | cons request requests ih => exact ih (h.perform request)

/-! ## Lookups -/

/-- No operation changes the registry. -/
theorem registry_perform (s : Store) (request : Operation) :
    (s.perform request).2.registry = s.registry := by
  cases request with
  | markStale file version => rfl
  | begin file version =>
    simp only [Store.perform, snd_answer, Store.begin]
    split <;> rfl
  | commit file version stubs =>
    simp only [Store.perform, snd_answer, Store.commit]
    split
    · rfl
    · split <;> rfl
  | recommit file expected version =>
    simp only [Store.perform, snd_answer, Store.recommit]
    split
    · rfl
    · split
      · rfl
      · split
        · rfl
        · split <;> rfl
  | cancel file version =>
    simp only [Store.perform, Store.cancel]
    split <;> rfl
  | remove file => exact registry_remove s file
  | load file bytes =>
    simp only [Store.perform, snd_answer, Store.load]
    split
    · split <;> rfl
    · rfl

/-- Nor do several. -/
theorem registry_run (s : Store) (requests : List Operation) :
    (s.run requests).registry = s.registry := by
  induction requests generalizing s with
  | nil => rfl
  | cons request requests ih => exact (ih _).trans (registry_perform s request)

/-- Ascending lists with the same members are the same. -/
theorem eq_of_ascending {fs gs : List FileId} (hfs : fs.Pairwise (compare · · = .lt))
    (hgs : gs.Pairwise (compare · · = .lt)) (same : ∀ file, file ∈ fs ↔ file ∈ gs) : fs = gs := by
  have distinct {a b : FileId} (h : compare a b = .lt) : a ≠ b := by
    rintro rfl
    simp at h
  -- Without doubles the lists are permutations, and only one permutation ascends.
  have perm : fs.Perm gs :=
    (List.perm_ext_iff_of_nodup (hfs.imp distinct) (hgs.imp distinct)).mpr same
  refine perm.eq_of_pairwise ?_ hfs hgs
  intro a b _ _ hab hba
  rw [Std.OrientedCmp.gt_of_lt hab] at hba
  contradiction

/-- Known files come in ascending order. -/
theorem fileIds_ascending (s : Store) : s.fileIds.Pairwise (compare · · = .lt) :=
  Std.ExtTreeMap.ordered_keys

/-- A file with committed stubs is known. -/
theorem mem_fileIds_of_committed {file : FileId} {set : StubSet}
    (committed : s.fileStubs? file = some set) : file ∈ s.fileIds := by
  rw [fileIds, Std.ExtTreeMap.mem_keys]
  cases known : s.files.contains file with
  | true => exact Std.ExtTreeMap.contains_iff_mem.mp known
  | false =>
    rw [fileStubs?, entry_of_unknown (by simp [known])] at committed
    simp [Entry.blank] at committed

/-- A file that holds a name has committed stubs, so it is known. -/
theorem mem_fileIds_of_holds {file : FileId} {name : NameKey}
    (h : (s.entry file).holds name = true) : file ∈ s.fileIds := by
  rw [Entry.holds, Option.any_eq_true] at h
  obtain ⟨set, committed, -⟩ := h
  exact mem_fileIds_of_committed committed

/-- The table lists the files that a scan would stop at. -/
theorem Consistent.filesOf_eq (h : s.Consistent) (name : NameKey) :
    s.names.filesOf name = s.fileIds.filter fun file => (s.entry file).holds name := by
  refine eq_of_ascending Std.ExtTreeSet.ordered_toList (s.fileIds_ascending.filter _) ?_
  intro file
  rw [NameTable.mem_filesOf, h.listed, List.mem_filter]
  constructor
  · intro holds
    exact ⟨mem_fileIds_of_holds holds, holds⟩
  · exact And.right

/-- Files that are passed over would add nothing. -/
theorem flatMap_filter {α β : Type} (p : α → Bool) (f : α → List β) (as : List α)
    (none : ∀ a ∈ as, p a = false → f a = []) : (as.filter p).flatMap f = as.flatMap f := by
  induction as with
  | nil => rfl
  | cons a as ih =>
    have later := ih fun b hb => none b (List.mem_cons_of_mem _ hb)
    cases ha : p a with
    | true => rw [List.filter_cons_of_pos ha, List.flatMap_cons, List.flatMap_cons, later]
    | false =>
      rw [List.filter_cons_of_neg (by simp [ha]), List.flatMap_cons, later,
        none a (List.mem_cons_self ..) ha, List.nil_append]

/-- A file that does not hold a name has no stubs that a scan for it would find. -/
theorem Consistent.scan_of_not_holds (h : s.Consistent) {file : FileId} {name : NameKey}
    (absent : (s.entry file).holds name = false) {set : StubSet}
    (committed : s.fileStubs? file = some set) : set.scan s.registry name.key name.name = [] := by
  -- A stub that the scan found would have put its name into the set.
  have missing : set.holds name = false := by
    rw [fileStubs?] at committed
    simpa [Entry.holds, committed] using absent
  have nothing : ∀ p ∈ set.stubs.zipIdx, ¬ s.registry.Files name.key name.name p.1 := by
    intro p hp filed
    have member : p.1 ∈ set.stubs := List.fst_mem_of_mem_zipIdx hp
    have found := ((h.filed file set committed).holds_iff name).mpr ⟨p.1, member, filed⟩
    rw [missing] at found
    contradiction
  rw [StubSet.scan, List.filter_eq_nil_iff.mpr (by simpa using nothing), List.map_nil]

/-- A lookup finds what a scan of all files finds. -/
theorem Consistent.lookup_eq (h : s.Consistent) (key : IndexKey) (name : String) :
    s.lookup key name =
      if s.registry.contains key then .ok (s.scan key name) else .error (.unknownKey key) := by
  -- What a lookup takes of one file is what a scan of that file finds.
  have stubsOf (file : FileId) :
      ((s.entry file).committed?.elim [] (·.matching ⟨key, name⟩)) =
        (s.fileStubs? file).elim [] (·.scan s.registry key name) := by
    cases committed : s.fileStubs? file with
    | none =>
      rw [fileStubs?] at committed
      rw [committed, Option.elim_none, Option.elim_none]
    | some set =>
      have same := (h.filed file set committed).matching_eq_scan key name
      rw [fileStubs?] at committed
      rw [committed, Option.elim_some, Option.elim_some, same]
  simp only [lookup, h.filesOf_eq, stubsOf]
  split
  · congr 1
    -- The files that the table does not list add nothing to the scan.
    apply flatMap_filter _ _ _
    intro file _ absent
    cases committed : s.fileStubs? file with
    | none => rfl
    | some set =>
      rw [Option.elim_some, h.scan_of_not_holds absent committed, List.map_nil]
  · rfl

/-- After any requests a lookup finds exactly the stubs that are committed under the name, by file
and then in source order; and the table lists under a name exactly the files that have it. -/
theorem lookup_exact (registry : Registry) (requests : List Operation) :
    let s := (empty registry).run requests
    (∀ key name, s.lookup key name =
      if registry.contains key then .ok (s.scan key name) else .error (.unknownKey key)) ∧
    s.fileIds.Pairwise (compare · · = .lt) ∧
    (∀ key name file, s.names.Lists ⟨key, name⟩ file ↔
      ∃ set, s.fileStubs? file = some set ∧
        ∃ stub ∈ set.stubs, registry.Files key name stub) ∧
    s.names.Populated := by
  intro s
  have consistent : s.Consistent := (consistent_empty registry).run requests
  have unchanged : s.registry = registry := registry_run (empty registry) requests
  refine ⟨?_, s.fileIds_ascending, ?_, consistent.populated⟩
  · intro key name
    rw [consistent.lookup_eq, unchanged]
  · intro key name file
    rw [consistent.listed, Entry.holds, Option.any_eq_true, ← unchanged]
    constructor
    · rintro ⟨set, committed, holds⟩
      exact ⟨set, committed, ((consistent.filed file set committed).holds_iff _).mp holds⟩
    · rintro ⟨set, committed, found⟩
      exact ⟨set, committed, ((consistent.filed file set committed).holds_iff _).mpr found⟩

end Store

end PerlOutline.Index
