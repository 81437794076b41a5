import Mathlib.Data.List.Nodup
import PerlOutline.Proofs.History

/-!
# The newest content wins

Content of one file may arrive in any order: commits, persisted stubs and announcements. Whatever
the order, the store ends the same, and the newest content that was delivered is what is committed.

## Layers
- **`Delivery`**: requests that bring content of a file or announce it.
- **Entries**: what a delivery does to the entry of its file, and that two deliveries can change
  places.
- **`Newest`**: what is committed after deliveries.
- **Stores**: deliveries change one entry, and stores with the same entries are the same.
-/

namespace PerlOutline.Index

open PerlOutline (Stub)
open PerlOutline.Source (FileId)
open PerlOutline.Stub (FileStubs)
open PerlOutline.MessagePack (Bytes)

/-! ## Deliveries -/

/-- A request that brings content of a file or announces it. -/
inductive Delivery where
  | commit (version : Version) (stubs : List Stub)
  | load (bytes : Bytes)
  | markStale (version : Version)

namespace Delivery

/-- The delivery as a request about a file. -/
def request (file : FileId) : Delivery → Operation
  | .commit version stubs => .commit file version stubs
  | .load bytes => .load file bytes
  | .markStale version => .markStale file version

/-- The content that a delivery brings, if it brings some and all kinds in it have a key. -/
def content? (r : Registry) : Delivery → Option StubSet
  | .commit version stubs => (StubSet.ofStubs r version stubs).toOption
  | .load bytes => ((Store.empty r).restore bytes).toOption
  | .markStale _ => none

/-- Persisted stubs that are delivered can be read, and all kinds in them have a key. -/
def Readable (r : Registry) : Delivery → Prop
  | .load bytes => ∃ set, (Store.empty r).restore bytes = .ok set
  | .commit .. | .markStale _ => True

/-- The content that deliveries bring. -/
def contents (r : Registry) (deliveries : List Delivery) : List StubSet :=
  deliveries.filterMap (content? r)

end Delivery

/-! ## Entries -/

/-- Of two versions that are mentioned, it does not matter which one comes first. -/
theorem atLeast_comm (known : Option Version) (v w : Version) :
    atLeast (atLeast known v) w = atLeast (atLeast known w) v := by
  -- either way the newest of the three is known in the end
  cases known with
  | none =>
    simp only [atLeast, Option.elim_none, Option.elim_some, max_eq]
    grind
  | some k =>
    simp only [atLeast, Option.elim_some, max_eq]
    grind

namespace Entry

/-- The entry has newer content than a version. -/
def outdates (e : Entry) (version : Version) : Bool :=
  e.committedVersion?.any (version < ·)

/-- Take content, unless newer content is committed. -/
def receive (e : Entry) (set : StubSet) : Entry :=
  if e.outdates set.version then e else e.install set

/-- What a delivery does to the entry of its file. Content with a kind that has no key does not
get there. -/
def effect? (r : Registry) (d : Delivery) : Option (Entry → Entry) :=
  match d with
  | .markStale version => some (·.mention version)
  | .commit .. | .load .. => (d.content? r).map fun set e => e.receive set

/-- Content that is outdated changes nothing. -/
theorem receive_of_outdates {e : Entry} {set : StubSet} (h : e.outdates set.version = true) :
    e.receive set = e := by
  rw [receive, if_pos h]

/-- Content that is not outdated is installed. -/
theorem receive_of_not_outdates {e : Entry} {set : StubSet} (h : e.outdates set.version = false) :
    e.receive set = e.install set := by
  rw [receive, h, if_neg Bool.false_ne_true]

/-- Content is refused just if newer content is committed. -/
theorem refusal?_eq_none_iff {e : Entry} {file : FileId} {version : Version} :
    e.refusal? file version = none ↔ e.outdates version = false := by
  unfold refusal? outdates
  cases e.committedVersion? with
  | none => simp
  | some committed => simp

@[simp] theorem outdates_install (e : Entry) (set : StubSet) (version : Version) :
    (e.install set).outdates version = decide (version < set.version) := rfl

/-- Content that is not newer than outdated content is outdated. -/
theorem outdates_of_le {e : Entry} {v w : Version} (le : v ≤ w) (h : e.outdates w = true) :
    e.outdates v = true := by
  obtain ⟨committed, known, later⟩ := (Option.any_eq_true _ _).mp h
  apply (Option.any_eq_true _ _).mpr
  exact ⟨committed, known, decide_eq_true (UInt64.lt_of_le_of_lt le (of_decide_eq_true later))⟩

/-- Newer content takes the place of older content, with all that the older one did. -/
theorem install_install (e : Entry) {older newer : StubSet} (lt : older.version < newer.version) :
    (e.install older).install newer = e.install newer := by
  -- the older version is no longer the latest that was mentioned
  have mentioned : atLeast (atLeast e.latest? older.version) newer.version =
      atLeast e.latest? newer.version := by
    cases e.latest? with
    | none =>
      simp only [atLeast, Option.elim_none, Option.elim_some, max_eq]
      grind
    | some latest =>
      simp only [atLeast, Option.elim_some, max_eq]
      grind
  -- and what it would leave of the version that is being indexed the newer one would settle too
  have settled : (e.indexing?.filter (older.version < ·)).filter (newer.version < ·) =
      e.indexing?.filter (newer.version < ·) := by
    rw [Option.filter_filter]
    congr 1
    funext version
    grind
  simp only [install, mention, settle, mentioned, settled]

/-- Of two contents the newer one prevails, whichever comes first. -/
theorem receive_comm_of_lt (e : Entry) {older newer : StubSet}
    (lt : older.version < newer.version) :
    (e.receive older).receive newer = (e.receive newer).receive older := by
  cases h : e.outdates newer.version with
  | true =>
    -- the entry has newer content than either
    have h' : e.outdates older.version = true := outdates_of_le (UInt64.le_of_lt lt) h
    rw [receive_of_outdates h', receive_of_outdates h, receive_of_outdates h']
  | false =>
    -- once the newer content is installed, the older one is outdated
    have outdated : (e.install newer).outdates older.version = true := by
      rw [outdates_install]
      exact decide_eq_true lt
    rw [receive_of_not_outdates h, receive_of_outdates outdated]
    -- before that the older one may have been installed or not
    cases h' : e.outdates older.version with
    | true => rw [receive_of_outdates h', receive_of_not_outdates h]
    | false =>
      have kept : (e.install older).outdates newer.version = false := by
        rw [outdates_install]
        exact decide_eq_false (UInt64.not_lt.mpr (UInt64.le_of_lt lt))
      rw [receive_of_not_outdates h', receive_of_not_outdates kept, install_install e lt]

/-- Contents of different versions can change places. -/
theorem receive_comm (e : Entry) {a b : StubSet} (different : a.version = b.version → a = b) :
    (e.receive a).receive b = (e.receive b).receive a := by
  -- one of the two is newer, or they are the same
  by_cases lt : a.version < b.version
  · exact receive_comm_of_lt e lt
  · by_cases gt : b.version < a.version
    · exact (receive_comm_of_lt e gt).symm
    · have same : a = b :=
        different (UInt64.le_antisymm (UInt64.not_lt.mp gt) (UInt64.not_lt.mp lt))
      rw [same]

/-- Content and an announcement can change places. -/
theorem receive_mention (e : Entry) (set : StubSet) (version : Version) :
    (e.receive set).mention version = (e.mention version).receive set := by
  cases h : e.outdates set.version with
  -- whether content is outdated does not depend on what was mentioned
  | true => rw [receive_of_outdates h, receive_of_outdates (e := e.mention version) h]
  | false =>
    rw [receive_of_not_outdates h, receive_of_not_outdates (e := e.mention version) h]
    simp only [install, mention, settle, atLeast_comm]

/-- Two announcements can change places. -/
theorem mention_comm (e : Entry) (v w : Version) :
    (e.mention v).mention w = (e.mention w).mention v := by
  simp only [mention, atLeast_comm]

/-- What a delivery makes of the entry of its file. -/
def after (r : Registry) (e : Entry) (d : Delivery) : Entry :=
  ((effect? r d).getD id) e

/-- A delivery with content is received. -/
theorem after_of_content {r : Registry} {d : Delivery} {set : StubSet}
    (content : d.content? r = some set) (e : Entry) : e.after r d = e.receive set := by
  cases d with
  | markStale version => exact absurd content (by rintro ⟨⟩)
  | commit | load => rw [after, effect?, content, Option.map_some, Option.getD_some]

/-- Without content a delivery leaves what is committed alone. -/
theorem committed?_after {r : Registry} {d : Delivery} (content : d.content? r = none)
    (e : Entry) : (e.after r d).committed? = e.committed? := by
  cases d with
  | markStale version => rfl
  | commit | load => rw [after, effect?, content, Option.map_none, Option.getD_none, id]

/-- A delivery announces a version or brings content. -/
theorem effect?_cases {r : Registry} {d : Delivery} {f : Entry → Entry}
    (h : effect? r d = some f) :
    (∃ version, f = (·.mention version)) ∨
      ∃ set, d.content? r = some set ∧ f = (·.receive set) := by
  cases d with
  | markStale version => exact .inl ⟨version, (Option.some.inj h).symm⟩
  | commit | load =>
    obtain ⟨set, content, same⟩ := Option.map_eq_some_iff.mp h
    exact .inr ⟨set, content, same.symm⟩

/-- Two deliveries can change places, unless they bring different contents for one version. -/
theorem effects_comm {r : Registry} {d d' : Delivery} {f g : Entry → Entry}
    (hf : effect? r d = some f) (hg : effect? r d' = some g)
    (different : ∀ a, d.content? r = some a → ∀ b, d'.content? r = some b →
      a.version = b.version → a = b) (e : Entry) :
    g (f e) = f (g e) := by
  -- two announcements, two contents, or one of each
  obtain ⟨v, rfl⟩ | ⟨a, ha, rfl⟩ := effect?_cases hf
  · obtain ⟨w, rfl⟩ | ⟨b, -, rfl⟩ := effect?_cases hg
    · exact mention_comm e v w
    · exact (receive_mention e b v).symm
  · obtain ⟨w, rfl⟩ | ⟨b, hb, rfl⟩ := effect?_cases hg
    · exact receive_mention e a w
    · exact receive_comm e (different a ha b hb)

end Entry

/-! ## The newest -/

/-- What is committed after contents were delivered: of those that are not older than what was
committed at the start the newest, and what was committed at the start if all are older. -/
inductive Newest (start : Entry) (contents : List StubSet) : Option StubSet → Prop where
  | kept (older : ∀ set ∈ contents, start.outdates set.version = true) :
    Newest start contents start.committed?
  | delivered (set : StubSet) (member : set ∈ contents)
      (admitted : start.outdates set.version = false)
      (greatest : ∀ other ∈ contents, start.outdates other.version = false →
        other.version ≤ set.version) :
    Newest start contents (some set)

namespace Newest

variable {e e' : Entry} {set : StubSet} {contents : List StubSet} {last : Option StubSet}

/-- It matters only what is committed at the start. -/
theorem congr (same : e'.committed? = e.committed?) (h : Newest e' contents last) :
    Newest e contents last := by
  have outdates (version : Version) : e'.outdates version = e.outdates version := by
    simp only [Entry.outdates, Entry.committedVersion?, same]
  cases h with
  -- all contents are older than what is committed at the start, as they were before
  | kept older =>
    rw [same]
    exact .kept fun set member => (outdates _).symm.trans (older set member)
  -- the one that was committed last was admitted and is the greatest
  | delivered set member admitted greatest =>
    refine .delivered set member ((outdates _).symm.trans admitted) ?_
    intro other hother hadmitted
    exact greatest other hother ((outdates _).trans hadmitted)

/-- Content that is outdated at once does not count. -/
theorem cons_outdated (h : Newest e contents last) (old : e.outdates set.version = true) :
    Newest e (set :: contents) last := by
  cases h with
  -- all are outdated, and the first one too
  | kept older => exact .kept (List.forall_mem_cons.mpr ⟨old, older⟩)
  | delivered newest member admitted greatest =>
    refine .delivered newest (List.mem_cons_of_mem _ member) admitted ?_
    refine List.forall_mem_cons.mpr ⟨?_, greatest⟩
    intro hadmitted
    rw [old] at hadmitted
    contradiction

/-- Content that is taken is the one to beat. -/
theorem cons_installed (h : Newest (e.install set) contents last)
    (new : e.outdates set.version = false) : Newest e (set :: contents) last := by
  cases h with
  -- nothing that came later beat the first content, so it is the newest
  | kept older =>
    refine .delivered set (List.mem_cons_self ..) new (List.forall_mem_cons.mpr ⟨?_, ?_⟩)
    · intro _
      exact UInt64.le_refl _
    · intro other member _
      have lt : other.version < set.version := of_decide_eq_true (older other member)
      exact UInt64.le_of_lt lt
  -- something that came later beat it, and so it would have beaten what was committed before
  | delivered newest member admitted greatest =>
    have ge : set.version ≤ newest.version := UInt64.not_lt.mp (of_decide_eq_false admitted)
    have hadmitted : e.outdates newest.version = false := by
      rw [← Bool.not_eq_true]
      intro old
      have outdated : e.outdates set.version = true := Entry.outdates_of_le ge old
      rw [new] at outdated
      contradiction
    refine .delivered newest (List.mem_cons_of_mem _ member) hadmitted
      (List.forall_mem_cons.mpr ⟨fun _ => ge, ?_⟩)
    -- contents that the first one outdates are older than it, and so than the newest
    intro other hother _
    by_cases lt : other.version < set.version
    · exact UInt64.le_trans (UInt64.le_of_lt lt) ge
    · exact greatest other hother (decide_eq_false lt)

/-- What an entry receives first is outdated or the content to beat. -/
theorem cons (h : Newest (e.receive set) contents last) : Newest e (set :: contents) last := by
  -- the first content is outdated at once or installed
  cases old : e.outdates set.version with
  | true =>
    rw [Entry.receive_of_outdates old] at h
    exact h.cons_outdated old
  | false =>
    rw [Entry.receive_of_not_outdates old] at h
    exact h.cons_installed old

end Newest

/-! ## Stores -/

/-- Of two entries of a file only the second one stays. -/
theorem insert_insert (files : Std.ExtTreeMap FileId Entry) (file : FileId) (e e' : Entry) :
    (files.insert file e).insert file e' = files.insert file e' := by
  apply Std.ExtTreeMap.ext_getElem?
  intro other
  simp only [Std.ExtTreeMap.getElem?_insert]
  split <;> rfl

namespace Delivery

/-- What is known of all files after a delivery of content of one file. -/
def deliver (r : Registry) (file : FileId) (files : Std.ExtTreeMap FileId Entry) (d : Delivery) :
    Std.ExtTreeMap FileId Entry :=
  match Entry.effect? r d with
  | none => files
  | some effect => files.insert file (effect (files[file]?.getD .blank))

variable {r : Registry} {file : FileId}

/-- Two deliveries of one file can change places in what is known of all files. -/
theorem deliver_comm {d d' : Delivery}
    (different : ∀ a, d.content? r = some a → ∀ b, d'.content? r = some b →
      a.version = b.version → a = b) (files : Std.ExtTreeMap FileId Entry) :
    deliver r file (deliver r file files d) d' = deliver r file (deliver r file files d') d := by
  unfold deliver
  -- a delivery without an effect can stand anywhere
  cases hd : Entry.effect? r d with
  | none => rfl
  | some f =>
    cases hd' : Entry.effect? r d' with
    | none => rfl
    | some g =>
      simp only [Std.ExtTreeMap.getElem?_insert_self, Option.getD_some, insert_insert,
        Entry.effects_comm hd hd' different]

end Delivery

namespace Store

open Delivery

variable {s : Store} {file : FileId}

/-- To touch a file is to note its entry. -/
theorem files_touch (s : Store) (file : FileId) :
    (s.touch file).files = s.files.insert file (s.entry file) := rfl

/-- Content is installed in the entry of its file. -/
theorem files_install_touch (s : Store) (file : FileId) (set : StubSet) :
    ((s.touch file).install file set).files = s.files.insert file ((s.entry file).install set) := by
  show ((s.touch file).files.insert file (((s.touch file).entry file).install set)) = _
  rw [entry_touch, files_touch, insert_insert]

/-- Content that is refused or installed as the entry of its file says is received. -/
theorem files_receive {set : StubSet} {s' : Store}
    (refused : ∀ cause, (s.entry file).refusal? file set.version = some cause →
      s' = s.touch file)
    (granted : (s.entry file).refusal? file set.version = none →
      s' = (s.touch file).install file set) :
    s'.files = s.files.insert file ((s.entry file).receive set) := by
  -- The content is refused just if it is outdated, and then receiving it changes nothing.
  cases old : (s.entry file).outdates set.version with
  | false =>
    rw [granted (Entry.refusal?_eq_none_iff.mpr old), Entry.receive_of_not_outdates old]
    exact files_install_touch s file set
  | true =>
    rw [Entry.receive_of_outdates old]
    cases answer : (s.entry file).refusal? file set.version with
    | some cause => rw [refused cause answer, files_touch]
    | none =>
      rw [Entry.refusal?_eq_none_iff.mp answer] at old
      contradiction

/-- A commit of content leaves what receiving the content leaves. -/
theorem files_commit {version : Version} {stubs : List Stub} {set : StubSet}
    (filed : StubSet.ofStubs s.registry version stubs = .ok set) :
    (s.commit file version stubs).2.files = s.files.insert file ((s.entry file).receive set) := by
  obtain ⟨-, rfl, -⟩ := StubSet.wellFiled_of_ofStubs filed
  simp only [commit, filed, entry_touch]
  apply files_receive
  · intro cause refused
    simp only [refused]
  · intro granted
    simp only [granted]

/-- A load of content leaves what receiving the content leaves. -/
theorem files_load {bytes : Bytes} {set : StubSet} (restored : s.restore bytes = .ok set) :
    (s.load file bytes).2.files = s.files.insert file ((s.entry file).receive set) := by
  simp only [load, restored, entry_touch]
  apply files_receive
  · intro cause refused
    simp only [refused]
  · intro granted
    simp only [granted]

/-- A delivery changes what is known of its file, and of no other. -/
theorem files_perform (s : Store) (file : FileId) {d : Delivery}
    (readable : d.Readable s.registry) :
    (s.perform (d.request file)).2.files = deliver s.registry file s.files d := by
  cases d with
  | markStale version => rfl
  | commit version stubs =>
    simp only [Delivery.request, perform, snd_answer, deliver, Entry.effect?, content?]
    cases filed : StubSet.ofStubs s.registry version stubs with
    -- a kind without a key refuses the commit before the file is touched
    | error kind => simp only [commit, filed]; rfl
    | ok set => exact files_commit filed
  | load bytes =>
    obtain ⟨set, restored⟩ := readable
    simp only [Delivery.request, perform, snd_answer, deliver, Entry.effect?, content?, restored]
    exact files_load restored

/-- A delivery changes the entry of its file as it should. -/
theorem entry_perform (s : Store) (file : FileId) {d : Delivery}
    (readable : d.Readable s.registry) :
    (s.perform (d.request file)).2.entry file = (s.entry file).after s.registry d := by
  rw [entry, files_perform s file readable, deliver, Entry.after]
  cases Entry.effect? s.registry d with
  | none => rfl
  | some effect => simp only [Std.ExtTreeMap.getElem?_insert_self, Option.getD_some]; rfl

/-- What is known after deliveries. -/
theorem files_run (file : FileId) {deliveries : List Delivery}
    (readable : ∀ d ∈ deliveries, d.Readable s.registry) :
    (s.run (deliveries.map (·.request file))).files =
      deliveries.foldl (deliver s.registry file) s.files := by
  induction deliveries generalizing s with
  | nil => rfl
  | cons d deliveries ih =>
    -- the first delivery leaves the registry alone, so the others can still be read
    have first := s.files_perform file (readable d (List.mem_cons_self ..))
    have later := registry_perform s (d.request file) ▸ fun d' member =>
      readable d' (List.mem_cons_of_mem _ member)
    rw [List.map_cons, List.foldl_cons, ← first, ← registry_perform s (d.request file)]
    exact ih later

/-- Stores with the same files are the same, when tables and stubs are in step. -/
theorem eq_of_files {s s' : Store} (h : s.Consistent) (h' : s'.Consistent)
    (registry : s.registry = s'.registry) (files : s.files = s'.files) : s = s' := by
  have entry (file : FileId) : s.entry file = s'.entry file := by
    rw [Store.entry, files, Store.entry]
  -- the tables are determined by what they list, which is in step with the entries
  have names : s.names = s'.names := by
    apply NameTable.eq_of_lists h.populated h'.populated
    intro name file
    rw [h.listed, h'.listed, entry]
  obtain ⟨r, fs, ns⟩ := s
  obtain ⟨r', fs', ns'⟩ := s'
  obtain ⟨rfl, rfl, rfl⟩ := And.intro registry (And.intro files names)
  rfl

/-- Deliveries of different contents can be made in any order. -/
theorem run_eq_of_perm (h : s.Consistent) (file : FileId) {deliveries deliveries' : List Delivery}
    (perm : deliveries.Perm deliveries')
    (readable : ∀ d ∈ deliveries, d.Readable s.registry)
    (distinct : ((contents s.registry deliveries).map (·.version)).Nodup) :
    s.run (deliveries.map (·.request file)) = s.run (deliveries'.map (·.request file)) := by
  apply eq_of_files (h.run _) (h.run _)
  · rw [registry_run, registry_run]
  -- only the entries are left to compare, and a fold over commuting steps does not see their order
  rw [files_run file readable, files_run file fun d member => readable d (perm.mem_iff.mpr member)]
  apply perm.foldl_eq'
  intro d member d' member' files
  apply deliver_comm
  -- Contents of one version are one content.
  intro a ha b hb
  have hmem := List.mem_filterMap.mpr ⟨d, member, ha⟩
  have hmem' := List.mem_filterMap.mpr ⟨d', member', hb⟩
  exact List.inj_on_of_nodup_map distinct hmem hmem'

/-- The newest content that was delivered is committed. -/
theorem newest_run (file : FileId) {deliveries : List Delivery}
    (readable : ∀ d ∈ deliveries, d.Readable s.registry) :
    Newest (s.entry file) (contents s.registry deliveries)
      ((s.run (deliveries.map (·.request file))).fileStubs? file) := by
  induction deliveries generalizing s with
  | nil => exact .kept fun set member => absurd member List.not_mem_nil
  | cons d deliveries ih =>
    -- what the first delivery leaves is where the others start
    have first := s.entry_perform file (readable d (List.mem_cons_self ..))
    have last := ih (s := (s.perform (d.request file)).2) fun d' member => by
      rw [registry_perform]
      exact readable d' (List.mem_cons_of_mem _ member)
    rw [first, registry_perform] at last
    cases content : d.content? s.registry with
    | none =>
      rw [contents, List.filterMap_cons_none content]
      exact last.congr (Entry.committed?_after content _)
    | some set =>
      rw [Entry.after_of_content content] at last
      rw [contents, List.filterMap_cons_some content]
      exact last.cons

/-- Whatever was done before, deliveries for one file lead to the same store in any order, and
commit the newest of the contents. -/
theorem newest_content_wins (registry : Registry) (history : List Operation) (file : FileId)
    {deliveries deliveries' : List Delivery} (perm : deliveries.Perm deliveries')
    (readable : ∀ d ∈ deliveries, d.Readable registry)
    (distinct : ((contents registry deliveries).map (·.version)).Nodup) :
    let s := (empty registry).run history
    s.run (deliveries.map (·.request file)) = s.run (deliveries'.map (·.request file)) ∧
      Newest (s.entry file) (contents registry deliveries)
        ((s.run (deliveries.map (·.request file))).fileStubs? file) := by
  intro s
  have consistent : s.Consistent := (consistent_empty registry).run history
  have unchanged : s.registry = registry := registry_run (empty registry) history
  rw [← unchanged] at readable distinct ⊢
  exact ⟨run_eq_of_perm consistent file perm readable distinct, newest_run file readable⟩

/-- Persisted stubs of version 3 that come late do not displace a commit of version 4. -/
theorem newest_content_wins_late_load :
    let run : Stub := ⟨.sub, "run", "main", .empty⟩
    let deliveries : List Delivery :=
      [.commit 4 [run], .load [0x93, 1, 3, 0x90], .markStale 6, .commit 1 []]
    let s := (empty .perl).run [.begin ⟨1⟩ 2, .commit ⟨1⟩ 2 [run]]
    s.run (deliveries.map (·.request ⟨1⟩)) = s.run (deliveries.reverse.map (·.request ⟨1⟩)) ∧
      Newest (s.entry ⟨1⟩) (contents .perl deliveries)
        ((s.run (deliveries.map (·.request ⟨1⟩))).fileStubs? ⟨1⟩) := by
  intro run deliveries s
  have readable : ∀ d ∈ deliveries, d.Readable .perl := by
    simp only [deliveries, List.forall_mem_cons]
    exact ⟨trivial, ⟨⟨3, [], ∅⟩, rfl⟩, trivial, trivial, by simp⟩
  have distinct : ((contents .perl deliveries).map (·.version)).Nodup := by decide
  exact newest_content_wins .perl _ ⟨1⟩ deliveries.reverse_perm.symm readable distinct

end Store

end PerlOutline.Index
