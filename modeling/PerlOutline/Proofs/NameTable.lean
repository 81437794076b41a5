import PerlOutline.Index.Store

/-!
# The name table as a relation

A name table is seen as the relation between names and the files that it lists under them.
Linking adds pairs to the relation and unlinking takes pairs away; neither leaves a name without
files behind, so the relation determines the table.
-/

namespace PerlOutline.Index.NameTable

open PerlOutline.Source (FileId)

/-- The files that the table lists under a name. -/
def filesUnder (table : NameTable) (name : NameKey) : Std.ExtTreeSet FileId :=
  table[name]?.getD ∅

/-- The table lists a file under a name. -/
def Lists (table : NameTable) (name : NameKey) (file : FileId) : Prop :=
  file ∈ table.filesUnder name

/-- Every name of the table has a file. -/
def Populated (table : NameTable) : Prop :=
  ∀ (name : NameKey) (files : Std.ExtTreeSet FileId),
    table[name]? = some files → ∃ file, file ∈ files

/-- The files of a name are handed out as the table lists them. -/
theorem mem_filesOf {table : NameTable} {name : NameKey} {file : FileId} :
    file ∈ table.filesOf name ↔ table.Lists name file :=
  Std.ExtTreeSet.mem_toList

theorem not_lists_empty (name : NameKey) (file : FileId) : ¬ (∅ : NameTable).Lists name file := by
  simp [Lists, filesUnder]

theorem populated_empty : (∅ : NameTable).Populated := by
  intro name files found
  simp at found

variable {table : NameTable} {file : FileId}

/-! ## Linking -/

/-- Linking adds the file under one name. -/
theorem getElem?_linkName (name other : NameKey) :
    (linkName file table name)[other]? =
      if name = other then some ((table.filesUnder name).insert file) else table[other]? := by
  simp only [linkName, Std.ExtTreeMap.getElem?_alter, Std.LawfulEqOrd.compare_eq_iff_eq]
  rfl

/-- Afterwards the table lists what it did and the file under the name. -/
theorem lists_linkName {name other : NameKey} {g : FileId} :
    (linkName file table name).Lists other g ↔
      table.Lists other g ∨ (other = name ∧ g = file) := by
  rw [Lists, filesUnder, getElem?_linkName]
  -- Only what is listed under the name itself changes.
  by_cases same : name = other
  · subst same
    rw [if_pos rfl, Option.getD_some, Std.ExtTreeSet.mem_insert,
      Std.LawfulEqOrd.compare_eq_iff_eq, eq_comm, or_comm]
    simp [Lists]
  · rw [if_neg same]
    simp [Lists, filesUnder, Ne.symm same]

/-- Afterwards the table lists what it did and the file under each of the names. -/
theorem lists_link {names : List NameKey} {other : NameKey} {g : FileId} :
    (link table file names).Lists other g ↔ table.Lists other g ∨ (other ∈ names ∧ g = file) := by
  simp only [link]
  induction names generalizing table with
  | nil => simp
  | cons name names ih =>
    -- The names that are linked later join the one that was linked first.
    rw [List.foldl_cons, ih, lists_linkName, List.mem_cons, or_assoc, ← or_and_right]

theorem populated_linkName (h : table.Populated) (name : NameKey) :
    (linkName file table name).Populated := by
  intro other files found
  rw [getElem?_linkName] at found
  split at found
  · -- Under the name itself there is now the file.
    rw [← Option.some.inj found]
    exact ⟨file, Std.ExtTreeSet.mem_insert_self⟩
  · exact h other files found

theorem populated_link (h : table.Populated) (names : List NameKey) :
    (link table file names).Populated := by
  simp only [link]
  induction names generalizing table with
  | nil => exact h
  | cons name names ih => exact ih (populated_linkName h name)

/-! ## Unlinking -/

/-- Unlinking drops the file under one name, and the name with the last file. -/
theorem getElem?_unlinkName (name other : NameKey) :
    (unlinkName file table name)[other]? =
      if name = other then
        table[name]?.bind fun files =>
          if (files.erase file).isEmpty then none else some (files.erase file)
      else table[other]? := by
  simp only [unlinkName, Std.ExtTreeMap.getElem?_alter, Std.LawfulEqOrd.compare_eq_iff_eq]

/-- Under the name there are the other files then. -/
theorem filesUnder_unlinkName_self (name : NameKey) :
    (unlinkName file table name).filesUnder name = (table.filesUnder name).erase file := by
  rw [filesUnder, getElem?_unlinkName, if_pos rfl, filesUnder]
  cases table[name]? with
  | none => simp
  | some files =>
    rw [Option.bind_some, Option.getD_some]
    split
    · -- The last file takes the name with it, and under a missing name nothing is listed.
      next gone => exact (Std.ExtTreeSet.isEmpty_iff.mp gone).symm
    · rfl

/-- Afterwards the table lists what it did, but not the file under the name. -/
theorem lists_unlinkName {name other : NameKey} {g : FileId} :
    (unlinkName file table name).Lists other g ↔
      table.Lists other g ∧ ¬ (other = name ∧ g = file) := by
  rw [Lists]
  -- Only what is listed under the name itself changes.
  by_cases same : name = other
  · subst same
    rw [filesUnder_unlinkName_self, Std.ExtTreeSet.mem_erase, ne_eq,
      Std.LawfulEqOrd.compare_eq_iff_eq, eq_comm, and_comm]
    simp [Lists]
  · rw [filesUnder, getElem?_unlinkName, if_neg same]
    simp [Lists, filesUnder, Ne.symm same]

/-- Afterwards the table lists what it did, but the file under none of the names. -/
theorem lists_unlink {names : List NameKey} {other : NameKey} {g : FileId} :
    (unlink table file names).Lists other g ↔
      table.Lists other g ∧ ¬ (other ∈ names ∧ g = file) := by
  simp only [unlink]
  induction names generalizing table with
  | nil => simp
  | cons name names ih =>
    rw [List.foldl_cons, ih, lists_unlinkName, List.mem_cons, and_assoc, or_and_right, not_or]

theorem populated_unlinkName (h : table.Populated) (name : NameKey) :
    (unlinkName file table name).Populated := by
  intro other files found
  rw [getElem?_unlinkName] at found
  split at found
  · obtain ⟨before, -, kept⟩ := Option.bind_eq_some_iff.mp found
    split at kept
    · -- A name without files left the table, so it is not found.
      simp at kept
    · next some =>
      rw [← Option.some.inj kept]
      -- What is kept is not empty, or it would have been dropped.
      refine List.exists_mem_of_ne_nil _ ?_ |>.imp fun f hf => Std.ExtTreeSet.mem_toList.mp hf
      rwa [ne_eq, ← List.isEmpty_iff, Std.ExtTreeSet.isEmpty_toList]
  · exact h other files found

theorem populated_unlink (h : table.Populated) (names : List NameKey) :
    (unlink table file names).Populated := by
  simp only [unlink]
  induction names generalizing table with
  | nil => exact h
  | cons name names ih => exact ih (populated_unlinkName h name)

/-! ## The same relation -/

/-- Only one table without empty entries has a relation. -/
theorem eq_of_lists {table table' : NameTable} (h : table.Populated) (h' : table'.Populated)
    (same : ∀ name file, table.Lists name file ↔ table'.Lists name file) : table = table' := by
  apply Std.ExtTreeMap.ext_getElem?
  intro name
  have files : table.filesUnder name = table'.filesUnder name :=
    Std.ExtTreeSet.ext_mem (same name)
  simp only [filesUnder] at files
  -- A name that only one of the tables has would have no file there.
  cases found : table[name]? with
  -- Neither table has the name, or the second one would list a file under it.
  | none =>
    cases found' : table'[name]? with
    | none => rfl
    | some fs =>
      obtain ⟨file, member⟩ := h' name fs found'
      rw [found, found', Option.getD_none, Option.getD_some] at files
      rw [← files] at member
      exact absurd member Std.ExtTreeSet.not_mem_empty
  -- In the same way the second table has the name, and then the same files under it.
  | some fs =>
    cases found' : table'[name]? with
    | none =>
      obtain ⟨file, member⟩ := h name fs found
      rw [found, found', Option.getD_none, Option.getD_some] at files
      rw [files] at member
      exact absurd member Std.ExtTreeSet.not_mem_empty
    | some fs' =>
      rw [found, found', Option.getD_some, Option.getD_some] at files
      rw [files]

end PerlOutline.Index.NameTable
