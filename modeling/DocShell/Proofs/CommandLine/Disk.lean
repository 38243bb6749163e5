import Mathlib.Tactic.SplitIfs
import DocShell.CommandLine.Disk
import DocShell.Proofs.Failure.Bind

namespace DocShell.CommandLine

/-! # Writing one file

A file is written where no directory was, so that every path leads where it led before.
Opening it and writing to it are two effects, and after either of them nothing but that
one file is another than before. -/

/-! ## Limits -/

namespace Limit

variable {limit? : Option Limit} {cause : FileFault} {content whole kept : ByteArray}

/-- What is left of a content that is too large. -/
def CutsOff (limit? : Option Limit) (whole kept : ByteArray) : Prop :=
  ∃ limit, limit? = some limit ∧ limit.size < whole.size ∧ kept = whole.extract 0 limit.size

theorem check_eq_error {size : Nat} :
    check limit? size = .error cause ↔
      ∃ limit, limit? = some limit ∧ limit.size < size ∧ limit.cause = cause := by
  cases limit? with
  | none => simp [check]
  | some limit => by_cases small : limit.size < size <;> simp [check, small]

theorem cut_of_check (taken : check limit? content.size = .ok ()) :
    cut limit? content = content := by
  cases limit? with
  | none => rfl
  | some limit =>
      rw [check] at taken
      split at taken
      · cases taken
      · rename_i room
        have enough : content.data.size ≤ limit.size := Nat.le_of_not_lt room
        rw [cut]
        apply ByteArray.ext
        rw [ByteArray.data_extract, Array.extract_eq_self_of_le enough]

theorem cutsOff_of_check (refused : check limit? content.size = .error cause) :
    CutsOff limit? content (cut limit? content) := by
  obtain ⟨limit, rfl, small, _⟩ := check_eq_error.mp refused
  exact ⟨limit, rfl, small, rfl⟩

theorem CutsOff.eq_cut (cuts : CutsOff limit? whole kept) : kept = cut limit? whole := by
  obtain ⟨limit, rfl, _, rfl⟩ := cuts
  rfl

/-- If a front of a content is too large, the whole is, and the same is left of it. -/
theorem CutsOff.append (cuts : CutsOff limit? content kept) (rest : ByteArray) :
    CutsOff limit? (content ++ rest) kept := by
  obtain ⟨limit, rfl, small, rfl⟩ := cuts
  refine ⟨limit, rfl, ?_, ?_⟩
  · rw [ByteArray.size_append]
    omega
  · rw [ByteArray.extract_append, Nat.sub_eq_zero_of_le (Nat.le_of_lt small), Nat.zero_sub,
      ByteArray.extract_same, ByteArray.append_empty]

end Limit

namespace Disk

variable {disk before after : Disk} {location other : Location} {content bytes : ByteArray}
  {path name : String} {directory : Location} {found : Place} {access : Access}

/-! ## A stored file -/

theorem node?_cons :
    disk.node? (name :: directory) = disk.nodes.lookup (name :: directory) := rfl

theorem node?_store :
    (disk.store (name :: directory) content).node? (name :: directory) = some (.file content) := by
  rw [node?_cons]
  exact List.lookup_cons_self

theorem node?_store_of_ne (different : other ≠ location) :
    (disk.store location content).node? other = disk.node? other := by
  cases other with
  | nil => rfl
  | cons name directory =>
      rw [node?_cons, node?_cons, store, List.lookup_cons, beq_false_of_ne different]

theorem allow_eq_ok :
    disk.allow access location = .ok () ↔ disk.refusal? access location = none := by
  rw [allow]
  cases disk.refusal? access location <;> simp

/-! ## Ways through directories -/

/-- A way leads through directories alone, and where the file is stored there was none. -/
theorem follow_store (free : disk.node? location ≠ some .directory) {steps : List String}
    (leads : disk.follow directory steps = .ok found) :
    (disk.store location content).follow directory steps = .ok found := by
  induction steps generalizing directory with
  | nil => exact leads
  | cons step rest induction =>
      rw [follow, bind_eq_ok] at leads ⊢
      obtain ⟨_, allowed, leads⟩ := leads
      refine ⟨_, allowed, ?_⟩
      split_ifs at leads ⊢ with same parent last long
      · exact induction leads
      · exact induction leads
      · exact leads
      · split at leads
        -- Of the three things that may be kept at a step, only a directory leads on.
        · rename_i kept
          have different : step :: directory ≠ location := by
            intro equal
            exact free (equal ▸ kept)
          rw [node?_store_of_ne different, kept]
          exact induction leads
        · cases leads
        · cases leads

theorem place_store (free : disk.node? location ≠ some .directory)
    (leads : disk.place path = .ok found) :
    (disk.store location content).place path = .ok found := by
  rw [place] at leads ⊢
  split_ifs at leads ⊢ with empty long
  all_goals exact follow_store free leads

/-! ## Reading and writing -/

/-- A path to where a file may be, whether or not there is one. -/
def Names (disk : Disk) (path : String) (location : Location) : Prop :=
  ∃ directory name, disk.place path = .ok (.entry directory name) ∧
    isLongName name = false ∧ endsWithSlash path = false ∧ location = name :: directory

theorem Names.store (named : disk.Names path location)
    (free : disk.node? other ≠ some .directory) :
    (disk.store other content).Names path location := by
  obtain ⟨directory, name, leads, short, bare, rfl⟩ := named
  exact ⟨directory, name, place_store free leads, short, bare, rfl⟩

theorem read_eq_ok :
    disk.read path = .ok content ↔
      ∃ location, disk.Names path location ∧ disk.node? location = some (.file content) ∧
        disk.refusal? .read location = none := by
  rw [read, bind_eq_ok]
  constructor
  · rintro ⟨_ | ⟨directory, name⟩, leads, holds⟩
    · obtain ⟨_, _, holds⟩ := bind_eq_ok.mp holds
      cases holds
    · dsimp only at holds
      split at holds
      · cases holds
      · rename_i short
        split at holds
        · cases holds
        · obtain ⟨_, _, holds⟩ := bind_eq_ok.mp holds
          cases holds
        · rename_i kept
          split at holds
          · cases holds
          · rename_i bare
            obtain ⟨_, allowed, holds⟩ := bind_eq_ok.mp holds
            cases holds
            exact ⟨_, ⟨directory, name, leads, eq_false_of_ne_true short,
              eq_false_of_ne_true bare, rfl⟩, kept, allow_eq_ok.mp allowed⟩
  · rintro ⟨_, ⟨directory, name, leads, short, bare, rfl⟩, kept, allowed⟩
    refine ⟨_, leads, ?_⟩
    simp only [short, bare, kept, Bool.false_eq_true, if_false]
    exact bind_eq_ok.mpr ⟨(), allow_eq_ok.mpr allowed, rfl⟩

theorem create_eq_ok :
    disk.create path = .ok (location, after) ↔
      disk.Names path location ∧ disk.node? location ≠ some .directory ∧
        disk.refusal? .write location = none ∧ disk.store location .empty = after := by
  rw [create, bind_eq_ok]
  constructor
  · rintro ⟨_ | ⟨directory, name⟩, leads, holds⟩
    · cases holds
    · dsimp only at holds
      split_ifs at holds with slashed long
      split at holds
      · cases holds
      · rename_i free
        obtain ⟨_, allowed, holds⟩ := bind_eq_ok.mp holds
        cases holds
        exact ⟨⟨directory, name, leads, eq_false_of_ne_true long, eq_false_of_ne_true slashed,
          rfl⟩, free, allow_eq_ok.mp allowed, rfl⟩
  · rintro ⟨⟨directory, name, leads, short, bare, rfl⟩, free, allowed, rfl⟩
    refine ⟨_, leads, ?_⟩
    simp only [short, bare, Bool.false_eq_true, if_false]
    exact bind_eq_ok.mpr ⟨(), allow_eq_ok.mpr allowed, rfl⟩

/-- A disk after one file was written, as a whole or in part: the path leads to it, there
is the content, and whatever is kept elsewhere is what was kept there before. -/
structure Wrote (before : Disk) (path : String) (location : Location) (content : ByteArray)
    (after : Disk) : Prop where
  home : after.home = before.home
  refusal : after.refusal? = before.refusal?
  limit : after.limit? = before.limit?
  named : before.Names path location
  leads : after.Names path location
  kept : after.node? location = some (.file content)
  elsewhere : ∀ other, other ≠ location → after.node? other = before.node? other

namespace Wrote

/-- What was written can be read, if reading is allowed there. -/
theorem read_eq (wrote : before.Wrote path location content after)
    (allowed : before.refusal? .read location = none) : after.read path = .ok content :=
  read_eq_ok.mpr ⟨location, wrote.leads, wrote.kept, wrote.refusal ▸ allowed⟩

theorem of_create (opened : disk.create path = .ok (location, after)) :
    disk.Wrote path location .empty after := by
  obtain ⟨named, free, _, rfl⟩ := create_eq_ok.mp opened
  refine ⟨rfl, rfl, rfl, named, named.store free, ?_, fun other => node?_store_of_ne⟩
  obtain ⟨directory, name, _, _, _, rfl⟩ := named
  exact node?_store

/-- Writing once more to the same file replaces what was written before. -/
theorem store (wrote : before.Wrote path location content after) (bytes : ByteArray) :
    before.Wrote path location bytes (after.store location bytes) := by
  have free : after.node? location ≠ some .directory := by
    rw [wrote.kept]
    simp
  refine ⟨wrote.home, wrote.refusal, wrote.limit, wrote.named, wrote.leads.store free, ?_, ?_⟩
  · obtain ⟨directory, name, _, _, _, rfl⟩ := wrote.named
    exact node?_store
  · intro other different
    rw [node?_store_of_ne different]
    exact wrote.elsewhere other different

end Wrote

/-- To an empty file only what it takes is written. -/
theorem append_of_empty (wrote : before.Wrote path location .empty disk) (bytes : ByteArray) :
    disk.append location bytes =
      (Limit.check (before.limit? location) bytes.size,
        disk.store location (Limit.cut (before.limit? location) bytes)) := by
  rw [append, Disk.content, wrote.kept, wrote.limit]
  dsimp only
  rw [ByteArray.empty_append]

end Disk

end DocShell.CommandLine
