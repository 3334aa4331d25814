import Mathlib.Data.List.Basic
import Mathlib.Logic.Function.Basic

namespace DistributedDocs

/-!
# A disk whose operations may fail

A flat disk maps paths to bytes.  Paths are literal: there are no directories,
and `.` and `..` are names like any other.  Every operation consumes the next
planned outcome, so one theorem about all plans covers every way the operations
can fail; once the plan is used up, operations succeed.
-/

/-- How an operation that was not refused outright ends. -/
inductive Outcome where
  | succeeds
  | refused
  | stopsAfter (count : Nat)
  deriving DecidableEq

/-- Bytes by path, and the outcomes of the operations to come. -/
structure Disk (Path : Type) where
  bytesAt : Path → Option (List UInt8)
  outcomes : List Outcome

/-- The end of an attempt to open a file for writing and to write to it. -/
inductive WriteEnd where
  | notOpened
  | short
  | complete
  deriving DecidableEq

namespace Disk

variable {Path : Type} [DecidableEq Path]

/-- Take the next outcome from the plan. -/
def next (disk : Disk Path) : Outcome × Disk Path :=
  match disk.outcomes with
  | [] =>
      (.succeeds, disk)
  | outcome :: later =>
      (outcome, { disk with outcomes := later })

/-- The disk with other contents at one path. -/
def set
    (path : Path)
    (contents : Option (List UInt8))
    (disk : Disk Path) : Disk Path :=
  { disk with bytesAt := Function.update disk.bytesAt path contents }

/-- Read a file; a read that stops early returns what it got. -/
def read (path : Path) (disk : Disk Path) :
    Option (List UInt8) × Disk Path :=
  match disk.next with
  | (.succeeds, later) =>
      (disk.bytesAt path, later)
  | (.refused, later) =>
      (none, later)
  | (.stopsAfter count, later) =>
      ((disk.bytesAt path).map (List.take count), later)

/-- Open a file for writing, which truncates it, and write all bytes. -/
def write
    (path : Path)
    (bytes : List UInt8)
    (disk : Disk Path) : WriteEnd × Disk Path :=
  match disk.next with
  | (.succeeds, later) =>
      (.complete, later.set path (some bytes))
  | (.refused, later) =>
      (.notOpened, later)
  | (.stopsAfter count, later) =>
      (if count < bytes.length then .short else .complete,
        later.set path (some (bytes.take count)))

/-- Write more bytes to a file opened before. -/
def append
    (path : Path)
    (bytes : List UInt8)
    (disk : Disk Path) : WriteEnd × Disk Path :=
  let present := (disk.bytesAt path).getD []
  match disk.next with
  | (.succeeds, later) =>
      (.complete, later.set path (some (present ++ bytes)))
  | (.refused, later) =>
      (if bytes = [] then .complete else .short, later)
  | (.stopsAfter count, later) =>
      (if count < bytes.length then .short else .complete,
        later.set path (some (present ++ bytes.take count)))

/-- Remove a file; nothing is said when that fails. -/
def unlink (path : Path) (disk : Disk Path) : Disk Path :=
  match disk.next with
  | (.succeeds, later) =>
      later.set path none
  | (_, later) =>
      later

/-- Rename a file, replacing what was at the new path. -/
def rename (old new : Path) (disk : Disk Path) : Bool × Disk Path :=
  match disk.next with
  | (.succeeds, later) =>
      match disk.bytesAt old with
      | some bytes =>
          (true, (later.set old none).set new (some bytes))
      | none =>
          (false, later)
  | (_, later) =>
      (false, later)

/--
The writing half of a copy: `readable` is what could be read of the source,
which held `expected` bytes.  A copy that fails half-way removes the target.
-/
def writeCopy
    (target : Path)
    (readable : List UInt8)
    (expected : Nat)
    (disk : Disk Path) : Bool × Disk Path :=
  match disk.write target readable with
  | (.notOpened, written) =>
      (false, written)
  | (.short, written) =>
      (false, written.unlink target)
  | (.complete, written) =>
      if readable.length < expected then
        (false, written.unlink target)
      else
        (true, written)

/--
Copy a file.  The target is truncated before the first byte is read, so a file
copied onto itself becomes empty.
-/
def copy (source target : Path) (disk : Disk Path) : Bool × Disk Path :=
  match disk.next with
  | (.refused, later) =>
      (false, later)
  | (opened, later) =>
      match disk.bytesAt source with
      | none =>
          (false, later)
      | some found =>
          let bytes := if source = target then [] else found
          match opened with
          | .stopsAfter count =>
              later.writeCopy target (bytes.take count) bytes.length
          | _ =>
              later.writeCopy target bytes bytes.length

/-! ## Paths an operation does not name keep their contents -/

section Agreement

omit [DecidableEq Path]

/--
The disks agree outside a list of paths, and no trouble has been planned in
between.
-/
structure AgreesOutside
    (paths : List Path)
    (before after : Disk Path) : Prop where
  bytesAt_eq :
    ∀ path, path ∉ paths → after.bytesAt path = before.bytesAt path
  undisturbed : before.outcomes = [] → after.outcomes = []

namespace AgreesOutside

theorem refl (paths : List Path) (disk : Disk Path) :
    AgreesOutside paths disk disk :=
  ⟨fun _ _ => rfl, id⟩

theorem trans
    {paths : List Path}
    {first second third : Disk Path}
    (earlier : AgreesOutside paths first second)
    (later : AgreesOutside paths second third) :
    AgreesOutside paths first third where
  bytesAt_eq path outside :=
    (later.bytesAt_eq path outside).trans (earlier.bytesAt_eq path outside)
  undisturbed quiet := later.undisturbed (earlier.undisturbed quiet)

theorem mono
    {paths more : List Path}
    {before after : Disk Path}
    (agrees : AgreesOutside paths before after)
    (included : paths ⊆ more) :
    AgreesOutside more before after where
  bytesAt_eq path outside :=
    agrees.bytesAt_eq path fun inside => outside (included inside)
  undisturbed := agrees.undisturbed

end AgreesOutside

@[simp] theorem bytesAt_next (disk : Disk Path) :
    disk.next.2.bytesAt = disk.bytesAt := by
  unfold next
  split <;> rfl

theorem agreesOutside_next
    {disk later : Disk Path}
    {outcome : Outcome}
    (taken : disk.next = (outcome, later))
    (paths : List Path) :
    AgreesOutside paths disk later where
  bytesAt_eq _ _ := by rw [← disk.bytesAt_next, taken]
  undisturbed quiet := by
    simp only [next, quiet, Prod.mk.injEq] at taken
    rw [← taken.2]
    exact quiet

end Agreement

theorem bytesAt_set_of_ne
    {path other : Path}
    (different : other ≠ path)
    (contents : Option (List UInt8))
    (disk : Disk Path) :
    (disk.set path contents).bytesAt other = disk.bytesAt other := by
  simp [set, different]

@[simp] theorem bytesAt_set_same
    (path : Path)
    (contents : Option (List UInt8))
    (disk : Disk Path) :
    (disk.set path contents).bytesAt path = contents := by
  simp [set]

@[simp] theorem outcomes_set
    (path : Path)
    (contents : Option (List UInt8))
    (disk : Disk Path) :
    (disk.set path contents).outcomes = disk.outcomes :=
  rfl

@[simp] theorem set_set
    (path : Path)
    (first second : Option (List UInt8))
    (disk : Disk Path) :
    (disk.set path first).set path second = disk.set path second := by
  simp [set]

@[simp] theorem set_bytesAt (path : Path) (disk : Disk Path) :
    disk.set path (disk.bytesAt path) = disk := by
  simp [set]

theorem agreesOutside_set
    (path : Path)
    (contents : Option (List UInt8))
    (disk : Disk Path) :
    AgreesOutside [path] disk (disk.set path contents) where
  bytesAt_eq other outside :=
    bytesAt_set_of_ne (by simpa using outside) contents disk
  undisturbed := id

omit [DecidableEq Path] in
theorem agreesOutside_read (path : Path) (disk : Disk Path) :
    AgreesOutside [] disk (disk.read path).2 := by
  unfold read
  split
  · exact agreesOutside_next ‹_› _
  · exact agreesOutside_next ‹_› _
  · exact agreesOutside_next ‹_› _

/-- Taking an outcome and changing one path changes that path only. -/
theorem agreesOutside_next_set
    {disk later : Disk Path}
    {outcome : Outcome}
    (taken : disk.next = (outcome, later))
    (path : Path)
    (contents : Option (List UInt8)) :
    AgreesOutside [path] disk (later.set path contents) :=
  (agreesOutside_next taken _).trans (agreesOutside_set path contents later)

theorem agreesOutside_write
    (path : Path)
    (bytes : List UInt8)
    (disk : Disk Path) :
    AgreesOutside [path] disk (disk.write path bytes).2 := by
  unfold write
  split
  · exact agreesOutside_next_set ‹_› path _
  · exact agreesOutside_next ‹_› _
  · exact agreesOutside_next_set ‹_› path _

theorem agreesOutside_append
    (path : Path)
    (bytes : List UInt8)
    (disk : Disk Path) :
    AgreesOutside [path] disk (disk.append path bytes).2 := by
  unfold append
  simp only
  split
  · exact agreesOutside_next_set ‹_› path _
  · exact agreesOutside_next ‹_› _
  · exact agreesOutside_next_set ‹_› path _

theorem agreesOutside_unlink (path : Path) (disk : Disk Path) :
    AgreesOutside [path] disk (disk.unlink path) := by
  unfold unlink
  split
  · exact agreesOutside_next_set ‹_› path _
  · exact agreesOutside_next ‹_› _

theorem agreesOutside_rename (old new : Path) (disk : Disk Path) :
    AgreesOutside [old, new] disk (disk.rename old new).2 := by
  unfold rename
  split
  · split
    · exact ((agreesOutside_next_set ‹_› old none).mono (by simp)).trans
        ((agreesOutside_set new _ _).mono (by simp))
    · exact agreesOutside_next ‹_› _
  · exact agreesOutside_next ‹_› _

theorem agreesOutside_writeCopy
    (target : Path)
    (readable : List UInt8)
    (expected : Nat)
    (disk : Disk Path) :
    AgreesOutside [target] disk
      (disk.writeCopy target readable expected).2 := by
  have written := agreesOutside_write target readable disk
  unfold writeCopy
  split
  · next ended =>
    rw [ended] at written
    exact written
  · next ended =>
    rw [ended] at written
    exact written.trans (agreesOutside_unlink target _)
  · next ended =>
    rw [ended] at written
    split
    · exact written.trans (agreesOutside_unlink target _)
    · exact written

theorem agreesOutside_copy (source target : Path) (disk : Disk Path) :
    AgreesOutside [target] disk (disk.copy source target).2 := by
  unfold copy
  split
  · exact agreesOutside_next ‹_› _
  · next opened later _ taken =>
    have begun : AgreesOutside [target] disk later :=
      agreesOutside_next taken _
    split
    · exact begun
    · simp only
      split
      · exact begun.trans (agreesOutside_writeCopy target _ _ later)
      · exact begun.trans (agreesOutside_writeCopy target _ _ later)

/-! ## Bytes that no file contains -/

/-- No file contains the byte. -/
def Avoids (byte : UInt8) (disk : Disk Path) : Prop :=
  ∀ path bytes, disk.bytesAt path = some bytes → byte ∉ bytes

section Avoiding

variable
  {byte : UInt8}
  {disk : Disk Path}

omit [DecidableEq Path] in
theorem avoids_next
    (avoids : disk.Avoids byte)
    {outcome : Outcome}
    {later : Disk Path}
    (taken : disk.next = (outcome, later)) :
    later.Avoids byte := by
  have same : later.bytesAt = disk.bytesAt := by
    rw [← disk.bytesAt_next, taken]
  rw [Avoids, same]
  exact avoids

theorem avoids_set
    (avoids : disk.Avoids byte)
    {contents : Option (List UInt8)}
    (clean : ∀ bytes ∈ contents, byte ∉ bytes)
    (path : Path) :
    (disk.set path contents).Avoids byte := by
  intro other bytes stored
  by_cases here : other = path
  · rw [here, bytesAt_set_same] at stored
    exact clean bytes stored
  · rw [bytesAt_set_of_ne here] at stored
    exact avoids other bytes stored

omit [DecidableEq Path] in
theorem avoids_read
    (avoids : disk.Avoids byte)
    (path : Path) :
    (disk.read path).2.Avoids byte := by
  unfold read
  split
  · exact avoids_next avoids ‹_›
  · exact avoids_next avoids ‹_›
  · exact avoids_next avoids ‹_›

theorem avoids_write
    (avoids : disk.Avoids byte)
    {bytes : List UInt8}
    (clean : byte ∉ bytes)
    (path : Path) :
    (disk.write path bytes).2.Avoids byte := by
  unfold write
  split
  · exact avoids_set (avoids_next avoids ‹_›) (by simpa using clean) path
  · exact avoids_next avoids ‹_›
  · refine avoids_set (avoids_next avoids ‹_›) ?_ path
    simpa using fun member => clean (List.mem_of_mem_take member)

theorem avoids_append
    (avoids : disk.Avoids byte)
    {bytes : List UInt8}
    (clean : byte ∉ bytes)
    (path : Path) :
    (disk.append path bytes).2.Avoids byte := by
  have present : byte ∉ (disk.bytesAt path).getD [] := by
    cases stored : disk.bytesAt path with
    | none =>
        simp
    | some found =>
        exact avoids path found stored
  unfold append
  simp only
  split
  · exact avoids_set (avoids_next avoids ‹_›) (by simp [present, clean]) path
  · exact avoids_next avoids ‹_›
  · refine avoids_set (avoids_next avoids ‹_›) ?_ path
    simpa [present] using fun member => clean (List.mem_of_mem_take member)

theorem avoids_unlink
    (avoids : disk.Avoids byte)
    (path : Path) :
    (disk.unlink path).Avoids byte := by
  unfold unlink
  split
  · exact avoids_set (avoids_next avoids ‹_›) (by simp) path
  · exact avoids_next avoids ‹_›

theorem avoids_rename
    (avoids : disk.Avoids byte)
    (old new : Path) :
    (disk.rename old new).2.Avoids byte := by
  unfold rename
  split
  · split
    · next bytes stored =>
      refine avoids_set
        (avoids_set (avoids_next avoids ‹_›) (by simp) old) ?_ new
      simpa using avoids old bytes stored
    · exact avoids_next avoids ‹_›
  · exact avoids_next avoids ‹_›

theorem avoids_writeCopy
    (avoids : disk.Avoids byte)
    {readable : List UInt8}
    (clean : byte ∉ readable)
    (target : Path)
    (expected : Nat) :
    (disk.writeCopy target readable expected).2.Avoids byte := by
  have written := avoids_write avoids clean target
  unfold writeCopy
  split
  · next ended =>
    rw [ended] at written
    exact written
  · next ended =>
    rw [ended] at written
    exact avoids_unlink written target
  · next ended =>
    rw [ended] at written
    split
    · exact avoids_unlink written target
    · exact written

theorem avoids_copy
    (avoids : disk.Avoids byte)
    (source target : Path) :
    (disk.copy source target).2.Avoids byte := by
  unfold copy
  split
  · exact avoids_next avoids ‹_›
  · next opened later _ taken =>
    have begun := avoids_next avoids taken
    split
    · exact begun
    · next found stored =>
      have clean : byte ∉ (if source = target then [] else found) := by
        split
        · simp
        · exact avoids source found stored
      simp only
      split
      · exact avoids_writeCopy begun
          (fun member => clean (List.mem_of_mem_take member)) target _
      · exact avoids_writeCopy begun clean target _

end Avoiding

/-! ## Operations that are not disturbed -/

section Undisturbed

variable
  {disk : Disk Path}
  (undisturbed : disk.outcomes = [])

include undisturbed

omit [DecidableEq Path] in
theorem next_undisturbed : disk.next = (.succeeds, disk) := by
  simp [next, undisturbed]

omit [DecidableEq Path] in
theorem read_undisturbed (path : Path) :
    disk.read path = (disk.bytesAt path, disk) := by
  simp [read, next_undisturbed undisturbed]

theorem write_undisturbed (path : Path) (bytes : List UInt8) :
    disk.write path bytes = (.complete, disk.set path (some bytes)) := by
  simp [write, next_undisturbed undisturbed]

theorem append_undisturbed (path : Path) (bytes : List UInt8) :
    disk.append path bytes =
      (.complete,
        disk.set path (some ((disk.bytesAt path).getD [] ++ bytes))) := by
  simp [append, next_undisturbed undisturbed]

theorem unlink_undisturbed (path : Path) :
    disk.unlink path = disk.set path none := by
  simp [unlink, next_undisturbed undisturbed]

theorem rename_undisturbed
    {old : Path}
    {bytes : List UInt8}
    (present : disk.bytesAt old = some bytes)
    (new : Path) :
    disk.rename old new =
      (true, (disk.set old none).set new (some bytes)) := by
  simp [rename, next_undisturbed undisturbed, present]

theorem rename_missing
    {old : Path}
    (absent : disk.bytesAt old = none)
    (new : Path) :
    disk.rename old new = (false, disk) := by
  simp [rename, next_undisturbed undisturbed, absent]

/-- Whether or not there was a file to move, none is left behind. -/
theorem bytesAt_rename_old
    {old new : Path}
    (different : old ≠ new) :
    (disk.rename old new).2.bytesAt old = none := by
  cases stored : disk.bytesAt old with
  | none =>
      rw [rename_missing undisturbed stored]
      exact stored
  | some bytes =>
      rw [rename_undisturbed undisturbed stored,
        bytesAt_set_of_ne different, bytesAt_set_same]

theorem copy_undisturbed
    {source : Path}
    {bytes : List UInt8}
    (present : disk.bytesAt source = some bytes)
    (target : Path) :
    disk.copy source target =
      (true,
        disk.set target (some (if source = target then [] else bytes))) := by
  simp [copy, writeCopy, next_undisturbed undisturbed, present,
    write_undisturbed undisturbed]

theorem copy_missing
    {source : Path}
    (absent : disk.bytesAt source = none)
    (target : Path) :
    disk.copy source target = (false, disk) := by
  simp [copy, next_undisturbed undisturbed, absent]

end Undisturbed

/-! ## Removing several files -/

/-- The disk without the files at some paths. -/
def clear (paths : List Path) (disk : Disk Path) : Disk Path :=
  paths.foldl (fun cleared path => cleared.set path none) disk

@[simp] theorem outcomes_clear (paths : List Path) (disk : Disk Path) :
    (disk.clear paths).outcomes = disk.outcomes := by
  induction paths generalizing disk with
  | nil =>
      rfl
  | cons path rest inductionHypothesis =>
      exact inductionHypothesis (disk.set path none)

theorem bytesAt_clear
    (paths : List Path)
    (disk : Disk Path)
    (path : Path) :
    (disk.clear paths).bytesAt path =
      if path ∈ paths then none else disk.bytesAt path := by
  induction paths generalizing disk with
  | nil =>
      rfl
  | cons first rest inductionHypothesis =>
      have later := inductionHypothesis (disk.set first none)
      by_cases here : path = first
      · subst here
        simpa [clear] using later
      · simpa [clear, here, bytesAt_set_of_ne here] using later

/-! ## Operations that fail -/

/-- Write a file, and tell whether all bytes were written. -/
def writeAll
    (path : Path)
    (bytes : List UInt8)
    (disk : Disk Path) : Bool × Disk Path :=
  (decide ((disk.write path bytes).1 = .complete),
    (disk.write path bytes).2)

/-- The operation is done, or leaves what was at the path. -/
def spares
    (path : Path)
    (operation : Disk Path → Bool × Disk Path)
    (disk : Disk Path) : Bool :=
  (operation disk).1 ||
    decide ((operation disk).2.bytesAt path = disk.bytesAt path)

omit [DecidableEq Path] in
theorem spares_of_failed
    {path : Path}
    {operation : Disk Path → Bool × Disk Path}
    {disk : Disk Path}
    (failed : (operation disk).1 = false) :
    disk.spares path operation = true ↔
      (operation disk).2.bytesAt path = disk.bytesAt path := by
  simp [spares, failed]

theorem agreesOutside_writeAll
    (path : Path)
    (bytes : List UInt8)
    (disk : Disk Path) :
    AgreesOutside [path] disk (disk.writeAll path bytes).2 :=
  agreesOutside_write path bytes disk

theorem bytesAt_write_complete
    {path : Path}
    {bytes : List UInt8}
    {disk : Disk Path}
    (complete : (disk.write path bytes).1 = .complete) :
    (disk.write path bytes).2.bytesAt path = some bytes := by
  unfold write at complete ⊢
  split at complete
  · simp
  · cases complete
  · next count later taken =>
    simp only at complete
    split at complete
    · cases complete
    · next enough =>
      rw [bytesAt_set_same, List.take_of_length_le (Nat.le_of_not_lt enough)]

theorem bytesAt_writeAll
    {path : Path}
    {bytes : List UInt8}
    {disk : Disk Path}
    (done : (disk.writeAll path bytes).1 = true) :
    (disk.writeAll path bytes).2.bytesAt path = some bytes :=
  bytesAt_write_complete (by simpa [writeAll] using done)

theorem bytesAt_unlink (path : Path) (disk : Disk Path) :
    (disk.unlink path).bytesAt path = none ∨
      (disk.unlink path).bytesAt path = disk.bytesAt path := by
  unfold unlink
  split
  · simp
  · next outcome later notDone taken =>
    right
    rw [← disk.bytesAt_next, taken]

/-- A write that is not completed leaves the old bytes, or fewer new ones. -/
theorem bytesAt_write_incomplete
    {path : Path}
    {bytes : List UInt8}
    {disk : Disk Path}
    (incomplete : (disk.write path bytes).1 ≠ .complete) :
    ((disk.write path bytes).1 = .notOpened ∧
        (disk.write path bytes).2.bytesAt path = disk.bytesAt path) ∨
      ((disk.write path bytes).1 = .short ∧
        ∃ fewer,
          (disk.write path bytes).2.bytesAt path = some fewer ∧
            fewer.length < bytes.length) := by
  unfold write at incomplete ⊢
  split at incomplete
  · exact absurd rfl incomplete
  · next later taken =>
    left
    refine ⟨rfl, ?_⟩
    rw [← disk.bytesAt_next, taken]
  · next count later taken =>
    simp only at incomplete
    split at incomplete
    · next early =>
      right
      refine ⟨if_pos early, bytes.take count, bytesAt_set_same _ _ _, ?_⟩
      rw [List.length_take]
      exact Nat.lt_of_le_of_lt (Nat.min_le_left _ _) early
    · exact absurd rfl incomplete

/-- A file that could be opened for writing is empty at first. -/
theorem bytesAt_write_nil
    {path : Path}
    {disk : Disk Path}
    (opened : (disk.write path []).1 ≠ .notOpened) :
    (disk.write path []).2.bytesAt path = some [] := by
  by_cases complete : (disk.write path []).1 = .complete
  · exact bytesAt_write_complete complete
  · rcases bytesAt_write_incomplete complete with
      ⟨notOpened, _⟩ | ⟨_, fewer, _, short⟩
    · exact absurd notOpened opened
    · exact absurd short (Nat.not_lt_zero _)

theorem bytesAt_unlink_done
    {path : Path}
    {disk : Disk Path}
    (done : disk.next.1 = .succeeds) :
    (disk.unlink path).bytesAt path = none := by
  unfold unlink
  split
  · simp
  · next outcome later notDone taken =>
    rw [taken] at done
    exact (notDone done).elim

/-- A rename that fails changes nothing. -/
theorem bytesAt_rename_failed
    {old new : Path}
    {disk : Disk Path}
    (failed : (disk.rename old new).1 = false) :
    AgreesOutside [] disk (disk.rename old new).2 := by
  unfold rename at failed ⊢
  split at failed
  · split at failed
    · cases failed
    · exact agreesOutside_next ‹_› _
  · exact agreesOutside_next ‹_› _

theorem bytesAt_rename_done
    {old new : Path}
    {bytes : List UInt8}
    {disk : Disk Path}
    (stored : disk.bytesAt old = some bytes)
    (done : (disk.rename old new).1 = true) :
    (disk.rename old new).2.bytesAt new = some bytes := by
  unfold rename at done ⊢
  split at done
  · simp [stored]
  · cases done

/-- After an attempt to remove what was left half-way, it is not complete. -/
theorem bytesAt_unlink_fewer
    {path : Path}
    {bytes fewer : List UInt8}
    {disk : Disk Path}
    (left : disk.bytesAt path = some fewer)
    (short : fewer.length < bytes.length) :
    (disk.unlink path).bytesAt path ≠ some bytes := by
  rcases disk.bytesAt_unlink path with gone | same
  · simp [gone]
  · rw [same, left]
    intro complete
    cases complete
    exact Nat.lt_irrefl _ short

/-- A copy that fails leaves the old bytes, or not those it was to copy. -/
theorem bytesAt_writeCopy_failed
    {target : Path}
    {bytes readable : List UInt8}
    {disk : Disk Path}
    (part : readable.length ≤ bytes.length)
    (failed : (disk.writeCopy target readable bytes.length).1 = false) :
    let left :=
      (disk.writeCopy target readable bytes.length).2.bytesAt target
    left = disk.bytesAt target ∨ left ≠ some bytes := by
  intro left
  simp only [left]
  unfold writeCopy at failed ⊢
  split at failed
  · next written ended =>
    left
    rcases bytesAt_write_incomplete
        (show (disk.write target readable).1 ≠ .complete by simp [ended]) with
      ⟨_, unchanged⟩ | ⟨short, _⟩
    · rwa [ended] at unchanged
    · rw [ended] at short
      cases short
  · next written ended =>
    right
    rcases bytesAt_write_incomplete
        (show (disk.write target readable).1 ≠ .complete by simp [ended]) with
      ⟨notOpened, _⟩ | ⟨_, fewer, stored, short⟩
    · rw [ended] at notOpened
      cases notOpened
    · rw [ended] at stored
      exact bytesAt_unlink_fewer stored (Nat.lt_of_lt_of_le short part)
  · next written ended =>
    right
    split at failed
    · next early =>
      have stored :=
        bytesAt_write_complete
          (show (disk.write target readable).1 = .complete by simp [ended])
      rw [ended] at stored
      rw [if_pos early]
      exact bytesAt_unlink_fewer stored early
    · cases failed

theorem bytesAt_writeCopy_done
    {target : Path}
    {readable : List UInt8}
    {expected : Nat}
    {disk : Disk Path}
    (done : (disk.writeCopy target readable expected).1 = true) :
    expected ≤ readable.length ∧
      (disk.writeCopy target readable expected).2.bytesAt target =
        some readable := by
  unfold writeCopy at done ⊢
  split at done
  · cases done
  · cases done
  · next written ended =>
    split at done
    · cases done
    · next enough =>
      have stored :=
        bytesAt_write_complete
          (show (disk.write target readable).1 = .complete by simp [ended])
      rw [ended] at stored
      rw [if_neg enough]
      exact ⟨Nat.le_of_not_lt enough, stored⟩

theorem exists_of_copy_done
    {source target : Path}
    {disk : Disk Path}
    (done : (disk.copy source target).1 = true) :
    ∃ bytes, disk.bytesAt source = some bytes := by
  unfold copy at done
  split at done
  · cases done
  · split at done
    · cases done
    · next found stored => exact ⟨found, stored⟩

section Copying

variable
  {source target : Path}
  {bytes : List UInt8}
  {disk : Disk Path}
  (different : source ≠ target)
  (present : disk.bytesAt source = some bytes)

include different present

/-- What a copy does once its source is open: write some of the bytes. -/
theorem copy_eq_writeCopy :
    disk.copy source target = (false, disk.next.2) ∨
      ∃ count,
        disk.copy source target =
          disk.next.2.writeCopy target (bytes.take count) bytes.length := by
  unfold copy
  split
  · next later taken =>
    left
    rw [taken]
  · next opened later notRefused taken =>
    right
    simp only [present, if_neg different, taken]
    cases opened with
    | succeeds => exact ⟨bytes.length, by rw [List.take_length]⟩
    | refused => exact absurd rfl notRefused
    | stopsAfter count => exact ⟨count, rfl⟩

theorem bytesAt_copy_done (done : (disk.copy source target).1 = true) :
    (disk.copy source target).2.bytesAt target = some bytes := by
  rcases copy_eq_writeCopy different present with refused | ⟨count, written⟩
  · rw [refused] at done
    cases done
  · rw [written] at done ⊢
    obtain ⟨enough, stored⟩ := bytesAt_writeCopy_done done
    rw [List.length_take] at enough
    rw [stored, List.take_of_length_le (Nat.le_trans enough (Nat.min_le_left _ _))]

theorem bytesAt_copy_failed (failed : (disk.copy source target).1 = false) :
    (disk.copy source target).2.bytesAt target = disk.bytesAt target ∨
      (disk.copy source target).2.bytesAt target ≠ some bytes := by
  rcases copy_eq_writeCopy different present with refused | ⟨count, written⟩
  · left
    rw [refused, bytesAt_next]
  · rw [written] at failed ⊢
    have ended :=
      bytesAt_writeCopy_failed (List.length_take_le' count bytes) failed
    rwa [bytesAt_next] at ended

end Copying

end Disk

end DistributedDocs
