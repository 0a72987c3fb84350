import UnoOS.Kernel.File
import UnoOS.Lib.First
import UnoOS.Mkfs.Main

namespace UnoOS.Kernel

open UnoOS.Lib
open UnoOS.Fs

/-! What `file_open` leaves in the entry of `ftable` it takes. -/

/-- The kernels differ in nothing but the contents of unused entries. -/
structure SameInUse (k k' : KernelState) : Prop where
  fs : k'.fs = k.fs
  pipes : k'.pipes = k.pipes
  procs : k'.procs = k.procs
  globalPid : k'.globalPid = k.globalPid
  proczero : k'.proczero = k.proczero
  ref : ∀ f, (k'.ftable f).ref = (k.ftable f).ref
  inUse : ∀ f, (k.ftable f).ref ≠ 0 → k'.ftable f = k.ftable f

structure SameOpened (file file' : File) : Prop where
  type : file'.type = file.type
  readable : file'.readable = file.readable
  writable : file'.writable = file.writable
  offset : file'.offset = file.offset
  ip : file'.ip = file.ip
  major : file.type = fdDevice → file'.major = file.major

abbrev FirstFree (k : KernelState) (f : FileId) : Prop :=
  First (fun f => (k.ftable f).ref = 0) f

def filled (old : File) (node : Inode) (ip : Slot) (openMode : UInt32) : File :=
  if node.diskInode.type = fdFile then
    { old with
      ref := 1, type := node.diskInode.type, major := node.diskInode.major
      ip := some ip, readable := openMode &&& modeRead ≠ 0
      writable := openMode &&& modeWrite ≠ 0 }
  else
    { old with
      ref := 1, type := node.diskInode.type, offset := 0, ip := some ip
      readable := openMode &&& modeRead ≠ 0
      writable := openMode &&& modeWrite ≠ 0 }

section

variable {cwd : Slot} {junk : Junk} {path : List UInt8} {openMode : UInt32}
  {k k' after : KernelState} {f : FileId} {ip : Slot} {fs : FsState}

theorem fileAlloc_iff :
    fileAlloc k = .ok (f, after) ↔
      FirstFree k f ∧ after = k.setFile f { k.ftable f with ref := 1 } := by
  unfold fileAlloc
  rw [Exec.bind_of_ok (m := get) rfl]
  cases hfind : (List.finRange nFile).find? fun f => (k.ftable f).ref = 0 with
  | none =>
      simp only [reduceCtorEq, Exec.stop, false_iff, not_and]
      intro hfirst
      rw [find?_eq_some_iff_first.mpr hfirst] at hfind
      cases hfind
  | some g =>
      have hg := find?_eq_some_iff_first.mp hfind
      constructor
      · intro h
        cases h
        exact ⟨hg, rfl⟩
      · rintro ⟨hfirst, rfl⟩
        rw [First.unique hfirst hg]
        rfl

/-- The inode that `file_open` goes on with, which is no device of a class
that does not exist. -/
def Finds (cwd : Slot) (junk : Junk) (path : List UInt8) (openMode : UInt32)
    (k : KernelState) (ip : Slot) (fs : FsState) : Prop :=
  openInode cwd junk path openMode k.fs = .ok (some ip, fs) ∧
    ¬((fs.icache ip).diskInode.type = ftDevice ∧
      majorTooLarge (fs.icache ip).diskInode.major)

theorem fileOpen_eq_ok :
    fileOpen cwd junk path openMode k = .ok (some f, after) ↔
      FirstFree k f ∧ ∃ ip fs unlocked, Finds cwd junk path openMode k ip fs ∧
        inodeUnlock ip fs = .ok ((), unlocked) ∧
        after = { k with
          fs := unlocked
          ftable := Function.update k.ftable f
            (filled (k.ftable f) (fs.icache ip) ip openMode) } := by
  unfold fileOpen
  rw [liftFs_bind_eq_ok]
  constructor
  · rintro ⟨found, fs, hopen, hrun⟩
    cases found with
    | none => cases hrun
    | some ip =>
        rw [liftFs_bind_eq_ok] at hrun
        obtain ⟨_, _, hnode, hrun⟩ := hrun
        cases hnode
        rw [kassert_bind_eq_ok, Exec.bind_eq_ok] at hrun
        obtain ⟨hdevice, g, taken, halloc, hrun⟩ := hrun
        obtain ⟨hfirst, rfl⟩ := fileAlloc_iff.mp halloc
        rw [readFile_bind] at hrun
        dsimp only at hrun
        split at hrun
        · next htype =>
          rw [writeFile_bind, liftFs_bind_eq_ok] at hrun
          obtain ⟨_, unlocked, hunlock, hrun⟩ := hrun
          rw [readFile_bind, writeFile_bind] at hrun
          cases hrun
          refine ⟨hfirst, ip, fs, unlocked, ⟨hopen, hdevice⟩, hunlock, ?_⟩
          rw [filled, if_pos htype]
          simp [KernelState.setFile]
        · next htype =>
          rw [writeFile_bind, liftFs_bind_eq_ok] at hrun
          obtain ⟨_, unlocked, hunlock, hrun⟩ := hrun
          rw [readFile_bind, writeFile_bind] at hrun
          cases hrun
          refine ⟨hfirst, ip, fs, unlocked, ⟨hopen, hdevice⟩, hunlock, ?_⟩
          rw [filled, if_neg htype]
          simp [KernelState.setFile]
  · rintro ⟨hfirst, ip, fs, unlocked, ⟨hopen, hdevice⟩, hunlock, rfl⟩
    refine ⟨some ip, fs, hopen, ?_⟩
    dsimp only
    rw [liftFs_bind_eq_ok]
    refine ⟨fs.icache ip, fs, rfl, ?_⟩
    have halloc : fileAlloc { k with fs := fs } = .ok (f,
        ({ k with fs := fs } : KernelState).setFile f
          { k.ftable f with ref := 1 }) := fileAlloc_iff.mpr ⟨hfirst, rfl⟩
    rw [kassert_bind_eq_ok, Exec.bind_of_ok halloc, readFile_bind]
    refine ⟨hdevice, ?_⟩
    dsimp only
    unfold filled
    split
    · next htype =>
      rw [writeFile_bind, liftFs_bind_eq_ok]
      refine ⟨(), unlocked, hunlock, ?_⟩
      rw [readFile_bind, writeFile_bind]
      simp [KernelState.setFile, Exec.pure_apply]
    · next htype =>
      rw [writeFile_bind, liftFs_bind_eq_ok]
      refine ⟨(), unlocked, hunlock, ?_⟩
      rw [readFile_bind, writeFile_bind]
      simp [KernelState.setFile, Exec.pure_apply]

theorem SameInUse.firstFree (h : SameInUse k k') (hfirst : FirstFree k f) :
    FirstFree k' f := by
  refine ⟨(h.ref f).trans hfirst.1, ?_⟩
  intro g hg hfree
  exact hfirst.2 g hg ((h.ref g).symm.trans hfree)

theorem SameInUse.fileOpen (h : SameInUse k k')
    (hopen : fileOpen cwd junk path openMode k = .ok (some f, after)) :
    ∃ ip fs after', FirstFree k f ∧ Finds cwd junk path openMode k ip fs ∧
      after.ftable f = filled (k.ftable f) (fs.icache ip) ip openMode ∧
      fileOpen cwd junk path openMode k' = .ok (some f, after') ∧
      after'.ftable f = filled (k'.ftable f) (fs.icache ip) ip openMode := by
  obtain ⟨hfirst, ip, fs, unlocked, hfinds, hunlock, rfl⟩ :=
    fileOpen_eq_ok.mp hopen
  have hfinds' : Finds cwd junk path openMode k' ip fs := by
    unfold Finds
    rw [h.fs]
    exact hfinds
  exact ⟨ip, fs, _, hfirst, hfinds, Function.update_self ..,
    fileOpen_eq_ok.mpr ⟨h.firstFree hfirst, ip, fs, unlocked, hfinds', hunlock,
      rfl⟩, Function.update_self ..⟩

/-- Of what an entry held before, a regular file keeps the offset and a device
the device number. -/
theorem sameOpened_filled_iff (old old' : File) (node : Inode) (ip : Slot)
    (openMode : UInt32) :
    SameOpened (filled old node ip openMode) (filled old' node ip openMode) ↔
      (node.diskInode.type = fdFile → old'.offset = old.offset) ∧
        (node.diskInode.type = fdDevice → old'.major = old.major) := by
  unfold filled
  split
  · next htype =>
    constructor
    · intro h
      refine ⟨fun _ => h.offset, ?_⟩
      intro hdevice
      rw [htype] at hdevice
      exact absurd hdevice (by decide)
    · intro h
      exact ⟨rfl, rfl, rfl, h.1 htype, rfl, fun _ => rfl⟩
  · next htype =>
    constructor
    · intro h
      exact ⟨fun hfile => absurd hfile htype, h.major⟩
    · intro h
      exact ⟨rfl, rfl, rfl, rfl, rfl, h.2⟩

/-- Two kernels that agree on all but unused entries open a file alike exactly
when the entry taken holds the same offset (for a regular file) or the same
device number (for a device).  The offset of a regular file starts at 0, and a
device has the number of its inode, exactly when the entry had it before. -/
theorem open_independent_iff (hsame : SameInUse k k')
    (hopen : fileOpen cwd junk path openMode k = .ok (some f, after)) :
    FirstFree k f ∧ ∃ ip fs after', Finds cwd junk path openMode k ip fs ∧
      fileOpen cwd junk path openMode k' = .ok (some f, after') ∧
      let node := (fs.icache ip).diskInode
      (SameOpened (after.ftable f) (after'.ftable f) ↔
        (node.type = fdFile →
          (k'.ftable f).offset = (k.ftable f).offset) ∧
        (node.type = fdDevice → (k'.ftable f).major = (k.ftable f).major)) ∧
      (node.type = fdFile →
        ((after.ftable f).offset = 0 ↔ (k.ftable f).offset = 0)) ∧
      (node.type = fdDevice →
        ((after.ftable f).major = node.major ↔
          (k.ftable f).major = node.major)) := by
  obtain ⟨ip, fs, after', hfirst, hfinds, hfile, hopen', hfile'⟩ :=
    hsame.fileOpen hopen
  refine ⟨hfirst, ip, fs, after', hfinds, hopen', ?_, ?_, ?_⟩
  · rw [hfile, hfile']
    exact sameOpened_filled_iff _ _ _ _ _
  · intro htype
    rw [hfile, filled, if_pos htype]
  · intro htype
    have hother : (fs.icache ip).diskInode.type ≠ fdFile := by
      rw [htype]
      decide
    rw [hfile, filled, if_neg hother]

end

/-! A file that was moved in and closed. -/

/-- `file_open("/a", MODE_CREATE | MODE_READ | MODE_WRITE)` after boot and
`file_close`. -/
def closedOnce : KernelState :=
  match fileOpen 0 ⟨0, 0, 0⟩ [slash, 97] 7 (.booted Mkfs.freshImage) with
  | .ok (some f, k) =>
      match fileClose f k with
      | .ok (_, k) => k
      | .error _ => .booted 0
  | _ => .booted 0

/-- The same with a `file_lseek` to an offset before the `file_close`. -/
def closedAt (offset : UInt32) : KernelState :=
  closedOnce.setFile 0 { closedOnce.ftable 0 with offset := offset }

theorem sameInUse_closedAt (offset offset' : UInt32) :
    SameInUse (closedAt offset) (closedAt offset') := by
  have hzero : (closedOnce.ftable 0).ref = 0 := by decide +kernel
  refine ⟨rfl, rfl, rfl, rfl, rfl, ?_, ?_⟩
  · intro f
    by_cases hf : f = 0
    · simp [closedAt, hf]
    · simp [closedAt, hf]
  · intro f hf
    by_cases hzero' : f = 0
    · simp [closedAt, hzero', hzero] at hf
    · simp [closedAt, hzero']

/-- The entry that `file_open("/a", MODE_READ)` takes, its type and its
offset. -/
def opened (k : KernelState) : Option (FileId × UInt16 × UInt32) :=
  match fileOpen 0 ⟨0, 0, 0⟩ [slash, 97] 2 k with
  | .ok (some f, k) => some (f, (k.ftable f).type, (k.ftable f).offset)
  | _ => none

theorem opened_eq_some {k : KernelState} {f : FileId} {type : UInt16}
    {offset : UInt32} (h : opened k = some (f, type, offset)) :
    ∃ after, fileOpen 0 ⟨0, 0, 0⟩ [slash, 97] 2 k = .ok (some f, after) ∧
      (after.ftable f).type = type ∧ (after.ftable f).offset = offset := by
  unfold opened at h
  split at h
  · next g after hopen =>
    cases h
    exact ⟨after, hopen, rfl, rfl⟩
  · cases h

theorem open_independent_iff_closed :
    SameInUse (closedAt 0) (closedAt 5) ∧ ∃ after,
      fileOpen 0 ⟨0, 0, 0⟩ [slash, 97] 2 (closedAt 0) = .ok (some 0, after) ∧
      FirstFree (closedAt 0) 0 ∧ ∃ ip fs after',
        Finds 0 ⟨0, 0, 0⟩ [slash, 97] 2 (closedAt 0) ip fs ∧
        fileOpen 0 ⟨0, 0, 0⟩ [slash, 97] 2 (closedAt 5) =
          .ok (some 0, after') := by
  have hcheck : opened (closedAt 0) = some (0, fdFile, 0) := by decide +kernel
  obtain ⟨after, hopen, _, _⟩ := opened_eq_some hcheck
  obtain ⟨hfirst, ip, fs, after', hfinds, hopen', _⟩ :=
    open_independent_iff (sameInUse_closedAt 0 5) hopen
  exact ⟨sameInUse_closedAt 0 5, after, hopen, hfirst, ip, fs, after', hfinds,
    hopen'⟩

/-- A file is moved to offset 5 and closed; the next file opened starts
there. -/
theorem opened_at_old_offset :
    SameInUse (closedAt 0) (closedAt 5) ∧ ∃ after after',
      fileOpen 0 ⟨0, 0, 0⟩ [slash, 97] 2 (closedAt 0) = .ok (some 0, after) ∧
      fileOpen 0 ⟨0, 0, 0⟩ [slash, 97] 2 (closedAt 5) = .ok (some 0, after') ∧
      (after'.ftable 0).type = fdFile ∧ (after'.ftable 0).offset = 5 ∧
      ¬SameOpened (after.ftable 0) (after'.ftable 0) := by
  have hzero : opened (closedAt 0) = some (0, fdFile, 0) := by decide +kernel
  have hfive : opened (closedAt 5) = some (0, fdFile, 5) := by decide +kernel
  obtain ⟨after, hopen, _, hoffset⟩ := opened_eq_some hzero
  obtain ⟨after', hopen', htype', hoffset'⟩ := opened_eq_some hfive
  refine ⟨sameInUse_closedAt 0 5, after, after', hopen, hopen', htype', hoffset',
    ?_⟩
  intro hsame
  have heq := hsame.offset
  rw [hoffset, hoffset'] at heq
  exact absurd heq (by decide)

end UnoOS.Kernel
