import UnoOS.Fs.DataCalls
import UnoOS.Kernel.File
import UnoOS.Lib.Transition
import UnoOS.Mkfs.Main

namespace UnoOS.Kernel

open UnoOS.Lib
open UnoOS.Fs

/-! What an open regular file holds over runs of `file_lseek`, `file_write` and
`file_read`. -/

abbrev singleBytes : Nat := singleBlocks * blockSize

/-- The records of the other inodes play no part here. -/
def alone : Unit → Option InodeDisk := fun _ => none

def diskRecord (s : FsState) (i : Slot) : InodeDisk :=
  recordOf s.disk (s.icache i).inodeNum

/-- The tree of the inode in slot `i` is sound, the disk knows a part of it,
and the bytes written so far can be read through it. -/
structure Tracks (written : Nat → Option UInt8) (i : Slot) (s : FsState) :
    Prop where
  number : (s.icache i).inodeNum.toNat < 2048
  valid : (s.icache i).valid = true
  owned : SlotOwned alone () i s
  beneath : (diskRecord s i).Beneath (s.icache i).diskInode
  size : (s.icache i).diskInode.size.toNat ≤ singleBytes
  diskSize : (diskRecord s i).size.toNat ≤ singleBytes
  bytes : ∀ o v, written o = some v → o < singleBytes ∧
    fileBlock alone () i s (o / blockSize) ≠ 0 ∧
      fileByte alone () i s o = v

section

variable {written : Nat → Option UInt8} {i : Slot} {s s' : FsState}

theorem Tracks.of_blank (hnumber : (s.icache i).inodeNum.toNat < 2048)
    (hvalid : (s.icache i).valid = true)
    (haddrs : ∀ j, (s.icache i).diskInode.addrs j = 0)
    (hdisk : ∀ j, (diskRecord s i).addrs j = 0)
    (hsize : (s.icache i).diskInode.size = 0)
    (hdiskSize : (diskRecord s i).size = 0) :
    Tracks (fun _ => none) i s := by
  have hzero : ∀ a, slotNumbers alone () i s a = 0 := by
    rintro ⟨⟨⟩, p⟩
    rw [slotNumbers_self]
    cases p <;> simp [numberAt, haddrs, through_zero]
  refine ⟨hnumber, hvalid, ⟨?_, ?_, ?_⟩, ?_, ?_, ?_, ?_⟩
  · intro a b _ hne
    exact absurd (hzero a) hne
  · intro a hne
    exact absurd (hzero a) hne
  · intro a hne
    exact absurd (hzero a) hne
  · intro j hj
    exact absurd (hdisk j) hj
  · rw [hsize]
    decide
  · rw [hdiskSize]
    decide
  · intro o v hv
    cases hv

/-- The lock flag and the other slots do not matter. -/
theorem Tracks.of_same (h : Tracks written i s) (hdisk : s'.disk = s.disk)
    (hrecord : (s'.icache i).diskInode = (s.icache i).diskInode)
    (hnumber : (s'.icache i).inodeNum = (s.icache i).inodeNum)
    (hvalid : (s'.icache i).valid = (s.icache i).valid) :
    Tracks written i s' := by
  have hnumbers : slotNumbers alone () i s' = slotNumbers alone () i s := by
    unfold slotNumbers
    rw [hdisk, hrecord]
  have hdiskRecord : diskRecord s' i = diskRecord s i := by
    unfold diskRecord
    rw [hdisk, hnumber]
  refine ⟨by rw [hnumber]; exact h.number, by rw [hvalid]; exact h.valid, ?_,
    by rw [hdiskRecord, hrecord]; exact h.beneath,
    by rw [hrecord]; exact h.size, by rw [hdiskRecord]; exact h.diskSize, ?_⟩
  · unfold SlotOwned
    rw [hdisk, hrecord]
    exact h.owned
  · intro o v hv
    unfold fileByte fileBlock
    rw [hnumbers, hdisk]
    exact h.bytes o v hv

theorem Tracks.flush (h : Tracks written i s) : Tracks written i (s.flush i) := by
  have hdisk : ∀ b, InData b → (s.flush i).disk b = s.disk b :=
    fun b hb => putRecord_inData h.number _ (.inl hb)
  have hbitmap : (s.flush i).disk sb.dataBitmapStart =
      s.disk sb.dataBitmapStart := putRecord_inData h.number _ (.inr rfl)
  have hnumbers : slotNumbers alone () i (s.flush i) =
      slotNumbers alone () i s := slotNumbers_congr h.owned hdisk rfl
  have hrecord : diskRecord (s.flush i) i = (s.icache i).diskInode :=
    recordOf_putRecord _ _ _
  refine ⟨h.number, h.valid, ?_, ?_, h.size, ?_, ?_⟩
  · refine Owned.of_within h.owned ?_ ?_
    · change Within (slotNumbers alone () i _) (slotNumbers alone () i s)
      rw [hnumbers]
      exact Within.refl _
    · intro n _ hbit
      rwa [dataBit_congr hbitmap]
  · rw [hrecord]
    exact .refl _
  · rw [hrecord]
    exact h.size
  · intro o v hv
    obtain ⟨ho, hmapped, hbyte⟩ := h.bytes o v hv
    obtain ⟨hblock, hsame⟩ := fileByte_flush h.owned h.number hmapped
    rw [hblock, hsame]
    exact ⟨ho, hmapped, hbyte⟩

theorem Tracks.reload (h : Tracks written i s)
    (hcurrent : ∀ o v, written o = some v →
      (diskRecord s i).addrs (topIndex (o / blockSize)) =
        (s.icache i).diskInode.addrs (topIndex (o / blockSize))) :
    Tracks written i (s.reload i) := by
  have hrecord : ((s.reload i).icache i).diskInode = diskRecord s i := by
    rw [FsState.reload_self]
    rfl
  have hself : diskRecord (s.reload i) i = diskRecord s i := by
    unfold diskRecord
    rw [FsState.reload_self, FsState.reload_disk]
  refine ⟨?_, ?_, ?_, ?_, ?_, ?_, ?_⟩
  · rw [FsState.reload_self]
    exact h.number
  · rw [FsState.reload_self]
    exact h.valid
  · refine Owned.of_within h.owned ?_ fun _ _ hbit => hbit
    rintro ⟨⟨⟩, p⟩ hp
    change slotNumbers alone () i (s.reload i) ((), p) ≠ 0 at hp
    change slotNumbers alone () i s ((), p) =
      slotNumbers alone () i (s.reload i) ((), p)
    rw [slotNumbers_self, hrecord] at hp
    rw [slotNumbers_self, slotNumbers_self, hrecord]
    exact h.beneath.numberAt_eq hp
  · rw [hself, hrecord]
    exact .refl _
  · rw [hrecord]
    exact h.diskSize
  · rw [hself]
    exact h.diskSize
  · intro o v hv
    have hblock : fileBlock alone () i (s.reload i) (o / blockSize) =
        fileBlock alone () i s (o / blockSize) := by
      unfold fileBlock
      rw [slotNumbers_self, slotNumbers_self, hrecord]
      exact numberAt_placeOf (hcurrent o v hv)
    unfold fileByte
    rw [hblock]
    exact h.bytes o v hv

theorem Tracks.grows (h : Tracks written i s)
    (hgrows : Grows alone () i s s') : Tracks written i s' := by
  obtain ⟨addrs, hslot⟩ := hgrows.slot
  have hnode : s'.icache i = { s.icache i with
      diskInode := { (s.icache i).diskInode with addrs := addrs } } := by
    rw [hslot, Function.update_self]
  have hrecord : diskRecord s' i = diskRecord s i := by
    unfold diskRecord
    rw [hnode]
    exact recordOf_congr h.number hgrows.outside
  refine ⟨by rw [hnode]; exact h.number, by rw [hnode]; exact h.valid,
    hgrows.owned, ?_, by rw [hnode]; exact h.size,
    by rw [hrecord]; exact h.diskSize, ?_⟩
  · rw [hrecord]
    exact h.beneath.trans hgrows.touches.beneath
  · intro o v hv
    obtain ⟨ho, hmapped, hbyte⟩ := h.bytes o v hv
    refine ⟨ho, ?_, ?_⟩
    · rw [hgrows.touches.fileBlock_eq hmapped]
      exact hmapped
    · rw [hgrows.fileByte_eq hmapped, hbyte]

/-- The bytes written after `len` more from `offset` on. -/
def overlay (written : Nat → Option UInt8) (offset len : Nat)
    (src : Nat → UInt8) : Nat → Option UInt8 :=
  fun o => if offset ≤ o ∧ o < offset + len then some (src (o - offset))
    else written o

theorem Tracks.writeLoop (h : Tracks written i s) {offset len : Nat}
    {src : Nat → UInt8} {modified : Bool} (hend : offset + len ≤ singleBytes)
    (hblank : BlankFor s.disk (s.icache i).diskInode offset (offset + len))
    (hrun : writeLoop i offset len src len 0 false s = .ok (modified, s')) :
    Tracks (overlay written offset len src) i s' := by
  change offset + len ≤ 534528 at hend
  have hreach : offset + len ≤ reachedBlocks * blockSize := by
    change offset + len ≤ 796672
    omega
  obtain ⟨htouch, hsize, hhere, helse⟩ := writeLoop_spec h.owned hreach
    (by exact hblank) (Nat.zero_le _) (by omega) hrun
  obtain ⟨addrs, size, hslot⟩ := htouch.slot
  have hnode : s'.icache i = { s.icache i with
      diskInode := { (s.icache i).diskInode with
        addrs := addrs, size := size } } := by
    rw [hslot, Function.update_self]
  have hrecord : diskRecord s' i = diskRecord s i := by
    unfold diskRecord
    rw [hnode]
    exact recordOf_congr h.number htouch.outside
  refine ⟨by rw [hnode]; exact h.number, by rw [hnode]; exact h.valid,
    htouch.owned, ?_, ?_, by rw [hrecord]; exact h.diskSize, ?_⟩
  · rw [hrecord]
    exact h.beneath.trans htouch.beneath
  · rcases hsize with hsame | hnew
    · rw [hsame]
      exact h.size
    · rw [hnew, UInt32.toNat_ofNat']
      exact Nat.le_trans (Nat.mod_le _ _) hend
  · intro o v hv
    unfold overlay at hv
    split at hv
    · next hrange =>
      cases hv
      refine ⟨?_, hhere o hrange.1 hrange.2⟩
      change o < 534528
      omega
    · next hrange =>
      obtain ⟨ho, hmapped, hbyte⟩ := h.bytes o v hv
      change o < 534528 at ho
      refine ⟨ho, ?_, ?_⟩
      · rw [htouch.fileBlock_eq hmapped]
        exact hmapped
      · rw [helse o (by change o < 796672; omega) (by omega) hmapped, hbyte]

end

/-! The calls on a regular file. -/

section

variable {devlist : Devices} {f : FileId} {i : Slot} {k k' : KernelState}

def KernelState.moved (k : KernelState) (f : FileId) (fs : FsState)
    (offset : UInt32) : KernelState :=
  { k with
    fs := fs
    ftable := Function.update k.ftable f { k.ftable f with offset := offset } }

theorem fileLseek_moves {offset value : UInt32} {flags : Whence}
    (hrun : fileLseek f offset flags k = .ok (value, k')) :
    ∃ offset', k' = k.moved f k.fs offset' := by
  unfold fileLseek at hrun
  rw [readFile_bind, kassert_bind_eq_ok] at hrun
  obtain ⟨_, hrun⟩ := hrun
  cases flags <;> cases hrun <;> exact ⟨_, rfl⟩

theorem moveAndUnlock {count : UInt32} {α : Type} {result value : α}
    {fs : FsState}
    (hrun : (do
      if count ≠ 0xFFFFFFFF then
        let _ ← fileLseek f count .add
      liftFs (inodeUnlock i)
      return result : KernelM α) { k with fs := fs } = .ok (value, k')) :
    value = result ∧ ∃ offset, k' = k.moved f
      (fs.setSlot i { fs.icache i with locked := false }) offset := by
  split at hrun
  · rw [Exec.bind_eq_ok] at hrun
    obtain ⟨_, middle, hseek, hrun⟩ := hrun
    obtain ⟨offset, rfl⟩ := fileLseek_moves hseek
    rw [liftFs_bind_eq_ok] at hrun
    obtain ⟨_, unlocked, hunlock, hend⟩ := hrun
    have hfs := (inodeUnlock_eq_ok hunlock).2.2
    cases hend
    exact ⟨rfl, offset, by rw [hfs]; rfl⟩
  · rw [liftFs_bind_eq_ok] at hrun
    obtain ⟨_, unlocked, hunlock, hend⟩ := hrun
    have hfs := (inodeUnlock_eq_ok hunlock).2.2
    cases hend
    refine ⟨rfl, (k.ftable f).offset, ?_⟩
    unfold KernelState.moved
    rw [hfs, Function.update_eq_self]

theorem fileWrite_regular {len count : UInt32} {src : Nat → UInt8}
    (htype : (k.ftable f).type = fdFile) (hip : (k.ftable f).ip = some i)
    (hrun : fileWrite devlist f len src k = .ok (count, k')) :
    ((k.ftable f).writable = false ∧ count = 0 ∧ k' = k) ∨
      (k.ftable f).writable = true ∧ ∃ locked fs offset,
        inodeLock i k.fs = .ok ((), locked) ∧
        inodeWriteData i (k.ftable f).offset len src locked = .ok (count, fs) ∧
        k' = k.moved f (fs.setSlot i { fs.icache i with locked := false })
          offset := by
  unfold fileWrite at hrun
  rw [readFile_bind] at hrun
  split at hrun
  · next hwritable =>
    cases hrun
    exact .inl ⟨hwritable, rfl, rfl⟩
  · next hwritable =>
    right
    rw [if_pos (.inl htype), hip, deref_bind_eq_ok] at hrun
    obtain ⟨_, heq, hrun⟩ := hrun
    cases heq
    rw [liftFs_bind_eq_ok] at hrun
    obtain ⟨_, locked, hlock, hrun⟩ := hrun
    rw [liftFs_bind_eq_ok] at hrun
    obtain ⟨_, fs, hwrite, hrun⟩ := hrun
    obtain ⟨rfl, offset, hmoved⟩ := moveAndUnlock hrun
    exact ⟨by simpa using hwritable, locked, fs, offset, hlock, hwrite, hmoved⟩

theorem fileRead_regular {len count : UInt32} {bytes : List UInt8}
    (htype : (k.ftable f).type = fdFile) (hip : (k.ftable f).ip = some i)
    (hrun : fileRead devlist f len k = .ok ((count, bytes), k')) :
    ((k.ftable f).readable = false ∧ count = 0 ∧ bytes = [] ∧ k' = k) ∨
      (k.ftable f).readable = true ∧ ∃ locked fs offset,
        inodeLock i k.fs = .ok ((), locked) ∧
        inodeReadData i (k.ftable f).offset len locked =
          .ok ((count, bytes), fs) ∧
        k' = k.moved f (fs.setSlot i { fs.icache i with locked := false })
          offset := by
  unfold fileRead at hrun
  rw [readFile_bind] at hrun
  split at hrun
  · next hreadable =>
    cases hrun
    exact .inl ⟨hreadable, rfl, rfl, rfl⟩
  · next hreadable =>
    right
    rw [if_pos (.inl htype), hip, deref_bind_eq_ok] at hrun
    obtain ⟨_, heq, hrun⟩ := hrun
    cases heq
    rw [liftFs_bind_eq_ok] at hrun
    obtain ⟨_, locked, hlock, hrun⟩ := hrun
    rw [liftFs_bind_eq_ok] at hrun
    obtain ⟨⟨count', bytes'⟩, fs, hread, hrun⟩ := hrun
    obtain ⟨heq, offset, hmoved⟩ := moveAndUnlock hrun
    cases heq
    exact ⟨by simpa using hreadable, locked, fs, offset, hlock, hread, hmoved⟩

end

namespace FileRun

/-- The kernel and, for each offset, the byte that the last successful
`file_write` over it stored. -/
structure State where
  kernel : KernelState
  written : Nat → Option UInt8

inductive Op where
  | lseek (offset : UInt32) (flags : Whence)
  | write (len : UInt32) (src : Nat → UInt8)
  | read (len : UInt32)

def State.offset (s : State) (f : FileId) : Nat :=
  (s.kernel.ftable f).offset.toNat

/-- One call on the open file `f`; `none` if it does not return. -/
def step (devlist : Devices) (f : FileId) (s : State) : Op → Option State
  | .lseek offset flags =>
      match fileLseek f offset flags s.kernel with
      | .ok (_, kernel) => some { s with kernel := kernel }
      | .error _ => none
  | .write len src =>
      match fileWrite devlist f len src s.kernel with
      | .ok (count, kernel) => some {
          kernel := kernel
          written := if count = 0xFFFFFFFF then s.written
            else overlay s.written (s.offset f) count.toNat src }
      | .error _ => none
  | .read len =>
      match fileRead devlist f len s.kernel with
      | .ok (_, kernel) => some { s with kernel := kernel }
      | .error _ => none

/-- A read that returns `count` bytes returns, wherever something was written
before, the byte most recently written. -/
def ReadsLatest (devlist : Devices) (f : FileId) (s : State) : Op → Prop
  | .read len => ∀ count bytes kernel,
      fileRead devlist f len s.kernel = .ok ((count, bytes), kernel) →
      count ≠ 0xFFFFFFFF →
      bytes.length = count.toNat ∧
        ∀ o v, s.written (s.offset f + o) = some v → o < count.toNat →
          bytes[o]? = some v
  | _ => True

def InReach (f : FileId) (s : State) : Op → Prop
  | .write len _ => s.offset f + len.toNat ≤ singleBytes
  | _ => True

/-- Before a read, the disk has the `addrs[]` entries of all written offsets.
Before a read or a write that takes a new table, the free blocks hold zeros. -/
def MapCurrent (f : FileId) (i : Slot) (s : State) : Op → Prop
  | .lseek _ _ => True
  | .write len _ => BlankFor s.kernel.fs.disk
      (s.kernel.fs.icache i).diskInode (s.offset f) (s.offset f + len.toNat)
  | .read len => (s.kernel.ftable f).readable →
      (∀ o v, s.written o = some v →
        (diskRecord s.kernel.fs i).addrs (topIndex (o / blockSize)) =
          (s.kernel.fs.icache i).diskInode.addrs (topIndex (o / blockSize))) ∧
      BlankFor s.kernel.fs.disk (diskRecord s.kernel.fs i) (s.offset f)
        (min (s.offset f + len.toNat) (diskRecord s.kernel.fs i).size.toNat)

/-- `f` is open on the regular file in slot `i`. -/
structure Opened (f : FileId) (i : Slot) (s : State) : Prop where
  type : (s.kernel.ftable f).type = fdFile
  ip : (s.kernel.ftable f).ip = some i
  tracks : Tracks s.written i s.kernel.fs

section

variable {devlist : Devices} {f : FileId} {i : Slot} {s s' : State}

theorem Opened.moved {written : Nat → Option UInt8} {fs : FsState}
    (h : Opened f i s) (htracks : Tracks written i fs) (offset : UInt32) :
    Opened f i ⟨s.kernel.moved f (fs.setSlot i { fs.icache i with
      locked := false }) offset, written⟩ := by
  refine ⟨?_, ?_, htracks.of_same rfl ?_ ?_ ?_⟩
  · simp [KernelState.moved, h.type]
  · simp [KernelState.moved, h.ip]
  · simp [KernelState.moved]
  · simp [KernelState.moved]
  · simp [KernelState.moved]

theorem Tracks.lock {written : Nat → Option UInt8} {fs locked : FsState}
    (h : Tracks written i fs) (hlock : inodeLock i fs = .ok ((), locked)) :
    Tracks written i locked ∧ locked.disk = fs.disk ∧
      (locked.icache i).diskInode = (fs.icache i).diskInode ∧
      (locked.icache i).inodeNum = (fs.icache i).inodeNum := by
  obtain ⟨_, _, rfl, _⟩ := inodeLock_eq_ok hlock
  refine ⟨h.of_same rfl ?_ ?_ ?_, rfl, ?_, ?_⟩ <;>
    simp [h.valid]

theorem step_lseek {offset : UInt32} {flags : Whence} (h : Opened f i s)
    (hstep : step devlist f s (.lseek offset flags) = some s') :
    Opened f i s' := by
  unfold step at hstep
  cases hrun : fileLseek f offset flags s.kernel with
  | error reason => simp [hrun] at hstep
  | ok pair =>
      simp only [hrun, Option.some.injEq] at hstep
      subst hstep
      obtain ⟨offset', hmoved⟩ := fileLseek_moves hrun
      refine ⟨?_, ?_, ?_⟩
      · rw [hmoved]
        simp [KernelState.moved, h.type]
      · rw [hmoved]
        simp [KernelState.moved, h.ip]
      · rw [hmoved]
        exact h.tracks

theorem step_write {len : UInt32} {src : Nat → UInt8} (h : Opened f i s)
    (hreach : InReach f s (.write len src))
    (hcurrent : MapCurrent f i s (.write len src))
    (hstep : step devlist f s (.write len src) = some s') :
    Opened f i s' := by
  unfold step at hstep
  cases hrun : fileWrite devlist f len src s.kernel with
  | error reason => simp [hrun] at hstep
  | ok pair =>
      obtain ⟨count, kernel⟩ := pair
      simp only [hrun, Option.some.injEq] at hstep
      subst hstep
      rcases fileWrite_regular h.type h.ip hrun with ⟨_, rfl, rfl⟩ |
        ⟨_, locked, fs, offset, hlock, hwrite, rfl⟩
      · -- nothing was written
        have hsame : overlay s.written (s.offset f) (0 : UInt32).toNat src =
            s.written := by
          funext o
          unfold overlay
          rw [if_neg (by simp)]
        rw [if_neg (by decide), hsame]
        exact h
      · refine h.moved ?_ offset
        obtain ⟨htracks, hdisk, hrecord, _⟩ := Tracks.lock h.tracks hlock
        rcases inodeWriteData_cases hwrite with ⟨rfl, rfl⟩ |
          ⟨rfl, modified, touched, hloop, rfl⟩
        · rw [if_pos rfl]
          exact htracks
        · have hlen : count ≠ 0xFFFFFFFF := by
            rintro rfl
            change s.offset f + 4294967295 ≤ 534528 at hreach
            omega
          rw [if_neg hlen]
          have hdone := Tracks.writeLoop htracks (by exact hreach)
            (by rw [hdisk, hrecord]; exact hcurrent) hloop
          cases modified with
          | false => exact hdone
          | true => exact hdone.flush

theorem fileRead_spec {len count : UInt32} {bytes : List UInt8}
    {kernel : KernelState} (h : Opened f i s)
    (hcurrent : MapCurrent f i s (.read len))
    (hrun : fileRead devlist f len s.kernel = .ok ((count, bytes), kernel)) :
    Opened f i { s with kernel := kernel } ∧
      (count ≠ 0xFFFFFFFF → bytes.length = count.toNat ∧
        ∀ o v, s.written (s.offset f + o) = some v → o < count.toNat →
          bytes[o]? = some v) := by
  rcases fileRead_regular h.type h.ip hrun with ⟨_, rfl, rfl, rfl⟩ |
    ⟨hreadable, locked, fs, offset, hlock, hread, rfl⟩
  · exact ⟨h, fun _ => ⟨rfl, fun o v _ ho => absurd ho (Nat.not_lt_zero o)⟩⟩
  · obtain ⟨hentries, hblank⟩ := hcurrent hreadable
    obtain ⟨htracks, hdisk, hrecord, hnumber⟩ := Tracks.lock h.tracks hlock
    have hdiskRecord : diskRecord locked i = diskRecord s.kernel.fs i := by
      unfold diskRecord
      rw [hdisk, hnumber]
    have hreload := htracks.reload (by
      intro o v hv
      rw [hdiskRecord, hrecord]
      exact hentries o v hv)
    rcases inodeReadData_cases hread with ⟨rfl, rfl⟩ |
      ⟨hsize, hwrap, hcount, hloop⟩
    · exact ⟨h.moved hreload offset, fun hne => absurd rfl hne⟩
    · change ¬(diskRecord locked i).size < _ at hsize
      change count = readTotal (diskRecord locked i).size _ len at hcount
      obtain ⟨htotal, hlen⟩ := readTotal_le hsize hwrap
      rw [← hcount, hdiskRecord] at htotal
      rw [← hcount] at hlen
      have hsmall := h.tracks.diskSize
      change (diskRecord s.kernel.fs i).size.toNat ≤ 534528 at hsmall
      change s.offset f + count.toNat ≤ _ at htotal
      change readLoop i count.toNat (s.offset f) count.toNat _ = _ at hloop
      obtain ⟨hgrows, hlength, hbytes⟩ := readLoop_spec hreload.owned
        (by
          change s.offset f + count.toNat ≤ 796672
          omega)
        (by
          intro bn hlow hhigh hneeds
          refine hdisk ▸ hblank bn hlow (by omega) ?_
          rw [FsState.reload_self] at hneeds
          rw [← hdiskRecord]
          exact hneeds) le_rfl hloop
      refine ⟨h.moved (hreload.grows hgrows) offset, fun _ => ⟨hlength, ?_⟩⟩
      intro o v hv ho
      obtain ⟨_, hbyte⟩ := hbytes o ho
      rw [hbyte, ((hreload.grows hgrows).bytes _ v hv).2.2]

theorem step_opened {op : Op} (h : Opened f i s) (hreach : InReach f s op)
    (hcurrent : MapCurrent f i s op) (hstep : step devlist f s op = some s') :
    Opened f i s' := by
  cases op with
  | lseek offset flags => exact step_lseek h hstep
  | write len src => exact step_write h hreach hcurrent hstep
  | read len =>
      unfold step at hstep
      cases hrun : fileRead devlist f len s.kernel with
      | error reason => simp [hrun] at hstep
      | ok pair =>
          obtain ⟨⟨count, bytes⟩, kernel⟩ := pair
          simp only [hrun, Option.some.injEq] at hstep
          subst hstep
          exact (fileRead_spec h hcurrent hrun).1

theorem readsLatest_of_current {op : Op} (h : Opened f i s)
    (hcurrent : MapCurrent f i s op) : ReadsLatest devlist f s op := by
  cases op with
  | lseek offset flags => trivial
  | write len src => trivial
  | read len =>
      intro count bytes kernel hrun
      exact (fileRead_spec h hcurrent hrun).2

/-- In every run whose reads find the map of the written blocks on the disk,
every read returns the bytes written last. -/
theorem reads_latest_when_map_current (devlist : Devices) (f : FileId)
    (i : Slot) (s : State) (ops : List Op) (hopened : Opened f i s)
    (hops : Along (step devlist f)
      (fun s op => InReach f s op ∧ MapCurrent f i s op) s ops) :
    Along (step devlist f) (ReadsLatest devlist f) s ops :=
  along_of_along (I := Opened f i)
    (fun _ _ _ h hop hstep => step_opened h hop.1 hop.2 hstep)
    (fun _ _ h hop => readsLatest_of_current h hop.2) hopened hops

end

/-! A file created on a fresh image. -/

def noDevices : Devices where
  read := fun _ _ => Exec.stop .nullPointer
  write := fun _ _ _ => Exec.stop .nullPointer

def created : State where
  kernel :=
    match fileOpen 0 ⟨0, 0, 0⟩ [slash, 97] 7 (.booted Mkfs.freshImage) with
    | .ok (_, k) => k
    | .error _ => .booted 0
  written := fun _ => none

theorem created_opened : Opened 0 1 created := by
  refine ⟨by decide +kernel, by decide +kernel, ?_⟩
  exact Tracks.of_blank (by decide +kernel) (by decide +kernel)
    (by decide +kernel) (by decide +kernel) (by decide +kernel)
    (by decide +kernel)

theorem reads_latest_when_map_current_first_byte :
    Along (step noDevices 0)
      (fun s op => InReach 0 s op ∧ MapCurrent 0 1 s op) created
      [.write 1 fun _ => 65, .lseek 0 .set, .read 1] ∧
    Along (step noDevices 0) (ReadsLatest noDevices 0) created
      [.write 1 fun _ => 65, .lseek 0 .set, .read 1] := by
  have hcheck : ((step noDevices 0 created (.write 1 fun _ => 65)).bind
      fun s => (step noDevices 0 s (.lseek 0 .set)).map fun s' =>
        decide (s'.offset 0 = 0 ∧ ∀ j, (diskRecord s'.kernel.fs 1).addrs j =
          (s'.kernel.fs.icache 1).diskInode.addrs j)) = some true := by
    decide +kernel
  obtain ⟨s, hwrite, hrest⟩ := Option.bind_eq_some_iff.mp hcheck
  obtain ⟨s', hseek, hvalues⟩ := Option.map_eq_some_iff.mp hrest
  obtain ⟨hoffset, hentries⟩ := of_decide_eq_true hvalues
  have hstart : created.offset 0 = 0 := by decide +kernel
  -- one byte at offset 0 takes no table
  have hdirect : ∀ (disk : Disk) (d : InodeDisk) (fin : Nat), fin ≤ 1 →
      BlankFor disk d 0 fin := by
    intro disk d fin hfin bn _ hbn hneeds
    have hle : 10 ≤ bn := hneeds.1
    change bn * 1024 < fin at hbn
    omega
  have hops : Along (step noDevices 0)
      (fun s op => InReach 0 s op ∧ MapCurrent 0 1 s op) created
      [.write 1 fun _ => 65, .lseek 0 .set, .read 1] := by
    refine along_cons ⟨?_, ?_⟩ hwrite (along_cons ⟨trivial, trivial⟩ hseek
      (⟨⟨trivial, ?_⟩, fun _ _ => trivial⟩))
    · change created.offset 0 + 1 ≤ 534528
      omega
    · change BlankFor _ _ (created.offset 0) (created.offset 0 + 1)
      rw [hstart]
      exact hdirect _ _ _ le_rfl
    · intro _
      refine ⟨fun o v _ => hentries _, ?_⟩
      rw [hoffset]
      exact hdirect _ _ _ (Nat.min_le_left _ _)
  exact ⟨hops, reads_latest_when_map_current noDevices 0 1 created _
    created_opened hops⟩

/-- A byte is written at offset 2048, then one at offset 0.  The second write
does not change the size, so its block is in memory only, and the read that
follows reloads the record without it. -/
theorem gap_write_is_lost :
    Opened 0 1 created ∧
      ¬ Along (step noDevices 0) (ReadsLatest noDevices 0) created
        [.lseek 2048 .set, .write 1 fun _ => 66, .lseek 0 .set,
          .write 1 fun _ => 65, .lseek 0 .set, .read 1] := by
  refine ⟨created_opened, ?_⟩
  intro halong
  have hsplit : ([.lseek 2048 .set, .write 1 fun _ => 66, .lseek 0 .set,
      .write 1 fun _ => 65, .lseek 0 .set, .read 1] : List Op) =
      [.lseek 2048 .set, .write 1 fun _ => 66, .lseek 0 .set,
        .write 1 fun _ => 65, .lseek 0 .set] ++ [.read 1] := rfl
  rw [hsplit] at halong
  have hcheck : ((run (step noDevices 0) created
      [.lseek 2048 .set, .write 1 fun _ => 66, .lseek 0 .set,
        .write 1 fun _ => 65, .lseek 0 .set]).bind fun s =>
          match fileRead noDevices 0 1 s.kernel with
          | .ok (result, _) => some (result, s.written (s.offset 0 + 0))
          | .error _ => none) = some ((1, [0]), some 65) := by
    decide +kernel
  obtain ⟨s, hrun, hread⟩ := Option.bind_eq_some_iff.mp hcheck
  have hlatest := (along_append halong hrun).1
  cases hresult : fileRead noDevices 0 1 s.kernel with
  | error reason => simp [hresult] at hread
  | ok pair =>
      obtain ⟨result, kernel⟩ := pair
      simp only [hresult, Option.some.injEq, Prod.mk.injEq] at hread
      obtain ⟨rfl, hwritten⟩ := hread
      have hbyte := (hlatest 1 [0] kernel hresult (by decide)).2 0 65 hwritten
        (by decide)
      exact absurd hbyte (by decide)

end FileRun

end UnoOS.Kernel
