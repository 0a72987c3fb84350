import UnoOS.Fs.Room
import UnoOS.Fs.SlotFrames
import UnoOS.Kernel.FileContents
import UnoOS.Kernel.FileCounts
import UnoOS.Kernel.FileOpen
import UnoOS.Kernel.Proc

namespace UnoOS.Kernel

open UnoOS.Lib
open UnoOS.Fs

/-! The calls on a descriptor from `sys_open`, and when they come back. -/

/-- `sys_read`: the count and the bytes, or -1. -/
def sysRead (devlist : Devices) (p : ProcId) (fd len : UInt32) :
    KernelM (Option (UInt32 × List UInt8)) := do
  match ← argFd p fd with
  | none => return none
  | some (_, f) =>
      let result ← fileRead devlist f len
      return some result

def sysWrite (devlist : Devices) (p : ProcId) (fd len : UInt32) (src : Nat → UInt8) :
    KernelM (Option UInt32) := do
  match ← argFd p fd with
  | none => return none
  | some (_, f) =>
      let count ← fileWrite devlist f len src
      return some count

def sysLseek (p : ProcId) (fd offset : UInt32) (flags : Whence) :
    KernelM (Option UInt32) := do
  match ← argFd p fd with
  | none => return none
  | some (_, f) =>
      let offset ← fileLseek f offset flags
      return some offset

/-- `devlist` after `console_init`: the other entry points are null pointers.
`typed` is what a read finds in the line buffer; on `none` it sleeps. -/
def consoleDevices (typed : UInt32 → Option (UInt32 × List UInt8)) : Devices where
  read := fun major len =>
    if major = devConsole then
      match typed len with
      | some result => pure result
      | none => Exec.stop .sleeps
    else Exec.stop .nullPointer
  write := fun major _ _ =>
    if major = devConsole then pure 0 else Exec.stop .nullPointer

/-! The inode of a regular file. -/

/-- The tree of the inode is sound, and the disk knows a part of it. -/
structure Rooted (i : Slot) (s : FsState) : Prop where
  number : (s.icache i).inodeNum.toNat < 2048
  owned : SlotOwned alone () i s
  beneath : (diskRecord s i).Beneath (s.icache i).diskInode

structure Taken (i : Slot) (s : FsState) : Prop where
  ref : 1 ≤ (s.icache i).ref
  valid : (s.icache i).valid = true
  locked : (s.icache i).locked = true

section

variable {i : Slot} {s s' : FsState} {offset len : UInt32}

theorem Rooted.of_same (h : Rooted i s) (hdisk : s'.disk = s.disk)
    (hrecord : (s'.icache i).diskInode = (s.icache i).diskInode)
    (hnumber : (s'.icache i).inodeNum = (s.icache i).inodeNum) : Rooted i s' := by
  refine ⟨by rw [hnumber]; exact h.number, ?_, ?_⟩
  · unfold SlotOwned
    rw [hdisk, hrecord]
    exact h.owned
  · unfold diskRecord
    rw [hdisk, hnumber, hrecord]
    exact h.beneath

theorem Rooted.touches (h : Rooted i s) (htouch : Touches alone () i s s') :
    Rooted i s' := by
  have hrecord : diskRecord s' i = diskRecord s i := by
    unfold diskRecord
    rw [htouch.inodeNum]
    exact recordOf_congr h.number htouch.outside
  refine ⟨by rw [htouch.inodeNum]; exact h.number, htouch.owned, ?_⟩
  rw [hrecord]
  exact h.beneath.trans htouch.beneath

theorem Rooted.flush (h : Rooted i s) : Rooted i (s.flush i) := by
  have hdisk : ∀ b, InData b → (s.flush i).disk b = s.disk b :=
    fun b hb => putRecord_inData h.number _ (.inl hb)
  have hbitmap : (s.flush i).disk sb.dataBitmapStart = s.disk sb.dataBitmapStart :=
    putRecord_inData h.number _ (.inr rfl)
  have hrecord : diskRecord (s.flush i) i = (s.icache i).diskInode :=
    recordOf_putRecord _ _ _
  refine ⟨h.number, Owned.of_within h.owned ?_ ?_, ?_⟩
  · change Within (slotNumbers alone () i _) (slotNumbers alone () i s)
    rw [slotNumbers_congr h.owned hdisk rfl]
    exact Within.refl _
  · intro n _ hbit
    rwa [dataBit_congr hbitmap]
  · rw [hrecord]
    exact .refl _

theorem Rooted.reload (h : Rooted i s) : Rooted i (s.reload i) := by
  have hrecord : ((s.reload i).icache i).diskInode = diskRecord s i := by
    rw [FsState.reload_self]
    rfl
  have hself : diskRecord (s.reload i) i = diskRecord s i := by
    unfold diskRecord
    rw [FsState.reload_self, FsState.reload_disk]
  refine ⟨by rw [FsState.reload_self]; exact h.number, ?_, ?_⟩
  · refine Owned.of_within h.owned ?_ fun _ _ hbit => hbit
    rintro ⟨⟨⟩, p⟩ hp
    change slotNumbers alone () i (s.reload i) ((), p) ≠ 0 at hp
    change slotNumbers alone () i s ((), p) =
      slotNumbers alone () i (s.reload i) ((), p)
    rw [slotNumbers_self, hrecord] at hp
    rw [slotNumbers_self, slotNumbers_self, hrecord]
    exact h.beneath.numberAt_eq hp
  · rw [hself, hrecord]
    exact .refl _

theorem Taken.touches (h : Taken i s) (htouch : Touches alone () i s s') :
    Taken i s' := by
  obtain ⟨addrs, size, hslot⟩ := htouch.slot
  have hnode : s'.icache i = { s.icache i with
      diskInode := { (s.icache i).diskInode with addrs := addrs, size := size } } := by
    rw [hslot, Function.update_self]
  exact ⟨by rw [hnode]; exact h.ref, by rw [hnode]; exact h.valid,
    by rw [hnode]; exact h.locked⟩

theorem Taken.reload (h : Taken i s) : Taken i (s.reload i) := by
  refine ⟨?_, ?_, ?_⟩
  · rw [FsState.reload_self]
    exact h.ref
  · rw [FsState.reload_self]
    exact h.valid
  · rw [FsState.reload_self]
    exact h.locked

/-- `inode_read_data` reads at all. -/
def ReadsSome (size offset len : UInt32) : Prop :=
  ¬size < offset ∧ ¬offset + len < offset ∧ readTotal size offset len ≠ 0

/-- `inode_write_data` returns -1 and does nothing. -/
def Refused (offset len : UInt32) : Prop :=
  offset + len < offset ∨ maxFileSize < (offset + len).toNat

theorem inodeReadData_returns (h : Rooted i s) (htaken : Taken i s)
    (hfits : ReadsSome (diskRecord s i).size offset len →
      Fits s.disk (diskRecord s i) offset.toNat
        (readTotal (diskRecord s i).size offset len).toNat) :
    ∃ result s', inodeReadData i offset len s = .ok (result, s') ∧ Rooted i s' ∧
      Taken i s' := by
  have hrecord : ((s.reload i).icache i).diskInode = diskRecord s i := by
    rw [FsState.reload_self]
    rfl
  unfold inodeReadData
  rw [readSlot_bind, Exec.bind_of_ok (assertThat_of_true htaken.locked s),
    Exec.bind_of_ok (inodeRw_false_apply i s), readSlot_bind, hrecord]
  dsimp only
  split
  · exact ⟨_, _, rfl, h.reload, htaken.reload⟩
  · next hcase =>
    obtain ⟨total, htotal⟩ : ∃ total,
        total = readTotal (diskRecord s i).size offset len := ⟨_, rfl⟩
    change ∃ result s', (readLoop i (readTotal (diskRecord s i).size offset len).toNat
      offset.toNat (readTotal (diskRecord s i).size offset len).toNat >>= _) _ =
        .ok (result, s') ∧ _
    rw [← htotal]
    have hfits' : total.toNat ≠ 0 → Fits (s.reload i).disk
        ((s.reload i).icache i).diskInode offset.toNat total.toNat := by
      intro hne
      rw [hrecord, htotal]
      refine hfits ⟨fun hlt => hcase (.inl hlt), fun hlt => hcase (.inr hlt), ?_⟩
      rw [← htotal]
      rintro rfl
      exact hne rfl
    obtain ⟨bytes, s', hloop, hgrows⟩ := readLoop_returns total.toNat
      h.reload.owned htaken.reload.locked hfits'
    rw [Exec.bind_of_ok hloop]
    exact ⟨_, s', rfl, h.reload.touches hgrows.touches,
      htaken.reload.touches hgrows.touches⟩

theorem inodeWriteData_refused (src : Nat → UInt8) (hlocked : (s.icache i).locked)
    (hrefused : Refused offset len) :
    inodeWriteData i offset len src s = .ok (0xFFFFFFFF, s) := by
  unfold inodeWriteData
  rw [readSlot_bind, Exec.bind_of_ok (assertThat_of_true hlocked s)]
  by_cases hwrap : offset + len < offset
  · rw [if_pos hwrap]
    rfl
  · rw [if_neg hwrap, if_pos (hrefused.resolve_left hwrap)]
    rfl

theorem inodeWriteData_returns (src : Nat → UInt8) (h : Rooted i s) (htaken : Taken i s)
    (hfits : ¬Refused offset len → len ≠ 0 →
      Fits s.disk (s.icache i).diskInode offset.toNat len.toNat) :
    ∃ count s', inodeWriteData i offset len src s = .ok (count, s') ∧ Rooted i s' ∧
      Taken i s' := by
  by_cases hrefused : Refused offset len
  · exact ⟨_, s, inodeWriteData_refused src htaken.locked hrefused, h, htaken⟩
  · have hfits' : 0 < len.toNat → Fits s.disk (s.icache i).diskInode
        (offset.toNat + 0) (len.toNat - 0) := by
      intro hpos
      refine hfits hrefused ?_
      rintro rfl
      exact absurd hpos (by decide)
    obtain ⟨modified, s', hloop, htouch⟩ := writeLoop_returns len.toNat src
      false h.owned htaken.locked hfits'
    unfold inodeWriteData
    rw [readSlot_bind, Exec.bind_of_ok (assertThat_of_true htaken.locked s),
      if_neg fun hwrap => hrefused (.inl hwrap), if_neg fun hmax => hrefused (.inr hmax),
      Exec.bind_of_ok hloop]
    have hrooted := h.touches htouch
    have htaken' := htaken.touches htouch
    cases modified with
    | false => exact ⟨_, s', rfl, hrooted, htaken'⟩
    | true =>
        rw [if_pos rfl, Exec.bind_of_ok (inodeRw_true_apply i s')]
        exact ⟨_, _, rfl, hrooted.flush, htaken'.ref, htaken'.valid, htaken'.locked⟩

end

/-! The inode that `sys_open` leaves is in memory. -/

section

variable {s s' : FsState} {dp ip : Slot} {j : Slot}

theorem inodeGet_locked {inodeNum : UInt16} {i : Slot}
    (hrun : inodeGet inodeNum s = .ok (i, s')) :
    (s'.icache j).locked = (s.icache j).locked := by
  have hset : ∀ node : Inode, node.locked = (s.icache i).locked →
      ((s.setSlot i node).icache j).locked = (s.icache j).locked := by
    intro node hnode
    by_cases hj : j = i
    · subst hj
      rw [FsState.setSlot_icache, Function.update_self, hnode]
    · rw [FsState.setSlot_icache, Function.update_of_ne hj]
  rcases inodeGet_cases inodeNum s with ⟨c, _, hget⟩ | ⟨_, ⟨c, _, hget⟩ | ⟨_, hget⟩⟩
  · rw [hget] at hrun
    cases hrun
    exact hset _ rfl
  · rw [hget] at hrun
    cases hrun
    exact hset _ rfl
  · rw [hget] at hrun
    cases hrun

theorem inodeCreate_locked {type major minor : UInt16} {i : Slot}
    (hrun : inodeCreate type major minor s = .ok (i, s')) :
    (s'.icache j).locked = (s.icache j).locked := by
  unfold inodeCreate at hrun
  rw [assertThat_bind_eq_ok] at hrun
  obtain ⟨_, hrun⟩ := hrun
  obtain ⟨inodeNum, marked, halloc, hrun⟩ := Exec.bind_eq_ok.mp hrun
  rw [bufRead_bind_eq_ok, bufWrite_bind] at hrun
  rw [inodeGet_locked hrun.2, FsState.setBlock_icache,
    keepsIcache_bitmapAllocInode _ _ _ halloc]

theorem inodeLock_valid {value : Unit} (hrun : inodeLock ip s = .ok (value, s')) :
    (s'.icache ip).valid = true := by
  obtain ⟨_, _, rfl, _⟩ := inodeLock_eq_ok hrun
  rw [FsState.setSlot_icache, Function.update_self]

theorem keepsValid_setNlink (update : UInt16 → UInt16) :
    Exec.Keeps (fun s : FsState => (s.icache ip).valid) (setNlink ip update) := by
  intro s value s' hrun
  unfold setNlink at hrun
  rw [readSlot_bind, writeSlot_bind] at hrun
  obtain ⟨_, rfl⟩ := inodeRw_true_eq_ok.mp hrun
  change ((FsState.setSlot _ _ _).icache ip).valid = _
  rw [FsState.setSlot_icache, Function.update_self]

theorem linkNewInode_valid {name : Name} {junk : Junk} {value : Unit}
    (hdp : (s.icache dp).locked = true)
    (hrun : linkNewInode dp ip name junk ftFile s = .ok (value, s')) :
    (s'.icache ip).valid = true := by
  unfold linkNewInode at hrun
  obtain ⟨_, locked, hlock, hrun⟩ := Exec.bind_eq_ok.mp hrun
  have hne : ip ≠ dp := by
    rintro rfl
    rw [(inodeLock_eq_ok hlock).2.1] at hdp
    cases hdp
  obtain ⟨_, linked, hlink, hrun⟩ := Exec.bind_eq_ok.mp hrun
  rw [readSlot_bind, readSlot_bind, if_neg (by decide)] at hrun
  obtain ⟨added, written, hadd, hrun⟩ := Exec.bind_eq_ok.mp hrun
  rw [assertThat_bind_eq_ok] at hrun
  have hfreed := keepsSlot_inodeUnlockFree hne _ _ _ hrun.2
  have hwritten := keepsSlot_dirAddEntry hne _ _ _ _ _ hadd
  have hlinked := keepsValid_setNlink _ _ _ _ hlink
  dsimp only at hfreed hwritten hlinked
  rw [hfreed, hwritten, hlinked, inodeLock_valid hlock]

theorem pathCreateInode_valid {cwd : Slot} {junk : Junk} {path : List UInt8}
    {major minor : UInt16}
    (hrun : pathCreateInode cwd junk path ftFile major minor s = .ok (some ip, s')) :
    (s'.icache ip).valid = true := by
  unfold pathCreateInode at hrun
  obtain ⟨⟨parent, name⟩, walked, _, hrun⟩ := Exec.bind_eq_ok.mp hrun
  cases parent with
  | none => cases hrun
  | some dp =>
      dsimp only at hrun
      obtain ⟨_, locked, hlock, hrun⟩ := Exec.bind_eq_ok.mp hrun
      obtain ⟨inodeNum, searched, hsearch, hrun⟩ := Exec.bind_eq_ok.mp hrun
      obtain ⟨found, got, hget, hrun⟩ := Exec.bind_eq_ok.mp hrun
      have hdp : (got.icache dp).locked = true := by
        rw [inodeGet_locked hget, keepsIcache_dirSearchEntry dp name _ _ _ hsearch]
        obtain ⟨_, _, rfl, _⟩ := inodeLock_eq_ok hlock
        rw [FsState.setSlot_icache, Function.update_self]
      rw [readSlot_bind] at hrun
      split at hrun
      · obtain ⟨_, freed, _, hrun⟩ := Exec.bind_eq_ok.mp hrun
        obtain ⟨_, held, hhold, hrun⟩ := Exec.bind_eq_ok.mp hrun
        rw [readSlot_bind] at hrun
        split at hrun
        · cases hrun
          exact inodeLock_valid hhold
        · obtain ⟨_, _, _, hend⟩ := Exec.bind_eq_ok.mp hrun
          cases hend
      · obtain ⟨new, made, hcreate, hrun⟩ := Exec.bind_eq_ok.mp hrun
        rw [readSlot_bind] at hrun
        split at hrun
        · obtain ⟨_, _, _, hend⟩ := Exec.bind_eq_ok.mp hrun
          cases hend
        · obtain ⟨_, linked, hlink, hend⟩ := Exec.bind_eq_ok.mp hrun
          cases hend
          refine linkNewInode_valid ?_ hlink
          rw [inodeCreate_locked hcreate, hdp]

theorem openInode_valid {cwd : Slot} {junk : Junk} {path : List UInt8}
    {openMode : UInt32} (hrun : openInode cwd junk path openMode s = .ok (some ip, s')) :
    (s'.icache ip).valid = true := by
  unfold openInode at hrun
  split at hrun
  · exact pathCreateInode_valid hrun
  · obtain ⟨found, walked, _, hrun⟩ := Exec.bind_eq_ok.mp hrun
    cases found with
    | none => cases hrun
    | some i =>
        obtain ⟨_, locked, hlock, hend⟩ := Exec.bind_eq_ok.mp hrun
        cases hend
        exact inodeLock_valid hlock

end

/-! The descriptor. -/

inductive DescriptorOp where
  | read (len : UInt32)
  | write (len : UInt32) (src : Nat → UInt8)
  | lseek (offset : UInt32) (flags : Whence)

def descriptorCall (devlist : Devices) (p : ProcId) (fd : UInt32) :
    DescriptorOp → KernelM Unit
  | .read len => do
      let _ ← sysRead devlist p fd len
  | .write len src => do
      let _ ← sysWrite devlist p fd len src
  | .lseek offset flags => do
      let _ ← sysLseek p fd offset flags

def descriptorStep (devlist : Devices) (p : ProcId) (fd : UInt32) (k : KernelState)
    (op : DescriptorOp) : Option KernelState :=
  match descriptorCall devlist p fd op k with
  | .ok (_, k') => some k'
  | .error _ => none

/-- The descriptor is open on the inode in slot `i`, which is in memory. -/
structure Attached (p : ProcId) (fd : UInt32) (f : FileId) (i : Slot)
    (k : KernelState) : Prop where
  small : fd.toNat < filePerProc
  file : (k.procs p).filelist ⟨fd.toNat, small⟩ = some f
  ip : (k.ftable f).ip = some i
  ref : 1 ≤ (k.fs.icache i).ref
  valid : (k.fs.icache i).valid = true
  unlocked : (k.fs.icache i).locked = false

/-- The call meets none of the assertions of `file.c`, and the file system has the
blocks that it takes. -/
def Admitted (f : FileId) (i : Slot) (k : KernelState) : DescriptorOp → Prop
  | .read len => (k.ftable f).readable = true →
      ((k.ftable f).type = fdFile ∧
        (ReadsSome (diskRecord k.fs i).size (k.ftable f).offset len →
          Fits k.fs.disk (diskRecord k.fs i) (k.ftable f).offset.toNat
            (readTotal (diskRecord k.fs i).size (k.ftable f).offset len).toNat)) ∨
      ((k.ftable f).type = fdDevice ∧ (k.ftable f).major = devConsole)
  | .write len _ => (k.ftable f).writable = true →
      ((k.ftable f).type = fdFile ∧ (¬Refused (k.ftable f).offset len → len ≠ 0 →
        Fits k.fs.disk (k.fs.icache i).diskInode (k.ftable f).offset.toNat len.toNat)) ∨
      ((k.ftable f).type = fdDir ∧ Refused (k.ftable f).offset len) ∨
      ((k.ftable f).type = fdDevice ∧ (k.ftable f).major = devConsole)
  | .lseek _ flags => (k.ftable f).type = fdFile ∧ flags ≠ .other

/-- The call comes back, or sleeps until a line is typed; a directory is as it
was. -/
structure Unharmed (i : Slot) (f : FileId) (k : KernelState) (m : KernelM Unit) :
    Prop where
  returns : ∀ reason, m k = .error reason → reason = .sleeps
  entries : (k.ftable f).type = fdDir → ∀ k', m k = .ok ((), k') →
    k'.fs.disk = k.fs.disk ∧ (k'.fs.icache i).diskInode = (k.fs.icache i).diskInode

section

variable {typed : UInt32 → Option (UInt32 × List UInt8)} {p : ProcId} {fd : UInt32}
  {f : FileId} {i : Slot} {k k' : KernelState}

theorem argFd_bind {α : Type} (h : Attached p fd f i k)
    (g : Option (Fin filePerProc × FileId) → KernelM α) :
    (argFd p fd >>= g) k = g (some (⟨fd.toNat, h.small⟩, f)) k := by
  have hrun : argFd p fd k = .ok (some (⟨fd.toNat, h.small⟩, f), k) := by
    unfold argFd
    rw [dif_pos h.small, Exec.bind_of_ok (m := readProc p) rfl, h.file]
    rfl
  exact Exec.bind_of_ok hrun

theorem Attached.lock (h : Attached p fd f i k) :
    ∃ locked, inodeLock i k.fs = .ok ((), locked) ∧ Taken i locked ∧
      locked.disk = k.fs.disk ∧
      (locked.icache i).diskInode = (k.fs.icache i).diskInode ∧
      (locked.icache i).inodeNum = (k.fs.icache i).inodeNum := by
  have hloaded : ∀ hvalid : (k.fs.icache i).valid = false,
      validType (recordOf k.fs.disk (k.fs.icache i).inodeNum).type := by
    intro hvalid
    rw [h.valid] at hvalid
    cases hvalid
  have hrecord : (k.fs.icache i).loaded k.fs.disk = (k.fs.icache i).diskInode := by
    unfold Inode.loaded
    rw [if_pos h.valid]
  refine ⟨_, inodeLock_apply h.ref h.unlocked hloaded, ⟨?_, ?_, ?_⟩, rfl, ?_, ?_⟩
  · rw [FsState.setSlot_icache, Function.update_self]
    exact h.ref
  · rw [FsState.setSlot_icache, Function.update_self]
  · rw [FsState.setSlot_icache, Function.update_self]
  · rw [FsState.setSlot_icache, Function.update_self]
    exact hrecord
  · rw [FsState.setSlot_icache, Function.update_self]

theorem Attached.moved (h : Attached p fd f i k) {fs : FsState} (htaken : Taken i fs)
    (offset : UInt32) : Attached p fd f i (k.moved f
      (fs.setSlot i { fs.icache i with locked := false }) offset) := by
  have hnode : (k.moved f (fs.setSlot i { fs.icache i with locked := false })
      offset).fs.icache i = { fs.icache i with locked := false } :=
    Function.update_self ..
  refine ⟨h.small, h.file, ?_, by rw [hnode]; exact htaken.ref,
    by rw [hnode]; exact htaken.valid, by rw [hnode]⟩
  simp [KernelState.moved, h.ip]

theorem fileLseek_returns (offset : UInt32) {flags : Whence}
    (htype : (k.ftable f).type = fdFile) (hflags : flags ≠ .other) :
    ∃ offset' value, fileLseek f offset flags k =
      .ok (value, k.moved f k.fs offset') := by
  unfold fileLseek
  rw [readFile_bind]
  unfold kassert
  rw [Exec.require_of_true htype, pure_bind]
  cases flags with
  | set => exact ⟨_, _, rfl⟩
  | add => exact ⟨_, _, rfl⟩
  | sub => exact ⟨_, _, rfl⟩
  | other => exact absurd rfl hflags

theorem finish_returns {α : Type} (count : UInt32) (result : α) {fs : FsState}
    (htaken : Taken i fs)
    (htype : (k.ftable f).type = fdFile ∨ count = 0xFFFFFFFF) :
    ∃ offset, (do
      if count ≠ 0xFFFFFFFF then
        let _ ← fileLseek f count .add
      liftFs (inodeUnlock i)
      return result : KernelM α) { k with fs := fs } =
        .ok (result, k.moved f
          (fs.setSlot i { fs.icache i with locked := false }) offset) := by
  have hunlock : ∀ offset, liftFs (inodeUnlock i) (k.moved f fs offset) =
      .ok ((), k.moved f (fs.setSlot i { fs.icache i with locked := false })
        offset) := by
    intro offset
    have hrun := inodeUnlock_apply htaken.ref htaken.locked
    have hfs : (k.moved f fs offset).fs = fs := rfl
    unfold liftFs
    rw [hfs, hrun]
    rfl
  by_cases hcount : count = 0xFFFFFFFF
  · have hsame : ({ k with fs := fs } : KernelState) =
        k.moved f fs (k.ftable f).offset := by
      unfold KernelState.moved
      rw [Function.update_eq_self]
    rw [if_neg (not_not.mpr hcount), hsame]
    dsimp only
    rw [Exec.bind_of_ok (hunlock _)]
    exact ⟨_, rfl⟩
  · obtain ⟨offset, value, hseek⟩ := fileLseek_returns (k := { k with fs := fs })
      count (htype.resolve_right hcount) (show Whence.add ≠ .other by decide)
    have hseek' : fileLseek f count .add { k with fs := fs } =
        .ok (value, k.moved f fs offset) := hseek
    rw [if_pos hcount, Exec.bind_of_ok hseek']
    dsimp only
    rw [Exec.bind_of_ok (hunlock _)]
    exact ⟨_, rfl⟩

/-- A regular file is read if its blocks are there, or free ones for them. -/
theorem fileRead_returns (devlist : Devices) {len : UInt32} (h : Attached p fd f i k)
    (htype : (k.ftable f).type = fdFile) (hrooted : Rooted i k.fs)
    (hfits : ReadsSome (diskRecord k.fs i).size (k.ftable f).offset len →
      Fits k.fs.disk (diskRecord k.fs i) (k.ftable f).offset.toNat
        (readTotal (diskRecord k.fs i).size (k.ftable f).offset len).toNat) :
    ∃ result fs offset, Rooted i fs ∧ Taken i fs ∧
      ((k.ftable f).readable = true → fileRead devlist f len k = .ok (result,
        k.moved f (fs.setSlot i { fs.icache i with locked := false }) offset)) := by
  obtain ⟨locked, hlock, htaken, hdisk, hrecord, hnumber⟩ := h.lock
  have hdiskRecord : diskRecord locked i = diskRecord k.fs i := by
    unfold diskRecord
    rw [hdisk, hnumber]
  rw [← hdiskRecord, ← hdisk] at hfits
  obtain ⟨⟨count, bytes⟩, fs, hread, hrooted', htaken'⟩ := inodeReadData_returns
    (hrooted.of_same hdisk hrecord hnumber) htaken hfits
  obtain ⟨offset, hfinish⟩ := finish_returns (k := k) count (count, bytes)
    htaken' (.inl htype)
  refine ⟨(count, bytes), fs, offset, hrooted', htaken', fun hreadable => ?_⟩
  unfold fileRead
  rw [readFile_bind, if_neg (by rw [hreadable]; decide), if_pos (.inl htype), h.ip,
    deref_bind_eq_ok]
  refine ⟨i, rfl, ?_⟩
  rw [liftFs_bind_eq_ok]
  refine ⟨_, _, hlock, ?_⟩
  rw [liftFs_bind_eq_ok]
  exact ⟨_, _, hread, hfinish⟩

/-- A regular file is written if its blocks are there, or free ones for them; a write
that is refused leaves a directory as it was, too. -/
theorem fileWrite_returns (devlist : Devices) {len : UInt32} {src : Nat → UInt8}
    (h : Attached p fd f i k) (hwritable : (k.ftable f).writable = true)
    (hcase : ((k.ftable f).type = fdFile ∧ Rooted i k.fs ∧
        (¬Refused (k.ftable f).offset len → len ≠ 0 → Fits k.fs.disk
          (k.fs.icache i).diskInode (k.ftable f).offset.toNat len.toNat)) ∨
      ((k.ftable f).type = fdDir ∧ Refused (k.ftable f).offset len)) :
    ∃ count fs offset, Taken i fs ∧
      ((k.ftable f).type = fdFile → Rooted i fs) ∧
      ((k.ftable f).type = fdDir → fs.disk = k.fs.disk ∧
        (fs.icache i).diskInode = (k.fs.icache i).diskInode) ∧
      fileWrite devlist f len src k = .ok (count,
        k.moved f (fs.setSlot i { fs.icache i with locked := false }) offset) := by
  obtain ⟨locked, hlock, htaken, hdisk, hrecord, hnumber⟩ := h.lock
  -- what both kinds of file have in common
  have hwrites : ∀ {count fs}, (inodeWriteData i (k.ftable f).offset len src locked =
      .ok (count, fs)) → Taken i fs →
      ((k.ftable f).type = fdFile ∨ count = 0xFFFFFFFF) →
      ((k.ftable f).type = fdFile ∨ (k.ftable f).type = fdDir) →
      ∃ offset, fileWrite devlist f len src k = .ok (count,
        k.moved f (fs.setSlot i { fs.icache i with locked := false }) offset) := by
    intro count fs hwrite htaken' hseeks htype
    obtain ⟨offset, hfinish⟩ := finish_returns (k := k) count count
      htaken' hseeks
    refine ⟨offset, ?_⟩
    unfold fileWrite
    rw [readFile_bind, if_neg (by rw [hwritable]; decide), if_pos htype, h.ip,
      deref_bind_eq_ok]
    refine ⟨i, rfl, ?_⟩
    rw [liftFs_bind_eq_ok]
    refine ⟨_, _, hlock, ?_⟩
    rw [liftFs_bind_eq_ok]
    exact ⟨_, _, hwrite, hfinish⟩
  rcases hcase with ⟨htype, hrooted, hfits⟩ | ⟨htype, hrefused⟩
  · rw [← hdisk, ← hrecord] at hfits
    obtain ⟨count, fs, hwrite, hrooted', htaken'⟩ := inodeWriteData_returns src
      (hrooted.of_same hdisk hrecord hnumber) htaken hfits
    obtain ⟨offset, hrun⟩ := hwrites hwrite htaken' (.inl htype) (.inl htype)
    refine ⟨count, fs, offset, htaken', fun _ => hrooted', fun hdir => ?_, hrun⟩
    rw [htype] at hdir
    exact absurd hdir (by decide)
  · have hwrite := inodeWriteData_refused src htaken.locked hrefused
    obtain ⟨offset, hrun⟩ := hwrites hwrite htaken (.inr rfl) (.inr htype)
    refine ⟨_, locked, offset, htaken, fun hfile => ?_, fun _ => ⟨hdisk, hrecord⟩, hrun⟩
    rw [htype] at hfile
    exact absurd hfile (by decide)

def fileCall (devlist : Devices) (f : FileId) : DescriptorOp → KernelM Unit
  | .read len => do
      let _ ← fileRead devlist f len
  | .write len src => do
      let _ ← fileWrite devlist f len src
  | .lseek offset flags => do
      let _ ← fileLseek f offset flags

theorem descriptorCall_eq (devlist : Devices) (h : Attached p fd f i k)
    (op : DescriptorOp) :
    descriptorCall devlist p fd op k = fileCall devlist f op k := by
  cases op with
  | read len =>
      unfold descriptorCall sysRead fileCall
      dsimp only
      rw [bind_assoc, argFd_bind h, bind_assoc]
      rfl
  | write len src =>
      unfold descriptorCall sysWrite fileCall
      dsimp only
      rw [bind_assoc, argFd_bind h, bind_assoc]
      rfl
  | lseek offset flags =>
      unfold descriptorCall sysLseek fileCall
      dsimp only
      rw [bind_assoc, argFd_bind h, bind_assoc]
      rfl

structure Kept (p : ProcId) (fd : UInt32) (f : FileId) (i : Slot) (k k' : KernelState) :
    Prop where
  attached : Attached p fd f i k'
  rooted : (k'.ftable f).type = fdFile → Rooted i k'.fs
  entries : (k.ftable f).type = fdDir → k'.fs.disk = k.fs.disk ∧
    (k'.fs.icache i).diskInode = (k.fs.icache i).diskInode

theorem Kept.refl (h : Attached p fd f i k)
    (hrooted : (k.ftable f).type = fdFile → Rooted i k.fs) : Kept p fd f i k k :=
  ⟨h, hrooted, fun _ => ⟨rfl, rfl⟩⟩

theorem Kept.of_moved (h : Attached p fd f i k) {fs : FsState} (htaken : Taken i fs)
    (hrooted : (k.ftable f).type = fdFile → Rooted i fs)
    (hentries : (k.ftable f).type = fdDir → fs.disk = k.fs.disk ∧
      (fs.icache i).diskInode = (k.fs.icache i).diskInode) (offset : UInt32) :
    Kept p fd f i k (k.moved f
      (fs.setSlot i { fs.icache i with locked := false }) offset) := by
  have htype : ((k.moved f (fs.setSlot i { fs.icache i with locked := false })
      offset).ftable f).type = (k.ftable f).type := by
    simp [KernelState.moved]
  have hnode : (k.moved f (fs.setSlot i { fs.icache i with locked := false })
      offset).fs.icache i = { fs.icache i with locked := false } :=
    Function.update_self ..
  refine ⟨h.moved htaken offset, fun hfile => ?_, fun hdir => ?_⟩
  · rw [htype] at hfile
    exact (hrooted hfile).of_same rfl (by rw [hnode]) (by rw [hnode])
  · rw [hnode]
    exact hentries hdir

/-- The console is the only device that can be read. -/
theorem fileRead_console (typed : UInt32 → Option (UInt32 × List UInt8))
    (len : UInt32) (htype : (k.ftable f).type = fdDevice)
    (hmajor : (k.ftable f).major = devConsole)
    (hreadable : (k.ftable f).readable = true) :
    fileRead (consoleDevices typed) f len k = .error .sleeps ∨
      ∃ result, fileRead (consoleDevices typed) f len k = .ok (result, k) := by
  unfold fileRead
  rw [readFile_bind, if_neg (by rw [hreadable]; decide), if_neg (by rw [htype]; decide),
    if_pos htype, hmajor]
  unfold kassert
  rw [Exec.require_of_true (by decide), pure_bind]
  unfold consoleDevices
  dsimp only
  rw [if_pos rfl]
  cases typed len with
  | none => exact .inl rfl
  | some result => exact .inr ⟨result, rfl⟩

theorem fileWrite_console (len : UInt32) (src : Nat → UInt8)
    (htype : (k.ftable f).type = fdDevice)
    (hmajor : (k.ftable f).major = devConsole)
    (hwritable : (k.ftable f).writable = true) :
    fileWrite (consoleDevices typed) f len src k = .ok (0, k) := by
  unfold fileWrite
  rw [readFile_bind, if_neg (by rw [hwritable]; decide), if_neg (by rw [htype]; decide),
    if_pos htype, hmajor]
  unfold kassert
  rw [Exec.require_of_true (by decide), pure_bind]
  rfl

theorem Attached.call (typed : UInt32 → Option (UInt32 × List UInt8))
    (h : Attached p fd f i k)
    (hrooted : (k.ftable f).type = fdFile → Rooted i k.fs) {op : DescriptorOp}
    (hadmitted : Admitted f i k op) :
    descriptorCall (consoleDevices typed) p fd op k = .error .sleeps ∨
      ∃ k', descriptorCall (consoleDevices typed) p fd op k = .ok ((), k') ∧
        Kept p fd f i k k' := by
  rw [descriptorCall_eq _ h]
  have hsame := Kept.refl h hrooted
  cases op with
  | read len =>
      unfold fileCall
      dsimp only
      by_cases hreadable : (k.ftable f).readable = true
      · rcases hadmitted hreadable with ⟨htype, hfits⟩ | ⟨htype, hmajor⟩
        · obtain ⟨result, fs, offset, hrooted', htaken, hrun⟩ := fileRead_returns
            (consoleDevices typed) h htype (hrooted htype) hfits
          refine .inr ⟨_, Exec.bind_of_ok (hrun hreadable), ?_⟩
          refine Kept.of_moved h htaken (fun _ => hrooted') (fun hdir => ?_) offset
          rw [htype] at hdir
          exact absurd hdir (by decide)
        · rcases fileRead_console typed len htype hmajor hreadable with
            hsleeps | ⟨result, hrun⟩
          · left
            rw [Exec.bind_apply, hsleeps]
          · exact .inr ⟨k, Exec.bind_of_ok hrun, hsame⟩
      · have hrun : fileRead (consoleDevices typed) f len k = .ok ((0, []), k) := by
          unfold fileRead
          rw [readFile_bind, if_pos (Bool.eq_false_of_not_eq_true hreadable)]
          rfl
        exact .inr ⟨k, Exec.bind_of_ok hrun, hsame⟩
  | write len src =>
      right
      unfold fileCall
      dsimp only
      by_cases hwritable : (k.ftable f).writable = true
      · have hmoved : (((k.ftable f).type = fdFile ∧ Rooted i k.fs ∧
            (¬Refused (k.ftable f).offset len → len ≠ 0 → Fits k.fs.disk
              (k.fs.icache i).diskInode (k.ftable f).offset.toNat len.toNat)) ∨
            ((k.ftable f).type = fdDir ∧ Refused (k.ftable f).offset len)) →
            ∃ k', (do let _ ← fileWrite (consoleDevices typed) f len src) k =
              .ok ((), k') ∧ Kept p fd f i k k' := by
          intro hcase
          obtain ⟨count, fs, offset, htaken, hrooted', hentries, hrun⟩ :=
            fileWrite_returns (consoleDevices typed) h
              hwritable hcase
          exact ⟨_, Exec.bind_of_ok hrun,
            Kept.of_moved h htaken hrooted' hentries offset⟩
        rcases hadmitted hwritable with ⟨htype, hfits⟩ | hdir | ⟨htype, hmajor⟩
        · exact hmoved (.inl ⟨htype, hrooted htype, hfits⟩)
        · exact hmoved (.inr hdir)
        · exact ⟨k, Exec.bind_of_ok
            (fileWrite_console len src htype hmajor hwritable), hsame⟩
      · have hrun : fileWrite (consoleDevices typed) f len src k = .ok (0, k) := by
          unfold fileWrite
          rw [readFile_bind, if_pos (Bool.eq_false_of_not_eq_true hwritable)]
          rfl
        exact ⟨k, Exec.bind_of_ok hrun, hsame⟩
  | lseek offset flags =>
      obtain ⟨htype, hflags⟩ := hadmitted
      obtain ⟨offset', value, hrun⟩ := fileLseek_returns offset htype hflags
      refine .inr ⟨_, Exec.bind_of_ok hrun, ⟨h.small, h.file, ?_, h.ref, h.valid,
        h.unlocked⟩, fun _ => hrooted htype, fun hdir => ?_⟩
      · simp [KernelState.moved, h.ip]
      · rw [htype] at hdir
        exact absurd hdir (by decide)

theorem sysOpen_attached {junk : Junk} {path : List UInt8} {openMode : UInt32}
    {fd : Fin filePerProc} (hrun : sysOpen p junk path openMode k = .ok (some fd, k')) :
    ∃ f i, Attached p (UInt32.ofNat fd.val) f i k' := by
  unfold sysOpen procCwd at hrun
  rw [bind_assoc, readProc_bind, deref_bind_eq_ok] at hrun
  obtain ⟨cwd, _, hrun⟩ := hrun
  obtain ⟨file, opened, hopen, hrun⟩ := Exec.bind_eq_ok.mp hrun
  cases file with
  | none => cases hrun
  | some f =>
      obtain ⟨free, taken, halloc, hrun⟩ := Exec.bind_eq_ok.mp hrun
      rcases OpenRun.fdAlloc_result halloc with ⟨rfl, _, _⟩ | ⟨slot, rfl, _, rfl⟩
      · obtain ⟨_, _, _, hend⟩ := Exec.bind_eq_ok.mp hrun
        cases hend
      · rw [if_neg (by simp)] at hrun
        cases hrun
        obtain ⟨_, i, fs, unlocked, hfinds, hunlock, rfl⟩ := fileOpen_eq_ok.mp hopen
        obtain ⟨hlocked, href, rfl⟩ := inodeUnlock_eq_ok hunlock
        have hvalue : (UInt32.ofNat fd.val).toNat = fd.val := by
          refine UInt32.toNat_ofNat_of_lt' (fd.isLt.trans (by decide))
        have hip : (filled (k.ftable f) (fs.icache i) i openMode).ip = some i := by
          unfold filled
          split <;> rfl
        have hnode : (Function.update fs.icache i { fs.icache i with locked := false }) i =
            { fs.icache i with locked := false } := Function.update_self ..
        refine ⟨f, i, by rw [hvalue]; exact fd.isLt, ?_, ?_, ?_, ?_, ?_⟩
        · simp only [hvalue]
          simp [KernelState.setProc]
        · change (Function.update k.ftable f _ f).ip = some i
          rw [Function.update_self, hip]
        · change 1 ≤ (Function.update fs.icache i _ i).ref
          rw [hnode]
          exact href
        · change (Function.update fs.icache i _ i).valid = true
          rw [hnode]
          exact openInode_valid hfinds.1
        · change (Function.update fs.icache i _ i).locked = false
          rw [hnode]

/-- After `sys_open`, over a sound tree if it is that of a regular file, every run of
admitted calls on the descriptor comes back from each, or sleeps, and leaves the
entries of a directory alone. -/
theorem descriptor_calls_unharmed {junk : Junk} {path : List UInt8} {openMode : UInt32}
    {fd : Fin filePerProc} (typed : UInt32 → Option (UInt32 × List UInt8))
    (hopen : sysOpen p junk path openMode k = .ok (some fd, k')) :
    ∃ f i, Attached p (UInt32.ofNat fd.val) f i k' ∧
      (((k'.ftable f).type = fdFile → Rooted i k'.fs) → ∀ ops,
        Along (descriptorStep (consoleDevices typed) p (UInt32.ofNat fd.val))
          (Admitted f i) k' ops →
        Along (descriptorStep (consoleDevices typed) p (UInt32.ofNat fd.val))
          (fun k op => Unharmed i f k
            (descriptorCall (consoleDevices typed) p (UInt32.ofNat fd.val) op))
          k' ops) := by
  obtain ⟨f, i, h⟩ := sysOpen_attached hopen
  refine ⟨f, i, h, fun hrooted ops halong => ?_⟩
  refine along_of_along (I := fun k => Attached p (UInt32.ofNat fd.val) f i k ∧
    ((k.ftable f).type = fdFile → Rooted i k.fs)) ?_ ?_ ⟨h, hrooted⟩ halong
  · rintro k op next ⟨h, hrooted⟩ hadmitted hstep
    unfold descriptorStep at hstep
    rcases h.call typed hrooted hadmitted with hsleeps | ⟨after, hrun, hkept⟩
    · rw [hsleeps] at hstep
      cases hstep
    · rw [hrun] at hstep
      cases hstep
      exact ⟨hkept.attached, hkept.rooted⟩
  · rintro k op ⟨h, hrooted⟩ hadmitted
    rcases h.call typed hrooted hadmitted with hsleeps | ⟨after, hrun, hkept⟩
    · refine ⟨fun reason herror => ?_, fun _ final hfinal => ?_⟩
      · rw [hsleeps] at herror
        cases herror
        rfl
      · rw [hsleeps] at hfinal
        cases hfinal
    · refine ⟨fun reason herror => ?_, fun hdir final hfinal => ?_⟩
      · rw [hrun] at herror
        cases herror
      · rw [hrun] at hfinal
        cases hfinal
        exact hkept.entries hdir

end

/-! The first calls of a process at the root of a fresh image. -/

def atRoot : KernelState :=
  (KernelState.booted Mkfs.freshImage).setProc 0 { Proc.free with
    state := .running, cwd := some 0 }

def afterOpen (path : List UInt8) (openMode : UInt32) : Option KernelState :=
  match sysOpen 0 ⟨0, 0, 0⟩ path openMode atRoot with
  | .ok (some 0, k) => some k
  | _ => none

theorem afterOpen_eq_some {path : List UInt8} {openMode : UInt32} {k : KernelState}
    (h : afterOpen path openMode = some k) :
    sysOpen 0 ⟨0, 0, 0⟩ path openMode atRoot = .ok (some 0, k) := by
  unfold afterOpen at h
  split at h
  · next k' hrun =>
    cases h
    exact hrun
  · cases h

def noLines : UInt32 → Option (UInt32 × List UInt8) := fun _ => none

/-- The descriptor of the first file, which is empty, and its type after a byte is
written. -/
def NewDescriptor (k : KernelState) : Prop :=
  (k.procs 0).filelist 0 = some 0 ∧ (k.ftable 0).ip = some 1 ∧
    (k.ftable 0).type = fdFile ∧ (k.ftable 0).offset = 0 ∧
    (k.fs.icache 1).inodeNum.toNat < 2048 ∧ (k.fs.icache 1).valid = true ∧
    (∀ j, (k.fs.icache 1).diskInode.addrs j = 0) ∧
    (∀ j, (diskRecord k.fs 1).addrs j = 0) ∧ (k.fs.icache 1).diskInode.size = 0 ∧
    (diskRecord k.fs 1).size = 0 ∧ (k.fs.disk sb.dataBitmapStart).bit 8191 = false ∧
    (descriptorStep (consoleDevices noLines) 0 0 k (.write 1 fun _ => 65)).map
      (fun k' => (k'.ftable 0).type) = some fdFile

instance (k : KernelState) : Decidable (NewDescriptor k) :=
  inferInstanceAs (Decidable (_ ∧ _))

theorem fits_first_byte {disk : Disk} {d : InodeDisk}
    (hfree : (disk sb.dataBitmapStart).bit 8191 = false) : Fits disk d 0 1 := by
  refine ⟨by decide, fun bn _ hbn hneeds => ?_, ?_⟩
  · have hle : 10 ≤ bn := hneeds.1
    change bn * 1024 < 1 at hbn
    omega
  · have hplaces : (placesOf 0 1).card = 1 := by decide
    have hlacking := (Finset.card_filter_le (placesOf 0 1)
      fun p => numberAt disk d p = 0).trans hplaces.le
    refine hlacking.trans (Finset.card_pos.mpr ⟨8191, ?_⟩)
    exact Finset.mem_filter.mpr ⟨Finset.mem_range.mpr (by decide), hfree⟩

theorem descriptor_calls_unharmed_letter :
    ∃ k', sysOpen 0 ⟨0, 0, 0⟩ [slash, 97] 7 atRoot = .ok (some 0, k') ∧
      Along (descriptorStep (consoleDevices noLines) 0 0) (fun k op =>
          Unharmed 1 0 k (descriptorCall (consoleDevices noLines) 0 0 op))
        k' [.write 1 fun _ => 65, .lseek 0 .set] := by
  have hcheck : (afterOpen [slash, 97] 7).map (fun k => decide (NewDescriptor k)) =
      some true := by
    decide +kernel
  obtain ⟨k', hsome, hnew⟩ := Option.map_eq_some_iff.mp hcheck
  obtain ⟨hlist, hip, htype, hoffset, hnumber, hvalid, haddrs, hdisk, hsize, hdiskSize,
    hfree, hwritten⟩ := of_decide_eq_true hnew
  have hopen := afterOpen_eq_some hsome
  obtain ⟨f, i, h, hruns⟩ := descriptor_calls_unharmed noLines hopen
  have hfile := h.file
  change (k'.procs 0).filelist 0 = some f at hfile
  obtain rfl : f = 0 := Option.some_inj.mp (hfile.symm.trans hlist)
  obtain rfl : i = 1 := Option.some_inj.mp (h.ip.symm.trans hip)
  have htracks := Tracks.of_blank hnumber hvalid haddrs hdisk hsize hdiskSize
  refine ⟨k', hopen, hruns (fun _ => ⟨htracks.number, htracks.owned, htracks.beneath⟩) _
    ⟨fun _ => .inl ⟨htype, fun _ _ => ?_⟩, fun after hafter =>
      ⟨⟨?_, by decide⟩, fun _ _ => trivial⟩⟩⟩
  · rw [hoffset]
    exact fits_first_byte hfree
  · change descriptorStep (consoleDevices noLines) 0 0 k' _ = some after at hafter
    rw [hafter] at hwritten
    exact Option.some_inj.mp hwritten

def stopOf (path : List UInt8) (openMode : UInt32) (op : DescriptorOp) : Option Stop :=
  (afterOpen path openMode).bind fun k =>
    match descriptorCall (consoleDevices noLines) 0 0 op k with
    | .ok _ => none
    | .error reason => some reason

theorem stopOf_eq_some {path : List UInt8} {openMode : UInt32} {op : DescriptorOp}
    {reason : Stop} (h : stopOf path openMode op = some reason) :
    ∃ k, sysOpen 0 ⟨0, 0, 0⟩ path openMode atRoot = .ok (some 0, k) ∧
      descriptorCall (consoleDevices noLines) 0 0 op k = .error reason := by
  obtain ⟨k, hopen, hcall⟩ := Option.bind_eq_some_iff.mp h
  refine ⟨k, afterOpen_eq_some hopen, ?_⟩
  split at hcall
  · cases hcall
  · next found hrun =>
    cases hcall
    exact hrun

/-- The root directory is read and written, and a file is moved by a value that is
none of `LSEEK_SET`, `LSEEK_ADD` and `LSEEK_SUB`. -/
theorem descriptor_calls_panic :
    (∃ k, sysOpen 0 ⟨0, 0, 0⟩ [slash] 2 atRoot = .ok (some 0, k) ∧
      descriptorCall (consoleDevices noLines) 0 0 (.read 1) k = .error (.panic
        "file_lseek: type must be FD_FILE, received file id: %d")) ∧
    (∃ k, sysOpen 0 ⟨0, 0, 0⟩ [slash] 4 atRoot = .ok (some 0, k) ∧
      descriptorCall (consoleDevices noLines) 0 0 (.write 1 fun _ => 0) k =
        .error (.panic "file_lseek: type must be FD_FILE, received file id: %d")) ∧
    ∃ k, sysOpen 0 ⟨0, 0, 0⟩ [slash, 97] 7 atRoot = .ok (some 0, k) ∧
      descriptorCall (consoleDevices noLines) 0 0 (.lseek 0 .other) k =
        .error (.panic "file_lseek: invalid flags %d") :=
  ⟨stopOf_eq_some (by decide +kernel), stopOf_eq_some (by decide +kernel),
    stopOf_eq_some (by decide +kernel)⟩

end UnoOS.Kernel
