import UnoOS.Fs.Layout

namespace UnoOS.Fs

open UnoOS.Lib

/-! Memory of the file system: the disk as the buffer cache presents it and the
in-memory inodes.  A `buf_read` that is followed by `buf_write` and
`buf_release` is one read and one write of the block. -/

structure Inode where
  diskInode : InodeDisk
  inodeNum : UInt16
  ref : UInt32
  valid : Bool
  /-- The running process holds `slk`. -/
  locked : Bool

abbrev iNodeCacheSize : Nat := 32

abbrev Slot := Fin iNodeCacheSize

structure Unset where
  bitmapBlock : UInt32
  num : UInt32
  /-- The bit was set before the call. -/
  wasSet : Bool
  deriving DecidableEq

structure FsState where
  disk : Disk
  icache : Slot → Inode
  /-- Calls of `bitmap_unset` so far.  Nothing in the kernel reads this. -/
  unsets : List Unset

abbrev FsM := Exec FsState Stop

namespace FsState

def setBlock (s : FsState) (blockNum : UInt32) (b : Block) : FsState :=
  { s with disk := Function.update s.disk blockNum b }

def setSlot (s : FsState) (i : Slot) (node : Inode) : FsState :=
  { s with icache := Function.update s.icache i node }

@[simp] theorem setBlock_icache (s : FsState) (blockNum : UInt32) (b : Block) :
    (s.setBlock blockNum b).icache = s.icache := rfl

@[simp] theorem setBlock_unsets (s : FsState) (blockNum : UInt32) (b : Block) :
    (s.setBlock blockNum b).unsets = s.unsets := rfl

@[simp] theorem setBlock_disk (s : FsState) (blockNum : UInt32) (b : Block) :
    (s.setBlock blockNum b).disk = Function.update s.disk blockNum b := rfl

@[simp] theorem setSlot_disk (s : FsState) (i : Slot) (node : Inode) :
    (s.setSlot i node).disk = s.disk := rfl

@[simp] theorem setSlot_unsets (s : FsState) (i : Slot) (node : Inode) :
    (s.setSlot i node).unsets = s.unsets := rfl

@[simp] theorem setSlot_icache (s : FsState) (i : Slot) (node : Inode) :
    (s.setSlot i node).icache = Function.update s.icache i node := rfl

def booted (disk : Disk) : FsState where
  disk := disk
  icache := fun _ => {
    diskInode := InodeDisk.zero
    inodeNum := inodeNumUnused
    ref := 0
    valid := false
    locked := false }
  unsets := []

end FsState

def assertThat (condition : Prop) [Decidable condition] (message : String) :
    FsM Unit :=
  Exec.require condition (.panic message)

/-- `buf_read`, as the contents of the block.  It stops at a number that the device does not
have: what is found for one depends on the buffers, and no call is followed further. -/
def bufRead (blockNum : UInt32) : FsM Block := do
  Exec.require (blockNum.toNat < nBlock) .ioError
  return (← get).disk blockNum

def bufWrite (blockNum : UInt32) (b : Block) : FsM Unit :=
  modify fun s => s.setBlock blockNum b

def readSlot (i : Slot) : FsM Inode := do
  return (← get).icache i

def writeSlot (i : Slot) (node : Inode) : FsM Unit :=
  modify fun s => s.setSlot i node

theorem bufRead_eq (blockNum : UInt32) (s : FsState) :
    bufRead blockNum s =
      if blockNum.toNat < nBlock then .ok (s.disk blockNum, s)
      else .error .ioError := by
  unfold bufRead Exec.require
  split <;> rfl

theorem bufRead_of_lt {blockNum : UInt32} (h : blockNum.toNat < nBlock)
    (s : FsState) : bufRead blockNum s = .ok (s.disk blockNum, s) := by
  rw [bufRead_eq, if_pos h]

theorem bufRead_eq_ok {blockNum : UInt32} {s s' : FsState} {b : Block} :
    bufRead blockNum s = .ok (b, s') ↔
      blockNum.toNat < nBlock ∧ b = s.disk blockNum ∧ s' = s := by
  rw [bufRead_eq]
  split
  · next h =>
    simp only [Except.ok.injEq, Prod.mk.injEq]
    constructor
    · rintro ⟨rfl, rfl⟩
      exact ⟨h, rfl, rfl⟩
    · rintro ⟨_, rfl, rfl⟩
      exact ⟨rfl, rfl⟩
  · next h => simp [h]

@[simp] theorem bufWrite_apply (blockNum : UInt32) (b : Block) (s : FsState) :
    bufWrite blockNum b s = .ok ((), s.setBlock blockNum b) := rfl

@[simp] theorem readSlot_apply (i : Slot) (s : FsState) :
    readSlot i s = .ok (s.icache i, s) := rfl

@[simp] theorem writeSlot_apply (i : Slot) (node : Inode) (s : FsState) :
    writeSlot i node s = .ok ((), s.setSlot i node) := rfl

theorem assertThat_eq_ok {condition : Prop} [Decidable condition]
    {message : String} {s s' : FsState} {value : Unit} :
    assertThat condition message s = .ok (value, s') ↔ condition ∧ s' = s :=
  Exec.require_eq_ok

theorem assertThat_of_true {condition : Prop} [Decidable condition]
    {message : String} (h : condition) (s : FsState) :
    assertThat condition message s = .ok ((), s) :=
  assertThat_eq_ok.mpr ⟨h, rfl⟩

/-! Running a computation one call at a time. -/

section

variable {α : Type}

theorem readSlot_bind (i : Slot) (f : Inode → FsM α) (s : FsState) :
    (readSlot i >>= f) s = f (s.icache i) s := rfl

theorem writeSlot_bind (i : Slot) (node : Inode) (f : Unit → FsM α)
    (s : FsState) : (writeSlot i node >>= f) s = f () (s.setSlot i node) := rfl

theorem bufWrite_bind (blockNum : UInt32) (b : Block) (f : Unit → FsM α)
    (s : FsState) :
    (bufWrite blockNum b >>= f) s = f () (s.setBlock blockNum b) := rfl

theorem bufRead_bind_eq_ok {blockNum : UInt32} {f : Block → FsM α}
    {s : FsState} {result : α × FsState} :
    (bufRead blockNum >>= f) s = .ok result ↔
      blockNum.toNat < nBlock ∧ f (s.disk blockNum) s = .ok result := by
  obtain ⟨value, final⟩ := result
  rw [Exec.bind_eq_ok]
  constructor
  · rintro ⟨b, s', hread, hrest⟩
    obtain ⟨hlt, rfl, rfl⟩ := bufRead_eq_ok.mp hread
    exact ⟨hlt, hrest⟩
  · rintro ⟨hlt, hrest⟩
    exact ⟨_, s, bufRead_of_lt hlt s, hrest⟩

theorem assertThat_bind_eq_ok {condition : Prop} [Decidable condition]
    {message : String} {f : Unit → FsM α} {s : FsState}
    {result : α × FsState} :
    (assertThat condition message >>= f) s = .ok result ↔
      condition ∧ f () s = .ok result :=
  Exec.require_bind_eq_ok

end

end UnoOS.Fs
