import UnoOS.Fs.Bitmap

namespace UnoOS.Fs

open UnoOS.Lib

/-! In-memory inodes and the data they manage (`inode.c`). -/

/-- `inode_rw`: copy the record between the slot and its inode block. -/
def inodeRw (i : Slot) (writeback : Bool) : FsM Unit := do
  let ip ← readSlot i
  let blockNum := inodeLocateBlockNum ip.inodeNum
  let b ← bufRead blockNum
  if writeback then
    bufWrite blockNum (ip.diskInode.store b (inodeOffset ip.inodeNum))
  else
    writeSlot i { ip with
      diskInode := InodeDisk.load b (inodeOffset ip.inodeNum) }

/-- `inode_get`: the slot that holds a number, or the first empty one. -/
def inodeGet (inodeNum : UInt16) : FsM Slot := do
  let icache := (← get).icache
  match (List.finRange iNodeCacheSize).find? fun i =>
      (icache i).inodeNum = inodeNum ∧ 0 < (icache i).ref with
  | some i =>
      writeSlot i { icache i with ref := (icache i).ref + 1 }
      return i
  | none =>
      match (List.finRange iNodeCacheSize).find? fun i =>
          (icache i).inodeNum = inodeNumUnused with
      | some i =>
          writeSlot i { icache i with
            inodeNum := inodeNum, ref := 1, valid := false }
          return i
      | none => Exec.stop (.panic "inode_get: no empty inode")

/-- `inode_create`: claim an inode number on disk and a slot for it. -/
def inodeCreate (type major minor : UInt16) : FsM Slot := do
  assertThat (type = ftDir ∨ type = ftFile ∨ type = ftDevice)
    "inode_create: invalid or reserved type id"
  let inodeNum ← bitmapAllocInode
  let blockNum := inodeLocateBlockNum inodeNum
  let b ← bufRead blockNum
  bufWrite blockNum
    ({ InodeDisk.zero with type := type, major := major, minor := minor }.store
      b (inodeOffset inodeNum))
  inodeGet inodeNum

/-- The entries of a table block up to the first zero one. -/
def freeEntries (free : UInt32 → FsM Unit) (table : Block) :
    (fuel index : Nat) → FsM Unit
  | 0, _ => pure ()
  | fuel + 1, index => do
      let entry := table.word (4 * index)
      if entry = 0 then
        pure ()
      else
        free entry
        freeEntries free table fuel (index + 1)

/-- `data_free`: release a block of the index tree and what hangs below it. -/
def dataFree : (level : Nat) → (blockNum : UInt32) → FsM Unit
  | 0, blockNum => do
      assertThat (blockNum ≠ 0) "data_free: block_num = 0"
      bitmapFreeBlock blockNum
  | level + 1, blockNum => do
      assertThat (blockNum ≠ 0) "data_free: block_num = 0"
      let table ← bufRead blockNum
      freeEntries (dataFree level) table entryPerBlock 0
      bitmapFreeBlock blockNum

def addrLevel (j : Fin nAddrs) : Nat :=
  if j.val < nAddrs1 then 0
  else if j.val < nAddrs1 + nAddrs2 then 1
  else 2

def freeAddr (i : Slot) (j : Fin nAddrs) : FsM Unit := do
  let ip ← readSlot i
  if ip.diskInode.addrs j ≠ 0 then
    dataFree (addrLevel j) (ip.diskInode.addrs j)
    writeSlot i { ip with diskInode := { ip.diskInode with
      addrs := Function.update ip.diskInode.addrs j 0 } }

def freeAddrs (i : Slot) : List (Fin nAddrs) → FsM Unit
  | [] => pure ()
  | j :: rest => do
      freeAddr i j
      freeAddrs i rest

def inodeFreeData (i : Slot) : FsM Unit := do
  let ip ← readSlot i
  assertThat ip.locked "inode_free_data: not holding slk"
  freeAddrs i (List.finRange nAddrs)

def inodeDestroy (i : Slot) : FsM Unit := do
  inodeFreeData i
  let ip ← readSlot i
  bitmapFreeInode ip.inodeNum

/-- The branch of `inode_free` that deletes the file. -/
def inodeFreeLast (i : Slot) : FsM Unit := do
  let ip ← readSlot i
  writeSlot i { ip with locked := true }
  inodeDestroy i
  let ip ← readSlot i
  writeSlot i { ip with diskInode := { ip.diskInode with type := ftUnused } }
  inodeRw i true
  let ip ← readSlot i
  writeSlot i { ip with
    inodeNum := inodeNumUnused, valid := false, locked := false }

def inodeFree (i : Slot) : FsM Unit := do
  let ip ← readSlot i
  assertThat (ip.locked = false) "inode_free: unexpectedly hold sleeplock"
  if ip.ref = 1 ∧ ip.valid ∧ ip.diskInode.nlink = 0 then
    inodeFreeLast i
  let ip ← readSlot i
  writeSlot i { ip with ref := ip.ref - 1 }

def inodeDup (i : Slot) : FsM Slot := do
  let ip ← readSlot i
  writeSlot i { ip with ref := ip.ref + 1 }
  return i

def validType (type : UInt16) : Prop :=
  type = ftDir ∨ type = ftFile ∨ type = ftDevice

instance (type : UInt16) : Decidable (validType type) :=
  inferInstanceAs (Decidable (_ ∨ _ ∨ _))

/-- `inode_lock`: acquire `slk` and load the record if it is not valid. -/
def inodeLock (i : Slot) : FsM Unit := do
  let ip ← readSlot i
  assertThat (1 ≤ ip.ref) "ilock: invalid inode or ref=0"
  Exec.require (ip.locked = false) .deadlock
  writeSlot i { ip with locked := true }
  if ip.valid = false then
    inodeRw i false
    let ip ← readSlot i
    writeSlot i { ip with valid := true }
    assertThat (validType ip.diskInode.type)
      "inode_lock: invalid or reserved type id"

def inodeUnlock (i : Slot) : FsM Unit := do
  let ip ← readSlot i
  assertThat (ip.locked ∧ 1 ≤ ip.ref)
    "inode_unlock: invalid inode or not holding lock"
  writeSlot i { ip with locked := false }

def inodeUnlockFree (i : Slot) : FsM Unit := do
  inodeUnlock i
  inodeFree i

/-- Follow an entry of `addrs[]`, allocating the block it lacks. -/
def locateAddr (i : Slot) (index : Nat) (check : UInt32 → Prop)
    [DecidablePred check] : FsM UInt32 := do
  if h : index < nAddrs then
    let ip ← readSlot i
    let entry := ip.diskInode.addrs ⟨index, h⟩
    if entry = 0 then
      let fresh ← bitmapAllocBlock
      assertThat (check fresh) "inode_locate_block: bitmap_alloc_block failed"
      writeSlot i { ip with diskInode := { ip.diskInode with
        addrs := Function.update ip.diskInode.addrs ⟨index, h⟩ fresh } }
      return fresh
    else
      return entry
  else
    Exec.stop .outOfBounds

/-- Follow an entry of a table block, allocating the block it lacks.  The table
is written back in either case.  Its buffer stays held during the allocation. -/
def locateEntry (tableBlock : UInt32) (index : Nat) : FsM UInt32 := do
  let table ← bufRead tableBlock
  let entry := table.word (4 * index)
  if entry = 0 then
    let fresh ← bitmapAllocBlock
    Exec.require (tableBlock ≠ sb.dataBitmapStart ∧ tableBlock ≠ fresh) .deadlock
    assertThat (fresh ≠ 0) "inode_locate_block: bitmap_alloc_block failed"
    bufWrite tableBlock (table.setWord (4 * index) fresh)
    return fresh
  else
    bufWrite tableBlock table
    return entry

/-- `inode_locate_block`: the block number of block `bn` of the file, which is
allocated if it does not exist. -/
def inodeLocateBlock (i : Slot) (bn : Nat) : FsM UInt32 := do
  let ip ← readSlot i
  assertThat ip.locked "inode_locate_block: not holding slk"
  if bn < nAddrs1 then
    locateAddr i bn (· ≠ 0xFFFFFFFF)
  else if bn < nAddrs1 + nAddrs2 * entryPerBlock then
    let index1 := (bn - nAddrs1) / entryPerBlock + nAddrs1
    let subBlock1 ← locateAddr i index1 (· ≠ 0)
    locateEntry subBlock1 ((bn - nAddrs1) % entryPerBlock)
  else if bn < nAddrs1 + nAddrs2 * entryPerBlock +
      nAddrs3 * entryPerBlock * entryPerBlock then
    let offset := bn - nAddrs1 - entryPerBlock * nAddrs2
    let index1 := offset / entryPerBlock * entryPerBlock + nAddrs1 + nAddrs2
    let subBlock1 ← locateAddr i index1 (· ≠ 0)
    let subBlock2 ← locateEntry subBlock1 (offset / entryPerBlock)
    locateEntry subBlock2 (offset % entryPerBlock)
  else
    Exec.stop (.panic "inode_locate_block: invalid block number")

def blockSlice (b : Block) (off len : Nat) : List UInt8 :=
  (List.range len).map fun k => b.get (off + k)

/-- The loop of `inode_read_data`: `remaining` bytes from file offset `beg`. -/
def readLoop (i : Slot) : (fuel beg remaining : Nat) → FsM (List UInt8)
  | 0, _, _ => pure []
  | fuel + 1, beg, remaining => do
      if remaining = 0 then
        pure []
      else
        let b ← bufRead (← inodeLocateBlock i (beg / blockSize))
        let readsize := min (blockSize - beg % blockSize) remaining
        let rest ← readLoop i fuel (beg + readsize) (remaining - readsize)
        return blockSlice b (beg % blockSize) readsize ++ rest

def inodeReadData (i : Slot) (offset len : UInt32) :
    FsM (UInt32 × List UInt8) := do
  let ip ← readSlot i
  assertThat ip.locked "inode_read_data: not holding slk"
  inodeRw i false
  let ip ← readSlot i
  let size := ip.diskInode.size
  if size < offset ∨ offset + len < offset then
    return (0xFFFFFFFF, [])
  else
    let total := if size < len + offset then size - offset else len
    let bytes ← readLoop i total.toNat offset.toNat total.toNat
    return (total, bytes)

/-- The loop of `inode_write_data`.  `count` of the `len` bytes are written;
the result says whether the size was modified. -/
def writeLoop (i : Slot) (offset len : Nat) (src : Nat → UInt8) :
    (fuel count : Nat) → (sizeModified : Bool) → FsM Bool
  | 0, _, sizeModified => pure sizeModified
  | fuel + 1, count, sizeModified => do
      if len ≤ count then
        pure sizeModified
      else
        let beg := offset + count
        let blockNum ← inodeLocateBlock i (beg / blockSize)
        let b ← bufRead blockNum
        let writesize := min (blockSize - beg % blockSize) (len - count)
        bufWrite blockNum
          (b.patch (beg % blockSize) writesize fun k => src (count + k))
        let ip ← readSlot i
        if ip.diskInode.size.toNat < offset + count + writesize then
          writeSlot i { ip with diskInode := { ip.diskInode with
            size := UInt32.ofNat (offset + len) } }
          writeLoop i offset len src fuel (count + writesize) true
        else
          writeLoop i offset len src fuel (count + writesize) sizeModified

def inodeWriteData (i : Slot) (offset len : UInt32) (src : Nat → UInt8) :
    FsM UInt32 := do
  let ip ← readSlot i
  assertThat ip.locked "inode_write_data: not holding slk"
  if offset + len < offset then
    return 0xFFFFFFFF
  else if maxFileSize < (offset + len).toNat then
    return 0xFFFFFFFF
  else
    let sizeModified ←
      writeLoop i offset.toNat len.toNat src len.toNat 0 false
    if sizeModified then
      inodeRw i true
    return len

end UnoOS.Fs
