import UnoOS.Lib.Bytes
import UnoOS.Lib.Exec

namespace UnoOS.Fs

open UnoOS.Lib

/-! On-disk layout shared by the kernel and the image maker:
`[ super block | inode bitmap | inode blocks | data bitmap | data blocks ]`. -/

abbrev blockSize : Nat := 1024

abbrev nDataBlock : Nat := 8192

abbrev nInodeBlock : Nat := 128

abbrev nBlock : Nat := nDataBlock + nInodeBlock + 3

abbrev Block := Bytes blockSize

abbrev Disk := UInt32 → Block

structure SuperBlock where
  magic : UInt32
  blockSize : UInt32
  inodeBitmapStart : UInt32
  inodeStart : UInt32
  dataBitmapStart : UInt32
  dataStart : UInt32
  inodeBlocks : UInt32
  dataBlocks : UInt32
  totalBlocks : UInt32
  deriving DecidableEq

/-- The super block that `mkfs` writes and `fs_init` loads into the global
`sb`. -/
def sb : SuperBlock where
  magic := 0x12345678
  blockSize := 1024
  inodeBitmapStart := 1
  inodeStart := 2
  dataBitmapStart := 130
  dataStart := 131
  inodeBlocks := 128
  dataBlocks := 8192
  totalBlocks := 8323

/-! Inode records, 64 bytes each. -/

abbrev nAddrs1 : Nat := 10

abbrev nAddrs2 : Nat := 2

abbrev nAddrs3 : Nat := 1

abbrev nAddrs : Nat := nAddrs1 + nAddrs2 + nAddrs3

/-! Tables of these sizes have an entry 0. -/

instance neZero_nAddrs : NeZero nAddrs := ⟨by decide⟩

instance neZero_2 : NeZero 2 := ⟨by decide⟩

instance neZero_3 : NeZero 3 := ⟨by decide⟩

instance neZero_6 : NeZero 6 := ⟨by decide⟩

instance neZero_32 : NeZero 32 := ⟨by decide⟩

instance neZero_64 : NeZero 64 := ⟨by decide⟩

instance neZero_256 : NeZero 256 := ⟨by decide⟩

abbrev entryPerBlock : Nat := blockSize / 4

abbrev inodeDiskSize : Nat := 64

abbrev inodePerBlock : Nat := blockSize / inodeDiskSize

abbrev maxFileSize : Nat :=
  (nAddrs1 + nAddrs2 * entryPerBlock + nAddrs3 * entryPerBlock * entryPerBlock) *
    blockSize

def ftUnused : UInt16 := 0

def ftDir : UInt16 := 1

def ftFile : UInt16 := 2

def ftDevice : UInt16 := 3

def inodeRoot : UInt16 := 0

def inodeNumUnused : UInt16 := 0xFFFF

structure InodeDisk where
  type : UInt16
  major : UInt16
  minor : UInt16
  nlink : UInt16
  size : UInt32
  addrs : Fin nAddrs → UInt32

namespace InodeDisk

def zero : InodeDisk where
  type := 0
  major := 0
  minor := 0
  nlink := 0
  size := 0
  addrs := 0

def load (b : Block) (off : Nat) : InodeDisk where
  type := b.half off
  major := b.half (off + 2)
  minor := b.half (off + 4)
  nlink := b.half (off + 6)
  size := b.word (off + 8)
  addrs := fun i => b.word (off + 12 + 4 * i.val)

def byte (d : InodeDisk) (k : Nat) : UInt8 :=
  if k < 2 then Bytes.halfByte d.type k
  else if k < 4 then Bytes.halfByte d.major (k - 2)
  else if k < 6 then Bytes.halfByte d.minor (k - 4)
  else if k < 8 then Bytes.halfByte d.nlink (k - 6)
  else if k < 12 then Bytes.wordByte d.size (k - 8)
  else if h : (k - 12) / 4 < nAddrs then
    Bytes.wordByte (d.addrs ⟨(k - 12) / 4, h⟩) ((k - 12) % 4)
  else 0

def store (d : InodeDisk) (b : Block) (off : Nat) : Block :=
  b.patch off inodeDiskSize d.byte

end InodeDisk

def inodeLocateBlockNum (inodeNum : UInt16) : UInt32 :=
  UInt32.ofNat (inodeNum.toNat / inodePerBlock) + sb.inodeStart

def inodeOffset (inodeNum : UInt16) : Nat :=
  inodeDiskSize * (inodeNum.toNat % inodePerBlock)

def recordOf (disk : Disk) (inodeNum : UInt16) : InodeDisk :=
  InodeDisk.load (disk (inodeLocateBlockNum inodeNum)) (inodeOffset inodeNum)

/-! Directory entries, 32 bytes each. -/

abbrev dirNameLen : Nat := 30

abbrev direntSize : Nat := 32

abbrev direntPerBlock : Nat := blockSize / direntSize

/-- A name buffer.  Only the bytes before the first NUL are the name. -/
abbrev Name := Bytes dirNameLen

structure Dirent where
  inodeNum : UInt16
  name : Name

namespace Dirent

def load (b : Block) (off : Nat) : Dirent where
  inodeNum := b.half off
  name := fun i => b.get (off + 2 + i.val)

def byte (de : Dirent) (k : Nat) : UInt8 :=
  if k < 2 then Bytes.halfByte de.inodeNum k else de.name.get (k - 2)

def store (de : Dirent) (b : Block) (off : Nat) : Block :=
  b.patch off direntSize de.byte

end Dirent

/-! Reasons for which the kernel does not go on. -/

inductive Stop where
  /-- A failed `assert` or a `panic`. -/
  | panic (message : String)
  /-- A sleep lock acquired again by its holder. -/
  | deadlock
  /-- An access outside the array it names. -/
  | outOfBounds
  /-- The device refused the request (`virtio_disk_intr` panics). -/
  | ioError
  /-- An access through a null pointer. -/
  | nullPointer
  /-- The caller sleeps until another process wakes it. -/
  | sleeps
  /-- A walk along a list that leads in a circle. -/
  | loops
  deriving DecidableEq

end UnoOS.Fs
