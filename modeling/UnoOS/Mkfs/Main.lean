import UnoOS.Fs.Dir

namespace UnoOS.Mkfs

open UnoOS.Lib
open UnoOS.Fs

/-! The image maker (`mkfs.c`). -/

inductive MkfsStop where
  /-- `while(1);` after a message. -/
  | hang
  | assertFailed
  /-- A short read or write of the image file. -/
  | exit
  | outOfBounds
  deriving DecidableEq

abbrev MkfsM := Exec Disk MkfsStop

def blockWrite (blockNum : UInt32) (buf : Block) : MkfsM Unit :=
  modify fun disk => Function.update disk blockNum buf

def blockRead (blockNum : UInt32) : MkfsM Block := do
  Exec.require (blockNum.toNat < nBlock) .exit
  return (← get) blockNum

/-- The inner loop of `block_alloc` and `inode_alloc`.  `bit_cmp` has eight bits, and
`buf[byte]` is a `char` that is extended with its sign. -/
def maskLoop (value : UInt8) : (fuel shift : Nat) → (bitCmp : UInt8) → Option Nat
  | 0, _, _ => none
  | fuel + 1, shift, bitCmp =>
      if bitCmp.toUInt32.toInt32 &&& value.toInt8.toInt32 = 0 then some shift
      else maskLoop value fuel (shift + 1) (bitCmp <<< 1)

/-- The outer loop: the byte and the shift of the first clear bit. -/
def byteLoop (buf : Block) : (fuel byte : Nat) → Option (Nat × Nat)
  | 0, _ => none
  | fuel + 1, byte =>
      match maskLoop (buf.get byte) 8 0 1 with
      | some shift => some (byte, shift)
      | none => byteLoop buf fuel (byte + 1)

/-- The search that `block_alloc` and `inode_alloc` share: the index of the bit
taken. -/
def takeBit (bitmapBlock : UInt32) : MkfsM Nat := do
  let buf ← blockRead bitmapBlock
  match byteLoop buf blockSize 0 with
  | none => Exec.stop .hang
  | some (byte, shift) =>
      blockWrite bitmapBlock
        (buf.patch byte 1 fun _ => buf.get byte ||| Bytes.mask shift)
      return byte * 8 + shift

def blockAlloc : MkfsM UInt32 := do
  return UInt32.ofNat (← takeBit sb.dataBitmapStart) + sb.dataStart

def inodeAlloc : MkfsM UInt16 := do
  return UInt16.ofNat (← takeBit sb.inodeBitmapStart)

def inodeWrite (inodeNum : UInt16) (ip : InodeDisk) : MkfsM Unit := do
  let blockNum := inodeLocateBlockNum inodeNum
  let buf ← blockRead blockNum
  blockWrite blockNum (ip.store buf (inodeOffset inodeNum))

def inodeCreateMkfs (inodeNum type : UInt16) : MkfsM InodeDisk := do
  let inode := { InodeDisk.zero with type := type, nlink := 1 }
  inodeWrite inodeNum inode
  return inode

/-- `dirent_create`: the offset of the next entry.  `junk` is what the
uninitialised entry holds behind its name. -/
def direntCreate (junk : Name) (dirBlock : UInt32) (offset : Nat)
    (name : List UInt8) (inodeNum : UInt16) : MkfsM Nat := do
  Exec.require (name.length < dirNameLen) .assertFailed
  let dirBuf ← blockRead dirBlock
  Exec.require (offset + direntSize ≤ blockSize) .outOfBounds
  blockWrite dirBlock
    (Dirent.store ⟨inodeNum, copyString name junk⟩ dirBuf offset)
  return offset + direntSize

def fillEntry (entry : UInt32) : MkfsM UInt32 :=
  if entry = 0 then blockAlloc else pure entry

/-- `locate_block` with `size = ENTRY_PER_BLOCK ^ level`: the block and
`*entry` afterwards.  What a deeper call stores into the table it has read is
not written back. -/
def locateBlock : (level : Nat) → (entry : UInt32) → (bn : Nat) →
    MkfsM (UInt32 × UInt32)
  | 0, entry, _ => do
      let entry ← fillEntry entry
      return (entry, entry)
  | level + 1, entry, bn => do
      let entry ← fillEntry entry
      let nextSize := entryPerBlock ^ level
      let buf ← blockRead entry
      let (ret, _) ←
        locateBlock level (buf.word (4 * (bn / nextSize))) (bn % nextSize)
      return (ret, entry)

/-- `locate_block` on an entry of `addrs[]`. -/
def locateAddr (ip : InodeDisk) (j : Fin nAddrs) (bn level : Nat) :
    MkfsM (UInt32 × InodeDisk) := do
  let (ret, entry) ← locateBlock level (ip.addrs j) bn
  return (ret, { ip with addrs := Function.update ip.addrs j entry })

theorem direct_index_lt {bn : Nat} (h : bn < nAddrs1) : bn < nAddrs :=
  Nat.lt_of_lt_of_le h (by decide)

def inodeLocateBlock (ip : InodeDisk) (bn : Nat) :
    MkfsM (UInt32 × InodeDisk) := do
  if h : bn < nAddrs1 then
    locateAddr ip ⟨bn, direct_index_lt h⟩ bn 0
  else
    let bn := bn - nAddrs1
    if h : bn < nAddrs2 * entryPerBlock then
      locateAddr ip
        ⟨nAddrs1 + bn / entryPerBlock, by
          change 10 + bn / 256 < 13
          change bn < 512 at h
          omega⟩
        (bn % entryPerBlock) 1
    else
      let bn := bn - nAddrs2 * entryPerBlock
      if h : bn < nAddrs3 * entryPerBlock * entryPerBlock then
        locateAddr ip
          ⟨nAddrs1 + nAddrs2 + bn / (entryPerBlock * entryPerBlock), by
            change 10 + 2 + bn / 65536 < 13
            change bn < 65536 at h
            omega⟩
          (bn % (entryPerBlock * entryPerBlock)) 2
      else
        Exec.stop .hang

/-- An input file: the name after `./user/_` and its contents. -/
structure InputFile where
  name : List UInt8
  content : List UInt8

structure Copy where
  buf : Block
  bn : Nat
  inode : InodeDisk

/-- The `while(1)` that copies one file.  `content` is what is left of it. -/
def copyLoop : (fuel : Nat) → Copy → (content : List UInt8) → MkfsM Copy
  | 0, copy, _ => pure copy
  | fuel + 1, copy, content => do
      let readLen := min blockSize content.length
      let buf := copy.buf.patch 0 readLen fun k => content.getD k 0
      let (blockNum, inode) ← inodeLocateBlock copy.inode copy.bn
      blockWrite blockNum buf
      let copy : Copy := ⟨buf, copy.bn + 1,
        { inode with size := inode.size + UInt32.ofNat readLen }⟩
      if readLen < blockSize then
        pure copy
      else
        copyLoop fuel copy (content.drop blockSize)

/-- What the file loop carries along: the buffer, the block counter (which is
set to zero before the loop, not in it) and the directory offset. -/
structure Progress where
  buf : Block
  bn : Nat
  offset : Nat

def addFile (junk : Name) (rootiBlock : UInt32) (progress : Progress)
    (file : InputFile) : MkfsM Progress := do
  Exec.require (slash ∉ file.name) .assertFailed
  let inum ← inodeAlloc
  let inode ← inodeCreateMkfs inum ftFile
  let offset ← direntCreate junk rootiBlock progress.offset file.name inum
  let copy ← copyLoop (file.content.length + 1)
    ⟨progress.buf, progress.bn, inode⟩ file.content
  inodeWrite inum copy.inode
  return ⟨copy.buf, copy.bn, offset⟩

def addFiles (junk : Name) (rootiBlock : UInt32) :
    Progress → List InputFile → MkfsM Progress
  | progress, [] => pure progress
  | progress, file :: files => do
      let progress ← addFile junk rootiBlock progress file
      addFiles junk rootiBlock progress files

def superBlockByte (k : Nat) : UInt8 :=
  let fields : List UInt32 := [sb.magic, sb.blockSize, sb.inodeBitmapStart,
    sb.inodeStart, sb.dataBitmapStart, sb.dataStart, sb.inodeBlocks,
    sb.dataBlocks, sb.totalBlocks]
  Bytes.wordByte (fields.getD (k / 4) 0) (k % 4)

abbrev superBlockSize : Nat := 36

/-- The first block of the image, which also stays in `main`'s buffer. -/
def superBlockBuf : Block := (0 : Block).patch 0 superBlockSize superBlockByte

def main (junk : Name) (files : List InputFile) : MkfsM Unit := do
  blockWrite 0 superBlockBuf
  let rootInum ← inodeAlloc
  let rootiBlock ← blockAlloc
  Exec.require (rootInum = 0) .hang
  let rooti ← inodeCreateMkfs rootInum ftDir
  let offset ← direntCreate junk rootiBlock 0 [46] rootInum
  let offset ← direntCreate junk rootiBlock offset [46, 46] rootInum
  let _ ← addFiles junk rootiBlock ⟨superBlockBuf, 0, offset⟩ files
  inodeWrite rootInum { rooti with
    addrs := Function.update rooti.addrs 0 rootiBlock
    size := UInt32.ofNat (direntSize * (files.length + 2)) }

/-- The image `mkfs` writes for a list of input files. -/
def image (junk : Name) (files : List InputFile) : Except MkfsStop Disk :=
  match main junk files 0 with
  | .ok (_, disk) => .ok disk
  | .error reason => .error reason

def freshImage : Disk :=
  match image 0 [] with
  | .ok disk => disk
  | .error _ => 0

end UnoOS.Mkfs
