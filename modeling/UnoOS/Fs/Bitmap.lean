import UnoOS.Fs.State

namespace UnoOS.Fs

open UnoOS.Lib

/-! The bitmap allocators of `bitmap.c`. -/

def bitmapSearchAndSet (bitmapBlock : UInt32) : FsM UInt32 := do
  let bp ← bufRead bitmapBlock
  match bp.firstClear (sb.blockSize.toNat * 8) 0 with
  | none => return 0xFFFFFFFF
  | some bi =>
      bufWrite bitmapBlock (bp.setBit bi)
      let blockNum ←
        if bitmapBlock = sb.inodeBitmapStart then
          pure (UInt32.ofNat bi + sb.inodeStart)
        else if bitmapBlock = sb.dataBitmapStart then
          pure (UInt32.ofNat bi + sb.dataStart)
        else
          Exec.stop (.panic "bitmap_search_and_set: invalid bitmap block")
      -- the block is read into the cache, its `memset` is commented out
      let _ ← bufRead blockNum
      return blockNum

def bitmapAllocBlock : FsM UInt32 := bitmapSearchAndSet sb.dataBitmapStart

/-- `bitmap_unset`: the bit index is the number less the number of the bitmap
block. -/
def bitmapUnset (bitmapBlock num : UInt32) : FsM Unit := do
  let buf ← bufRead bitmapBlock
  let bit := (num - bitmapBlock).toNat
  Exec.require (bit / 8 < blockSize) .outOfBounds
  modify fun s =>
    { s with unsets := ⟨bitmapBlock, num, buf.bit bit⟩ :: s.unsets }
  bufWrite bitmapBlock (buf.clearBit bit)

def bitmapFreeBlock (blockNum : UInt32) : FsM Unit :=
  bitmapUnset sb.dataBitmapStart blockNum

def bitmapAllocInode : FsM UInt16 := do
  return (← bitmapSearchAndSet sb.inodeBitmapStart).toUInt16

def bitmapFreeInode (inodeNum : UInt16) : FsM Unit :=
  bitmapUnset sb.inodeBitmapStart inodeNum.toUInt32

end UnoOS.Fs
