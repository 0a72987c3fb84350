import UnoOS.Fs.BitmapLaws
import UnoOS.Mkfs.Main

namespace UnoOS.Mkfs

open UnoOS.Lib
open UnoOS.Fs

/-! The allocators of the image maker against those of the kernel. -/

def shiftLoop (value : UInt8) : (fuel shift : Nat) → Option Nat
  | 0, _ => none
  | fuel + 1, shift =>
      if value.toNat.testBit shift then shiftLoop value fuel (shift + 1)
      else some shift

theorem mask_and_eq_zero_iff : ∀ value : UInt8, ∀ shift : Fin 8,
    ((1 : UInt8) <<< UInt8.ofNat shift.val).toUInt32.toInt32 &&& value.toInt8.toInt32 = 0 ↔
      value.toNat.testBit shift.val = false := by
  decide +kernel

theorem mask_shiftLeft : ∀ shift : Fin 7,
    (1 : UInt8) <<< UInt8.ofNat shift.val <<< 1 = 1 <<< UInt8.ofNat (shift.val + 1) := by
  decide

/-- The sign does not matter: the mask has eight bits. -/
theorem maskLoop_eq_shiftLoop (value : UInt8) {fuel shift : Nat} {bitCmp : UInt8}
    (hroom : shift + fuel ≤ 8) (hmask : 0 < fuel → bitCmp = 1 <<< UInt8.ofNat shift) :
    maskLoop value fuel shift bitCmp = shiftLoop value fuel shift := by
  induction fuel generalizing shift bitCmp with
  | zero => rfl
  | succ fuel ih =>
      have hbit := mask_and_eq_zero_iff value ⟨shift, by omega⟩
      have hnext : maskLoop value fuel (shift + 1) (bitCmp <<< 1) =
          shiftLoop value fuel (shift + 1) := by
        refine ih (by omega) ?_
        intro hfuel
        rw [hmask (Nat.succ_pos fuel)]
        exact mask_shiftLeft ⟨shift, by omega⟩
      rw [maskLoop, shiftLoop, hnext, hmask (Nat.succ_pos fuel)]
      by_cases hset : value.toNat.testBit shift
      · rw [if_neg (fun hzero => by simp [hbit.mp hzero] at hset), if_pos hset]
      · rw [if_pos (hbit.mpr (by simpa using hset)), if_neg hset]

theorem byteLoop_succ (buf : Block) (fuel byte : Nat) :
    byteLoop buf (fuel + 1) byte = (shiftLoop (buf.get byte) 8 0).elim
      (byteLoop buf fuel (byte + 1)) fun shift => some (byte, shift) := by
  have hmask : maskLoop (buf.get byte) 8 0 1 = shiftLoop (buf.get byte) 8 0 :=
    maskLoop_eq_shiftLoop _ (le_refl _) fun _ => rfl
  rw [byteLoop, hmask]
  cases shiftLoop (buf.get byte) 8 0 with
  | none => rfl
  | some shift => rfl

theorem shiftLoop_eq_some {value : UInt8} {fuel shift found : Nat}
    (h : shiftLoop value fuel shift = some found) :
    shift ≤ found ∧ found < shift + fuel ∧
      value.toNat.testBit found = false ∧
      ∀ l, shift ≤ l → l < found → value.toNat.testBit l = true := by
  induction fuel generalizing shift with
  | zero => simp [shiftLoop] at h
  | succ fuel ih =>
      simp only [shiftLoop] at h
      split at h
      · next hset =>
        obtain ⟨hlow, hhigh, hclear, hbelow⟩ := ih h
        refine ⟨by omega, by omega, hclear, ?_⟩
        intro l hl hlt
        by_cases heq : l = shift
        · rw [heq]
          exact hset
        · exact hbelow l (by omega) hlt
      · next hset =>
        cases h
        exact ⟨le_refl _, by omega, by simpa using hset, by omega⟩

theorem shiftLoop_eq_none {value : UInt8} {fuel shift : Nat}
    (h : shiftLoop value fuel shift = none) {l : Nat} (hlow : shift ≤ l)
    (hhigh : l < shift + fuel) : value.toNat.testBit l = true := by
  induction fuel generalizing shift with
  | zero => omega
  | succ fuel ih =>
      simp only [shiftLoop] at h
      split at h
      · next hset =>
        by_cases heq : l = shift
        · rw [heq]
          exact hset
        · exact ih h (by omega) (by omega)
      · cases h

theorem byteLoop_eq_some {buf : Block} {fuel byte : Nat} {found : Nat × Nat}
    (h : byteLoop buf fuel byte = some found) :
    byte ≤ found.1 ∧ found.1 < byte + fuel ∧ found.2 < 8 ∧
      buf.bit (found.1 * 8 + found.2) = false ∧
      ∀ j, byte * 8 ≤ j → j < found.1 * 8 + found.2 → buf.bit j = true := by
  induction fuel generalizing byte with
  | zero => simp [byteLoop] at h
  | succ fuel ih =>
      rw [byteLoop_succ] at h
      cases hshift : shiftLoop (buf.get byte) 8 0 with
      | some shift =>
          rw [hshift] at h
          cases h
          obtain ⟨_, hlt, hclear, hbelow⟩ := shiftLoop_eq_some hshift
          refine ⟨le_refl _, by omega, by omega, ?_, ?_⟩
          · rw [Bytes.bit, show (byte * 8 + shift) / 8 = byte by omega,
              show (byte * 8 + shift) % 8 = shift by omega]
            exact hclear
          · intro j hlow hhigh
            rw [Bytes.bit, show j / 8 = byte by omega]
            exact hbelow (j % 8) (by omega) (by omega)
      | none =>
          rw [hshift] at h
          obtain ⟨hlow, hhigh, hlt, hclear, hbelow⟩ := ih h
          refine ⟨by omega, by omega, hlt, hclear, ?_⟩
          intro j hj hupto
          by_cases hbyte : j / 8 = byte
          · rw [Bytes.bit, hbyte]
            exact shiftLoop_eq_none hshift (Nat.zero_le _) (by omega)
          · exact hbelow j (by omega) hupto

theorem byteLoop_eq_none {buf : Block} {fuel byte : Nat}
    (h : byteLoop buf fuel byte = none) {j : Nat} (hlow : byte * 8 ≤ j)
    (hhigh : j < (byte + fuel) * 8) : buf.bit j = true := by
  induction fuel generalizing byte with
  | zero => omega
  | succ fuel ih =>
      rw [byteLoop_succ] at h
      cases hshift : shiftLoop (buf.get byte) 8 0 with
      | some shift =>
          rw [hshift] at h
          cases h
      | none =>
          rw [hshift] at h
          by_cases hbyte : j / 8 = byte
          · rw [Bytes.bit, hbyte]
            exact shiftLoop_eq_none hshift (Nat.zero_le _) (by omega)
          · exact ih h (by omega) (by omega)

theorem byteLoop_eq (buf : Block) :
    byteLoop buf blockSize 0 =
      (lowestClear buf).map fun bi => (bi / 8, bi % 8) := by
  cases hloop : byteLoop buf blockSize 0 with
  | none =>
      have hfull : lowestClear buf = none := by
        rw [lowestClear_eq_none]
        intro j hj
        exact byteLoop_eq_none hloop (by omega) (by unfold blockSize; omega)
      rw [hfull]
      rfl
  | some found =>
      obtain ⟨_, hbyte, hshift, hclear, hbelow⟩ := byteLoop_eq_some hloop
      have hfind : lowestClear buf = some (found.1 * 8 + found.2) := by
        refine lowestClear_of_least ?_ hclear ?_
        · unfold blockSize at hbyte
          omega
        · intro j hj
          exact hbelow j (by omega) hj
      rw [hfind]
      simp only [Option.map_some, Option.some.injEq]
      exact Prod.ext (by dsimp only; omega) (by dsimp only; omega)

theorem takeBit_eq {bitmapBlock : UInt32} (h : bitmapBlock.toNat < nBlock)
    (disk : Disk) :
    takeBit bitmapBlock disk =
      match lowestClear (disk bitmapBlock) with
      | none => .error .hang
      | some bi => .ok (bi, Function.update disk bitmapBlock
          ((disk bitmapBlock).setBit bi)) := by
  have hread : blockRead bitmapBlock disk = .ok (disk bitmapBlock, disk) := by
    unfold blockRead
    rw [Exec.require_of_true h]
    rfl
  unfold takeBit
  rw [Exec.bind_of_ok hread, byteLoop_eq]
  cases hfind : lowestClear (disk bitmapBlock) with
  | none => rfl
  | some bi =>
      change Except.ok (bi / 8 * 8 + bi % 8, _) = _
      rw [Nat.div_add_mod' bi 8]
      rfl

theorem blockAlloc_eq (disk : Disk) :
    blockAlloc disk =
      match lowestClear (disk sb.dataBitmapStart) with
      | none => .error .hang
      | some bi => .ok (BitmapKind.block.number bi,
          Function.update disk sb.dataBitmapStart
            ((disk sb.dataBitmapStart).setBit bi)) := by
  unfold blockAlloc
  rw [Exec.bind_apply, takeBit_eq (by decide)]
  cases lowestClear (disk sb.dataBitmapStart) <;> rfl

theorem inodeAlloc_eq (disk : Disk) :
    inodeAlloc disk =
      match lowestClear (disk sb.inodeBitmapStart) with
      | none => .error .hang
      | some bi => .ok (UInt16.ofNat bi,
          Function.update disk sb.inodeBitmapStart
            ((disk sb.inodeBitmapStart).setBit bi)) := by
  unfold inodeAlloc
  rw [Exec.bind_apply, takeBit_eq (by decide)]
  cases lowestClear (disk sb.inodeBitmapStart) <;> rfl

theorem number_toUInt16_toNat {bi : Nat} (hbi : bi < 8192) :
    (BitmapKind.inode.number bi).toUInt16.toNat = bi + 2 := by
  rw [UInt32.toNat_toUInt16, BitmapKind.inode.number_toNat hbi]
  change (bi + 2) % 65536 = bi + 2
  omega

/-- On the same inode bitmap the image maker and the kernel return the same
inode number. -/
def SameInodeNumber (s : FsState) : Prop :=
  ∃ inodeNum disk s', inodeAlloc s.disk = .ok (inodeNum, disk) ∧
    bitmapAllocInode s = .ok (inodeNum, s')

def InodeNumberFits (s : FsState) : Prop :=
  ∀ inodeNum s', bitmapAllocInode s = .ok (inodeNum, s') →
    inodeNum.toNat < sb.inodeBlocks.toNat * inodePerBlock ∧
      sb.inodeStart ≤ inodeLocateBlockNum inodeNum ∧
      inodeLocateBlockNum inodeNum < sb.dataBitmapStart

theorem not_sameInodeNumber (s : FsState) : ¬SameInodeNumber s := by
  rintro ⟨inodeNum, disk, s', hmkfs, hkernel⟩
  rw [inodeAlloc_eq] at hmkfs
  rw [bitmapAllocInode_eq] at hkernel
  cases hfind : lowestClear (s.disk sb.inodeBitmapStart) with
  | none => simp [hfind] at hmkfs
  | some bi =>
      have hbi := (lowestClear_spec hfind).1
      simp only [hfind, Except.ok.injEq, Prod.mk.injEq] at hmkfs hkernel
      have hsame := congrArg UInt16.toNat (hmkfs.1.trans hkernel.1.symm)
      rw [number_toUInt16_toNat hbi, UInt16.toNat_ofNat'] at hsame
      omega

theorem inodeLocateBlockNum_toNat (inodeNum : UInt16) :
    (inodeLocateBlockNum inodeNum).toNat = inodeNum.toNat / 16 + 2 := by
  have hlt := inodeNum.toNat_lt
  unfold inodeLocateBlockNum
  rw [UInt32.toNat_add, UInt32.toNat_ofNat']
  change (inodeNum.toNat / 16 % 4294967296 + 2) % 4294967296 = _
  omega

theorem inodeNumberFits_iff (s : FsState) :
    InodeNumberFits s ↔
      ∃ bi, bi < 2046 ∧ (BitmapKind.inode.bits s).bit bi = false := by
  have hspec := bitmapAllocInode_eq s
  cases hfind : lowestClear (s.disk sb.inodeBitmapStart) with
  | none =>
      simp only [hfind] at hspec
      rw [lowestClear_eq_none] at hfind
      constructor
      · intro h
        exact absurd (h _ _ hspec).1 (by decide)
      · rintro ⟨bi, hbi, hclear⟩
        exact absurd (hfind bi (by omega)) (Bool.eq_false_iff.mp hclear)
  | some found =>
      simp only [hfind] at hspec
      obtain ⟨hfound, hclear, hbelow⟩ := lowestClear_spec hfind
      have hnumber := number_toUInt16_toNat hfound
      constructor
      · intro h
        have hfits := (h _ _ hspec).1
        rw [hnumber] at hfits
        change found + 2 < 2048 at hfits
        exact ⟨found, by omega, hclear⟩
      · rintro ⟨bi, hbi, hbit⟩ inodeNum s' halloc
        have hle : found ≤ bi := by
          by_contra hgt
          exact absurd (hbelow bi (by omega)) (Bool.eq_false_iff.mp hbit)
        rw [hspec] at halloc
        cases halloc
        have hblock := inodeLocateBlockNum_toNat
          (BitmapKind.inode.number found).toUInt16
        rw [hnumber] at hblock
        refine ⟨?_, ?_, ?_⟩
        · rw [hnumber]
          change found + 2 < 2048
          omega
        · rw [UInt32.le_iff_toNat_le, hblock]
          change 2 ≤ _
          omega
        · rw [UInt32.lt_iff_toNat_lt, hblock]
          change _ < 130
          omega

/-- The kernel adds `inode_start` to the bit and the image maker does not, so
they agree on no content.  The kernel's number stays inside the inode blocks
exactly while one of the first 2046 bits is clear. -/
theorem inode_numbering_differs (s : FsState) :
    ¬SameInodeNumber s ∧
      (InodeNumberFits s ↔
        ∃ bi, bi < 2046 ∧ (BitmapKind.inode.bits s).bit bi = false) :=
  ⟨not_sameInodeNumber s, inodeNumberFits_iff s⟩

/-- A bitmap whose first 2046 bits are set. -/
def crowdedBitmap : Block := fun i => if i.val < 255 then 255 else
  if i.val = 255 then 63 else 0

/-- On a blank bitmap the image maker returns 0 and the kernel 2; when the
first 2046 bits are set the kernel returns 2048, whose record would lie in the
data bitmap. -/
theorem inode_numbering_counterexample :
    ¬SameInodeNumber (.booted 0) ∧
      ¬InodeNumberFits (.booted (Function.update 0 1 crowdedBitmap)) ∧
      (bitmapAllocInode (.booted (Function.update 0 1 crowdedBitmap))
        ).toOption.map Prod.fst = some 2048 ∧
      inodeLocateBlockNum 2048 = sb.dataBitmapStart := by
  refine ⟨not_sameInodeNumber _, ?_, by decide +kernel, by decide⟩
  have hset : ∀ bi < 2046, crowdedBitmap.bit bi = true := by decide +kernel
  rw [inodeNumberFits_iff]
  rintro ⟨bi, hbi, hclear⟩
  exact absurd (hset bi hbi) (Bool.eq_false_iff.mp hclear)

end UnoOS.Mkfs
