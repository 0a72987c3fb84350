import UnoOS.Fs.Layout

namespace UnoOS.Fs

open UnoOS.Lib

/-! Inode records in their blocks: what is stored is loaded again, and storing
one record leaves the others. -/

namespace InodeDisk

theorem get_store (d : InodeDisk) (b : Block) {off k : Nat}
    (hoff : off + inodeDiskSize ≤ blockSize) (hk : k < inodeDiskSize) :
    (d.store b off).get (off + k) = d.byte k := by
  unfold store
  rw [Bytes.get_patch_of_mem _ _ (by omega) (by omega) (by omega),
    Nat.add_sub_cancel_left]

theorem half_store (d : InodeDisk) (b : Block) {off k : Nat} {w : UInt16}
    (hoff : off + inodeDiskSize ≤ blockSize) (hk : k + 2 ≤ inodeDiskSize)
    (hbyte : ∀ l, l < 2 → d.byte (k + l) = Bytes.halfByte w l) :
    (d.store b off).half (off + k) = w := by
  apply Bytes.half_of_bytes
  intro l hl
  rw [Nat.add_assoc, get_store d b hoff (by omega)]
  exact hbyte l hl

theorem word_store (d : InodeDisk) (b : Block) {off k : Nat} {w : UInt32}
    (hoff : off + inodeDiskSize ≤ blockSize) (hk : k + 4 ≤ inodeDiskSize)
    (hbyte : ∀ l, l < 4 → d.byte (k + l) = Bytes.wordByte w l) :
    (d.store b off).word (off + k) = w := by
  apply Bytes.word_of_bytes
  intro l hl
  rw [Nat.add_assoc, get_store d b hoff (by omega)]
  exact hbyte l hl

theorem byte_addr (d : InodeDisk) (j : Fin nAddrs) {l : Nat} (hl : l < 4) :
    d.byte (12 + 4 * j.val + l) = Bytes.wordByte (d.addrs j) l := by
  have hj := j.isLt
  have hquotient : (12 + 4 * j.val + l - 12) / 4 = j.val := by omega
  have hremainder : (12 + 4 * j.val + l - 12) % 4 = l := by omega
  unfold byte
  rw [if_neg (by omega), if_neg (by omega), if_neg (by omega),
    if_neg (by omega), if_neg (by omega), dif_pos (by rw [hquotient]; exact hj)]
  simp only [hquotient, hremainder]

theorem load_store (d : InodeDisk) (b : Block) {off : Nat}
    (hoff : off + inodeDiskSize ≤ blockSize) :
    load (d.store b off) off = d := by
  have htype : (d.store b off).half off = d.type := by
    refine half_store (k := 0) d b hoff (by decide) ?_
    intro l hl
    rw [Nat.zero_add, byte, if_pos hl]
  have hmajor : (d.store b off).half (off + 2) = d.major := by
    refine half_store d b hoff (by decide) ?_
    intro l hl
    rw [byte, if_neg (by omega), if_pos (by omega), Nat.add_sub_cancel_left]
  have hminor : (d.store b off).half (off + 4) = d.minor := by
    refine half_store d b hoff (by decide) ?_
    intro l hl
    rw [byte, if_neg (by omega), if_neg (by omega), if_pos (by omega),
      Nat.add_sub_cancel_left]
  have hnlink : (d.store b off).half (off + 6) = d.nlink := by
    refine half_store d b hoff (by decide) ?_
    intro l hl
    rw [byte, if_neg (by omega), if_neg (by omega), if_neg (by omega),
      if_pos (by omega), Nat.add_sub_cancel_left]
  have hsize : (d.store b off).word (off + 8) = d.size := by
    refine word_store d b hoff (by decide) ?_
    intro l hl
    rw [byte, if_neg (by omega), if_neg (by omega), if_neg (by omega),
      if_neg (by omega), if_pos (by omega), Nat.add_sub_cancel_left]
  have haddrs : (fun j : Fin nAddrs =>
      (d.store b off).word (off + 12 + 4 * j.val)) = d.addrs := by
    funext j
    have hj : j.val < 13 := j.isLt
    rw [Nat.add_assoc]
    refine word_store d b hoff (by change 12 + 4 * j.val + 4 ≤ 64; omega) ?_
    intro l hl
    exact byte_addr d j hl
  unfold load
  rw [htype, hmajor, hminor, hnlink, hsize, haddrs]

theorem load_congr {b c : Block} {off : Nat}
    (h : ∀ k, k < inodeDiskSize → b.get (off + k) = c.get (off + k)) :
    load b off = load c off := by
  have hhalf : ∀ k, k + 2 ≤ inodeDiskSize →
      b.half (off + k) = c.half (off + k) := by
    intro k hk
    refine Bytes.half_congr fun l hl => ?_
    rw [Nat.add_assoc]
    exact h (k + l) (by omega)
  have hword : ∀ k, k + 4 ≤ inodeDiskSize →
      b.word (off + k) = c.word (off + k) := by
    intro k hk
    refine Bytes.word_congr fun l hl => ?_
    rw [Nat.add_assoc]
    exact h (k + l) (by omega)
  have haddrs : (fun j : Fin nAddrs => b.word (off + 12 + 4 * j.val)) =
      fun j => c.word (off + 12 + 4 * j.val) := by
    funext j
    have hj : j.val < 13 := j.isLt
    rw [Nat.add_assoc]
    exact hword _ (by change 12 + 4 * j.val + 4 ≤ 64; omega)
  unfold load
  rw [haddrs, hhalf 2 (by decide), hhalf 4 (by decide), hhalf 6 (by decide),
    hword 8 (by decide)]
  have htype := hhalf 0 (by decide)
  rw [Nat.add_zero] at htype
  rw [htype]

theorem load_store_of_ne (d : InodeDisk) (b : Block) {off off' : Nat}
    (h : off' + inodeDiskSize ≤ off ∨ off + inodeDiskSize ≤ off') :
    load (d.store b off) off' = load b off' := by
  refine load_congr fun k hk => ?_
  unfold store
  exact Bytes.get_patch_of_not_mem _ _ (by omega)

end InodeDisk

theorem inodeOffset_le (inodeNum : UInt16) :
    inodeOffset inodeNum + inodeDiskSize ≤ blockSize := by
  change 64 * (inodeNum.toNat % 16) + 64 ≤ 1024
  omega

def putRecord (disk : Disk) (inodeNum : UInt16) (d : InodeDisk) : Disk :=
  Function.update disk (inodeLocateBlockNum inodeNum)
    (d.store (disk (inodeLocateBlockNum inodeNum)) (inodeOffset inodeNum))

theorem recordOf_putRecord (disk : Disk) (inodeNum : UInt16) (d : InodeDisk) :
    recordOf (putRecord disk inodeNum d) inodeNum = d := by
  unfold recordOf putRecord
  rw [Function.update_self, InodeDisk.load_store _ _ (inodeOffset_le inodeNum)]

end UnoOS.Fs
