import UnoOS.Fs.ReadFrame

namespace UnoOS.Fs

open UnoOS.Lib

/-! How `inode_read_data` and `inode_write_data` split a range into blocks, for
whatever numbers the lookup of the blocks returns. -/

/-! The two calls over a lookup. -/

section

variable (locate : Nat → FsM UInt32) (i : Slot)

def readLoopBy : (fuel beg remaining : Nat) → FsM (List UInt8)
  | 0, _, _ => pure []
  | fuel + 1, beg, remaining => do
      if remaining = 0 then
        pure []
      else
        let b ← bufRead (← locate (beg / blockSize))
        let readsize := min (blockSize - beg % blockSize) remaining
        let rest ← readLoopBy fuel (beg + readsize) (remaining - readsize)
        return blockSlice b (beg % blockSize) readsize ++ rest

def inodeReadDataBy (offset len : UInt32) : FsM (UInt32 × List UInt8) := do
  let ip ← readSlot i
  assertThat ip.locked "inode_read_data: not holding slk"
  inodeRw i false
  let ip ← readSlot i
  let size := ip.diskInode.size
  if size < offset ∨ offset + len < offset then
    return (0xFFFFFFFF, [])
  else
    let total := if size < len + offset then size - offset else len
    let bytes ← readLoopBy locate total.toNat offset.toNat total.toNat
    return (total, bytes)

def writeLoopBy (offset len : Nat) (src : Nat → UInt8) :
    (fuel count : Nat) → (sizeModified : Bool) → FsM Bool
  | 0, _, sizeModified => pure sizeModified
  | fuel + 1, count, sizeModified => do
      if len ≤ count then
        pure sizeModified
      else
        let beg := offset + count
        let blockNum ← locate (beg / blockSize)
        let b ← bufRead blockNum
        let writesize := min (blockSize - beg % blockSize) (len - count)
        bufWrite blockNum
          (b.patch (beg % blockSize) writesize fun k => src (count + k))
        let ip ← readSlot i
        if ip.diskInode.size.toNat < offset + count + writesize then
          writeSlot i { ip with diskInode := { ip.diskInode with
            size := UInt32.ofNat (offset + len) } }
          writeLoopBy offset len src fuel (count + writesize) true
        else
          writeLoopBy offset len src fuel (count + writesize) sizeModified

def inodeWriteDataBy (offset len : UInt32) (src : Nat → UInt8) : FsM UInt32 := do
  let ip ← readSlot i
  assertThat ip.locked "inode_write_data: not holding slk"
  if offset + len < offset then
    return 0xFFFFFFFF
  else if maxFileSize < (offset + len).toNat then
    return 0xFFFFFFFF
  else
    let sizeModified ←
      writeLoopBy locate i offset.toNat len.toNat src len.toNat 0 false
    if sizeModified then
      inodeRw i true
    return len

end

theorem readLoop_eq_by (i : Slot) (fuel beg remaining : Nat) :
    readLoop i fuel beg remaining =
      readLoopBy (inodeLocateBlock i) fuel beg remaining := by
  induction fuel generalizing beg remaining with
  | zero => rfl
  | succ fuel ih =>
      unfold readLoop readLoopBy
      simp only [ih]

theorem writeLoop_eq_by (i : Slot) (offset len : Nat) (src : Nat → UInt8)
    (fuel count : Nat) (modified : Bool) :
    writeLoop i offset len src fuel count modified =
      writeLoopBy (inodeLocateBlock i) i offset len src fuel count modified := by
  induction fuel generalizing count modified with
  | zero => rfl
  | succ fuel ih =>
      unfold writeLoop writeLoopBy
      simp only [ih]

theorem inodeReadData_eq_by (i : Slot) (offset len : UInt32) :
    inodeReadData i offset len =
      inodeReadDataBy (inodeLocateBlock i) i offset len := by
  unfold inodeReadData inodeReadDataBy
  simp only [readLoop_eq_by]

theorem inodeWriteData_eq_by (i : Slot) (offset len : UInt32)
    (src : Nat → UInt8) :
    inodeWriteData i offset len src =
      inodeWriteDataBy (inodeLocateBlock i) i offset len src := by
  unfold inodeWriteData inodeWriteDataBy
  simp only [writeLoop_eq_by]

/-! Files over an assignment of disk blocks to file blocks. -/

section

variable {assign : Nat → UInt32} {disk disk' disk'' : Disk} {lo mid hi : Nat}

def touched (lo hi : Nat) : Set Nat :=
  {bn | ∃ p, lo ≤ p ∧ p < hi ∧ p / blockSize = bn}

def assignedByte (disk : Disk) (assign : Nat → UInt32) (p : Nat) : UInt8 :=
  (disk (assign (p / blockSize))).get (p % blockSize)

/-- Byte `k` of disk block `b` is byte `p` of the file. -/
def StandsAt (assign : Nat → UInt32) (p : Nat) (b : UInt32) (k : Nat) : Prop :=
  assign (p / blockSize) = b ∧ p % blockSize = k

/-- The bytes of a range of the file are written, and nothing else. -/
structure Wrote (assign : Nat → UInt32) (lo hi : Nat) (bytes : Nat → UInt8)
    (disk disk' : Disk) : Prop where
  inside : ∀ p, lo ≤ p → p < hi → assignedByte disk' assign p = bytes p
  outside : ∀ b k, (∀ p, lo ≤ p → p < hi → ¬StandsAt assign p b k) →
    (disk' b).get k = (disk b).get k

theorem Wrote.refl (bytes : Nat → UInt8) :
    Wrote assign lo lo bytes disk disk :=
  ⟨fun p hlow hhigh => by omega, fun _ _ _ => rfl⟩

theorem touched_mono {lo' : Nat} (h : lo ≤ lo') :
    touched lo' hi ⊆ touched lo hi := by
  rintro bn ⟨p, hlow, hhigh, rfl⟩
  exact ⟨p, by omega, hhigh, rfl⟩

theorem standsAt_inj (hinj : Set.InjOn assign (touched lo hi)) {p q k : Nat}
    {b : UInt32} (hp : lo ≤ p ∧ p < hi) (hq : lo ≤ q ∧ q < hi)
    (hheld : StandsAt assign p b k) (hheld' : StandsAt assign q b k) : p = q := by
  have hblock : p / blockSize = q / blockSize :=
    hinj ⟨p, hp.1, hp.2, rfl⟩ ⟨q, hq.1, hq.2, rfl⟩
      (hheld.1.trans hheld'.1.symm)
  have hoffset := hheld.2.trans hheld'.2.symm
  calc p = blockSize * (p / blockSize) + p % blockSize := (Nat.div_add_mod ..).symm
    _ = q := by rw [hblock, hoffset, Nat.div_add_mod]

theorem Wrote.trans {bytes : Nat → UInt8}
    (hinj : Set.InjOn assign (touched lo hi)) (hlow : lo ≤ mid)
    (hhigh : mid ≤ hi) (h : Wrote assign lo mid bytes disk disk')
    (h' : Wrote assign mid hi bytes disk' disk'') :
    Wrote assign lo hi bytes disk disk'' := by
  refine ⟨?_, ?_⟩
  · intro p hp hp'
    by_cases hearly : p < mid
    · refine (h'.outside _ _ ?_).trans (h.inside p hp hearly)
      intro q hq hq' hheld
      have heq := standsAt_inj hinj ⟨hp, hp'⟩ ⟨by omega, hq'⟩ ⟨rfl, rfl⟩ hheld
      omega
    · exact h'.inside p (by omega) hp'
  · intro b k hnot
    rw [h'.outside b k fun q hq hq' => hnot q (by omega) hq',
      h.outside b k fun q hq hq' => hnot q hq (by omega)]

theorem Wrote.of_patch (assign : Nat → UInt32) (disk : Disk)
    (bytes : Nat → UInt8) {beg size : Nat}
    (hsize : size ≤ blockSize - beg % blockSize) :
    Wrote assign beg (beg + size) bytes disk
      (Function.update disk (assign (beg / blockSize))
        ((disk (assign (beg / blockSize))).patch (beg % blockSize) size
          fun k => bytes (beg + k))) := by
  have hbound := Nat.mod_lt beg (show 0 < blockSize by decide)
  refine ⟨?_, ?_⟩
  · intro p hp hp'
    obtain ⟨k, rfl⟩ := Nat.exists_eq_add_of_le hp
    have hblock := round_block (show k < blockSize - beg % blockSize by omega)
    have hoffset : (beg + k) % blockSize = beg % blockSize + k := by
      unfold blockSize at hsize ⊢
      omega
    unfold assignedByte
    rw [hblock, hoffset, Function.update_self,
      Bytes.get_patch_of_mem _ _ (by omega) (by omega) (by omega),
      Nat.add_sub_cancel_left]
  · intro b k hnot
    by_cases hb : b = assign (beg / blockSize)
    · subst hb
      rw [Function.update_self]
      refine Bytes.get_patch_of_not_mem _ _ ?_
      by_contra hmem
      have hround : beg % blockSize ≤ k ∧ k < beg % blockSize + size := by omega
      have hlt : k - beg % blockSize < blockSize - beg % blockSize := by omega
      refine hnot (beg + (k - beg % blockSize)) (by omega) (by omega) ⟨?_, ?_⟩
      · rw [round_block hlt]
      · unfold blockSize at hround hlt ⊢
        omega
    · rw [Function.update_of_ne hb]

end

/-! The loop of `inode_write_data`. -/

def grownSize (size : UInt32) (fin : Nat) : UInt32 :=
  if size.toNat < fin then UInt32.ofNat fin else size

section

variable {assign : Nat → UInt32} {i : Slot} {s : FsState}
  {offset len : Nat} {src : Nat → UInt8}

def FsState.size (s : FsState) (i : Slot) : UInt32 := (s.icache i).diskInode.size

/-- The state after writing data: other disk contents and a size. -/
def FsState.put (s : FsState) (i : Slot) (disk : Disk) (size : UInt32) : FsState :=
  { s with
    disk := disk
    icache := Function.update s.icache i { s.icache i with
      diskInode := { (s.icache i).diskInode with size := size } } }

namespace FsState

@[simp] theorem put_disk (s : FsState) (i : Slot) (disk : Disk) (size : UInt32) :
    (s.put i disk size).disk = disk := rfl

@[simp] theorem put_size (s : FsState) (i : Slot) (disk : Disk) (size : UInt32) :
    (s.put i disk size).size i = size := by
  simp [put, FsState.size]

theorem put_put (s : FsState) (i : Slot) (disk disk' : Disk) (size size' : UInt32) :
    (s.put i disk size).put i disk' size' = s.put i disk' size' := by
  simp [put]

theorem put_self (s : FsState) (i : Slot) : s.put i s.disk (s.size i) = s := by
  simp [put, FsState.size]

theorem setBlock_eq_put (s : FsState) (i : Slot) (blockNum : UInt32) (b : Block) :
    s.setBlock blockNum b =
      s.put i (Function.update s.disk blockNum b) (s.size i) := by
  simp [put, FsState.size, setBlock]

end FsState

theorem grownSize_of_le {size : UInt32} {fin : Nat} (h : fin ≤ size.toNat) :
    grownSize size fin = size := if_neg (by omega)

theorem grownSize_toNat {size : UInt32} {fin : Nat} (h : fin < 2 ^ 32) :
    (grownSize size fin).toNat = max size.toNat fin := by
  unfold grownSize
  split
  · next hlt =>
    rw [UInt32.toNat_ofNat', Nat.mod_eq_of_lt h]
    omega
  · omega

theorem writeLoopBy_done {locate : Nat → FsM UInt32} {fuel count : Nat}
    {modified : Bool} (h : len ≤ count) :
    writeLoopBy locate i offset len src fuel count modified s =
      .ok (modified, s) := by
  cases fuel with
  | zero => rfl
  | succ fuel => exact congrFun (if_pos h) s

theorem writeLoopBy_round (i : Slot) (s : FsState) (src : Nat → UInt8)
    (fuel : Nat) (modified : Bool) {count : Nat} {n : UInt32}
    (hcount : ¬len ≤ count) (hassign : assign ((offset + count) / blockSize) = n)
    (hreal : n.toNat < nBlock) :
    let writesize := min (blockSize - (offset + count) % blockSize) (len - count)
    let disk := Function.update s.disk n
      ((s.disk n).patch ((offset + count) % blockSize) writesize
        fun k => src (count + k))
    writeLoopBy (fun bn => pure (assign bn)) i offset len src (fuel + 1) count
        modified s =
      if (s.size i).toNat < offset + count + writesize then
        writeLoopBy (fun bn => pure (assign bn)) i offset len src fuel
          (count + writesize) true (s.put i disk (UInt32.ofNat (offset + len)))
      else
        writeLoopBy (fun bn => pure (assign bn)) i offset len src fuel
          (count + writesize) modified (s.put i disk (s.size i)) := by
  intro writesize disk
  rw [writeLoopBy, if_neg hcount]
  dsimp only
  rw [pure_bind, hassign, Exec.bind_of_ok (bufRead_of_lt hreal s),
    bufWrite_bind, FsState.setBlock_eq_put s i, readSlot_bind]
  have hsize : ((s.put i disk (s.size i)).icache i).diskInode.size = s.size i :=
    FsState.put_size ..
  rw [hsize]
  split
  · rw [writeSlot_bind]
    congr 1
    exact FsState.put_put ..
  · rfl

theorem writeLoopBy_spec (hfits : offset + len < 2 ^ 32)
    (hinj : Set.InjOn assign (touched offset (offset + len)))
    (hreal : ∀ bn ∈ touched offset (offset + len), (assign bn).toNat < nBlock)
    {fuel count : Nat} (modified : Bool) (hfuel : len ≤ fuel + count)
    (hcount : count ≤ len) :
    ∃ disk, Wrote assign (offset + count) (offset + len)
        (fun p => src (p - offset)) s.disk disk ∧
      writeLoopBy (fun bn => pure (assign bn)) i offset len src fuel count
        modified s =
      .ok (modified || decide (count < len ∧ (s.size i).toNat < offset + len),
        s.put i disk (if count < len then grownSize (s.size i) (offset + len)
          else s.size i)) := by
  induction fuel generalizing count s modified with
  | zero =>
      obtain rfl : count = len := by omega
      refine ⟨s.disk, .refl _, ?_⟩
      rw [writeLoopBy_done le_rfl]
      simp [FsState.put_self]
  | succ fuel ih =>
      by_cases hdone : len ≤ count
      · obtain rfl : count = len := by omega
        refine ⟨s.disk, .refl _, ?_⟩
        rw [writeLoopBy_done le_rfl]
        simp [FsState.put_self]
      · have htouched : (offset + count) / blockSize ∈
            touched offset (offset + len) := ⟨_, by omega, by omega, rfl⟩
        have hround := writeLoopBy_round i s src fuel modified hdone rfl
          (hreal _ htouched)
        have hpatch := Wrote.of_patch assign s.disk (fun p => src (p - offset))
          (Nat.min_le_left (blockSize - (offset + count) % blockSize)
            (len - count))
        have hpos := round_pos (offset + count) (show len - count ≠ 0 by omega)
        have hle := Nat.min_le_right (blockSize - (offset + count) % blockSize)
          (len - count)
        have hsrc : ∀ k, offset + count + k - offset = count + k := by omega
        simp only [hsrc] at hpatch
        dsimp only at hround
        generalize min (blockSize - (offset + count) % blockSize)
          (len - count) = writesize at hround hpatch hpos hle
        generalize Function.update s.disk (assign ((offset + count) / blockSize))
          ((s.disk (assign ((offset + count) / blockSize))).patch
            ((offset + count) % blockSize) writesize fun k => src (count + k)) =
          middle at hround hpatch
        have hinj' : Set.InjOn assign (touched (offset + count) (offset + len)) :=
          hinj.mono (touched_mono (by omega))
        have hlt : count < len := by omega
        -- what the rounds that follow do, from the size that this one leaves
        have hrest : ∀ (size : UInt32) (modified' : Bool),
            ∃ disk, Wrote assign (offset + count) (offset + len)
                (fun p => src (p - offset)) s.disk disk ∧
              writeLoopBy (fun bn => pure (assign bn)) i offset len src fuel
                (count + writesize) modified' (s.put i middle size) =
              .ok (modified' || decide (count + writesize < len ∧
                  size.toNat < offset + len),
                s.put i disk (if count + writesize < len then
                  grownSize size (offset + len) else size)) := by
          intro size modified'
          obtain ⟨disk, hwrote, hrun⟩ := ih (s := s.put i middle size) modified'
            (by omega) (show count + writesize ≤ len by omega)
          rw [FsState.put_size, FsState.put_put] at hrun
          rw [← Nat.add_assoc] at hwrote
          exact ⟨disk, hpatch.trans hinj' (by omega) (by omega) hwrote, hrun⟩
        rw [hround, if_pos hlt]
        split
        · next hgrow =>
          have hvalue : (UInt32.ofNat (offset + len)).toNat = offset + len := by
            rw [UInt32.toNat_ofNat', Nat.mod_eq_of_lt hfits]
          obtain ⟨disk, hwrote, hrun⟩ :=
            hrest (UInt32.ofNat (offset + len)) true
          refine ⟨disk, hwrote, ?_⟩
          rw [hrun, grownSize_of_le hvalue.ge, ite_self, grownSize,
            if_pos (by omega)]
          have hnew : (s.size i).toNat < offset + len := by omega
          simp [hlt, hnew]
        · next hkeep =>
          obtain ⟨disk, hwrote, hrun⟩ := hrest (s.size i) modified
          refine ⟨disk, hwrote, ?_⟩
          rw [hrun]
          by_cases hmore : count + writesize < len
          · simp [hmore, hlt]
          · have hsize : offset + len ≤ (s.size i).toNat := by omega
            rw [grownSize_of_le hsize, ite_self]
            simp [hmore, Nat.not_lt.mpr hsize]

end

/-! The calls. -/

/-- Byte `k` of block `b` belongs to the record of an inode number. -/
def InRecord (inodeNum : UInt16) (b : UInt32) (k : Nat) : Prop :=
  b = inodeLocateBlockNum inodeNum ∧ inodeOffset inodeNum ≤ k ∧
    k < inodeOffset inodeNum + inodeDiskSize

theorem get_putRecord_of_not {disk : Disk} {inodeNum : UInt16} {d : InodeDisk}
    {b : UInt32} {k : Nat} (h : ¬InRecord inodeNum b k) :
    (putRecord disk inodeNum d b).get k = (disk b).get k := by
  unfold putRecord
  by_cases hb : b = inodeLocateBlockNum inodeNum
  · subst hb
    rw [Function.update_self]
    refine Bytes.get_patch_of_not_mem _ _ ?_
    by_contra hmem
    exact h ⟨rfl, by omega, by omega⟩
  · rw [Function.update_of_ne hb]

section

variable {assign : Nat → UInt32} {i : Slot} {s s' : FsState}
  {offset len : UInt32} {src : Nat → UInt8}

def Extends (s : FsState) (i : Slot) (offset len : UInt32) : Prop :=
  0 < len.toNat ∧ (s.size i).toNat < offset.toNat + len.toNat

instance : Decidable (Extends s i offset len) :=
  inferInstanceAs (Decidable (_ ∧ _))

structure Written (assign : Nat → UInt32) (i : Slot) (offset len : UInt32)
    (src : Nat → UInt8) (s s' : FsState) : Prop where
  inside : ∀ k, k < len.toNat →
    assignedByte s'.disk assign (offset.toNat + k) = src k
  outside : ∀ b k,
    (∀ p, offset.toNat ≤ p → p < offset.toNat + len.toNat →
      ¬StandsAt assign p b k) →
    ¬InRecord (s.icache i).inodeNum b k → (s'.disk b).get k = (s.disk b).get k
  record : recordOf s'.disk (s.icache i).inodeNum =
    if Extends s i offset len then (s'.icache i).diskInode
    else recordOf s.disk (s.icache i).inodeNum
  size : 0 < len.toNat →
    (s'.size i).toNat = max (s.size i).toNat (offset.toNat + len.toNat)
  slot : s'.icache = Function.update s.icache i { s.icache i with
    diskInode := { (s.icache i).diskInode with size := s'.size i } }

theorem inodeWriteDataBy_run (hlocked : (s.icache i).locked)
    (hfits : offset.toNat + len.toNat ≤ maxFileSize)
    (hinj : Set.InjOn assign (touched offset.toNat (offset.toNat + len.toNat)))
    (hreal : ∀ bn ∈ touched offset.toNat (offset.toNat + len.toNat),
      (assign bn).toNat < nBlock) :
    ∃ disk, Wrote assign offset.toNat (offset.toNat + len.toNat)
        (fun p => src (p - offset.toNat)) s.disk disk ∧
      let final := s.put i disk (if 0 < len.toNat then
        grownSize (s.size i) (offset.toNat + len.toNat) else s.size i)
      inodeWriteDataBy (fun bn => pure (assign bn)) i offset len src s =
        .ok (len, if Extends s i offset len then final.flush i else final) := by
  change _ ≤ 67643392 at hfits
  have hsum : (offset + len).toNat = offset.toNat + len.toNat := by
    rw [UInt32.toNat_add, Nat.mod_eq_of_lt (by omega)]
  have hwrap : ¬offset + len < offset := by
    rw [UInt32.lt_iff_toNat_lt]
    omega
  have hmax : ¬maxFileSize < (offset + len).toNat := by
    change ¬67643392 < _
    omega
  obtain ⟨disk, hwrote, hloop⟩ := writeLoopBy_spec (s := s) (i := i) (by omega)
    hinj hreal false (show len.toNat ≤ len.toNat + 0 from le_rfl) (Nat.zero_le _)
  refine ⟨disk, hwrote, ?_⟩
  intro final
  rw [Bool.false_or] at hloop
  change _ = Except.ok (decide (Extends s i offset len), final) at hloop
  unfold inodeWriteDataBy
  rw [readSlot_bind, Exec.bind_of_ok (assertThat_of_true hlocked s),
    if_neg hwrap, if_neg hmax, Exec.bind_of_ok hloop]
  by_cases hextends : Extends s i offset len
  · rw [if_pos (decide_eq_true hextends), if_pos hextends]
    exact Exec.bind_of_ok (inodeRw_true_apply i _)
  · rw [if_neg (fun h => hextends (of_decide_eq_true h)), if_neg hextends]
    rfl

theorem inodeWriteDataBy_spec (hlocked : (s.icache i).locked)
    (hfits : offset.toNat + len.toNat ≤ maxFileSize)
    (hinj : Set.InjOn assign (touched offset.toNat (offset.toNat + len.toNat)))
    (hreal : ∀ bn ∈ touched offset.toNat (offset.toNat + len.toNat),
      (assign bn).toNat < nBlock)
    (hdata : ∀ bn ∈ touched offset.toNat (offset.toNat + len.toNat),
      assign bn ≠ inodeLocateBlockNum (s.icache i).inodeNum) :
    ∃ s', inodeWriteDataBy (fun bn => pure (assign bn)) i offset len src s =
      .ok (len, s') ∧ Written assign i offset len src s s' := by
  obtain ⟨disk, hwrote, hrun⟩ := inodeWriteDataBy_run hlocked hfits hinj hreal
  dsimp only at hrun
  generalize hgrown : (if 0 < len.toNat then
    grownSize (s.size i) (offset.toNat + len.toNat) else s.size i) = size at hrun
  have hnum : ((s.put i disk size).icache i).inodeNum = (s.icache i).inodeNum := by
    simp [FsState.put]
  refine ⟨_, hrun, ?_⟩
  generalize hfinal : (if Extends s i offset len then
    (s.put i disk size).flush i else s.put i disk size) = s'
  have hicache : s'.icache = (s.put i disk size).icache := by
    rw [← hfinal]
    split <;> rfl
  have hsize : s'.size i = size := by
    unfold FsState.size
    rw [hicache]
    exact FsState.put_size ..
  have hdisk : ∀ b k, ¬InRecord (s.icache i).inodeNum b k →
      (s'.disk b).get k = (disk b).get k := by
    intro b k hnot
    rw [← hfinal]
    split
    · refine get_putRecord_of_not ?_
      rwa [hnum]
    · rfl
  refine ⟨?_, ?_, ?_, ?_, ?_⟩
  · intro k hk
    have hbyte := hwrote.inside (offset.toNat + k) (by omega) (by omega)
    rw [Nat.add_sub_cancel_left] at hbyte
    rw [← hbyte]
    refine hdisk _ _ fun hrecord => ?_
    exact hdata _ ⟨_, by omega, by omega, rfl⟩ hrecord.1
  · intro b k hrange hrecord
    rw [hdisk b k hrecord]
    exact hwrote.outside b k hrange
  · by_cases hextends : Extends s i offset len
    · rw [if_pos hextends] at hfinal ⊢
      subst hfinal
      rw [← hnum]
      exact recordOf_putRecord ..
    · rw [if_neg hextends] at hfinal ⊢
      subst hfinal
      have hsame : disk (inodeLocateBlockNum (s.icache i).inodeNum) =
          s.disk (inodeLocateBlockNum (s.icache i).inodeNum) := by
        refine Bytes.ext_get fun k _ => hwrote.outside _ k ?_
        intro p hlow hhigh hstands
        exact hdata _ ⟨p, by omega, hhigh, rfl⟩ hstands.1
      unfold recordOf
      rw [FsState.put_disk, hsame]
  · intro hlen
    rw [hsize, ← hgrown, if_pos hlen, grownSize_toNat]
    change _ ≤ 67643392 at hfits
    omega
  · rw [hicache, hsize]
    rfl

/-! Reading. -/

theorem readLoopBy_spec (s : FsState) (assign : Nat → UInt32) (beg : Nat)
    {fuel remaining : Nat} (hfuel : remaining ≤ fuel)
    (hreal : ∀ bn ∈ touched beg (beg + remaining), (assign bn).toNat < nBlock) :
    readLoopBy (fun bn => pure (assign bn)) fuel beg remaining s =
      .ok ((List.range remaining).map
        fun k => assignedByte s.disk assign (beg + k), s) := by
  induction fuel generalizing beg remaining with
  | zero =>
      obtain rfl : remaining = 0 := by omega
      rfl
  | succ fuel ih =>
      rw [readLoopBy]
      by_cases hdone : remaining = 0
      · rw [if_pos hdone, hdone]
        rfl
      · have hpos := round_pos beg hdone
        have hle := Nat.min_le_right (blockSize - beg % blockSize) remaining
        have hround := Nat.min_le_left (blockSize - beg % blockSize) remaining
        rw [if_neg hdone, pure_bind, Exec.bind_of_ok
          (bufRead_of_lt (hreal _ ⟨beg, le_rfl, by omega, rfl⟩) s)]
        generalize min (blockSize - beg % blockSize) remaining = readsize at *
        obtain ⟨rest, rfl⟩ := Nat.exists_eq_add_of_le hle
        rw [Nat.add_sub_cancel_left, Exec.bind_of_ok (ih _ (by omega) ?_)]
        · have hslice : blockSlice (s.disk (assign (beg / blockSize)))
              (beg % blockSize) readsize =
              (List.range readsize).map
                fun k => assignedByte s.disk assign (beg + k) := by
            refine List.map_congr_left fun k hk => ?_
            rw [List.mem_range] at hk
            have hoffset : (beg + k) % blockSize = beg % blockSize + k := by
              unfold blockSize at hround ⊢
              omega
            rw [assignedByte, round_block (by omega), hoffset]
          rw [hslice, List.range_add, List.map_append, List.map_map]
          simp only [Function.comp_def, Nat.add_assoc]
          rfl
        · rintro bn ⟨p, hlow, hhigh, rfl⟩
          exact hreal _ ⟨p, by omega, by omega, rfl⟩

theorem reload_eq_self
    (h : recordOf s.disk (s.icache i).inodeNum = (s.icache i).diskInode) :
    s.reload i = s := by
  simp [FsState.reload, FsState.setSlot, h]

theorem readTotal_eq_min (hoffset : offset ≤ s.size i)
    (hwrap : offset.toNat + len.toNat < 2 ^ 32) :
    readTotal (s.size i) offset len =
      UInt32.ofNat (min len.toNat ((s.size i).toNat - offset.toNat)) := by
  have hle := UInt32.le_iff_toNat_le.mp hoffset
  have hlen := len.toNat_lt
  apply UInt32.toNat.inj
  unfold readTotal
  rw [UInt32.toNat_ofNat', Nat.mod_eq_of_lt (by omega)]
  split
  · next hlt =>
    rw [UInt32.lt_iff_toNat_lt, UInt32.toNat_add] at hlt
    rw [UInt32.toNat_sub_of_le _ _ hoffset]
    omega
  · next hlt =>
    rw [UInt32.lt_iff_toNat_lt, UInt32.toNat_add] at hlt
    omega

theorem inodeReadDataBy_spec (hlocked : (s.icache i).locked)
    (hoffset : offset ≤ s.size i) (hwrap : offset.toNat + len.toNat < 2 ^ 32)
    (hrecord : recordOf s.disk (s.icache i).inodeNum = (s.icache i).diskInode)
    (hreal : ∀ bn, bn * blockSize < (s.size i).toNat →
      (assign bn).toNat < nBlock) :
    let total := min len.toNat ((s.size i).toNat - offset.toNat)
    inodeReadDataBy (fun bn => pure (assign bn)) i offset len s =
      .ok ((UInt32.ofNat total, (List.range total).map
        fun k => assignedByte s.disk assign (offset.toNat + k)), s) := by
  intro total
  have hle := UInt32.le_iff_toNat_le.mp hoffset
  have hlen := len.toNat_lt
  have hnothing : ¬(s.size i < offset ∨ offset + len < offset) := by
    rw [UInt32.lt_iff_toNat_lt, UInt32.lt_iff_toNat_lt, UInt32.toNat_add]
    omega
  have htotal := readTotal_eq_min hoffset hwrap
  have hvalue : (UInt32.ofNat total).toNat = total := by
    rw [UInt32.toNat_ofNat', Nat.mod_eq_of_lt (by omega)]
  have hloop := readLoopBy_spec s assign offset.toNat (le_refl total) (by
    rintro bn ⟨p, hlow, hhigh, rfl⟩
    refine hreal _ ?_
    have hblock := Nat.div_mul_le_self p blockSize
    omega)
  unfold inodeReadDataBy
  rw [readSlot_bind, Exec.bind_of_ok (assertThat_of_true hlocked s),
    Exec.bind_of_ok (inodeRw_false_apply i s), reload_eq_self hrecord,
    readSlot_bind]
  refine (congrFun (if_neg hnothing) s).trans ?_
  change (do
    let bytes ← readLoopBy _ (readTotal (s.size i) offset len).toNat offset.toNat
      (readTotal (s.size i) offset len).toNat
    return (readTotal (s.size i) offset len, bytes) : FsM _) s = _
  rw [htotal, hvalue, Exec.bind_of_ok hloop]
  rfl

/-- A write gives the bytes of its range their new values and leaves the others,
a read returns the bytes of its range, whatever blocks hold the file. -/
theorem data_split (assign : Nat → UInt32) (offset len : UInt32)
    (src : Nat → UInt8) (hlocked : (s.icache i).locked) :
    (offset.toNat + len.toNat ≤ maxFileSize →
      Set.InjOn assign (touched offset.toNat (offset.toNat + len.toNat)) →
      (∀ bn ∈ touched offset.toNat (offset.toNat + len.toNat),
        (assign bn).toNat < nBlock ∧
          assign bn ≠ inodeLocateBlockNum (s.icache i).inodeNum) →
      ∃ s', inodeWriteDataBy (fun bn => pure (assign bn)) i offset len src s =
        .ok (len, s') ∧ Written assign i offset len src s s') ∧
    (offset ≤ s.size i → offset.toNat + len.toNat < 2 ^ 32 →
      recordOf s.disk (s.icache i).inodeNum = (s.icache i).diskInode →
      (∀ bn, bn * blockSize < (s.size i).toNat → (assign bn).toNat < nBlock) →
      let total := min len.toNat ((s.size i).toNat - offset.toNat)
      inodeReadDataBy (fun bn => pure (assign bn)) i offset len s =
        .ok ((UInt32.ofNat total, (List.range total).map
          fun k => assignedByte s.disk assign (offset.toNat + k)), s)) := by
  constructor
  · intro hfits hinj hblocks
    exact inodeWriteDataBy_spec hlocked hfits hinj (fun bn h => (hblocks bn h).1)
      fun bn h => (hblocks bn h).2
  · intro hoffset hwrap hrecord hreal
    exact inodeReadDataBy_spec hlocked hoffset hwrap hrecord hreal

end

def neighbours (bn : Nat) : UInt32 := UInt32.ofNat (200 + bn)

theorem data_split_gapped :
    (∃ s', inodeWriteDataBy (fun bn => pure (neighbours bn)) 0 1020 10
        (fun k => UInt8.ofNat k) gapped = .ok (10, s') ∧
      Written neighbours 0 1020 10 (fun k => UInt8.ofNat k) gapped s') ∧
    inodeReadDataBy (fun bn => pure (neighbours bn)) 0 1020 10 gapped =
      .ok ((5, (List.range 5).map
        fun k => assignedByte gapped.disk neighbours (1020 + k)), gapped) := by
  have hlocked : (gapped.icache 0).locked := by decide +kernel
  have hsize : gapped.size 0 = 1025 := by decide +kernel
  have hnum : inodeLocateBlockNum (gapped.icache 0).inodeNum = 2 := by
    decide +kernel
  have hvalue : ∀ bn, bn < 2 → (neighbours bn).toNat = 200 + bn := by
    intro bn hbn
    rw [neighbours, UInt32.toNat_ofNat', Nat.mod_eq_of_lt (by omega)]
  have htouched : ∀ bn ∈ touched 1020 1030, bn < 2 := by
    rintro bn ⟨p, _, hp, rfl⟩
    change p / 1024 < 2
    omega
  have hrecord : recordOf gapped.disk (gapped.icache 0).inodeNum =
      (gapped.icache 0).diskInode := by
    have hfields : ∀ d d' : InodeDisk, (d.type = d'.type ∧ d.major = d'.major ∧
        d.minor = d'.minor ∧ d.nlink = d'.nlink ∧ d.size = d'.size ∧
        ∀ j, d.addrs j = d'.addrs j) → d = d' := by
      rintro ⟨_, _, _, _, _, _⟩ ⟨_, _, _, _, _, _⟩ ⟨rfl, rfl, rfl, rfl, rfl, h⟩
      obtain rfl := funext h
      rfl
    exact hfields _ _ (by decide +kernel)
  have hsplit := data_split neighbours 1020 10 (fun k => UInt8.ofNat k) hlocked
  constructor
  · refine hsplit.1 (by decide) ?_ ?_
    · intro bn hbn bn' hbn' heq
      have hnat := congrArg UInt32.toNat heq
      rw [hvalue bn (htouched bn hbn), hvalue bn' (htouched bn' hbn')] at hnat
      omega
    · intro bn hbn
      have hlt := htouched bn hbn
      refine ⟨?_, ?_⟩
      · rw [hvalue bn hlt]
        change 200 + bn < 8323
        omega
      · rw [hnum]
        intro heq
        have hnat := congrArg UInt32.toNat heq
        rw [hvalue bn hlt] at hnat
        change 200 + bn = 2 at hnat
        omega
  · have hread := hsplit.2 (by rw [hsize]; decide) (by decide) hrecord ?_
    · rw [hsize] at hread
      exact hread
    · intro bn hbn
      rw [hsize] at hbn
      change bn * 1024 < 1025 at hbn
      rw [hvalue bn (by omega)]
      change 200 + bn < 8323
      omega

end UnoOS.Fs
