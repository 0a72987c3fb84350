import UnoOS.Fs.Ownership

namespace UnoOS.Fs

open UnoOS.Lib

/-! What the loops of `inode_read_data` and `inode_write_data` do to the blocks
of a file and to everything else. -/

section

variable {ι : Type} [DecidableEq ι]

/-- Fresh blocks, new data in the blocks of `x`, and a new size: all that
writing to a file changes. -/
structure Touches (live : ι → Option InodeDisk) (x : ι) (i : Slot)
    (s s' : FsState) : Prop where
  slot : ∃ addrs size, s'.icache = Function.update s.icache i { s.icache i with
    diskInode := { (s.icache i).diskInode with
      addrs := addrs, size := size } }
  unsets : s'.unsets = s.unsets
  within : Within (slotNumbers live x i s) (slotNumbers live x i s')
  owned : SlotOwned live x i s'
  outside : ∀ n, ¬InData n → n ≠ sb.dataBitmapStart → s'.disk n = s.disk n
  foreign : ∀ n, InData n → (∀ p, slotNumbers live x i s' (x, p) ≠ n) →
    s'.disk n = s.disk n
  bits : ∀ n, InData n → dataBit s.disk n = true → dataBit s'.disk n = true

variable {live : ι → Option InodeDisk} {x : ι} {i : Slot} {s s' s'' : FsState}

theorem Grows.touches (h : Grows live x i s s') : Touches live x i s s' := by
  obtain ⟨addrs, hslot⟩ := h.slot
  exact ⟨⟨addrs, _, hslot⟩, h.unsets, h.within, h.owned, h.outside,
    fun n hn hplaces => h.inside n hn fun t => hplaces t.place, h.bits⟩

theorem Touches.trans (h : Touches live x i s s')
    (h' : Touches live x i s' s'') : Touches live x i s s'' := by
  obtain ⟨addrs, size, hslot⟩ := h.slot
  obtain ⟨addrs', size', hslot'⟩ := h'.slot
  refine ⟨⟨addrs', size', ?_⟩, h'.unsets.trans h.unsets,
    h.within.trans h'.within, h'.owned, ?_, ?_,
    fun n hn hbit => h'.bits n hn (h.bits n hn hbit)⟩
  · rw [hslot', hslot]
    simp
  · intro n hn hne
    rw [h'.outside n hn hne, h.outside n hn hne]
  · intro n hn hplaces
    rw [h'.foreign n hn hplaces, h.foreign n hn]
    intro p heq
    refine hplaces p ?_
    rw [h'.within _ (heq ▸ hn.ne_zero), heq]

theorem Touches.freeZero (h : Touches live x i s s') (hzero : FreeZero s.disk) :
    FreeZero s'.disk := by
  intro n hn hclear
  have hold : dataBit s.disk n = false := by
    cases hbit : dataBit s.disk n with
    | false => rfl
    | true =>
        rw [h.bits n hn hbit] at hclear
        cases hclear
  rw [h.foreign n hn fun p => h.owned.not_fresh hn hclear (x, p)]
  exact hzero n hn hold

theorem Touches.needsTable (h : Touches live x i s s') {bn : Nat}
    (hneeds : NeedsTable (s'.icache i).diskInode bn) :
    NeedsTable (s.icache i).diskInode bn := by
  refine ⟨hneeds.1, hneeds.2.imp_left ?_⟩
  intro hzero
  by_contra hne
  have hsame := h.within (x, .top (topIndex bn)) (by
    unfold slotNumbers
    rw [numbering_of_live (Function.update_self ..)]
    exact hne)
  unfold slotNumbers at hsame
  rw [numbering_of_live (Function.update_self ..),
    numbering_of_live (Function.update_self ..)] at hsame
  change (s'.icache i).diskInode.addrs (topIndex bn) = _ at hsame
  rw [hzero] at hsame
  exact hne hsame.symm

/-! The bytes of the file, by offset. -/

def fileBlock (live : ι → Option InodeDisk) (x : ι) (i : Slot) (s : FsState)
    (bn : Nat) : UInt32 :=
  slotNumbers live x i s (x, placeOf bn)

def fileByte (live : ι → Option InodeDisk) (x : ι) (i : Slot) (s : FsState)
    (o : Nat) : UInt8 :=
  (s.disk (fileBlock live x i s (o / blockSize))).get (o % blockSize)

theorem Touches.fileBlock_eq (h : Touches live x i s s') {bn : Nat}
    (hmapped : fileBlock live x i s bn ≠ 0) :
    fileBlock live x i s' bn = fileBlock live x i s bn :=
  h.within _ hmapped

theorem Grows.fileByte_eq (h : Grows live x i s s') {o : Nat}
    (hmapped : fileBlock live x i s (o / blockSize) ≠ 0) :
    fileByte live x i s' o = fileByte live x i s o := by
  unfold fileByte
  rw [h.touches.fileBlock_eq hmapped]
  unfold fileBlock at hmapped ⊢
  rw [h.disk_eq (placeOf_ne_table _) hmapped]

theorem slotNumbers_size (live : ι → Option InodeDisk) (x : ι) (i : Slot)
    (s : FsState) (size : UInt32) :
    slotNumbers live x i (s.setSlot i { s.icache i with
      diskInode := { (s.icache i).diskInode with size := size } }) =
      slotNumbers live x i s := by
  unfold slotNumbers
  simp only [FsState.setSlot_disk, FsState.setSlot_icache,
    Function.update_self]
  funext ⟨y, p⟩
  by_cases hy : y = x
  · subst hy
    rw [numbering_of_live (Function.update_self ..),
      numbering_of_live (Function.update_self ..)]
    cases p <;> rfl
  · rw [numbering_update_of_ne hy, numbering_update_of_ne hy]

theorem Touches.of_size (h : SlotOwned live x i s) (size : UInt32) :
    Touches live x i s (s.setSlot i { s.icache i with
      diskInode := { (s.icache i).diskInode with size := size } }) := by
  have hnumbers := slotNumbers_size live x i s size
  refine ⟨⟨_, size, rfl⟩, rfl, ?_, ?_, fun _ _ _ => rfl, fun _ _ _ => rfl,
    fun _ _ h => h⟩
  · rw [hnumbers]
    exact Within.refl _
  · refine Owned.of_within h ?_ fun _ _ h => h
    change Within (slotNumbers live x i _) (slotNumbers live x i s)
    rw [hnumbers]
    exact Within.refl _

theorem slotNumbers_store (h : SlotOwned live x i s) (bn : Nat) (b : Block) :
    slotNumbers live x i (s.setBlock (fileBlock live x i s bn) b) =
      slotNumbers live x i s := by
  refine Owned.numbering_eq h ?_
  intro y t ht
  refine Function.update_of_ne ?_ _ _
  intro heq
  have hpair := h.exclusive (y, t.place) (x, placeOf bn) heq ht.ne_zero
  exact placeOf_ne_table bn t (Prod.mk.inj hpair).2.symm

theorem Touches.of_store (h : SlotOwned live x i s) {bn : Nat}
    (hmapped : fileBlock live x i s bn ≠ 0) (b : Block) :
    Touches live x i s (s.setBlock (fileBlock live x i s bn) b) := by
  have hnumbers := slotNumbers_store h bn b
  have hdata : InData (fileBlock live x i s bn) := h.inData _ hmapped
  have hbitmap : (s.setBlock (fileBlock live x i s bn) b).disk
      sb.dataBitmapStart = s.disk sb.dataBitmapStart :=
    Function.update_of_ne hdata.ne_bitmap.symm _ _
  refine ⟨⟨(s.icache i).diskInode.addrs, (s.icache i).diskInode.size, ?_⟩, rfl,
    ?_, ?_, ?_, ?_, ?_⟩
  · exact (Function.update_eq_self i s.icache).symm
  · rw [hnumbers]
    exact Within.refl _
  · refine Owned.of_within h ?_ ?_
    · change Within (slotNumbers live x i _) (slotNumbers live x i s)
      rw [hnumbers]
      exact Within.refl _
    · intro n _ hbit
      rwa [dataBit_congr hbitmap]
  · intro n hn _
    refine Function.update_of_ne ?_ _ _
    rintro rfl
    exact hn hdata
  · intro n _ hplaces
    rw [hnumbers] at hplaces
    exact Function.update_of_ne (Ne.symm (hplaces (placeOf bn))) _ _
  · intro n _ hbit
    rwa [dataBit_congr hbitmap]

/-- What a store into one file block does to the bytes of the file. -/
theorem fileByte_store (h : SlotOwned live x i s) {bn : Nat}
    (hbn : bn < reachedBlocks) (hmapped : fileBlock live x i s bn ≠ 0)
    (off len : Nat) (src : Nat → UInt8) {o : Nat}
    (ho : o / blockSize < reachedBlocks)
    (hmapped' : fileBlock live x i s (o / blockSize) ≠ 0) :
    fileByte live x i (s.setBlock (fileBlock live x i s bn)
      ((s.disk (fileBlock live x i s bn)).patch off len src)) o =
      if o / blockSize = bn ∧ off ≤ o % blockSize ∧ o % blockSize < off + len
      then src (o % blockSize - off) else fileByte live x i s o := by
  have hblock : fileBlock live x i (s.setBlock (fileBlock live x i s bn)
      ((s.disk (fileBlock live x i s bn)).patch off len src)) (o / blockSize) =
      fileBlock live x i s (o / blockSize) :=
    congrFun (slotNumbers_store h bn _) _
  have hlt : o % blockSize < blockSize := Nat.mod_lt _ (by decide)
  unfold fileByte
  rw [hblock]
  by_cases hsame : o / blockSize = bn
  · subst hsame
    simp only [FsState.setBlock_disk, Function.update_self, true_and]
    split
    · next hrange =>
      exact Bytes.get_patch_of_mem _ _ hlt hrange.1 hrange.2
    · next hrange =>
      exact Bytes.get_patch_of_not_mem _ _ (by omega)
  · rw [if_neg (fun hcase => hsame hcase.1)]
    have hne : fileBlock live x i s (o / blockSize) ≠
        fileBlock live x i s bn := by
      intro heq
      have hpair := h.exclusive (x, placeOf (o / blockSize)) (x, placeOf bn)
        heq hmapped'
      exact hsame (placeOf_inj ho hbn (Prod.mk.inj hpair).2)
    rw [FsState.setBlock_disk, Function.update_of_ne hne]

/-- The free blocks are blank whenever one of the file blocks from `beg` to
`fin` (in bytes) needs a new table. -/
def BlankFor (disk : Disk) (d : InodeDisk) (beg fin : Nat) : Prop :=
  ∀ bn, beg / blockSize ≤ bn → bn * blockSize < fin →
    NeedsTable d bn → FreeZero disk

theorem Touches.blankFor (h : Touches live x i s s') {beg beg' fin : Nat}
    (hle : beg / blockSize ≤ beg' / blockSize)
    (hblank : BlankFor s.disk (s.icache i).diskInode beg fin) :
    BlankFor s'.disk (s'.icache i).diskInode beg' fin := by
  intro bn hlow hhigh hneeds
  exact h.freeZero (hblank bn (by omega) hhigh (h.needsTable hneeds))

theorem blockSlice_getElem? (b : Block) (off len k : Nat) (hk : k < len) :
    (blockSlice b off len)[k]? = some (b.get (off + k)) := by
  simp [blockSlice, hk]

/-- The loop of `inode_read_data` returns the bytes of the file; where there
was no block it allocates one. -/
theorem readLoop_spec {fuel beg remaining : Nat} {bytes : List UInt8}
    (h : SlotOwned live x i s)
    (hend : beg + remaining ≤ reachedBlocks * blockSize)
    (hblank : BlankFor s.disk (s.icache i).diskInode beg (beg + remaining))
    (hfuel : remaining ≤ fuel)
    (hrun : readLoop i fuel beg remaining s = .ok (bytes, s')) :
    Grows live x i s s' ∧ bytes.length = remaining ∧
      ∀ k, k < remaining →
        fileBlock live x i s' ((beg + k) / blockSize) ≠ 0 ∧
          bytes[k]? = some (fileByte live x i s' (beg + k)) := by
  induction fuel generalizing beg remaining bytes s with
  | zero =>
      cases hrun
      exact ⟨.refl h, by simp; omega, fun k hk => absurd hk (by omega)⟩
  | succ fuel ih =>
      unfold readLoop at hrun
      by_cases hzero : remaining = 0
      · rw [if_pos hzero] at hrun
        cases hrun
        exact ⟨.refl h, by simp [hzero], fun k hk => absurd hk (by omega)⟩
      · rw [if_neg hzero, Exec.bind_eq_ok] at hrun
        obtain ⟨blockNum, first, hlocate, hrun⟩ := hrun
        rw [bufRead_bind_eq_ok] at hrun
        obtain ⟨hlt, hrun⟩ := hrun
        rw [Exec.bind_eq_ok] at hrun
        obtain ⟨rest, second, hrest, hpure⟩ := hrun
        cases hpure
        change beg + remaining ≤ 778 * 1024 at hend
        have hbn : beg / blockSize < reachedBlocks := by
          change beg / 1024 < 778
          omega
        obtain ⟨hfirst, hne, hnumber⟩ := inodeLocateBlock_grows hbn h
          (hblank _ le_rfl (by
            change beg / 1024 * 1024 < beg + remaining
            omega)) hlt hlocate
        generalize hsize :
          min (blockSize - beg % blockSize) remaining = readsize at hrest ⊢
        change min (1024 - beg % 1024) remaining = readsize at hsize
        have hpos : 0 < readsize := by omega
        have hstop : beg + readsize + (remaining - readsize) = beg + remaining := by
          omega
        obtain ⟨hsecond, hlength, hbytes⟩ := ih hfirst.owned
          (by rw [hstop]; exact hend)
          (by
            rw [hstop]
            refine hfirst.touches.blankFor ?_ hblank
            change beg / 1024 ≤ (beg + readsize) / 1024
            omega) (by omega) hrest
        refine ⟨hfirst.trans hsecond, ?_, ?_⟩
        · simp only [blockSlice, List.length_append, List.length_map,
            List.length_range, hlength]
          omega
        · intro k hk
          by_cases hhere : k < readsize
          · -- the block of this round, unchanged by the later ones
            have hquotient : (beg + k) / blockSize = beg / blockSize := by
              change (beg + k) / 1024 = beg / 1024
              omega
            have hremainder : (beg + k) % blockSize = beg % blockSize + k := by
              change (beg + k) % 1024 = beg % 1024 + k
              omega
            have hmapped : fileBlock live x i first ((beg + k) / blockSize) ≠
                0 := by
              rw [hquotient]
              unfold fileBlock
              rwa [hnumber]
            refine ⟨?_, ?_⟩
            · rw [hsecond.touches.fileBlock_eq hmapped]
              exact hmapped
            · rw [hsecond.fileByte_eq hmapped, List.getElem?_append_left
                (by simpa [blockSlice] using hhere),
                blockSlice_getElem? _ _ _ _ hhere]
              unfold fileByte fileBlock
              rw [hquotient, hremainder, hnumber]
          · have hshift : beg + readsize + (k - readsize) = beg + k := by omega
            obtain ⟨hmapped, hbyte⟩ := hbytes (k - readsize) (by omega)
            rw [hshift] at hmapped hbyte
            refine ⟨hmapped, ?_⟩
            rw [List.getElem?_append_right
              (by simpa [blockSlice] using Nat.le_of_not_lt hhere)]
            simpa [blockSlice] using hbyte

/-- One round of the loop of `inode_write_data`: the block is located, patched
and the size raised if need be. -/
theorem writeLoop_succ {offset len count fuel : Nat} {src : Nat → UInt8}
    {modified result : Bool} (hlt : count < len)
    (hrun : writeLoop i offset len src (fuel + 1) count modified s =
      .ok (result, s')) :
    ∃ blockNum first next, ∃ modified' : Bool,
      inodeLocateBlock i ((offset + count) / blockSize) s =
        .ok (blockNum, first) ∧
      blockNum.toNat < nBlock ∧
      let writesize := min (blockSize - (offset + count) % blockSize)
        (len - count)
      let stored := first.setBlock blockNum ((first.disk blockNum).patch
        ((offset + count) % blockSize) writesize fun k => src (count + k))
      (next = stored ∨ next = stored.setSlot i { stored.icache i with
        diskInode := { (stored.icache i).diskInode with
          size := UInt32.ofNat (offset + len) } }) ∧
      writeLoop i offset len src fuel (count + writesize) modified' next =
        .ok (result, s') := by
  unfold writeLoop at hrun
  rw [if_neg (Nat.not_le.mpr hlt), Exec.bind_eq_ok] at hrun
  obtain ⟨blockNum, first, hlocate, hrun⟩ := hrun
  rw [bufRead_bind_eq_ok] at hrun
  obtain ⟨hblock, hrun⟩ := hrun
  rw [bufWrite_bind, readSlot_bind] at hrun
  split at hrun
  · rw [writeSlot_bind] at hrun
    exact ⟨blockNum, first, _, _, hlocate, hblock, .inr rfl, hrun⟩
  · exact ⟨blockNum, first, _, _, hlocate, hblock, .inl rfl, hrun⟩

theorem writeRound_spec {offset len count : Nat} {src : Nat → UInt8}
    (h : SlotOwned live x i s)
    (hend : offset + len ≤ reachedBlocks * blockSize) (hlt : count < len)
    (hblank : BlankFor s.disk (s.icache i).diskInode (offset + count)
      (offset + len))
    {blockNum : UInt32} {first next : FsState}
    (hlocate : inodeLocateBlock i ((offset + count) / blockSize) s =
      .ok (blockNum, first)) (hblock : blockNum.toNat < nBlock)
    {writesize : Nat}
    (hsize : writesize = min (blockSize - (offset + count) % blockSize)
      (len - count))
    {stored : FsState}
    (hstored : stored = first.setBlock blockNum
      ((first.disk blockNum).patch ((offset + count) % blockSize) writesize
        fun k => src (count + k)))
    (hnext : next = stored ∨ next = stored.setSlot i
      { stored.icache i with
        diskInode := { (stored.icache i).diskInode with
          size := UInt32.ofNat (offset + len) } }) :
    Touches live x i s next ∧
      ((next.icache i).diskInode.size = (s.icache i).diskInode.size ∨
        (next.icache i).diskInode.size = UInt32.ofNat (offset + len)) ∧
      (∀ o, offset + count ≤ o → o < offset + count + writesize →
        fileBlock live x i next (o / blockSize) ≠ 0 ∧
          fileByte live x i next o = src (o - offset)) ∧
      ∀ o, o < reachedBlocks * blockSize →
        (o < offset + count ∨ offset + count + writesize ≤ o) →
        fileBlock live x i s (o / blockSize) ≠ 0 →
        fileByte live x i next o = fileByte live x i s o := by
  change offset + len ≤ 778 * 1024 at hend
  change writesize = min (1024 - (offset + count) % 1024) (len - count) at hsize
  have hbn : (offset + count) / blockSize < reachedBlocks := by
    change (offset + count) / 1024 < 778
    omega
  obtain ⟨hfirst, hne, hnumber⟩ := inodeLocateBlock_grows hbn h
    (hblank _ le_rfl (by
      change (offset + count) / 1024 * 1024 < offset + len
      omega)) hblock hlocate
  have hown : blockNum = fileBlock live x i first
      ((offset + count) / blockSize) := hnumber.symm
  subst hown
  have hstore := Touches.of_store hfirst.owned hne
    ((first.disk (fileBlock live x i first ((offset + count) / blockSize))).patch
      ((offset + count) % blockSize) writesize fun k => src (count + k))
  rw [← hstored] at hstore
  -- the bytes after the store; the size does not matter for them
  have hbyte : ∀ o, o < 778 * 1024 →
      fileBlock live x i first (o / blockSize) ≠ 0 →
      fileByte live x i stored o =
        if o / blockSize = (offset + count) / blockSize ∧
          (offset + count) % blockSize ≤ o % blockSize ∧
          o % blockSize < (offset + count) % blockSize + writesize
        then src (count + (o % blockSize - (offset + count) % blockSize))
        else fileByte live x i first o := by
    intro o ho hmapped
    rw [hstored]
    exact fileByte_store hfirst.owned hbn hne _ _ _ (by
      change o / 1024 < 778
      omega) hmapped
  have hsame : Touches live x i stored next ∧
      (∀ bn, fileBlock live x i next bn = fileBlock live x i stored bn) ∧
      ∀ o, fileByte live x i next o = fileByte live x i stored o := by
    rcases hnext with rfl | rfl
    · exact ⟨(Grows.refl hstore.owned).touches, fun _ => rfl, fun _ => rfl⟩
    · have hnumbers := slotNumbers_size live x i stored
        (UInt32.ofNat (offset + len))
      have hblocks : ∀ bn, fileBlock live x i (stored.setSlot i
          { stored.icache i with
            diskInode := { (stored.icache i).diskInode with
              size := UInt32.ofNat (offset + len) } }) bn =
            fileBlock live x i stored bn :=
        fun bn => congrFun hnumbers _
      refine ⟨.of_size hstore.owned _, hblocks, ?_⟩
      intro o
      unfold fileByte
      rw [hblocks]
      rfl
  obtain ⟨hlast, hblocks, hbytes⟩ := hsame
  have hsizes : (next.icache i).diskInode.size =
        (s.icache i).diskInode.size ∨
      (next.icache i).diskInode.size = UInt32.ofNat (offset + len) := by
    obtain ⟨addrs, hslot⟩ := hfirst.slot
    have hkept : (stored.icache i).diskInode.size =
        (s.icache i).diskInode.size := by
      rw [hstored, FsState.setBlock_icache, hslot, Function.update_self]
    rcases hnext with rfl | rfl
    · exact .inl hkept
    · exact .inr (by rw [FsState.setSlot_icache, Function.update_self])
  refine ⟨(hfirst.touches.trans hstore).trans hlast, hsizes, ?_, ?_⟩
  · intro o hlow hhigh
    have hquotient : o / blockSize = (offset + count) / blockSize := by
      change o / 1024 = (offset + count) / 1024
      omega
    have hmapped : fileBlock live x i first (o / blockSize) ≠ 0 := by
      rw [hquotient]
      exact hne
    refine ⟨?_, ?_⟩
    · rw [hblocks, hstore.fileBlock_eq hmapped]
      exact hmapped
    · rw [hbytes, hbyte o (by omega) hmapped, if_pos]
      · congr 1
        change count + (o % 1024 - (offset + count) % 1024) = o - offset
        change o / 1024 = (offset + count) / 1024 at hquotient
        omega
      · refine ⟨hquotient, ?_, ?_⟩
        · change (offset + count) % 1024 ≤ o % 1024
          change o / 1024 = (offset + count) / 1024 at hquotient
          omega
        · change o % 1024 < (offset + count) % 1024 + writesize
          change o / 1024 = (offset + count) / 1024 at hquotient
          omega
  · intro o ho hout hmapped
    have hmapped' : fileBlock live x i first (o / blockSize) ≠ 0 := by
      rw [hfirst.touches.fileBlock_eq hmapped]
      exact hmapped
    rw [hbytes, hbyte o ho hmapped', if_neg, hfirst.fileByte_eq hmapped]
    rintro ⟨hquotient, hlow, hhigh⟩
    change o / 1024 = (offset + count) / 1024 at hquotient
    change (offset + count) % 1024 ≤ o % 1024 at hlow
    change o % 1024 < (offset + count) % 1024 + writesize at hhigh
    omega

/-- The loop of `inode_write_data` stores the source bytes and changes no other
byte of the file. -/
theorem writeLoop_spec {offset len count fuel : Nat} {src : Nat → UInt8}
    {modified result : Bool} (h : SlotOwned live x i s)
    (hend : offset + len ≤ reachedBlocks * blockSize)
    (hblank : BlankFor s.disk (s.icache i).diskInode (offset + count)
      (offset + len))
    (hcount : count ≤ len) (hfuel : len ≤ count + fuel)
    (hrun : writeLoop i offset len src fuel count modified s =
      .ok (result, s')) :
    Touches live x i s s' ∧
      ((s'.icache i).diskInode.size = (s.icache i).diskInode.size ∨
        (s'.icache i).diskInode.size = UInt32.ofNat (offset + len)) ∧
      (∀ o, offset + count ≤ o → o < offset + len →
        fileBlock live x i s' (o / blockSize) ≠ 0 ∧
          fileByte live x i s' o = src (o - offset)) ∧
      ∀ o, o < reachedBlocks * blockSize →
        (o < offset + count ∨ offset + len ≤ o) →
        fileBlock live x i s (o / blockSize) ≠ 0 →
        fileByte live x i s' o = fileByte live x i s o := by
  induction fuel generalizing count modified s with
  | zero =>
      cases hrun
      exact ⟨(Grows.refl h).touches, .inl rfl,
        fun o hlow hhigh => absurd hlow (by omega), fun _ _ _ _ => rfl⟩
  | succ fuel ih =>
      by_cases hdone : len ≤ count
      · unfold writeLoop at hrun
        rw [if_pos hdone] at hrun
        cases hrun
        exact ⟨(Grows.refl h).touches, .inl rfl,
          fun o hlow hhigh => absurd hlow (by omega), fun _ _ _ _ => rfl⟩
      · obtain ⟨blockNum, first, next, modified', hlocate, hblock, hnext, hrest⟩ :=
          writeLoop_succ (Nat.lt_of_not_le hdone) hrun
        obtain ⟨htouch, hsizes, hhere, helse⟩ := writeRound_spec h hend
          (Nat.lt_of_not_le hdone) hblank hlocate hblock rfl rfl hnext
        generalize hsize : min (blockSize - (offset + count) % blockSize)
          (len - count) = writesize at hrest hhere helse
        change min (1024 - (offset + count) % 1024) (len - count) = writesize
          at hsize
        obtain ⟨htouch', hsizes', hhere', helse'⟩ := ih htouch.owned
          (by
            refine htouch.blankFor ?_ hblank
            change (offset + count) / 1024 ≤ (offset + (count + writesize)) / 1024
            omega) (by omega) (by omega) hrest
        have hassoc : offset + (count + writesize) =
            offset + count + writesize := (Nat.add_assoc _ _ _).symm
        rw [hassoc] at hhere' helse'
        refine ⟨htouch.trans htouch', ?_, ?_, ?_⟩
        · rcases hsizes' with hsame | hnew
          · rwa [hsame]
          · exact .inr hnew
        · intro o hlow hhigh
          by_cases hround : o < offset + count + writesize
          · obtain ⟨hmapped, hvalue⟩ := hhere o hlow hround
            refine ⟨?_, ?_⟩
            · rw [htouch'.fileBlock_eq hmapped]
              exact hmapped
            · rw [helse' o (by omega) (.inl hround) hmapped, hvalue]
          · exact hhere' o (by omega) hhigh
        · intro o ho hout hmapped
          have hmapped' : fileBlock live x i next (o / blockSize) ≠ 0 := by
            rw [htouch.fileBlock_eq hmapped]
            exact hmapped
          rw [helse' o ho (by omega) hmapped', helse o ho (by omega) hmapped]

end

end UnoOS.Fs
