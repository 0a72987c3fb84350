import UnoOS.Fs.DataCalls
import UnoOS.Fs.ReadFrame

namespace UnoOS.Fs

open UnoOS.Lib

/-! How many blocks a file lacks in a range of its bytes.  With that many free
ones a read or a write of the range returns. -/

def Place.path : Place → Finset Place
  | .top j => {.top j}
  | .entry j k => {.top (tableAddr j), .entry j k}
  | .leaf k l => {.top (tableAddr 2), .entry 2 k, .leaf k l}

/-- The places on the way to the file blocks of bytes `[beg, fin)`. -/
def placesOf (beg fin : Nat) : Finset Place :=
  (Finset.Ico (beg / blockSize) ((fin + 1023) / blockSize)).biUnion fun bn =>
    (placeOf bn).path

/-- Those that hold no block number yet. -/
def lackingIn (disk : Disk) (d : InodeDisk) (places : Finset Place) : Finset Place :=
  places.filter fun p => numberAt disk d p = 0

section

variable {ι : Type} [DecidableEq ι] {live : ι → Option InodeDisk} {x : ι} {i : Slot}
  {s s' : FsState} {offset len : Nat}

theorem path_subset_placesOf {bn beg fin : Nat} (hlow : beg / blockSize ≤ bn)
    (hhigh : bn * blockSize < fin) : (placeOf bn).path ⊆ placesOf beg fin := by
  refine Finset.subset_biUnion_of_mem (fun bn => (placeOf bn).path)
    (Finset.mem_Ico.mpr ⟨hlow, ?_⟩)
  change bn * 1024 < fin at hhigh
  change bn < (fin + 1023) / 1024
  omega

theorem placesOf_mono {beg beg' fin : Nat} (h : beg / blockSize ≤ beg' / blockSize) :
    placesOf beg' fin ⊆ placesOf beg fin :=
  Finset.biUnion_subset_biUnion_of_subset_left _ (Finset.Ico_subset_Ico_left h)

theorem path_ne_zero {disk : Disk} {d : InodeDisk} {p q : Place}
    (hp : numberAt disk d p ≠ 0) (hq : q ∈ p.path) : numberAt disk d q ≠ 0 := by
  have hparent : ∀ {table : UInt32} {k}, through disk table k ≠ 0 → table ≠ 0 := by
    intro table k hne htable
    rw [htable, through_zero] at hne
    exact hne rfl
  cases p with
  | top j =>
      cases Finset.mem_singleton.mp hq
      exact hp
  | entry j k =>
      rcases Finset.mem_insert.mp hq with rfl | hq
      · exact hparent hp
      · cases Finset.mem_singleton.mp hq
        exact hp
  | leaf k l =>
      rcases Finset.mem_insert.mp hq with rfl | hq
      · exact hparent (hparent hp)
      · rcases Finset.mem_insert.mp hq with rfl | hq
        · exact hparent hp
        · cases Finset.mem_singleton.mp hq
          exact hp

/-- Places keep their numbers, and those on the way to a block have got one. -/
theorem Touches.lacking (h : Touches live x i s s') {p : Place} {places : Finset Place}
    (hp : numberAt s'.disk (s'.icache i).diskInode p ≠ 0) (hpath : p.path ⊆ places) :
    (lackingIn s'.disk (s'.icache i).diskInode places).card +
        (lackingIn s.disk (s.icache i).diskInode p.path).card ≤
      (lackingIn s.disk (s.icache i).diskInode places).card := by
  have hstays : ∀ q, numberAt s'.disk (s'.icache i).diskInode q = 0 →
      numberAt s.disk (s.icache i).diskInode q = 0 := by
    intro q hq
    by_contra hne
    have hsame := h.within (x, q) (by rwa [slotNumbers_self])
    rw [slotNumbers_self, slotNumbers_self] at hsame
    exact hne (hsame ▸ hq)
  rw [← Finset.card_union_of_disjoint]
  · apply Finset.card_le_card
    apply Finset.union_subset
    · intro q hq
      obtain ⟨hmem, hzero⟩ := Finset.mem_filter.mp hq
      exact Finset.mem_filter.mpr ⟨hmem, hstays q hzero⟩
    · exact Finset.filter_subset_filter _ hpath
  · rw [Finset.disjoint_left]
    intro q hq hq'
    exact path_ne_zero hp (Finset.mem_filter.mp hq').1 (Finset.mem_filter.mp hq).2

/-- One place on the way: it costs a block if it lacks one. -/
def costAt (s : FsState) (i : Slot) (p : Place) : Nat :=
  if numberAt s.disk (s.icache i).diskInode p = 0 then 1 else 0

theorem Grows.costAt_le (h : Grows live x i s s') (p : Place) :
    costAt s' i p ≤ costAt s i p := by
  unfold costAt
  by_cases hzero : numberAt s.disk (s.icache i).diskInode p = 0
  · rw [if_pos hzero]
    split <;> omega
  · have hsame := h.within (x, p) (by rwa [slotNumbers_self])
    rw [slotNumbers_self, slotNumbers_self] at hsame
    rw [if_neg hzero, hsame, if_neg hzero]

/-- The blocks that are lacking on the way to a place are paid one by one. -/
theorem card_lackingIn_path (p : Place) :
    (lackingIn s.disk (s.icache i).diskInode p.path).card =
      match p with
      | .top j => costAt s i (.top j)
      | .entry j k => costAt s i (.top (tableAddr j)) + costAt s i (.entry j k)
      | .leaf k l => costAt s i (.top (tableAddr 2)) + costAt s i (.entry 2 k) +
          costAt s i (.leaf k l) := by
  have hsum : ∀ places : Finset Place,
      (lackingIn s.disk (s.icache i).diskInode places).card =
        ∑ p ∈ places, costAt s i p := fun places => Finset.card_filter _ _
  rw [hsum]
  cases p with
  | top j => exact Finset.sum_singleton _ _
  | entry j k =>
      refine (Finset.sum_insert ?_).trans ?_
      · simp
      · rw [Finset.sum_singleton]
  | leaf k l =>
      refine (Finset.sum_insert ?_).trans ?_
      · simp
      · rw [Finset.sum_insert (by simp), Finset.sum_singleton]
        exact (Nat.add_assoc _ _ _).symm

/-! The steps of the walk, each with the block it costs. -/

theorem SlotOwned.sited (h : SlotOwned live x i s) {p : Place}
    (hp : numberAt s.disk (s.icache i).diskInode p ≠ 0) :
    Sited s.disk (numberAt s.disk (s.icache i).diskInode p) := by
  have hsame : slotNumbers live x i s (x, p) = _ := slotNumbers_self p
  rw [← hsame] at hp ⊢
  exact ⟨h.inData (x, p) hp, h.marked (x, p) hp⟩

theorem locateAddr_pays (check : UInt32 → Prop) [DecidablePred check]
    (hcheck : ∀ n, InData n → check n) (h : SlotOwned live x i s) (j : Fin nAddrs)
    (hroom : costAt s i (.top j) ≤ freeCount s.disk) :
    ∃ n s', locateAddr i j.val check s = .ok (n, s') ∧ n.toNat < nBlock ∧
      freeCount s.disk ≤ freeCount s'.disk + costAt s i (.top j) := by
  unfold costAt at hroom ⊢
  have hsited := h.sited (p := .top j)
  by_cases hzero : numberAt s.disk (s.icache i).diskInode (.top j) = 0
  · rw [if_pos hzero] at hroom ⊢
    obtain ⟨n, s', hrun, hn, hcount, _⟩ := locateAddr_returns check hcheck hsited hroom
    exact ⟨n, s', hrun, hn.inData.lt_nBlock, hcount⟩
  · exact ⟨_, s, locateAddr_of_ne_zero hzero, (hsited hzero).inData.lt_nBlock,
      Nat.le_add_right _ _⟩

theorem locateEntry_pays {t : Table} {table : UInt32} (k : Fin entryPerBlock)
    (h : SlotOwned live x i s) (htable : table ≠ 0)
    (htab : slotNumbers live x i s (x, t.place) = table)
    (hroom : costAt s i (t.child k) ≤ freeCount s.disk) :
    ∃ n s', locateEntry table k.val s = .ok (n, s') ∧ n.toNat < nBlock ∧
      freeCount s.disk ≤ freeCount s'.disk + costAt s i (t.child k) := by
  rw [slotNumbers_self] at htab
  have hentry : numberAt s.disk (s.icache i).diskInode (t.child k) =
      (s.disk table).word (4 * k.val) := by
    rw [numberAt_child, htab, through, if_neg htable]
  have hsited := h.sited (p := t.child k)
  have htableSited := h.sited (p := t.place) (by rwa [htab])
  rw [hentry] at hsited
  rw [htab] at htableSited
  unfold costAt at hroom ⊢
  rw [hentry] at hroom ⊢
  by_cases hzero : (s.disk table).word (4 * k.val) = 0
  · rw [if_pos hzero] at hroom ⊢
    obtain ⟨n, s', hrun, hn, hcount, _⟩ := locateEntry_returns htableSited hsited hroom
    exact ⟨n, s', hrun, hn.inData.lt_nBlock, hcount⟩
  · exact ⟨_, s, locateEntry_of_ne_zero htableSited.inData.lt_nBlock hzero,
      (hsited hzero).inData.lt_nBlock, Nat.le_add_right _ _⟩

/-- A block is found if the bitmap has what is lacking on the way to it. -/
theorem inodeLocateBlock_pays {bn : Nat} (hbn : bn < reachedBlocks)
    (hlocked : (s.icache i).locked) (h : SlotOwned live x i s)
    (hblank : NeedsTable (s.icache i).diskInode bn → FreeZero s.disk)
    (hroom : (lackingIn s.disk (s.icache i).diskInode (placeOf bn).path).card ≤
      freeCount s.disk) :
    ∃ n s', inodeLocateBlock i bn s = .ok (n, s') ∧ n.toNat < nBlock ∧
      freeCount s.disk ≤ freeCount s'.disk +
        (lackingIn s.disk (s.icache i).diskInode (placeOf bn).path).card := by
  change bn < 778 at hbn
  unfold inodeLocateBlock
  rw [readSlot_bind, Exec.bind_of_ok (assertThat_of_true hlocked s)]
  rcases block_cases bn with hdirect | ⟨hdirect, hsingle⟩ | hdouble
  · rw [placeOf_direct hdirect, card_lackingIn_path] at hroom ⊢
    rw [if_pos hdirect]
    exact locateAddr_pays _ (fun _ h => h.ne_failed) h _ hroom
  · have hbound : (bn - nAddrs1) / entryPerBlock + nAddrs1 < nAddrs := by
      change bn < 522 at hsingle
      change (bn - 10) / 256 + 10 < 13
      omega
    have htop : topIndex bn =
        tableAddr ⟨(bn - nAddrs1) / entryPerBlock, single_index_lt hsingle⟩ := by
      unfold topIndex
      rw [dif_neg hdirect, dif_pos hsingle]
    have hindex : (⟨_, hbound⟩ : Fin nAddrs) = tableAddr
        ⟨(bn - nAddrs1) / entryPerBlock, single_index_lt hsingle⟩ :=
      Fin.ext (Nat.add_comm _ _)
    rw [placeOf_single hdirect hsingle, Table.child, card_lackingIn_path] at hroom ⊢
    dsimp only at hroom ⊢
    rw [if_neg hdirect, if_pos hsingle]
    obtain ⟨first, s₁, haddr, hlt, hcount⟩ := locateAddr_pays (· ≠ 0)
      (fun _ h => h.ne_zero) h ⟨_, hbound⟩ (by rw [hindex]; omega)
    obtain ⟨hgrows, hne, htable⟩ := locateAddr_grows (x := x) hbound h
      (fun _ hzero => hblank ⟨by omega, .inl (by rwa [htop, ← hindex])⟩) hlt haddr
    rw [hindex] at hcount htable
    have hcost := hgrows.costAt_le (.entry
      ⟨(bn - nAddrs1) / entryPerBlock, single_index_lt hsingle⟩ (entryIndex (bn - nAddrs1)))
    obtain ⟨n, s', hentry, hn, hcount'⟩ := locateEntry_pays
      (t := .index ⟨_, single_index_lt hsingle⟩) (entryIndex (bn - nAddrs1))
      hgrows.owned hne htable (by change costAt _ _ (.entry _ _) ≤ _; omega)
    change _ ≤ _ + costAt _ _ (.entry _ _) at hcount'
    refine ⟨n, s', ?_, hn, by omega⟩
    rw [Exec.bind_of_ok haddr]
    exact hentry
  · have hlow : ¬bn < 522 := hdouble
    have hdirect : ¬bn < nAddrs1 := by
      change ¬bn < 10
      omega
    have hzero : FreeZero s.disk := hblank ⟨by omega, .inr (by
      change 522 ≤ bn
      omega)⟩
    have hlarge : bn < nAddrs1 + nAddrs2 * entryPerBlock +
        nAddrs3 * entryPerBlock * entryPerBlock := by
      change bn < 66058
      omega
    have hbound : (bn - nAddrs1 - entryPerBlock * nAddrs2) / entryPerBlock *
        entryPerBlock + nAddrs1 + nAddrs2 = (tableAddr 2).val := by
      change (bn - 10 - 512) / 256 * 256 + 10 + 2 = 12
      omega
    have hk : (bn - nAddrs1 - entryPerBlock * nAddrs2) / entryPerBlock =
        (entryIndex ((bn - singleBlocks) / entryPerBlock)).val := by
      change (bn - 10 - 512) / 256 = (bn - 522) / 256 % 256
      omega
    have hl : (bn - nAddrs1 - entryPerBlock * nAddrs2) % entryPerBlock =
        (entryIndex (bn - singleBlocks)).val := by
      change (bn - 10 - 512) % 256 = (bn - 522) % 256
      omega
    rw [placeOf_double hdouble, Table.child, card_lackingIn_path] at hroom ⊢
    dsimp only at hroom ⊢
    rw [if_neg hdirect, if_neg hdouble, if_pos hlarge]
    rw [hbound, hk, hl]
    obtain ⟨first, s₁, haddr, hlt, hcount⟩ := locateAddr_pays (· ≠ 0)
      (fun _ h => h.ne_zero) h (tableAddr 2) (by omega)
    obtain ⟨hgrows, hne, htable⟩ := locateAddr_grows (x := x) (tableAddr 2).isLt h
      (fun _ _ => hzero) hlt haddr
    have hcost := hgrows.costAt_le (.entry 2 (entryIndex ((bn - singleBlocks) / entryPerBlock)))
    have hcostLeaf := hgrows.costAt_le (.leaf
      (entryIndex ((bn - singleBlocks) / entryPerBlock)) (entryIndex (bn - singleBlocks)))
    obtain ⟨second, s₂, hentry, hlt', hcount'⟩ := locateEntry_pays (t := .index 2)
      (entryIndex ((bn - singleBlocks) / entryPerBlock)) hgrows.owned hne htable
      (by change costAt _ _ (.entry _ _) ≤ _; omega)
    change _ ≤ _ + costAt _ _ (.entry _ _) at hcount'
    obtain ⟨hgrows', hne', htable'⟩ := locateEntry_grows (t := .index 2) hgrows.owned hne
      htable (fun _ => hgrows.freeZero hzero) hlt' hentry
    have hcostLeaf' := hgrows'.costAt_le (.leaf
      (entryIndex ((bn - singleBlocks) / entryPerBlock)) (entryIndex (bn - singleBlocks)))
    obtain ⟨n, s', hleaf, hn, hcount''⟩ := locateEntry_pays
      (t := .second (entryIndex ((bn - singleBlocks) / entryPerBlock)))
      (entryIndex (bn - singleBlocks)) hgrows'.owned hne' htable'
      (by change costAt _ _ (.leaf _ _) ≤ _; omega)
    change _ ≤ _ + costAt _ _ (.leaf _ _) at hcount''
    refine ⟨n, s', ?_, hn, by omega⟩
    rw [Exec.bind_of_ok haddr, Exec.bind_of_ok hentry]
    exact hleaf

/-- What is lacking in a range that a step has a part of. -/
theorem Touches.room (h : Touches live x i s s') {p : Place} {places : Finset Place}
    (hp : numberAt s'.disk (s'.icache i).diskInode p ≠ 0) (hpath : p.path ⊆ places)
    (hpaid : freeCount s.disk ≤ freeCount s'.disk +
      (lackingIn s.disk (s.icache i).diskInode p.path).card)
    (hroom : (lackingIn s.disk (s.icache i).diskInode places).card ≤ freeCount s.disk) :
    (lackingIn s'.disk (s'.icache i).diskInode places).card ≤ freeCount s'.disk := by
  have := h.lacking hp hpath
  omega

theorem Touches.locked (h : Touches live x i s s') :
    (s'.icache i).locked = (s.icache i).locked := by
  obtain ⟨addrs, size, hslot⟩ := h.slot
  rw [hslot, Function.update_self]

/-- The range `[offset, offset + len)` lies where blocks are reached, and the bitmap
has the blocks that it lacks, blank ones if there are tables among them. -/
structure Fits (disk : Disk) (d : InodeDisk) (offset len : Nat) : Prop where
  reached : offset + len ≤ reachedBlocks * blockSize
  blank : BlankFor disk d offset (offset + len)
  room : (lackingIn disk d (placesOf offset (offset + len))).card ≤ freeCount disk

theorem Fits.locate (hfits : Fits s.disk (s.icache i).diskInode offset len)
    (hlen : len ≠ 0) (hlocked : (s.icache i).locked) (h : SlotOwned live x i s) :
    ∃ n s', inodeLocateBlock i (offset / blockSize) s = .ok (n, s') ∧
      n.toNat < nBlock ∧ Grows live x i s s' ∧ n ≠ 0 ∧
      slotNumbers live x i s' (x, placeOf (offset / blockSize)) = n ∧
      freeCount s.disk ≤ freeCount s'.disk + (lackingIn s.disk (s.icache i).diskInode
        (placeOf (offset / blockSize)).path).card := by
  have hreached := hfits.reached
  change offset + len ≤ 778 * 1024 at hreached
  have hbn : offset / blockSize < reachedBlocks := by
    change offset / 1024 < 778
    omega
  have hlast : offset / blockSize * blockSize < offset + len := by
    change offset / 1024 * 1024 < offset + len
    omega
  have hneeds := hfits.blank _ le_rfl hlast
  have hpath := Finset.card_le_card (Finset.filter_subset_filter
    (fun p => numberAt s.disk (s.icache i).diskInode p = 0)
    (path_subset_placesOf le_rfl hlast))
  obtain ⟨n, s', hrun, hlt, hpaid⟩ :=
    inodeLocateBlock_pays hbn hlocked h hneeds (hpath.trans hfits.room)
  obtain ⟨hgrows, hne, hnumber⟩ := inodeLocateBlock_grows hbn h hneeds hlt hrun
  exact ⟨n, s', hrun, hlt, hgrows, hne, hnumber, hpaid⟩

theorem Fits.rest (hfits : Fits s.disk (s.icache i).diskInode offset len)
    (hlen : len ≠ 0) (htouch : Touches live x i s s')
    (hfound : fileBlock live x i s' (offset / blockSize) ≠ 0)
    (hpaid : freeCount s.disk ≤ freeCount s'.disk +
      (lackingIn s.disk (s.icache i).diskInode (placeOf (offset / blockSize)).path).card)
    {size : Nat} (hsize : size ≤ len) :
    Fits s'.disk (s'.icache i).diskInode (offset + size) (len - size) := by
  have hsum : offset + size + (len - size) = offset + len := by omega
  have hlast : offset / blockSize * blockSize < offset + len := by
    change offset / 1024 * 1024 < offset + len
    omega
  have hmono : offset / blockSize ≤ (offset + size) / blockSize :=
    Nat.div_le_div_right (Nat.le_add_right _ _)
  refine ⟨by rw [hsum]; exact hfits.reached, ?_, ?_⟩
  · rw [hsum]
    exact htouch.blankFor hmono hfits.blank
  · unfold fileBlock at hfound
    rw [slotNumbers_self] at hfound
    rw [hsum]
    have hroom := htouch.room hfound (path_subset_placesOf le_rfl hlast) hpaid hfits.room
    exact (Finset.card_le_card (Finset.filter_subset_filter _
      (placesOf_mono hmono))).trans hroom

theorem readLoop_returns (fuel : Nat) {beg remaining : Nat} (h : SlotOwned live x i s)
    (hlocked : (s.icache i).locked)
    (hfits : remaining ≠ 0 → Fits s.disk (s.icache i).diskInode beg remaining) :
    ∃ bytes s', readLoop i fuel beg remaining s = .ok (bytes, s') ∧
      Grows live x i s s' := by
  induction fuel generalizing beg remaining s with
  | zero => exact ⟨[], s, rfl, .refl h⟩
  | succ fuel ih =>
      unfold readLoop
      by_cases hzero : remaining = 0
      · rw [if_pos hzero]
        exact ⟨[], s, rfl, .refl h⟩
      · obtain ⟨n, s₁, hlocate, hlt, hgrows, hne, hnumber, hpaid⟩ :=
          (hfits hzero).locate hzero hlocked h
        have hfound : fileBlock live x i s₁ (beg / blockSize) ≠ 0 := by
          unfold fileBlock
          rwa [hnumber]
        have hlocked₁ : (s₁.icache i).locked := by
          rwa [hgrows.touches.locked]
        obtain ⟨bytes, s', hrest, hgrows'⟩ := ih hgrows.owned hlocked₁ fun _ =>
          (hfits hzero).rest hzero hgrows.touches hfound hpaid
            (Nat.min_le_right (blockSize - beg % blockSize) remaining)
        rw [if_neg hzero, Exec.bind_of_ok hlocate, Exec.bind_of_ok (bufRead_of_lt hlt s₁),
          Exec.bind_of_ok hrest]
        exact ⟨_, s', rfl, hgrows.trans hgrows'⟩

theorem writeLoop_returns {offset len count : Nat} (fuel : Nat) (src : Nat → UInt8)
    (modified : Bool) (h : SlotOwned live x i s) (hlocked : (s.icache i).locked)
    (hfits : count < len →
      Fits s.disk (s.icache i).diskInode (offset + count) (len - count)) :
    ∃ result s', writeLoop i offset len src fuel count modified s = .ok (result, s') ∧
      Touches live x i s s' := by
  induction fuel generalizing count modified s with
  | zero => exact ⟨modified, s, rfl, (Grows.refl h).touches⟩
  | succ fuel ih =>
      unfold writeLoop
      by_cases hdone : len ≤ count
      · rw [if_pos hdone]
        exact ⟨modified, s, rfl, (Grows.refl h).touches⟩
      · have hless : count < len := Nat.lt_of_not_le hdone
        have hleft : len - count ≠ 0 := by omega
        have hfits := hfits hless
        have hend : offset + count + (len - count) = offset + len := by omega
        obtain ⟨n, s₁, hlocate, hlt, hgrows, hne, hnumber, hpaid⟩ :=
          hfits.locate hleft hlocked h
        have hreached := hfits.reached
        have hblank := hfits.blank
        rw [hend] at hreached hblank
        rw [if_neg hdone, Exec.bind_of_ok hlocate, Exec.bind_of_ok (bufRead_of_lt hlt s₁),
          bufWrite_bind, readSlot_bind]
        generalize hsize : min (blockSize - (offset + count) % blockSize) (len - count) =
          writesize
        obtain ⟨stored, hstored⟩ : ∃ stored, stored = s₁.setBlock n ((s₁.disk n).patch
          ((offset + count) % blockSize) writesize fun k => src (count + k)) := ⟨_, rfl⟩
        rw [← hstored]
        have hbitmap : stored.disk sb.dataBitmapStart = s₁.disk sb.dataBitmapStart := by
          have hdata : InData n := by
            rw [← hnumber]
            exact hgrows.owned.inData _ (by
              change slotNumbers live x i s₁ _ ≠ 0
              rwa [hnumber])
          rw [hstored, FsState.setBlock_disk, Function.update_of_ne hdata.ne_bitmap.symm]
        -- the state of the next round, with the old size or the new one
        have hround : ∀ {next : FsState} {modified : Bool}, next.disk = stored.disk →
            (next = stored ∨ next = stored.setSlot i { stored.icache i with
              diskInode := { (stored.icache i).diskInode with
                size := UInt32.ofNat (offset + len) } }) →
            ∃ result s', writeLoop i offset len src fuel (count + writesize) modified
              next = .ok (result, s') ∧ Touches live x i s s' := by
          intro next modified hdisk hnext
          obtain ⟨htouch, _, hhere, _⟩ := writeRound_spec h hreached hless hblank hlocate
            hlt hsize.symm hstored hnext
          have hpos : 0 < writesize := by
            rw [← hsize]
            change 0 < min (1024 - (offset + count) % 1024) (len - count)
            omega
          have hfound := (hhere (offset + count) le_rfl (by omega)).1
          have hfree : freeCount next.disk = freeCount s₁.disk :=
            freeCount_congr (by rw [hdisk, hbitmap])
          have hrest := hfits.rest hleft htouch hfound (by rw [hfree]; exact hpaid)
            (hsize ▸ Nat.min_le_right _ _)
          have hlocked' : (next.icache i).locked := by
            rw [htouch.locked]
            exact hlocked
          have hfits' : Fits next.disk (next.icache i).diskInode
              (offset + (count + writesize)) (len - (count + writesize)) := by
            rw [← Nat.add_assoc, Nat.sub_add_eq]
            exact hrest
          obtain ⟨result, s', hloop, htouch'⟩ := ih _ htouch.owned hlocked' fun _ => hfits'
          exact ⟨result, s', hloop, htouch.trans htouch'⟩
        split
        · rw [writeSlot_bind]
          exact hround rfl (.inr rfl)
        · exact hround rfl (.inl rfl)

end

end UnoOS.Fs
