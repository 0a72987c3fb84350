import UnoOS.Fs.Locate
import UnoOS.Mkfs.Main

namespace UnoOS.Fs

open UnoOS.Lib

/-! Where `inode_locate_block` looks for a block: the coordinates it computes,
those of `mkfs`, and what it finds there the second time. -/

/-! The coordinates that the recursion of `mkfs` computes. -/

def digits : (level : Nat) → (bn : Nat) → List Nat
  | 0, _ => []
  | level + 1, bn =>
      bn / entryPerBlock ^ level :: digits level (bn % entryPerBlock ^ level)

def mkfsCoordinates (bn : Nat) : Coordinates :=
  if bn < nAddrs1 then ⟨bn, digits 0 bn⟩
  else
    let bn := bn - nAddrs1
    if bn < nAddrs2 * entryPerBlock then
      ⟨nAddrs1 + bn / entryPerBlock, digits 1 (bn % entryPerBlock)⟩
    else
      let bn := bn - nAddrs2 * entryPerBlock
      ⟨nAddrs1 + nAddrs2 + bn / (entryPerBlock * entryPerBlock),
        digits 2 (bn % (entryPerBlock * entryPerBlock))⟩

theorem mkfsCoordinates_direct {bn : Nat} (h : bn < nAddrs1) :
    mkfsCoordinates bn = ⟨bn, digits 0 bn⟩ := if_pos h

theorem mkfsCoordinates_single {bn : Nat} (hdirect : ¬bn < nAddrs1)
    (h : bn < singleBlocks) :
    mkfsCoordinates bn =
      ⟨10 + (bn - 10) / 256, digits 1 ((bn - 10) % 256)⟩ := by
  have hrange : bn - nAddrs1 < nAddrs2 * entryPerBlock := by
    change bn < 522 at h
    change bn - 10 < 512
    omega
  unfold mkfsCoordinates
  rw [if_neg hdirect, if_pos hrange]
  rfl

theorem mkfsCoordinates_double {bn : Nat} (h : ¬bn < singleBlocks) :
    mkfsCoordinates bn =
      ⟨12 + (bn - 10 - 512) / 65536, digits 2 ((bn - 10 - 512) % 65536)⟩ := by
  change ¬bn < 522 at h
  unfold mkfsCoordinates
  rw [if_neg (by change ¬bn < 10; omega),
    if_neg (by change ¬bn - 10 < 512; omega)]
  rfl

/-- The walk of `mkfs` from an entry through tables: the block and the entry
afterwards. -/
def mkfsLocateEntries : (entry : UInt32) → List Nat →
    Mkfs.MkfsM (UInt32 × UInt32)
  | entry, [] => do
      let entry ← Mkfs.fillEntry entry
      return (entry, entry)
  | entry, k :: ks => do
      let entry ← Mkfs.fillEntry entry
      let buf ← Mkfs.blockRead entry
      let (ret, _) ← mkfsLocateEntries (buf.word (4 * k)) ks
      return (ret, entry)

theorem mkfs_locateBlock_eq (level : Nat) (entry : UInt32) (bn : Nat) :
    Mkfs.locateBlock level entry bn =
      mkfsLocateEntries entry (digits level bn) := by
  induction level generalizing entry bn with
  | zero => rfl
  | succ level ih =>
      unfold Mkfs.locateBlock
      simp only [digits, mkfsLocateEntries, ih]

def setEntryOf (ip : InodeDisk) (j : Fin nAddrs) (result : UInt32 × UInt32) :
    UInt32 × InodeDisk :=
  (result.1, { ip with addrs := Function.update ip.addrs j result.2 })

theorem mkfs_locateAddr_eq (ip : InodeDisk) (j : Fin nAddrs) (bn level : Nat) :
    Mkfs.locateAddr ip j bn level =
      setEntryOf ip j <$> mkfsLocateEntries (ip.addrs j) (digits level bn) := by
  unfold Mkfs.locateAddr
  rw [mkfs_locateBlock_eq]
  rfl

theorem mkfs_inodeLocateBlock_eq (ip : InodeDisk) {bn : Nat}
    (hbn : bn < maxBlocks) (hlt : (mkfsCoordinates bn).addr < nAddrs) :
    Mkfs.inodeLocateBlock ip bn = setEntryOf ip ⟨_, hlt⟩ <$>
      mkfsLocateEntries (ip.addrs ⟨_, hlt⟩) (mkfsCoordinates bn).entries := by
  revert hlt
  rcases block_cases bn with hdirect | ⟨hdirect, hsingle⟩ | hdouble
  · rw [mkfsCoordinates_direct hdirect]
    intro hlt
    unfold Mkfs.inodeLocateBlock
    rw [dif_pos hdirect]
    exact mkfs_locateAddr_eq _ _ _ _
  · rw [mkfsCoordinates_single hdirect hsingle]
    intro hlt
    have hrange : bn - nAddrs1 < nAddrs2 * entryPerBlock := by
      change bn < 522 at hsingle
      change bn - 10 < 512
      omega
    unfold Mkfs.inodeLocateBlock
    rw [dif_neg hdirect, dif_pos hrange]
    exact mkfs_locateAddr_eq _ _ _ _
  · rw [mkfsCoordinates_double hdouble]
    intro hlt
    change bn < 66058 at hbn
    change ¬bn < 522 at hdouble
    unfold Mkfs.inodeLocateBlock
    rw [dif_neg (by change ¬bn < 10; omega),
      dif_neg (by change ¬bn - 10 < 512; omega),
      dif_pos (by change bn - 10 - 512 < 65536; omega)]
    exact mkfs_locateAddr_eq _ _ _ _

/-! Both sets of coordinates. -/

/-- The tables of the kernel end before this block: the ones behind it would
hang below `addrs[268]` and later entries. -/
theorem coordinates_addr_lt_iff (bn : Nat) :
    (coordinates bn).addr < nAddrs ↔ bn < reachedBlocks := by
  change _ < 13 ↔ bn < 778
  rcases block_cases bn with hdirect | ⟨hdirect, hsingle⟩ | hdouble
  · rw [coordinates_direct hdirect]
    change bn < 10 at hdirect
    change bn < 13 ↔ _
    omega
  · rw [coordinates_single hdirect hsingle]
    change ¬bn < 10 at hdirect
    change bn < 522 at hsingle
    change (bn - 10) / 256 + 10 < 13 ↔ _
    omega
  · rw [coordinates_double hdouble]
    change ¬bn < 522 at hdouble
    change (bn - 522) / 256 * 256 + 12 < 13 ↔ _
    omega

theorem coordinates_entries_lt {bn : Nat} (hbn : bn < maxBlocks) :
    ∀ k ∈ (coordinates bn).entries, k < entryPerBlock := by
  change bn < 66058 at hbn
  intro k hk
  change k < 256
  rcases block_cases bn with hdirect | ⟨hdirect, hsingle⟩ | hdouble
  · rw [coordinates_direct hdirect] at hk
    cases hk
  · rw [coordinates_single hdirect hsingle, List.mem_singleton] at hk
    omega
  · rw [coordinates_double hdouble] at hk
    simp only [List.mem_cons, List.not_mem_nil, or_false] at hk
    change ¬bn < 522 at hdouble
    omega

theorem coordinates_eq_mkfs {bn : Nat} (hbn : bn < reachedBlocks) :
    coordinates bn = mkfsCoordinates bn := by
  change bn < 778 at hbn
  rcases block_cases bn with hdirect | ⟨hdirect, hsingle⟩ | hdouble
  · rw [coordinates_direct hdirect, mkfsCoordinates_direct hdirect]
    rfl
  · rw [coordinates_single hdirect hsingle,
      mkfsCoordinates_single hdirect hsingle, Nat.add_comm]
    change _ = Coordinates.mk _ [(bn - 10) % 256 / 1]
    rw [Nat.div_one]
  · change ¬bn < 522 at hdouble
    rw [coordinates_double hdouble, mkfsCoordinates_double hdouble]
    change _ = Coordinates.mk (12 + (bn - 10 - 512) / 65536)
      [(bn - 10 - 512) % 65536 / 256, (bn - 10 - 512) % 65536 % 256 / 1]
    have haddr : (bn - 522) / 256 * 256 + 12 =
        12 + (bn - 10 - 512) / 65536 := by omega
    have hfirst : (bn - 522) / 256 = (bn - 10 - 512) % 65536 / 256 := by omega
    have hsecond : (bn - 522) % 256 =
        (bn - 10 - 512) % 65536 % 256 / 1 := by omega
    rw [haddr, hfirst, hsecond]

theorem coordinates_inj {bn bn' : Nat} (h : coordinates bn = coordinates bn') :
    bn = bn' := by
  rcases block_cases bn with hb | ⟨hb, hs⟩ | hb <;>
    rcases block_cases bn' with hb' | ⟨hb', hs'⟩ | hb'
  · rw [coordinates_direct hb, coordinates_direct hb'] at h
    exact congrArg Coordinates.addr h
  · rw [coordinates_direct hb, coordinates_single hb' hs'] at h
    cases congrArg Coordinates.entries h
  · rw [coordinates_direct hb, coordinates_double hb'] at h
    cases congrArg Coordinates.entries h
  · rw [coordinates_single hb hs, coordinates_direct hb'] at h
    cases congrArg Coordinates.entries h
  · rw [coordinates_single hb hs, coordinates_single hb' hs'] at h
    simp only [Coordinates.mk.injEq, List.cons.injEq, and_true] at h
    change ¬bn < 10 at hb
    change ¬bn' < 10 at hb'
    omega
  · rw [coordinates_single hb hs, coordinates_double hb'] at h
    simp at h
  · rw [coordinates_double hb, coordinates_direct hb'] at h
    cases congrArg Coordinates.entries h
  · rw [coordinates_double hb, coordinates_single hb' hs'] at h
    simp at h
  · rw [coordinates_double hb, coordinates_double hb'] at h
    simp only [Coordinates.mk.injEq, List.cons.injEq, and_true] at h
    change ¬bn < 522 at hb
    change ¬bn' < 522 at hb'
    omega

/-! What a call leaves for the next one. -/

section

variable {i : Slot} {s s' t : FsState} {check : UInt32 → Prop}
  [DecidablePred check] {table n : UInt32} {k : Nat}

theorem Obtained.ne_zero {middle : FsState} (h : Obtained s n middle) :
    n ≠ 0 := by
  cases h with
  | fresh h => exact h.inData.ne_zero
  | failed _ hn =>
      rw [hn]
      decide

theorem Obtained.icache {middle : FsState} (h : Obtained s n middle) :
    middle.icache = s.icache := by
  cases h <;> rfl

theorem Obtained.disk_of_ne {middle : FsState} (h : Obtained s n middle)
    {b : UInt32} (hb : b ≠ sb.dataBitmapStart) : middle.disk b = s.disk b := by
  cases h with
  | fresh _ => exact markBlock_of_ne hb
  | failed _ _ => rfl

theorem locateAddr_again {index : Nat}
    (hrun : locateAddr i index check s = .ok (n, s'))
    (haddrs : (t.icache i).diskInode.addrs = (s'.icache i).diskInode.addrs) :
    locateAddr i index check t = .ok (n, t) := by
  obtain ⟨hindex, hfound | ⟨_, _, middle, hobtained, rfl⟩⟩ :=
    locateAddr_eq_ok hrun
  · obtain ⟨hne, rfl, rfl⟩ := hfound
    rw [← haddrs] at hne ⊢
    exact locateAddr_of_ne_zero (j := ⟨index, hindex⟩) hne
  · have hvalue : (t.icache i).diskInode.addrs ⟨index, hindex⟩ = n := by
      rw [haddrs]
      simp [FsState.setAddr]
    have hne : (t.icache i).diskInode.addrs ⟨index, hindex⟩ ≠ 0 := by
      rw [hvalue]
      exact hobtained.ne_zero
    have hagain : locateAddr i index check t = .ok (_, t) :=
      locateAddr_of_ne_zero hne
    rwa [hvalue] at hagain

theorem locateEntry_icache (hrun : locateEntry table k s = .ok (n, s')) :
    s'.icache = s.icache := by
  obtain ⟨_, ⟨_, _, rfl⟩ | ⟨_, _, _, middle, hobtained, rfl⟩⟩ :=
    locateEntry_eq_ok hrun
  · rfl
  · exact hobtained.icache

theorem word_setEntry_self (hk : k < entryPerBlock) :
    ((s.setEntry table k n).disk table).word (4 * k) = n := by
  change k < 256 at hk
  simp only [FsState.setEntry, FsState.setBlock_disk, Function.update_self]
  exact Bytes.word_setWord_same _ _ (by change 4 * k + 4 ≤ 1024; omega)

theorem word_setEntry_of_ne {table' : UInt32} {k' : Nat}
    (h : table' ≠ table ∨ k' ≠ k) :
    ((s.setEntry table k n).disk table').word (4 * k') =
      (s.disk table').word (4 * k') := by
  simp only [FsState.setEntry, FsState.setBlock_disk]
  by_cases htable : table' = table
  · have hk : k' ≠ k := h.resolve_left fun hne => hne htable
    subst htable
    rw [Function.update_self]
    exact Bytes.word_patch_of_disjoint _ _ (by omega)
  · rw [Function.update_of_ne htable]

theorem word_locateEntry (hk : k < entryPerBlock)
    (hrun : locateEntry table k s = .ok (n, s')) :
    (s'.disk table).word (4 * k) = n ∧ n ≠ 0 := by
  obtain ⟨_, ⟨hne, rfl, rfl⟩ | ⟨_, hne, _, middle, _, rfl⟩⟩ :=
    locateEntry_eq_ok hrun
  · exact ⟨rfl, hne⟩
  · exact ⟨word_setEntry_self hk, hne⟩

theorem locateEntry_keeps {table' : UInt32} {k' : Nat}
    (hbitmap : table' ≠ sb.dataBitmapStart)
    (hne : (s.disk table').word (4 * k') ≠ 0)
    (hrun : locateEntry table k s = .ok (n, s')) :
    (s'.disk table').word (4 * k') = (s.disk table').word (4 * k') := by
  obtain ⟨_, ⟨_, _, rfl⟩ | ⟨hzero, _, _, middle, hobtained, rfl⟩⟩ :=
    locateEntry_eq_ok hrun
  · rfl
  · rw [word_setEntry_of_ne, hobtained.disk_of_ne hbitmap]
    by_contra hcase
    obtain ⟨rfl, rfl⟩ : table' = table ∧ k' = k := by tauto
    exact hne hzero

theorem locateEntry_lt_nBlock (hrun : locateEntry table k s = .ok (n, s')) :
    table.toNat < nBlock := (locateEntry_eq_ok hrun).1

end

/-- The numbers in the index tree of the inode in a slot are those of data
blocks that are marked in the bitmap. -/
structure SoundTree (s : FsState) (i : Slot) : Prop where
  inData : ∀ p, numberAt s.disk (s.icache i).diskInode p ≠ 0 →
    InData (numberAt s.disk (s.icache i).diskInode p)
  marked : ∀ p, numberAt s.disk (s.icache i).diskInode p ≠ 0 →
    dataBit s.disk (numberAt s.disk (s.icache i).diskInode p) = true

section

variable {i : Slot} {s s' : FsState} {n : UInt32} {bn : Nat}

theorem locateAt_again (hbn : bn < maxBlocks)
    (htops : ∀ j, (s.icache i).diskInode.addrs j ≠ sb.dataBitmapStart)
    {check : UInt32 → Prop} [DecidablePred check]
    (hrun : locateAt i check (coordinates bn) s = .ok (n, s')) :
    locateAt i check (coordinates bn) s' = .ok (n, s') := by
  have hentries := coordinates_entries_lt hbn
  unfold locateAt at hrun ⊢
  obtain ⟨first, s₁, haddr, hrun⟩ := Exec.bind_eq_ok.mp hrun
  rcases block_cases bn with hdirect | ⟨hdirect, hsingle⟩ | hdouble
  · rw [coordinates_direct hdirect] at haddr hrun ⊢
    cases hrun
    rw [Exec.bind_of_ok (locateAddr_again haddr rfl)]
    rfl
  · rw [coordinates_single hdirect hsingle] at haddr hrun hentries ⊢
    simp only [locateEntries, bind_pure] at hrun ⊢
    have hicache := locateEntry_icache hrun
    obtain ⟨hword, hne⟩ := word_locateEntry (hentries _ (by simp)) hrun
    rw [Exec.bind_of_ok (locateAddr_again haddr (by rw [hicache])),
      locateEntry_of_ne_zero (locateEntry_lt_nBlock hrun) (by rwa [hword]),
      hword]
  · rw [coordinates_double hdouble] at haddr hrun hentries ⊢
    simp only [locateEntries, bind_pure] at hrun ⊢
    obtain ⟨second, s₂, hentry, hleaf⟩ := Exec.bind_eq_ok.mp hrun
    have hicache : s'.icache = s₁.icache :=
      (locateEntry_icache hleaf).trans (locateEntry_icache hentry)
    have hlt := locateEntry_lt_nBlock hentry
    obtain ⟨hword, hne⟩ := word_locateEntry (hentries _ (by simp)) hentry
    obtain ⟨hword', hne'⟩ := word_locateEntry (hentries _ (by simp)) hleaf
    -- the table that hangs in `addrs[]` is not the bitmap block
    have hbitmap : first ≠ sb.dataBitmapStart := by
      obtain ⟨hindex, ⟨_, rfl, _⟩ | ⟨_, _, middle, hobtained, _⟩⟩ :=
        locateAddr_eq_ok haddr
      · exact htops _
      · cases hobtained with
        | fresh h => exact h.inData.ne_bitmap
        | failed _ hn =>
            rw [hn]
            decide
    have hkept := locateEntry_keeps hbitmap (by rwa [hword]) hleaf
    rw [hword] at hkept
    rw [Exec.bind_of_ok (locateAddr_again haddr (by rw [hicache]))]
    rw [Exec.bind_of_ok (locateEntry_of_ne_zero hlt (by rwa [hkept])), hkept,
      locateEntry_of_ne_zero (locateEntry_lt_nBlock hleaf) (by rwa [hword']),
      hword']

theorem locateAt_locked {check : UInt32 → Prop} [DecidablePred check]
    (hrun : locateAt i check (coordinates bn) s = .ok (n, s')) :
    (s'.icache i).locked = (s.icache i).locked := by
  unfold locateAt at hrun
  obtain ⟨first, s₁, haddr, hrun⟩ := Exec.bind_eq_ok.mp hrun
  have hentries : ∀ (ks : List Nat) {number : UInt32} {t t' : FsState},
      locateEntries number ks t = .ok (n, t') → t'.icache = t.icache := by
    intro ks
    induction ks with
    | nil =>
        intro number t t' h
        cases h
        rfl
    | cons k ks ih =>
        intro number t t' h
        obtain ⟨next, middle, hentry, hrest⟩ := Exec.bind_eq_ok.mp h
        rw [ih hrest, locateEntry_icache hentry]
  rw [hentries _ hrun]
  obtain ⟨hindex, ⟨_, _, rfl⟩ | ⟨_, _, middle, hobtained, rfl⟩⟩ :=
    locateAddr_eq_ok haddr
  · rfl
  · simp [FsState.setAddr, hobtained.icache]

end

/-! With enough free blocks the call returns. -/

def freeCount (disk : Disk) : Nat :=
  ((Finset.range 8192).filter fun j =>
    (disk sb.dataBitmapStart).bit j = false).card

theorem not_full_of_freeCount {disk : Disk} (h : 0 < freeCount disk) :
    ¬DataFull disk := by
  intro hfull
  obtain ⟨j, hj⟩ := Finset.card_pos.mp h
  rw [Finset.mem_filter, Finset.mem_range] at hj
  rw [hfull j hj.1] at hj
  cases hj.2

theorem freeCount_mark {disk : Disk} {fresh : UInt32}
    (h : Unmarked disk fresh) :
    freeCount disk = freeCount (markBlock disk fresh) + 1 := by
  obtain ⟨hlow, hhigh⟩ := h.inData
  have hclear : (disk sb.dataBitmapStart).bit (fresh.toNat - 131) = false :=
    h.clear
  have hsplit : (Finset.range 8192).filter (fun j =>
      (disk sb.dataBitmapStart).bit j = false) =
      insert (fresh.toNat - 131) ((Finset.range 8192).filter fun j =>
        (markBlock disk fresh sb.dataBitmapStart).bit j = false) := by
    ext j
    simp only [Finset.mem_filter, Finset.mem_range, Finset.mem_insert,
      markBlock, Function.update_self]
    rw [Bytes.bit_setBit _ (by unfold blockSize; omega)]
    by_cases hj : j = fresh.toNat - 131
    · simp only [hj, hclear, and_true, true_or, iff_true]
      omega
    · have hne : ¬fresh.toNat - 131 = j := fun heq => hj heq.symm
      simp [hj, hne]
  refine (congrArg Finset.card hsplit).trans (Finset.card_insert_of_notMem ?_)
  simp only [Finset.mem_filter, markBlock, Function.update_self, not_and]
  intro _
  rw [Bytes.bit_setBit _ (by unfold blockSize; omega)]
  simp

structure Sited (disk : Disk) (n : UInt32) : Prop where
  inData : InData n
  marked : dataBit disk n = true

theorem Sited.mark {disk : Disk} {fresh : UInt32} (h : Unmarked disk fresh) :
    Sited (markBlock disk fresh) fresh := by
  refine ⟨h.inData, ?_⟩
  rw [dataBit_markBlock h.inData h.inData]
  simp

theorem FreeZero.mark {disk : Disk} {fresh : UInt32} (h : InData fresh)
    (hzero : FreeZero disk) : FreeZero (markBlock disk fresh) := by
  intro n hn hclear
  rw [dataBit_markBlock h hn] at hclear
  rw [markBlock_of_ne hn.ne_bitmap]
  exact hzero n hn (by simp_all)

section

variable {i : Slot} {s s' : FsState} {check : UInt32 → Prop}
  [DecidablePred check] {table : UInt32} {k : Nat}

variable (check) in
theorem locateAddr_returns {j : Fin nAddrs} (hcheck : ∀ n, InData n → check n)
    (haddr : (s.icache i).diskInode.addrs j ≠ 0 →
      Sited s.disk ((s.icache i).diskInode.addrs j))
    (hfree : 0 < freeCount s.disk) :
    ∃ n s', locateAddr i j.val check s = .ok (n, s') ∧ Sited s'.disk n ∧
      freeCount s.disk ≤ freeCount s'.disk + 1 ∧
      (FreeZero s.disk → FreeZero s'.disk) ∧
      ((n = (s.icache i).diskInode.addrs j ∧ s' = s) ∨
        Unmarked s.disk n ∧ s'.disk n = s.disk n) := by
  by_cases hzero : (s.icache i).diskInode.addrs j = 0
  · obtain ⟨fresh, hfresh, halloc⟩ :=
      bitmapAllocBlock_of_not_full (not_full_of_freeCount hfree)
    refine ⟨fresh, _, locateAddr_of_fresh hzero halloc
      (hcheck _ hfresh.inData), Sited.mark hfresh, ?_, ?_, .inr ⟨hfresh, ?_⟩⟩
    · exact (freeCount_mark hfresh).le
    · exact FreeZero.mark hfresh.inData
    · exact markBlock_of_ne hfresh.inData.ne_bitmap
  · exact ⟨_, s, locateAddr_of_ne_zero hzero, haddr hzero,
      Nat.le_succ _, id, .inl ⟨rfl, rfl⟩⟩

theorem locateEntry_returns (htable : Sited s.disk table)
    (hword : (s.disk table).word (4 * k) ≠ 0 →
      Sited s.disk ((s.disk table).word (4 * k)))
    (hfree : 0 < freeCount s.disk) :
    ∃ n s', locateEntry table k s = .ok (n, s') ∧ Sited s'.disk n ∧
      freeCount s.disk ≤ freeCount s'.disk + 1 ∧
      ((n = (s.disk table).word (4 * k) ∧ s' = s) ∨
        Unmarked s.disk n ∧ s'.disk n = s.disk n) := by
  have hlt := htable.inData.lt_nBlock
  by_cases hzero : (s.disk table).word (4 * k) = 0
  · obtain ⟨fresh, hfresh, halloc⟩ :=
      bitmapAllocBlock_of_not_full (not_full_of_freeCount hfree)
    have hne : table ≠ fresh := by
      rintro rfl
      have hclear := hfresh.clear
      rw [htable.marked] at hclear
      cases hclear
    have hentry := locateEntry_of_fresh hlt hzero hfresh.inData halloc
    rw [if_neg (not_or.mpr ⟨htable.inData.ne_bitmap, hne⟩)] at hentry
    have hbitmap : ((s.mark fresh).setEntry table k fresh).disk
        sb.dataBitmapStart = markBlock s.disk fresh sb.dataBitmapStart :=
      Function.update_of_ne htable.inData.ne_bitmap.symm _ _
    refine ⟨fresh, _, hentry, ⟨hfresh.inData, ?_⟩, ?_, .inr ⟨hfresh, ?_⟩⟩
    · rw [dataBit_congr hbitmap]
      exact (Sited.mark hfresh).marked
    · rw [freeCount_mark hfresh]
      unfold freeCount
      rw [hbitmap]
    · exact (Function.update_of_ne hne.symm _ _).trans
        (markBlock_of_ne hfresh.inData.ne_bitmap)
  · exact ⟨_, s, locateEntry_of_ne_zero hlt hzero, hword hzero, Nat.le_succ _,
      .inl ⟨rfl, rfl⟩⟩

end

theorem addrCheck_of_inData {bn : Nat} {n : UInt32} (h : InData n) :
    AddrCheck bn n := by
  unfold AddrCheck
  split
  · exact h.ne_failed
  · exact h.ne_zero

theorem SoundTree.sited {s : FsState} {i : Slot} (h : SoundTree s i) {p : Place}
    (hne : numberAt s.disk (s.icache i).diskInode p ≠ 0) :
    Sited s.disk (numberAt s.disk (s.icache i).diskInode p) :=
  ⟨h.inData p hne, h.marked p hne⟩

section

variable {i : Slot} {s : FsState} {bn : Nat}

/-- The entries of an index table, or of a fresh block in its place, are in
use or zero. -/
theorem SoundTree.word_sited (h : SoundTree s i) (j : Fin 3)
    (k : Fin entryPerBlock) {table : UInt32} {s₁ : FsState}
    (htable : table ≠ 0)
    (hcase : (table = (s.icache i).diskInode.addrs (tableAddr j) ∧ s₁ = s) ∨
      s₁.disk table = 0) (hne : (s₁.disk table).word (4 * k.val) ≠ 0) :
    Sited s₁.disk ((s₁.disk table).word (4 * k.val)) := by
  rcases hcase with ⟨rfl, rfl⟩ | hzero
  · have hentry : numberAt s₁.disk (s₁.icache i).diskInode (.entry j k) =
        (s₁.disk ((s₁.icache i).diskInode.addrs (tableAddr j))).word
          (4 * k.val) := if_neg htable
    rw [← hentry] at hne ⊢
    exact h.sited hne
  · rw [hzero] at hne
    exact absurd (Bytes.word_zero _) hne

theorem SoundTree.leaf_sited (h : SoundTree s i) (k l : Fin entryPerBlock)
    {second : UInt32}
    (hfirst : (s.icache i).diskInode.addrs (tableAddr 2) ≠ 0)
    (hword : (s.disk ((s.icache i).diskInode.addrs (tableAddr 2))).word
      (4 * k.val) = second) (hsecond : second ≠ 0)
    (hne : (s.disk second).word (4 * l.val) ≠ 0) :
    Sited s.disk ((s.disk second).word (4 * l.val)) := by
  have hentry : numberAt s.disk (s.icache i).diskInode (.leaf k l) =
      (s.disk second).word (4 * l.val) := by
    have hthrough : through s.disk
        ((s.icache i).diskInode.addrs (tableAddr 2)) k = second := by
      unfold through
      rw [if_neg hfirst, hword]
    change through s.disk (through s.disk _ k) l = _
    rw [hthrough]
    exact if_neg hsecond
  rw [← hentry] at hne ⊢
  exact h.sited hne

theorem locateAt_returns (hbn : bn < reachedBlocks) (htree : SoundTree s i)
    (hzero : FreeZero s.disk) (hfree : 3 ≤ freeCount s.disk) :
    ∃ n s', locateAt i (AddrCheck bn) (coordinates bn) s = .ok (n, s') ∧
      InData n := by
  have haddr : (coordinates bn).addr < nAddrs :=
    (coordinates_addr_lt_iff bn).mpr hbn
  obtain ⟨first, s₁, hfirst, hsited, hcount, hzero₁, hcase⟩ :=
    locateAddr_returns (AddrCheck bn) (j := ⟨_, haddr⟩)
      (fun _ h => addrCheck_of_inData h)
      (fun hne => htree.sited (p := .top _) hne) (by omega)
  have hne := hsited.inData.ne_zero
  have hblank : (first = (s.icache i).diskInode.addrs ⟨_, haddr⟩ ∧ s₁ = s) ∨
      s₁.disk first = 0 := by
    refine hcase.imp_right ?_
    rintro ⟨hfresh, hsame⟩
    rw [hsame]
    exact hzero first hfresh.inData hfresh.clear
  change bn < 778 at hbn
  unfold locateAt
  rw [Exec.bind_of_ok hfirst]
  rcases block_cases bn with hdirect | ⟨hdirect, hsingle⟩ | hdouble
  · rw [coordinates_direct hdirect]
    exact ⟨first, s₁, rfl, hsited.inData⟩
  · have hentries : (coordinates bn).entries = [(entryIndex (bn - 10)).val] := by
      rw [coordinates_single hdirect hsingle]
      rfl
    have hindex : (⟨_, haddr⟩ : Fin nAddrs) =
        tableAddr ⟨(bn - 10) / 256, single_index_lt hsingle⟩ := by
      apply Fin.ext
      change (coordinates bn).addr = 10 + (bn - 10) / 256
      rw [coordinates_single hdirect hsingle]
      exact Nat.add_comm _ _
    rw [hindex] at hblank
    obtain ⟨n, s', hentry, hsited', _⟩ := locateEntry_returns hsited
      (htree.word_sited _ (entryIndex (bn - 10)) hne hblank) (by omega)
    rw [hentries]
    simp only [locateEntries, bind_pure]
    exact ⟨n, s', hentry, hsited'.inData⟩
  · change ¬bn < 522 at hdouble
    have hentries : (coordinates bn).entries =
        [(entryIndex ((bn - 522) / 256)).val,
          (entryIndex (bn - 522)).val] := by
      have hzero : (bn - 522) / 256 % 256 = (bn - 522) / 256 := by omega
      rw [coordinates_double hdouble]
      change _ = [(bn - 522) / 256 % 256, _]
      rw [hzero]
      rfl
    have hindex : (⟨_, haddr⟩ : Fin nAddrs) = tableAddr 2 := by
      apply Fin.ext
      change (coordinates bn).addr = 12
      rw [coordinates_double hdouble]
      change (bn - 522) / 256 * 256 + 12 = 12
      omega
    rw [hindex] at hblank
    obtain ⟨second, s₂, hentry, hsited', hcount', hcase'⟩ :=
      locateEntry_returns hsited
        (htree.word_sited _ (entryIndex ((bn - 522) / 256)) hne hblank)
        (by omega)
    have hleaf : (s₂.disk second).word (4 * (entryIndex (bn - 522)).val) ≠ 0 →
        Sited s₂.disk
          ((s₂.disk second).word (4 * (entryIndex (bn - 522)).val)) := by
      intro hword
      rcases hcase' with ⟨rfl, rfl⟩ | ⟨hfresh, hsame⟩
      · -- the second table was there, so the first one was, too
        rcases hblank with ⟨rfl, rfl⟩ | hempty
        · exact htree.leaf_sited _ _ hne rfl hsited'.inData.ne_zero hword
        · rw [hempty, Bytes.word_zero] at hsited'
          exact absurd rfl hsited'.inData.ne_zero
      · rw [hsame, hzero₁ hzero second hfresh.inData hfresh.clear,
          Bytes.word_zero] at hword
        exact absurd rfl hword
    obtain ⟨n, s', hlast, hsited'', _⟩ := locateEntry_returns hsited' hleaf
      (by omega)
    rw [hentries]
    simp only [locateEntries, bind_pure]
    rw [Exec.bind_of_ok hentry]
    exact ⟨n, s', hlast, hsited''.inData⟩

end

/-! The law of the block index. -/

/-- The kernel and `mkfs` walk to the same coordinates for block `bn`, inside
`addrs[]` and the tables, which no other block has. The kernel finds again what
it found, and finds a block while there are free ones. -/
structure IndexLaw (bn : Nat) : Prop where
  walk : ∀ (s : FsState) (i : Slot), (s.icache i).locked →
    inodeLocateBlock i bn s = locateAt i (AddrCheck bn) (coordinates bn) s
  mkfs_walk : ∀ (ip : InodeDisk) (h : (mkfsCoordinates bn).addr < nAddrs),
    Mkfs.inodeLocateBlock ip bn = setEntryOf ip ⟨_, h⟩ <$>
      mkfsLocateEntries (ip.addrs ⟨_, h⟩) (mkfsCoordinates bn).entries
  addr_lt : (coordinates bn).addr < nAddrs
  entries_lt : ∀ k ∈ (coordinates bn).entries, k < entryPerBlock
  mkfs : coordinates bn = mkfsCoordinates bn
  separate : ∀ bn', bn' < maxBlocks → bn' ≠ bn → coordinates bn' ≠ coordinates bn
  again : ∀ (s : FsState) (i : Slot), (s.icache i).locked → SoundTree s i →
    ∀ n s', inodeLocateBlock i bn s = .ok (n, s') →
      inodeLocateBlock i bn s' = .ok (n, s')
  returns : ∀ (s : FsState) (i : Slot), (s.icache i).locked → SoundTree s i →
    FreeZero s.disk → 3 ≤ freeCount s.disk →
    ∃ n s', inodeLocateBlock i bn s = .ok (n, s') ∧ InData n

theorem inodeLocateBlock_again {i : Slot} {s s' : FsState} {n : UInt32} {bn : Nat}
    (hbn : bn < maxBlocks) (hlocked : (s.icache i).locked)
    (htree : SoundTree s i) (hrun : inodeLocateBlock i bn s = .ok (n, s')) :
    inodeLocateBlock i bn s' = .ok (n, s') := by
  rw [inodeLocateBlock_eq hlocked hbn] at hrun
  have hlocked' : (s'.icache i).locked := by
    rwa [locateAt_locked hrun]
  rw [inodeLocateBlock_eq hlocked' hbn]
  refine locateAt_again hbn ?_ hrun
  intro j hj
  have hne : numberAt s.disk (s.icache i).diskInode (.top j) ≠ 0 := by
    change (s.icache i).diskInode.addrs j ≠ 0
    rw [hj]
    decide
  exact (htree.inData _ hne).ne_bitmap hj

/-- The last range takes `offset / n * n` for `offset / (n * n)`: from its second
table on, the entry of `addrs[]` lies behind the array. -/
theorem index_law_iff {bn : Nat} (hbn : bn < maxBlocks) :
    IndexLaw bn ↔ bn < reachedBlocks := by
  constructor
  · intro h
    exact (coordinates_addr_lt_iff bn).mp h.addr_lt
  · intro h
    refine ⟨fun _ _ hlocked => inodeLocateBlock_eq hlocked hbn,
      fun ip => mkfs_inodeLocateBlock_eq ip hbn,
      (coordinates_addr_lt_iff bn).mpr h, coordinates_entries_lt hbn,
      coordinates_eq_mkfs h, fun bn' _ hne heq => hne (coordinates_inj heq), ?_, ?_⟩
    · intro s i hlocked htree n s' hrun
      exact inodeLocateBlock_again hbn hlocked htree hrun
    · intro s i hlocked htree hzero hfree
      rw [inodeLocateBlock_eq hlocked hbn]
      exact locateAt_returns h htree hzero hfree

theorem index_law_last : 777 < maxBlocks ∧ (IndexLaw 777 ↔ 777 < reachedBlocks) :=
  ⟨by decide, index_law_iff (by decide)⟩

/-- The first block behind the slip. -/
theorem index_law_fails : ¬IndexLaw 778 := by
  intro h
  have haddr := h.addr_lt
  revert haddr
  decide

end UnoOS.Fs
