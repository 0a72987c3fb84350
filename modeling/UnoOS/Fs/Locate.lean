import UnoOS.Fs.Ownership

namespace UnoOS.Fs

open UnoOS.Lib

/-! `inode_locate_block` as a walk: an entry of `addrs[]`, then one entry of a
table after the other, and all the ways a step of it can end. -/

/-- The index into `addrs[]` and the indices into the tables below it. -/
structure Coordinates where
  addr : Nat
  entries : List Nat
  deriving DecidableEq

abbrev maxBlocks : Nat :=
  nAddrs1 + nAddrs2 * entryPerBlock + nAddrs3 * entryPerBlock * entryPerBlock

/-- `index1`, `index2` and `index3` of `inode_locate_block`. -/
def coordinates (bn : Nat) : Coordinates :=
  if bn < nAddrs1 then ⟨bn, []⟩
  else if bn < nAddrs1 + nAddrs2 * entryPerBlock then
    ⟨(bn - nAddrs1) / entryPerBlock + nAddrs1, [(bn - nAddrs1) % entryPerBlock]⟩
  else
    let offset := bn - nAddrs1 - entryPerBlock * nAddrs2
    ⟨offset / entryPerBlock * entryPerBlock + nAddrs1 + nAddrs2,
      [offset / entryPerBlock, offset % entryPerBlock]⟩

theorem coordinates_direct {bn : Nat} (h : bn < nAddrs1) :
    coordinates bn = ⟨bn, []⟩ := if_pos h

theorem coordinates_single {bn : Nat} (hdirect : ¬bn < nAddrs1)
    (h : bn < singleBlocks) :
    coordinates bn = ⟨(bn - 10) / 256 + 10, [(bn - 10) % 256]⟩ := by
  unfold coordinates
  rw [if_neg hdirect, if_pos h]
  rfl

theorem coordinates_double {bn : Nat} (h : ¬bn < singleBlocks) :
    coordinates bn =
      ⟨(bn - 522) / 256 * 256 + 12, [(bn - 522) / 256, (bn - 522) % 256]⟩ := by
  have hdirect : ¬bn < nAddrs1 := by
    change ¬bn < 522 at h
    change ¬bn < 10
    omega
  have hoffset : bn - nAddrs1 - entryPerBlock * nAddrs2 = bn - 522 := Nat.sub_sub ..
  unfold coordinates
  rw [if_neg hdirect, if_neg h, hoffset]
  change Coordinates.mk ((bn - 522) / 256 * 256 + 10 + 2)
    [(bn - 522) / 256, (bn - 522) % 256] = _
  rw [Nat.add_assoc]

def AddrCheck (bn : Nat) (fresh : UInt32) : Prop :=
  if bn < nAddrs1 then fresh ≠ 0xFFFFFFFF else fresh ≠ 0

instance (bn : Nat) : DecidablePred (AddrCheck bn) := fun _ =>
  inferInstanceAs (Decidable (ite _ _ _))

def locateEntries : UInt32 → List Nat → FsM UInt32
  | number, [] => pure number
  | number, k :: ks => do
      let next ← locateEntry number k
      locateEntries next ks

def locateAt (i : Slot) (check : UInt32 → Prop) [DecidablePred check]
    (c : Coordinates) : FsM UInt32 := do
  let number ← locateAddr i c.addr check
  locateEntries number c.entries

section

variable {i : Slot} {s s' : FsState} {bn : Nat}

theorem locateAddr_congr {index : Nat} {check check' : UInt32 → Prop}
    [DecidablePred check] [DecidablePred check'] (h : ∀ n, check n ↔ check' n) :
    locateAddr i index check = locateAddr i index check' := by
  have heq : check = check' := funext fun n => propext (h n)
  subst heq
  congr

/-- The function of the source is the walk to the coordinates it computes. -/
theorem inodeLocateBlock_eq (hlocked : (s.icache i).locked)
    (hbn : bn < maxBlocks) :
    inodeLocateBlock i bn s =
      locateAt i (AddrCheck bn) (coordinates bn) s := by
  unfold inodeLocateBlock
  rw [readSlot_bind]
  unfold assertThat
  rw [Exec.require_of_true hlocked, pure_bind]
  unfold locateAt coordinates
  by_cases hdirect : bn < nAddrs1
  · rw [if_pos hdirect, if_pos hdirect]
    have hcheck : ∀ n, AddrCheck bn n ↔ n ≠ 0xFFFFFFFF := by
      intro n
      rw [AddrCheck, if_pos hdirect]
    rw [locateAddr_congr hcheck]
    exact (congrFun (bind_pure _) s).symm
  · have hcheck : ∀ n, AddrCheck bn n ↔ n ≠ 0 := by
      intro n
      rw [AddrCheck, if_neg hdirect]
    rw [if_neg hdirect, if_neg hdirect, locateAddr_congr hcheck]
    by_cases hsingle : bn < nAddrs1 + nAddrs2 * entryPerBlock
    · rw [if_pos hsingle, if_pos hsingle]
      simp only [locateEntries, bind_pure]
    · rw [if_neg hsingle, if_neg hsingle, if_pos hbn]
      simp only [locateEntries, bind_pure]

end

/-! The allocator. -/

/-- The data bitmap has no clear bit. -/
def DataFull (disk : Disk) : Prop :=
  ∀ j, j < 8192 → (disk sb.dataBitmapStart).bit j = true

def FsState.mark (s : FsState) (fresh : UInt32) : FsState :=
  { s with disk := markBlock s.disk fresh }

/-- The state after a store into `addrs[]` of a slot. -/
def FsState.setAddr (s : FsState) (i : Slot) (j : Fin nAddrs) (n : UInt32) :
    FsState :=
  s.setSlot i { s.icache i with diskInode := { (s.icache i).diskInode with
    addrs := Function.update (s.icache i).diskInode.addrs j n } }

def FsState.setEntry (s : FsState) (table : UInt32) (k : Nat) (n : UInt32) :
    FsState :=
  s.setBlock table ((s.disk table).setWord (4 * k) n)

structure Unmarked (disk : Disk) (fresh : UInt32) : Prop where
  inData : InData fresh
  clear : dataBit disk fresh = false

theorem InData.lt_nBlock {n : UInt32} (h : InData n) : n.toNat < nBlock :=
  h.2

theorem InData.ne_failed {n : UInt32} (h : InData n) : n ≠ 0xFFFFFFFF := by
  rintro rfl
  exact absurd h.2 (by decide)

theorem bitmapAllocBlock_of_full {s : FsState} (h : DataFull s.disk) :
    bitmapAllocBlock s = .ok (0xFFFFFFFF, s) := by
  have halloc := BitmapKind.alloc_eq .block s
  have hnone : lowestClear (s.disk BitmapKind.block.bitmapBlock) = none :=
    lowestClear_eq_none.mpr h
  rw [hnone] at halloc
  exact halloc

theorem bitmapAllocBlock_of_not_full {s : FsState} (h : ¬DataFull s.disk) :
    ∃ fresh, Unmarked s.disk fresh ∧
      bitmapAllocBlock s = .ok (fresh, s.mark fresh) := by
  rcases bitmapAllocBlock_cases s with hfail | ⟨fresh, hdata, hclear, halloc⟩
  · obtain ⟨bi, hfind⟩ : ∃ bi,
        lowestClear (s.disk BitmapKind.block.bitmapBlock) = some bi := by
      apply exists_lowestClear
      simpa [DataFull, BitmapKind.bitmapBlock] using h
    have halloc := BitmapKind.alloc_eq .block s
    change bitmapAllocBlock s = _ at halloc
    rw [hfind, hfail] at halloc
    have hnumber := congrArg Prod.fst (Except.ok.inj halloc)
    exact absurd hnumber.symm
      (BitmapKind.block.number_ne_failed (lowestClear_spec hfind).1)
  · exact ⟨fresh, ⟨hdata, hclear⟩, halloc⟩

/-! The steps of the walk. -/

section

variable {i : Slot} {s s' : FsState} {check : UInt32 → Prop}
  [DecidablePred check] {table n : UInt32} {k : Nat}

theorem locateAddr_of_ne_zero {j : Fin nAddrs}
    (h : (s.icache i).diskInode.addrs j ≠ 0) :
    locateAddr i j.val check s = .ok ((s.icache i).diskInode.addrs j, s) := by
  unfold locateAddr
  rw [dif_pos j.isLt, readSlot_bind, if_neg h]
  rfl

theorem locateAddr_of_fresh {j : Fin nAddrs}
    (h : (s.icache i).diskInode.addrs j = 0)
    (halloc : bitmapAllocBlock s = .ok (n, s.mark n)) (hcheck : check n) :
    locateAddr i j.val check s = .ok (n, (s.mark n).setAddr i j n) := by
  unfold locateAddr assertThat
  rw [dif_pos j.isLt, readSlot_bind, if_pos h, Exec.bind_of_ok halloc,
    Exec.require_of_true hcheck]
  rfl

theorem locateAddr_of_ge {index : Nat} (h : ¬index < nAddrs) :
    locateAddr i index check s = .error .outOfBounds := by
  unfold locateAddr
  rw [dif_neg h]
  rfl

theorem locateEntry_of_ge (h : ¬table.toNat < nBlock) :
    locateEntry table k s = .error .ioError := by
  unfold locateEntry
  rw [Exec.bind_apply, bufRead_eq, if_neg h]

theorem locateEntry_of_ne_zero (hlt : table.toNat < nBlock)
    (h : (s.disk table).word (4 * k) ≠ 0) :
    locateEntry table k s = .ok ((s.disk table).word (4 * k), s) := by
  unfold locateEntry
  rw [Exec.bind_of_ok (bufRead_of_lt hlt s), if_neg h, bufWrite_bind]
  have hsame : s.setBlock table (s.disk table) = s := by
    unfold FsState.setBlock
    rw [Function.update_eq_self]
  rw [hsame]
  rfl

theorem locateEntry_of_full (hlt : table.toNat < nBlock)
    (h : (s.disk table).word (4 * k) = 0) (hfull : DataFull s.disk) :
    locateEntry table k s =
      if table = sb.dataBitmapStart then .error .deadlock
      else .ok (0xFFFFFFFF, s.setEntry table k 0xFFFFFFFF) := by
  have hne : table ≠ 0xFFFFFFFF := by
    rintro rfl
    exact absurd hlt (by decide)
  unfold locateEntry
  rw [Exec.bind_of_ok (bufRead_of_lt hlt s), if_pos h,
    Exec.bind_of_ok (bitmapAllocBlock_of_full hfull)]
  by_cases hbitmap : table = sb.dataBitmapStart
  · rw [if_pos hbitmap]
    unfold Exec.require
    rw [if_neg fun hcase => hcase.1 hbitmap]
    rfl
  · rw [if_neg hbitmap, Exec.require_of_true ⟨hbitmap, hne⟩]
    rfl

theorem locateEntry_of_fresh (hlt : table.toNat < nBlock)
    (h : (s.disk table).word (4 * k) = 0) (hdata : InData n)
    (halloc : bitmapAllocBlock s = .ok (n, s.mark n)) :
    locateEntry table k s =
      if table = sb.dataBitmapStart ∨ table = n then .error .deadlock
      else .ok (n, (s.mark n).setEntry table k n) := by
  unfold locateEntry assertThat
  rw [Exec.bind_of_ok (bufRead_of_lt hlt s), if_pos h, Exec.bind_of_ok halloc]
  by_cases hheld : table = sb.dataBitmapStart ∨ table = n
  · rw [if_pos hheld]
    unfold Exec.require
    rw [if_neg (by tauto)]
    rfl
  · rw [if_neg hheld, Exec.require_of_true (by tauto),
      Exec.require_of_true hdata.ne_zero]
    have hkept : markBlock s.disk n table = s.disk table :=
      markBlock_of_ne (by tauto)
    change _ = Except.ok (n, (s.mark n).setBlock table
      ((markBlock s.disk n table).setWord (4 * k) n))
    rw [hkept]
    rfl

/-! A step that returns found a number, or put one there. -/

/-- How a walk gets past a missing number: with a free block, or without one. -/
inductive Obtained (s : FsState) (n : UInt32) : FsState → Prop
  | fresh (h : Unmarked s.disk n) : Obtained s n (s.mark n)
  | failed (h : DataFull s.disk) (hn : n = 0xFFFFFFFF) : Obtained s n s

theorem bitmapAllocBlock_obtains (s : FsState) :
    ∃ n middle, bitmapAllocBlock s = .ok (n, middle) ∧ Obtained s n middle := by
  by_cases hfull : DataFull s.disk
  · exact ⟨_, s, bitmapAllocBlock_of_full hfull, .failed hfull rfl⟩
  · obtain ⟨fresh, hfresh, halloc⟩ := bitmapAllocBlock_of_not_full hfull
    exact ⟨fresh, _, halloc, .fresh hfresh⟩

theorem locateAddr_eq_ok {index : Nat}
    (hrun : locateAddr i index check s = .ok (n, s')) :
    ∃ h : index < nAddrs,
      ((s.icache i).diskInode.addrs ⟨index, h⟩ ≠ 0 ∧
        n = (s.icache i).diskInode.addrs ⟨index, h⟩ ∧ s' = s) ∨
      ((s.icache i).diskInode.addrs ⟨index, h⟩ = 0 ∧ check n ∧
        ∃ middle, Obtained s n middle ∧ s' = middle.setAddr i ⟨index, h⟩ n) := by
  by_cases hindex : index < nAddrs
  · refine ⟨hindex, ?_⟩
    by_cases hzero : (s.icache i).diskInode.addrs ⟨index, hindex⟩ = 0
    · right
      unfold locateAddr at hrun
      rw [dif_pos hindex, readSlot_bind, if_pos hzero, Exec.bind_eq_ok] at hrun
      obtain ⟨fresh, middle, halloc, hrun⟩ := hrun
      rw [assertThat_bind_eq_ok] at hrun
      obtain ⟨hcheck, hrun⟩ := hrun
      cases hrun
      obtain ⟨n', middle', halloc', hobtained⟩ := bitmapAllocBlock_obtains s
      rw [halloc] at halloc'
      cases halloc'
      refine ⟨hzero, hcheck, middle, hobtained, ?_⟩
      cases hobtained <;> rfl
    · left
      rw [locateAddr_of_ne_zero (j := ⟨index, hindex⟩) hzero] at hrun
      cases hrun
      exact ⟨hzero, rfl, rfl⟩
  · rw [locateAddr_of_ge hindex] at hrun
    cases hrun

theorem locateEntry_eq_ok (hrun : locateEntry table k s = .ok (n, s')) :
    table.toNat < nBlock ∧
      (((s.disk table).word (4 * k) ≠ 0 ∧ n = (s.disk table).word (4 * k) ∧
          s' = s) ∨
        ((s.disk table).word (4 * k) = 0 ∧ n ≠ 0 ∧
          table ≠ sb.dataBitmapStart ∧
          ∃ middle, Obtained s n middle ∧ s' = middle.setEntry table k n)) := by
  by_cases hlt : table.toNat < nBlock
  · refine ⟨hlt, ?_⟩
    by_cases hzero : (s.disk table).word (4 * k) = 0
    · right
      by_cases hfull : DataFull s.disk
      · rw [locateEntry_of_full hlt hzero hfull] at hrun
        split at hrun
        · cases hrun
        · next hbitmap =>
          cases hrun
          exact ⟨hzero, by decide, hbitmap, s, .failed hfull rfl, rfl⟩
      · obtain ⟨fresh, hfresh, halloc⟩ := bitmapAllocBlock_of_not_full hfull
        rw [locateEntry_of_fresh hlt hzero hfresh.inData halloc] at hrun
        split at hrun
        · cases hrun
        · next hheld =>
          cases hrun
          exact ⟨hzero, hfresh.inData.ne_zero, fun h => hheld (.inl h), _,
            .fresh hfresh, rfl⟩
    · left
      rw [locateEntry_of_ne_zero hlt hzero] at hrun
      cases hrun
      exact ⟨hzero, rfl, rfl⟩
  · rw [locateEntry_of_ge hlt] at hrun
    cases hrun

end

end UnoOS.Fs
