import UnoOS.Fs.BlockIndex
import UnoOS.Fs.DataCalls

namespace UnoOS.Fs

open UnoOS.Lib

/-! Which reads leave the disk as it is. `inode_read_data` looks its blocks up
with `inode_locate_block`, which allocates the ones that are missing. -/

/-- The walk from a number through tables that are there, to a block that is
there. -/
def Finds (disk : Disk) : (number : UInt32) → List Nat → Prop
  | number, [] => number ≠ 0 ∧ number.toNat < nBlock
  | number, k :: ks => (number ≠ 0 ∧ number.toNat < nBlock) ∧
      Finds disk ((disk number).word (4 * k)) ks

def follow (disk : Disk) : (number : UInt32) → List Nat → UInt32
  | number, [] => number
  | number, k :: ks => follow disk ((disk number).word (4 * k)) ks

def Mapped (disk : Disk) (d : InodeDisk) (bn : Nat) : Prop :=
  ∃ h : (coordinates bn).addr < nAddrs,
    Finds disk (d.addrs ⟨_, h⟩) (coordinates bn).entries

/-- The walk meets no missing number. -/
def Present (disk : Disk) : (number : UInt32) → List Nat → Prop
  | number, [] => number ≠ 0
  | number, k :: ks => number ≠ 0 ∧ Present disk ((disk number).word (4 * k)) ks

def OnDevice (disk : Disk) : (number : UInt32) → List Nat → Prop
  | number, [] => number.toNat < nBlock
  | number, k :: ks => number.toNat < nBlock ∧
      (number ≠ 0 → OnDevice disk ((disk number).word (4 * k)) ks)

/-- File block `bn` is in reach of the lookup, and no number on the way to it is 0. -/
def BlockPresent (disk : Disk) (d : InodeDisk) (bn : Nat) : Prop :=
  ∃ h : (coordinates bn).addr < nAddrs,
    Present disk (d.addrs ⟨_, h⟩) (coordinates bn).entries

/-- What a failed allocation or a stray store has left in a table is not covered: where
`buf_read` of such a number leads depends on the buffers. -/
def BlockOnDevice (disk : Disk) (d : InodeDisk) (bn : Nat) : Prop :=
  ∀ h : (coordinates bn).addr < nAddrs,
    OnDevice disk (d.addrs ⟨_, h⟩) (coordinates bn).entries

theorem finds_iff_present {disk : Disk} {number : UInt32} {ks : List Nat}
    (h : OnDevice disk number ks) : Finds disk number ks ↔ Present disk number ks := by
  induction ks generalizing number with
  | nil => exact and_iff_left h
  | cons k ks ih =>
      constructor
      · rintro ⟨⟨hne, _⟩, hrest⟩
        exact ⟨hne, (ih (h.2 hne)).mp hrest⟩
      · rintro ⟨hne, hrest⟩
        exact ⟨⟨hne, h.1⟩, (ih (h.2 hne)).mpr hrest⟩

theorem mapped_iff_present {disk : Disk} {d : InodeDisk} {bn : Nat}
    (h : BlockOnDevice disk d bn) : Mapped disk d bn ↔ BlockPresent disk d bn :=
  exists_congr fun haddr => finds_iff_present (h haddr)

theorem Finds.head {disk : Disk} {number : UInt32} {ks : List Nat}
    (h : Finds disk number ks) : number ≠ 0 ∧ number.toNat < nBlock := by
  cases ks with
  | nil => exact h
  | cons k ks => exact h.1

theorem Finds.last {disk : Disk} {number : UInt32} {ks : List Nat}
    (h : Finds disk number ks) : (follow disk number ks).toNat < nBlock := by
  induction ks generalizing number with
  | nil => exact h.2
  | cons k ks ih => exact ih h.2

theorem Mapped.lt_maxBlocks {disk : Disk} {d : InodeDisk} {bn : Nat}
    (h : Mapped disk d bn) : bn < maxBlocks :=
  Nat.lt_trans ((coordinates_addr_lt_iff bn).mp h.1) (by decide)

/-! A block that is there is found. -/

section

variable {i : Slot} {s s' : FsState} {bn : Nat} {n number : UInt32}
  {ks : List Nat}

theorem locateEntries_of_finds (h : Finds s.disk number ks) :
    locateEntries number ks s = .ok (follow s.disk number ks, s) := by
  induction ks generalizing number with
  | nil => rfl
  | cons k ks ih =>
      have hentry := locateEntry_of_ne_zero h.1.2 h.2.head.1
      exact (Exec.bind_of_ok hentry).trans (ih h.2)

theorem inodeLocateBlock_of_mapped (hlocked : (s.icache i).locked)
    (h : Mapped s.disk (s.icache i).diskInode bn) :
    ∃ n, inodeLocateBlock i bn s = .ok (n, s) ∧ n.toNat < nBlock := by
  obtain ⟨haddr, hfinds⟩ := h
  refine ⟨_, ?_, hfinds.last⟩
  rw [inodeLocateBlock_eq hlocked (Mapped.lt_maxBlocks ⟨haddr, hfinds⟩)]
  refine (Exec.bind_of_ok (locateAddr_of_ne_zero hfinds.head.1)).trans ?_
  exact locateEntries_of_finds hfinds

/-! A block that is not costs a free one, unless there is none. -/

def Asked (s s' : FsState) (n : UInt32) : Prop :=
  freeCount s'.disk < freeCount s.disk ∨
    n = 0xFFFFFFFF ∧ freeCount s'.disk = freeCount s.disk

theorem Asked.le (h : Asked s s' n) : freeCount s'.disk ≤ freeCount s.disk := by
  rcases h with hlt | ⟨_, heq⟩
  · exact hlt.le
  · exact heq.le

theorem Obtained.asked {middle : FsState} (h : Obtained s n middle)
    (hsame : freeCount s'.disk = freeCount middle.disk) : Asked s s' n := by
  cases h with
  | fresh hfresh =>
      left
      rw [hsame, freeCount_mark hfresh]
      exact Nat.lt_succ_self _
  | failed _ hn => exact .inr ⟨hn, hsame⟩

theorem freeCount_congr {disk disk' : Disk}
    (h : disk' sb.dataBitmapStart = disk sb.dataBitmapStart) :
    freeCount disk' = freeCount disk := by
  unfold freeCount
  rw [h]

theorem locateAddr_asks {index : Nat} {check : UInt32 → Prop}
    [DecidablePred check] (hrun : locateAddr i index check s = .ok (n, s')) :
    ∃ h : index < nAddrs,
      ((s.icache i).diskInode.addrs ⟨index, h⟩ ≠ 0 ∧
        n = (s.icache i).diskInode.addrs ⟨index, h⟩ ∧ s' = s) ∨ Asked s s' n := by
  obtain ⟨hindex, hfound | ⟨_, _, middle, hobtained, rfl⟩⟩ :=
    locateAddr_eq_ok hrun
  · exact ⟨hindex, .inl hfound⟩
  · exact ⟨hindex, .inr (hobtained.asked rfl)⟩

theorem locateEntry_asks {table : UInt32} {k : Nat}
    (hrun : locateEntry table k s = .ok (n, s')) :
    ((s.disk table).word (4 * k) ≠ 0 ∧ n = (s.disk table).word (4 * k) ∧
      s' = s) ∨ Asked s s' n := by
  obtain ⟨_, hfound | ⟨_, _, hbitmap, middle, hobtained, rfl⟩⟩ :=
    locateEntry_eq_ok hrun
  · exact .inl hfound
  · right
    refine hobtained.asked (freeCount_congr ?_)
    exact Function.update_of_ne hbitmap.symm _ _

/-- A walk that ends at a block of the device found all of it, or took a free
block. -/
theorem locateEntries_finds (hne : number ≠ 0)
    (hrun : locateEntries number ks s = .ok (n, s')) (hn : n.toNat < nBlock) :
    (s' = s ∧ Finds s.disk number ks) ∨
      freeCount s'.disk < freeCount s.disk := by
  induction ks generalizing number s with
  | nil =>
      cases hrun
      exact .inl ⟨rfl, hne, hn⟩
  | cons k ks ih =>
      obtain ⟨next, middle, hentry, hrest⟩ := Exec.bind_eq_ok.mp hrun
      have hlt := locateEntry_lt_nBlock hentry
      rcases locateEntry_asks hentry with ⟨hword, rfl, rfl⟩ | hasked
      · refine (ih hword hrest).imp_left ?_
        rintro ⟨rfl, hfinds⟩
        exact ⟨rfl, ⟨hne, hlt⟩, hfinds⟩
      · have hnext : next ≠ 0 := by
          obtain ⟨_, ⟨hword, rfl, _⟩ | ⟨_, hnext, _⟩⟩ := locateEntry_eq_ok hentry
          · exact hword
          · exact hnext
        right
        rcases ih hnext hrest with ⟨rfl, hfinds⟩ | hless
        · rcases hasked with hless | ⟨rfl, _⟩
          · exact hless
          · exact absurd hfinds.head.2 (by decide)
        · exact hless.trans_le hasked.le

theorem inodeLocateBlock_lt_maxBlocks
    (hrun : inodeLocateBlock i bn s = .ok (n, s')) : bn < maxBlocks := by
  by_contra hbn
  change ¬bn < 66058 at hbn
  unfold inodeLocateBlock at hrun
  rw [readSlot_bind, assertThat_bind_eq_ok,
    if_neg (by change ¬bn < 10; omega), if_neg (by change ¬bn < 522; omega),
    if_neg (by change ¬bn < 66058; exact hbn)] at hrun
  cases hrun.2

theorem inodeLocateBlock_finds (hlocked : (s.icache i).locked)
    (hrun : inodeLocateBlock i bn s = .ok (n, s')) (hn : n.toNat < nBlock) :
    (s'.icache i).locked ∧
      ((s' = s ∧ Mapped s.disk (s.icache i).diskInode bn) ∨
        freeCount s'.disk < freeCount s.disk) := by
  rw [inodeLocateBlock_eq hlocked (inodeLocateBlock_lt_maxBlocks hrun)] at hrun
  refine ⟨(locateAt_locked hrun).trans hlocked, ?_⟩
  obtain ⟨first, middle, haddr, hrest⟩ := Exec.bind_eq_ok.mp hrun
  have hfirst : first ≠ 0 := by
    obtain ⟨_, ⟨hne, rfl, _⟩ | ⟨_, _, _, hobtained, _⟩⟩ := locateAddr_eq_ok haddr
    · exact hne
    · exact hobtained.ne_zero
  obtain ⟨hindex, ⟨_, rfl, rfl⟩ | hasked⟩ := locateAddr_asks haddr
  · refine (locateEntries_finds hfirst hrest hn).imp_left ?_
    rintro ⟨rfl, hfinds⟩
    exact ⟨rfl, hindex, hfinds⟩
  · right
    rcases locateEntries_finds hfirst hrest hn with ⟨rfl, hfinds⟩ | hless
    · rcases hasked with hless | ⟨rfl, _⟩
      · exact hless
      · exact absurd hfinds.head.2 (by decide)
    · exact hless.trans_le hasked.le

/-! The loop. -/

def RangeMapped (disk : Disk) (d : InodeDisk) (beg len : Nat) : Prop :=
  ∀ k, k < len → Mapped disk d ((beg + k) / blockSize)

/-- No byte of a range lies in a block that is missing. -/
def RangePresent (disk : Disk) (d : InodeDisk) (beg len : Nat) : Prop :=
  ∀ k, k < len → BlockPresent disk d ((beg + k) / blockSize)

def RangeOnDevice (disk : Disk) (d : InodeDisk) (beg len : Nat) : Prop :=
  ∀ k, k < len → BlockOnDevice disk d ((beg + k) / blockSize)

theorem rangeMapped_iff_present {disk : Disk} {d : InodeDisk} {beg len : Nat}
    (h : RangeOnDevice disk d beg len) :
    RangeMapped disk d beg len ↔ RangePresent disk d beg len :=
  forall₂_congr fun k hk => mapped_iff_present (h k hk)

theorem round_block {beg k : Nat} (h : k < blockSize - beg % blockSize) :
    (beg + k) / blockSize = beg / blockSize := by
  unfold blockSize at h ⊢
  omega

theorem rangeMapped_iff {disk : Disk} {d : InodeDisk} {beg len : Nat}
    (hlen : len ≠ 0) :
    RangeMapped disk d beg len ↔
      Mapped disk d (beg / blockSize) ∧
        RangeMapped disk d (beg + min (blockSize - beg % blockSize) len)
          (len - min (blockSize - beg % blockSize) len) := by
  constructor
  · intro h
    refine ⟨h 0 (by omega), ?_⟩
    intro k hk
    rw [Nat.add_assoc]
    exact h _ (by omega)
  · rintro ⟨hfirst, hrest⟩ k hk
    by_cases hround : k < blockSize - beg % blockSize
    · rwa [round_block hround]
    · have hlater := hrest (k - (blockSize - beg % blockSize)) (by omega)
      rw [Nat.min_eq_left (by omega), Nat.add_assoc,
        Nat.add_sub_cancel' (by omega)] at hlater
      exact hlater

theorem round_pos (beg : Nat) {len : Nat} (hlen : len ≠ 0) :
    0 < min (blockSize - beg % blockSize) len := by
  unfold blockSize
  omega

theorem readLoop_of_mapped (hlocked : (s.icache i).locked) {fuel beg len : Nat}
    (h : RangeMapped s.disk (s.icache i).diskInode beg len) :
    ∃ bytes, readLoop i fuel beg len s = .ok (bytes, s) := by
  induction fuel generalizing beg len with
  | zero => exact ⟨[], rfl⟩
  | succ fuel ih =>
      unfold readLoop
      by_cases hlen : len = 0
      · rw [if_pos hlen]
        exact ⟨[], rfl⟩
      · rw [if_neg hlen]
        obtain ⟨hfirst, hrest⟩ := (rangeMapped_iff hlen).mp h
        obtain ⟨n, hlocate, hn⟩ := inodeLocateBlock_of_mapped hlocked hfirst
        obtain ⟨rest, hloop⟩ := ih hrest
        rw [Exec.bind_of_ok hlocate, Exec.bind_of_ok (bufRead_of_lt hn s),
          Exec.bind_of_ok hloop]
        exact ⟨_, rfl⟩

theorem readLoop_finds {fuel beg len : Nat} {bytes : List UInt8}
    (hlocked : (s.icache i).locked) (hfuel : len ≤ fuel)
    (hrun : readLoop i fuel beg len s = .ok (bytes, s')) :
    (s' = s ∧ RangeMapped s.disk (s.icache i).diskInode beg len) ∨
      freeCount s'.disk < freeCount s.disk := by
  induction fuel generalizing s beg len bytes with
  | zero =>
      cases hrun
      exact .inl ⟨rfl, fun k hk => by omega⟩
  | succ fuel ih =>
      unfold readLoop at hrun
      split at hrun
      · next hlen =>
        cases hrun
        exact .inl ⟨rfl, fun k hk => by omega⟩
      · next hlen =>
        rw [Exec.bind_eq_ok] at hrun
        obtain ⟨n, middle, hlocate, hrun⟩ := hrun
        rw [bufRead_bind_eq_ok] at hrun
        obtain ⟨hn, hrun⟩ := hrun
        rw [Exec.bind_eq_ok] at hrun
        obtain ⟨rest, final, hloop, hrun⟩ := hrun
        cases hrun
        have hpos := round_pos beg hlen
        obtain ⟨hlocked', hcase⟩ := inodeLocateBlock_finds hlocked hlocate hn
        have hrest := ih hlocked' (by omega) hloop
        rcases hcase with ⟨rfl, hfirst⟩ | hless
        · refine hrest.imp_left ?_
          rintro ⟨rfl, hlater⟩
          exact ⟨rfl, (rangeMapped_iff hlen).mpr ⟨hfirst, hlater⟩⟩
        · right
          rcases hrest with ⟨rfl, _⟩ | hless'
          · exact hless
          · exact hless'.trans hless

/-! The call. -/

/-- A read that returns with the disk as it was, and reads the same again. -/
def ReadsOnly (i : Slot) (offset len : UInt32) (s : FsState) : Prop :=
  ∃ result s', inodeReadData i offset len s = .ok (result, s') ∧
    s'.disk = s.disk ∧
    ∃ s'', inodeReadData i offset len s' = .ok (result, s'')

/-- The call reads nothing: behind the end, or the range wraps. -/
def ReadsNothing (size offset len : UInt32) : Prop :=
  size < offset ∨ offset + len < offset

instance (size offset len : UInt32) : Decidable (ReadsNothing size offset len) :=
  inferInstanceAs (Decidable (_ ∨ _))

theorem inodeReadData_nothing (hlocked : (s.icache i).locked)
    {offset len : UInt32}
    (h : ReadsNothing (recordOf s.disk (s.icache i).inodeNum).size offset len) :
    inodeReadData i offset len s = .ok ((0xFFFFFFFF, []), s.reload i) := by
  unfold inodeReadData
  rw [readSlot_bind, Exec.bind_of_ok (assertThat_of_true hlocked s),
    Exec.bind_of_ok (inodeRw_false_apply i s), readSlot_bind,
    FsState.reload_self]
  exact congrFun (if_pos h) (s.reload i)

theorem inodeReadData_range (hlocked : (s.icache i).locked)
    {offset len total : UInt32}
    (htotal : total =
      readTotal (recordOf s.disk (s.icache i).inodeNum).size offset len)
    (h : ¬ReadsNothing (recordOf s.disk (s.icache i).inodeNum).size offset len) :
    inodeReadData i offset len s =
      (do
        let bytes ← readLoop i total.toNat offset.toNat total.toNat
        return (total, bytes) : FsM _) (s.reload i) := by
  subst htotal
  unfold inodeReadData
  rw [readSlot_bind, Exec.bind_of_ok (assertThat_of_true hlocked s),
    Exec.bind_of_ok (inodeRw_false_apply i s), readSlot_bind,
    FsState.reload_self]
  exact congrFun (if_neg h) (s.reload i)

theorem reload_reload : (s.reload i).reload i = s.reload i := by
  unfold FsState.reload
  simp [FsState.setSlot]

/-- A read that reaches a missing block allocates it, or finds no free one: the
disk changes, or the call does not return. -/
theorem reads_only_iff {d : InodeDisk} (hlocked : (s.icache i).locked)
    (hd : d = recordOf s.disk (s.icache i).inodeNum) (offset len : UInt32)
    (hdevice : ¬ReadsNothing d.size offset len →
      RangeOnDevice s.disk d offset.toNat (readTotal d.size offset len).toNat) :
    ReadsOnly i offset len s ↔
      ReadsNothing d.size offset len ∨
        RangePresent s.disk d offset.toNat (readTotal d.size offset len).toNat := by
  subst hd
  have hlocked' : ((s.reload i).icache i).locked := by
    rw [FsState.reload_self]
    exact hlocked
  have hrecord : recordOf (s.reload i).disk ((s.reload i).icache i).inodeNum =
      recordOf s.disk (s.icache i).inodeNum := by
    rw [FsState.reload_self]
    rfl
  by_cases hnothing :
      ReadsNothing (recordOf s.disk (s.icache i).inodeNum).size offset len
  · refine iff_of_true ?_ (.inl hnothing)
    refine ⟨_, _, inodeReadData_nothing hlocked hnothing, rfl, _,
      inodeReadData_nothing hlocked' ?_⟩
    rwa [hrecord]
  · rw [or_iff_right hnothing, ← rangeMapped_iff_present (hdevice hnothing)]
    have hcall := inodeReadData_range hlocked rfl hnothing
    have hmap : RangeMapped s.disk (recordOf s.disk (s.icache i).inodeNum) =
        RangeMapped (s.reload i).disk ((s.reload i).icache i).diskInode := by
      rw [FsState.reload_self]
      rfl
    rw [hmap]
    constructor
    · rintro ⟨⟨count, bytes⟩, s', hrun, hdisk, _⟩
      rw [hcall, Exec.bind_eq_ok] at hrun
      obtain ⟨_, final, hloop, hend⟩ := hrun
      cases hend
      rcases readLoop_finds hlocked' le_rfl hloop with ⟨_, hrange⟩ | hless
      · exact hrange
      · rw [hdisk] at hless
        exact absurd hless (Nat.lt_irrefl _)
    · intro hrange
      obtain ⟨bytes, hloop⟩ := readLoop_of_mapped hlocked' hrange
      have hfirst := hcall.trans (Exec.bind_of_ok hloop)
      refine ⟨_, _, hfirst, rfl, s.reload i, ?_⟩
      rw [inodeReadData_range hlocked' (by rw [hrecord]) (by rwa [hrecord]),
        reload_reload]
      exact Exec.bind_of_ok hloop

end

def oneByteAt (offset : UInt32) : FsState :=
  match (do
      let i ← inodeCreate ftFile 0 0
      inodeLock i
      inodeWriteData i offset 1 fun _ => 65) (.booted Mkfs.freshImage) with
  | .ok (_, s) => s
  | .error _ => .booted 0

def gapped : FsState := oneByteAt 1024

theorem reads_only_gapped :
    (gapped.icache 0).locked ∧ ReadsOnly 0 1024 1 gapped := by
  have hlocked : (gapped.icache 0).locked := by decide +kernel
  have htotal : (readTotal (recordOf gapped.disk (gapped.icache 0).inodeNum).size
      1024 1).toNat = 1 := by decide +kernel
  have haddr : (recordOf gapped.disk (gapped.icache 0).inodeNum).addrs 1 ≠ 0 ∧
      ((recordOf gapped.disk (gapped.icache 0).inodeNum).addrs 1).toNat <
        nBlock := by decide +kernel
  refine ⟨hlocked, (reads_only_iff hlocked rfl 1024 1 fun _ k hk => ?_).mpr
    (.inr fun k hk => ?_)⟩
  · rw [htotal] at hk
    obtain rfl : k = 0 := by omega
    exact fun _ => haddr.2
  · rw [htotal] at hk
    obtain rfl : k = 0 := by omega
    exact ⟨by decide, haddr.1⟩

/-- A read of the gap takes a block. -/
theorem gap_read_allocates :
    (gapped.icache 0).locked ∧ ¬ReadsOnly 0 0 1 gapped := by
  refine ⟨by decide +kernel, ?_⟩
  rintro ⟨result, s', hrun, hdisk, _⟩
  have hcheck : (match inodeReadData 0 0 1 gapped with
      | .ok (_, s') => some (lowestClear (s'.disk sb.dataBitmapStart),
          lowestClear (gapped.disk sb.dataBitmapStart))
      | .error _ => none) = some (some 3, some 2) := by decide +kernel
  rw [hrun] at hcheck
  simp only [hdisk, Option.some.injEq, Prod.mk.injEq] at hcheck
  obtain ⟨hafter, hbefore⟩ := hcheck
  rw [hbefore] at hafter
  cases hafter

end UnoOS.Fs
