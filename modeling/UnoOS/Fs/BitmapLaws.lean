import UnoOS.Fs.Bitmap
import UnoOS.Lib.Transition

namespace UnoOS.Fs

open UnoOS.Lib

/-! What the allocators do to a bitmap block. -/

def lowestClear (b : Block) : Option Nat := b.firstClear (sb.blockSize.toNat * 8) 0

theorem lowestClear_spec {b : Block} {bi : Nat} (h : lowestClear b = some bi) :
    bi < 8192 ∧ b.bit bi = false ∧ ∀ j, j < bi → b.bit j = true := by
  obtain ⟨_, hhigh, hclear, hbelow⟩ := Bytes.firstClear_eq_some h
  have hsize : sb.blockSize.toNat * 8 = 8192 := rfl
  exact ⟨by omega, hclear, fun j hj => hbelow j (Nat.zero_le j) hj⟩

theorem lowestClear_eq_none {b : Block} :
    lowestClear b = none ↔ ∀ j, j < 8192 → b.bit j = true := by
  have hsize : sb.blockSize.toNat * 8 = 8192 := rfl
  rw [lowestClear, Bytes.firstClear_eq_none, hsize]
  constructor
  · intro h j hj
    exact h j (Nat.zero_le j) (by omega)
  · intro h j _ hj
    exact h j (by omega)

theorem lowestClear_of_least {b : Block} {bi : Nat} (hbi : bi < 8192)
    (hclear : b.bit bi = false) (hbelow : ∀ j, j < bi → b.bit j = true) :
    lowestClear b = some bi := by
  apply Bytes.firstClear_of_least (Nat.zero_le bi) _ hclear
  · intro j _ hj
    exact hbelow j hj
  · have hsize : sb.blockSize.toNat * 8 = 8192 := rfl
    omega

theorem exists_lowestClear {b : Block} (h : ∃ j, j < 8192 ∧ b.bit j = false) :
    ∃ bi, lowestClear b = some bi := by
  cases hfind : lowestClear b with
  | some bi => exact ⟨bi, rfl⟩
  | none =>
      obtain ⟨j, hj, hclear⟩ := h
      rw [lowestClear_eq_none] at hfind
      rw [hfind j hj] at hclear
      cases hclear

theorem toNat_ofNat_add {bi : Nat} (start : UInt32) (hbi : bi < 8192)
    (hstart : start.toNat < 8192) :
    (UInt32.ofNat bi + start).toNat = bi + start.toNat := by
  rw [UInt32.toNat_add, UInt32.toNat_ofNat']
  omega

/-! The two bitmaps side by side. -/

inductive BitmapKind where
  | block
  | inode
  deriving DecidableEq

namespace BitmapKind

def bitmapBlock : BitmapKind → UInt32
  | .block => sb.dataBitmapStart
  | .inode => sb.inodeBitmapStart

/-- The number the kernel gives to bit 0. -/
def start : BitmapKind → UInt32
  | .block => sb.dataStart
  | .inode => sb.inodeStart

def alloc : BitmapKind → FsM UInt32
  | .block => bitmapAllocBlock
  | .inode => do return (← bitmapAllocInode).toUInt32

def free : BitmapKind → UInt32 → FsM Unit
  | .block, num => bitmapFreeBlock num
  | .inode, num => bitmapFreeInode num.toUInt16

def failed : BitmapKind → UInt32
  | .block => 0xFFFFFFFF
  | .inode => 0xFFFF

def number (kind : BitmapKind) (bi : Nat) : UInt32 :=
  UInt32.ofNat bi + kind.start

theorem start_lt (kind : BitmapKind) : kind.start.toNat < 8192 := by
  cases kind <;> decide

theorem number_toNat (kind : BitmapKind) {bi : Nat} (hbi : bi < 8192) :
    (kind.number bi).toNat = bi + kind.start.toNat :=
  toNat_ofNat_add kind.start hbi kind.start_lt

theorem start_toNat (kind : BitmapKind) :
    kind.start.toNat = kind.bitmapBlock.toNat + 1 := by
  cases kind <;> rfl

theorem number_lt (kind : BitmapKind) {bi : Nat} (hbi : bi < 8192) :
    (kind.number bi).toNat < 8323 := by
  rw [kind.number_toNat hbi]
  cases kind
  · change bi + 131 < 8323
    omega
  · change bi + 2 < 8323
    omega

theorem toUInt16_toUInt32 {x : UInt32} (h : x.toNat < 65536) :
    x.toUInt16.toUInt32 = x := by
  apply UInt32.toNat.inj
  rw [UInt16.toNat_toUInt32, UInt32.toNat_toUInt16]
  omega

theorem searchAndSet_eq (kind : BitmapKind) (s : FsState) :
    bitmapSearchAndSet kind.bitmapBlock s =
      match lowestClear (s.disk kind.bitmapBlock) with
      | none => .ok (0xFFFFFFFF, s)
      | some bi => .ok (kind.number bi, s.setBlock kind.bitmapBlock
          ((s.disk kind.bitmapBlock).setBit bi)) := by
  have hread : kind.bitmapBlock.toNat < nBlock := by cases kind <;> decide
  unfold bitmapSearchAndSet
  rw [Exec.bind_of_ok (bufRead_of_lt hread s)]
  change (match lowestClear (s.disk kind.bitmapBlock) with
    | none => _
    | some bi => _ : FsM UInt32) s = _
  cases hfind : lowestClear (s.disk kind.bitmapBlock) with
  | none => rfl
  | some bi =>
      have hbi := (lowestClear_spec hfind).1
      have hnumber := kind.number_lt hbi
      dsimp only
      rw [Exec.bind_of_ok (bufWrite_apply _ _ s)]
      cases kind with
      | block =>
          rw [if_neg (by decide), if_pos (by rfl), pure_bind]
          exact Exec.bind_of_ok (bufRead_of_lt hnumber _)
      | inode =>
          rw [if_pos (by rfl), pure_bind]
          exact Exec.bind_of_ok (bufRead_of_lt hnumber _)

theorem alloc_eq (kind : BitmapKind) (s : FsState) :
    kind.alloc s =
      match lowestClear (s.disk kind.bitmapBlock) with
      | none => .ok (kind.failed, s)
      | some bi => .ok (kind.number bi, s.setBlock kind.bitmapBlock
          ((s.disk kind.bitmapBlock).setBit bi)) := by
  have hsearch := kind.searchAndSet_eq s
  cases kind with
  | block => exact hsearch
  | inode =>
      dsimp only [alloc, bitmapAllocInode]
      cases hfind : lowestClear (s.disk BitmapKind.inode.bitmapBlock) with
      | none =>
          simp only [hfind] at hsearch
          rw [bind_assoc]
          exact Exec.bind_of_ok hsearch
      | some bi =>
          have hbi := (lowestClear_spec hfind).1
          have hnumber := BitmapKind.inode.number_lt hbi
          simp only [hfind] at hsearch
          rw [bind_assoc]
          refine (Exec.bind_of_ok hsearch).trans ?_
          rw [pure_bind, Exec.pure_apply, toUInt16_toUInt32 (by omega)]

theorem unset_eq (kind : BitmapKind) (num : UInt32) (s : FsState) :
    bitmapUnset kind.bitmapBlock num s =
      if (num - kind.bitmapBlock).toNat / 8 < blockSize then
        .ok ((), { s with
          unsets := ⟨kind.bitmapBlock, num,
            (s.disk kind.bitmapBlock).bit (num - kind.bitmapBlock).toNat⟩ ::
              s.unsets
          disk := Function.update s.disk kind.bitmapBlock
            ((s.disk kind.bitmapBlock).clearBit
              (num - kind.bitmapBlock).toNat) })
      else .error .outOfBounds := by
  have hread : kind.bitmapBlock.toNat < nBlock := by cases kind <;> decide
  unfold bitmapUnset
  rw [Exec.bind_of_ok (bufRead_of_lt hread s)]
  unfold Exec.require
  split <;> rfl

theorem free_number (kind : BitmapKind) {bi : Nat} (hbi : bi < 8192)
    (s : FsState) :
    kind.free (kind.number bi) s =
      if bi + 1 < 8192 then
        .ok ((), { s with
          unsets := ⟨kind.bitmapBlock, kind.number bi,
            (s.disk kind.bitmapBlock).bit (bi + 1)⟩ :: s.unsets
          disk := Function.update s.disk kind.bitmapBlock
            ((s.disk kind.bitmapBlock).clearBit (bi + 1)) })
      else .error .outOfBounds := by
  have hnumber := kind.number_toNat hbi
  have hstart := kind.start_toNat
  have hlt := kind.start_lt
  have hindex : (kind.number bi - kind.bitmapBlock).toNat = bi + 1 := by
    rw [UInt32.toNat_sub_of_le _ _ (by rw [UInt32.le_iff_toNat_le]; omega)]
    omega
  have hfree : kind.free (kind.number bi) =
      bitmapUnset kind.bitmapBlock (kind.number bi) := by
    cases kind with
    | block => rfl
    | inode =>
        have hsmall := BitmapKind.inode.number_lt hbi
        change bitmapUnset _ _ = _
        rw [toUInt16_toUInt32 (by omega)]
        rfl
  rw [hfree, kind.unset_eq, hindex]
  have hbound : (bi + 1) / 8 < blockSize ↔ bi + 1 < 8192 := by
    unfold blockSize
    omega
  simp only [hbound]

theorem number_injective (kind : BitmapKind) {bi bj : Nat} (hbi : bi < 8192)
    (hbj : bj < 8192) (h : kind.number bi = kind.number bj) : bi = bj := by
  have htoNat := congrArg UInt32.toNat h
  rw [kind.number_toNat hbi, kind.number_toNat hbj] at htoNat
  omega

theorem number_ne_failed (kind : BitmapKind) {bi : Nat} (hbi : bi < 8192) :
    kind.number bi ≠ kind.failed := by
  intro h
  have hlt := kind.number_lt hbi
  rw [h] at hlt
  cases kind
  · exact absurd hlt (by decide)
  · exact absurd hlt (by decide)

def bits (kind : BitmapKind) (s : FsState) : Block := s.disk kind.bitmapBlock

def Restores (kind : BitmapKind) (s : FsState) : Prop :=
  ∃ num middle final, kind.alloc s = .ok (num, middle) ∧
    kind.free num middle = .ok ((), final) ∧ final.disk = s.disk

/-- No bitmap content is restored: the allocated bit stays set. -/
theorem not_restores (kind : BitmapKind) {s : FsState}
    (hclear : ∃ j, j < 8192 ∧ (kind.bits s).bit j = false) :
    ¬kind.Restores s := by
  rintro ⟨num, middle, final, halloc, hfree, hdisk⟩
  obtain ⟨bi, hfind⟩ := exists_lowestClear hclear
  obtain ⟨hbi, hbit, _⟩ := lowestClear_spec hfind
  rw [kind.alloc_eq, show s.disk kind.bitmapBlock = kind.bits s from rfl,
    hfind] at halloc
  cases halloc
  rw [kind.free_number hbi] at hfree
  split at hfree
  · next hnext =>
    cases hfree
    have hsame := congrFun hdisk kind.bitmapBlock
    simp only [FsState.setBlock_disk, Function.update_self] at hsame
    have hset : (kind.bits s).bit bi = true := by
      rw [bits, ← hsame, Bytes.bit_clearBit _ (by unfold blockSize; omega),
        Bytes.bit_setBit _ (by unfold blockSize; omega)]
      simp
    rw [hset] at hbit
    cases hbit
  · cases hfree

/-- The `k`-th allocation from a state returns a number. -/
def ReturnsAfter (kind : BitmapKind) (num : UInt32) : Nat → FsState → Prop
  | 0, s => ∃ s', kind.alloc s = .ok (num, s')
  | k + 1, s => ∃ other s', kind.alloc s = .ok (other, s') ∧
      ReturnsAfter kind num k s'

theorem bit_alloc (kind : BitmapKind) {s s' : FsState} {num : UInt32}
    (h : kind.alloc s = .ok (num, s')) {bi : Nat}
    (hset : (kind.bits s).bit bi = true) : (kind.bits s').bit bi = true := by
  rw [kind.alloc_eq] at h
  split at h
  · cases h
    exact hset
  · next found hfind =>
    cases h
    have hfound := (lowestClear_spec hfind).1
    simp only [bits, FsState.setBlock_disk, Function.update_self]
    rw [Bytes.bit_setBit _ (by unfold blockSize; omega)]
    simp only [Bool.or_eq_true]
    exact .inl hset

/-- Allocations alone never hand out a number whose bit is set. -/
theorem not_returnsAfter (kind : BitmapKind) {bi : Nat} (hbi : bi < 8192)
    (k : Nat) {s : FsState} (hset : (kind.bits s).bit bi = true) :
    ¬kind.ReturnsAfter (kind.number bi) k s := by
  induction k generalizing s with
  | zero =>
      rintro ⟨s', h⟩
      rw [kind.alloc_eq] at h
      split at h
      · injection h with h
        injection h with h
        exact kind.number_ne_failed hbi h.symm
      · next found hfind =>
        obtain ⟨hfound, hclear, _⟩ := lowestClear_spec hfind
        injection h with h
        injection h with h
        rw [kind.number_injective hfound hbi h] at hclear
        rw [bits, hclear] at hset
        cases hset
  | succ k ih =>
      rintro ⟨other, s', halloc, hrest⟩
      exact ih (kind.bit_alloc halloc hset) hrest

end BitmapKind

theorem bitmapAllocBlock_eq (s : FsState) :
    bitmapAllocBlock s =
      match lowestClear (s.disk sb.dataBitmapStart) with
      | none => .ok (0xFFFFFFFF, s)
      | some bi => .ok (BitmapKind.block.number bi,
          s.setBlock sb.dataBitmapStart
            ((s.disk sb.dataBitmapStart).setBit bi)) :=
  BitmapKind.block.searchAndSet_eq s

theorem bitmapAllocInode_eq (s : FsState) :
    bitmapAllocInode s =
      match lowestClear (s.disk sb.inodeBitmapStart) with
      | none => .ok (0xFFFF, s)
      | some bi => .ok ((BitmapKind.inode.number bi).toUInt16,
          s.setBlock sb.inodeBitmapStart
            ((s.disk sb.inodeBitmapStart).setBit bi)) := by
  have hsearch := BitmapKind.inode.searchAndSet_eq s
  simp only [BitmapKind.bitmapBlock] at hsearch
  unfold bitmapAllocInode
  rw [Exec.bind_apply, hsearch]
  cases lowestClear (s.disk sb.inodeBitmapStart) <;> rfl

/-! Runs of one allocator.  `owned` are the numbers handed out and not yet
released. -/

structure AllocState where
  fs : FsState
  owned : List UInt32

inductive AllocOp where
  | alloc
  | free (num : UInt32)

namespace AllocState

def step (kind : BitmapKind) (st : AllocState) : AllocOp → Option AllocState
  | .alloc =>
      match kind.alloc st.fs with
      | .ok (num, fs) =>
          some ⟨fs, if num = kind.failed then st.owned else num :: st.owned⟩
      | .error _ => none
  | .free num =>
      if num ∈ st.owned then
        match kind.free num st.fs with
        | .ok (_, fs) => some ⟨fs, st.owned.erase num⟩
        | .error _ => none
      else none

/-- Only numbers that are allocated are released. -/
def Legal (st : AllocState) : AllocOp → Prop
  | .alloc => True
  | .free num => num ∈ st.owned

/-- What is asked of one operation: an allocation returns nothing that is still
allocated, and a released number can be allocated again. -/
def Law (kind : BitmapKind) (st : AllocState) : AllocOp → Prop
  | .alloc => ∀ num fs, kind.alloc st.fs = .ok (num, fs) →
      num ≠ kind.failed → num ∉ st.owned
  | .free num => ∃ fs k, kind.free num st.fs = .ok ((), fs) ∧
      kind.ReturnsAfter num k fs

def Consistent (kind : BitmapKind) (st : AllocState) : Prop :=
  ∀ num ∈ st.owned, ∃ bi, bi < 8192 ∧ num = kind.number bi ∧
    (kind.bits st.fs).bit bi = true

theorem consistent_alloc {kind : BitmapKind} {st st' : AllocState}
    (hst : st.Consistent kind) (hstep : st.step kind .alloc = some st') :
    st'.Consistent kind := by
  unfold step at hstep
  cases halloc : kind.alloc st.fs with
  | error reason => simp [halloc] at hstep
  | ok result =>
      obtain ⟨num, fs⟩ := result
      simp only [halloc, Option.some.injEq] at hstep
      subst hstep
      have hold : ∀ other ∈ st.owned, ∃ bi, bi < 8192 ∧
          other = kind.number bi ∧ (kind.bits fs).bit bi = true := by
        intro other hmem
        obtain ⟨bi, hbi, rfl, hset⟩ := hst other hmem
        exact ⟨bi, hbi, rfl, kind.bit_alloc halloc hset⟩
      rw [kind.alloc_eq] at halloc
      split at halloc
      · cases halloc
        simpa [Consistent] using hold
      · next found hfind =>
        obtain ⟨hfound, _, _⟩ := lowestClear_spec hfind
        cases halloc
        intro other hmem
        rw [if_neg (kind.number_ne_failed hfound)] at hmem
        rcases List.mem_cons.mp hmem with rfl | hmem
        · refine ⟨found, hfound, rfl, ?_⟩
          simp only [BitmapKind.bits, FsState.setBlock_disk,
            Function.update_self]
          rw [Bytes.bit_setBit _ (by unfold blockSize; omega)]
          simp
        · exact hold other hmem

theorem law_alloc {kind : BitmapKind} {st : AllocState}
    (hst : st.Consistent kind) : st.Law kind .alloc := by
  intro num fs halloc hne hmem
  obtain ⟨bi, hbi, rfl, hset⟩ := hst num hmem
  exact kind.not_returnsAfter hbi 0 hset ⟨fs, halloc⟩

theorem not_law_free {kind : BitmapKind} {st : AllocState} {num : UInt32}
    (hst : st.Consistent kind) (hmem : num ∈ st.owned) :
    ¬st.Law kind (.free num) := by
  rintro ⟨fs, k, hfree, hreturns⟩
  obtain ⟨bi, hbi, rfl, hset⟩ := hst num hmem
  rw [kind.free_number hbi] at hfree
  split at hfree
  · next hnext =>
    cases hfree
    refine kind.not_returnsAfter hbi k ?_ hreturns
    simp only [BitmapKind.bits, Function.update_self]
    rw [Bytes.bit_clearBit _ (by unfold blockSize; omega)]
    simpa [BitmapKind.bits] using hset
  · cases hfree

/-- A run keeps the law exactly when it releases nothing. -/
theorem along_law_iff {kind : BitmapKind} {st : AllocState}
    (hst : st.Consistent kind) {ops : List AllocOp}
    (hlegal : Along (step kind) Legal st ops) :
    Along (step kind) (Law kind) st ops ↔ ∀ op ∈ ops, op = .alloc := by
  induction ops generalizing st with
  | nil => simp [Along]
  | cons op ops ih =>
      cases op with
      | free num =>
          constructor
          · intro h
            exact absurd h.1 (not_law_free hst hlegal.1)
          · intro h
            cases h (.free num) List.mem_cons_self
      | alloc =>
          constructor
          · intro h other hother
            rcases List.mem_cons.mp hother with rfl | hother
            · rfl
            · obtain ⟨⟨num, fs⟩, halloc⟩ : ∃ result,
                  kind.alloc st.fs = .ok result := by
                rw [kind.alloc_eq]
                split <;> exact ⟨_, rfl⟩
              obtain ⟨st', hstep⟩ : ∃ st', st.step kind .alloc = some st' := by
                simp [step, halloc]
              exact (ih (consistent_alloc hst hstep) (hlegal.2 st' hstep)).mp
                (h.2 st' hstep) other hother
          · intro h
            refine ⟨law_alloc hst, ?_⟩
            intro st' hstep
            refine (ih (consistent_alloc hst hstep) (hlegal.2 st' hstep)).mpr ?_
            intro other hother
            exact h other (List.mem_cons_of_mem _ hother)

end AllocState

/-- `bitmap_unset` subtracts the number of the bitmap block where
`bitmap_search_and_set` added the first number behind it.  So no content is
restored, and a run of allocations and releases is lawful only as long as
nothing is released. -/
theorem bitmap_release_is_no_inverse (kind : BitmapKind) :
    (∀ s : FsState, (∃ j, j < 8192 ∧ (kind.bits s).bit j = false) →
      ¬kind.Restores s) ∧
    ∀ (st : AllocState) (ops : List AllocOp), st.Consistent kind →
      Along (AllocState.step kind) AllocState.Legal st ops →
      (Along (AllocState.step kind) (AllocState.Law kind) st ops ↔
        ∀ op ∈ ops, op = .alloc) :=
  ⟨fun _ hclear => kind.not_restores hclear,
    fun _ _ hst hlegal => AllocState.along_law_iff hst hlegal⟩

theorem bitmap_release_is_no_inverse_blank :
    ¬BitmapKind.block.Restores (.booted 0) ∧
      Along (AllocState.step .inode) (AllocState.Law .inode)
        ⟨.booted 0, []⟩ [.alloc, .alloc] := by
  refine ⟨(bitmap_release_is_no_inverse .block).1 _ ⟨0, by decide, rfl⟩, ?_⟩
  refine ((bitmap_release_is_no_inverse .inode).2 _ _ ?_ ?_).mpr ?_
  · intro num hmem
    cases hmem
  · exact ⟨trivial, fun _ _ => ⟨trivial, fun _ _ => trivial⟩⟩
  · simp

/-- On a blank data bitmap: block 131 is taken and not given back, and after
131 and 132 are allocated and 131 is released the next allocation returns 132,
which is still allocated. -/
theorem bitmap_release_takes_the_next_block :
    ¬BitmapKind.block.Restores (.booted 0) ∧
      ((run (AllocState.step .block) ⟨.booted 0, []⟩
          [.alloc, .alloc, .free 131]).map fun st =>
        (st.owned, (BitmapKind.block.alloc st.fs).toOption.map Prod.fst)) =
        some ([132], some 132) := by
  refine ⟨BitmapKind.block.not_restores ⟨0, by decide, rfl⟩, ?_⟩
  decide +kernel

end UnoOS.Fs
