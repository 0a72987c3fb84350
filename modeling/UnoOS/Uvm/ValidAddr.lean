import UnoOS.Lib.Trail
import UnoOS.Mem.Spaces
import UnoOS.Uvm.CopyExact
import UnoOS.Uvm.Proc

namespace UnoOS.Uvm

open UnoOS.Lib
open UnoOS.Kernel (ProcId)
open UnoOS.Mem

/-! `is_valid_addr`, the test of `sys_exec` for a word in user memory. -/

/-- The loop over the free regions: whether one holds the word and the byte behind it. -/
def inFreeRegion (addr : UInt64) : (steps : Nat) → Option MmapId → UvmM Bool
  | _, none => return false
  | 0, some _ => Exec.stop .loops
  | steps + 1, some node => do
      let region ← readRegion node
      if region.begin ≤ addr ∧ addr + 8 < region.end_ then
        return true
      else
        inFreeRegion addr steps region.next

def stackBegin (space : Space) : UInt64 := userStackBottom - 4096 * space.ustackPages

def isValidAddr (p : ProcId) (addr : UInt64) : UvmM Int := do
  let space ← readSpace p
  if userVmemStart ≤ addr ∧ addr + 8 < space.heapTop then
    return 1
  else
    let first ← deref space.mmap
    let region ← readRegion first
    if ← inFreeRegion addr nMmap region.next then
      return 0
    else if mmapBegin ≤ addr ∧ addr + 8 < mmapEnd then
      return 1
    else if stackBegin space ≤ addr ∧ addr + 8 < userStackBottom then
      return 1
    else
      return 0

/-! A list of regions that ends. -/

variable {regions : MmapId → MmapRegion}

def Linked (regions : MmapId → MmapRegion) : Option MmapId → List MmapId → Prop
  | id, [] => id = none
  | id, node :: rest => id = some node ∧ Linked regions (regions node).next rest

theorem linked_iff {id : Option MmapId} {l : List MmapId} :
    Linked regions id l ↔ Trail (fun node => (regions node).next) id l none := by
  induction l generalizing id with
  | nil => rfl
  | cons node rest ih => exact and_congr_right fun _ => ih

theorem Linked.nodup {id : Option MmapId} {l : List MmapId} (h : Linked regions id l) :
    l.Nodup :=
  (linked_iff.mp h).nodup

theorem Linked.length_le {id : Option MmapId} {l : List MmapId}
    (h : Linked regions id l) : l.length ≤ nMmap := by
  have hcard := (linked_iff.mp h).length_le
  rwa [Fintype.card_fin] at hcard

/-- The nine bytes that the tests look at lie in a region of the list. -/
def InOneRegion (regions : MmapId → MmapRegion) (free : List MmapId) (addr : UInt64) :
    Prop :=
  ∃ node ∈ free, (regions node).begin ≤ addr ∧ addr + 8 < (regions node).end_

instance (regions : MmapId → MmapRegion) (free : List MmapId) (addr : UInt64) :
    Decidable (InOneRegion regions free addr) :=
  inferInstanceAs (Decidable (∃ node ∈ free, _))

theorem inFreeRegion_eq_ok {st : UvmState} {id : Option MmapId} {free : List MmapId}
    {steps : Nat} {addr : UInt64} (h : Linked st.regions id free)
    (hsteps : free.length ≤ steps) :
    inFreeRegion addr steps id st = .ok (decide (InOneRegion st.regions free addr), st) := by
  induction free generalizing id steps with
  | nil =>
      cases h
      have hno : ¬ InOneRegion st.regions [] addr := by
        rintro ⟨_, hmem, _⟩
        cases hmem
      rw [decide_eq_false hno]
      cases steps with
      | zero => rfl
      | succ steps => rfl
  | cons node rest ih =>
      obtain ⟨rfl, hrest⟩ := h
      cases steps with
      | zero => cases hsteps
      | succ steps =>
          rw [inFreeRegion, readRegion_bind]
          by_cases hhere : (st.regions node).begin ≤ addr ∧
              addr + 8 < (st.regions node).end_
          · have hin : InOneRegion st.regions (node :: rest) addr :=
              ⟨node, List.mem_cons_self, hhere⟩
            rw [if_pos hhere, decide_eq_true hin]
            rfl
          · have hiff : InOneRegion st.regions (node :: rest) addr ↔
                InOneRegion st.regions rest addr := by
              unfold InOneRegion
              rw [List.exists_mem_cons_iff, or_iff_right hhere]
            rw [if_neg hhere, ih hrest (Nat.le_of_succ_le_succ hsteps),
              decide_eq_decide.mpr hiff]

/-! What the three areas of a process cover, byte by byte. -/

def HeapByte (space : Space) (b : Nat) : Prop :=
  userVmemStart.toNat ≤ b ∧ b / 4096 * 4096 < space.heapTop.toNat

def MmapByte (regions : MmapId → MmapRegion) (free : List MmapId) (b : Nat) : Prop :=
  mmapBegin.toNat ≤ b ∧ b < mmapEnd.toNat ∧
    ∀ node ∈ free, ¬ ((regions node).begin.toNat ≤ b ∧ b < (regions node).end_.toNat)

def StackByte (space : Space) (b : Nat) : Prop :=
  (stackBegin space).toNat ≤ b ∧ b < userStackBottom.toNat

def Covered (st : UvmState) (p : ProcId) (free : List MmapId) (b : Nat) : Prop :=
  HeapByte (st.procs p) b ∨ MmapByte st.regions free b ∨ StackByte (st.procs p) b

def WordCovered (st : UvmState) (p : ProcId) (free : List MmapId) (addr : UInt64) : Prop :=
  ∀ i, i < 8 → Covered st p free (addr.toNat + i)

/-- The memory of a process as `memlayout.h` lays it out: the mmap area is between heap
and stack, which has at most the 32 pages that are left for it. -/
structure LaidOut (st : UvmState) (p : ProcId) (free : List MmapId) : Prop where
  heapLow : userVmemStart ≤ (st.procs p).heapTop
  heapHigh : (st.procs p).heapTop ≤ mmapBegin
  stack : (st.procs p).ustackPages ≤ 32
  list : ∃ first, (st.procs p).mmap = some first ∧
    Linked st.regions (st.regions first).next free
  below : ∀ node ∈ free, (st.regions node).end_ ≤ mmapEnd

structure MapsCovered (st : UvmState) (p : ProcId) (free : List MmapId) : Prop where
  aligned : (st.procs p).pgtbl.toNat % 4096 = 0
  nonzero : (st.procs p).pgtbl ≠ 0
  mapped : ∀ b : UInt64, Covered st p free b.toNat →
    (Mem.translate st.mem.mem (st.procs p).pgtbl b).isSome

def KernelWord (st : UvmState) (p : ProcId) (dst : UInt64) : Prop :=
  ∀ j, j < 8 → ∀ t, IsTable st.mem.mem {(st.procs p).pgtbl} t →
    ¬ InPage t (dst.toNat + j)

/-- `is_valid_addr` accepts exactly the words that are covered, and the word it accepts
can be copied. -/
def ValidatesAddr (st : UvmState) (p : ProcId) (free : List MmapId) (addr : UInt64) :
    Prop :=
  ∃ result, isValidAddr p addr st = .ok (result, st) ∧
    (result = 1 ↔ WordCovered st p free addr) ∧
    (result = 1 → ∀ dst, KernelWord st p dst →
      ∃ mem, uvmCopyin (st.procs p).pgtbl dst addr 8 st.mem = .ok ((), mem))

/-- The byte behind the word tells as much as its last byte: a covered word does not end
where its area does, and a word that is not covered does not wrap, nor is it in the mmap
area without a free region that holds it with the byte behind it. -/
def NinthByteTells (st : UvmState) (p : ProcId) (free : List MmapId) (addr : UInt64) :
    Prop :=
  (WordCovered st p free addr →
    ¬ (HeapByte (st.procs p) addr.toNat ∧
      (st.procs p).heapTop.toNat ≤ addr.toNat + 8) ∧
    ¬ (addr < mmapEnd ∧ mmapEnd.toNat ≤ addr.toNat + 8) ∧
    ¬ (addr < userStackBottom ∧ userStackBottom.toNat ≤ addr.toNat + 8)) ∧
  (¬ WordCovered st p free addr →
    addr.toNat + 8 < 2 ^ 64 ∧
    (mmapBegin ≤ addr → addr.toNat + 8 < mmapEnd.toNat →
      InOneRegion st.regions free addr))

section

variable {st : UvmState} {p : ProcId} {free : List MmapId} {addr : UInt64}

/-! What the tests decide. -/

def Accepted (st : UvmState) (p : ProcId) (free : List MmapId) (addr : UInt64) : Prop :=
  (userVmemStart ≤ addr ∧ addr + 8 < (st.procs p).heapTop) ∨
    ¬ InOneRegion st.regions free addr ∧
      ((mmapBegin ≤ addr ∧ addr + 8 < mmapEnd) ∨
        (stackBegin (st.procs p) ≤ addr ∧ addr + 8 < userStackBottom))

theorem isValidAddr_eq_ok (h : LaidOut st p free) :
    ∃ result, isValidAddr p addr st = .ok (result, st) ∧
      (result = 1 ↔ Accepted st p free addr) := by
  obtain ⟨first, hfirst, hlinked⟩ := h.list
  unfold isValidAddr Accepted
  rw [readSpace_bind]
  by_cases hheap : userVmemStart ≤ addr ∧ addr + 8 < (st.procs p).heapTop
  · rw [if_pos hheap]
    exact ⟨1, rfl, iff_of_true rfl (.inl hheap)⟩
  · have hderef : deref (st.procs p).mmap st = .ok (first, st) := by
      rw [hfirst]
      rfl
    rw [if_neg hheap, Exec.bind_of_ok hderef, readRegion_bind,
      Exec.bind_of_ok (inFreeRegion_eq_ok hlinked hlinked.length_le)]
    by_cases hfree : InOneRegion st.regions free addr
    · rw [decide_eq_true hfree, if_pos rfl]
      refine ⟨0, rfl, iff_of_false (by decide) ?_⟩
      rintro (hin | ⟨hnot, _⟩)
      · exact hheap hin
      · exact hnot hfree
    · rw [decide_eq_false hfree, if_neg (by decide)]
      by_cases hmmap : mmapBegin ≤ addr ∧ addr + 8 < mmapEnd
      · rw [if_pos hmmap]
        exact ⟨1, rfl, iff_of_true rfl (.inr ⟨hfree, .inl hmmap⟩)⟩
      · rw [if_neg hmmap]
        by_cases hstack : stackBegin (st.procs p) ≤ addr ∧ addr + 8 < userStackBottom
        · rw [if_pos hstack]
          exact ⟨1, rfl, iff_of_true rfl (.inr ⟨hfree, .inr hstack⟩)⟩
        · rw [if_neg hstack]
          refine ⟨0, rfl, iff_of_false (by decide) ?_⟩
          rintro (hin | ⟨_, hin | hin⟩)
          · exact hheap hin
          · exact hmmap hin
          · exact hstack hin

theorem stackBegin_toNat (h : LaidOut st p free) :
    mmapEnd.toNat ≤ (stackBegin (st.procs p)).toNat := by
  have hstack := h.stack
  unfold stackBegin
  rw [UInt64.le_iff_toNat_le] at hstack
  change _ ≤ 32 at hstack
  have hmul : (4096 * (st.procs p).ustackPages).toNat =
      4096 * (st.procs p).ustackPages.toNat := by
    rw [UInt64.toNat_mul]
    exact Nat.mod_eq_of_lt (by change 4096 * _ < 2 ^ 64; omega)
  have hle : 4096 * (st.procs p).ustackPages ≤ userStackBottom := by
    rw [UInt64.le_iff_toNat_le, hmul]
    change _ ≤ 2 ^ 38 - 8192
    omega
  rw [UInt64.toNat_sub_of_le _ _ hle, hmul]
  change 2 ^ 38 - 8192 - 32 * 4096 ≤ 2 ^ 38 - 8192 - _
  omega

theorem mmapBegin_toNat : mmapBegin.toNat = 2 ^ 38 - 8192 - 8128 * 4096 := rfl

theorem mmapEnd_toNat : mmapEnd.toNat = 2 ^ 38 - 8192 - 32 * 4096 := rfl

theorem userStackBottom_toNat : userStackBottom.toNat = 2 ^ 38 - 8192 := rfl

theorem addr_add_eight (h : addr.toNat + 8 < 2 ^ 64) :
    (addr + 8).toNat = addr.toNat + 8 := by
  rw [UInt64.toNat_add]
  exact Nat.mod_eq_of_lt h

theorem addr_add_eight_wraps (h : ¬ addr.toNat + 8 < 2 ^ 64) :
    (addr + 8).toNat < 8 := by
  have haddr := addr.toNat_lt
  rw [UInt64.toNat_add]
  change (addr.toNat + 8) % 2 ^ 64 < 8
  omega

theorem Covered.lt (h : LaidOut st p free) {b : Nat} (hb : Covered st p free b) :
    b < 2 ^ 38 - 8192 := by
  have hhigh := h.heapHigh
  rw [UInt64.le_iff_toNat_le, mmapBegin_toNat] at hhigh
  rcases hb with ⟨_, hheap⟩ | ⟨_, hmmap, _⟩ | ⟨_, hstack⟩
  · omega
  · rw [mmapEnd_toNat] at hmmap
    omega
  · exact hstack

/-- A covered word that does not end with its area is accepted. -/
theorem accepted_of_covered (h : LaidOut st p free) (hword : WordCovered st p free addr) :
    Accepted st p free addr ↔
      ¬ (HeapByte (st.procs p) addr.toNat ∧
        (st.procs p).heapTop.toNat ≤ addr.toNat + 8) ∧
      ¬ (addr < mmapEnd ∧ mmapEnd.toNat ≤ addr.toNat + 8) ∧
      ¬ (addr < userStackBottom ∧ userStackBottom.toNat ≤ addr.toNat + 8) := by
  have hfirst : Covered st p free addr.toNat := hword 0 (by decide)
  have hlt := (hword 7 (by decide)).lt h
  have hsum : (addr + 8).toNat = addr.toNat + 8 := addr_add_eight (by omega)
  have hhigh := h.heapHigh
  have hstack := stackBegin_toNat h
  have hfree : InOneRegion st.regions free addr → ∃ node ∈ free,
      (st.regions node).begin.toNat ≤ addr.toNat ∧
        addr.toNat < (st.regions node).end_.toNat ∧ addr.toNat < mmapEnd.toNat := by
    rintro ⟨node, hnode, hbegin, hend⟩
    have hbelow := h.below node hnode
    rw [UInt64.le_iff_toNat_le] at hbegin hbelow
    rw [UInt64.lt_iff_toNat_lt, hsum] at hend
    exact ⟨node, hnode, hbegin, by omega, by omega⟩
  unfold Accepted
  simp only [UInt64.le_iff_toNat_le, UInt64.lt_iff_toNat_lt, hsum] at hhigh ⊢
  rw [mmapBegin_toNat] at hhigh ⊢
  rw [mmapEnd_toNat] at hstack hfree ⊢
  rw [userStackBottom_toNat]
  constructor
  · intro haccepted
    refine ⟨?_, ?_, ?_⟩
    · rintro ⟨⟨_, hheap⟩, hend⟩
      omega
    · omega
    · omega
  · rintro ⟨hheap, hmmap, hbottom⟩
    rcases hfirst with hin | ⟨hbegin, hend, hout⟩ | ⟨hbegin, hend⟩
    · have hlow := hin.1
      exact .inl ⟨hlow, by_contra fun hnot => hheap ⟨hin, by omega⟩⟩
    · rw [mmapBegin_toNat] at hbegin
      rw [mmapEnd_toNat] at hend
      refine .inr ⟨?_, .inl ⟨hbegin, by omega⟩⟩
      intro hone
      obtain ⟨node, hnode, hlow, hhere, _⟩ := hfree hone
      exact hout node hnode ⟨hlow, hhere⟩
    · rw [userStackBottom_toNat] at hend
      refine .inr ⟨?_, .inr ⟨hbegin, by omega⟩⟩
      intro hone
      obtain ⟨_, _, _, _, hlast⟩ := hfree hone
      omega

/-- A word that is not covered is refused unless it wraps or touches a free region. -/
theorem refused_of_not_covered (h : LaidOut st p free)
    (hword : ¬ WordCovered st p free addr) :
    ¬ Accepted st p free addr ↔
      addr.toNat + 8 < 2 ^ 64 ∧
      (mmapBegin ≤ addr → addr.toNat + 8 < mmapEnd.toNat →
        InOneRegion st.regions free addr) := by
  constructor
  · intro hrefused
    have hnowrap : addr.toNat + 8 < 2 ^ 64 := by
      by_contra hwrap
      have hsmall := addr_add_eight_wraps hwrap
      have hlow := h.heapLow
      rw [UInt64.le_iff_toNat_le] at hlow
      change 4096 ≤ _ at hlow
      refine hrefused (.inl ⟨?_, ?_⟩)
      · rw [UInt64.le_iff_toNat_le]
        change 4096 ≤ _
        omega
      · rw [UInt64.lt_iff_toNat_lt]
        omega
    refine ⟨hnowrap, fun hbegin hend => ?_⟩
    by_contra hnone
    refine hrefused (.inr ⟨hnone, .inl ⟨hbegin, ?_⟩⟩)
    rw [UInt64.lt_iff_toNat_lt, addr_add_eight hnowrap]
    exact hend
  · rintro ⟨hnowrap, hfree⟩ haccepted
    have hsum := addr_add_eight hnowrap
    rcases haccepted with ⟨hlow, hend⟩ | ⟨hnone, ⟨hbegin, hend⟩ | ⟨hbegin, hend⟩⟩
    · rw [UInt64.le_iff_toNat_le] at hlow
      rw [UInt64.lt_iff_toNat_lt, hsum] at hend
      exact hword fun i hi => .inl ⟨by omega, by omega⟩
    · rw [UInt64.lt_iff_toNat_lt, hsum] at hend
      exact hnone (hfree hbegin hend)
    · rw [UInt64.le_iff_toNat_le] at hbegin
      rw [UInt64.lt_iff_toNat_lt, hsum] at hend
      exact hword fun i hi => .inr (.inr ⟨by omega, by omega⟩)

theorem accepted_iff_covered (h : LaidOut st p free) :
    (Accepted st p free addr ↔ WordCovered st p free addr) ↔
      NinthByteTells st p free addr := by
  unfold NinthByteTells
  by_cases hword : WordCovered st p free addr
  · rw [← accepted_of_covered h hword]
    simp only [hword, iff_true, true_implies, not_true_eq_false, false_implies, and_true]
  · rw [← refused_of_not_covered h hword]
    simp only [hword, iff_false, false_implies, not_false_eq_true, true_implies, true_and]

/-! A word that is mapped can be copied. -/

theorem page_mapped {m : Memory} {pgtbl va x : UInt64} (hx : x < vaMax) (hva : va ≤ vaMax)
    (hpage : x.toNat / 4096 = va.toNat / 4096) (h : (Mem.translate m pgtbl x).isSome) :
    ∃ pte, Mem.translate m pgtbl va = some pte := by
  rw [translate_same_page hx hva hpage] at h
  exact Option.isSome_iff_exists.mp h

theorem copyin_word {s : MemState} {pgtbl dst : UInt64}
    (hrange : UserRange s.mem pgtbl addr 8)
    (hword : ∀ j, j < 8 → ∀ t, IsTable s.mem {pgtbl} t → ¬ InPage t (dst.toNat + j)) :
    ∃ mem, uvmCopyin pgtbl dst addr 8 s = .ok ((), mem) := by
  have hlen : (8 : UInt32).toNat = 8 := rfl
  have hmax := hrange.room.1 (by decide)
  rw [hlen] at hmax
  have hfirst := hrange.mapped 0 (by decide)
  have hlast := hrange.mapped 7 (by decide)
  have hlastAddr := hrange.addr_toNat (i := 7) (by decide)
  have hpage := AtPage.start hrange.room.2
  have hdown := pgrounddown_toNat addr
  have hdownMax : pgrounddown addr ≤ vaMax := by
    rw [UInt64.le_iff_toNat_le, vaMax_toNat]
    omega
  obtain ⟨pte, hpte⟩ : ∃ pte, Mem.translate s.mem pgtbl (pgrounddown addr) = some pte :=
    page_mapped (x := addr) (UInt64.lt_iff_toNat_lt.mpr (by rw [vaMax_toNat]; omega))
      hdownMax (by omega) (by simpa using hfirst.2)
  have hturns := hpage.turns
  rw [hlen] at hturns
  rw [uvmCopyin_eq]
  suffices hruns : ∃ n mem, copyinWrites pgtbl dst addr 8 s = .ok (n, mem) by
    obtain ⟨n, mem, hrun⟩ := hruns
    exact ⟨mem, Exec.bind_of_ok hrun⟩
  unfold copyinWrites
  generalize pagesMeeting addr 8 = turns at hpage hturns ⊢
  obtain _ | _ | turns := turns
  · omega
  · exact ⟨_, _, eachPage_succ_eq_ok.mpr ⟨⟨hdownMax, hrange.nonzero⟩, pte, hpte, rfl⟩⟩
  · have hzero : turns = 0 := by omega
    subst hzero
    have hnext : (pgrounddown addr + pgsize).toNat = (pgrounddown addr).toNat + 4096 :=
      add_pgsize_toNat (by omega)
    have hnextMax : pgrounddown addr + pgsize ≤ vaMax := by
      rw [UInt64.le_iff_toNat_le, vaMax_toNat]
      omega
    obtain ⟨pte', hpte'⟩ : ∃ pte,
        Mem.translate s.mem pgtbl (pgrounddown addr + pgsize) = some pte :=
      page_mapped (x := addr + UInt64.ofNat 7)
        (UInt64.lt_iff_toNat_lt.mpr (by rw [vaMax_toNat]; omega)) hnextMax (by omega) hlast.2
    -- the first turn fills a part of the word, which is in no table
    have htables : ∀ n, n ≤ 8 → ∀ src va,
        Mem.translate (loadBytes dst src n 0 s.mem) pgtbl va =
          Mem.translate s.mem pgtbl va := by
      intro n hn src va
      refine translate_of_samePages (Set.mem_singleton pgtbl) ?_ va
      intro t ht x hx
      unfold loadBytes
      refine Memory.memcpy_of_not_mem ?_
      rw [show dst + UInt64.ofNat 0 = dst from UInt64.add_zero dst]
      by_contra hin
      refine hword (x - dst.toNat) (by omega) t ht ?_
      rw [Nat.add_sub_cancel' (by omega)]
      exact hx
    have hchunk : (pageChunk addr 8 (pgrounddown addr) (pteToPa pte)).2 ≤ 8 := by
      unfold pageChunk
      rw [if_pos (UInt64.le_iff_toNat_le.mpr (by omega))]
      exact Nat.min_le_right _ _
    refine ⟨_, _, eachPage_succ_eq_ok.mpr ⟨⟨hdownMax, hrange.nonzero⟩, pte, hpte,
      eachPage_succ_eq_ok.mpr ⟨⟨hnextMax, hrange.nonzero⟩, pte', ?_, rfl⟩⟩⟩
    rw [MemState.mem_setMem, htables _ hchunk]
    exact hpte'

theorem covered_range (h : LaidOut st p free) (hmaps : MapsCovered st p free)
    (hword : WordCovered st p free addr) :
    UserRange st.mem.mem (st.procs p).pgtbl addr 8 := by
  refine ⟨hmaps.aligned, hmaps.nonzero, ?_⟩
  intro i hi
  have hcovered := hword i hi
  have hlt := hcovered.lt h
  change i < 8 at hi
  have haddr : (addr + UInt64.ofNat i).toNat = addr.toNat + i := by
    rw [UInt64.toNat_add, UInt64.toNat_ofNat_of_lt' (show i < 2 ^ 64 by omega)]
    exact Nat.mod_eq_of_lt (by omega)
  refine ⟨?_, hmaps.mapped _ ?_⟩
  · rw [vaMax_toNat]
    omega
  · rw [haddr]
    exact hcovered

theorem ValidatesAddr.accepted_iff (h : LaidOut st p free)
    (hvalid : ValidatesAddr st p free addr) :
    Accepted st p free addr ↔ WordCovered st p free addr := by
  obtain ⟨result, hrun, hresult⟩ := @isValidAddr_eq_ok st p free addr h
  obtain ⟨result', hrun', hright, _⟩ := hvalid
  cases hrun.symm.trans hrun'
  rw [← hresult]
  exact hright

/-- `is_valid_addr` is right about a word exactly if the byte behind it tells as much as
the last byte of the word. -/
theorem valid_addr_iff (h : LaidOut st p free) (hmaps : MapsCovered st p free) :
    ValidatesAddr st p free addr ↔ NinthByteTells st p free addr := by
  rw [← accepted_iff_covered h]
  constructor
  · exact ValidatesAddr.accepted_iff h
  · intro hright
    obtain ⟨result, hrun, hresult⟩ := @isValidAddr_eq_ok st p free addr h
    refine ⟨result, hrun, hresult.trans hright, ?_⟩
    intro haccepted dst hdst
    have hword := hright.mp (hresult.mp haccepted)
    exact copyin_word (covered_range h hmaps hword) hdst

end

/-! A process with a page of heap and one of stack that has mapped the last page of the
mmap area. -/

def lastPageMapped : UvmState where
  mem := {
    mem := setEntry (setEntry (setEntry (setEntry (setEntry (setEntry (setEntry (fun _ => 0)
      0x1000 0 (paToPte 0x2000 ||| pteV)) 0x1000 255 (paToPte 0x3000 ||| pteV))
      0x2000 0 (paToPte 0x4000 ||| pteV)) 0x3000 511 (paToPte 0x5000 ||| pteV))
      0x4000 1 (paToPte 0x6000 ||| pteV ||| pteR ||| pteW ||| pteU))
      0x5000 477 (paToPte 0x7000 ||| pteV ||| pteR ||| pteW ||| pteU))
      0x5000 509 (paToPte 0x8000 ||| pteV ||| pteR ||| pteW ||| pteU)
    kernRegion := { begin := 0x1000, end_ := 0x6000, allocable := 0, next := 0 }
    userRegion := { begin := 0x6000, end_ := 0x9000, allocable := 0, next := 0 }
    kernelPgtbl := 0x1000
    freed := [] }
  regions := fun id =>
    { begin := mmapBegin, npages := if id = 2 then 8095 else 0,
      next := if id = 1 then some 2 else none, link := none }
  procs := fun _ => { Space.free with
    state := .running, pgtbl := 0x1000, heapTop := 0x2000, ustackPages := 1, mmap := some 1 }
  trampolinePage := 0x9000

theorem lastPageMapped_laidOut : LaidOut lastPageMapped 0 [2] :=
  ⟨by decide, by decide, by decide, ⟨1, rfl, rfl, rfl⟩, by decide +kernel⟩

theorem lastPageMapped_covered {b : Nat} (h : Covered lastPageMapped 0 [2] b) :
    b / 4096 ∈ [1, (mmapEnd - 1).toNat / 4096, (userStackBottom - 1).toNat / 4096] := by
  rcases h with ⟨hlow, hheap⟩ | ⟨hlow, hhigh, hfree⟩ | ⟨hlow, hhigh⟩
  · change 4096 ≤ b at hlow
    change b / 4096 * 4096 < 0x2000 at hheap
    exact List.mem_cons.mpr (.inl (by omega))
  · rw [mmapBegin_toNat] at hlow
    rw [mmapEnd_toNat] at hhigh
    have hnot := hfree 2 List.mem_cons_self
    change ¬ (2 ^ 38 - 8192 - 8128 * 4096 ≤ b ∧ b < 2 ^ 38 - 8192 - 33 * 4096) at hnot
    refine List.mem_cons_of_mem _ (List.mem_cons.mpr (.inl ?_))
    change b / 4096 = (2 ^ 38 - 8192 - 32 * 4096 - 1) / 4096
    omega
  · change 2 ^ 38 - 8192 - 4096 ≤ b at hlow
    rw [userStackBottom_toNat] at hhigh
    refine List.mem_cons_of_mem _ (List.mem_cons_of_mem _ (List.mem_singleton.mpr ?_))
    change b / 4096 = (2 ^ 38 - 8192 - 1) / 4096
    omega

theorem lastPageMapped_maps : MapsCovered lastPageMapped 0 [2] := by
  refine ⟨by decide, by decide, ?_⟩
  intro b hb
  have hlt := hb.lt lastPageMapped_laidOut
  have hmax : b < vaMax := by
    rw [UInt64.lt_iff_toNat_lt, vaMax_toNat]
    omega
  have hpage := lastPageMapped_covered hb
  rw [List.mem_cons, List.mem_cons, List.mem_singleton] at hpage
  rcases hpage with hpage | hpage | hpage
  · rw [translate_same_page hmax (show (0x1000 : UInt64) ≤ vaMax by decide) hpage]
    decide +kernel
  · rw [translate_same_page hmax (show (mmapEnd - 1 : UInt64) ≤ vaMax by decide) hpage]
    decide +kernel
  · rw [translate_same_page hmax (show (userStackBottom - 1 : UInt64) ≤ vaMax by decide) hpage]
    decide +kernel

theorem valid_addr_iff_heap :
    ValidatesAddr lastPageMapped 0 [2] 0x1ff0 ↔ NinthByteTells lastPageMapped 0 [2] 0x1ff0 :=
  valid_addr_iff lastPageMapped_laidOut lastPageMapped_maps

/-- The last word of a free region is accepted. -/
theorem valid_addr_accepts_free : LaidOut lastPageMapped 0 [2] ∧
    MapsCovered lastPageMapped 0 [2] ∧
    ¬ ValidatesAddr lastPageMapped 0 [2] (mmapEnd - pgsize - 8) := by
  refine ⟨lastPageMapped_laidOut, lastPageMapped_maps, ?_⟩
  intro hvalid
  have haccepted : Accepted lastPageMapped 0 [2] (mmapEnd - pgsize - 8) :=
    .inr ⟨by decide +kernel, .inl (by decide)⟩
  have hword := (hvalid.accepted_iff lastPageMapped_laidOut).mp haccepted
  have hpage := lastPageMapped_covered (hword 0 (by decide))
  exact absurd hpage (by decide +kernel)

end UnoOS.Uvm
