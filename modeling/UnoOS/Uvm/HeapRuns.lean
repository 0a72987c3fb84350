import UnoOS.Uvm.FaultRuns

namespace UnoOS.Uvm

open UnoOS.Lib
open UnoOS.Lib.Exec (Returns)
open UnoOS.Fs (Stop)
open UnoOS.Kernel (ProcId)
open UnoOS.Mem

/-! When `sys_brk` moves the end of the heap as it is told, among page faults. -/

variable {s s' : MemState} {roots : Set UInt64} {lk lu : List UInt64}
  {tfs : Set UInt64} {root va flags : UInt64} {reason : Stop} {turns : Nat} {value : Unit}

theorem userByte_none_iff {m : Memory} :
    userByte m root va = none ↔ userFrame m root va = none :=
  Option.map_eq_none_iff

theorem userByte_none_of_translate {m : Memory} (h : Mem.translate m root va = none) :
    userByte m root va = none := by
  unfold userByte userFrame
  rw [h]
  rfl

theorem userByte_none_congr {m : Memory} {x : UInt64} (hx : x < vaMax) (hva : va < vaMax)
    (hpage : x.toNat / 4096 = va.toNat / 4096) (h : userByte m root va = none) :
    userByte m root x = none := by
  rw [userByte_none_iff] at h ⊢
  rwa [userFrame_same_page hx hva hpage]

/-! Growing. -/

theorem heapGrowLoop_free (h : Spaces s roots lk lu tfs ∅) (hroot : root ∈ roots)
    (hflags : (flags ||| pteU).toNat < 1024)
    (hrun : heapGrowLoop root flags turns va s = .ok (value, s')) {x : UInt64}
    (hx : x < vaMax) (hin : InTurns va turns x) : userByte s.mem root x = none := by
  induction turns generalizing s va lk lu with
  | zero => exact absurd hin (inTurns_zero va x)
  | succ turns ih =>
      have hturn := heapGrowLoop_succ h hroot hflags hrun
      rw [heapGrowLoop, Exec.bind_eq_ok] at hrun
      obtain ⟨page, s₀, halloc, hrun⟩ := hrun
      rw [massert_bind_eq_ok, Exec.bind_eq_ok] at hrun
      obtain ⟨_, _, s₂, hmap, _⟩ := hrun
      have hnone := userByte_none_of_translate (unmapped_of_mapFresh h hroot halloc hmap)
      obtain ⟨s₁, hbuilds, _, hbelow, hbytes, hrest⟩ := hturn
      obtain ⟨lk₁, lu₁, h₁⟩ := hbuilds.spaces
      have hlt := UInt64.lt_iff_toNat_lt.mp hbelow
      rw [trapframe_toNat] at hlt
      rw [inTurns_succ turns x (by omega)] at hin
      by_cases hpage : x.toNat / 4096 = va.toNat / 4096
      · exact userByte_none_congr hx (lt_vaMax_of_lt hbelow) hpage hnone
      · have hlater := ih h₁ hrest (hin.resolve_left hpage)
        rwa [hbytes x hx, if_neg hpage] at hlater

theorem heapGrowLoop_stops_of_free (h : Spaces s roots lk lu tfs ∅) (hroot : root ∈ roots)
    (hflags : (flags ||| pteU).toNat < 1024) (hva : va.toNat % 4096 = 0)
    (hroom : va.toNat + turns * 4096 ≤ trapframe.toNat)
    (hfree : ∀ x, x < vaMax → InTurns va turns x → userByte s.mem root x = none)
    (hrun : heapGrowLoop root flags turns va s = .error reason) : OutOfMemory reason := by
  induction turns generalizing s va lk lu with
  | zero => cases hrun
  | succ turns ih =>
      have hroom' := hroom
      rw [trapframe_toNat] at hroom'
      have hbelow : va < trapframe := by
        rw [UInt64.lt_iff_toNat_lt, trapframe_toNat]
        omega
      have hsucc : ∀ x, InTurns va (turns + 1) x ↔ x.toNat / 4096 = va.toNat / 4096 ∨
          InTurns (va + pgsize) turns x := fun x => inTurns_succ turns x (by omega)
      rw [heapGrowLoop] at hrun
      rcases Exec.bind_eq_error.mp hrun with halloc | ⟨page, s₀, halloc, hrun⟩
      · exact pmemAlloc_stops false s reason halloc
      have hpage : page ≠ 0 := by
        obtain ⟨_, hne, hpage, _⟩ := pmemAlloc_eq_ok.mp halloc
        exact hpage ▸ hne
      unfold massert at hrun
      rw [Exec.require_of_true hpage, pure_bind] at hrun
      rcases Exec.bind_eq_error.mp hrun with hmap | ⟨_, s₂, hmap, hrun⟩
      · refine mapFresh_stops h hroot hva hbelow (hfree va (lt_vaMax_of_lt hbelow) ?_) halloc hmap
        exact (hsucc va).mpr (.inl rfl)
      · rw [updateMem_bind] at hrun
        obtain ⟨hbuilds, _, _, hbytes⟩ := heapGrow_page h hroot hflags halloc hmap
        obtain ⟨lk₁, lu₁, h₁⟩ := hbuilds.spaces
        have hnext : (va + pgsize).toNat = va.toNat + 4096 := add_pgsize_toNat (by omega)
        refine ih h₁ (by omega) (by omega) ?_ hrun
        intro x hx hin
        have hpage : x.toNat / 4096 ≠ va.toNat / 4096 := by
          unfold InTurns at hin
          omega
        have hold := hfree x hx ((hsucc x).mpr (.inr hin))
        exact (hbytes x hx).trans ((if_neg hpage).trans hold)

/-! Shrinking. -/

theorem pteFlags_ne_pteV {pte : UInt64} (huser : pte &&& pteU ≠ 0) : pteFlags pte ≠ pteV := by
  intro heq
  apply huser
  rw [← pteFlags_and (by decide), heq]
  decide

theorem unmapLoop_total {pages : Nat} (h : Spaces s roots lk lu tfs ∅) (hroot : root ∈ roots)
    (hapart : RegionsApart s) (hkernel : root ≠ s.kernelPgtbl)
    (hrange : va.toNat + pages * 4096 ≤ trapframe.toNat)
    (hmapped : ∀ x, x < vaMax → InTurns va pages x → (userByte s.mem root x).isSome) :
    ∃ s', vmUnmappagesLoop root true pages va s = .ok ((), s') := by
  induction pages generalizing s va lu with
  | zero => exact ⟨s, rfl⟩
  | succ pages ih =>
      have hroom := hrange
      rw [trapframe_toNat] at hroom
      have hbelow : va < trapframe := by
        rw [UInt64.lt_iff_toNat_lt, trapframe_toNat]
        omega
      have hmax := lt_vaMax_of_lt hbelow
      have hsucc : ∀ x, InTurns va (pages + 1) x ↔ x.toNat / 4096 = va.toNat / 4096 ∨
          InTurns (va + pgsize) pages x := fun x => inTurns_succ pages x (by omega)
      have hpage := hmapped va hmax ((hsucc va).mpr (.inl rfl))
      unfold userByte at hpage
      rw [Option.isSome_map] at hpage
      obtain ⟨f, hf⟩ := Option.isSome_iff_exists.mp hpage
      obtain ⟨t, hleaf, hvalid, huser, rfl⟩ := leaf_of_userFrame hf
      have hin := h.frames.userFrame_in hroot hmax hf
      have hgetpte : vmGetpte root va false s = .ok (some (entryAddr t (vpn va 0)), s) := by
        refine vmGetpte_reads_eq_ok.mpr
          ⟨⟨UInt64.le_of_lt hmax, h.frames.tables.nonzero root hroot⟩, rfl, ?_⟩
        rw [hleaf]
        rfl
      obtain ⟨s₁, hfree⟩ : ∃ s₁, pmemFree (pteToPa (entry s.mem t (vpn va 0))) false s =
          .ok ((), s₁) := ⟨_, pmemFree_eq_ok.mpr ⟨hin, rfl⟩⟩
      have hframe : freeFrame true (pteToPa (entry s.mem t (vpn va 0))) root s =
          .ok ((), s₁) := by
        rw [freeFrame_eq_ok, if_pos rfl, decide_eq_false hkernel]
        exact hfree
      obtain ⟨lu₁, h₁, hunmaps⟩ := h.unmap_page hroot hbelow hleaf hvalid hfree
      have hapart₁ : RegionsApart (s₁.setMem (setEntry s₁.mem t (vpn va 0) 0)) :=
        RegionsApart.congr (hapart.free hfree) rfl rfl fun _ => Iff.rfl
      have hkernel₁ : s₁.kernelPgtbl = s.kernelPgtbl :=
        steady_kernelPgtbl.free _ _ _ _ _ hfree
      have hnext : (va + pgsize).toNat = va.toNat + 4096 := add_pgsize_toNat (by omega)
      obtain ⟨s', hrest⟩ : ∃ s', vmUnmappagesLoop root true pages (va + pgsize)
          (s₁.setMem (setEntry s₁.mem t (vpn va 0) 0)) = .ok ((), s') := by
        refine ih h₁ hapart₁ (by rwa [MemState.kernelPgtbl_setMem, hkernel₁]) (by omega) ?_
        intro x hx hin
        have hother : x.toNat / 4096 ≠ va.toNat / 4096 := by
          unfold InTurns at hin
          omega
        rw [hunmaps.bytes x hx hother]
        exact hmapped x hx ((hsucc x).mpr (.inr hin))
      refine ⟨s', ?_⟩
      rw [vmUnmappagesLoop, Exec.bind_of_ok hgetpte]
      dsimp only
      rw [readMem_bind, massert_bind_eq_ok, massert_bind_eq_ok]
      exact ⟨hvalid, pteFlags_ne_pteV huser, (Exec.bind_of_ok hframe).trans hrest⟩

theorem unmapPage_total (h : Spaces s roots lk lu tfs ∅) (hroot : root ∈ roots)
    (hapart : RegionsApart s) (hkernel : root ≠ s.kernelPgtbl) (hva : va.toNat % 4096 = 0)
    (hbelow : va.toNat + 4096 ≤ trapframe.toNat)
    (hmapped : (userByte s.mem root va).isSome) :
    ∃ s', vmUnmappages root va pgsize true s = .ok ((), s') := by
  have hroom := hbelow
  rw [trapframe_toNat] at hroom
  have hmax : va < vaMax := by
    rw [UInt64.lt_iff_toNat_lt, vaMax_toNat]
    omega
  have haligned : va % pgsize = 0 := (aligned_iff va).mpr hva
  have hcount : pageCount va pgsize = 1 := by
    refine pageCount_spec haligned (by decide) ?_
    change va.toNat + 4096 < 2 ^ 64
    omega
  have hlast : va + pgsize - 1 < vaMax := by
    have hsum : (va + pgsize).toNat = va.toNat + 4096 := add_pgsize_toNat (by omega)
    have hle : (1 : UInt64) ≤ va + pgsize := by
      rw [UInt64.le_iff_toNat_le, hsum]
      change 1 ≤ va.toNat + 4096
      omega
    rw [UInt64.lt_iff_toNat_lt, UInt64.toNat_sub_of_le _ _ hle, hsum, vaMax_toNat]
    change va.toNat + 4096 - 1 < 2 ^ 38
    omega
  have hall : ∀ x, x < vaMax → InTurns va 1 x → (userByte s.mem root x).isSome := by
    intro x hx hin
    have hpage : va.toNat / 4096 = x.toNat / 4096 := by
      unfold InTurns at hin
      omega
    by_contra hnone
    rw [Option.not_isSome_iff_eq_none] at hnone
    rw [userByte_none_congr hmax hx hpage hnone] at hmapped
    cases hmapped
  obtain ⟨s', hloop⟩ := unmapLoop_total h hroot hapart hkernel (by omega) hall
  refine ⟨s', ?_⟩
  unfold vmUnmappages
  rw [hcount, massert_bind_eq_ok, massert_bind_eq_ok, massert_bind_eq_ok]
  exact ⟨haligned, by decide, hlast, hloop⟩

theorem unmapPage_spec (h : Spaces s roots lk lu tfs ∅) (hroot : root ∈ roots)
    (hapart : RegionsApart s) (hbelow : va.toNat + 4096 ≤ trapframe.toNat)
    (hrun : vmUnmappages root va pgsize true s = .ok (value, s')) :
    (∃ lu', Spaces s' roots lk lu' tfs ∅) ∧ RegionsApart s' ∧
      ∀ x, x < vaMax → x.toNat / 4096 ≠ va.toNat / 4096 →
        userByte s'.mem root x = userByte s.mem root x := by
  obtain ⟨haligned, hlen, _, hloop⟩ := vmUnmappages_eq_ok hrun
  have hwrap : va.toNat + pgsize.toNat < 2 ^ 64 := by
    rw [trapframe_toNat] at hbelow
    change va.toNat + 4096 < 2 ^ 64
    omega
  rw [pageCount_spec haligned hlen hwrap] at hloop
  obtain ⟨lu', h', hapart', hunmaps⟩ := h.unmap_loop hroot hapart hbelow hloop
  refine ⟨⟨lu', h'⟩, hapart', ?_⟩
  intro x hx hpage
  apply hunmaps.bytes x hx
  change ¬ (va.toNat / 4096 ≤ x.toNat / 4096 ∧ x.toNat / 4096 < va.toNat / 4096 + 1)
  omega

section

variable {ptr : UInt64}

theorem ptr_sub_pgsize (h : 4096 ≤ ptr.toNat) : (ptr - pgsize).toNat + 4096 = ptr.toNat := by
  have hle : pgsize ≤ ptr := by
    rw [UInt64.le_iff_toNat_le]
    exact h
  rw [UInt64.toNat_sub_of_le _ _ hle]
  exact Nat.sub_add_cancel h

theorem heapUngrowLoop_below {low : Nat} (h : Spaces s roots lk lu tfs ∅)
    (hroot : root ∈ roots) (hapart : RegionsApart s) (haligned : ptr.toNat % 4096 = 0)
    (hlow : ptr.toNat = low + turns * 4096) (hptr : ptr.toNat ≤ trapframe.toNat)
    (hrun : heapUngrowLoop root turns ptr s = .ok (value, s')) {x : UInt64}
    (hx : x.toNat < low) : userByte s'.mem root x = userByte s.mem root x := by
  induction turns generalizing s ptr lu with
  | zero =>
      cases hrun
      rfl
  | succ turns ih =>
      have hprev := @ptr_sub_pgsize ptr (by omega)
      rw [heapUngrowLoop] at hrun
      generalize ptr - pgsize = prev at hprev hrun
      obtain ⟨_, s₁, hunmap, hrest⟩ := Exec.bind_eq_ok.mp hrun
      have hbelow : prev.toNat + 4096 ≤ trapframe.toNat := hprev ▸ hptr
      obtain ⟨⟨lu₁, h₁⟩, hapart₁, hbytes⟩ := unmapPage_spec h hroot hapart hbelow hunmap
      have hmax : x < vaMax := by
        rw [trapframe_toNat] at hptr
        rw [UInt64.lt_iff_toNat_lt, vaMax_toNat]
        omega
      rw [ih h₁ hapart₁ (by omega) (by omega) (by omega) hrest]
      exact hbytes x hmax (by omega)

theorem heapUngrowLoop_total {low : Nat} (h : Spaces s roots lk lu tfs ∅)
    (hroot : root ∈ roots) (hapart : RegionsApart s) (hkernel : root ≠ s.kernelPgtbl)
    (haligned : ptr.toNat % 4096 = 0) (hlow : ptr.toNat = low + turns * 4096)
    (hptr : ptr.toNat ≤ trapframe.toNat)
    (hmapped : ∀ x, x.toNat % 4096 = 0 → low ≤ x.toNat → x.toNat < ptr.toNat →
      (userByte s.mem root x).isSome) :
    ∃ s', heapUngrowLoop root turns ptr s = .ok ((), s') := by
  induction turns generalizing s ptr lu with
  | zero => exact ⟨s, rfl⟩
  | succ turns ih =>
      have hprev := @ptr_sub_pgsize ptr (by omega)
      rw [heapUngrowLoop]
      generalize ptr - pgsize = prev at hprev ⊢
      have hbelow : prev.toNat + 4096 ≤ trapframe.toNat := hprev ▸ hptr
      have hpage := hmapped prev (by omega) (by omega) (by omega)
      obtain ⟨s₁, hunmap⟩ :=
        unmapPage_total h hroot hapart hkernel (by omega) hbelow hpage
      obtain ⟨⟨lu₁, h₁⟩, hapart₁, hbytes⟩ := unmapPage_spec h hroot hapart hbelow hunmap
      have hkernel₁ : s₁.kernelPgtbl = s.kernelPgtbl :=
        steady_kernelPgtbl.vmUnmappages _ _ _ _ _ _ _ hunmap
      have hmapped₁ : ∀ x, x.toNat % 4096 = 0 → low ≤ x.toNat → x.toNat < prev.toNat →
          (userByte s₁.mem root x).isSome := by
        intro x hx hfrom hto
        have hmax : x < vaMax := by
          rw [trapframe_toNat] at hptr
          rw [UInt64.lt_iff_toNat_lt, vaMax_toNat]
          omega
        rw [hbytes x hmax (by omega)]
        exact hmapped x hx hfrom (by omega)
      obtain ⟨s', hrest⟩ := ih h₁ hapart₁ (hkernel₁ ▸ hkernel) (by omega) (by omega) (by omega)
        hmapped₁
      exact ⟨s', (Exec.bind_of_ok hunmap).trans hrest⟩

end

/-! `sys_brk`, as a call on one table. -/

def brkCall (pgtbl heapTop newHeapTop : UInt64) : MemM UInt64 :=
  if heapTop < newHeapTop then
    uvmHeapGrow pgtbl heapTop (newHeapTop - heapTop).toUInt32 (pteW ||| pteR ||| pteU)
  else
    uvmHeapUngrow pgtbl heapTop (heapTop - newHeapTop).toUInt32

def HeapUpTo (m : Memory) (root heapTop : UInt64) : Prop :=
  ∀ x, userVmemStart ≤ x → x < heapTop → (userByte m root x).isSome

def Movable (m : Memory) (root heapTop newHeapTop : UInt64) : Prop :=
  if heapTop < newHeapTop then
    heapTop.toNat % 4096 = 0 ∧ newHeapTop.toNat - heapTop.toNat < 2 ^ 32 ∧
      ∀ x, heapTop ≤ x → x < newHeapTop → userByte m root x = none
  else
    heapTop.toNat - newHeapTop.toNat < 2 ^ 32

variable {heapTop newHeapTop top : UInt64}

theorem toUInt32_toNat_eq {a : UInt64} : a.toUInt32.toNat = a.toNat ↔ a.toNat < 2 ^ 32 := by
  rw [UInt64.toNat_toUInt32]
  constructor
  · intro heq
    rw [← heq]
    exact Nat.mod_lt _ (by decide)
  · exact Nat.mod_eq_of_lt

theorem ungrow_sizes (hle : newHeapTop ≤ heapTop) :
    (heapTop - newHeapTop).toNat = heapTop.toNat - newHeapTop.toNat ∧
    (heapTop - newHeapTop).toUInt32.toNat ≤ heapTop.toNat - newHeapTop.toNat ∧
    (heapTop - (heapTop - newHeapTop).toUInt32.toUInt64).toNat =
      heapTop.toNat - (heapTop - newHeapTop).toUInt32.toNat := by
  have hsub : (heapTop - newHeapTop).toNat = heapTop.toNat - newHeapTop.toNat :=
    UInt64.toNat_sub_of_le _ _ hle
  have hlen := toUInt32_toNat_le (heapTop - newHeapTop)
  rw [hsub] at hlen
  refine ⟨hsub, hlen, ?_⟩
  have hback : (heapTop - newHeapTop).toUInt32.toUInt64 ≤ heapTop := by
    rw [UInt64.le_iff_toNat_le, UInt32.toNat_toUInt64]
    omega
  rw [UInt64.toNat_sub_of_le _ _ hback, UInt32.toNat_toUInt64]

theorem ungrow_turns {low high : UInt64} (hle : low.toNat ≤ high.toNat)
    (hhigh : high.toNat ≤ trapframe.toNat) :
    (pgroundup high).toNat % 4096 = 0 ∧ (pgroundup high).toNat ≤ trapframe.toNat ∧
    low.toNat ≤ (pgroundup low).toNat ∧ (pgroundup high).toNat < high.toNat + 4096 ∧
    (pgroundup high).toNat = (pgroundup low).toNat +
      ((pgroundup high).toNat - (pgroundup low).toNat) / 4096 * 4096 := by
  have htop := (pgroundup_toNat_le hhigh).2
  have hbelow := (pgroundup_toNat_le (Nat.le_trans hle hhigh)).1
  rw [trapframe_toNat] at hhigh
  have hup : (pgroundup high).toNat = (high.toNat + 4095) / 4096 * 4096 :=
    pgroundup_toNat (by omega)
  have hlow : (pgroundup low).toNat = (low.toNat + 4095) / 4096 * 4096 :=
    pgroundup_toNat (by omega)
  refine ⟨by omega, htop, hbelow, by omega, by omega⟩

theorem brkCall_heap (h : Spaces s roots lk lu tfs ∅) (hroot : root ∈ roots)
    (hapart : RegionsApart s) (hheap : heapTop.toNat ≤ trapframe.toNat)
    (hmapped : HeapUpTo s.mem root heapTop)
    (hrun : brkCall root heapTop newHeapTop s = .ok (top, s')) :
    s'.kernelPgtbl = s.kernelPgtbl ∧ HeapUpTo s'.mem root top := by
  unfold brkCall at hrun
  split at hrun
  · obtain ⟨_, htop, hroom, hbytes⟩ := uvmHeapGrow_spec h hroot (by decide) hheap hrun
    unfold uvmHeapGrow at hrun
    obtain ⟨_, s₁, hloop, hrun⟩ := Exec.bind_eq_ok.mp hrun
    obtain ⟨_, rfl⟩ := Prod.mk.inj (Except.ok.inj hrun)
    refine ⟨steady_kernelPgtbl.heapGrowLoop _ _ _ _ _ _ _ hloop, ?_⟩
    intro x hlow hhigh
    rw [UInt64.lt_iff_toNat_lt, htop] at hhigh
    have hmax : x < vaMax := by
      rw [UInt64.lt_iff_toNat_lt, vaMax_toNat]
      rw [trapframe_toNat] at hheap hroom
      by_cases hzero : (newHeapTop - heapTop).toUInt32.toNat = 0
      · omega
      · have hend := (hroom hzero).2
        omega
    rw [hbytes x hmax]
    split
    · rfl
    · next hout =>
      by_cases hold : x < heapTop
      · exact hmapped x hlow hold
      · exfalso
        apply hout
        rw [UInt64.not_lt, UInt64.le_iff_toNat_le] at hold
        have haligned := (hroom (by omega)).1
        unfold InTurns
        omega
  · next hle =>
    rw [UInt64.not_lt] at hle
    obtain ⟨_, hlen, hnew⟩ := ungrow_sizes hle
    unfold uvmHeapUngrow at hrun
    rw [massert_bind_eq_ok, Exec.bind_eq_ok] at hrun
    obtain ⟨_, _, s₁, hloop, hrun⟩ := hrun
    obtain ⟨rfl, rfl⟩ := Prod.mk.inj (Except.ok.inj hrun)
    refine ⟨steady_kernelPgtbl.heapUngrowLoop _ _ _ _ _ _ hloop, ?_⟩
    have hnewle : (heapTop - (heapTop - newHeapTop).toUInt32.toUInt64).toNat ≤ heapTop.toNat := by
      omega
    obtain ⟨haligned, htop, hup, _, hturns⟩ := ungrow_turns hnewle hheap
    intro x hlow hhigh
    rw [UInt64.lt_iff_toNat_lt] at hhigh
    rw [heapUngrowLoop_below h hroot hapart haligned hturns htop hloop (by omega)]
    apply hmapped x hlow
    rw [UInt64.lt_iff_toNat_lt]
    omega

theorem movable_of_brkCall (h : Spaces s roots lk lu tfs ∅) (hroot : root ∈ roots)
    (hheap : heapTop.toNat ≤ trapframe.toNat)
    (hrun : brkCall root heapTop newHeapTop s = .ok (newHeapTop, s')) :
    Movable s.mem root heapTop newHeapTop := by
  unfold brkCall at hrun
  unfold Movable
  split at hrun
  · next hlt =>
    rw [if_pos hlt]
    obtain ⟨_, htop, hroom, _⟩ := uvmHeapGrow_spec h hroot (by decide) hheap hrun
    have hle := UInt64.le_of_lt hlt
    rw [UInt64.lt_iff_toNat_lt] at hlt
    have hsub : (newHeapTop - heapTop).toNat = newHeapTop.toNat - heapTop.toNat :=
      UInt64.toNat_sub_of_le _ _ hle
    have hlen := toUInt32_toNat_eq.mp (show (newHeapTop - heapTop).toUInt32.toNat = _ by omega)
    have hend := hroom (by omega)
    refine ⟨hend.1, by omega, ?_⟩
    unfold uvmHeapGrow at hrun
    obtain ⟨_, s₁, hloop, hrun⟩ := Exec.bind_eq_ok.mp hrun
    obtain ⟨htop', _⟩ := Prod.mk.inj (Except.ok.inj hrun)
    rw [htop'] at hloop
    intro x hlow hhigh
    rw [UInt64.le_iff_toNat_le] at hlow
    rw [UInt64.lt_iff_toNat_lt] at hhigh
    have hmax : x < vaMax := by
      rw [trapframe_toNat] at hend
      rw [UInt64.lt_iff_toNat_lt, vaMax_toNat]
      omega
    refine heapGrowLoop_free h hroot (by decide) hloop hmax ?_
    unfold InTurns
    omega
  · next hle =>
    rw [if_neg hle]
    rw [UInt64.not_lt] at hle
    obtain ⟨hsub, hlen, hnew⟩ := ungrow_sizes hle
    unfold uvmHeapUngrow at hrun
    rw [massert_bind_eq_ok, Exec.bind_eq_ok] at hrun
    obtain ⟨_, _, s₁, _, hrun⟩ := hrun
    obtain ⟨htop, _⟩ := Prod.mk.inj (Except.ok.inj hrun)
    rw [htop] at hnew
    have hfits := toUInt32_toNat_eq.mp (show (heapTop - newHeapTop).toUInt32.toNat = _ by
      rw [UInt64.le_iff_toNat_le] at hle
      omega)
    omega

theorem brkCall_returns (h : Spaces s roots lk lu tfs ∅) (hroot : root ∈ roots)
    (hapart : RegionsApart s) (hkernel : root ≠ s.kernelPgtbl)
    (hheap : heapTop.toNat ≤ trapframe.toNat) (hmapped : HeapUpTo s.mem root heapTop)
    (hlow : userVmemStart ≤ newHeapTop) (hhigh : newHeapTop ≤ mmapBegin)
    (hmovable : Movable s.mem root heapTop newHeapTop) :
    Returns OutOfMemory (brkCall root heapTop newHeapTop) s fun top _ => top = newHeapTop := by
  rw [UInt64.le_iff_toNat_le] at hhigh
  have hlimit : mmapBegin.toNat = 2 ^ 38 - 8192 - 8128 * 4096 := by decide
  rw [hlimit] at hhigh
  unfold Movable at hmovable
  unfold brkCall
  split
  · next hlt =>
    rw [if_pos hlt] at hmovable
    obtain ⟨haligned, hsize, hfree⟩ := hmovable
    have hsub : (newHeapTop - heapTop).toNat = newHeapTop.toNat - heapTop.toNat :=
      UInt64.toNat_sub_of_le _ _ (UInt64.le_of_lt hlt)
    have hlen := toUInt32_toNat_eq.mpr (hsub ▸ hsize)
    have hlt' := UInt64.lt_iff_toNat_lt.mp hlt
    have hcut : heapTop + (newHeapTop - heapTop).toUInt32.toUInt64 = newHeapTop := by
      apply UInt64.toNat_inj.mp
      rw [UInt64.toNat_add, UInt32.toNat_toUInt64, hlen, hsub]
      have hmax := newHeapTop.toNat_lt
      omega
    refine .intro (fun reason hrun => ?_) fun top s' hrun => ?_
    · unfold uvmHeapGrow at hrun
      rw [hcut] at hrun
      rcases Exec.bind_eq_error.mp hrun with hloop | ⟨_, _, _, hrun⟩
      · refine heapGrowLoop_stops_of_free h hroot (by decide) haligned ?_ ?_ hloop
        · rw [trapframe_toNat]
          omega
        · intro x hx hin
          -- some address of the page is below the new end
          have hpage : ∃ y : UInt64, heapTop ≤ y ∧ y < newHeapTop ∧
              x.toNat / 4096 = y.toNat / 4096 := by
            unfold InTurns at hin
            refine ⟨pgrounddown x, ?_, ?_, ?_⟩
            · rw [UInt64.le_iff_toNat_le, pgrounddown_toNat]
              omega
            · rw [UInt64.lt_iff_toNat_lt, pgrounddown_toNat]
              omega
            · rw [pgrounddown_toNat]
              omega
          obtain ⟨y, hfrom, hto, hsame⟩ := hpage
          have hy : y < vaMax := by
            rw [UInt64.lt_iff_toNat_lt] at hto ⊢
            rw [vaMax_toNat]
            omega
          exact userByte_none_congr hx hy hsame (hfree y hfrom hto)
      · cases hrun
    · unfold uvmHeapGrow at hrun
      obtain ⟨_, _, _, hrun⟩ := Exec.bind_eq_ok.mp hrun
      exact (Prod.mk.inj (Except.ok.inj hrun)).1.symm.trans hcut
  · next hle =>
    rw [if_neg hle] at hmovable
    rw [UInt64.not_lt] at hle
    obtain ⟨hsub, _, _⟩ := ungrow_sizes hle
    have hlen := toUInt32_toNat_eq.mpr (hsub ▸ hmovable)
    have hcut : heapTop - (heapTop - newHeapTop).toUInt32.toUInt64 = newHeapTop := by
      obtain ⟨_, _, hnew⟩ := ungrow_sizes hle
      apply UInt64.toNat_inj.mp
      rw [UInt64.le_iff_toNat_le] at hle
      omega
    obtain ⟨haligned, htop, hup, hbound, hturns⟩ :=
      ungrow_turns (UInt64.le_iff_toNat_le.mp hle) hheap
    obtain ⟨s', hloop⟩ := heapUngrowLoop_total h hroot hapart hkernel haligned hturns htop (by
      intro x hx hfrom hto
      apply hmapped x
      · rw [UInt64.le_iff_toNat_le] at hlow ⊢
        omega
      · rw [UInt64.lt_iff_toNat_lt]
        have hpage : x.toNat + 4096 ≤ (pgroundup heapTop).toNat := by omega
        omega)
    have hrun : uvmHeapUngrow root heapTop (heapTop - newHeapTop).toUInt32 s =
        .ok (newHeapTop, s') := by
      unfold uvmHeapUngrow
      rw [hcut, massert_bind_eq_ok]
      exact ⟨hlow, Exec.bind_of_ok hloop⟩
    exact .of_ok hrun rfl

/-! Runs. -/

/-- What a process does about its heap: it calls `sys_brk`, or its code runs into a page
fault. -/
inductive HeapOp where
  | brk (newHeapTop : UInt64)
  | fault (frame : Nat → UInt8) (stval : UInt64)

def HeapOp.InRange : HeapOp → Prop
  | .brk newHeapTop => userVmemStart ≤ newHeapTop ∧ newHeapTop ≤ mmapBegin
  | .fault _ stval => stval < mmapBegin

namespace UvmState

variable {st st' : UvmState} {p : ProcId}

/-- What the operation returns; a page fault returns to the code it came from. -/
def heapOp (p : ProcId) : HeapOp → UvmM (Option UInt64)
  | .brk newHeapTop => return some (← sysBrk p newHeapTop)
  | .fault frame stval => do
      pageFault p frame stval
      return none

def heapStep (p : ProcId) (st : UvmState) (op : HeapOp) : Option UvmState :=
  after (heapOp p op) st

def HeapMapped (st : UvmState) (p : ProcId) : Prop :=
  HeapUpTo st.mem.mem (st.procs p).pgtbl (st.procs p).heapTop

structure HasHeap (st : UvmState) (p : ProcId) : Prop where
  kept : st.Kept
  used : st.Used p
  own : (st.procs p).pgtbl ≠ st.mem.kernelPgtbl
  mapped : st.HeapMapped p

/-- The operation returns, with the end of the heap where it was asked for, and the heap
mapped. -/
def Works (st : UvmState) (p : ProcId) (op : HeapOp) : Prop :=
  match op with
  | .brk newHeapTop => ∃ st', heapOp p op st = .ok (some newHeapTop, st') ∧
      (st'.procs p).heapTop = newHeapTop ∧ st'.HeapMapped p
  | .fault _ _ => ∃ st', heapOp p op st = .ok (none, st') ∧ st'.HeapMapped p

def Meets (st : UvmState) (p : ProcId) (op : HeapOp) : Prop :=
  match op with
  | .brk newHeapTop =>
      Movable st.mem.mem (st.procs p).pgtbl (st.procs p).heapTop newHeapTop
  | .fault _ stval => Resolvable st.mem.mem (st.procs p).pgtbl stval

/-! What the operations do. -/

theorem sysBrk_eq {newHeapTop : UInt64} (hne : newHeapTop ≠ 0) :
    sysBrk p newHeapTop st =
      (liftMem (brkCall (st.procs p).pgtbl (st.procs p).heapTop newHeapTop) >>= fun heapTop =>
        writeSpace p { st.procs p with heapTop := heapTop } >>= fun _ => pure heapTop) st := by
  unfold sysBrk brkCall
  rw [readSpace_bind, if_neg hne]
  split
  · rfl
  · rfl

theorem sysBrk_eq_ok {newHeapTop ret : UInt64} (hne : newHeapTop ≠ 0) :
    sysBrk p newHeapTop st = .ok (ret, st') ↔
      ∃ mem, brkCall (st.procs p).pgtbl (st.procs p).heapTop newHeapTop st.mem =
        .ok (ret, mem) ∧ st' = ({ st with mem := mem } : UvmState).withHeapTop p ret := by
  rw [sysBrk_eq hne, liftMem_bind_eq_ok]
  constructor
  · rintro ⟨top, mem, hcall, hrun⟩
    obtain ⟨rfl, rfl⟩ := Prod.mk.inj (Except.ok.inj hrun)
    exact ⟨mem, hcall, rfl⟩
  · rintro ⟨mem, hcall, rfl⟩
    exact ⟨ret, mem, hcall, rfl⟩

theorem withHeapTop_heapTop (heapTop : UInt64) :
    ((st.withHeapTop p heapTop).procs p).heapTop = heapTop :=
  congrArg Space.heapTop (Function.update_self p _ st.procs)

theorem userVmemStart_pos {newHeapTop : UInt64} (h : userVmemStart ≤ newHeapTop) :
    newHeapTop ≠ 0 := by
  rintro rfl
  exact absurd h (by decide)

theorem HasHeap.sysBrk {newHeapTop ret : UInt64} (h : st.HasHeap p)
    (hrun : sysBrk p newHeapTop st = .ok (ret, st')) : st'.HasHeap p := by
  have hkept := sysBrk_kept h.kept h.used hrun
  by_cases hzero : newHeapTop = 0
  · rw [hzero] at hrun
    obtain ⟨_, rfl⟩ := Prod.mk.inj (Except.ok.inj hrun)
    exact h
  · obtain ⟨mem, hcall, rfl⟩ := (sysBrk_eq_ok hzero).mp hrun
    obtain ⟨lk, lu, hspaces⟩ := h.kept.isolated.spaces
    obtain ⟨hkernel, hmapped⟩ := brkCall_heap hspaces (mem_roots h.used) h.kept.settled.apart
      (UInt64.le_iff_toNat_le.mp (h.kept.settled.heap p h.used)) h.mapped hcall
    obtain ⟨hstate, hpgtbl, _⟩ := @withHeapTop_same { st with mem := mem } p ret p
    refine ⟨hkept, ?_, ?_, ?_⟩
    · unfold Used
      rw [hstate]
      exact h.used
    · rw [hpgtbl]
      exact fun heq => h.own (heq.trans hkernel)
    · unfold HeapMapped
      rw [hpgtbl, withHeapTop_heapTop]
      exact hmapped

theorem HasHeap.pageFault {frame : Nat → UInt8} {stval : UInt64} {value : Unit}
    (h : st.HasHeap p) (hrun : pageFault p frame stval st = .ok (value, st')) :
    st'.HasHeap p := by
  obtain ⟨hisolated, hprocs, _, hsettled⟩ := pageFault_spec h.kept.isolated h.used hrun
  have hfault := h.kept.resolvable_of_pageFault h.used hrun
  have hbytes := (h.kept.pageFault_returns h.used hfault).returns hrun
  rw [pageFault_eq] at hrun
  obtain ⟨mem, hhandle, rfl⟩ := liftMem_eq_ok.mp hrun
  have hkernel : mem.kernelPgtbl = (st.saved p frame).kernelPgtbl :=
    steady_kernelPgtbl.handleFault _ _ _ _ _ hhandle
  refine ⟨⟨hisolated, hsettled h.kept.settled⟩, h.used, fun heq => h.own (heq.trans hkernel), ?_⟩
  intro x hlow hhigh
  obtain ⟨byte, hbyte⟩ := Option.isSome_iff_exists.mp (h.mapped x hlow hhigh)
  have hheap := UInt64.le_iff_toNat_le.mp (h.kept.settled.heap p h.used)
  have hmax : x < vaMax := by
    rw [trapframe_toNat] at hheap
    rw [UInt64.lt_iff_toNat_lt] at hhigh ⊢
    rw [vaMax_toNat]
    exact Nat.lt_trans (Nat.lt_of_lt_of_le hhigh hheap) (by decide)
  exact Option.isSome_of_eq_some (hbytes x hmax byte hbyte)

theorem HasHeap.step {op : HeapOp} (h : st.HasHeap p) (hstep : heapStep p st op = some st') :
    st'.HasHeap p := by
  obtain ⟨result, hrun⟩ := after_eq_some.mp hstep
  cases op with
  | brk newHeapTop =>
      obtain ⟨ret, st₁, hbrk, hrun⟩ := Exec.bind_eq_ok.mp hrun
      obtain ⟨_, rfl⟩ := Prod.mk.inj (Except.ok.inj hrun)
      exact h.sysBrk hbrk
  | fault frame stval =>
      obtain ⟨_, st₁, hfault, hrun⟩ := Exec.bind_eq_ok.mp hrun
      obtain ⟨_, rfl⟩ := Prod.mk.inj (Except.ok.inj hrun)
      exact h.pageFault hfault

theorem hasHeap_run {ops : List HeapOp} (h : st.HasHeap p)
    (hrun : run (heapStep p) st ops = some st') : st'.HasHeap p :=
  run_invariant_of_step (I := fun st => st.HasHeap p) (fun _ _ _ h hstep => h.step hstep) h hrun

theorem HasHeap.returns {op : HeapOp} (h : st.HasHeap p) (hrange : op.InRange)
    (hmeets : st.Meets p op) : Returns OutOfMemory (heapOp p op) st fun _ _ => st.Works p op := by
  have hheap := UInt64.le_iff_toNat_le.mp (h.kept.settled.heap p h.used)
  obtain ⟨lk, lu, hspaces⟩ := h.kept.isolated.spaces
  cases op with
  | brk newHeapTop =>
      have hne := userVmemStart_pos hrange.1
      have hcall := brkCall_returns hspaces (mem_roots h.used) h.kept.settled.apart h.own hheap
        h.mapped hrange.1 hrange.2 hmeets
      refine .intro (fun reason hrun => ?_) fun result st' hrun => ?_
      · rcases Exec.bind_eq_error.mp hrun with hbrk | ⟨_, _, _, hrun⟩
        · rw [sysBrk_eq hne] at hbrk
          rcases Exec.bind_eq_error.mp hbrk with hstop | ⟨_, _, _, hrest⟩
          · exact hcall.stops (liftMem_eq_error.mp hstop)
          · cases hrest
        · cases hrun
      · obtain ⟨ret, st₁, hbrk, hrest⟩ := Exec.bind_eq_ok.mp hrun
        obtain ⟨rfl, rfl⟩ := Prod.mk.inj (Except.ok.inj hrest)
        have hmapped := (h.sysBrk hbrk).mapped
        obtain ⟨mem, hmem, rfl⟩ := (sysBrk_eq_ok hne).mp hbrk
        obtain rfl := hcall.returns hmem
        exact ⟨_, hrun, withHeapTop_heapTop ret, hmapped⟩
  | fault frame stval =>
      refine .intro (fun reason hrun => ?_) fun result st' hrun => ?_
      · rcases Exec.bind_eq_error.mp hrun with hstop | ⟨_, _, _, hrest⟩
        · exact (h.kept.pageFault_returns h.used hmeets).stops hstop
        · cases hrest
      · obtain ⟨_, st₁, hrun', hrest⟩ := Exec.bind_eq_ok.mp hrun
        obtain ⟨rfl, rfl⟩ := Prod.mk.inj (Except.ok.inj hrest)
        exact ⟨st₁, hrun, (h.pageFault hrun').mapped⟩

theorem HasHeap.meets {op : HeapOp} (h : st.HasHeap p) (hrange : op.InRange)
    (hworks : st.Works p op) : st.Meets p op := by
  have hheap := UInt64.le_iff_toNat_le.mp (h.kept.settled.heap p h.used)
  obtain ⟨lk, lu, hspaces⟩ := h.kept.isolated.spaces
  cases op with
  | brk newHeapTop =>
      obtain ⟨st', hrun, _⟩ := hworks
      obtain ⟨ret, st₁, hbrk, hrest⟩ := Exec.bind_eq_ok.mp hrun
      obtain ⟨hret, rfl⟩ := Prod.mk.inj (Except.ok.inj hrest)
      obtain rfl := Option.some.inj hret
      obtain ⟨mem, hcall, _⟩ := (sysBrk_eq_ok (userVmemStart_pos hrange.1)).mp hbrk
      exact movable_of_brkCall hspaces (mem_roots h.used) hheap hcall
  | fault frame stval =>
      obtain ⟨st', hrun, _⟩ := hworks
      obtain ⟨_, _, hfault, _⟩ := Exec.bind_eq_ok.mp hrun
      exact h.kept.resolvable_of_pageFault h.used hfault

/-- In every state that is reached, the heap is mapped up to its end; with memory enough for
it, the next operation works if and only if its condition is met. -/
theorem heap_works_iff {ops : List HeapOp} {op : HeapOp} (hstart : st.HasHeap p)
    (hrun : run (heapStep p) st ops = some st') (hrange : op.InRange)
    (henough : ∀ reason, heapOp p op st' = .error reason → ¬ OutOfMemory reason) :
    st'.HeapMapped p ∧ (st'.Works p op ↔ st'.Meets p op) := by
  have h := hasHeap_run hstart hrun
  refine ⟨h.mapped, h.meets hrange, fun hmeets => ?_⟩
  obtain ⟨_, _, _, hworks⟩ := (h.returns hrange hmeets).exists_ok henough
  exact hworks

theorem hasHeap_first (hrun : run spaceStep unborn [.first [7]] = some st) :
    st.HasHeap 0 := by
  have hall : (run spaceStep unborn [.first [7]]).map (fun st => (decide (st.Used 0),
      decide ((st.procs 0).pgtbl = st.mem.kernelPgtbl), (st.procs 0).heapTop,
      (st.readByte 0 0x1000).isSome)) = some (true, false, 0x2000, true) := by
    decide +kernel
  rw [hrun] at hall
  obtain ⟨hused, hall⟩ := Prod.mk.inj (Option.some.inj hall)
  obtain ⟨hown, hall⟩ := Prod.mk.inj hall
  obtain ⟨hheap, hbyte⟩ := Prod.mk.inj hall
  refine ⟨kept_run unborn_kept hrun, of_decide_eq_true hused, of_decide_eq_false hown, ?_⟩
  intro x hlow hhigh
  rw [hheap, UInt64.lt_iff_toNat_lt] at hhigh
  rw [UInt64.le_iff_toNat_le] at hlow
  change 4096 ≤ x.toNat at hlow
  change x.toNat < 8192 at hhigh
  have hmax : x < vaMax := by
    rw [UInt64.lt_iff_toNat_lt, vaMax_toNat]
    omega
  have hpage : (0x1000 : UInt64).toNat / 4096 = x.toNat / 4096 := by
    change 1 = x.toNat / 4096
    omega
  by_contra hnone
  rw [Option.not_isSome_iff_eq_none] at hnone
  unfold readByte at hbyte
  rw [userByte_none_congr (by decide) hmax hpage hnone] at hbyte
  cases hbyte

/-- It asks for a byte, and gives back more than that. -/
theorem heap_works_first : ∃ st st', run spaceStep unborn [.first [7]] = some st ∧
    run (heapStep 0) st [.brk 0x2001] = some st' ∧ st'.HeapMapped 0 ∧
    (st'.Works 0 (.brk 0x1800) ↔ st'.Meets 0 (.brk 0x1800)) := by
  have hall : (run spaceStep unborn [.first [7]]).map (fun st =>
      (run (heapStep 0) st [.brk 0x2001]).map fun st' =>
        stopOf (heapOp 0 (.brk 0x1800)) st') = some (some none) := by
    decide +kernel
  obtain ⟨st, hrun, hall⟩ := Option.map_eq_some_iff.mp hall
  obtain ⟨st', hops, hreturns⟩ := Option.map_eq_some_iff.mp hall
  refine ⟨st, st', hrun, hops, heap_works_iff (hasHeap_first hrun) hops (by
    exact ⟨by decide, by decide⟩) ?_⟩
  intro reason hstop
  rw [stopOf_eq_some.mpr hstop] at hreturns
  cases hreturns

/-- It asks for a byte and then for the rest of the page, and the kernel stops. -/
theorem heap_stops_kernel : ∃ st st', run spaceStep unborn [.first [7]] = some st ∧
    st.HasHeap 0 ∧ run (heapStep 0) st [.brk 0x2001] = some st' ∧
    (HeapOp.brk 0x3000).InRange ∧
    heapOp 0 (.brk 0x3000) st' = .error
      (.panic "vm_mappages: page alignment required.\n\t va: %x pa %x") ∧
    ¬ st'.Works 0 (.brk 0x3000) := by
  have hall : (run spaceStep unborn [.first [7]]).map (fun st =>
      (run (heapStep 0) st [.brk 0x2001]).map fun st' =>
        stopOf (heapOp 0 (.brk 0x3000)) st') = some (some (some
          (.panic "vm_mappages: page alignment required.\n\t va: %x pa %x"))) := by
    decide +kernel
  obtain ⟨st, hrun, hall⟩ := Option.map_eq_some_iff.mp hall
  obtain ⟨st', hops, hstops⟩ := Option.map_eq_some_iff.mp hall
  have hstops := stopOf_eq_some.mp hstops
  refine ⟨st, st', hrun, hasHeap_first hrun, hops, ⟨by decide, by decide⟩, hstops, ?_⟩
  rintro ⟨_, hok, _⟩
  rw [hstops] at hok
  cases hok

end UvmState

end UnoOS.Uvm
