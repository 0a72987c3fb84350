import UnoOS.Uvm.ExecArgs
import UnoOS.Uvm.SysProc

namespace UnoOS.Uvm

open UnoOS.Lib
open UnoOS.Lib.Exec (Keeps)
open UnoOS.Fs (Stop)
open UnoOS.Kernel (ProcId)
open UnoOS.Mem

/-! What `sys_brk`, `sys_mmap`, `sys_munmap` and `proc_exec` leave in the tables. -/

structure Confined (roots : Set UInt64) (root : UInt64) (tfs : Set UInt64)
    (s s' : MemState) : Prop where
  spaces : ∃ lk lu, Spaces s' roots lk lu tfs ∅
  others : ∀ r ∈ roots, r ≠ root → Spares r s s'
  upper : KeepsUpper roots s.mem s'.mem
  setting : setting s' = setting s

variable {s s' s'' : MemState} {roots : Set UInt64} {lk lu : List UInt64}
  {tfs : Set UInt64} {root va perm : UInt64} {value : Unit}

theorem Builds.confined (h : Builds roots root tfs s s') : Confined roots root tfs s s' :=
  ⟨h.spaces, h.others, h.upper, h.setting⟩

theorem Confined.refl (h : Spaces s roots lk lu tfs ∅) : Confined roots root tfs s s :=
  ⟨⟨lk, lu, h⟩, fun r _ _ => Spares.refl r s, .refl roots _, rfl⟩

theorem Confined.trans (h : Confined roots root tfs s s')
    (h' : Confined roots root tfs s' s'') : Confined roots root tfs s s'' :=
  ⟨h'.spaces, fun r hr hne => (h.others r hr hne).trans (h'.others r hr hne),
    h.upper.trans h'.upper, h'.setting.trans h.setting⟩

/-! Pages that are taken away. -/

/-- The pages of a range below the trap frame, or none. -/
theorem unmapLoop_confined {pages : Nat} {beg : UInt64} (h : Spaces s roots lk lu tfs ∅)
    (hroot : root ∈ roots) (hapart : RegionsApart s)
    (hrange : beg.toNat + pages * 4096 ≤ trapframe.toNat ∨ pages = 0)
    (hrun : vmUnmappagesLoop root true pages beg s = .ok (value, s')) :
    Confined roots root tfs s s' := by
  rcases hrange with hrange | rfl
  · obtain ⟨lu', h', _, hunmaps⟩ := h.unmap_loop hroot hapart hrange hrun
    exact ⟨⟨lk, lu', h'⟩, hunmaps.others, hunmaps.upper,
      steady_setting.vmUnmappagesLoop _ _ _ _ _ _ _ hrun⟩
  · cases hrun
    exact .refl h

theorem vmUnmappages_eq_ok {len : UInt64} {freeit : Bool}
    (hrun : vmUnmappages root va len freeit s = .ok (value, s')) :
    va % pgsize = 0 ∧ 0 < len ∧ va + len - 1 < vaMax ∧
      vmUnmappagesLoop root freeit (pageCount va len) va s = .ok (value, s') := by
  unfold vmUnmappages at hrun
  rw [massert_bind_eq_ok, massert_bind_eq_ok, massert_bind_eq_ok] at hrun
  exact hrun

theorem unmapPage_confined (h : Spaces s roots lk lu tfs ∅) (hroot : root ∈ roots)
    (hapart : RegionsApart s) (hbelow : va.toNat + 4096 ≤ trapframe.toNat)
    (hrun : vmUnmappages root va pgsize true s = .ok (value, s')) :
    Confined roots root tfs s s' := by
  obtain ⟨haligned, hlen, _, hloop⟩ := vmUnmappages_eq_ok hrun
  have hwrap : va.toNat + pgsize.toNat < 2 ^ 64 := by
    rw [trapframe_toNat] at hbelow
    change va.toNat + 4096 < 2 ^ 64
    omega
  rw [pageCount_spec haligned hlen hwrap] at hloop
  exact unmapLoop_confined h hroot hapart (.inl hbelow) hloop

theorem heapUngrowLoop_confined {turns : Nat} {ptr : UInt64}
    (h : Spaces s roots lk lu tfs ∅) (hroot : root ∈ roots) (hapart : RegionsApart s)
    (hturns : turns * 4096 ≤ ptr.toNat) (hptr : ptr.toNat ≤ trapframe.toNat)
    (hrun : heapUngrowLoop root turns ptr s = .ok (value, s')) :
    Confined roots root tfs s s' := by
  induction turns generalizing s ptr lk lu with
  | zero =>
      cases hrun
      exact .refl h
  | succ turns ih =>
      rw [heapUngrowLoop, Exec.bind_eq_ok] at hrun
      obtain ⟨_, s₁, hunmap, hrest⟩ := hrun
      have hprev : (ptr - pgsize).toNat = ptr.toNat - 4096 := by
        apply UInt64.toNat_sub_of_le
        rw [UInt64.le_iff_toNat_le]
        change 4096 ≤ ptr.toNat
        omega
      have hleft : turns * 4096 ≤ (ptr - pgsize).toNat := by
        rw [hprev, Nat.le_sub_iff_add_le (by omega), ← Nat.succ_mul]
        exact hturns
      have hbelow : (ptr - pgsize).toNat + 4096 ≤ trapframe.toNat := by
        rw [hprev]
        omega
      have hpage := unmapPage_confined h hroot hapart hbelow hunmap
      obtain ⟨lk₁, lu₁, h₁⟩ := hpage.spaces
      exact hpage.trans (ih h₁ (regionsApart_of_setting hpage.setting hapart) hleft
        (Nat.le_of_add_right_le hbelow) hrest)

theorem pgroundup_toNat_le {a : UInt64} (h : a.toNat ≤ trapframe.toNat) :
    a.toNat ≤ (pgroundup a).toNat ∧ (pgroundup a).toNat ≤ trapframe.toNat := by
  rw [trapframe_toNat] at h ⊢
  have hroom : a.toNat + 4095 < 2 ^ 64 := by omega
  rw [pgroundup_toNat hroom]
  omega

theorem uvmHeapUngrow_confined {heapTop newHeapTop : UInt64} {len : UInt32}
    (h : Spaces s roots lk lu tfs ∅) (hroot : root ∈ roots) (hapart : RegionsApart s)
    (hheap : heapTop.toNat ≤ trapframe.toNat) (hlen : len.toNat ≤ heapTop.toNat)
    (hrun : uvmHeapUngrow root heapTop len s = .ok (newHeapTop, s')) :
    Confined roots root tfs s s' ∧ newHeapTop.toNat = heapTop.toNat - len.toNat := by
  have htop : (heapTop - len.toUInt64).toNat = heapTop.toNat - len.toNat := by
    have hle : len.toUInt64 ≤ heapTop := by
      rw [UInt64.le_iff_toNat_le, UInt32.toNat_toUInt64]
      exact hlen
    rw [UInt64.toNat_sub_of_le _ _ hle, UInt32.toNat_toUInt64]
  unfold uvmHeapUngrow at hrun
  rw [massert_bind_eq_ok, Exec.bind_eq_ok] at hrun
  obtain ⟨_, _, s₁, hloop, hrun⟩ := hrun
  obtain ⟨rfl, rfl⟩ := Prod.mk.inj (Except.ok.inj hrun)
  refine ⟨heapUngrowLoop_confined h hroot hapart ?_ (pgroundup_toNat_le hheap).2 hloop, htop⟩
  omega

/-- What `uvm_munmap` takes away ends below the trap frame; a range that wraps has no
pages. -/
theorem munmap_range {len : UInt64} (haligned : va % pgsize = 0) (hlen : 0 < len)
    (hsize : len.toNat < 2 ^ 32) (hend : va + len ≤ mmapEnd)
    (hmax : va + len - 1 < vaMax) :
    va.toNat + pageCount va len * 4096 ≤ trapframe.toNat ∨ pageCount va len = 0 := by
  have htf := trapframe_toNat
  have hva := (aligned_iff va).mp haligned
  have hsum := UInt64.toNat_add va len
  have hlimit : mmapEnd.toNat = 2 ^ 38 - 8192 - 32 * 4096 := by decide
  rw [UInt64.le_iff_toNat_le, hlimit] at hend
  by_cases hwrap : va.toNat + len.toNat < 2 ^ 64
  · left
    rw [Nat.mod_eq_of_lt hwrap] at hsum
    rw [pageCount_spec haligned hlen hwrap]
    omega
  · right
    rw [UInt64.lt_iff_toNat_lt, vaMax_toNat] at hmax
    have hlt := va.toNat_lt
    unfold pageCount
    refine if_neg ?_
    rw [UInt64.le_iff_toNat_le, pgrounddown_toNat]
    omega

theorem uvmMunmap_confined {begin : UInt64} {len : UInt64} (h : Spaces s roots lk lu tfs ∅)
    (hroot : root ∈ roots) (hapart : RegionsApart s) (hsize : len.toNat < 2 ^ 32)
    (hend : begin + len ≤ mmapEnd)
    (hrun : vmUnmappages root begin len true s = .ok (value, s')) :
    Confined roots root tfs s s' := by
  obtain ⟨haligned, hlen, hmax, hloop⟩ := vmUnmappages_eq_ok hrun
  exact unmapLoop_confined h hroot hapart
    (munmap_range haligned hlen hsize hend hmax) hloop

/-! The list of regions, which memory has nothing to do with. -/

theorem keeps_uassert (condition : Prop) [Decidable condition] (message : String) :
    Keeps UvmState.withoutRegions (uassert condition message) :=
  .require_intro condition _

theorem keeps_mmapMerge (mmap1 mmap2 : MmapId) (keepMmap1 : Bool) :
    Keeps UvmState.withoutRegions (mmapMerge mmap1 mmap2 keepMmap1) := by
  apply (UvmState.keeps_readRegion _).bind
  intro region1
  apply (UvmState.keeps_readRegion _).bind
  intro region2
  apply (keeps_uassert _ _).bind
  intro _
  apply Keeps.ite
  · exact (UvmState.keeps_writeRegion _ _).bind fun _ => keeps_mmapRegionFree _
  · exact (UvmState.keeps_writeRegion _ _).bind fun _ => keeps_mmapRegionFree _

theorem keeps_takeFromRegion (prev id : MmapId) (begin end_ : UInt64) :
    Keeps UvmState.withoutRegions (takeFromRegion prev id begin end_) := by
  apply (UvmState.keeps_readRegion _).bind
  intro region
  apply (keeps_uassert _ _).bind
  intro _
  apply Keeps.ite
  · -- both ends of the region stay
    apply (UvmState.keeps_mmapRegionAlloc _).bind
    intro new
    apply (UvmState.keeps_readRegion _).bind
    intro region
    apply (UvmState.keeps_writeRegion _ _).bind
    intro _
    apply (UvmState.keeps_readRegion _).bind
    intro newRegion
    apply (UvmState.keeps_readRegion _).bind
    intro region
    apply (UvmState.keeps_writeRegion _ _).bind
    intro _
    exact (UvmState.keeps_readRegion _).bind fun _ => UvmState.keeps_writeRegion _ _
  · apply Keeps.ite
    · exact UvmState.keeps_writeRegion _ _
    · apply Keeps.ite
      · exact UvmState.keeps_writeRegion _ _
      · apply (UvmState.keeps_readRegion _).bind
        intro prevRegion
        exact (UvmState.keeps_writeRegion _ _).bind fun _ => keeps_mmapRegionFree _

theorem keeps_munmapInsert (new : MmapId) (begin end_ : UInt64) (steps : Nat)
    (prev : MmapId) (id : Option MmapId) :
    Keeps UvmState.withoutRegions (munmapInsert new begin end_ steps prev id) := by
  have hnone : ∀ steps prev,
      Keeps UvmState.withoutRegions (munmapInsert new begin end_ steps prev none) := by
    intro steps prev
    unfold munmapInsert
    apply (UvmState.keeps_readRegion _).bind
    intro prevRegion
    apply (UvmState.keeps_writeRegion _ _).bind
    intro _
    exact Keeps.ite (keeps_mmapMerge _ _ _) (.pure_intro _)
  induction steps generalizing prev id with
  | zero =>
      cases id with
      | none => exact hnone 0 prev
      | some id => exact .stop_intro _
  | succ steps ih =>
      cases id with
      | none => exact hnone _ prev
      | some next =>
          apply (UvmState.keeps_readRegion _).bind
          intro prevRegion
          apply (UvmState.keeps_readRegion _).bind
          intro nextRegion
          apply Keeps.ite _ (ih _ _)
          apply Keeps.ite
          · apply (keeps_mmapMerge _ _ _).bind
            intro _
            apply Keeps.ite _ (.pure_intro _)
            apply (UvmState.keeps_readRegion _).bind
            intro prevRegion
            apply (UvmState.keeps_readRegion _).bind
            intro nextRegion
            exact (UvmState.keeps_writeRegion _ _).bind fun _ => keeps_mmapMerge _ _ _
          · apply Keeps.ite (keeps_mmapMerge _ _ _)
            apply (UvmState.keeps_readRegion _).bind
            intro prevRegion
            apply (UvmState.keeps_writeRegion _ _).bind
            intro _
            exact (UvmState.keeps_readRegion _).bind fun _ => UvmState.keeps_writeRegion _ _

section

variable {st st' : UvmState} {p : ProcId} {npages : UInt32} {begin end_ : UInt64}

theorem mmapSearch_eq_ok {pgtbl : UInt64} {steps : Nat} {prev : MmapId}
    {id : Option MmapId}
    (hrun : mmapSearch pgtbl begin end_ npages perm steps prev id st = .ok (value, st')) :
    ∃ st₁ first, UvmState.withoutRegions st₁ = UvmState.withoutRegions st ∧
      liftMem (mapNewPages pgtbl perm npages.toNat first) st₁ = .ok (value, st') := by
  induction steps generalizing prev id with
  | zero =>
      cases id with
      | none =>
          unfold mmapSearch at hrun
          split at hrun
          · cases hrun
          · cases hrun
      | some id => cases hrun
  | succ steps ih =>
      cases id with
      | none =>
          unfold mmapSearch at hrun
          split at hrun
          · cases hrun
          · cases hrun
      | some id =>
          rw [mmapSearch, readRegion_bind] at hrun
          split at hrun
          · obtain ⟨_, st₁, htake, hrun⟩ := Exec.bind_eq_ok.mp hrun
            exact ⟨st₁, _, keeps_takeFromRegion _ _ _ _ _ _ _ htake, hrun⟩
          · exact ih hrun

theorem uassert_bind_eq_ok {α : Type} {condition : Prop} [Decidable condition]
    {message : String} {f : Unit → UvmM α} {result : α × UvmState} :
    (uassert condition message >>= f) st = .ok result ↔ condition ∧ f () st = .ok result :=
  Exec.require_bind_eq_ok

theorem deref_bind_eq_ok {α : Type} {id : Option MmapId} {f : MmapId → UvmM α}
    {result : α × UvmState} :
    (deref id >>= f) st = .ok result ↔ ∃ node, id = some node ∧ f node st = .ok result := by
  cases id with
  | none =>
      constructor
      · intro hrun
        cases hrun
      · rintro ⟨_, hnode, _⟩
        cases hnode
  | some node =>
      constructor
      · exact fun hrun => ⟨node, rfl, hrun⟩
      · rintro ⟨_, hnode, hrun⟩
        cases hnode
        exact hrun

theorem uvmMmap_eq_ok (hrun : uvmMmap p begin npages perm st = .ok (value, st')) :
    st' = st ∨ ∃ st₁ first, UvmState.withoutRegions st₁ = UvmState.withoutRegions st ∧
      liftMem (mapNewPages (st.procs p).pgtbl perm npages.toNat first) st₁ =
        .ok (value, st') := by
  unfold uvmMmap at hrun
  split at hrun
  · cases hrun
    exact .inl rfl
  · rw [uassert_bind_eq_ok, uassert_bind_eq_ok] at hrun
    obtain ⟨_, _, hrun⟩ := hrun
    rw [readSpace_bind, deref_bind_eq_ok] at hrun
    obtain ⟨prev, _, hrun⟩ := hrun
    exact .inr (mmapSearch_eq_ok hrun)

theorem uvmMunmap_eq_ok (hrun : uvmMunmap p begin npages st = .ok (value, st')) :
    st' = st ∨ begin + (npages * 4096).toUInt64 ≤ mmapEnd ∧
      ∃ st₁, UvmState.withoutRegions st₁ = UvmState.withoutRegions st ∧
        liftMem (vmUnmappages (st.procs p).pgtbl begin (npages * 4096).toUInt64 true) st₁ =
          .ok (value, st') := by
  unfold uvmMunmap at hrun
  split at hrun
  · cases hrun
    exact .inl rfl
  · rw [uassert_bind_eq_ok, uassert_bind_eq_ok] at hrun
    obtain ⟨_, ⟨_, hend⟩, hrun⟩ := hrun
    obtain ⟨new, st₁, halloc, hrun⟩ := Exec.bind_eq_ok.mp hrun
    have hkeeps := UvmState.keeps_mmapRegionAlloc _ _ _ _ halloc
    obtain ⟨_, hprocs, _⟩ := UvmState.withoutRegions_eq hkeeps
    rw [readRegion_bind, writeRegion_bind, readSpace_bind, deref_bind_eq_ok] at hrun
    obtain ⟨prev, _, hrun⟩ := hrun
    rw [readRegion_bind] at hrun
    obtain ⟨_, st₂, hinsert, hrun⟩ := Exec.bind_eq_ok.mp hrun
    dsimp only at hrun
    rw [hprocs] at hrun
    exact .inr ⟨hend, st₂, (keeps_munmapInsert _ _ _ _ _ _ _ _ _ hinsert).trans hkeeps, hrun⟩

theorem mmapScan_same {len : UInt32} {steps : Nat} {id : Option MmapId}
    {found : Option UInt64} (hrun : mmapScan len steps id st = .ok (found, st')) :
    st' = st := by
  induction steps generalizing id with
  | zero =>
      cases id with
      | none =>
          cases hrun
          rfl
      | some id => cases hrun
  | succ steps ih =>
      cases id with
      | none =>
          cases hrun
          rfl
      | some id =>
          rw [mmapScan, readRegion_bind] at hrun
          split at hrun
          · cases hrun
            rfl
          · exact ih hrun

theorem mmapAddress_same {len : UInt32} {first : Option MmapId} {found : Option UInt64}
    (hrun : mmapAddress begin len first st = .ok (found, st')) : st' = st := by
  unfold mmapAddress at hrun
  split at hrun
  · exact mmapScan_same hrun
  · cases hrun
    rfl

end

end UnoOS.Uvm
