import UnoOS.Lib.Outcome
import UnoOS.Uvm.EnoughMemory
import UnoOS.Uvm.SpaceRuns

namespace UnoOS.Uvm

open UnoOS.Lib
open UnoOS.Lib.Exec (Returns)
open UnoOS.Lib.Radix (walk)
open UnoOS.Fs (Stop)
open UnoOS.Kernel (ProcId)
open UnoOS.Mem

/-! When the page fault branch of `trap_user_handler` returns. -/

variable {s s' : MemState} {roots : Set UInt64} {lk lu : List UInt64}
  {tfs extra : Set UInt64} {root va stval : UInt64} {reason : Stop}

theorem translate_pgrounddown (m : Memory) (root va : UInt64) :
    Mem.translate m root (pgrounddown va) = Mem.translate m root va := by
  unfold Mem.translate leafTable
  rw [vpns_pgrounddown va (le_refl 2), vpn_pgrounddown va (by decide)]

theorem pgrounddown_le (va : UInt64) : (pgrounddown va).toNat ≤ va.toNat := by
  rw [pgrounddown_toNat]
  omega

theorem pgrounddown_mod (va : UInt64) : (pgrounddown va).toNat % 4096 = 0 := by
  rw [pgrounddown_toNat]
  omega

/-! `handle_page_fault` -/

theorem memset_same {m : Memory} {page : UInt64} (hzero : ∀ x, InPage page x → m x = 0) :
    m.memset page.toNat 0 4096 = m := by
  funext x
  by_cases hin : InPage page x
  · rw [hzero x hin]
    unfold InPage at hin
    exact Memory.write_of_mem hin.1 hin.2
  · exact onlyPage_memset page m 0 x hin

/-- Whatever the handlers do, the bytes that were mapped stay. -/
def KeepsMapped (root : UInt64) (m m' : Memory) : Prop :=
  ∀ x, x < vaMax → ∀ byte, userByte m root x = some byte → userByte m' root x = some byte

theorem handlePageFault_returns (h : Spaces s roots lk lu tfs ∅) (hroot : root ∈ roots)
    (hva : va < vaMax) (hnone : Mem.translate s.mem root va = none) :
    Returns OutOfMemory (handlePageFault root va) s fun _ s' =>
      KeepsMapped root s.mem s'.mem := by
  have hbelow : va < trapframe := by
    by_contra hge
    obtain ⟨pte, hpte, _⟩ := (h.kernel root hroot).above va (UInt64.not_lt.mp hge) hva
    rw [hnone] at hpte
    cases hpte
  have hdown : pgrounddown va < trapframe := by
    rw [UInt64.lt_iff_toNat_lt] at hbelow ⊢
    exact Nat.lt_of_le_of_lt (pgrounddown_le va) hbelow
  have hfree : userByte s.mem root (pgrounddown va) = none := by
    unfold userByte userFrame
    rw [translate_pgrounddown, hnone]
    rfl
  have hguard : (massert (va ≤ vaMax) "handle_page_fault: the va is invalid") s =
      .ok ((), s) := Exec.require_eq_ok.mpr ⟨UInt64.le_of_lt hva, rfl⟩
  refine Returns.bind_of_ok hguard (Returns.bind (Returns.intro
    (pmemAlloc_stops false s) fun page s₁ halloc => halloc) fun page s₁ halloc => ?_)
  obtain ⟨_, _, _, hzero, _⟩ := h.alloc halloc
  have hmemset : (updateMem fun m => m.memset page.toNat 0 4096) s₁ = .ok ((), s₁) := by
    refine congrArg (fun m => Except.ok ((), s₁.setMem m)) (memset_same hzero)
  refine Returns.bind_of_ok hmemset (Returns.bind (Returns.intro (fun reason hrun =>
    mapFresh_stops h hroot (pgrounddown_mod va) hdown hfree halloc hrun)
    fun _ s₂ hmap => hmap) fun _ s₂ hmap => ?_)
  obtain ⟨_, _, _, _, hbytes⟩ := mapFresh_builds h hroot (by decide) (by decide) halloc hmap
  refine Returns.of_ok rfl ?_
  intro x hx byte hbyte
  rw [hbytes x hx]
  split
  · next hpage =>
    unfold userByte at hbyte hfree
    rw [userFrame_same_page hx (lt_vaMax_of_lt hdown) hpage,
      Option.map_eq_none_iff.mp hfree] at hbyte
    cases hbyte
  · exact hbyte

/-! `handle_cow` -/

theorem cowCopy_stops {t : UInt64} (h : Spaces s roots lk lu tfs ∅) (hroot : root ∈ roots)
    (hva : va.toNat % 4096 = 0) (hmax : va < vaMax) (hleaf : leafTable s.mem root va = some t)
    (hcow : CowPage s.mem root va)
    (hrun : cowCopy root va (entryAddr t (vpn va 0)) (pteToPa (entry s.mem t (vpn va 0)))
      (pteFlags (entry s.mem t (vpn va 0))) s = .error reason) : OutOfMemory reason := by
  unfold cowCopy at hrun
  rcases Exec.bind_eq_error.mp hrun with halloc | ⟨newPage, s₁, halloc, hrun⟩
  · exact pmemAlloc_stops false s reason halloc
  obtain ⟨rest, hfresh, h₁, _, _, htables₁, hspares₁⟩ := h.alloc halloc
  have hheld : newPage ∈ insert newPage (∅ : Set UInt64) := Set.mem_insert newPage ∅
  have hin := h₁.frames.held_in newPage (.inr hheld)
  rw [if_neg (h₁.frames.nonzero newPage hin), updateMem_bind, updateMem_bind] at hrun
  have hvalid := cowPage_valid hleaf hcow
  have hbelow := cowPage_below h hroot hmax hcow
  have hsrc := h.userFrame_of_entry hroot hbelow hleaf hvalid
  have hsrc₁ := (hspares₁ root hroot va hmax).1.trans hsrc
  obtain ⟨s₂, hs₂, h₂, htables₂, _⟩ := copy_held h₁ hheld hroot hmax hsrc₁
  rw [← hs₂] at hrun
  obtain ⟨hleaf₁, hentry₁⟩ := leafTable_of_samePages hroot htables₁ hleaf
  obtain ⟨hleaf₂, hentry₂⟩ := leafTable_of_samePages hroot htables₂ hleaf₁
  have hentry : entry s₂.mem t (vpn va 0) = entry s.mem t (vpn va 0) :=
    (hentry₂ _).trans (hentry₁ _)
  obtain ⟨h₃, hframe₃, _⟩ := h₂.clear_entry hroot hbelow hleaf₂ (hentry ▸ hvalid)
    (pteValid_clear (entry s₂.mem t (vpn va 0)))
  have hbelow' := UInt64.lt_iff_toNat_lt.mp hbelow
  rw [trapframe_toNat] at hbelow'
  rcases Exec.bind_eq_error.mp hrun with hmap | ⟨_, s₄, hmap, hrun⟩
  · -- nothing is mapped any more
    refine mapPage_stops h₃.frames hroot hva hin.aligned (by omega) ?_ hmap
    refine translate_none h₃ hroot hbelow ?_
    unfold userByte
    rw [MemState.mem_setMem, hframe₃ va hmax, if_pos rfl]
    rfl
  · -- the old frame is one of the pages of the region
    have hold := h.frames.userFrame_in hroot hmax hsrc
    have hsetting₁ : setting s₁ = setting s := keeps_pmemAlloc _ _ _ _ halloc
    have hsetting : setting s₄ = setting s :=
      (keeps_vmMappages _ _ _ _ _ _ _ _ hmap).trans ((congrArg setting hs₂).trans hsetting₁)
    have hin₄ := (contains_of_setting hsetting false _).mpr hold
    obtain ⟨s₅, hfree⟩ : ∃ s₅, pmemFree (pteToPa (entry s.mem t (vpn va 0))) false s₄ =
        .ok ((), s₅) := ⟨_, pmemFree_eq_ok.mpr ⟨hin₄, rfl⟩⟩
    rw [Exec.bind_of_ok hfree] at hrun
    cases hrun

theorem handleCow_returns (h : Spaces s roots lk lu tfs ∅) (hroot : root ∈ roots)
    (hva : va.toNat % 4096 = 0) (hmax : va < vaMax) (hcow : CowPage s.mem root va) :
    Returns OutOfMemory (handleCow root va) s fun _ s' => KeepsMapped root s.mem s'.mem := by
  refine Returns.intro (fun reason hrun => ?_) fun page s' hrun => ?_
  · have haligned : ¬ va % pgsize ≠ 0 := not_not.mpr ((aligned_iff va).mpr hva)
    have hnonzero := h.frames.tables.nonzero root hroot
    unfold handleCow at hrun
    rw [if_neg haligned] at hrun
    obtain ⟨pte, hpte, _⟩ := id hcow
    cases hleaf : leafTable s.mem root va with
    | none =>
        unfold Mem.translate at hpte
        rw [hleaf] at hpte
        cases hpte
    | some t =>
        have hgetpte : vmGetpte root va false s = .ok (some (entryAddr t (vpn va 0)), s) := by
          refine vmGetpte_reads_eq_ok.mpr ⟨⟨UInt64.le_of_lt hmax, hnonzero⟩, rfl, ?_⟩
          rw [hleaf]
          rfl
        rw [Exec.bind_of_ok hgetpte] at hrun
        dsimp only at hrun
        rw [readMem_bind] at hrun
        have href : pmemGetRef (pteToPa (s.mem.load64 (entryAddr t (vpn va 0)))) s =
          .ok (refCnt s.mem (pteToPa (s.mem.load64 (entryAddr t (vpn va 0)))), s) := rfl
        rw [Exec.bind_of_ok href] at hrun
        split at hrun
        · rw [updateMem_bind] at hrun
          cases hrun
        · exact cowCopy_stops h hroot hva hmax hleaf hcow hrun
  · obtain ⟨_, _, _, _, _, hbytes⟩ := handleCow_spec h hroot (fun _ => hcow) hrun
    intro x hx byte hbyte
    rw [hbytes x hx]
    exact hbyte

/-! The branch. -/

def Resolvable (m : Memory) (root stval : UInt64) : Prop :=
  stval < vaMax ∧ (Mem.translate m root stval = none ∨ CowPage m root stval)

theorem cowPage_unique {m : Memory} {t : UInt64} (hleaf : leafTable m root va = some t)
    (hvalid : pteValid (entry m t (vpn va 0))) :
    CowPage m root va ↔ entry m t (vpn va 0) &&& pteCow ≠ 0 := by
  have hpte : Mem.translate m root va = some (entry m t (vpn va 0)) := by
    unfold Mem.translate validEntry
    rw [hleaf, Option.bind_some, if_pos hvalid]
  unfold CowPage
  rw [hpte]
  exact ⟨fun ⟨pte, heq, hcow⟩ => Option.some.inj heq ▸ hcow, fun hcow => ⟨_, rfl, hcow⟩⟩

theorem isCowpage_eq_ok (hroot : root ≠ 0) (hva : va < vaMax) :
    ∃ result, isCowpage root va s = .ok (result, s) ∧ (result ≠ 0 ↔ CowPage s.mem root va) := by
  unfold isCowpage
  rw [if_neg (UInt64.not_le.mpr hva)]
  have hgetpte : vmGetpte root va false s =
      .ok ((leafTable s.mem root va).map fun t => entryAddr t (vpn va 0), s) :=
    vmGetpte_reads_eq_ok.mpr ⟨⟨UInt64.le_of_lt hva, hroot⟩, rfl, rfl⟩
  rw [Exec.bind_of_ok hgetpte]
  cases hleaf : leafTable s.mem root va with
  | none =>
      refine ⟨0, rfl, fun hne => absurd rfl hne, ?_⟩
      rintro ⟨pte, hpte, _⟩
      unfold Mem.translate at hpte
      rw [hleaf] at hpte
      cases hpte
  | some t =>
      dsimp only [Option.map_some]
      rw [readMem_bind]
      by_cases hvalid : pteValid (s.mem.load64 (entryAddr t (vpn va 0)))
      · rw [if_pos hvalid]
        refine ⟨_, rfl, ?_⟩
        rw [cowPage_unique hleaf hvalid]
        by_cases hcow : entry s.mem t (vpn va 0) &&& pteCow = 0
        · exact iff_of_false (not_not.mpr (if_neg (not_not.mpr hcow))) (not_not.mpr hcow)
        · refine iff_of_true (fun hzero => ?_) hcow
          exact absurd ((if_pos hcow).symm.trans hzero) (by decide)
      · rw [if_neg hvalid]
        refine ⟨0, rfl, fun hne => absurd rfl hne, ?_⟩
        rintro hcow
        exact absurd (cowPage_valid hleaf hcow) hvalid

theorem handleFault_returns (h : Spaces s roots lk lu tfs ∅) (hroot : root ∈ roots)
    (hfault : Resolvable s.mem root stval) :
    Returns OutOfMemory (handleFault root stval) s fun _ s' =>
      KeepsMapped root s.mem s'.mem := by
  obtain ⟨hmax, hcases⟩ := hfault
  obtain ⟨result, hrun, hresult⟩ :=
    isCowpage_eq_ok (h.frames.tables.nonzero root hroot) hmax
  refine Returns.bind_of_ok hrun ?_
  by_cases hcow : CowPage s.mem root stval
  · rw [if_pos (hresult.mpr hcow)]
    have hdown : pgrounddown stval < vaMax := by
      rw [UInt64.lt_iff_toNat_lt] at hmax ⊢
      exact Nat.lt_of_le_of_lt (pgrounddown_le stval) hmax
    exact Returns.bind (handleCow_returns h hroot (pgrounddown_mod stval) hdown
      (cowPage_pgrounddown hcow)) fun _ _ hkeeps => Returns.of_ok rfl hkeeps
  · rw [if_neg (hresult.not.mpr hcow)]
    exact Returns.bind (handlePageFault_returns h hroot hmax (hcases.resolve_right hcow))
      fun _ _ hkeeps => Returns.of_ok rfl hkeeps

/-- A frame that was free is mapped nowhere, so there is nothing where it can be mapped. -/
theorem unmapped_of_mapFresh {page perm : UInt64} {value : Unit} {s₁ : MemState}
    (h : Spaces s roots lk lu tfs ∅) (hroot : root ∈ roots)
    (halloc : pmemAlloc false s = .ok (page, s₁))
    (hmap : vmMappages root va page pgsize perm s₁ = .ok (value, s')) :
    Mem.translate s.mem root va = none := by
  obtain ⟨rest, hfresh, h₁, _, _, htables₁, _⟩ := h.alloc halloc
  have hheld : page ∈ insert page (∅ : Set UInt64) := Set.mem_insert page ∅
  have hbelow : va < trapframe :=
    (h₁.kernel root hroot).map_below (fun _ _ => rfl) h₁.frames hroot
      (h₁.frames.held_in page (.inr hheld)) (fun hmem => hfresh (.inl hmem)) hmap
  cases hpte : Mem.translate s.mem root va with
  | none => rfl
  | some pte =>
      rw [← translate_of_samePages hroot htables₁] at hpte
      have huser := (h₁.kernel root hroot).below _ hbelow pte hpte
      have hframe : userFrame s₁.mem root va = some page := by
        unfold userFrame userEntry
        rw [hpte, Option.bind_some, if_pos huser]
        exact congrArg some (h₁.frames.mapPage_check hroot hmap hpte)
      exact absurd hframe (h₁.frames.not_held (.inr hheld) hroot (lt_vaMax_of_lt hbelow))

theorem unmapped_of_handlePageFault {page : UInt64} (h : Spaces s roots lk lu tfs ∅)
    (hroot : root ∈ roots) (hrun : handlePageFault root va s = .ok (page, s')) :
    Mem.translate s.mem root va = none := by
  unfold handlePageFault at hrun
  rw [massert_bind_eq_ok, Exec.bind_eq_ok] at hrun
  obtain ⟨_, newPage, s₁, halloc, hrun⟩ := hrun
  rw [updateMem_bind, Exec.bind_eq_ok] at hrun
  obtain ⟨_, s₂, hmap, _⟩ := hrun
  obtain ⟨_, _, _, hzero, _⟩ := h.alloc halloc
  rw [memset_same hzero] at hmap
  rw [← translate_pgrounddown]
  exact unmapped_of_mapFresh h hroot halloc hmap

theorem leafTable_top {m : Memory} (hupper : NoUpper m root) : leafTable m root vaMax = none := by
  unfold leafTable vpns
  rw [Radix.walk, hupper (vpn vaMax 2) (by decide)]
  rfl

theorem handleCow_top {page : UInt64} (hupper : NoUpper s.mem root) (hva : vaMax ≤ va) :
    handleCow root (pgrounddown va) s ≠ .ok (page, s') := by
  intro hrun
  have haligned : ¬ pgrounddown va % pgsize ≠ 0 :=
    not_not.mpr ((aligned_iff _).mpr (pgrounddown_mod va))
  unfold handleCow at hrun
  rw [if_neg haligned] at hrun
  obtain ⟨result, s₁, hgetpte, hrun⟩ := Exec.bind_eq_ok.mp hrun
  obtain ⟨⟨hle, _⟩, rfl, rfl⟩ := vmGetpte_reads_eq_ok.mp hgetpte
  have htop : pgrounddown va = vaMax := by
    rw [UInt64.le_iff_toNat_le, vaMax_toNat] at hle hva
    apply UInt64.toNat_inj.mp
    rw [pgrounddown_toNat] at hle ⊢
    rw [vaMax_toNat]
    omega
  rw [htop, leafTable_top hupper] at hrun
  cases hrun

theorem resolvable_of_handleFault {value : Unit} (h : Spaces s roots lk lu tfs ∅)
    (hroot : root ∈ roots) (hupper : NoUpper s.mem root)
    (hrun : handleFault root stval s = .ok (value, s')) : Resolvable s.mem root stval := by
  have hnonzero := h.frames.tables.nonzero root hroot
  unfold handleFault at hrun
  obtain ⟨result, s₁, hcow, hbranch⟩ := Exec.bind_eq_ok.mp hrun
  by_cases hmax : stval < vaMax
  · refine ⟨hmax, ?_⟩
    obtain ⟨result', hcow', hresult⟩ := isCowpage_eq_ok hnonzero hmax
    obtain ⟨rfl, rfl⟩ := Prod.mk.inj (Except.ok.inj (hcow.symm.trans hcow'))
    by_cases hpage : CowPage s₁.mem root stval
    · exact .inr hpage
    · left
      rw [if_neg (hresult.not.mpr hpage)] at hbranch
      obtain ⟨_, s₂, hhandle, _⟩ := Exec.bind_eq_ok.mp hbranch
      exact unmapped_of_handlePageFault h hroot hhandle
  · unfold isCowpage at hcow
    rw [if_pos (UInt64.not_lt.mp hmax)] at hcow
    cases hcow
    rw [if_pos (by decide)] at hbranch
    obtain ⟨_, s₂, hhandle, _⟩ := Exec.bind_eq_ok.mp hbranch
    exact absurd hhandle (handleCow_top hupper (UInt64.not_lt.mp hmax))

/-! Runs. -/

def stopOf {α : Type} (m : UvmM α) (st : UvmState) : Option Stop :=
  match m st with
  | .ok _ => none
  | .error reason => some reason

theorem stopOf_eq_some {α : Type} {m : UvmM α} {st : UvmState} :
    stopOf m st = some reason ↔ m st = .error reason := by
  unfold stopOf
  cases m st with
  | ok result => exact ⟨fun h => (Option.some_ne_none _ h.symm).elim, fun h => by cases h⟩
  | error reason' => exact ⟨fun h => congrArg _ (Option.some.inj h), fun h => by cases h; rfl⟩

namespace UvmState

variable {st st' : UvmState} {p : ProcId} {frame : Nat → UInt8}

/-- The fault is handled, and nothing that a process could reach is lost. -/
def Survives (st : UvmState) (p : ProcId) (frame : Nat → UInt8) (stval : UInt64) : Prop :=
  ∃ st', pageFault p frame stval st = .ok ((), st') ∧
    ∀ q, st.Used q → ∀ va, va < vaMax → ∀ byte,
      st.readByte q va = some byte → st'.readByte q va = some byte

def saved (st : UvmState) (p : ProcId) (frame : Nat → UInt8) : MemState :=
  st.mem.setMem (st.mem.mem.write (st.procs p).tf.toNat trapframeSize frame)

theorem pageFault_eq (st : UvmState) :
    pageFault p frame stval st =
      liftMem (handleFault (st.procs p).pgtbl stval) { st with mem := st.saved p frame } := rfl

/-- Saving the registers changes no table and no page of user code. -/
theorem Kept.saved (h : st.Kept) (frame : Nat → UInt8) (stval : UInt64) (hp : st.Used p) :
    ∃ lk lu, Spaces (st.saved p frame) st.roots lk lu st.trapframes ∅ ∧
      NoUpper (st.saved p frame).mem (st.procs p).pgtbl ∧
      (Resolvable (st.saved p frame).mem (st.procs p).pgtbl stval ↔
        Resolvable st.mem.mem (st.procs p).pgtbl stval) ∧
      ∀ x, x < vaMax → userByte (st.saved p frame).mem (st.procs p).pgtbl x =
        st.readByte p x := by
  obtain ⟨lk, lu, hspaces⟩ := h.isolated.spaces
  obtain ⟨hspaces', htables, hspares⟩ := hspaces.write_held (.inl (mem_trapframes hp))
    (onlyPage_write (st.procs p).tf st.mem.mem 0 trapframeSize frame (by decide))
  have hroot := mem_roots hp
  refine ⟨lk, lu, hspaces', (h.settled.upper p hp).of_samePage
    (htables _ (isTable_root hroot)), ?_, fun x hx => (hspares _ hroot).userByte hx⟩
  have heq := translate_of_samePages hroot htables stval
  unfold Resolvable CowPage
  rw [← heq]
  rfl

theorem Kept.resolvable_of_pageFault {value : Unit} (h : st.Kept) (hp : st.Used p)
    (hrun : pageFault p frame stval st = .ok (value, st')) :
    Resolvable st.mem.mem (st.procs p).pgtbl stval := by
  obtain ⟨lk, lu, hspaces, hupper, hresolvable, _⟩ := h.saved frame stval hp
  rw [pageFault_eq] at hrun
  obtain ⟨mem, hhandle, _⟩ := liftMem_eq_ok.mp hrun
  exact hresolvable.mp (resolvable_of_handleFault hspaces (mem_roots hp) hupper hhandle)

theorem Kept.pageFault_returns (h : st.Kept) (hp : st.Used p)
    (hfault : Resolvable st.mem.mem (st.procs p).pgtbl stval) :
    Returns OutOfMemory (pageFault p frame stval) st fun _ st' =>
      ∀ va, va < vaMax → ∀ byte, st.readByte p va = some byte →
        st'.readByte p va = some byte := by
  obtain ⟨lk, lu, hspaces, _, hresolvable, hbytes⟩ := h.saved frame stval hp
  have hreturns := handleFault_returns hspaces (mem_roots hp) (hresolvable.mpr hfault)
  refine Returns.intro (fun reason hrun => ?_) fun _ st' hrun => ?_
  · rw [pageFault_eq] at hrun
    exact hreturns.stops (liftMem_eq_error.mp hrun)
  · rw [pageFault_eq] at hrun
    obtain ⟨mem, hhandle, rfl⟩ := liftMem_eq_ok.mp hrun
    intro va hva byte hbyte
    refine hreturns.returns hhandle va hva byte ?_
    rw [hbytes va hva]
    exact hbyte

/-- In every state that a run reaches, with memory enough for the call, a page fault is
survived if and only if it is below `VA_MAX`, at a page that is not mapped or waits for a
copy. -/
theorem faults_survived_iff {calls : List SpaceCall} (hstart : st.Kept)
    (hrun : run spaceStep st calls = some st') (hp : st'.Used p)
    (henough : ∀ reason, pageFault p frame stval st' = .error reason → ¬ OutOfMemory reason) :
    st'.Survives p frame stval ↔
      Resolvable st'.mem.mem (st'.procs p).pgtbl stval := by
  have h := kept_run hstart hrun
  constructor
  · rintro ⟨st'', hfault, _⟩
    exact h.resolvable_of_pageFault hp hfault
  · intro hfault
    obtain ⟨_, st'', hrun', hkept⟩ := (h.pageFault_returns hp hfault).exists_ok henough
    obtain ⟨_, _, hothers, _⟩ := pageFault_spec h.isolated hp hrun'
    refine ⟨st'', hrun', ?_⟩
    intro q hq va hva byte hbyte
    by_cases hqp : q = p
    · subst hqp
      exact hkept va hva byte hbyte
    · rw [(hothers q hq hqp).2 va hva]
      exact hbyte

/-- The first process reads from a page that it does not have. -/
theorem faults_survived_first : ∃ st, run spaceStep unborn [.first [7]] = some st ∧
    st.Survives 0 (fun _ => 0) 0x5000 := by
  have hall : (run spaceStep unborn [.first [7]]).map (fun st => (decide (st.Used 0),
      stopOf (pageFault 0 (fun _ => 0) 0x5000) st,
      Mem.translate st.mem.mem (st.procs 0).pgtbl 0x5000)) = some (true, none, none) := by
    decide +kernel
  obtain ⟨st, hrun, hall⟩ := Option.map_eq_some_iff.mp hall
  obtain ⟨hused, hall⟩ := Prod.mk.inj hall
  obtain ⟨hreturns, hnone⟩ := Prod.mk.inj hall
  refine ⟨st, hrun, (faults_survived_iff unborn_kept hrun (of_decide_eq_true hused) ?_).mpr
    ⟨by decide, .inl hnone⟩⟩
  intro reason hstop
  rw [stopOf_eq_some.mpr hstop] at hreturns
  cases hreturns

/-- It reads from its trap frame, and the kernel stops. -/
theorem faults_stop_kernel : ∃ st, run spaceStep unborn [.first [7]] = some st ∧ st.Used 0 ∧
    pageFault 0 (fun _ => 0) trapframe st = .error (.panic "vm_mappages: remap at %p") ∧
    ¬ OutOfMemory (.panic "vm_mappages: remap at %p") ∧
    ¬ st.Survives 0 (fun _ => 0) trapframe := by
  have hall : (run spaceStep unborn [.first [7]]).map (fun st => (decide (st.Used 0),
      stopOf (pageFault 0 (fun _ => 0) trapframe) st)) =
        some (true, some (.panic "vm_mappages: remap at %p")) := by
    decide +kernel
  obtain ⟨st, hrun, hall⟩ := Option.map_eq_some_iff.mp hall
  obtain ⟨hused, hstops⟩ := Prod.mk.inj hall
  have hstops := stopOf_eq_some.mp hstops
  refine ⟨st, hrun, of_decide_eq_true hused, hstops, ?_, ?_⟩
  · rintro (h | h | h)
    · exact absurd h (by decide)
    · exact absurd h (by decide)
    · exact absurd h (by decide)
  · rintro ⟨st', hok, _⟩
    rw [hstops] at hok
    cases hok

end UvmState

end UnoOS.Uvm
