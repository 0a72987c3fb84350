import UnoOS.Uvm.Segments
import UnoOS.Uvm.Untouched

namespace UnoOS.Uvm

open UnoOS.Lib
open UnoOS.Lib.Downward (lowest lowest_append areas_append)
open UnoOS.Lib.Exec (Keeps)
open UnoOS.Kernel (ProcId nProc)
open UnoOS.Mem

/-! Processes that begin, get a new image, or end. -/

def procFree (p : ProcId) : UvmM Unit := do
  let space ← readSpace p
  if space.tf ≠ 0 then
    liftMem (pmemFree space.tf false)
  freeRegions nMmap space.mmap
  if space.pgtbl ≠ 0 then
    liftMem (uvmDestroyPgtbl 3 space.pgtbl)
  writeSpace p Space.free

section

variable {s s' : MemState} {roots : Set UInt64} {lk lu : List UInt64}
  {tfs extra held : Set UInt64} {tramp tf t : UInt64}

theorem procPgtblInit_seated (h : Frames s roots lk lu held)
    (hrun : procPgtblInit tramp tf s = .ok (t, s')) :
    Seated s'.mem t tf tramp ∧ s'.kernRegion.Contains t := by
  have hsetting := keeps_procPgtblInit _ _ _ _ _ hrun
  unfold procPgtblInit at hrun
  rw [Exec.bind_eq_ok] at hrun
  obtain ⟨t', s₀, halloc, hrun⟩ := hrun
  rw [updateMem_bind, Exec.bind_eq_ok] at hrun
  obtain ⟨_, s₂, hmap, hrun⟩ := hrun
  rw [Exec.bind_eq_ok] at hrun
  obtain ⟨_, s₃, hmap', hrun⟩ := hrun
  obtain ⟨rfl, rfl⟩ := Prod.mk.inj (Except.ok.inj hrun)
  obtain ⟨_, _, _, h₁, _⟩ := h.new_root halloc
  have ht : t' ∈ insert t' roots := Set.mem_insert t' roots
  obtain ⟨_, h₂, hmapped₂, _⟩ := mapHidden h₁ ht (by decide) (by decide) hmap
  obtain ⟨_, _, hmapped₃, _⟩ := mapHidden h₂ ht (by decide) (by decide) hmap'
  refine ⟨⟨?_, ?_⟩, ?_⟩
  · rw [hmapped₃ _ (by decide)]
    exact if_pos rfl
  · rw [hmapped₃ _ (by decide), setPage, if_neg (by decide), hmapped₂ _ (by decide)]
    exact if_pos rfl
  · obtain ⟨_, hlist, _⟩ := h.kern.list.alloc halloc
    have hin := h.kern.list.inRegion t' (hlist ▸ List.mem_cons_self)
    exact (contains_of_setting hsetting true t').mpr hin

end

namespace UvmState

variable {st st' st₁ st₂ : UvmState} {p q c : ProcId} {mem mem' : MemState}
  {tf pgtbl old : UInt64} {value : Unit}

/-! New processes. -/

/-- A slot that is prepared while the trap frames of all processes keep their bytes; its own
reads as in `m`. -/
structure Born (st st' : UvmState) (c : ProcId) (m : Memory) : Prop where
  prepared : Prepared st st' c
  own : (st'.procs c).tf ∉ st.trapframes
  seated : Seated st'.mem.mem (st'.procs c).pgtbl (st'.procs c).tf st'.trampolinePage
  table : st'.mem.kernRegion.Contains (st'.procs c).pgtbl
  saves : Saves st.trapframes st.mem st'.mem
  frame : SamePage (st'.procs c).tf m st'.mem.mem

theorem procAlloc_born (h : st.Isolated) (hrun : procAlloc st = .ok (c, st')) :
    Born st st' c fun _ => 0 := by
  have hprepared := (procAlloc_spec h hrun).1
  unfold procAlloc at hrun
  rw [Exec.bind_of_ok (m := get) rfl] at hrun
  cases hfind : (List.finRange nProc).find? fun p => (st.procs p).state = .unused with
  | none =>
      rw [hfind] at hrun
      cases hrun
  | some c' =>
      rw [hfind] at hrun
      dsimp only at hrun
      rw [liftMem_bind_eq_ok] at hrun
      obtain ⟨tf, mem₁, halloc, hrun⟩ := hrun
      rw [liftMem_bind_eq_ok] at hrun
      obtain ⟨t, mem₂, hinit, hrun⟩ := hrun
      rw [readSpace_bind, writeSpace_bind] at hrun
      obtain ⟨rfl, rfl⟩ := Prod.mk.inj (Except.ok.inj hrun)
      obtain ⟨lk, lu, hspaces⟩ := h.spaces
      obtain ⟨_, hnot, hspaces₁, hzero, _⟩ := hspaces.alloc halloc
      obtain ⟨hseated, hin⟩ := procPgtblInit_seated hspaces₁.frames hinit
      have hsaves := procPgtblInit_saves hspaces₁.frames hinit
      refine ⟨hprepared, ?_, ?_, ?_, ?_, ?_⟩
      · simp only [Function.update_self]
        exact fun hmem => hnot (.inl hmem)
      · simp only [Function.update_self]
        exact hseated
      · simp only [Function.update_self]
        exact hin
      · exact ((saves_alloc hspaces.frames halloc).mono Set.subset_union_left).trans
          (hsaves.mono Set.subset_union_left)
      · simp only [Function.update_self]
        have hmem : tf ∈ st.trapframes ∪ insert tf ∅ := .inr (Set.mem_insert tf ∅)
        exact fun x hx => (hsaves tf hmem x hx).trans (hzero x hx)

theorem Born.of_prepared {m m' : Memory} (h : Born st st₁ c m) (hprepared : Prepared st st₂ c)
    (hprocs : st₂.procs = st₁.procs)
    (hupper : KeepsUpper (insert (st₁.procs c).pgtbl st.roots) st₁.mem.mem st₂.mem.mem)
    (hsaves : Saves st.trapframes st₁.mem st₂.mem)
    (hframe : SamePage (st₁.procs c).tf m' st₂.mem.mem) : Born st st₂ c m' := by
  have htramp : st₂.trampolinePage = st₁.trampolinePage :=
    hprepared.trampoline.trans h.prepared.trampoline.symm
  have hsetting : setting st₂.mem = setting st₁.mem :=
    hprepared.bounds.trans h.prepared.bounds.symm
  refine ⟨hprepared, ?_, ?_, ?_, h.saves.trans hsaves, hprocs ▸ hframe⟩
  · rw [hprocs]
    exact h.own
  · rw [hprocs, htramp]
    exact h.seated.of_upper hupper (Set.mem_insert _ _)
  · rw [hprocs]
    exact (contains_of_setting hsetting true _).mpr h.table

theorem Born.call {α : Type} {m : MemM α} {result : α} {m₁ : Memory} (h : Born st st₁ c m₁)
    (hsetting : Keeps setting m)
    (hspec : ∀ lk lu tfs mem, Spaces st₁.mem (insert (st₁.procs c).pgtbl st.roots) lk lu tfs ∅ →
      m st₁.mem = .ok (result, mem) →
      (∃ lk' lu', Spaces mem (insert (st₁.procs c).pgtbl st.roots) lk' lu' tfs ∅ ∧
        (∀ r ∈ insert (st₁.procs c).pgtbl st.roots, r ≠ (st₁.procs c).pgtbl →
          Spares r st₁.mem mem) ∧
        KeepsUpper (insert (st₁.procs c).pgtbl st.roots) st₁.mem.mem mem.mem) ∧
      Saves tfs st₁.mem mem)
    (hrun : liftMem m st₁ = .ok (result, st₂)) :
    Born st st₂ c m₁ ∧ st₂.procs = st₁.procs := by
  obtain ⟨hprepared, hprocs, _⟩ := h.prepared.call hsetting
    (fun lk lu tfs mem _ hspaces hm => (hspec lk lu tfs mem hspaces hm).1) hrun
  obtain ⟨mem, hm, rfl⟩ := liftMem_eq_ok.mp hrun
  obtain ⟨lk, lu, hspaces⟩ := h.prepared.spaces
  obtain ⟨⟨_, _, _, _, hupper⟩, hsaves⟩ := hspec lk lu _ mem hspaces hm
  exact ⟨h.of_prepared hprepared hprocs hupper (hsaves.mono (Set.subset_insert _ _))
    (h.frame.trans (hsaves _ (Set.mem_insert _ _))), hprocs⟩

theorem Born.write_frame {m : Memory} (h : Born st st₁ c m) {update : Memory → Memory}
    (honly : OnlyPage (st₁.procs c).tf st₁.mem.mem (update st₁.mem.mem))
    (hrun : liftMem (updateMem update) st₁ = .ok (value, st₂)) :
    Born st st₂ c (update st₁.mem.mem) ∧ st₂.procs = st₁.procs := by
  obtain ⟨hprepared, hprocs, _⟩ := h.prepared.write_frame honly hrun
  cases hrun
  obtain ⟨lk, lu, hspaces⟩ := h.prepared.spaces
  have hheld : (st₁.procs c).tf ∈ insert (st₁.procs c).tf st.trapframes ∪ ∅ :=
    .inl (Set.mem_insert _ _)
  obtain ⟨_, htables, _⟩ := hspaces.write_held hheld honly
  refine ⟨h.of_prepared hprepared hprocs (.of_samePages htables) ?_ fun _ _ => rfl, hprocs⟩
  have hsub : st.trapframes ⊆ insert (st₁.procs c).tf st.trapframes ∪ ∅ :=
    (Set.subset_insert _ _).trans Set.subset_union_left
  have hsaves : Saves st.trapframes st₁.mem (st₁.mem.setMem (update st₁.mem.mem)) :=
    saves_only (hspaces.frames.held_mono hsub) (hspaces.frames.held_in _ hheld) h.own honly
  exact hsaves

structure Begins (st st' : UvmState) (c : ProcId) : Prop where
  serves : Serves none st st'
  unused : ¬ st.Used c
  used : st'.Used c
  others : ∀ q, q ≠ c → st'.procs q = st.procs q

/-- The slot becomes a process, and no other process notices. -/
theorem Born.start {m : Memory} (hst : st.Living) (h : Born st st₁ c m)
    (hpgtbl : (st'.procs c).pgtbl = (st₁.procs c).pgtbl)
    (htf : (st'.procs c).tf = (st₁.procs c).tf) (hstate : (st'.procs c).state ≠ .unused)
    (hheap : (st'.procs c).heapTop ≤ trapframe)
    (hothers : ∀ q, q ≠ c → st'.procs q = st₁.procs q) (hmem : st'.mem = st₁.mem)
    (htramp : st'.trampolinePage = st₁.trampolinePage) :
    Begins st st' c ∧ SamePage (st'.procs c).tf m st'.mem.mem := by
  obtain ⟨hisolated, hspared, hsettled⟩ := h.prepared.start hst.kept.isolated hpgtbl htf hstate
    (fun _ => hheap) hothers hmem htramp
  have hothers' : ∀ q, q ≠ c → st'.procs q = st.procs q :=
    fun q hq => (hothers q hq).trans (h.prepared.others q hq)
  have hused : ∀ q, st'.Used q → q ≠ c → st.Used q := by
    intro q hq hqc
    unfold Used at hq ⊢
    rwa [hothers' q hqc] at hq
  have hown : ∀ q, st'.Used q → q ≠ c → (st'.procs q).tf ≠ (st₁.procs c).tf := by
    intro q hq hqc heq
    rw [hothers' q hqc] at heq
    exact h.own (heq ▸ mem_trapframes (hused q hq hqc))
  refine ⟨⟨⟨⟨⟨hisolated, hsettled hst.kept.settled⟩, ?_, ?_, ?_⟩, ?_,
    (congrArg setting hmem).trans h.prepared.bounds⟩,
    not_not.mpr h.prepared.unused, hstate, hothers'⟩, by rw [htf, hmem]; exact h.frame⟩
  · intro a b ha hb heq
    by_cases hac : a = c
    · by_cases hbc : b = c
      · rw [hac, hbc]
      · rw [hac, htf] at heq
        exact absurd heq.symm (hown b hb hbc)
    · by_cases hbc : b = c
      · rw [hbc, htf] at heq
        exact absurd heq (hown a ha hac)
      · rw [hothers' a hac, hothers' b hbc] at heq
        exact hst.distinct a b (hused a ha hac) (hused b hb hbc) heq
  · intro a ha
    rw [hmem, htramp]
    by_cases hac : a = c
    · rw [hac, hpgtbl, htf]
      exact h.seated
    · have hseated := hst.seated a (hused a ha hac)
      rw [hothers' a hac, h.prepared.trampoline]
      exact hseated.of_upper h.prepared.upper (mem_roots (hused a ha hac))
  · intro a ha
    rw [hmem]
    by_cases hac : a = c
    · rw [hac, hpgtbl]
      exact h.table
    · rw [hothers' a hac]
      exact (contains_of_setting h.prepared.bounds true _).mpr (hst.table a (hused a ha hac))
  · intro a ha _
    obtain ⟨hspace, hbytes⟩ := hspared a ha
    refine ⟨hspace, hbytes, ?_, fun va hva hmax => ?_⟩
    · rw [hmem]
      exact h.saves _ (mem_trapframes ha)
    · rw [hmem]
      exact h.prepared.upper.kernel _ (mem_roots ha) va hva hmax

theorem procMakeFirst_begins {initcode : List UInt8} (h : st.Living)
    (hrun : procMakeFirst initcode st = .ok (c, st')) :
    Begins st st' c ∧ ∃ m, SamePage (st'.procs c).tf (fun _ => 0) m ∧
      SamePage (st'.procs c).tf ((m.store64 ((st'.procs c).tf.toNat + tfEpc)
        userVmemStart).store64 ((st'.procs c).tf.toNat + tfSp) userStackBottom)
        st'.mem.mem := by
  unfold procMakeFirst at hrun
  rw [Exec.bind_eq_ok] at hrun
  obtain ⟨first, st₁, halloc, hrun⟩ := hrun
  have h₁ := procAlloc_born h.kept.isolated halloc
  rw [readSpace_bind, Exec.bind_eq_ok] at hrun
  obtain ⟨_, st₂, hstack, hrun⟩ := hrun
  obtain ⟨h₂, hprocs₂⟩ := h₁.call (keeps_mapStack _ _) (fun lk lu tfs mem hspaces hm =>
    ⟨mapStack_spec hspaces (Set.mem_insert _ _) hm, (mapStack_saves hspaces
      (Set.mem_insert _ _) hm)⟩) hstack
  rw [Exec.bind_eq_ok, ← hprocs₂] at hrun
  obtain ⟨_, st₃, hload, hrun⟩ := hrun
  obtain ⟨h₃, hprocs₃⟩ := h₂.call (keeps_loadInitcode _ _) (fun lk lu tfs mem hspaces hm =>
    ⟨loadInitcode_spec hspaces (Set.mem_insert _ _) hm, loadInitcode_saves hspaces
      (Set.mem_insert _ _) hm⟩) hload
  rw [Exec.bind_eq_ok, ← hprocs₃] at hrun
  obtain ⟨_, st₄, hepc, hrun⟩ := hrun
  obtain ⟨h₄, hprocs₄⟩ := h₃.write_frame
    (onlyPage_store64 _ _ tfEpc userVmemStart (by decide)) hepc
  cases hepc
  rw [Exec.bind_eq_ok, ← hprocs₄] at hrun
  obtain ⟨_, st₅, hsp, hrun⟩ := hrun
  obtain ⟨h₅, hprocs₅⟩ := h₄.write_frame
    (onlyPage_store64 _ _ tfSp userStackBottom (by decide)) hsp
  rw [Exec.bind_eq_ok, ← hprocs₅] at hrun
  obtain ⟨mmap, st₆, hmmap, hrun⟩ := hrun
  rw [readRegion_bind, writeRegion_bind, Exec.bind_eq_ok] at hrun
  obtain ⟨next, st₇, hnext, hrun⟩ := hrun
  rw [readRegion_bind, writeRegion_bind, writeSpace_bind] at hrun
  obtain ⟨rfl, hend⟩ := Prod.mk.inj (Except.ok.inj hrun)
  obtain ⟨hmem₆, hprocs₆, htramp₆⟩ :=
    withoutRegions_eq (keeps_mmapRegionAlloc _ _ _ _ hmmap)
  obtain ⟨hmem₇, hprocs₇, htramp₇⟩ :=
    withoutRegions_eq (keeps_mmapRegionAlloc _ _ _ _ hnext)
  have hself : st'.procs first = { st₅.procs first with
      heapTop := userVmemStart + pgsize
      mmap := some mmap
      state := .runnable } := by
    rw [← hend]
    exact Function.update_self _ _ _
  have hothers : ∀ q, q ≠ first → st'.procs q = st₅.procs q := by
    intro q hq
    rw [← hend]
    simp only [Function.update_of_ne hq, hprocs₇, hprocs₆]
  have hmem : st'.mem = st₅.mem := by
    rw [← hend]
    exact hmem₇.trans hmem₆
  have htramp : st'.trampolinePage = st₅.trampolinePage := by
    rw [← hend]
    exact htramp₇.trans htramp₆
  have hheap : userVmemStart + pgsize ≤ trapframe := by decide
  obtain ⟨hbegins, hframe⟩ := h₅.start h (by rw [hself]) (by rw [hself])
    (by rw [hself]; exact Kernel.ProcState.noConfusion) (by rw [hself]; exact hheap) hothers hmem
    htramp
  have htf : (st'.procs first).tf = (st₃.procs first).tf := by
    rw [hself, hprocs₅]
  rw [htf] at hframe ⊢
  exact ⟨hbegins, st₃.mem.mem, h₃.frame, hframe⟩

theorem Born.copy {parent : Space} {m : Memory} (h : Born st st₁ c m) (hp : st.Used p)
    (hparent : parent.pgtbl = (st.procs p).pgtbl)
    (hrun : uvmCopyPgtbl parent.pgtbl (st₁.procs c).pgtbl parent.heapTop
      parent.ustackPages.toUInt32 parent.mmap st₁ = .ok (value, st₂)) :
    Born st st₂ c m ∧ st₂.procs = st₁.procs := by
  have hpgtbl : (st₁.procs c).pgtbl ∈ insert (st₁.procs c).pgtbl st.roots :=
    Set.mem_insert _ _
  have hold : parent.pgtbl ∈ insert (st₁.procs c).pgtbl st.roots :=
    Set.mem_insert_of_mem _ (hparent ▸ mem_roots hp)
  have hne : parent.pgtbl ≠ (st₁.procs c).pgtbl := by
    intro heq
    exact h.prepared.fresh (heq ▸ hparent ▸ mem_roots hp)
  obtain ⟨lk, lu, hspaces⟩ := h.prepared.spaces
  obtain ⟨hst₂, ⟨lk', lu', hspaces'⟩, hcopied, hupper⟩ :=
    uvmCopyPgtbl_spec hspaces hold hpgtbl hne hrun
  have hsetting := keeps_uvmCopyPgtbl _ _ _ _ _ _ _ _ hrun
  have hprocs : st₂.procs = st₁.procs := by
    rw [hst₂]
  have htramp : st₂.trampolinePage = st₁.trampolinePage := by
    rw [hst₂]
  have hsaves := uvmCopyPgtbl_saves hspaces hold hpgtbl hne hrun
  refine ⟨h.of_prepared ⟨h.prepared.unused, ?_, ⟨lk', lu', ?_⟩, ?_,
    h.prepared.upper.trans (hupper.mono (Set.subset_insert _ _)), ?_, ?_,
    hsetting.trans h.prepared.bounds, ?_, htramp.trans h.prepared.trampoline⟩ hprocs hupper ?_
    (h.frame.trans (hsaves _ (.inl (Set.mem_insert _ _)))), hprocs⟩
  · rw [hprocs]
    exact h.prepared.fresh
  · rw [hprocs]
    exact hspaces'
  · intro r hr
    refine (h.prepared.spares r hr).trans
      (hcopied.others r (Set.mem_insert_of_mem _ hr) ?_)
    rintro rfl
    exact h.prepared.fresh hr
  · rw [hprocs]
    exact hupper.links _ hpgtbl h.prepared.low
  · rw [hprocs]
    exact h.prepared.own.of_upper (hspaces'.kernel _ hpgtbl).below
      (contains_of_bounds (congrArg Prod.fst hsetting)) (hupper.kernel _ hpgtbl)
  · rw [hprocs]
    exact h.prepared.others
  · exact hsaves.mono ((Set.subset_insert _ _).trans Set.subset_union_left)

theorem procFork_begins (h : st.Living) (hp : st.Used p)
    (hrun : procFork p st = .ok (c, st')) :
    Begins st st' c ∧ ∃ m, SamePage (st.procs p).tf st.mem.mem m ∧
      SamePage (st'.procs c).tf ((m.memcpy (st'.procs c).tf.toNat (st.procs p).tf.toNat
        trapframeSize).store64 ((st'.procs c).tf.toNat + tfA0) 0) st'.mem.mem := by
  unfold procFork at hrun
  rw [Exec.bind_eq_ok] at hrun
  obtain ⟨child, st₁, halloc, hrun⟩ := hrun
  have h₁ := procAlloc_born h.kept.isolated halloc
  have hne : p ≠ child := by
    rintro rfl
    exact hp h₁.prepared.unused
  rw [readSpace_bind, readSpace_bind, h₁.prepared.others p hne, Exec.bind_eq_ok] at hrun
  obtain ⟨_, st₂, hframe, hrun⟩ := hrun
  obtain ⟨h₂, hprocs₂⟩ := h₁.write_frame
    (onlyPage_memcpy _ _ (st.procs p).tf.toNat trapframeSize (by decide)) hframe
  cases hframe
  rw [Exec.bind_eq_ok, ← hprocs₂] at hrun
  obtain ⟨_, st₃, ha0, hrun⟩ := hrun
  obtain ⟨h₃, hprocs₃⟩ := h₂.write_frame (onlyPage_store64 _ _ tfA0 0 (by decide)) ha0
  rw [Exec.bind_eq_ok, ← hprocs₃] at hrun
  obtain ⟨_, st₄, hcopy, hrun⟩ := hrun
  obtain ⟨h₄, hprocs₄⟩ := h₃.copy hp rfl hcopy
  rw [Exec.bind_eq_ok] at hrun
  obtain ⟨mmap, st₅, hmmap, hrun⟩ := hrun
  rw [Exec.bind_eq_ok] at hrun
  obtain ⟨_, st₆, hchain, hrun⟩ := hrun
  rw [writeSpace_bind] at hrun
  obtain ⟨rfl, hend⟩ := Prod.mk.inj (Except.ok.inj hrun)
  obtain ⟨hmem₅, hprocs₅, htramp₅⟩ :=
    withoutRegions_eq (keeps_mmapRegionAlloc _ _ _ _ hmmap)
  obtain ⟨hmem₆, hprocs₆, htramp₆⟩ :=
    withoutRegions_eq (keeps_copyRegions _ _ _ _ _ _ hchain)
  have hself : st'.procs child = { st₃.procs child with
      mmap := some mmap
      heapTop := (st.procs p).heapTop
      ustackPages := (st.procs p).ustackPages
      state := .runnable } := by
    rw [← hend]
    exact Function.update_self _ _ _
  have hothers : ∀ q, q ≠ child → st'.procs q = st₄.procs q := by
    intro q hq
    rw [← hend]
    simp only [Function.update_of_ne hq, hprocs₆, hprocs₅]
  have hmem : st'.mem = st₄.mem := by
    rw [← hend]
    exact hmem₆.trans hmem₅
  have htramp : st'.trampolinePage = st₄.trampolinePage := by
    rw [← hend]
    exact htramp₆.trans htramp₅
  obtain ⟨hbegins, hframe⟩ := h₄.start h (by rw [hself, hprocs₄]) (by rw [hself, hprocs₄])
    (by rw [hself]; exact Kernel.ProcState.noConfusion)
    (by rw [hself]; exact h.kept.settled.heap p hp) hothers hmem htramp
  have htf : (st'.procs child).tf = (st₁.procs child).tf := by
    rw [hself, hprocs₃]
  rw [htf] at hframe ⊢
  exact ⟨hbegins, st₁.mem.mem, h₁.saves _ (mem_trapframes hp), hframe⟩

/-! `proc_exec` -/

/-- The new table while the trap frames of all processes keep their bytes; the new trap
frame has those of `old`. -/
structure Ready (st : UvmState) (old : UInt64) (mem : MemState) (tf pgtbl : UInt64) :
    Prop where
  space : NewSpace st mem tf pgtbl
  seated : Seated mem.mem pgtbl tf st.trampolinePage
  table : mem.kernRegion.Contains pgtbl
  saves : Saves st.trapframes st.mem mem
  frame : ∀ i, i < 4096 → mem.mem (tf.toNat + i) = st.mem.mem (old.toNat + i)

theorem newTable_ready (h : st.Isolated) (hp : st.Used p)
    (hrun : newTable (st.procs p) st = .ok ((tf, pgtbl), st')) :
    Ready st (st.procs p).tf st'.mem tf pgtbl := by
  have hnew := (newTable_spec h hrun).1
  unfold newTable at hrun
  obtain ⟨tf', mem₁, halloc, hrun⟩ := liftMem_bind_eq_ok.mp hrun
  obtain ⟨_, mem₂, hcopy, hrun⟩ := liftMem_bind_eq_ok.mp hrun
  rw [Exec.bind_of_ok (m := get) rfl] at hrun
  obtain ⟨t, mem₃, hinit, hrun⟩ := liftMem_bind_eq_ok.mp hrun
  obtain ⟨hresult, rfl⟩ := Prod.mk.inj (Except.ok.inj hrun)
  obtain ⟨rfl, rfl⟩ := Prod.mk.inj hresult
  cases hcopy
  obtain ⟨lk, lu, hspaces⟩ := h.spaces
  obtain ⟨_, hnot, hspaces₁, _⟩ := hspaces.alloc halloc
  have hextra : tf' ∈ insert tf' (∅ : Set UInt64) := Set.mem_insert tf' ∅
  have honly := onlyPage_memcpy tf' mem₁.mem (st.procs p).tf.toNat 4096 (le_refl _)
  obtain ⟨hspaces₂, _⟩ := hspaces₁.write_held (.inr hextra) honly
  obtain ⟨hseated, hin⟩ := procPgtblInit_seated hspaces₂.frames hinit
  have hown : tf' ∉ st.trapframes := fun hmem => hnot (.inl hmem)
  have hcopied : Saves st.trapframes mem₁
      (mem₁.setMem (mem₁.mem.memcpy tf'.toNat (st.procs p).tf.toNat 4096)) :=
    saves_extra hspaces₁ hextra hown honly
  have halloc' : Saves st.trapframes st.mem mem₁ :=
    (saves_alloc hspaces.frames halloc).mono Set.subset_union_left
  have hinit' := procPgtblInit_saves hspaces₂.frames hinit
  refine ⟨hnew, hseated, hin,
    (halloc'.trans hcopied).trans (hinit'.mono Set.subset_union_left), ?_⟩
  intro i hi
  have hold := mem_trapframes hp
  have haligned := (hspaces₁.frames.held_in _ (.inr hextra)).aligned
  have haligned' := (hspaces₁.frames.held_in _ (.inl hold)).aligned
  have hne : tf'.toNat ≠ (st.procs p).tf.toNat := fun heq =>
    hown (UInt64.toNat_inj.mp heq ▸ hold)
  have hpage : ∀ f : UInt64, InPage f (f.toNat + i) := fun f => ⟨by omega, by omega⟩
  rw [hinit' tf' (.inr hextra) _ (hpage tf'), MemState.mem_setMem,
    Memory.memcpy_of_mem (by omega) (by omega) (by omega), Nat.add_sub_cancel_left,
    halloc' _ hold _ (hpage _)]

theorem Ready.build (h : Ready st old mem tf pgtbl)
    (hbuilds : Builds (insert pgtbl st.roots) pgtbl (insert tf st.trapframes) mem mem')
    (hsaves : Saves (insert tf st.trapframes) mem mem') : Ready st old mem' tf pgtbl := by
  refine ⟨h.space.build hbuilds, h.seated.of_upper hbuilds.upper (Set.mem_insert _ _),
    (contains_of_setting hbuilds.setting true _).mpr h.table,
    h.saves.trans (hsaves.mono (Set.subset_insert _ _)), ?_⟩
  intro i hi
  exact (hsaves tf (Set.mem_insert _ _) _ ⟨by omega, by omega⟩).trans (h.frame i hi)

theorem loadImage_entry {file : ExecFile} {entry heapTop : UInt64}
    (hrun : loadImage file pgtbl mem = .ok (some (entry, heapTop), mem')) :
    entry = file.header.entry := by
  unfold loadImage at hrun
  obtain ⟨data, hread, hrun⟩ := inodeReadData_bind_eq_ok.mp hrun
  dsimp only at hrun
  split at hrun
  · cases hrun
  next hfull =>
  split at hrun
  · cases hrun
  rw [Exec.bind_eq_ok] at hrun
  obtain ⟨loaded, s₁, _, hrun⟩ := hrun
  have hbytes : data.2 = file.bytes.take 64 :=
    (readData_full (by decide) hread (not_not.mp hfull)).2.2.1 (by decide)
  rw [hbytes] at hrun
  cases loaded with
  | none => cases hrun
  | some top =>
      cases hrun
      rfl

theorem buildImage_ready {file : ExecFile} {space : Space} {entry : UInt64}
    (h : Ready st old st₁.mem tf pgtbl)
    (hrun : buildImage p space file pgtbl st₁ = .ok (some entry, st')) :
    Ready st old st'.mem tf pgtbl ∧ entry = file.header.entry := by
  have hroot : pgtbl ∈ insert pgtbl st.roots := Set.mem_insert _ _
  unfold buildImage at hrun
  obtain ⟨loaded, s₂, hload, hrun⟩ := liftMem_bind_eq_ok.mp hrun
  cases loaded with
  | none => cases hrun
  | some image =>
      obtain ⟨entry', heapTop⟩ := image
      obtain ⟨page, s₃, halloc, hrun⟩ := liftMem_bind_eq_ok.mp hrun
      rw [writeSpace_bind] at hrun
      obtain ⟨_, s₄, hmap, hrun⟩ := liftMem_bind_eq_ok.mp hrun
      obtain ⟨hentry, rfl⟩ := Prod.mk.inj (Except.ok.inj hrun)
      cases hentry
      obtain ⟨lk, lu, hspaces⟩ := h.space.spaces
      obtain ⟨hbuilds, _⟩ := loadImage_builds hspaces hroot h.space.entries hload
      obtain ⟨_, _, hspaces₂⟩ := hbuilds.spaces
      obtain ⟨hbuilds', _⟩ := mapFresh_builds hspaces₂ hroot (by decide) (by decide) halloc hmap
      exact ⟨(h.build hbuilds (loadImage_saves hspaces hroot h.space.entries hload)).build
        hbuilds' (mapFresh_saves hspaces₂ hroot halloc hmap), loadImage_entry hload⟩

theorem Ready.write_user (h : Ready st old mem tf pgtbl) {va page : UInt64} {m : Memory}
    (hva : va < vaMax) (hpage : userFrame mem.mem pgtbl va = some page)
    (honly : OnlyPage page mem.mem m) : Ready st old (mem.setMem m) tf pgtbl := by
  have hroot : pgtbl ∈ insert pgtbl st.roots := Set.mem_insert _ _
  obtain ⟨lk, lu, hspaces⟩ := h.space.spaces
  have hsaves : Saves (insert tf st.trapframes ∪ ∅) mem (mem.setMem m) :=
    saves_user hspaces.frames hroot hva hpage honly
  exact h.build (write_user_builds hspaces hroot hva hpage honly)
    (hsaves.mono Set.subset_union_left)

theorem Ready.switch_saves (h : Ready st old st₁.mem tf pgtbl) (hsettled : st.Settled)
    (hp : st.Used p) {entry sp : UInt64}
    (hrun : switchImage p (st.procs p) pgtbl tf entry sp st₁ = .ok (value, st')) :
    Saves st.trapframes st₁.mem st'.mem ∧
      SamePage tf (withRegisters st₁.mem.mem tf entry sp) st'.mem.mem := by
  obtain ⟨_, _, hdestroy, rfl, _⟩ := switchImage_eq_ok hrun
  have hmem := mem_roots hp
  obtain ⟨lk, lu, hspaces⟩ := h.space.spaces
  have hheld : tf ∈ insert tf st.trapframes ∪ ∅ := .inl (Set.mem_insert _ _)
  have honly := onlyPage_withRegisters st₁.mem.mem tf entry sp
  obtain ⟨hspaces₁, htables₁, _⟩ := hspaces.write_held hheld honly
  have hupper₁ := (h.space.upper.trans
    ((KeepsUpper.of_samePages htables₁).mono (Set.subset_insert _ _))).links _ hmem
  obtain ⟨_, _, _, _, htfs⟩ := uvmDestroyPgtbl_spec hspaces₁
    (regionsApart_of_setting h.space.setting hsettled.apart) (Set.mem_insert_of_mem _ hmem)
    (hupper₁ (hsettled.upper p hp)) hdestroy
  have hframes := hspaces.frames.held_mono
    ((Set.subset_insert tf st.trapframes).trans Set.subset_union_left)
  have hwritten : Saves st.trapframes st₁.mem
      (st₁.mem.setMem (withRegisters st₁.mem.mem tf entry sp)) :=
    saves_only hframes (hspaces.frames.held_in _ hheld) h.space.own honly
  exact ⟨hwritten.trans fun f hf => htfs f (Set.mem_insert_of_mem _ hf),
    htfs tf (Set.mem_insert _ _)⟩

/-- The process runs in its new image, and no other process notices. -/
theorem Ready.switched {space : Space} {entry sp : UInt64} (h : st.Living) (hp : st.Used p)
    (hready : Ready st old mem tf pgtbl)
    (hswitched : Switched st (st.procs p).pgtbl mem st'.mem tf pgtbl entry sp)
    (hsaves : Saves st.trapframes mem st'.mem) (hkept : st'.Kept)
    (hprocs : st'.procs = Function.update st.procs p space)
    (hpgtbl : space.pgtbl = pgtbl) (htf : space.tf = tf)
    (htramp : st'.trampolinePage = st.trampolinePage) : Serves (some p) st st' := by
  have hself : st'.procs p = space := by
    rw [hprocs, Function.update_self]
  have hother : ∀ q, q ≠ p → st'.procs q = st.procs q := by
    intro q hq
    rw [hprocs, Function.update_of_ne hq]
  have hused : ∀ q, q ≠ p → st'.Used q → st.Used q := by
    intro q hqp hq
    unfold Used at hq ⊢
    rwa [hother q hqp] at hq
  have hmem : ∀ q, q ≠ p → st.Used q →
      (st.procs q).pgtbl ∈ insert pgtbl st.roots \ {(st.procs p).pgtbl} := fun q hqp hq =>
    ⟨.inr (mem_roots hq), fun heq => hqp (h.kept.isolated.distinct q p hq hp heq)⟩
  have hnew : pgtbl ∈ insert pgtbl st.roots \ {(st.procs p).pgtbl} := by
    refine ⟨.inl rfl, ?_⟩
    rintro rfl
    exact hready.space.fresh (mem_roots hp)
  have hsetting := hswitched.setting.trans hready.space.setting
  refine ⟨⟨hkept, ?_, ?_, ?_⟩, ?_, hsetting⟩
  · intro a b ha hb heq
    by_cases hap : a = p
    · by_cases hbp : b = p
      · rw [hap, hbp]
      · rw [hap, hself, hother b hbp, htf] at heq
        exact absurd (heq ▸ mem_trapframes (hused b hbp hb)) hready.space.own
    · by_cases hbp : b = p
      · rw [hbp, hself, hother a hap, htf] at heq
        exact absurd (heq ▸ mem_trapframes (hused a hap ha)) hready.space.own
      · rw [hother a hap, hother b hbp] at heq
        exact h.distinct a b (hused a hap ha) (hused b hbp hb) heq
  · intro a ha
    rw [htramp]
    by_cases hap : a = p
    · rw [hap, hself, hpgtbl, htf]
      exact hready.seated.of_upper hswitched.upper hnew
    · have hold := hused a hap ha
      rw [hother a hap]
      exact ((h.seated a hold).of_upper hready.space.upper (mem_roots hold)).of_upper
        hswitched.upper (hmem a hap hold)
  · intro a ha
    by_cases hap : a = p
    · rw [hap, hself, hpgtbl]
      exact (contains_of_setting hswitched.setting true _).mpr hready.table
    · rw [hother a hap]
      exact (contains_of_setting hsetting true _).mpr (h.table a (hused a hap ha))
  · intro q hq hne
    have hqp : q ≠ p := by
      rintro rfl
      exact hne rfl
    obtain ⟨hin, hapart⟩ := hmem q hqp hq
    refine ⟨hother q hqp, ?_, (hready.saves.trans hsaves) _ (mem_trapframes hq), ?_⟩
    · intro va hva
      unfold readByte
      rw [hother q hqp]
      exact ((hready.space.spares _ (mem_roots hq)).trans
        (hswitched.spares _ hin hapart)).userByte hva
    · intro va hva hmax
      exact (hswitched.upper.kernel _ ⟨hin, hapart⟩ va hva hmax).trans
        (hready.space.upper.kernel _ (mem_roots hq) va hva hmax)

theorem Ready.left_behind (h : st.Living) (hready : Ready st old mem tf pgtbl)
    (p : ProcId) : KeepsSeats p st { st with mem := mem } := by
  refine ⟨⟨⟨h.kept.left_behind hready.space, h.distinct, ?_, ?_⟩, ?_, hready.space.setting⟩,
    fun _ => ⟨rfl, rfl, rfl⟩, hready.saves⟩
  · intro a ha
    exact (h.seated a ha).of_upper hready.space.upper (mem_roots ha)
  · intro a ha
    exact (contains_of_setting hready.space.setting true _).mpr (h.table a ha)
  · intro q hq _
    refine ⟨rfl, fun va hva => (hready.space.spares _ (mem_roots hq)).userByte hva,
      hready.saves _ (mem_trapframes hq), fun va hva hmax =>
        hready.space.upper.kernel _ (mem_roots hq) va hva hmax⟩

theorem procExec_none {args : ExecArgv} {result : Int} (h : st.Living) (hp : st.Used p)
    (hrun : procExec p none args.argv st = .ok (result, st')) : KeepsSeats p st st' := by
  obtain ⟨tf, pgtbl, st₁, htable, ⟨_, rfl⟩ | ⟨file, _, _, _, _, _, hnone, _⟩⟩ :=
    procExec_eq_ok hrun
  · rw [(newTable_spec h.kept.isolated htable).2.1]
    exact (newTable_ready h.kept.isolated hp htable).left_behind h p
  · cases hnone

def startSp (argv : List (List UInt8)) : UInt64 :=
  UInt64.ofNat (lowest 16 trapframe.toNat (argv.map argSize ++ [ptrsSize argv]))

theorem startSp_of_placed {f sp : UInt64} {m : Memory} {argv : List (List UInt8)}
    {ptrs : List UInt64} (h : Placed f m argv ptrs sp) : sp = startSp argv := by
  have hareas := h.areas
  rw [areas_append] at hareas
  have hlast := (List.append_inj' hareas rfl).2
  have hsp : sp.toNat = lowest 16 trapframe.toNat (argv.map argSize ++ [ptrsSize argv]) := by
    rw [lowest_append]
    exact congrArg Prod.fst (List.cons.inj hlast).1
  unfold startSp
  rw [← hsp, UInt64.ofNat_toNat]

structure Executes (p : ProcId) (st st' : UvmState) (entry sp : UInt64) : Prop where
  serves : Serves (some p) st st'
  others : ∀ q, q ≠ p → st'.procs q = st.procs q
  state : (st'.procs p).state = (st.procs p).state
  frame : ∃ m : Memory, (∀ i, i < 4096 →
      m ((st'.procs p).tf.toNat + i) = st.mem.mem ((st.procs p).tf.toNat + i)) ∧
    SamePage (st'.procs p).tf (withRegisters m (st'.procs p).tf entry sp) st'.mem.mem

/-- The new image starts at its entry point, with its arguments on the stack and the other
registers as they were. -/
theorem procExec_executes {file : ExecFile} {args : ExecArgv} {result : Int} (h : st.Living)
    (hp : st.Used p) (hrun : procExec p (some file) args.argv st = .ok (result, st')) :
    Executes p st st' file.header.entry (startSp args.argv) := by
  have hkept := procExec_kept h.kept hp hrun
  obtain ⟨tf, pgtbl, st₁, htable, hcases⟩ := procExec_eq_ok hrun
  have hready₁ := newTable_ready h.kept.isolated hp htable
  rcases hcases with ⟨hnone, _⟩ | ⟨_, entry, st₂, argc, sp, mem, heq, himage, hpush, hswitch, _⟩
  · cases hnone
  cases heq
  obtain ⟨hready₂, rfl⟩ := buildImage_ready hready₁ himage
  obtain ⟨_, m, f, hpush', hnew, _, hframe, honly, hfits, heapTop, hst₂⟩ :=
    pushArgv_newSpace h.kept.isolated args.count args.strings htable himage
  obtain ⟨rfl, rfl⟩ := Prod.mk.inj (Except.ok.inj (hpush.symm.trans hpush'))
  have hsp : sp = startSp args.argv := by
    split at hfits
    · obtain ⟨ptrs, sp', heq, hplaced⟩ := hfits
      cases heq
      exact startSp_of_placed hplaced
    · cases hfits
  subst hsp
  have hready := hready₂.write_user (by decide) hframe honly
  obtain ⟨hswitched, ⟨mmap, hprocs⟩, htramp⟩ := hnew.switch h.kept.settled hp rfl hswitch
  obtain ⟨hsaves, hregisters⟩ := hready.switch_saves h.kept.settled hp hswitch
  have hprocs₂ : st₂.procs = Function.update st.procs p (withHeap (st.procs p) heapTop) := by
    rw [hst₂]
  have htramp₂ : st₂.trampolinePage = st.trampolinePage := by
    rw [hst₂]
  dsimp only at hprocs htramp
  rw [hprocs₂, Function.update_idem, Function.update_self] at hprocs
  have hself : st'.procs p = withImage (withHeap (st.procs p) heapTop) pgtbl tf mmap := by
    rw [hprocs, Function.update_self]
  refine ⟨hready.switched h hp hswitched hsaves hkept hprocs rfl rfl (htramp.trans htramp₂),
    fun q hq => by rw [hprocs, Function.update_of_ne hq], by rw [hself]; rfl, m, ?_, ?_⟩
  · rw [hself]
    exact hready.frame
  · rw [hself]
    exact hregisters

theorem procExec_serves {ip : Option ExecFile} {args : ExecArgv} {result : Int}
    (h : st.Living) (hp : st.Used p)
    (hrun : procExec p ip args.argv st = .ok (result, st')) : Serves (some p) st st' := by
  cases ip with
  | none => exact (procExec_none h hp hrun).serves
  | some file => exact (procExec_executes h hp hrun).serves

/-! The end of a process. -/

theorem Living.freed (h : st.Living) (hp : st.Used p) (hprocs : st'.procs =
      Function.update st.procs p Space.free)
    (htramp : st'.trampolinePage = st.trampolinePage)
    (hsetting : setting st'.mem = setting st.mem)
    (hframes : ∃ lk lu, Frames st'.mem (st.roots \ {(st.procs p).pgtbl}) lk lu
      (st.trapframes \ {(st.procs p).tf}))
    (hspares : ∀ r ∈ st.roots, r ≠ (st.procs p).pgtbl → Spares r st.mem st'.mem)
    (htranslate : ∀ r ∈ st.roots, r ≠ (st.procs p).pgtbl → ∀ x, x < vaMax →
      Mem.translate st'.mem.mem r x = Mem.translate st.mem.mem r x)
    (hupper : KeepsUpper (st.roots \ {(st.procs p).pgtbl}) st.mem.mem st'.mem.mem)
    (hsaves : Saves (st.trapframes \ {(st.procs p).tf}) st.mem st'.mem) :
    Serves (some p) st st' := by
  have hother : ∀ q, q ≠ p → st'.procs q = st.procs q := by
    intro q hq
    rw [hprocs, Function.update_of_ne hq]
  have hused : ∀ q, st'.Used q ↔ q ≠ p ∧ st.Used q := by
    intro q
    unfold Used
    by_cases hqp : q = p
    · subst hqp
      rw [hprocs, Function.update_self]
      exact iff_of_false (fun hne => hne rfl) fun hboth => hboth.1 rfl
    · rw [hother q hqp]
      exact ⟨fun hq => ⟨hqp, hq⟩, fun hboth => hboth.2⟩
  have hapart : ∀ q, q ≠ p → st.Used q → (st.procs q).pgtbl ≠ (st.procs p).pgtbl :=
    fun q hqp hq heq => hqp (h.kept.isolated.distinct q p hq hp heq)
  have hmem : ∀ q, q ≠ p → st.Used q →
      (st.procs q).pgtbl ∈ st.roots \ {(st.procs p).pgtbl} :=
    fun q hqp hq => ⟨mem_roots hq, hapart q hqp hq⟩
  have hroots : st'.roots = st.roots \ {(st.procs p).pgtbl} := by
    ext t
    constructor
    · rintro ⟨q, hq, rfl⟩
      obtain ⟨hqp, hq⟩ := (hused q).mp hq
      rw [hother q hqp]
      exact hmem q hqp hq
    · rintro ⟨⟨q, hq, rfl⟩, hne⟩
      have hqp : q ≠ p := by
        rintro rfl
        exact hne rfl
      exact ⟨q, (hused q).mpr ⟨hqp, hq⟩, by rw [hother q hqp]⟩
  have htfs : st'.trapframes ⊆ st.trapframes \ {(st.procs p).tf} := by
    rintro f ⟨q, hq, rfl⟩
    obtain ⟨hqp, hq⟩ := (hused q).mp hq
    rw [hother q hqp]
    exact ⟨mem_trapframes hq, fun heq => hqp (h.distinct q p hq hp heq)⟩
  have hcontains := contains_of_bounds (congrArg Prod.fst hsetting)
  obtain ⟨lk, lu, hframes⟩ := hframes
  refine ⟨⟨kept_of_tables ⟨lk, lu, ?_⟩ ?_ ?_ ?_ ?_ ?_
    (regionsApart_of_setting hsetting h.kept.settled.apart), ?_, ?_, ?_⟩, ?_, hsetting⟩
  · rw [hroots]
    exact hframes.held_mono htfs
  · intro q hq
    obtain ⟨hqp, hq⟩ := (hused q).mp hq
    rw [hother q hqp]
    exact (h.kept.settled.own q hq).congr (fun _ hf => hf) hcontains
      (htranslate _ (mem_roots hq) (hapart q hqp hq))
  · intro q hq
    obtain ⟨hqp, hq⟩ := (hused q).mp hq
    rw [hother q hqp]
    exact hupper.links _ (hmem q hqp hq) (h.kept.settled.upper q hq)
  · intro q hq
    obtain ⟨hqp, hq⟩ := (hused q).mp hq
    rw [hother q hqp]
    exact h.kept.settled.heap q hq
  · intro a b ha hb heq
    obtain ⟨hap, ha⟩ := (hused a).mp ha
    obtain ⟨hbp, hb⟩ := (hused b).mp hb
    rw [hother a hap, hother b hbp] at heq
    exact h.kept.isolated.distinct a b ha hb heq
  · rw [htramp, hcontains]
    exact h.kept.isolated.trampoline
  · intro a b ha hb heq
    obtain ⟨hap, ha⟩ := (hused a).mp ha
    obtain ⟨hbp, hb⟩ := (hused b).mp hb
    rw [hother a hap, hother b hbp] at heq
    exact h.distinct a b ha hb heq
  · intro a ha
    obtain ⟨hap, ha⟩ := (hused a).mp ha
    rw [hother a hap, htramp]
    exact (h.seated a ha).of_upper hupper (hmem a hap ha)
  · intro a ha
    obtain ⟨hap, ha⟩ := (hused a).mp ha
    rw [hother a hap]
    exact (contains_of_setting hsetting true _).mpr (h.table a ha)
  · intro q hq hne
    have hqp : q ≠ p := by
      rintro rfl
      exact hne rfl
    refine ⟨hother q hqp, ?_, ?_, ?_⟩
    · intro va hva
      unfold readByte
      rw [hother q hqp]
      exact (hspares _ (mem_roots hq) (hapart q hqp hq)).userByte hva
    · exact hsaves _ ⟨mem_trapframes hq, fun heq => hqp (h.distinct q p hq hp heq)⟩
    · exact hupper.kernel _ (hmem q hqp hq)

theorem procFree_serves (h : st.Living) (hp : st.Used p)
    (hrun : procFree p st = .ok (value, st')) :
    Serves (some p) st st' ∧ st'.procs = Function.update st.procs p Space.free := by
  obtain ⟨lk, lu, hspaces⟩ := h.kept.isolated.spaces
  have hframes := hspaces.frames
  rw [Set.union_empty] at hframes
  have hroot := mem_roots hp
  have htf := mem_trapframes hp
  have htfZero : (st.procs p).tf ≠ 0 := hframes.nonzero _ (hframes.held_in _ htf)
  have hpgtblZero : (st.procs p).pgtbl ≠ 0 := hframes.tables.nonzero _ hroot
  unfold procFree at hrun
  rw [readSpace_bind, if_pos htfZero, if_pos hpgtblZero] at hrun
  obtain ⟨_, mem₁, hfree, hrun⟩ := liftMem_bind_eq_ok.mp hrun
  obtain ⟨_, st₂, hregions, hrun⟩ := Exec.bind_eq_ok.mp hrun
  obtain ⟨_, mem₃, hdestroy, hrun⟩ := liftMem_bind_eq_ok.mp hrun
  obtain ⟨_, rfl⟩ := Prod.mk.inj (Except.ok.inj hrun)
  obtain ⟨hmem₂, hprocs₂, htramp₂⟩ :=
    withoutRegions_eq (keeps_freeRegions _ _ _ _ _ hregions)
  rw [hmem₂] at hdestroy
  dsimp only at hdestroy hprocs₂ htramp₂
  -- the trap frame is given back while the table still leads to it
  have hgone : (st.procs p).tf ∉ st.trapframes \ {(st.procs p).tf} := fun hmem => hmem.2 rfl
  obtain ⟨lu₁, hframes₁, honly, hbounds⟩ := hframes.free htf Set.sdiff_subset hgone hfree
  have hin := hframes.held_in _ htf
  have hsetting₁ := keeps_pmemFree _ _ _ _ _ hfree
  have htables : ∀ t, IsTable st.mem.mem st.roots t → SamePage t st.mem.mem mem₁.mem :=
    fun t ht => hframes.touch_table hin honly ht
  have hupper₁ : KeepsUpper st.roots st.mem.mem mem₁.mem := .of_samePages htables
  have hkernel : KernelPages mem₁ (st.procs p).pgtbl {(st.procs p).tf} :=
    (h.kept.settled.own p hp).congr (fun _ hf => hf) hbounds fun va _ =>
      translate_of_samePages hroot htables va
  obtain ⟨hframes₃, hsetting₃, hspares₃, htranslate₃, hupper₃, hsame₃⟩ :=
    uvmDestroyPgtbl_frames hframes₁ hkernel
      (regionsApart_of_setting hsetting₁ h.kept.settled.apart) hroot
      (hupper₁.links _ hroot (h.kept.settled.upper p hp)) hdestroy
  have hprocs : Function.update st₂.procs p Space.free =
      Function.update st.procs p Space.free := by
    rw [hprocs₂]
  refine ⟨h.freed hp hprocs htramp₂ (hsetting₃.trans hsetting₁) hframes₃ ?_ ?_
    ((hupper₁.mono Set.sdiff_subset).trans hupper₃) ?_, hprocs⟩
  · intro r hr hne
    refine (hframes.touch_spares hin honly hr fun va hva => ?_).trans (hspares₃ r hr hne)
    exact hframes.not_held htf hr hva
  · intro r hr hne x hx
    rw [htranslate₃ r hr hne x hx]
    exact translate_of_samePages hr htables x
  · intro f hf
    refine SamePage.trans ?_ (hsame₃ f hf)
    exact honly.samePage hin.aligned (hframes.held_in f hf.1).aligned hf.2

end UvmState

end UnoOS.Uvm
