import UnoOS.Uvm.ExecArgs
import UnoOS.Uvm.LoadSegments

namespace UnoOS.Uvm

open UnoOS.Lib
open UnoOS.Lib.Exec (Returns StopsWith)
open UnoOS.Fs (Stop)
open UnoOS.Kernel (ProcId)
open UnoOS.Mem

/-! `proc_exec` loads all segments exactly if they are joined. -/

variable {st st₁ st' : UvmState} {p : ProcId} {file : ExecFile} {argv : List (List UInt8)}
  {tf pgtbl : UInt64}

theorem liftMem_returns {α : Type} {m : MemM α} {Q : α → MemState → Prop}
    (h : Returns OutOfMemory m st.mem Q) :
    Returns OutOfMemory (liftMem m) st fun value st' =>
      Q value st'.mem ∧ st' = { st with mem := st'.mem } := by
  refine .intro (fun reason hrun => h.stops (liftMem_eq_error.mp hrun)) ?_
  intro value st' hrun
  obtain ⟨mem, hm, rfl⟩ := liftMem_eq_ok.mp hrun
  exact ⟨h.returns hm, rfl⟩

/-! The old space. -/

/-- The space of a process can be given back: its table has the pages of the kernel as
leaves, the tables are pages of the kernel, and the list of regions ends. -/
structure Discardable (st : UvmState) (p : ProcId) : Prop where
  leaves : ∀ va, KernelPage va → ∃ pte, MapsLeaf st.mem.mem (st.procs p).pgtbl va pte
  tables : KernelTables st.mem st.roots
  regions : ∃ l, Linked st.regions (st.procs p).mmap l

theorem Linked.congr {regions regions' : MmapId → MmapRegion} {id : Option MmapId}
    {l : List MmapId} (h : Linked regions id l)
    (hnext : ∀ node, (regions' node).next = (regions node).next) : Linked regions' id l :=
  linked_iff.mpr ((linked_iff.mp h).congr fun node _ => hnext node)

/-- The pool is linked by another field than the lists of processes. -/
theorem mmapRegionFree_total (id : MmapId) (st : UvmState) :
    ∃ st', mmapRegionFree id st = .ok ((), st') ∧
      ∀ node, (st'.regions node).next = (st.regions node).next := by
  refine ⟨_, rfl, ?_⟩
  intro node
  dsimp only
  simp only [Function.update_apply]
  split
  · split
    · simp_all
    · simp_all
  · split
    · simp_all
    · rfl

theorem freeRegions_total {steps : Nat} {id : Option MmapId} {l : List MmapId}
    (h : Linked st.regions id l) (hsteps : l.length ≤ steps) :
    ∃ st', freeRegions steps id st = .ok ((), st') := by
  induction l generalizing st steps id with
  | nil =>
      rw [show id = none from h]
      cases steps with
      | zero => exact ⟨st, rfl⟩
      | succ steps => exact ⟨st, rfl⟩
  | cons node rest ih =>
      obtain ⟨rfl, hrest⟩ := h
      obtain ⟨steps, rfl⟩ := Nat.exists_eq_succ_of_ne_zero
        (Nat.ne_of_gt (Nat.lt_of_lt_of_le (Nat.succ_pos rest.length) hsteps))
      obtain ⟨st₁, hfree, hnext⟩ := mmapRegionFree_total node st
      obtain ⟨st', hrun⟩ := ih (hrest.congr hnext) (Nat.le_of_succ_le_succ hsteps)
      refine ⟨st', ?_⟩
      rw [freeRegions, readRegion_bind, Exec.bind_of_ok hfree]
      exact hrun

theorem mmapRegionAlloc_stops (init : Bool) : StopsWith OutOfMemory (mmapRegionAlloc init) := by
  have hread : ∀ id, StopsWith OutOfMemory (readRegion id) := fun id =>
    .bind .get_intro fun _ => .pure_intro _
  refine StopsWith.bind (hread _) fun head => ?_
  cases head.link with
  | none => exact .stop_intro (.inr (.inr rfl))
  | some id =>
      refine StopsWith.bind (hread _) fun region => ?_
      have hrest : StopsWith OutOfMemory (do
          let head ← readRegion listHead
          writeRegion listHead { head with link := region.link }
          return id : UvmM MmapId) := by
        refine StopsWith.bind (hread _) fun head => ?_
        exact .bind (.modify_intro _) fun _ => .pure_intro _
      refine StopsWith.ite ?_ hrest
      exact .bind (.modify_intro _) fun _ => hrest

/-- The end of `switchImage`: two regions for the new list. -/
def newRegions (p : ProcId) (pgtbl tf : UInt64) : UvmM Unit := do
  let mmap ← mmapRegionAlloc false
  let region ← readRegion mmap
  writeRegion mmap { region with begin := mmapBegin, npages := 0 }
  let next ← mmapRegionAlloc true
  let region ← readRegion mmap
  writeRegion mmap { region with next := some next }
  let space ← readSpace p
  writeSpace p { space with pgtbl := pgtbl, tf := tf, mmap := some mmap }

theorem newRegions_stops (p : ProcId) (pgtbl tf : UInt64) :
    StopsWith OutOfMemory (newRegions p pgtbl tf) := by
  have hread : ∀ id, StopsWith OutOfMemory (readRegion id) := fun id =>
    .bind .get_intro fun _ => .pure_intro _
  have hwrite : ∀ id region, StopsWith OutOfMemory (writeRegion id region) := fun id region =>
    .modify_intro _
  refine StopsWith.bind (mmapRegionAlloc_stops false) fun mmap => ?_
  refine StopsWith.bind (hread mmap) fun region => ?_
  refine StopsWith.bind (hwrite _ _) fun _ => ?_
  refine StopsWith.bind (mmapRegionAlloc_stops true) fun next => ?_
  refine StopsWith.bind (hread mmap) fun region => ?_
  refine StopsWith.bind (hwrite _ _) fun _ => ?_
  refine StopsWith.bind (.bind .get_intro fun _ => .pure_intro _) fun space => ?_
  exact .modify_intro _

/-- The old space is given back, and the new regions are left to do. -/
theorem NewSpace.switch_eq {entry sp : UInt64} (h : NewSpace st st₁.mem tf pgtbl)
    (hsettled : st.Settled) (hp : st.Used p) (hdiscard : Discardable st p)
    (hregions : st₁.regions = st.regions) :
    ∃ mem st₂, freeRegions nMmap (st.procs p).mmap { st₁ with mem := mem } = .ok ((), st₂) ∧
      switchImage p (st.procs p) pgtbl tf entry sp st₁ = newRegions p pgtbl tf st₂ := by
  have hmem := UvmState.mem_roots hp
  obtain ⟨lk, lu, hspaces⟩ := h.spaces
  have honly := onlyPage_withRegisters st₁.mem.mem tf entry sp
  obtain ⟨hspaces₁, htables₁, _⟩ :=
    hspaces.write_held (.inl (Set.mem_insert tf st.trapframes)) honly
  have hupper := h.upper.trans
    ((KeepsUpper.of_samePages htables₁).mono (Set.subset_insert _ _))
  have hleaves : ∀ va, KernelPage va → ∃ pte,
      MapsLeaf (withRegisters st₁.mem.mem tf entry sp) (st.procs p).pgtbl va pte := by
    intro va hva
    obtain ⟨pte, hpte, hleaf⟩ := hdiscard.leaves va hva
    have hge : trapframe ≤ va := by
      rcases hva with rfl | rfl
      · exact UInt64.le_refl _
      · decide
    exact ⟨pte, (hupper.kernel _ hmem va hge hva.bounds.2.1).trans hpte, hleaf⟩
  obtain ⟨mem, hdestroy⟩ := uvmDestroyPgtbl_total hspaces₁ (Set.mem_insert_of_mem _ hmem)
    (hupper.links _ hmem (hsettled.upper p hp))
    ((h.tables hdiscard.tables).of_samePages htables₁ rfl) hleaves
  have hdestroy' : liftMem (uvmDestroyPgtbl 3 (st.procs p).pgtbl)
      { st₁ with mem := st₁.mem.setMem (withRegisters st₁.mem.mem tf entry sp) } =
        .ok ((), { st₁ with mem := mem }) := liftMem_eq_ok.mpr ⟨mem, hdestroy, rfl⟩
  obtain ⟨l, hl⟩ := hdiscard.regions
  rw [← hregions] at hl
  obtain ⟨st₂, hfree⟩ := @freeRegions_total { st₁ with mem := mem } _ _ _ hl hl.length_le
  refine ⟨mem, st₂, hfree, ?_⟩
  change (liftMem (uvmDestroyPgtbl 3 (st.procs p).pgtbl) >>= fun _ =>
    freeRegions nMmap (st.procs p).mmap >>= fun _ => newRegions p pgtbl tf)
      { st₁ with mem := st₁.mem.setMem (withRegisters st₁.mem.mem tf entry sp) } = _
  rw [Exec.bind_of_ok hdestroy', Exec.bind_of_ok hfree]

/-! The new space. -/

theorem buildImage_returns {old : Space} (h : NewSpace st st₁.mem tf pgtbl)
    (hend : st₁.mem.userRegion.end_ ≤ allocEnd)
    (hnone : ∀ x, x < vaMax → userByte st₁.mem.mem pgtbl x = none) (hfile : WellFormed file)
    (hreach : InReach file) (hjoined : Joined userVmemStart.toNat file.segments) :
    Returns OutOfMemory (buildImage p old file pgtbl) st₁ fun result st₂ =>
      ∃ entry top, result = some entry ∧
        top.toNat = lastEnd userVmemStart.toNat file.segments ∧
        top.toNat ≤ userVmemStart.toNat + 0x88000 * 4096 ∧
        st₂ = { st₁ with
          mem := st₂.mem
          procs := Function.update st₁.procs p (withHeap old top) } ∧
        ∀ ph ∈ file.segments, SegmentLoaded file ph (userByte st₂.mem.mem pgtbl) := by
  have hroot : pgtbl ∈ insert pgtbl st.roots := Set.mem_insert _ _
  have hstart : userVmemStart.toNat = 4096 := rfl
  have hstack := stackPage_toNat
  have htf := trapframe_toNat
  obtain ⟨lk, lu, hspaces⟩ := h.spaces
  have hload := loadImage_returns hspaces hroot h.entries hend hnone hfile hreach hjoined
  have htop : ∀ (mem : MemState) (top : UInt64),
      Builds (insert pgtbl st.roots) pgtbl (insert tf st.trapframes) st₁.mem mem →
      HeapAt mem.mem pgtbl top.toNat → top.toNat ≤ userVmemStart.toNat + 0x88000 * 4096 := by
    intro mem top hbuilds hheap
    obtain ⟨lk₂, lu₂, hspaces₂⟩ := hbuilds.spaces
    exact hheap.top_le hspaces₂ hroot (end_of_setting hend hbuilds.setting)
  have hreturns : Returns OutOfMemory (buildImage p old file pgtbl) st₁ fun result _ =>
      result ≠ none := by
    unfold buildImage
    refine (liftMem_returns hload).bind ?_
    rintro _ st₂ ⟨⟨top, rfl, _, hbuilds, hheap, _⟩, hst₂⟩
    obtain ⟨lk₂, lu₂, hspaces₂⟩ := hbuilds.spaces
    have hle := htop st₂.mem top hbuilds hheap
    have hfree : userByte st₂.mem.mem pgtbl (trapframe - pgsize) = none := by
      refine hheap.free _ ?_ (by decide)
      refine (pageEnd_mono hle).trans ?_
      rw [hstart, hstack]
      decide
    refine .intro ?_ ?_
    · intro reason hrun
      rcases Exec.bind_eq_error.mp hrun with halloc | ⟨page, st₃, halloc, hrun⟩
      · exact pmemAlloc_stops false _ reason (liftMem_eq_error.mp halloc)
      obtain ⟨mem₃, hpage, rfl⟩ := liftMem_eq_ok.mp halloc
      rw [writeSpace_bind] at hrun
      rcases Exec.bind_eq_error.mp hrun with hmap | ⟨_, _, _, hrun⟩
      · exact mapFresh_stops hspaces₂ hroot (by decide) (by decide) hfree hpage
          (liftMem_eq_error.mp hmap)
      · cases hrun
    · intro result st₃ hrun
      obtain ⟨page, mem₃, _, hrun⟩ := liftMem_bind_eq_ok.mp hrun
      rw [writeSpace_bind] at hrun
      obtain ⟨_, mem₄, _, hrun⟩ := liftMem_bind_eq_ok.mp hrun
      rw [← (Prod.mk.inj (Except.ok.inj hrun)).1]
      exact Option.some_ne_none _
  refine hreturns.run.mono ?_
  rintro result st₂ ⟨hrun, hsome⟩
  obtain ⟨entry, rfl⟩ := Option.ne_none_iff_exists'.mp hsome
  obtain ⟨top, s₂, _, _, _, hloaded, _, _, _, hst₂, hbytes⟩ := buildImage_spec h hrun
  obtain ⟨_, hresult, hlast, hbuilds, hheap, hsegments⟩ := hload.returns hloaded
  obtain ⟨_, rfl⟩ := Prod.mk.inj (Option.some_inj.mp hresult)
  have hle := htop s₂ top hbuilds hheap
  refine ⟨entry, top, rfl, hlast, hle, hst₂, ?_⟩
  intro ph hmem
  have hroom := (le_lastEnd hfile.order fun ph hmem => (hfile.loadable ph hmem).start).2 ph hmem
  refine (hsegments ph hmem).congr (hfile.loadable ph hmem) (by rw [htf]; omega) ?_
  intro x hx hbelow
  rw [hbytes x hx, if_neg]
  rw [hstack]
  omega

/-! All of `proc_exec`. -/

section

variable {st₂ : UvmState} {m : Memory} {entry f sp : UInt64} {ptrs : List UInt64}

/-- A file that was loaded has its segments joined, and was read in reach if it cannot be
read elsewhere. -/
theorem Executed.joined (hexec : Executed p file argv st st₁ st₂ m st' tf pgtbl entry f sp ptrs)
    (h : st.Isolated) (hfile : WellFormed file) (hblind : file.Blind) :
    Joined userVmemStart.toNat file.segments ∧ InReach file := by
  obtain ⟨hnew, _, _⟩ := newTable_spec h hexec.table
  obtain ⟨lk, lu, hspaces⟩ := hnew.spaces
  obtain ⟨top, s₂, _, _, _, hload, _⟩ := buildImage_spec hnew hexec.image
  have htable := loadImage_reached hblind hfile hload
  rw [loadImage_eq hfile htable, Exec.bind_eq_ok] at hload
  obtain ⟨loaded, s₃, hheaders, hload⟩ := hload
  cases loaded with
  | none => cases hload
  | some top' =>
      obtain ⟨hjoined, hreached⟩ :=
        joined_of_loadHeaders hspaces (Set.mem_insert _ _) hnew.entries (by decide)
          (fun ph hmem => of_decide_eq_true (List.mem_filter.mp hmem).2) hfile.order
          (fun ph hmem => (hfile.loadable ph hmem).start) hheaders
      exact ⟨hjoined, htable, fun ph hmem =>
        (hfile.loadable ph hmem).segmentReached_iff.mp (hreached hblind ph hmem)⟩

theorem Executed.below (hexec : Executed p file argv st st₁ st₂ m st' tf pgtbl entry f sp ptrs)
    (h : st.Isolated) {x : UInt64} (hx : x < vaMax)
    (hbelow : x.toNat < (trapframe - pgsize).toNat) :
    st'.readByte p x = userByte st₂.mem.mem pgtbl x := by
  obtain ⟨hnew, _, _⟩ := newTable_spec h hexec.table
  obtain ⟨_, _, _, lk, lu, _, _, _, hstack, _⟩ := buildImage_spec hnew hexec.image
  rw [hexec.readByte hx, write_user_bytes hstack.spaces hstack.table (by decide) hexec.frame
    hexec.only hx, if_neg]
  rw [stackPage_toNat] at hbelow ⊢
  omega

theorem Executed.loadsAll {result : Int}
    (hexec : Executed p file argv st st₁ st₂ m st' tf pgtbl entry f sp ptrs)
    (h : st.Isolated) (hend : st.mem.userRegion.end_ ≤ allocEnd) (hfile : WellFormed file)
    (hreach : InReach file) (hjoined : Joined userVmemStart.toNat file.segments)
    (hrun : procExec p (some file) argv st = .ok (result, st'))
    (hresult : result = argv.length) : LoadsAll p file argv st := by
  have hstart : userVmemStart.toNat = 4096 := rfl
  have hstack := stackPage_toNat
  have htf := trapframe_toNat
  obtain ⟨hnew, _, hnone⟩ := newTable_spec h hexec.table
  obtain ⟨_, top, hentry, hlast, hle, hst₂, hsegments⟩ :=
    (buildImage_returns hnew (end_of_setting hend hnew.setting) hnone hfile hreach
      hjoined).returns hexec.image
  have hends := (le_lastEnd hfile.order fun ph hmem => (hfile.loadable ph hmem).start).2
  refine ⟨st', by rw [hrun, hresult], ?_, ?_⟩
  · intro ph hmem
    have hend := hends ph hmem
    refine (hsegments ph hmem).congr (hfile.loadable ph hmem) (by rw [htf]; omega) ?_
    intro x hx hbelow
    exact hexec.below h hx (by rw [hstack]; omega)
  · obtain ⟨heapTop, mmap, hprocs, hself⟩ := hexec.self
    have hsame : withHeap (st.procs p) heapTop = withHeap (st.procs p) top := by
      have hat := congrFun (hprocs.symm.trans (congrArg UvmState.procs hst₂)) p
      rw [Function.update_self] at hat
      exact hat.trans (Function.update_self _ _ _)
    rw [hself, hsame]
    change (pgroundup top).toNat = _
    rw [pgroundup_toNat (by omega), hlast]
    rfl

end

theorem procExec_returns (h : st.Isolated) (hsettled : st.Settled) (hp : st.Used p)
    (hdiscard : Discardable st p) (hend : st.mem.userRegion.end_ ≤ allocEnd)
    (htramp : st.trampolinePage.toNat % 4096 = 0) (hfile : WellFormed file)
    (hreach : InReach file) (hcount : argv.length ≤ elfMaxargs)
    (hargs : ∀ arg ∈ argv, KernelString arg)
    (hjoined : Joined userVmemStart.toNat file.segments) (hfits : marshalled argv ≤ 4096) :
    Returns OutOfMemory (procExec p (some file) argv) st fun _ _ => True := by
  unfold procExec
  refine .bind_of_ok rfl ?_
  have htable : Returns OutOfMemory (newTable (st.procs p)) st fun _ _ => True :=
    .intro (fun reason => newTable_stops h htramp) fun _ _ _ => trivial
  refine htable.run.bind ?_
  rintro ⟨tf, pgtbl⟩ st₁ ⟨htable, _⟩
  obtain ⟨hnew, hst₁, hnone⟩ := newTable_spec h htable
  refine (buildImage_returns hnew (end_of_setting hend hnew.setting) hnone hfile hreach
    hjoined).run.bind ?_
  rintro _ st₂ ⟨himage, entry, top, rfl, _, _, hst₂, _⟩
  obtain ⟨result, m, f, hpush, hnew', _, _, _, hcases, _⟩ :=
    pushArgv_newSpace h hcount hargs htable himage
  rw [if_pos hfits] at hcases
  obtain ⟨ptrs, sp, rfl, _⟩ := hcases
  refine .bind_of_ok (liftMem_eq_ok.mpr ⟨_, hpush, rfl⟩) ?_
  have hregions : st₂.regions = st.regions := by
    rw [hst₂, hst₁]
  obtain ⟨_, st₃, _, hswitch⟩ :=
    @NewSpace.switch_eq st { st₂ with mem := st₂.mem.setMem m } p tf pgtbl entry sp hnew'
      hsettled hp hdiscard hregions
  have hregions' : Returns OutOfMemory (newRegions p pgtbl tf) st₃ fun _ _ => True :=
    .intro (newRegions_stops p pgtbl tf st₃) fun _ _ _ => trivial
  refine Returns.bind (.congr hswitch hregions') ?_
  exact fun _ _ _ => .of_ok rfl trivial

theorem procExec_over {behind : (offset len : Nat) → Except String (Nat → UInt8)}
    (hfile : WellFormed file) (hreach : InReach file) :
    procExec p (some (file.over behind)) argv = procExec p (some file) argv := by
  have himage : ∀ old pgtbl,
      buildImage p old (file.over behind) pgtbl = buildImage p old file pgtbl := by
    intro old pgtbl
    unfold buildImage
    rw [loadImage_over hfile hreach]
  unfold procExec
  simp only [himage]

/-- Whatever is behind `addrs[]`, `proc_exec` loads all segments if and only if it looks
nothing up there, each segment but the last ends at the end of a page and the next one ends
less than 2^32 bytes behind it, and the arguments fit. -/
theorem exec_loads_all_iff (h : st.Isolated) (hsettled : st.Settled) (hp : st.Used p)
    (hdiscard : Discardable st p) (hend : st.mem.userRegion.end_ ≤ allocEnd)
    (htramp : st.trampolinePage.toNat % 4096 = 0) (hfile : WellFormed file)
    (hcount : argv.length ≤ elfMaxargs) (hargs : ∀ arg ∈ argv, KernelString arg)
    (hmemory : ∀ reason, procExec p (some file) argv st = .error reason →
      ¬ OutOfMemory reason) :
    (∀ behind, LoadsAll p (file.over behind) argv st) ↔
      InReach file ∧ Joined userVmemStart.toNat file.segments ∧ marshalled argv ≤ 4096 := by
  constructor
  · intro hloads
    obtain ⟨st', hrun, _⟩ := hloads fun _ _ => .error "file block"
    obtain ⟨_, _, _, _, _, _, _, _, _, _, hexec⟩ :=
      procExec_executed h hsettled hp hcount hargs hrun
    obtain ⟨hjoined, htable, hdata⟩ := hexec.joined h (hfile.over _) fun _ _ => ⟨_, rfl⟩
    exact ⟨⟨htable, hdata⟩, hjoined, hexec.fits⟩
  · rintro ⟨hreach, hjoined, hfits⟩ behind
    obtain ⟨result, st', hrun, _⟩ := (procExec_returns h hsettled hp hdiscard hend htramp hfile
      hreach hcount hargs hjoined hfits).exists_ok hmemory
    obtain ⟨hresult, _, _, _, _, _, _, _, _, _, hexec⟩ :=
      procExec_executed h hsettled hp hcount hargs hrun
    obtain ⟨st'', hok, hloaded⟩ := hexec.loadsAll h hend hfile hreach hjoined hrun hresult
    rw [← procExec_over hfile hreach] at hok
    exact ⟨st'', hok, fun ph hmem => ⟨(hloaded.1 ph hmem).data, (hloaded.1 ph hmem).zeros⟩,
      hloaded.2⟩

end UnoOS.Uvm
