import UnoOS.Uvm.ArgvStack
import UnoOS.Uvm.DestroySpace
import UnoOS.Uvm.Isolation
import UnoOS.Uvm.LoadImage

namespace UnoOS.Uvm

open UnoOS.Lib
open UnoOS.Lib.Exec (Keeps)
open UnoOS.Kernel (ProcId)
open UnoOS.Mem

/-! The new table of `proc_exec`, next to those of all processes, and the exchange of the
old one for it. -/

variable {s s' : MemState} {roots : Set UInt64} {lk lu : List UInt64}
  {tfs extra : Set UInt64}

theorem isTable_insert_bare {m : Memory} {t q : UInt64} (hbare : ∀ idx, links m t idx = none)
    (h : IsTable m (insert t roots) q) : q = t ∨ IsTable m roots q := by
  obtain ⟨r, hr, path, hpath, hwalk⟩ := h
  rcases Set.mem_insert_iff.mp hr with rfl | hr
  · cases path with
    | nil =>
        cases hwalk
        exact .inl rfl
    | cons i path =>
        rw [Radix.walk, hbare i] at hwalk
        cases hwalk
  · exact .inr ⟨r, hr, path, hpath, hwalk⟩

/-- A new table is sound, and its pages are pages of the kernel. -/
theorem procPgtblInit_grows {tramp tf t : UInt64}
    (h : Spaces s roots lk lu tfs extra) (hrun : procPgtblInit tramp tf s = .ok (t, s')) :
    SoundEntries s'.mem t ∧ (KernelTables s roots → KernelTables s' (insert t roots)) := by
  unfold procPgtblInit at hrun
  rw [Exec.bind_eq_ok] at hrun
  obtain ⟨t', s₀, halloc, hrun⟩ := hrun
  rw [updateMem_bind, Exec.bind_eq_ok] at hrun
  obtain ⟨_, s₂, hmap, hrun⟩ := hrun
  rw [Exec.bind_eq_ok] at hrun
  obtain ⟨_, s₃, hmap', hrun⟩ := hrun
  obtain ⟨rfl, rfl⟩ := Prod.mk.inj (Except.ok.inj hrun)
  obtain ⟨rest, _, _, h₁, _, _, htables₁, _⟩ := h.frames.new_root halloc
  have ht : t' ∈ insert t' roots := Set.mem_insert t' roots
  have hsub : ({t'} : Set UInt64) ⊆ insert t' roots := Set.singleton_subset_iff.mpr ht
  obtain ⟨lk₂, h₂, _⟩ := mapHidden h₁ ht (by decide) (by decide) hmap
  have hzero : ∀ idx, entry (s₀.mem.memset t'.toNat 0 4096) t' idx = 0 := by
    refine fun idx => Memory.load64_of_zero fun k hk => ?_
    unfold entryAddr
    exact Memory.write_of_mem (by omega) (by omega)
  refine ⟨?_, ?_⟩
  · have hfirst := mapPage_soundEntries (h₁.tables.mono hsub) (h₁.kern.mono hsub)
      (soundEntries_of_zero hzero) hmap
    exact mapPage_soundEntries (h₂.tables.mono hsub) (h₂.kern.mono hsub) hfirst hmap'
  · intro hkernel
    have hsetting := keeps_pmemAlloc _ _ _ _ halloc
    have hold : KernelTables (s₀.setMem (s₀.mem.memset t'.toNat 0 4096)) roots :=
      hkernel.of_samePages htables₁ hsetting
    have hnew : KernelTables (s₀.setMem (s₀.mem.memset t'.toNat 0 4096)) (insert t' roots) := by
      intro q hq
      have hbare : ∀ idx, links (s₀.mem.memset t'.toNat 0 4096) t' idx = none := by
        intro idx
        unfold links
        rw [hzero idx]
        rfl
      rcases isTable_insert_bare hbare hq with rfl | hq
      · obtain ⟨hbegin, hend⟩ := Prod.mk.inj (Prod.mk.inj hsetting).2
        obtain ⟨_, hlist, _⟩ := h.frames.kern.list.alloc halloc
        have hin := h.frames.kern.list.inRegion q (hlist ▸ List.mem_cons_self)
        exact (Region.contains_congr hbegin hend).mpr hin
      · exact hold q hq
    obtain ⟨_, _, hfirst, _⟩ := h₁.mapPage_spec ht (by decide) hmap
    obtain ⟨_, _, hsecond, _⟩ := h₂.mapPage_spec ht (by decide) hmap'
    exact (hnew.added h₁ hfirst.added (keeps_vmMappages _ _ _ _ _ _ _ _ hmap)).added h₂
      hsecond.added (keeps_vmMappages _ _ _ _ _ _ _ _ hmap')

/-- The new table and its trap frame while the process still has the old ones. -/
structure NewSpace (st : UvmState) (mem : MemState) (tf pgtbl : UInt64) : Prop where
  fresh : pgtbl ∉ st.roots
  own : tf ∉ st.trapframes
  spaces : ∃ lk lu, Spaces mem (insert pgtbl st.roots) lk lu (insert tf st.trapframes) ∅
  spares : ∀ r ∈ st.roots, Spares r st.mem mem
  upper : KeepsUpper st.roots st.mem.mem mem.mem
  low : NoUpper mem.mem pgtbl
  kernel : KernelPages mem pgtbl {tf}
  entries : SoundEntries mem.mem pgtbl
  tables : KernelTables st.mem st.roots → KernelTables mem (insert pgtbl st.roots)
  setting : setting mem = setting st.mem

variable {st st₁ st' : UvmState} {p : ProcId} {mem mem' : MemState} {tf pgtbl : UInt64}

theorem newTable_spec (h : st.Isolated) {old : Space}
    (hrun : newTable old st = .ok ((tf, pgtbl), st')) :
    NewSpace st st'.mem tf pgtbl ∧ st' = { st with mem := st'.mem } ∧
      ∀ va, va < vaMax → userByte st'.mem.mem pgtbl va = none := by
  unfold newTable at hrun
  obtain ⟨tf', mem₁, halloc, hrun⟩ := liftMem_bind_eq_ok.mp hrun
  obtain ⟨_, mem₂, hcopy, hrun⟩ := liftMem_bind_eq_ok.mp hrun
  rw [Exec.bind_of_ok (m := get) rfl] at hrun
  obtain ⟨t, mem₃, hinit, hrun⟩ := liftMem_bind_eq_ok.mp hrun
  obtain ⟨hresult, rfl⟩ := Prod.mk.inj (Except.ok.inj hrun)
  obtain ⟨rfl, rfl⟩ := Prod.mk.inj hresult
  cases hcopy
  obtain ⟨lk, lu, hspaces⟩ := h.spaces
  obtain ⟨rest, hnot, hspaces₁, _, _, htables₁, hspares₁⟩ := hspaces.alloc halloc
  obtain ⟨hspaces₂, htables₂, hspares₂⟩ := hspaces₁.write_held (.inr (Set.mem_insert tf' ∅))
    (onlyPage_memcpy tf' mem₁.mem old.tf.toNat 4096 (le_refl _))
  have hsetting₁ := keeps_pmemAlloc _ _ _ _ halloc
  have htramp : ¬ mem₁.userRegion.Contains st.trampolinePage :=
    (contains_of_bounds (congrArg Prod.fst hsetting₁) _).not.mpr h.trampoline
  have hsub : insert tf' st.trapframes ∪ ∅ ⊆ st.trapframes ∪ insert tf' ∅ := by
    rintro x ((rfl | hx) | hx)
    · exact .inr (.inl rfl)
    · exact .inl hx
    · exact .inr (.inr hx)
  obtain ⟨lk₃, hfresh, hspaces₃, hspares₃, hupper₃, hlow, hkernel, hnone⟩ :=
    procPgtblInit_spec hspaces₂ htramp hsub hinit
  obtain ⟨hentries, htables⟩ := procPgtblInit_grows hspaces₂ hinit
  refine ⟨⟨hfresh, fun hmem => hnot (.inl hmem), ⟨lk₃, rest, hspaces₃⟩, fun r hr =>
    ((hspares₁ r hr).trans (hspares₂ r hr)).trans (hspares₃ r hr),
    ((KeepsUpper.of_samePages htables₁).trans (.of_samePages htables₂)).trans hupper₃, hlow,
    hkernel, hentries, fun hold => htables ?_,
    (keeps_procPgtblInit _ _ _ _ _ hinit).trans hsetting₁⟩, rfl, hnone⟩
  exact (hold.of_samePages htables₁ hsetting₁).of_samePages htables₂ rfl

theorem NewSpace.build (h : NewSpace st mem tf pgtbl)
    (hbuilds : Builds (insert pgtbl st.roots) pgtbl (insert tf st.trapframes) mem mem') :
    NewSpace st mem' tf pgtbl := by
  have hold : ∀ r ∈ st.roots, r ≠ pgtbl := by
    rintro r hr rfl
    exact h.fresh hr
  have hroot : pgtbl ∈ insert pgtbl st.roots := Set.mem_insert _ _
  obtain ⟨lk, lu, hspaces⟩ := hbuilds.spaces
  refine ⟨h.fresh, h.own, hbuilds.spaces, fun r hr => (h.spares r hr).trans
    (hbuilds.others r (Set.mem_insert_of_mem _ hr) (hold r hr)),
    h.upper.trans (hbuilds.upper.mono (Set.subset_insert _ _)),
    hbuilds.upper.links _ hroot h.low, ?_, hbuilds.entries h.entries,
    fun hold => hbuilds.tables (h.tables hold), hbuilds.setting.trans h.setting⟩
  exact h.kernel.of_upper (hspaces.kernel _ hroot).below
    (contains_of_bounds (congrArg Prod.fst hbuilds.setting)) (hbuilds.upper.kernel _ hroot)

/-! Code, data and the page of the stack. -/

def withHeap (old : Space) (heapTop : UInt64) : Space :=
  { old with heapTop := pgroundup heapTop, ustackPages := 1 }

theorem buildImage_spec {file : ExecFile} {old : Space} {entry : UInt64}
    (h : NewSpace st st₁.mem tf pgtbl)
    (hrun : buildImage p old file pgtbl st₁ = .ok (some entry, st')) :
    ∃ heapTop s₂ f lk lu, loadImage file pgtbl st₁.mem = .ok (some (entry, heapTop), s₂) ∧
      heapTop.toNat ≤ trapframe.toNat ∧ NewSpace st st'.mem tf pgtbl ∧
      StackPage st'.mem (insert pgtbl st.roots) lk lu (insert tf st.trapframes) pgtbl f ∧
      st' = { st₁ with
        mem := st'.mem
        procs := Function.update st₁.procs p (withHeap old heapTop) } ∧
      ∀ x, x < vaMax → userByte st'.mem.mem pgtbl x =
        if x.toNat / 4096 = (trapframe - pgsize).toNat / 4096 then some 0
        else userByte s₂.mem pgtbl x := by
  have hroot : pgtbl ∈ insert pgtbl st.roots := Set.mem_insert _ _
  unfold buildImage at hrun
  obtain ⟨loaded, s₂, hload, hrun⟩ := liftMem_bind_eq_ok.mp hrun
  cases loaded with
  | none => cases hrun
  | some image =>
      obtain ⟨entry', heapTop⟩ := image
      obtain ⟨page, s₃, halloc, hrun⟩ := liftMem_bind_eq_ok.mp hrun
      rw [writeSpace_bind] at hrun
      obtain ⟨_, s₄, hmap, hrun⟩ := liftMem_bind_eq_ok.mp hrun
      obtain ⟨hentry, rfl⟩ := Prod.mk.inj (Except.ok.inj hrun)
      cases hentry
      obtain ⟨lk, lu, hspaces⟩ := h.spaces
      obtain ⟨hbuilds, htop⟩ := loadImage_builds hspaces hroot h.entries hload
      obtain ⟨lk₂, lu₂, hspaces₂⟩ := hbuilds.spaces
      obtain ⟨hbuilds', _, _, hframe, hbytes⟩ :=
        mapFresh_builds hspaces₂ hroot (by decide) (by decide) halloc hmap
      obtain ⟨lk₄, lu₄, hspaces₄⟩ := hbuilds'.spaces
      exact ⟨heapTop, s₂, page, lk₄, lu₄, hload, htop, h.build (hbuilds.trans hbuilds'),
        ⟨hspaces₄, hroot, hframe⟩, rfl, hbytes⟩

/-! The exchange. -/

structure EntersAt (m : Memory) (tf entry sp : UInt64) : Prop where
  a1 : m.load64 (tf.toNat + tfA1) = sp
  epc : m.load64 (tf.toNat + tfEpc) = entry
  sp : m.load64 (tf.toNat + tfSp) = sp

def withRegisters (m : Memory) (tf entry sp : UInt64) : Memory :=
  ((m.store64 (tf.toNat + tfA1) sp).store64 (tf.toNat + tfEpc) entry).store64
    (tf.toNat + tfSp) sp

theorem onlyPage_withRegisters (m : Memory) (tf entry sp : UInt64) :
    OnlyPage tf m (withRegisters m tf entry sp) :=
  ((onlyPage_store64 tf m tfA1 sp (by decide)).trans
    (onlyPage_store64 tf _ tfEpc entry (by decide))).trans
    (onlyPage_store64 tf _ tfSp sp (by decide))

theorem load64_store64_of_disjoint (m : Memory) {a b : Nat} (v : UInt64)
    (h : b + 8 ≤ a ∨ a + 8 ≤ b) : (m.store64 a v).load64 b = m.load64 b :=
  congrArg UInt64.ofNat (Memory.number_write_of_disjoint h)

theorem entersAt_withRegisters (m : Memory) (tf entry sp : UInt64) :
    EntersAt (withRegisters m tf entry sp) tf entry sp := by
  have ha1 : tfA1 = 120 := rfl
  have hepc : tfEpc = 24 := rfl
  have hsp : tfSp = 48 := rfl
  unfold withRegisters
  refine ⟨?_, ?_, Memory.load64_store64_self _ _ _⟩
  · rw [load64_store64_of_disjoint _ _ (by omega), load64_store64_of_disjoint _ _ (by omega),
      Memory.load64_store64_self]
  · rw [load64_store64_of_disjoint _ _ (by omega), Memory.load64_store64_self]

theorem EntersAt.of_samePage {m m' : Memory} {entry sp : UInt64} (h : EntersAt m tf entry sp)
    (hsame : SamePage tf m m') : EntersAt m' tf entry sp :=
  ⟨(hsame.load64 tfA1 (by decide)).trans h.a1, (hsame.load64 tfEpc (by decide)).trans h.epc,
    (hsame.load64 tfSp (by decide)).trans h.sp⟩

theorem keeps_mmapRegionFree (id : MmapId) :
    Keeps UvmState.withoutRegions (mmapRegionFree id) := by
  apply (UvmState.keeps_readRegion _).bind
  intro head
  apply (UvmState.keeps_readRegion _).bind
  intro region
  apply (UvmState.keeps_writeRegion _ _).bind
  intro _
  apply (UvmState.keeps_readRegion _).bind
  intro head
  exact UvmState.keeps_writeRegion _ _

theorem keeps_freeRegions (steps : Nat) (node : Option MmapId) :
    Keeps UvmState.withoutRegions (freeRegions steps node) := by
  induction steps generalizing node with
  | zero =>
      cases node with
      | none => exact .pure_intro _
      | some node => exact .stop_intro _
  | succ steps ih =>
      cases node with
      | none => exact .pure_intro _
      | some node =>
          apply (UvmState.keeps_readRegion _).bind
          intro region
          exact (keeps_mmapRegionFree _).bind fun _ => ih _

def withImage (space : Space) (pgtbl tf : UInt64) (mmap : MmapId) : Space :=
  { space with pgtbl := pgtbl, tf := tf, mmap := some mmap }

theorem switchImage_eq_ok {old : Space} {entry sp : UInt64} {value : Unit}
    (hrun : switchImage p old pgtbl tf entry sp st = .ok (value, st')) :
    ∃ mem mmap, uvmDestroyPgtbl 3 old.pgtbl
        (st.mem.setMem (withRegisters st.mem.mem tf entry sp)) = .ok ((), mem) ∧
      st'.mem = mem ∧
      st'.procs = Function.update st.procs p (withImage (st.procs p) pgtbl tf mmap) ∧
      st'.trampolinePage = st.trampolinePage := by
  unfold switchImage at hrun
  obtain ⟨_, mem₁, ha1, hrun⟩ := liftMem_bind_eq_ok.mp hrun
  cases ha1
  obtain ⟨_, mem₂, hepc, hrun⟩ := liftMem_bind_eq_ok.mp hrun
  cases hepc
  obtain ⟨_, mem₃, hsp, hrun⟩ := liftMem_bind_eq_ok.mp hrun
  cases hsp
  obtain ⟨_, mem, hdestroy, hrun⟩ := liftMem_bind_eq_ok.mp hrun
  obtain ⟨_, st₁, hfree, hrun⟩ := Exec.bind_eq_ok.mp hrun
  obtain ⟨mmap, st₂, halloc, hrun⟩ := Exec.bind_eq_ok.mp hrun
  rw [readRegion_bind, writeRegion_bind] at hrun
  obtain ⟨next, st₃, halloc', hrun⟩ := Exec.bind_eq_ok.mp hrun
  rw [readRegion_bind, writeRegion_bind, readSpace_bind] at hrun
  obtain ⟨_, rfl⟩ := Prod.mk.inj (Except.ok.inj hrun)
  obtain ⟨hmem₁, hprocs₁, htramp₁⟩ :=
    UvmState.withoutRegions_eq (keeps_freeRegions _ _ _ _ _ hfree)
  obtain ⟨hmem₂, hprocs₂, htramp₂⟩ :=
    UvmState.withoutRegions_eq (UvmState.keeps_mmapRegionAlloc _ _ _ _ halloc)
  obtain ⟨hmem₃, hprocs₃, htramp₃⟩ :=
    UvmState.withoutRegions_eq (UvmState.keeps_mmapRegionAlloc _ _ _ _ halloc')
  refine ⟨mem, mmap, hdestroy, (hmem₃.trans hmem₂).trans hmem₁, ?_,
    (htramp₃.trans htramp₂).trans htramp₁⟩
  have hprocs : st₃.procs = st.procs := (hprocs₃.trans hprocs₂).trans hprocs₁
  dsimp only
  rw [hprocs]
  rfl

structure Switched (st : UvmState) (old : UInt64) (mem mem' : MemState)
    (tf pgtbl entry sp : UInt64) : Prop where
  spaces : ∃ lk lu,
    Spaces mem' (insert pgtbl st.roots \ {old}) lk lu (insert tf st.trapframes) ∅
  setting : setting mem' = setting mem
  spares : ∀ r ∈ insert pgtbl st.roots, r ≠ old → Spares r mem mem'
  upper : KeepsUpper (insert pgtbl st.roots \ {old}) mem.mem mem'.mem
  enters : EntersAt mem'.mem tf entry sp

theorem NewSpace.switch {old : Space} {entry sp : UInt64} {value : Unit}
    (h : NewSpace st st₁.mem tf pgtbl) (hsettled : st.Settled) (hp : st.Used p)
    (hold : old.pgtbl = (st.procs p).pgtbl)
    (hrun : switchImage p old pgtbl tf entry sp st₁ = .ok (value, st')) :
    Switched st old.pgtbl st₁.mem st'.mem tf pgtbl entry sp ∧
      (∃ mmap, st'.procs =
        Function.update st₁.procs p (withImage (st₁.procs p) pgtbl tf mmap)) ∧
      st'.trampolinePage = st₁.trampolinePage := by
  obtain ⟨mem, mmap, hdestroy, rfl, hprocs, htramp⟩ := switchImage_eq_ok hrun
  have hmem : old.pgtbl ∈ st.roots := hold ▸ UvmState.mem_roots hp
  obtain ⟨lk, lu, hspaces⟩ := h.spaces
  have honly := onlyPage_withRegisters st₁.mem.mem tf entry sp
  obtain ⟨hspaces₁, htables₁, hspares₁⟩ :=
    hspaces.write_held (.inl (Set.mem_insert tf st.trapframes)) honly
  have hupper₁ := (h.upper.trans
    ((KeepsUpper.of_samePages htables₁).mono (Set.subset_insert _ _))).links _ hmem
  obtain ⟨hspaces', hsetting, hspares, hupper, htfs⟩ := uvmDestroyPgtbl_spec hspaces₁
    (regionsApart_of_setting h.setting hsettled.apart) (Set.mem_insert_of_mem _ hmem)
    (hupper₁ (hold ▸ hsettled.upper p hp)) hdestroy
  refine ⟨⟨hspaces', hsetting, fun r hr hne => (hspares₁ r hr).trans (hspares r hr hne),
    ((KeepsUpper.of_samePages htables₁).mono Set.sdiff_subset).trans hupper, ?_⟩,
    ⟨mmap, hprocs⟩, htramp⟩
  exact (entersAt_withRegisters st₁.mem.mem tf entry sp).of_samePage
    (htfs tf (Set.mem_insert tf st.trapframes))

end UnoOS.Uvm
