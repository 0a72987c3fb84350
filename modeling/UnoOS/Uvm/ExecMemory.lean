import UnoOS.Uvm.ExecLoads
import UnoOS.Uvm.SysExec

namespace UnoOS.Uvm

open UnoOS.Lib
open UnoOS.Lib.Exec (Returns)
open UnoOS.Fs (Stop)
open UnoOS.Kernel (ProcId)
open UnoOS.Mem

/-! Programs that the first process executes: one without segments, and two of two
segments each, one that is loaded and one that is not. -/

variable {st st₁ st' : UvmState} {p : ProcId} {file : ExecFile} {argv : List (List UInt8)}
  {tf pgtbl entry : UInt64}

/-! When there are regions enough. -/

def TwoFree (regions : MmapId → MmapRegion) : Prop :=
  ∃ node, (regions listHead).link = some node ∧ (regions node).link ≠ none

theorem mmapRegionFree_twoFree {id : MmapId} {value : Unit} (h : TwoFree st.regions)
    (hrun : mmapRegionFree id st = .ok (value, st')) : TwoFree st'.regions := by
  obtain ⟨node, hhead, hnode⟩ := h
  cases hrun
  refine ⟨id, ?_, ?_⟩
  · dsimp only
    rw [Function.update_self]
  · dsimp only
    by_cases hid : id = listHead
    · rw [hid, Function.update_self]
      exact Option.some_ne_none _
    · rw [Function.update_of_ne hid, Function.update_self]
      dsimp only
      rw [hhead]
      exact Option.some_ne_none _

theorem freeRegions_twoFree {steps : Nat} {id : Option MmapId} {value : Unit}
    (h : TwoFree st.regions) (hrun : freeRegions steps id st = .ok (value, st')) :
    TwoFree st'.regions := by
  induction steps generalizing st id with
  | zero =>
      cases id with
      | none =>
          cases hrun
          exact h
      | some id => cases hrun
  | succ steps ih =>
      cases id with
      | none =>
          cases hrun
          exact h
      | some id =>
          rw [freeRegions, readRegion_bind, Exec.bind_eq_ok] at hrun
          obtain ⟨_, st₁, hfree, hrun⟩ := hrun
          exact ih (mmapRegionFree_twoFree h hfree) hrun

theorem mmapRegionAlloc_ok {node : MmapId} (init : Bool)
    (hhead : (st.regions listHead).link = some node) :
    ∃ st', mmapRegionAlloc init st = .ok (node, st') ∧
      (st'.regions listHead).link = (st.regions node).link := by
  unfold mmapRegionAlloc
  rw [readRegion_bind, hhead]
  dsimp only
  rw [readRegion_bind]
  cases init with
  | false =>
      refine ⟨_, rfl, ?_⟩
      dsimp only
      rw [Function.update_self]
  | true =>
      refine ⟨_, rfl, ?_⟩
      dsimp only
      rw [Function.update_self]

theorem newRegions_ok (h : TwoFree st.regions) :
    ∃ st', newRegions p pgtbl tf st = .ok ((), st') := by
  obtain ⟨node, hhead, hnode⟩ := h
  obtain ⟨next, hnext⟩ := Option.ne_none_iff_exists'.mp hnode
  obtain ⟨st₁, halloc, hlink⟩ := mmapRegionAlloc_ok false hhead
  rw [hnext] at hlink
  -- `begin` and `npages` of the first one are set in between
  have hlink' : (Function.update st₁.regions node
      { st₁.regions node with begin := mmapBegin, npages := 0 } listHead).link = some next := by
    rw [Function.update_apply]
    split
    · next hsame =>
      rw [← hsame]
      exact hlink
    · exact hlink
  obtain ⟨st₂, halloc', _⟩ := @mmapRegionAlloc_ok { st₁ with
    regions := Function.update st₁.regions node
      { st₁.regions node with begin := mmapBegin, npages := 0 } } next true hlink'
  unfold newRegions
  rw [Exec.bind_of_ok halloc, readRegion_bind, writeRegion_bind, Exec.bind_of_ok halloc',
    readRegion_bind, writeRegion_bind, readSpace_bind]
  exact ⟨_, rfl⟩

/-- An image that is built gets its arguments, and the old space is given back. -/
theorem procExec_of_image (h : st.Isolated) (hsettled : st.Settled) (hp : st.Used p)
    (hdiscard : Discardable st p) (hcount : argv.length ≤ elfMaxargs)
    (hargs : ∀ arg ∈ argv, KernelString arg) (hfits : marshalled argv ≤ 4096)
    (hregions : TwoFree st.regions) (himage : imageOf p file st = some entry) :
    ∃ result st', procExec p (some file) argv st = .ok (result, st') := by
  obtain ⟨tf, pgtbl, st₁, st₂, htable, hbuild⟩ := imageOf_eq_some himage
  obtain ⟨result, m, f, hpush, hnew, _, _, _, hcases, top, hst₂⟩ :=
    pushArgv_newSpace h hcount hargs htable hbuild
  rw [if_pos hfits] at hcases
  obtain ⟨ptrs, sp, rfl, _⟩ := hcases
  obtain ⟨mem, st₃, hfree, hswitch⟩ :=
    @NewSpace.switch_eq st { st₂ with mem := st₂.mem.setMem m } p tf pgtbl entry sp hnew
      hsettled hp hdiscard (by rw [hst₂])
  have hpool : TwoFree { st₂ with mem := mem }.regions := by
    rw [hst₂]
    exact hregions
  obtain ⟨st₄, hend⟩ : ∃ st₄, newRegions p pgtbl tf st₃ = .ok ((), st₄) :=
    newRegions_ok (freeRegions_twoFree hpool hfree)
  refine ⟨argv.length, st₄, ?_⟩
  have hpush' : liftMem (pushArgv pgtbl argv) st₂ = .ok (some (argv.length, sp),
      { st₂ with mem := st₂.mem.setMem m }) := liftMem_eq_ok.mpr ⟨_, hpush, rfl⟩
  unfold procExec
  rw [readSpace_bind, Exec.bind_of_ok htable]
  dsimp only
  rw [Exec.bind_of_ok hbuild]
  dsimp only
  rw [Exec.bind_of_ok hpush']
  dsimp only
  rw [Exec.bind_of_ok (hswitch.trans hend)]
  rfl

/-! The files. -/

instance (file : ExecFile) (ph : ProgramHeader) : Decidable (Loadable file ph) :=
  decidable_of_iff (ph.va.toNat % 4096 = 0 ∧ userVmemStart.toNat ≤ ph.va.toNat ∧
      ph.fileSize.toNat ≤ ph.memSize.toNat ∧ ph.memSize.toNat < 2 ^ 32 ∧
      (ph.fileSize.toNat ≠ 0 → ph.off.toNat + ph.fileSize.toNat ≤ file.bytes.length))
    ⟨fun ⟨haligned, hstart, hsizes, hlength, hinside⟩ =>
        ⟨haligned, hstart, hsizes, hlength, hinside⟩,
      fun h => ⟨h.aligned, h.start, h.sizes, h.length, h.inside⟩⟩

instance (phs : List ProgramHeader) : Decidable (InOrder phs) :=
  inferInstanceAs (Decidable (List.Pairwise _ _))

instance (file : ExecFile) : Decidable (WellFormed file) :=
  decidable_of_iff (64 ≤ file.bytes.length ∧ file.header.magic = elfMagic ∧
      file.header.phOff.toNat + 56 * file.header.phEntNum.toNat ≤ file.bytes.length ∧
      (∀ ph ∈ file.segments, Loadable file ph) ∧ InOrder file.segments)
    ⟨fun ⟨hheader, hmagic, htable, hloadable, horder⟩ =>
        ⟨hheader, hmagic, htable, hloadable, horder⟩,
      fun h => ⟨h.header, h.magic, h.table, h.loadable, h.order⟩⟩

instance (file : ExecFile) : Decidable (InReach file) :=
  decidable_of_iff ((file.header.phEntNum.toNat ≠ 0 →
        file.header.phOff.toNat + 56 * file.header.phEntNum.toNat ≤ reachedSize) ∧
      ∀ ph ∈ file.segments, ph.fileSize.toNat ≠ 0 →
        ph.off.toNat + ph.fileSize.toNat ≤ reachedSize)
    ⟨fun ⟨htable, hdata⟩ => ⟨htable, hdata⟩, fun h => ⟨h.table, h.data⟩⟩

def wordBytes (v : Nat) : List UInt8 := (List.range 8).map (Memory.digit v)

def loadHeader (off va fileSize memSize : Nat) : List UInt8 :=
  [1, 0, 0, 0, 0, 0, 0, 0] ++ wordBytes off ++ wordBytes va ++ wordBytes 0 ++
    wordBytes fileSize ++ wordBytes memSize ++ wordBytes 0

/-- Two bytes at 0x1000, in a segment of `memSize` bytes, and two at 0x2000. -/
def twoSegments (memSize : Nat) : List UInt8 :=
  [0x7F, 0x45, 0x4C, 0x46] ++ List.replicate 20 0 ++ wordBytes 0x1000 ++ wordBytes 64 ++
    List.replicate 16 0 ++ [2] ++ List.replicate 7 0 ++
    loadHeader 176 0x1000 2 memSize ++ loadHeader 178 0x2000 2 8 ++ [1, 2, 3, 4]

theorem length_twoSegments (memSize : Nat) : (twoSegments memSize).length = 180 := by
  simp [twoSegments, loadHeader, wordBytes]

def twoFile (memSize : Nat) : ExecFile where
  bytes := twoSegments memSize
  fits := by
    rw [length_twoSegments]
    decide
  behind := fun _ _ => .ok fun _ => 0

/-! The process that executes them. -/

structure FirstSpace (st : UvmState) : Prop where
  used : ∀ q, st.Used q ↔ q = 0
  root : (st.procs 0).pgtbl = 0x10000
  tables : FirstTables st.mem.mem
  kernel : st.mem.kernRegion.begin = 0x10000 ∧ st.mem.kernRegion.end_ = 0x20000
  leaves : (Mem.translate st.mem.mem 0x10000 trapframe).any (fun pte => pteFlags pte ≠ pteV) ∧
    (Mem.translate st.mem.mem 0x10000 trampoline).any fun pte => pteFlags pte ≠ pteV
  mmap : (st.procs 0).mmap = some 1 ∧ (st.regions 1).next = some 2 ∧
    (st.regions 2).next = none
  pool : (st.regions listHead).link = some 3 ∧ (st.regions 3).link ≠ none
  bounds : st.mem.userRegion.end_ ≤ allocEnd ∧ st.trampolinePage.toNat % 4096 = 0

instance (st : UvmState) : Decidable (FirstSpace st) :=
  decidable_of_iff ((∀ q, st.Used q ↔ q = 0) ∧ (st.procs 0).pgtbl = 0x10000 ∧
      FirstTables st.mem.mem ∧
      (st.mem.kernRegion.begin = 0x10000 ∧ st.mem.kernRegion.end_ = 0x20000) ∧
      ((Mem.translate st.mem.mem 0x10000 trapframe).any (fun pte => pteFlags pte ≠ pteV) ∧
        (Mem.translate st.mem.mem 0x10000 trampoline).any fun pte => pteFlags pte ≠ pteV) ∧
      ((st.procs 0).mmap = some 1 ∧ (st.regions 1).next = some 2 ∧
        (st.regions 2).next = none) ∧
      ((st.regions listHead).link = some 3 ∧ (st.regions 3).link ≠ none) ∧
      st.mem.userRegion.end_ ≤ allocEnd ∧ st.trampolinePage.toNat % 4096 = 0)
    ⟨fun ⟨hused, hroot, htables, hkernel, hleaves, hmmap, hpool, hbounds⟩ =>
        ⟨hused, hroot, htables, hkernel, hleaves, hmmap, hpool, hbounds⟩,
      fun h => ⟨h.used, h.root, h.tables, h.kernel, h.leaves, h.mmap, h.pool, h.bounds⟩⟩

theorem mapsLeaf_of_any {m : Memory} {root va : UInt64}
    (h : (Mem.translate m root va).any fun pte => pteFlags pte ≠ pteV) :
    ∃ pte, MapsLeaf m root va pte := by
  obtain ⟨pte, hpte, hflags⟩ := (Option.any_eq_true _ _).mp h
  exact ⟨pte, hpte, of_decide_eq_true hflags⟩

theorem FirstSpace.roots (h : FirstSpace st) : st.roots ⊆ {0x10000} := by
  rintro root ⟨q, hq, rfl⟩
  rw [(h.used q).mp hq]
  exact h.root

theorem FirstSpace.discardable (h : FirstSpace st) : Discardable st 0 := by
  refine ⟨?_, ?_, [1, 2], h.mmap.1, h.mmap.2.1, h.mmap.2.2⟩
  · intro va hva
    rw [h.root]
    rcases hva with rfl | rfl
    · exact mapsLeaf_of_any h.leaves.1
    · exact mapsLeaf_of_any h.leaves.2
  · intro t ht
    have hmem := h.tables.mem (ht.mono h.roots)
    obtain ⟨hbegin, hend⟩ := h.kernel
    unfold Region.Contains
    rw [hbegin, hend]
    simp only [List.mem_cons, List.not_mem_nil, or_false] at hmem
    rcases hmem with rfl | rfl | rfl | rfl | rfl
    · decide
    · decide
    · decide
    · decide
    · decide

theorem FirstSpace.twoFree (h : FirstSpace st) : TwoFree st.regions := ⟨3, h.pool⟩

/-- Two arguments, one of them empty. -/
theorem exec_passes_args_pair : ∃ st st',
    run UvmState.step UvmState.unborn [.first [7]] = some st ∧
    procExec 0 (some emptyFile) [[97, 98], []] st = .ok (2, st') ∧
    (∃ ptrs sp, ArgsPlaced st' 0 [[97, 98], []] ptrs sp) ∧
    ∃ tf pgtbl st₁ entry st₂, newTable (st.procs 0) st = .ok ((tf, pgtbl), st₁) ∧
      buildImage 0 (st.procs 0) emptyFile pgtbl st₁ = .ok (some entry, st₂) ∧
      ∃ result mem f, pushArgv pgtbl [[97, 98], []] st₂.mem = .ok (result, mem) ∧
        result.isSome ∧ userFrame st₂.mem.mem pgtbl (trapframe - pgsize) = some f ∧
        OnlyPage f st₂.mem.mem mem.mem := by
  have hall : (run UvmState.step UvmState.unborn [.first [7]]).map (fun st =>
      (decide (FirstSpace st), imageOf 0 emptyFile st)) = some (true, some 0x1000) := by
    decide +kernel
  obtain ⟨st, hrun, hall⟩ := Option.map_eq_some_iff.mp hall
  obtain ⟨hfirst, himage⟩ := Prod.mk.inj hall
  have hfirst : FirstSpace st := of_decide_eq_true hfirst
  have hused := (hfirst.used 0).mpr rfl
  obtain ⟨hisolated, hsettled⟩ :=
    UvmState.settled_run UvmState.unborn_isolated UvmState.unborn_settled hrun
  have hargs : ∀ arg ∈ ([[97, 98], []] : List (List UInt8)), KernelString arg := by
    intro arg harg
    rcases List.mem_pair.mp harg with rfl | rfl
    · exact ⟨by decide, by decide⟩
    · exact ⟨by decide, by decide⟩
  obtain ⟨hreturns, hpushes⟩ := @exec_passes_args st 0 [[97, 98], []] emptyFile hisolated
    hsettled hused (by decide) hargs
  obtain ⟨result, st', hexec⟩ := procExec_of_image hisolated hsettled hused
    hfirst.discardable (by decide) hargs (by decide) hfirst.twoFree himage
  obtain ⟨-, rfl, hplaced⟩ := hreturns result st' hexec
  obtain ⟨tf, pgtbl, st₁, st₂, htable, hbuild⟩ := imageOf_eq_some himage
  obtain ⟨result, mem, f, hpush, hsome, hframe, honly⟩ := hpushes _ _ _ _ _ htable hbuild
  exact ⟨st, st', hrun, hexec, hplaced, tf, pgtbl, st₁, _, st₂, htable, hbuild,
    result, mem, f, hpush, hsome.mpr (by decide), hframe, honly⟩

def execStops (file : ExecFile) (st : UvmState) : Option Stop :=
  match procExec 0 (some file) [] st with
  | .ok _ => none
  | .error reason => some reason

/-- The first segment fills its page. -/
theorem exec_loads_two_pages : ∃ st,
    run UvmState.step UvmState.unborn [.first [7]] = some st ∧
    WellFormed (twoFile 4096) ∧ ∀ behind, LoadsAll 0 ((twoFile 4096).over behind) [] st := by
  have hall : (run UvmState.step UvmState.unborn [.first [7]]).map (fun st =>
      (decide (FirstSpace st), imageOf 0 (twoFile 4096) st)) = some (true, some 0x1000) := by
    decide +kernel
  obtain ⟨st, hrun, hall⟩ := Option.map_eq_some_iff.mp hall
  obtain ⟨hfirst, himage⟩ := Prod.mk.inj hall
  have hfirst : FirstSpace st := of_decide_eq_true hfirst
  have hfile : WellFormed (twoFile 4096) := by decide +kernel
  obtain ⟨hisolated, hsettled⟩ :=
    UvmState.settled_run UvmState.unborn_isolated UvmState.unborn_settled hrun
  obtain ⟨result, st', hexec⟩ := procExec_of_image hisolated hsettled ((hfirst.used 0).mpr rfl)
    hfirst.discardable (Nat.zero_le _) (fun _ harg => absurd harg List.not_mem_nil)
    (by decide) hfirst.twoFree himage
  refine ⟨st, hrun, hfile, (exec_loads_all_iff hisolated hsettled ((hfirst.used 0).mpr rfl)
    hfirst.discardable hfirst.bounds.1 hfirst.bounds.2 hfile (Nat.zero_le _)
    (fun _ harg => absurd harg List.not_mem_nil) ?_).mpr
      ⟨by decide +kernel, by decide +kernel, by decide⟩⟩
  intro reason hstops
  rw [hexec] at hstops
  cases hstops

/-- The first segment ends inside its page: mapping the second one stops the kernel. -/
theorem exec_two_pages_panics : ∃ st,
    run UvmState.step UvmState.unborn [.first [7]] = some st ∧
    WellFormed (twoFile 100) ∧
    procExec 0 (some (twoFile 100)) [] st =
      .error (.panic "vm_mappages: page alignment required.\n\t va: %x pa %x") ∧
    ¬ LoadsAll 0 (twoFile 100) [] st := by
  have hall : (run UvmState.step UvmState.unborn [.first [7]]).map
      (execStops (twoFile 100)) =
        some (some (.panic "vm_mappages: page alignment required.\n\t va: %x pa %x")) := by
    decide +kernel
  obtain ⟨st, hrun, hstops⟩ := Option.map_eq_some_iff.mp hall
  have hexec : procExec 0 (some (twoFile 100)) [] st =
      .error (.panic "vm_mappages: page alignment required.\n\t va: %x pa %x") := by
    unfold execStops at hstops
    split at hstops
    · cases hstops
    · next reason hreason =>
      rw [hreason, Option.some.inj hstops]
  refine ⟨st, hrun, by decide +kernel, hexec, ?_⟩
  rintro ⟨st', hok, _⟩
  rw [hexec] at hok
  cases hok

end UnoOS.Uvm
