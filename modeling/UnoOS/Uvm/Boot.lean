import UnoOS.Mem.KernelTable
import UnoOS.Uvm.Lifecycle

namespace UnoOS.Uvm

open UnoOS.Lib
open UnoOS.Lib.Exec (Keeps)
open UnoOS.Kernel (ProcId nProc)
open UnoOS.Mem

/-! `main` up to `proc_init`, as far as memory is concerned. -/

/-- `main` is entered with static data zero; memory and the pool are as they happen to be. -/
def loaded (image : LinkedImage) (mem : MemState) (regions : MmapId → MmapRegion) : UvmState where
  mem := mem
  regions := regions
  procs := fun _ => Space.free
  trampolinePage := image.trampolinePage

def procInitLoop : List ProcId → UvmM Unit
  | [] => return
  | p :: rest => do
      procFree p
      let st ← get
      liftMem (Mem.mapStack st.mem.kernelPgtbl (UInt64.ofNat p.val))
      procInitLoop rest

def procInit : UvmM Unit := procInitLoop (List.finRange nProc)

def main (image : LinkedImage) : UvmM Unit := do
  liftMem (pmemInit image.toKernelImage)
  liftMem (kvmInit image)
  modify fun st => { st with regions := mmapInit }
  procInit

def procIds (ps : List ProcId) : List UInt64 := ps.map fun p => UInt64.ofNat p.val

def kernelMap (image : LinkedImage) (pages : List UInt64) (va : UInt64) : Option UInt64 :=
  ((kernelMappings image ++
    List.zipWith stackMapping (procIds (List.finRange nProc)) pages).find?
      fun mapping => mapping.Covers va).map fun mapping => mapping.entry va

/-! The entries of `procs`. -/

variable {st st' : UvmState} {s s' : MemState} {p : ProcId} {image : LinkedImage}
  {lk lu pages : List UInt64} {root va : UInt64}

theorem procId_toNat (p : ProcId) : (UInt64.ofNat p.val).toNat = p.val :=
  UInt64.toNat_ofNat_of_lt' (Nat.lt_trans p.isLt (by decide))

theorem mem_procIds {ps : List ProcId} {id : UInt64} (h : id ∈ procIds ps) : id.toNat < 64 := by
  obtain ⟨p, _, rfl⟩ := List.mem_map.mp h
  rw [procId_toNat]
  exact p.isLt

theorem nodup_procIds {ps : List ProcId} (h : ps.Nodup) : (procIds ps).Nodup := by
  refine h.map fun p q heq => Fin.ext ?_
  have hsame : (UInt64.ofNat p.val).toNat = (UInt64.ofNat q.val).toNat :=
    congrArg UInt64.toNat heq
  rwa [procId_toNat, procId_toNat] at hsame

/-- `proc_free` has nothing to do for an entry that is zero. -/
theorem procFree_of_free (h : st.procs p = Space.free) : procFree p st = .ok ((), st) := by
  have hsame : Function.update st.procs p Space.free = st.procs := by
    rw [← h]
    exact Function.update_eq_self p st.procs
  unfold procFree
  rw [readSpace_bind, h]
  change Except.ok ((), { st with procs := Function.update st.procs p Space.free }) = _
  rw [hsame]

theorem aloof_kernelPgtbl : Aloof MemState.kernelPgtbl := by
  refine ⟨fun _ _ => rfl, fun s page s' hrun => ?_⟩
  obtain ⟨_, _, _, rfl⟩ := pmemAlloc_eq_ok.mp hrun
  rfl

namespace Aloof

variable {τ : Type} {view : MemState → τ} (h : Aloof view)

include h

theorem mapKernelStack (pgtbl id : UInt64) : Keeps view (Mem.mapStack pgtbl id) := by
  apply h.table.bind
  intro page
  exact h.vmMappages _ _ _ _ _

theorem mapStacks (pgtbl : UInt64) (ids : List UInt64) : Keeps view (mapStacks pgtbl ids) := by
  induction ids with
  | nil => exact .pure_intro _
  | cons id ids ih => exact (h.mapKernelStack _ _).bind fun _ => ih

theorem mapAll (pgtbl : UInt64) (mappings : List Mapping) :
    Keeps view (mapAll pgtbl mappings) := by
  induction mappings with
  | nil => exact .pure_intro _
  | cons mapping mappings ih => exact (h.vmMappages _ _ _ _ _).bind fun _ => ih

end Aloof

theorem keeps_kvmInit (image : LinkedImage) : Keeps setting (kvmInit image) := by
  apply aloof_setting.table.bind
  intro pgtbl
  have hwrite : Keeps setting (writeKernelPgtbl pgtbl) := .modify_intro fun _ => rfl
  apply hwrite.bind
  intro _
  apply (aloof_setting.updateMem _).bind
  intro _
  apply (Aloof.massert _ _).bind
  intro _
  exact aloof_setting.mapAll _ _

/-- The loop of `proc_init` maps the stacks and nothing else. -/
theorem procInitLoop_of_stacks {ps : List ProcId} (hfree : ∀ p, st.procs p = Space.free)
    (hroot : st.mem.kernelPgtbl = root)
    (hrun : mapStacks root (procIds ps) st.mem = .ok ((), s')) :
    procInitLoop ps st = .ok ((), { st with mem := s' }) := by
  induction ps generalizing st with
  | nil =>
      cases hrun
      rfl
  | cons p ps ih =>
      obtain ⟨_, s₁, hfirst, hrest⟩ := Exec.bind_eq_ok.mp hrun
      have hkeeps := aloof_kernelPgtbl.mapKernelStack _ _ _ _ _ hfirst
      rw [← hroot] at hfirst
      have hlift : liftMem (Mem.mapStack st.mem.kernelPgtbl (UInt64.ofNat p.val)) st =
          .ok ((), { st with mem := s₁ }) := liftMem_eq_ok.mpr ⟨s₁, hfirst, rfl⟩
      have hturn : procInitLoop (p :: ps) st = procInitLoop ps { st with mem := s₁ } := by
        refine (Exec.bind_of_ok (procFree_of_free (hfree p))).trans ?_
        change (liftMem (Mem.mapStack st.mem.kernelPgtbl (UInt64.ofNat p.val)) >>=
          fun _ => procInitLoop ps) st = _
        exact Exec.bind_of_ok hlift
      rw [hturn]
      exact ih hfree (hkeeps.trans hroot) hrest

/-! Memory before the kernel has a table. -/

theorem frames_of_free (hkern : FreeList s true lk) (huser : FreeList s false lu)
    (hapart : RegionsApart s) (hnonzero : ¬ s.userRegion.Contains 0) : Frames s ∅ lk lu ∅ := by
  have htable : ∀ t, ¬ IsTable s.mem ∅ t := by
    rintro t ⟨r, hr, _⟩
    exact hr
  have howns : ∀ place f, ¬ Owns s.mem ∅ place f := fun _ _ h => h.1
  refine ⟨⟨?_, ?_, ?_⟩, ⟨hkern, fun page _ => htable page⟩, huser, ?_,
    fun t ht => absurd ht (htable t), fun page hpage => (hapart page (hkern.inRegion page hpage)).2,
    fun place f hf => absurd hf (howns place f), fun f hf => absurd hf (Set.notMem_empty f),
    ⟨?_, ?_, ?_, fun hr => absurd hr (Set.notMem_empty _)⟩⟩
  · intro r hr
    exact absurd hr (Set.notMem_empty r)
  · intro r hr
    exact absurd hr (Set.notMem_empty r)
  · intro r hr
    exact absurd hr (Set.notMem_empty r)
  · rintro page hpage rfl
    exact hnonzero hpage
  · intro a b r ha
    exact absurd ha (howns a r)
  · intro a r ha
    exact absurd ha (howns a r)
  · intro a r ha
    exact absurd ha (howns a r)

theorem contains_of_initialised {image : KernelImage} {k : Bool} (h : Initialised image s k)
    {page : UInt64} (hpage : (s.region k).Contains page) :
    image.begin k ≤ page ∧ page < image.end_ k := by
  rw [← h.begin, ← h.end_]
  exact hpage.2

theorem regionsApart_of_initialised {image : KernelImage} (h : ∀ k, Initialised image s k) :
    RegionsApart s := by
  intro page hpage
  have hin := contains_of_initialised (h true) hpage
  refine ⟨?_, fun huser => ?_⟩
  · rintro rfl
    have hbase := image.base
    exact absurd (UInt64.le_iff_toNat_le.mp hin.1) (by
      change ¬ image.allocBegin.toNat ≤ 0
      rw [show kernelBase.toNat = 0x80000000 from rfl] at hbase
      omega)
  · cases image.one_region hin (contains_of_initialised (h false) huser)

theorem not_userRegion_of_lt {image : KernelImage} (h : Initialised image s false)
    {page : UInt64} (hlt : page.toNat < image.middle.toNat) : ¬ s.userRegion.Contains page := by
  intro hpage
  have hle := UInt64.le_iff_toNat_le.mp (contains_of_initialised h hpage).1
  change image.middle.toNat ≤ page.toNat at hle
  omega

/-! The whole map. -/

theorem Maps.eq_find {lk' : List UInt64} {mappings : List Mapping}
    (h : Maps s s' root lk lk' mappings)
    (hbare : ∀ x, Mem.translate s.mem root x = none) (hva : va < vaMax) :
    Mem.translate s'.mem root va =
      (mappings.find? fun mapping => mapping.Covers va).map fun mapping => mapping.entry va := by
  cases hfind : mappings.find? fun mapping => mapping.Covers va with
  | none =>
      rw [h.others va hva fun mapping hmem => ?_, hbare]
      · rfl
      · exact of_decide_eq_false (Bool.eq_false_iff.mpr (List.find?_eq_none.mp hfind mapping hmem))
  | some mapping =>
      have hmem := List.mem_of_find?_eq_some hfind
      have hfound := List.find?_some hfind
      have hcovers : mapping.Covers va := of_decide_eq_true hfound
      exact h.covered mapping hmem va hva hcovers

/-- All but the page of `trampoline.S` is mapped below the end of memory. -/
theorem kernelMappings_low_or_top (image : LinkedImage) : ∀ mapping ∈ kernelMappings image,
    mapping.va.toNat + mapping.len.toNat ≤ allocEnd.toNat ∨
      trampoline.toNat ≤ mapping.va.toNat := by
  have hcode := image.code
  have hdata := image.data
  have hroom := image.room
  have htext := len_toNat (Nat.le_trans (Nat.le_add_right _ _) hcode)
  have hrest := len_toNat (Nat.le_of_lt hdata)
  have hpool := len_toNat (Nat.le_trans (Nat.le_add_right _ _) hroom)
  have hbase : kernelBase.toNat = 0x80000000 := rfl
  have hend : allocEnd.toNat = 0x88000000 := rfl
  have huart : uartBase.toNat = 0x10000000 := rfl
  have hvirtio : virtioBase.toNat = 0x10001000 := rfl
  have hclint : clintBase.toNat = 0x2000000 := rfl
  have hclintSize : clintRegionSize.toNat = 0x10000 := rfl
  have hplic : plicBase.toNat = 0xc000000 := rfl
  have hplicSize : plicRegionSize.toNat = 0x400000 := rfl
  have hshutdown : shutdownReg.toNat = 0x100000 := rfl
  have hpage : pgsize.toNat = 4096 := rfl
  simp only [kernelMappings, List.forall_mem_cons, List.not_mem_nil, false_implies,
    implies_true, and_true]
  omega

theorem kernelMappings_stack_apart (image : LinkedImage) {id page : UInt64}
    (hid : id.toNat < 64) {mapping : Mapping} (hmem : mapping ∈ kernelMappings image) :
    mapping.Apart (stackMapping id page) := by
  have hplace := kernelMappings_low_or_top image mapping hmem
  have hat := kstack_toNat hid
  have hend : allocEnd.toNat = 0x88000000 := rfl
  have htop : trampoline.toNat = 2 ^ 38 - 4096 := rfl
  have hpage : pgsize.toNat = 4096 := rfl
  unfold Mapping.Apart stackMapping
  dsimp only
  omega

theorem guard_not_covered (image : LinkedImage) {id : UInt64} (hid : id.toNat < 64)
    {mapping : Mapping} (hmem : mapping ∈ kernelMappings image ++
      List.zipWith stackMapping (procIds (List.finRange nProc)) pages) :
    ¬ mapping.Covers (kstack id - pgsize) := by
  have hat := kstack_toNat hid
  have hpage : pgsize.toNat = 4096 := rfl
  have hguard : (kstack id - pgsize).toNat = (kstack id).toNat - 4096 := by
    rw [UInt64.toNat_sub_of_le, hpage]
    rw [UInt64.le_iff_toNat_le, hpage]
    omega
  unfold Mapping.Covers
  rcases List.mem_append.mp hmem with hmem | hmem
  · have hplace := kernelMappings_low_or_top image mapping hmem
    have hend : allocEnd.toNat = 0x88000000 := rfl
    have htop : trampoline.toNat = 2 ^ 38 - 4096 := rfl
    omega
  · obtain ⟨other, hother, page, rfl⟩ := mem_stackMappings hmem
    have hlt := mem_procIds hother
    have hother' := kstack_toNat hlt
    unfold stackMapping
    dsimp only
    omega

/-! `main`. -/

/-- `main` always gets the kernel its table: with the devices, the image and all memory at
their own addresses, the code of `trampoline.S` at the top, and for each process a stack on a
page of its own, that nothing else has, above a page that is not mapped.  It leaves the
allocator and the processes as the first process needs them. -/
theorem main_maps_kernel (image : LinkedImage) (mem : MemState)
    (regions : MmapId → MmapRegion) :
    ∃ st pages, main image (loaded image mem regions) = .ok ((), st) ∧
      (∀ va, va < vaMax →
        Mem.translate st.mem.mem st.mem.kernelPgtbl va = kernelMap image pages va) ∧
      (∀ p : ProcId, kernelMap image pages (kstack (UInt64.ofNat p.val) - pgsize) = none) ∧
      pages.length = nProc ∧ pages.Nodup ∧
      (∃ lk lu, Frames st.mem {st.mem.kernelPgtbl} lk lu ∅ ∧ ∀ page ∈ pages,
        st.mem.kernRegion.Contains page ∧ page ∉ lk ∧
          ¬ IsTable st.mem.mem {st.mem.kernelPgtbl} page) ∧
      st.Kept ∧ (∀ p, ¬ st.Used p) ∧ st.mem.kernRegion.end_ ≤ allocEnd := by
  obtain ⟨s₀, hpmem, hinit⟩ := pmemInit_spec image.toKernelImage mem
  have hapart := regionsApart_of_initialised hinit
  have hmiddle := image.middle_toNat
  have hbegin := image.base
  have hbase : kernelBase.toNat = 0x80000000 := rfl
  have hframes := frames_of_free (hinit true).list (hinit false).list hapart
    (not_userRegion_of_lt (hinit false) (by
      change 0 < _
      omega))
  have hsupply : 1024 ≤ supply s₀ true
      (pageRun (image.begin true) (image.pages true)).reverse := by
    unfold supply
    rw [List.length_reverse, length_pageRun, (hinit true).allocable]
    change 1024 ≤ min 1024 (1024 + 1024)
    decide
  obtain ⟨root, rest, s₁, s₂, lk₂, hlk, hkvm, hroot, hbare, hstocked, hmaps⟩ :=
    kvmInit_spec image hframes hsupply
  have hids : ∀ id ∈ procIds (List.finRange nProc), id.toNat < 64 := fun _ => mem_procIds
  have hcount : (procIds (List.finRange nProc)).length = 64 :=
    (List.length_map _).trans List.length_finRange
  rw [← hcount] at hstocked
  obtain ⟨s₃, lk₃, pages, hstacks, hdone, hlength, hmaps', hnodup, haway⟩ :=
    Stocked.mapStacks hstocked hids (nodup_procIds (List.nodup_finRange nProc))
      fun id hid page x hx hcovers => by
        rw [hmaps.others x hx fun mapping hmem hcovers' => ?_, hbare]
        exact (kernelMappings_stack_apart image (hids id hid) hmem).not_covers
          hcovers' hcovers
  have hall := hmaps.append hmaps' fun mapping hmem other hother => by
    obtain ⟨id, hid, page, rfl⟩ := mem_stackMappings hother
    exact kernelMappings_stack_apart image (hids id hid) hmem
  have hpgtbl : s₃.kernelPgtbl = root := hall.kernelPgtbl.trans hroot
  have hsetting : setting s₃ = setting s₀ :=
    (aloof_setting.mapStacks _ _ _ _ _ hstacks).trans (keeps_kvmInit image _ _ _ hkvm)
  have hregions := regionsApart_of_setting hsetting hapart
  let st : UvmState := { loaded image mem regions with mem := s₃, regions := mmapInit }
  have hunused : ∀ p, ¬ st.Used p := fun p hp => hp rfl
  have hpool : (modify fun st => { st with regions := mmapInit } : UvmM Unit)
      { loaded image mem regions with mem := s₂ } =
        .ok ((), { loaded image mem regions with mem := s₂, regions := mmapInit }) := rfl
  have hprocs : procInit { loaded image mem regions with mem := s₂, regions := mmapInit } =
      .ok ((), st) :=
    procInitLoop_of_stacks (fun _ => rfl) (hmaps.kernelPgtbl.trans hroot) hstacks
  have hrun : main image (loaded image mem regions) = .ok ((), st) := by
    unfold main
    rw [Exec.bind_of_ok (liftMem_eq_ok.mpr ⟨s₀, hpmem, rfl⟩),
      Exec.bind_of_ok (liftMem_eq_ok.mpr ⟨s₂, hkvm, rfl⟩), Exec.bind_of_ok hpool]
    exact hprocs
  have htramp : ¬ s₃.userRegion.Contains image.trampolinePage := by
    rw [contains_of_bounds (Prod.mk.inj hsetting).1]
    have hpage := image.trampolinePage_toNat
    have hdata := image.data
    exact not_userRegion_of_lt (hinit false) (by omega)
  have hisolated : st.Isolated :=
    UvmState.isolated_of_unused hunused hdone.frames.kern.list hdone.frames.user
      (fun hzero => hdone.frames.nonzero 0 hzero rfl) hdone.frames.kern_apart htramp
  have hfinal := hdone.frames
  rw [← hpgtbl] at hfinal
  refine ⟨st, pages, hrun, ?_, fun p => ?_, ?_, hnodup, ⟨lk₃, _, hfinal, fun page hpage => ?_⟩,
    ⟨hisolated, hregions, fun p hp => absurd hp (hunused p), fun p hp => absurd hp (hunused p),
      fun p hp => absurd hp (hunused p)⟩, hunused, ?_⟩
  · intro va hva
    change Mem.translate s₃.mem s₃.kernelPgtbl va = _
    rw [hpgtbl]
    exact Maps.eq_find hall hbare hva
  · unfold kernelMap
    rw [List.find?_eq_none.mpr, Option.map_none]
    intro mapping hmem hcovers
    refine guard_not_covered image ?_ hmem (of_decide_eq_true hcovers)
    rw [procId_toNat]
    exact p.isLt
  · exact hlength.trans hcount
  · obtain ⟨hmem, hnot, htable⟩ := haway page hpage
    refine ⟨?_, hnot, ?_⟩
    · have hin := hstocked.frames.kern.list.inRegion page hmem
      exact (contains_of_setting (aloof_setting.mapStacks _ _ _ _ _ hstacks) true page).mpr hin
    · change ¬ IsTable s₃.mem {s₃.kernelPgtbl} page
      rw [hpgtbl]
      exact htable
  · have hend : s₃.kernRegion.end_ = s₀.kernRegion.end_ :=
      (Prod.mk.inj (Prod.mk.inj hsetting).2).2
    change s₃.kernRegion.end_ ≤ allocEnd
    rw [hend, show s₀.kernRegion.end_ = image.end_ true from (hinit true).end_,
      UInt64.le_iff_toNat_le]
    exact image.end_le true

def loadedSmall : UvmState :=
  loaded .small ⟨0, ⟨0, 0, 0, 0⟩, ⟨0, 0, 0, 0⟩, 0, []⟩ fun _ => ⟨0, 0, none, none⟩

theorem main_maps_kernel_small :
    ∃ (st : UvmState) (pages : List UInt64), main .small loadedSmall = .ok ((), st) ∧
      pages.length = nProc ∧
      Mem.translate st.mem.mem st.mem.kernelPgtbl trampoline =
        some (mapEntry 0x8000F000 (pteR ||| pteX)) ∧
      Mem.translate st.mem.mem st.mem.kernelPgtbl shutdownReg =
        some (mapEntry shutdownReg (pteR ||| pteW)) := by
  obtain ⟨st, pages, hrun, hmap, _, hpages, _⟩ := main_maps_kernel .small
    ⟨0, ⟨0, 0, 0, 0⟩, ⟨0, 0, 0, 0⟩, 0, []⟩ fun _ => ⟨0, 0, none, none⟩
  have hfound : ∀ va mapping, (kernelMappings .small).find? (fun m => m.Covers va) =
      some mapping → kernelMap .small pages va = some (mapping.entry va) := by
    intro va mapping hfirst
    unfold kernelMap
    rw [List.find?_append, hfirst]
    rfl
  refine ⟨st, pages, hrun, hpages, ?_, ?_⟩
  · rw [hmap _ (by decide)]
    exact hfound _ ⟨trampoline, 0x8000F000, pgsize, pteR ||| pteX⟩ (by decide +kernel)
  · rw [hmap _ (by decide)]
    exact hfound _ ⟨shutdownReg, shutdownReg, pgsize, pteR ||| pteW⟩ (by decide +kernel)

end UnoOS.Uvm
