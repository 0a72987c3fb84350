import UnoOS.Mem.Unmap
import UnoOS.Uvm.Proc

namespace UnoOS.Uvm

open UnoOS.Lib
open UnoOS.Lib.Exec (Keeps)
open UnoOS.Mem

/-! No call moves the bounds of the regions. -/

def bounds (s : MemState) : UInt64 × UInt64 :=
  (s.userRegion.begin, s.userRegion.end_)

def setting (s : MemState) : (UInt64 × UInt64) × UInt64 × UInt64 :=
  (bounds s, s.kernRegion.begin, s.kernRegion.end_)

theorem contains_of_bounds {s s' : MemState} (h : bounds s' = bounds s)
    (q : UInt64) : s'.userRegion.Contains q ↔ s.userRegion.Contains q :=
  Region.contains_congr (Prod.mk.inj h).1 (Prod.mk.inj h).2

theorem regionsApart_of_setting {s s' : MemState} (h : setting s' = setting s)
    (hapart : RegionsApart s) : RegionsApart s' := by
  obtain ⟨huser, hkern⟩ := Prod.mk.inj h
  obtain ⟨hbegin, hend⟩ := Prod.mk.inj hkern
  exact hapart.congr hbegin hend (contains_of_bounds huser)

/-- What is seen of the memory when neither its contents nor an allocation for a table
shows. -/
structure Aloof {τ : Type} (view : MemState → τ) : Prop where
  setMem : ∀ s m, view (s.setMem m) = view s
  table : Keeps view (pmemAlloc true)

namespace Aloof

variable {τ : Type} {view : MemState → τ}

theorem massert (condition : Prop) [Decidable condition] (message : String) :
    Keeps view (massert condition message) :=
  .require_intro condition _

theorem readMem : Keeps view readMem :=
  .bind .get_intro fun _ => .pure_intro _

variable (h : Aloof view)

include h

theorem updateMem (update : Memory → Memory) : Keeps view (updateMem update) :=
  .modify_intro fun s => h.setMem s (update s.mem)

theorem vmGetpteLoop (va : UInt64) (alloc : Bool) (level : Nat) (t : UInt64) :
    Keeps view (vmGetpteLoop va alloc level t) := by
  induction level generalizing t with
  | zero => exact .pure_intro _
  | succ level ih =>
      apply readMem.bind
      intro m
      apply Keeps.ite (ih _)
      apply Keeps.ite _ (.pure_intro _)
      apply h.table.bind
      intro table
      apply (h.updateMem _).bind
      intro _
      apply (h.updateMem _).bind
      intro _
      exact ih table

theorem vmGetpte (pgtbl va : UInt64) (alloc : Bool) :
    Keeps view (vmGetpte pgtbl va alloc) := by
  apply (massert _ _).bind
  intro _
  apply (massert _ _).bind
  intro _
  apply (h.vmGetpteLoop _ _ _ _).bind
  intro table
  cases table <;> exact .pure_intro _

theorem vmMappagesLoop (pgtbl pa perm : UInt64) (pages : Nat) (beg dst : UInt64) :
    Keeps view (vmMappagesLoop pgtbl pa perm pages beg dst) := by
  induction pages generalizing beg dst with
  | zero => exact .pure_intro _
  | succ pages ih =>
      apply (h.vmGetpte _ _ _).bind
      intro pte
      cases pte with
      | none => exact .stop_intro _
      | some pte =>
          apply readMem.bind
          intro m
          apply (massert _ _).bind
          intro _
          apply (h.updateMem _).bind
          intro _
          exact ih _ _

theorem vmMappages (pgtbl va pa len perm : UInt64) :
    Keeps view (vmMappages pgtbl va pa len perm) := by
  apply (massert _ _).bind
  intro _
  apply (massert _ _).bind
  intro _
  apply (massert _ _).bind
  intro _
  exact h.vmMappagesLoop _ _ _ _ _ _

theorem procPgtblInit (tramp tf : UInt64) : Keeps view (procPgtblInit tramp tf) := by
  apply h.table.bind
  intro pgtbl
  apply (h.updateMem _).bind
  intro _
  apply (h.vmMappages _ _ _ _ _).bind
  intro _
  exact (h.vmMappages _ _ _ _ _).bind fun _ => .pure_intro _

theorem isCowpage (pg va : UInt64) : Keeps view (isCowpage pg va) := by
  apply Keeps.ite (.pure_intro _)
  apply (h.vmGetpte _ _ _).bind
  intro pte
  cases pte with
  | none => exact .pure_intro _
  | some pte =>
      apply readMem.bind
      intro m
      exact Keeps.ite (.pure_intro _) (.pure_intro _)

end Aloof

/-- The same for what no allocation shows in, and no page that is given back. -/
structure Steady {τ : Type} (view : MemState → τ) : Prop extends Aloof view where
  alloc : Keeps view (pmemAlloc false)
  free : ∀ page k, Keeps view (pmemFree page k)

namespace Steady

variable {τ : Type} {view : MemState → τ} (h : Steady view)

include h

theorem cowCopy (pg va : UInt64) (pte : Nat) (pa flags : UInt64) :
    Keeps view (cowCopy pg va pte pa flags) := by
  apply h.alloc.bind
  intro newPage
  apply Keeps.ite (.pure_intro _)
  apply (h.updateMem _).bind
  intro _
  apply (h.updateMem _).bind
  intro _
  apply (h.vmMappages _ _ _ _ _).bind
  intro _
  exact (h.free _ _).bind fun _ => .pure_intro _

theorem handleCow (pg va : UInt64) : Keeps view (handleCow pg va) := by
  apply Keeps.ite (.pure_intro _)
  apply (h.vmGetpte _ _ _).bind
  intro pte
  cases pte with
  | none => exact .stop_intro _
  | some pte =>
      apply Aloof.readMem.bind
      intro m
      apply Keeps.bind (Aloof.readMem.bind fun _ => .pure_intro _)
      intro count
      apply Keeps.ite _ (h.cowCopy _ _ _ _ _)
      exact (h.updateMem _).bind fun _ => .pure_intro _

theorem handlePageFault (pg va : UInt64) : Keeps view (handlePageFault pg va) := by
  apply (Aloof.massert _ _).bind
  intro _
  apply h.alloc.bind
  intro newPage
  apply (h.updateMem _).bind
  intro _
  exact (h.vmMappages _ _ _ _ _).bind fun _ => .pure_intro _

theorem handleFault (pg stval : UInt64) : Keeps view (handleFault pg stval) := by
  apply (h.isCowpage _ _).bind
  intro result
  apply Keeps.ite
  · exact (h.handleCow _ _).bind fun _ => .pure_intro _
  · exact (h.handlePageFault _ _).bind fun _ => .pure_intro _

theorem freeFrame (freeit : Bool) (page pgtbl : UInt64) :
    Keeps view (freeFrame freeit page pgtbl) := by
  apply Keeps.ite
  · exact Keeps.get_intro.bind fun _ => h.free _ _
  · exact .pure_intro _

theorem vmUnmappagesLoop (pgtbl : UInt64) (freeit : Bool) (pages : Nat) (beg : UInt64) :
    Keeps view (vmUnmappagesLoop pgtbl freeit pages beg) := by
  induction pages generalizing beg with
  | zero => exact .pure_intro _
  | succ pages ih =>
      apply (h.vmGetpte _ _ _).bind
      intro pte
      cases pte with
      | none => exact .stop_intro _
      | some pte =>
          apply Aloof.readMem.bind
          intro m
          apply (Aloof.massert _ _).bind
          intro _
          apply (Aloof.massert _ _).bind
          intro _
          apply (h.freeFrame _ _ _).bind
          intro _
          apply (h.updateMem _).bind
          intro _
          exact ih _

theorem vmUnmappages (pgtbl va len : UInt64) (freeit : Bool) :
    Keeps view (vmUnmappages pgtbl va len freeit) := by
  apply (Aloof.massert _ _).bind
  intro _
  apply (Aloof.massert _ _).bind
  intro _
  apply (Aloof.massert _ _).bind
  intro _
  exact h.vmUnmappagesLoop _ _ _ _

theorem heapGrowLoop (pgtbl flags : UInt64) (turns : Nat) (ptr : UInt64) :
    Keeps view (heapGrowLoop pgtbl flags turns ptr) := by
  induction turns generalizing ptr with
  | zero => exact .pure_intro _
  | succ turns ih =>
      apply h.alloc.bind
      intro pg
      apply (Aloof.massert _ _).bind
      intro _
      apply (h.vmMappages _ _ _ _ _).bind
      intro _
      exact (h.updateMem _).bind fun _ => ih _

theorem heapUngrowLoop (pgtbl : UInt64) (turns : Nat) (ptr : UInt64) :
    Keeps view (heapUngrowLoop pgtbl turns ptr) := by
  induction turns generalizing ptr with
  | zero => exact .pure_intro _
  | succ turns ih => exact (h.vmUnmappages _ _ _ _).bind fun _ => ih _

end Steady

theorem keeps_massert (condition : Prop) [Decidable condition] (message : String) :
    Keeps setting (massert condition message) :=
  Aloof.massert condition message

theorem keeps_readMem : Keeps setting readMem := Aloof.readMem

theorem keeps_pmemAlloc (k : Bool) : Keeps setting (pmemAlloc k) := by
  intro s page s' hrun
  obtain ⟨_, _, _, rfl⟩ := pmemAlloc_eq_ok.mp hrun
  cases k <;> rfl

theorem keeps_pmemFree (page : UInt64) (k : Bool) :
    Keeps setting (pmemFree page k) := by
  intro s value s' hrun
  obtain ⟨_, rfl⟩ := pmemFree_eq_ok.mp hrun
  split
  · cases k <;> rfl
  · rfl

theorem aloof_setting : Aloof setting := ⟨fun _ _ => rfl, keeps_pmemAlloc true⟩

theorem steady_setting : Steady setting :=
  ⟨aloof_setting, keeps_pmemAlloc false, keeps_pmemFree⟩

theorem steady_kernelPgtbl : Steady MemState.kernelPgtbl := by
  have halloc : ∀ k, Keeps MemState.kernelPgtbl (pmemAlloc k) := by
    intro k s page s' hrun
    obtain ⟨_, _, _, rfl⟩ := pmemAlloc_eq_ok.mp hrun
    exact MemState.kernelPgtbl_setRegion s k _
  refine ⟨⟨fun _ _ => rfl, halloc true⟩, halloc false, ?_⟩
  intro page k s value s' hrun
  obtain ⟨_, rfl⟩ := pmemFree_eq_ok.mp hrun
  split
  · exact MemState.kernelPgtbl_setRegion _ k _
  · rfl

theorem keeps_updateMem (update : Memory → Memory) :
    Keeps setting (updateMem update) :=
  aloof_setting.updateMem update

theorem keeps_vmGetpte (pgtbl va : UInt64) (alloc : Bool) :
    Keeps setting (vmGetpte pgtbl va alloc) :=
  aloof_setting.vmGetpte pgtbl va alloc

theorem keeps_vmMappages (pgtbl va pa len perm : UInt64) :
    Keeps setting (vmMappages pgtbl va pa len perm) :=
  aloof_setting.vmMappages pgtbl va pa len perm

theorem aloof_userRegion : Aloof MemState.userRegion := by
  refine ⟨fun _ _ => rfl, ?_⟩
  intro s page s' hrun
  obtain ⟨_, _, _, rfl⟩ := pmemAlloc_eq_ok.mp hrun
  rfl

theorem keeps_copyPage (new va pa flags : UInt64) :
    Keeps setting (copyPage new va pa flags) := by
  apply (keeps_pmemAlloc _).bind
  intro page
  apply (keeps_updateMem _).bind
  intro _
  exact keeps_vmMappages _ _ _ _ _

theorem keeps_copyRangeLoop (old new : UInt64) (turns : Nat) (va : UInt64) :
    Keeps setting (copyRangeLoop old new turns va) := by
  induction turns generalizing va with
  | zero => exact .pure_intro _
  | succ turns ih =>
      apply (keeps_vmGetpte _ _ _).bind
      intro pte
      cases pte with
      | none => exact .stop_intro _
      | some pte =>
          apply keeps_readMem.bind
          intro m
          apply (keeps_massert _ _).bind
          intro _
          apply Keeps.ite
          · apply (keeps_updateMem _).bind
            intro _
            exact (keeps_copyPage _ _ _ _).bind fun _ => ih _
          · exact (keeps_copyPage _ _ _ _).bind fun _ => ih _

theorem keeps_handleFault (pg stval : UInt64) :
    Keeps setting (handleFault pg stval) :=
  steady_setting.handleFault pg stval

theorem keeps_copyoutLoop (pgtbl dst : UInt64) (src : Nat → UInt8) (len : UInt32)
    (turns : Nat) (dstbeg : UInt64) (done : Nat) :
    Keeps setting (copyoutLoop pgtbl dst src len turns dstbeg done) := by
  induction turns generalizing dstbeg done with
  | zero => exact .pure_intro _
  | succ turns ih =>
      apply (keeps_vmGetpte _ _ _).bind
      intro pte
      cases pte with
      | none => exact .stop_intro _
      | some pte =>
          apply keeps_readMem.bind
          intro m
          apply (keeps_massert _ _).bind
          intro _
          apply Keeps.ite
          · exact (keeps_updateMem _).bind fun _ => ih _ _
          · apply Keeps.ite
            · exact (keeps_updateMem _).bind fun _ => ih _ _
            · exact (keeps_updateMem _).bind fun _ => ih _ _

theorem keeps_procPgtblInit (tramp tf : UInt64) :
    Keeps setting (procPgtblInit tramp tf) :=
  aloof_setting.procPgtblInit tramp tf

theorem keeps_mapStack (pgtbl : UInt64) (pages : List Nat) :
    Keeps setting (mapStack pgtbl pages) := by
  induction pages with
  | nil => exact .pure_intro _
  | cons i pages ih =>
      apply (keeps_pmemAlloc _).bind
      intro page
      exact (keeps_vmMappages _ _ _ _ _).bind fun _ => ih

theorem keeps_loadInitcode (pgtbl : UInt64) (initcode : List UInt8) :
    Keeps setting (loadInitcode pgtbl initcode) := by
  apply (keeps_massert _ _).bind
  intro _
  apply (keeps_pmemAlloc _).bind
  intro page
  apply (keeps_vmMappages _ _ _ _ _).bind
  intro _
  exact keeps_updateMem _

/-! The same for calls with the regions at hand. -/

theorem keeps_liftMem {α : Type} {m : MemM α} (h : Keeps setting m) :
    Keeps (fun st : UvmState => setting st.mem) (liftMem m) := by
  intro st value st' hrun
  obtain ⟨mem, hm, rfl⟩ := liftMem_eq_ok.mp hrun
  exact h _ _ _ hm

theorem keeps_copyGaps (old new : UInt64) (steps : Nat) (mmap : Option MmapId) :
    Keeps (fun st : UvmState => setting st.mem) (copyGaps old new steps mmap) := by
  induction steps generalizing mmap with
  | zero =>
      cases mmap with
      | none => exact .pure_intro _
      | some id => exact .stop_intro _
  | succ steps ih =>
      cases mmap with
      | none => exact .pure_intro _
      | some id =>
          apply Keeps.get_intro.bind
          intro st
          exact (keeps_liftMem (keeps_copyRangeLoop _ _ _ _)).bind fun _ => ih _

theorem keeps_uvmCopyPgtbl (old new heapTop : UInt64) (ustackPages : UInt32)
    (mmap : Option MmapId) : Keeps (fun st : UvmState => setting st.mem)
      (uvmCopyPgtbl old new heapTop ustackPages mmap) := by
  apply (keeps_liftMem (keeps_copyRangeLoop _ _ _ _)).bind
  intro _
  apply (keeps_liftMem (keeps_copyRangeLoop _ _ _ _)).bind
  intro _
  exact keeps_copyGaps _ _ _ _

end UnoOS.Uvm
