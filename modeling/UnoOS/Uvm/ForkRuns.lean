import UnoOS.Uvm.Isolation

namespace UnoOS.Uvm

open UnoOS.Lib
open UnoOS.Kernel (ProcId nProc)
open UnoOS.Mem

/-! Runs of processes that store to their memory and fork. -/

inductive UserCall where
  | first (initcode : List UInt8)
  | fork (p : ProcId)
  /-- A load or store of user code that faults. -/
  | fault (p : ProcId) (frame : Nat → UInt8) (stval : UInt64)
  | store (p : ProcId) (frame : Nat → UInt8) (va : UInt64) (byte : UInt8)
  /-- `uvm_copyout` into one page of the process. -/
  | copyout (p : ProcId) (dst : UInt64) (src : Nat → UInt8) (len : UInt32)

namespace UserCall

/-- The process that memory is written for; a new process is nobody's. -/
def writer : UserCall → Option ProcId
  | first _ => none
  | fork _ => none
  | fault p _ _ => some p
  | store p _ _ _ => some p
  | copyout p _ _ _ => some p

end UserCall

namespace UvmState

variable {st st' st'' : UvmState} {p q : ProcId}

def after {α : Type} (m : UvmM α) (st : UvmState) : Option UvmState :=
  match m st with
  | .ok (_, st') => some st'
  | .error _ => none

theorem after_eq_some {α : Type} {m : UvmM α} :
    after m st = some st' ↔ ∃ value, m st = .ok (value, st') := by
  unfold after
  cases m st with
  | error reason => simp
  | ok result =>
      obtain ⟨value, st₁⟩ := result
      simp

def OnePage (st : UvmState) (p : ProcId) (dst : UInt64) (len : UInt32) : Prop :=
  dst < vaMax ∧ (userFrame st.mem.mem (st.procs p).pgtbl dst).isSome ∧
    dst.toNat % 4096 + len.toNat ≤ 4096

instance (st : UvmState) (p : ProcId) (dst : UInt64) (len : UInt32) :
    Decidable (st.OnePage p dst len) :=
  inferInstanceAs (Decidable (_ ∧ _ ∧ _))

def step (st : UvmState) : UserCall → Option UvmState
  | .first initcode => after (procMakeFirst initcode) st
  | .fork p => if st.Used p then after (procFork p) st else none
  | .fault p frame stval =>
      if st.Used p then after (pageFault p frame stval) st else none
  | .store p frame va byte =>
      if st.Used p then after (userStore p frame va byte) st else none
  | .copyout p dst src len =>
      if st.Used p ∧ st.OnePage p dst len then
        after (liftMem (uvmCopyout (st.procs p).pgtbl dst src len)) st
      else none

def KeepsBytes (writer : Option ProcId) (st st' : UvmState) : Prop :=
  ∀ q, st.Used q → writer ≠ some q → ∀ va, va < vaMax →
    st'.readByte q va = st.readByte q va

theorem Undisturbed.keepsBytes (h : Undisturbed p st st') :
    KeepsBytes (some p) st st' := by
  intro q hq hne va hva
  refine (h q hq ?_).2 va hva
  rintro rfl
  exact hne rfl

theorem step_spec {call : UserCall} (h : st.Isolated)
    (hstep : st.step call = some st') :
    st'.Isolated ∧ KeepsBytes call.writer st st' := by
  cases call with
  | first initcode =>
      obtain ⟨c, hrun⟩ := after_eq_some.mp hstep
      obtain ⟨h', hkeeps, _⟩ := procMakeFirst_spec h hrun
      exact ⟨h', fun q hq _ => (hkeeps q hq).2⟩
  | fork p =>
      obtain ⟨hp, hstep⟩ := Option.ite_none_right_eq_some.mp hstep
      obtain ⟨c, hrun⟩ := after_eq_some.mp hstep
      obtain ⟨h', hkeeps, _⟩ := procFork_spec h hp hrun
      exact ⟨h', fun q hq _ => (hkeeps q hq).2⟩
  | fault p frame stval =>
      obtain ⟨hp, hstep⟩ := Option.ite_none_right_eq_some.mp hstep
      obtain ⟨_, hrun⟩ := after_eq_some.mp hstep
      obtain ⟨h', _, hothers, _⟩ := pageFault_spec h hp hrun
      exact ⟨h', hothers.keepsBytes⟩
  | store p frame va byte =>
      obtain ⟨hp, hstep⟩ := Option.ite_none_right_eq_some.mp hstep
      obtain ⟨_, hrun⟩ := after_eq_some.mp hstep
      obtain ⟨h', _, hothers, _⟩ := userStore_spec h hp hrun
      exact ⟨h', hothers.keepsBytes⟩
  | copyout p dst src len =>
      obtain ⟨⟨hp, hdst, huser, hone⟩, hstep⟩ :=
        Option.ite_none_right_eq_some.mp hstep
      obtain ⟨_, hrun⟩ := after_eq_some.mp hstep
      obtain ⟨h', _, hothers, _⟩ := copyout_spec h hp hdst huser hone hrun
      exact ⟨h', hothers.keepsBytes⟩

theorem isolated_run {calls : List UserCall} (h : st.Isolated)
    (hrun : run step st calls = some st') : st'.Isolated :=
  run_invariant_of_step (fun _ _ _ hi hop => (step_spec hi hop).1) h hrun

theorem step_settled {call : UserCall} (h : st.Isolated) (hsettled : st.Settled)
    (hstep : st.step call = some st') : st'.Settled := by
  cases call with
  | first initcode =>
      obtain ⟨c, hrun⟩ := after_eq_some.mp hstep
      exact (procMakeFirst_spec h hrun).2.2 hsettled
  | fork p =>
      obtain ⟨hp, hstep⟩ := Option.ite_none_right_eq_some.mp hstep
      obtain ⟨c, hrun⟩ := after_eq_some.mp hstep
      exact (procFork_spec h hp hrun).2.2.1 hsettled
  | fault p frame stval =>
      obtain ⟨hp, hstep⟩ := Option.ite_none_right_eq_some.mp hstep
      obtain ⟨_, hrun⟩ := after_eq_some.mp hstep
      exact (pageFault_spec h hp hrun).2.2.2 hsettled
  | store p frame va byte =>
      obtain ⟨hp, hstep⟩ := Option.ite_none_right_eq_some.mp hstep
      obtain ⟨_, hrun⟩ := after_eq_some.mp hstep
      exact (userStore_spec h hp hrun).2.2.2 hsettled
  | copyout p dst src len =>
      obtain ⟨⟨hp, hdst, huser, hone⟩, hstep⟩ :=
        Option.ite_none_right_eq_some.mp hstep
      obtain ⟨_, hrun⟩ := after_eq_some.mp hstep
      exact (copyout_spec h hp hdst huser hone hrun).2.2.2 hsettled

theorem settled_run {calls : List UserCall} (h : st.Isolated) (hsettled : st.Settled)
    (hrun : run step st calls = some st') : st'.Isolated ∧ st'.Settled :=
  run_invariant_of_step (I := fun st => st.Isolated ∧ st.Settled)
    (fun _ _ _ hi hop => ⟨(step_spec hi.1 hop).1, step_settled hi.1 hi.2 hop⟩)
    ⟨h, hsettled⟩ hrun

/-- `handle_cow` resolves a fault of the process at a page and leaves every
byte as it was. -/
def CowKeepsBytes (st : UvmState) : Prop :=
  ∀ p, st.Used p → ∀ va, CowPage st.mem.mem (st.procs p).pgtbl va →
    ∀ page mem, handleCow (st.procs p).pgtbl va st.mem = .ok (page, mem) →
      ∀ x, x < vaMax →
        userByte mem.mem (st.procs p).pgtbl x = st.readByte p x

theorem Isolated.cowKeepsBytes (h : st.Isolated) : st.CowKeepsBytes := by
  intro p hp va hcow page mem hrun x hx
  obtain ⟨lk, lu, hspaces⟩ := h.spaces
  obtain ⟨_, _, _, _, _, hbytes⟩ :=
    handleCow_spec hspaces (mem_roots hp) (fun _ => hcow) hrun
  exact hbytes x hx

/-! Before the first process. -/

/-- Without a process nothing is reached, and all frames are in the free lists. -/
theorem isolated_of_unused {lk lu : List UInt64} (hunused : ∀ p, ¬ st.Used p)
    (hkern : FreeList st.mem true lk) (huser : FreeList st.mem false lu)
    (hnonzero : ¬ st.mem.userRegion.Contains 0)
    (hapart : ∀ page ∈ lk, ¬ st.mem.userRegion.Contains page)
    (htramp : ¬ st.mem.userRegion.Contains st.trampolinePage) : st.Isolated := by
  have hroots : st.roots = ∅ := by
    apply Set.eq_empty_of_forall_notMem
    rintro t ⟨p, hp, _⟩
    exact hunused p hp
  have htfs : st.trapframes = ∅ := by
    apply Set.eq_empty_of_forall_notMem
    rintro f ⟨p, hp, _⟩
    exact hunused p hp
  have htable : ∀ t, ¬ IsTable st.mem.mem ∅ t := by
    rintro t ⟨r, hr, _⟩
    exact hr
  have howns : ∀ place f, ¬ Owns st.mem.mem ∅ place f := fun _ _ h => h.1
  refine ⟨⟨lk, lu, ?_⟩, fun p _ hp => absurd hp (hunused p), htramp⟩
  rw [hroots, htfs]
  refine ⟨⟨⟨?_, ?_, ?_⟩, ⟨hkern, fun page _ => htable page⟩, huser, ?_,
    fun t ht => absurd ht (htable t), hapart, fun place f hf =>
    absurd hf (howns place f), ?_, ⟨?_, ?_, ?_, ?_⟩⟩, ?_⟩
  · intro r hr
    exact absurd hr (Set.notMem_empty r)
  · intro r hr
    exact absurd hr (Set.notMem_empty r)
  · intro r hr
    exact absurd hr (Set.notMem_empty r)
  · rintro page hpage rfl
    exact hnonzero hpage
  · rintro f (hf | hf)
    · exact absurd hf (Set.notMem_empty f)
    · exact absurd hf (Set.notMem_empty f)
  · intro a b r ha
    exact absurd ha (howns a r)
  · intro a r ha
    exact absurd ha (howns a r)
  · intro a r ha
    exact absurd ha (howns a r)
  · rintro r (hr | hr)
    · exact absurd hr (Set.notMem_empty r)
    · exact absurd hr (Set.notMem_empty r)
  · intro r hr
    exact absurd hr (Set.notMem_empty r)

def linkedPages : Memory := fun x =>
  let page := x / 4096
  if x % 4096 < 8 ∧ page ≠ 0x1f ∧ page ≠ 0x2f then
    UInt8.ofNat ((page + 1) * 4096 / 256 ^ (x % 8))
  else 0

def unborn : UvmState where
  mem := {
    mem := linkedPages
    kernRegion := ⟨0x10000, 0x20000, 16, 0x10000⟩
    userRegion := ⟨0x20000, 0x30000, 16, 0x20000⟩
    kernelPgtbl := 0x1000
    freed := [] }
  regions := mmapInit
  procs := fun _ => Space.free
  trampolinePage := 0x2000

def pagesFrom (first : Nat) : List UInt64 :=
  (List.range 16).map fun i => UInt64.ofNat ((first + i) * 4096)

theorem mem_pagesFrom {first : Nat} {page : UInt64} (hfirst : first < 2 ^ 32)
    (h : page ∈ pagesFrom first) :
    page.toNat % 4096 = 0 ∧ first * 4096 ≤ page.toNat ∧
      page.toNat < (first + 16) * 4096 := by
  unfold pagesFrom at h
  obtain ⟨i, hi, rfl⟩ := List.mem_map.mp h
  rw [List.mem_range] at hi
  rw [UInt64.toNat_ofNat_of_lt' (show (first + i) * 4096 < 2 ^ 64 by omega)]
  omega

theorem unborn_contains (k : Bool) (page : UInt64) :
    (unborn.mem.region k).Contains page ↔ page.toNat % 4096 = 0 ∧
      (if k then 0x10 else 0x20) * 4096 ≤ page.toNat ∧
      page.toNat < ((if k then 0x10 else 0x20) + 16) * 4096 := by
  unfold Region.Contains
  rw [aligned_iff, UInt64.le_iff_toNat_le, UInt64.lt_iff_toNat_lt]
  cases k with
  | true => exact Iff.rfl
  | false => exact Iff.rfl

theorem unborn_free (k : Bool) :
    FreeList unborn.mem k (pagesFrom (if k then 0x10 else 0x20)) := by
  refine ⟨?_, ?_, ?_⟩
  · have hnext : (unborn.mem.region k).next = if k then 0x10000 else 0x20000 := by
      cases k with
      | true => rfl
      | false => rfl
    rw [hnext]
    simp only [pagesFrom, List.range, List.range.loop, List.map, Chain]
    revert k
    decide +kernel
  · revert k
    decide +kernel
  · have hfirst : (if k then 0x10 else 0x20) < 2 ^ 32 := by
      revert k
      decide
    intro page hpage
    exact (unborn_contains k page).mpr (mem_pagesFrom hfirst hpage)

theorem unborn_isolated : unborn.Isolated := by
  have huser := unborn_contains false
  change ∀ page, unborn.mem.userRegion.Contains page ↔ _ at huser
  refine isolated_of_unused (fun p hp => hp rfl) (unborn_free true)
    (unborn_free false) ?_ ?_ ?_
  · rw [huser]
    decide
  · intro page hpage
    have hbelow := mem_pagesFrom (by decide) hpage
    rw [huser]
    simp only [if_true] at hbelow
    simp only [Bool.false_eq_true, if_false]
    omega
  · rw [huser]
    decide

theorem unborn_settled : unborn.Settled := by
  have hfalse : ∀ p, ¬ unborn.Used p := fun p hp => hp rfl
  refine ⟨?_, fun p hp => absurd hp (hfalse p), fun p hp => absurd hp (hfalse p),
    fun p hp => absurd hp (hfalse p)⟩
  intro page hpage
  have huser := unborn_contains false page
  change unborn.mem.userRegion.Contains page ↔ _ at huser
  have hlow := UInt64.le_iff_toNat_le.mp hpage.2.1
  have hhigh := UInt64.lt_iff_toNat_lt.mp hpage.2.2
  change 0x10000 ≤ page.toNat at hlow
  change page.toNat < 0x20000 at hhigh
  rw [huser]
  simp only [Bool.false_eq_true, if_false]
  refine ⟨?_, by omega⟩
  rintro rfl
  exact absurd hlow (by decide)

/-- After any run, whatever is done for one process changes no byte that
another reads, and `handle_cow` changes none that the faulting one reads. -/
theorem stores_stay_private {calls : List UserCall} {call : UserCall}
    (hstart : st.Isolated) (hrun : run step st calls = some st') :
    (st'.step call = some st'' → KeepsBytes call.writer st' st'') ∧
      st'.CowKeepsBytes := by
  have h := isolated_run hstart hrun
  exact ⟨fun hstep => (step_spec h hstep).2, h.cowKeepsBytes⟩

/-- A parent that stores to a page it shares with its child. -/
theorem stores_stay_private_forked :
    ∃ st' st'', run step unborn [.first [7], .fork 0] = some st' ∧
      st'.step (.store 0 (fun _ => 0) 0x1000 8) = some st'' ∧
      st'.readByte 1 0x1000 = some 7 ∧ st''.readByte 1 0x1000 = some 7 := by
  have hall : ((run step unborn [.first [7], .fork 0]).bind fun st' =>
      (st'.step (.store 0 (fun _ => 0) 0x1000 8)).map fun _ =>
        (decide (st'.Used 1), st'.readByte 1 0x1000)) = some (true, some 7) := by
    decide +kernel
  obtain ⟨st', hrun, hall⟩ := Option.bind_eq_some_iff.mp hall
  obtain ⟨st'', hstep, hread⟩ := Option.map_eq_some_iff.mp hall
  obtain ⟨hused, hread⟩ := Prod.mk.inj hread
  refine ⟨st', st'', hrun, hstep, hread, ?_⟩
  rw [← hread]
  exact (stores_stay_private unborn_isolated hrun).1 hstep 1 (of_decide_eq_true hused)
    (by decide) 0x1000 (by decide)

end UvmState

end UnoOS.Uvm
