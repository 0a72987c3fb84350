import UnoOS.Uvm.Births

namespace UnoOS.Uvm

open UnoOS.Lib
open UnoOS.Kernel (ProcId)
open UnoOS.Mem

/-! Runs from the first process on, with everything that makes, changes and ends processes. -/

inductive LifeCall where
  | copy (call : CopyCall)
  | free (p : ProcId)

/-- The process that a call is for; a new process is nobody yet. -/
def SpaceCall.owner : SpaceCall → Option ProcId
  | .first _ => none
  | .fork _ => none
  | .exec p _ _ => some p
  | .brk p _ => some p
  | .mmap p _ _ => some p
  | .munmap p _ _ => some p
  | .fault p _ _ => some p
  | .store p _ _ _ => some p

def LifeCall.owner : LifeCall → Option ProcId
  | .copy (.space call) => call.owner
  | .copy (.copyout p _ _ _) => some p
  | .free p => some p

namespace UvmState

variable {st st' st'' : UvmState} {p q : ProcId}

def lifeStep (st : UvmState) : LifeCall → Option UvmState
  | .copy call => st.copyStep call
  | .free p => st.afterCall p (procFree p)

/-- A call of `uvm_copyout` has a range below the trap frame, and takes no page in its middle
for the last one. -/
def StoresBelow (st : UvmState) : LifeCall → Prop
  | .copy call => st.CopiesBelow call
  | .free _ => True

theorem Living.space {call : SpaceCall} (h : st.Living) (hstep : st.spaceStep call = some st') :
    Serves call.owner st st' := by
  cases call with
  | first initcode =>
      obtain ⟨_, hrun⟩ := after_eq_some.mp hstep
      exact (procMakeFirst_begins h hrun).1.serves
  | fork p =>
      obtain ⟨hp, _, hrun⟩ := afterCall_eq_some.mp hstep
      exact (procFork_begins h hp hrun).1.serves
  | exec p ip args =>
      obtain ⟨hp, _, hrun⟩ := afterCall_eq_some.mp hstep
      exact procExec_serves h hp hrun
  | brk p newHeapTop =>
      obtain ⟨hp, _, hrun⟩ := afterCall_eq_some.mp hstep
      exact (sysBrk_keepsSeats h hp hrun).serves
  | mmap p begin len =>
      obtain ⟨hp, _, hrun⟩ := afterCall_eq_some.mp hstep
      exact (sysMmap_keepsSeats h hp hrun).serves
  | munmap p begin len =>
      obtain ⟨hp, _, hrun⟩ := afterCall_eq_some.mp hstep
      exact (sysMunmap_keepsSeats h hp hrun).serves
  | fault p frame stval =>
      obtain ⟨hp, _, hrun⟩ := afterCall_eq_some.mp hstep
      exact (pageFault_serves h hp hrun).1
  | store p frame va byte =>
      obtain ⟨hp, _, hrun⟩ := afterCall_eq_some.mp hstep
      exact userStore_serves h hp hrun

theorem Living.step {call : LifeCall} (h : st.Living) (hbelow : st.StoresBelow call)
    (hstep : st.lifeStep call = some st') : Serves call.owner st st' := by
  cases call with
  | copy call =>
      cases call with
      | space call => exact h.space hstep
      | copyout p dst src len =>
          obtain ⟨hp, _, hrun⟩ := afterCall_eq_some.mp hstep
          exact (copyout_keepsSeats h hp hbelow hrun).serves
  | free p =>
      obtain ⟨hp, _, hrun⟩ := afterCall_eq_some.mp hstep
      exact (procFree_serves h hp hrun).1

theorem living_run {calls : List LifeCall} (h : st.Living)
    (halong : Along lifeStep StoresBelow st calls) (hrun : run lifeStep st calls = some st') :
    st'.Living :=
  run_invariant (fun _ _ _ h hbelow hstep => (h.step hbelow hstep).living) h halong hrun

theorem untouched_run {calls : List LifeCall} (h : st.Living)
    (halong : Along lifeStep StoresBelow st calls) (hrun : run lifeStep st calls = some st')
    (hq : st.Used q) (hfor : ∀ call ∈ calls, call.owner ≠ some q) : Untouched st st' q := by
  induction calls generalizing st with
  | nil =>
      cases hrun
      exact .refl _ q
  | cons call calls ih =>
      obtain ⟨st₁, hstep, hrest⟩ := run_cons.mp hrun
      have hserves := h.step halong.1 hstep
      have hfirst := hserves.spared q hq (hfor call List.mem_cons_self)
      exact hfirst.trans (ih hserves.living (halong.2 st₁ hstep) hrest (hfirst.used hq)
        fun other hmem => hfor other (List.mem_cons_of_mem call hmem))

theorem Kept.living (h : st.Kept) (hnone : ∀ p, ¬ st.Used p) : st.Living :=
  ⟨h, fun p _ hp => absurd hp (hnone p), fun p hp => absurd hp (hnone p),
    fun p hp => absurd hp (hnone p)⟩

/-- From before the first process on, whatever is done for other processes, those that are
made and those that end among them, leaves a process its fields, the bytes it reads, its saved
registers and the pages over which it enters the kernel, as long as every call of `uvm_copyout`
is as `StoresBelow` says. -/
theorem processes_stay_apart {boot : UvmState} {calls more : List LifeCall} (hboot : boot.Kept)
    (hnone : ∀ p, ¬ boot.Used p)
    (hbelow : Along lifeStep StoresBelow boot calls)
    (hcalls : run lifeStep boot calls = some st)
    (hbelow' : Along lifeStep StoresBelow st more) (hmore : run lifeStep st more = some st')
    (hq : st.Used q) (hfor : ∀ call ∈ more, call.owner ≠ some q) : Untouched st st' q :=
  untouched_run (living_run (hboot.living hnone) hbelow hcalls) hbelow' hmore hq hfor

/-- A parent stores to a page that it shares with its child. -/
theorem processes_stay_apart_forked : ∃ st st',
    run lifeStep unborn [.copy (.space (.first [7])), .copy (.space (.fork 0))] = some st ∧
    run lifeStep st [.copy (.space (.store 0 (fun _ => 0) 0x1000 8)),
      .copy (.copyout 0 0x1ffc (fun _ => 1) 4)] = some st' ∧ st.Used 1 ∧
    Untouched st st' 1 := by
  have hall : ((run lifeStep unborn
      [.copy (.space (.first [7])), .copy (.space (.fork 0))]).bind fun st =>
      (run lifeStep st [.copy (.space (.store 0 (fun _ => 0) 0x1000 8)),
        .copy (.copyout 0 0x1ffc (fun _ => 1) 4)]).map fun _ => decide (st.Used 1)) =
        some true := by
    decide +kernel
  obtain ⟨st, hcalls, hall⟩ := Option.bind_eq_some_iff.mp hall
  obtain ⟨st', hmore, hused⟩ := Option.map_eq_some_iff.mp hall
  have hq := of_decide_eq_true hused
  refine ⟨st, st', hcalls, hmore, hq, ?_⟩
  refine processes_stay_apart unborn_kept (fun p hp => hp rfl) ?_ hcalls ?_ hmore hq (by decide)
  · exact ⟨trivial, fun _ _ => ⟨trivial, fun _ _ => trivial⟩⟩
  · exact ⟨trivial, fun _ _ =>
      ⟨userSpan_short (by decide) (by decide), fun _ _ => trivial⟩⟩

end UvmState

end UnoOS.Uvm
