import UnoOS.Lib.Transition
import UnoOS.Mem.PmemLaws

namespace UnoOS.Kernel

open UnoOS.Lib
open UnoOS.Mem

/-! `pipe_close` by two processes, one for each end of a pipe.  The flags are
words in the page of the pipe. -/

def openAddr (pipe : UInt64) (writable : Bool) : Nat :=
  pipe.toNat + if writable then 536 else 532

/-- `pipe_close` under the lock; it also wakes up the other end. -/
def pipeCloseFlag (pipe : UInt64) (writable : Bool) : MemM Unit :=
  updateMem fun m => m.store32 (openAddr pipe writable) 0

/-- `pipe_close` after it has released the lock: whether the page goes to
`pmem_free`. -/
def pipeCloseTest (pipe : UInt64) : MemM Bool := do
  let m ← readMem
  if m.load32 (openAddr pipe false) = 0 ∧ m.load32 (openAddr pipe true) = 0 then
    pmemFree pipe true
    return true
  else
    return false

inductive ClosePhase where
  | called
  | cleared
  | returned
deriving DecidableEq

structure Closing where
  mem : MemState
  /-- Where the process is that closes the end for writing (`true`) or reading. -/
  phase : Bool → ClosePhase
  /-- The page was passed to `pmem_free`. -/
  released : Bool
  /-- The pipe was used after that. -/
  late : Bool

namespace Closing

def start (s : MemState) : Closing where
  mem := s
  phase := fun _ => .called
  released := false
  late := false

def step (pipe : UInt64) (st : Closing) (w : Bool) : Option Closing :=
  match st.phase w with
  | .called =>
      match pipeCloseFlag pipe w st.mem with
      | .ok (_, mem) => some { st with
          mem := mem
          phase := Function.update st.phase w .cleared
          late := st.late || st.released }
      | .error _ => none
  | .cleared =>
      match pipeCloseTest pipe st.mem with
      | .ok (freed, mem) => some {
          mem := mem
          phase := Function.update st.phase w .returned
          released := st.released || freed
          late := st.late || st.released }
      | .error _ => none
  | .returned => none

/-- The page was passed to `pmem_free` once, and the pipe not used afterwards. -/
structure ReleasedOnce (pipe : UInt64) (s : MemState) (st : Closing) : Prop where
  once : st.mem.freed = pipe :: s.freed
  unused : st.late = false

def IsOpen (m : Memory) (pipe : UInt64) : Prop :=
  ∀ w, m.load32 (openAddr pipe w) ≠ 0

variable {pipe : UInt64} {s : MemState} {st st' : Closing} {w : Bool}

/-- A flag is not touched by a store to the other. -/
theorem load_openAddr_other (m : Memory) (pipe : UInt64) (w : Bool) :
    (m.store32 (openAddr pipe w) 0).load32 (openAddr pipe !w) =
      m.load32 (openAddr pipe !w) := by
  apply Memory.load32_congr
  intro k hk
  apply Memory.write_of_not_mem
  cases w <;> simp only [openAddr, Bool.not_true, Bool.not_false, if_true,
    Bool.false_eq_true, if_false] <;> omega

theorem step_called (h : st.phase w = .called) :
    st.step pipe w = some { st with
      mem := st.mem.setMem (st.mem.mem.store32 (openAddr pipe w) 0)
      phase := Function.update st.phase w .cleared
      late := st.late || st.released } := by
  unfold step
  rw [h]
  rfl

theorem step_cleared_open (h : st.phase w = .cleared) {w' : Bool}
    (hopen : st.mem.mem.load32 (openAddr pipe w') ≠ 0) :
    st.step pipe w = some { st with
      phase := Function.update st.phase w .returned
      late := st.late || st.released } := by
  have htest : pipeCloseTest pipe st.mem = .ok (false, st.mem) := by
    unfold pipeCloseTest
    rw [readMem_bind, if_neg]
    · rfl
    · rintro ⟨hread, hwrite⟩
      cases w' with
      | true => exact hopen hwrite
      | false => exact hopen hread
  unfold step
  rw [h, htest]
  simp

theorem pipe_pmemFree (hin : s.kernRegion.Contains pipe) :
    ∃ mem, pmemFree pipe true s = .ok ((), mem) ∧ mem.freed = pipe :: s.freed := by
  have hregion : (s.region true).Contains pipe := hin
  refine ⟨_, pmemFree_eq_ok.mpr ⟨hregion, rfl⟩, ?_⟩
  split
  · rfl
  · rfl

theorem step_cleared_closed (h : st.phase w = .cleared)
    (hclosed : ∀ w', st.mem.mem.load32 (openAddr pipe w') = 0)
    (hin : st.mem.kernRegion.Contains pipe) :
    ∃ mem, mem.freed = pipe :: st.mem.freed ∧
      st.step pipe w = some {
        mem := mem
        phase := Function.update st.phase w .returned
        released := true
        late := st.late || st.released } := by
  obtain ⟨mem, hfree, hfreed⟩ := pipe_pmemFree hin
  refine ⟨mem, hfreed, ?_⟩
  have htest : pipeCloseTest pipe st.mem = .ok (true, mem) := by
    unfold pipeCloseTest
    rw [readMem_bind, if_pos ⟨hclosed false, hclosed true⟩, Exec.bind_of_ok hfree]
    rfl
  unfold step
  rw [h, htest]
  simp

theorem step_returned (h : st.phase w = .returned) : st.step pipe w = none := by
  unfold step
  rw [h]

theorem late_of_step (hlate : st.released ∨ st.late) (h : st.step pipe w = some st') :
    st'.late := by
  have hor : (st.late || st.released) = true := by
    rwa [Bool.or_comm, Bool.or_eq_true]
  unfold step at h
  split at h
  · split at h
    · cases h
      exact hor
    · cases h
  · split at h
    · cases h
      exact hor
    · cases h
  · cases h

theorem late_of_run {sched : List Bool} (hlate : st.late)
    (h : run (step pipe) st sched = some st') : st'.late :=
  run_invariant_of_step (fun _ _ _ hi hop => late_of_step (.inr hi) hop) hlate h

theorem run_alone {sched : List Bool} (hcalled : st.phase w = .called)
    (hreturned : st.phase (!w) = .returned) (hreleased : st.released = false)
    (hcleared : st.mem.mem.load32 (openAddr pipe !w) = 0)
    (hin : st.mem.kernRegion.Contains pipe)
    (hrun : run (step pipe) st sched = some st')
    (hdone : ∀ w, st'.phase w = .returned) :
    sched = [w, w] ∧ st'.mem.freed = pipe :: st.mem.freed ∧ st'.late = st.late := by
  have hne : w ≠ !w := by
    cases w <;> decide
  -- the other process makes no step any more
  have hmine : ∀ {st₁ st₂ : Closing} {v : Bool}, st₁.phase (!w) = .returned →
      st₁.step pipe v = some st₂ → v = w := by
    intro st₁ st₂ v hret hstep
    by_contra hv
    rw [Bool.eq_not_of_ne hv, step_returned hret] at hstep
    cases hstep
  cases sched with
  | nil =>
      cases hrun
      rw [hdone w] at hcalled
      cases hcalled
  | cons v sched =>
      obtain ⟨st₁, hstep₁, hrun₁⟩ := run_cons.mp hrun
      have hv := hmine hreturned hstep₁
      subst hv
      rw [step_called hcalled, Option.some_inj] at hstep₁
      have hphase₁ : st₁.phase v = .cleared := by
        rw [← hstep₁]
        exact Function.update_self ..
      have hother₁ : st₁.phase (!v) = .returned := by
        rw [← hstep₁]
        exact (Function.update_of_ne (Ne.symm hne) _ _).trans hreturned
      have hclosed : ∀ w', st₁.mem.mem.load32 (openAddr pipe w') = 0 := by
        intro w'
        rw [← hstep₁]
        by_cases hw : w' = v
        · rw [hw]
          exact Memory.load32_store32_self _ _ _
        · rw [Bool.eq_not_of_ne hw]
          exact (load_openAddr_other _ pipe v).trans hcleared
      have hin₁ : st₁.mem.kernRegion.Contains pipe := by
        rw [← hstep₁]
        exact hin
      obtain ⟨mem, hfreed, hstep₂'⟩ := step_cleared_closed hphase₁ hclosed hin₁
      cases sched with
      | nil =>
          cases hrun₁
          rw [hdone v] at hphase₁
          cases hphase₁
      | cons v' sched =>
          obtain ⟨st₂, hstep₂, hrun₂⟩ := run_cons.mp hrun₁
          have hv' := hmine hother₁ hstep₂
          subst hv'
          rw [hstep₂', Option.some_inj] at hstep₂
          cases sched with
          | nil =>
              cases hrun₂
              rw [← hstep₂]
              refine ⟨rfl, ?_, ?_⟩
              · rw [hfreed, ← hstep₁]
                rfl
              · rw [← hstep₁]
                simp [hreleased]
          | cons v'' sched =>
              obtain ⟨st₃, hstep₃, _⟩ := run_cons.mp hrun₂
              have hret : ∀ u, st₂.phase u = .returned := by
                intro u
                rw [← hstep₂]
                by_cases hu : u = v'
                · rw [hu]
                  exact Function.update_self ..
                · rw [Bool.eq_not_of_ne hu]
                  exact (Function.update_of_ne (Ne.symm hne) _ _).trans hother₁
              rw [step_returned (hret v'')] at hstep₃
              cases hstep₃

/-- The first process tests the flags before the other one has cleared its
own. -/
theorem run_apart {sched : List Bool} (hin : s.kernRegion.Contains pipe)
    (hopen : IsOpen s.mem pipe)
    (hrun : run (step pipe) (start s) (w :: w :: sched) = some st)
    (hdone : ∀ w, st.phase w = .returned) :
    sched = [!w, !w] ∧ ReleasedOnce pipe s st := by
  obtain ⟨st₁, hstep₁, hrun⟩ := run_cons.mp hrun
  obtain ⟨st₂, hstep₂, hrun⟩ := run_cons.mp hrun
  rw [step_called rfl, Option.some_inj] at hstep₁
  have hother : st₁.mem.mem.load32 (openAddr pipe !w) ≠ 0 := by
    rw [← hstep₁]
    exact (load_openAddr_other s.mem pipe w).trans_ne (hopen !w)
  have hphase : st₁.phase w = .cleared := by
    rw [← hstep₁]
    exact Function.update_self ..
  rw [step_cleared_open hphase hother, Option.some_inj] at hstep₂
  subst hstep₁
  subst hstep₂
  have hself : Memory.load32 (s.mem.store32 (openAddr pipe w) 0)
      (openAddr pipe w) = 0 := Memory.load32_store32_self _ _ _
  obtain ⟨hsched, hfreed, hlate⟩ := run_alone (w := !w)
    (by cases w <;> rfl) (by cases w <;> rfl) rfl (by rwa [Bool.not_not])
    hin hrun hdone
  exact ⟨hsched, hfreed, hlate⟩

theorem run_together {sched : List Bool} (hin : s.kernRegion.Contains pipe)
    (hrun : run (step pipe) (start s) (w :: (!w) :: sched) = some st)
    (hdone : ∀ w, st.phase w = .returned) : st.late := by
  obtain ⟨st₁, hstep₁, hrun⟩ := run_cons.mp hrun
  obtain ⟨st₂, hstep₂, hrun⟩ := run_cons.mp hrun
  rw [step_called rfl, Option.some_inj] at hstep₁
  have hphase₁ : st₁.phase (!w) = .called := by
    rw [← hstep₁]
    cases w <;> rfl
  rw [step_called hphase₁, Option.some_inj] at hstep₂
  have hphase₂ : ∀ u, st₂.phase u = .cleared := by
    intro u
    rw [← hstep₂, ← hstep₁]
    cases w <;> cases u <;> rfl
  have hclosed : ∀ u, st₂.mem.mem.load32 (openAddr pipe u) = 0 := by
    intro u
    rw [← hstep₂]
    by_cases hu : u = !w
    · rw [hu]
      exact Memory.load32_store32_self _ _ _
    · have hu' : u = !!w := Bool.eq_not_of_ne hu
      rw [hu']
      refine (load_openAddr_other _ pipe !w).trans ?_
      rw [Bool.not_not, ← hstep₁]
      exact Memory.load32_store32_self _ _ _
  have hin₂ : st₂.mem.kernRegion.Contains pipe := by
    rw [← hstep₂, ← hstep₁]
    exact hin
  cases sched with
  | nil =>
      cases hrun
      have hphase := hphase₂ w
      rw [hdone w] at hphase
      cases hphase
  | cons u sched =>
      obtain ⟨st₃, hstep₃, hrun⟩ := run_cons.mp hrun
      obtain ⟨mem, _, hstep₃'⟩ := step_cleared_closed (hphase₂ u) hclosed hin₂
      rw [hstep₃', Option.some_inj] at hstep₃
      cases sched with
      | nil =>
          -- the other process has not made its test yet
          cases hrun
          have hphase : st.phase (!u) = .cleared := by
            rw [← hstep₃]
            refine (Function.update_of_ne ?_ _ _).trans (hphase₂ _)
            cases u <;> decide
          rw [hdone] at hphase
          cases hphase
      | cons u' sched =>
          obtain ⟨st₄, hstep₄, hrun⟩ := run_cons.mp hrun
          refine late_of_run (late_of_step (.inl ?_) hstep₄) hrun
          rw [← hstep₃]

/-- The page is passed to `pmem_free` once, by the last to use the pipe, exactly
if the calls do not overlap. -/
theorem pipe_released_once_iff {sched : List Bool}
    (hin : s.kernRegion.Contains pipe) (hopen : IsOpen s.mem pipe)
    (hrun : run (step pipe) (start s) sched = some st)
    (hdone : ∀ w, st.phase w = .returned) :
    ReleasedOnce pipe s st ↔ ∃ w, sched = [w, w, !w, !w] := by
  cases sched with
  | nil =>
      cases hrun
      cases hdone true
  | cons w sched =>
      cases sched with
      | nil =>
          obtain ⟨st₁, hstep, hrun⟩ := run_cons.mp hrun
          rw [step_called rfl, Option.some_inj] at hstep
          cases hrun
          have hphase : st.phase w = .cleared := by
            rw [← hstep]
            exact Function.update_self ..
          rw [hdone w] at hphase
          cases hphase
      | cons v sched =>
          by_cases hv : v = w
          · subst hv
            obtain ⟨rfl, honce⟩ := run_apart hin hopen hrun hdone
            exact iff_of_true honce ⟨v, rfl⟩
          · rw [Bool.eq_not_of_ne hv] at hrun
            have hlate := run_together hin hrun hdone
            refine iff_of_false ?_ ?_
            · intro honce
              rw [honce.unused] at hlate
              cases hlate
            · rintro ⟨u, hu⟩
              simp only [List.cons.injEq] at hu
              exact hv (hu.2.1.trans hu.1.symm)

/-- A kernel with one page, which holds a pipe that is open at both ends. -/
def onePipe : MemState where
  mem := (Memory.store32 (fun _ => 0) (openAddr 0x1000 true) 1).store32
    (openAddr 0x1000 false) 1
  kernRegion := ⟨0x1000, 0x2000, 0, 0⟩
  userRegion := ⟨0x2000, 0x2000, 0, 0⟩
  kernelPgtbl := 0
  freed := []

theorem onePipe_contains : onePipe.kernRegion.Contains 0x1000 := by
  unfold Region.Contains
  decide

/-- One process closes its end after the other. -/
theorem pipe_released_once_iff_in_turn :
    ∃ st, run (step 0x1000) (start onePipe) [true, true, false, false] = some st ∧
      ReleasedOnce 0x1000 onePipe st := by
  have hphases : (run (step 0x1000) (start onePipe)
      [true, true, false, false]).map (fun st => (st.phase true, st.phase false)) =
        some (.returned, .returned) := by
    decide +kernel
  obtain ⟨st, hrun, hphase⟩ := Option.map_eq_some_iff.mp hphases
  obtain ⟨hwriter, hreader⟩ := Prod.mk.inj hphase
  refine ⟨st, hrun, ?_⟩
  have hopen : IsOpen onePipe.mem 0x1000 := by
    unfold IsOpen
    decide +kernel
  refine (pipe_released_once_iff onePipe_contains hopen hrun ?_).mpr ⟨true, rfl⟩
  intro w
  cases w with
  | true => exact hwriter
  | false => exact hreader

/-- Both processes clear their flags, and then both find them cleared. -/
theorem pipe_released_twice :
    ∃ st, run (step 0x1000) (start onePipe) [true, false, true, false] = some st ∧
      (∀ w, st.phase w = .returned) ∧ st.mem.freed = [0x1000, 0x1000] ∧
      ¬ ReleasedOnce 0x1000 onePipe st := by
  have hend : (run (step 0x1000) (start onePipe)
      [true, false, true, false]).map
        (fun st => (st.phase true, st.phase false, st.mem.freed)) =
        some (.returned, .returned, [0x1000, 0x1000]) := by
    decide +kernel
  obtain ⟨st, hrun, hst⟩ := Option.map_eq_some_iff.mp hend
  simp only [Prod.mk.injEq] at hst
  obtain ⟨hwriter, hreader, hfreed⟩ := hst
  refine ⟨st, hrun, ?_, hfreed, ?_⟩
  · intro w
    cases w with
    | true => exact hwriter
    | false => exact hreader
  · intro honce
    have hsame := hfreed.symm.trans honce.once
    cases hsame

end Closing

end UnoOS.Kernel
