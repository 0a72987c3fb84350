import UnoOS.Uvm.ForkRuns
import UnoOS.Uvm.ProcExec

namespace UnoOS.Uvm

open UnoOS.Lib
open UnoOS.Kernel (ProcId)
open UnoOS.Mem

/-! What `proc_exec` leaves behind when it does not load a program. -/

/-- The process is as it was, and no page more or less is outstanding. -/
structure Intact (p : ProcId) (st st' : UvmState) : Prop where
  space : st'.procs p = st.procs p
  regions : st'.regions = st.regions
  frame : ∀ i, i < 4096 → st'.mem.mem ((st.procs p).tf.toNat + i) =
    st.mem.mem ((st.procs p).tf.toNat + i)
  user : st'.mem.userRegion.allocable = st.mem.userRegion.allocable
  kernel : st'.mem.kernRegion.allocable = st.mem.kernRegion.allocable

def FailsCleanly (p : ProcId) (ip : Option ExecFile) (argv : List (List UInt8))
    (st : UvmState) : Prop :=
  ∃ st', procExec p ip argv st = .ok (-1, st') ∧ Intact p st st'

variable {p : ProcId} {ip : Option ExecFile} {argv : List (List UInt8)}
  {st st' : UvmState}

theorem execBad_stops {pgtbl : UInt64} {result : Int} :
    execBad pgtbl st ≠ .ok (result, st') := by
  intro hrun
  unfold execBad at hrun
  obtain ⟨_, _, _, hstop⟩ := liftMem_bind_eq_ok.mp hrun
  cases hstop

/-- If there is a file, the call returns the number of arguments or not at all. -/
theorem procExec_some_eq_ok {file : ExecFile} {result : Int}
    (hrun : procExec p (some file) argv st = .ok (result, st')) :
    ∃ argc : Nat, result = argc := by
  unfold procExec at hrun
  rw [readSpace_bind, Exec.bind_eq_ok] at hrun
  obtain ⟨⟨tf, pgtbl⟩, _, _, hrun⟩ := hrun
  obtain ⟨image, _, _, hrun⟩ := Exec.bind_eq_ok.mp hrun
  cases image with
  | none => exact absurd hrun execBad_stops
  | some entry =>
      obtain ⟨pushed, _, _, hrun⟩ := liftMem_bind_eq_ok.mp hrun
      cases pushed with
      | none => exact absurd hrun execBad_stops
      | some pushed =>
          obtain ⟨argc, sp⟩ := pushed
          obtain ⟨_, _, _, hrun⟩ := Exec.bind_eq_ok.mp hrun
          exact ⟨argc, (Prod.mk.inj (Except.ok.inj hrun)).1.symm⟩

/-- Without a file, the new trap frame is not given back. -/
theorem procExec_none_allocable {result : Int}
    (hrun : procExec p none argv st = .ok (result, st')) :
    st'.mem.userRegion.allocable ≠ st.mem.userRegion.allocable := by
  unfold procExec newTable at hrun
  rw [readSpace_bind, Exec.bind_eq_ok] at hrun
  obtain ⟨⟨tf, pgtbl⟩, st₁, htable, hrun⟩ := hrun
  obtain ⟨_, mem₁, halloc, htable⟩ := liftMem_bind_eq_ok.mp htable
  obtain ⟨_, mem₂, hcopy, htable⟩ := liftMem_bind_eq_ok.mp htable
  rw [Exec.bind_of_ok (m := get) rfl] at htable
  obtain ⟨_, mem₃, hinit, htable⟩ := liftMem_bind_eq_ok.mp htable
  obtain ⟨_, rfl⟩ := Prod.mk.inj (Except.ok.inj htable)
  obtain ⟨_, rfl⟩ := Prod.mk.inj (Except.ok.inj hrun)
  have hinit' : mem₃.userRegion = mem₂.userRegion :=
    aloof_userRegion.procPgtblInit _ _ _ _ _ hinit
  have hcopy' : mem₂.userRegion = mem₁.userRegion :=
    aloof_userRegion.updateMem _ _ _ _ hcopy
  obtain ⟨_, _, _, rfl⟩ := pmemAlloc_eq_ok.mp halloc
  change mem₃.userRegion.allocable ≠ _
  rw [hinit', hcopy']
  change st.mem.userRegion.allocable - 1 ≠ st.mem.userRegion.allocable
  intro heq
  have hone : (1 : UInt32) = 0 := by
    calc (1 : UInt32) = st.mem.userRegion.allocable -
          (st.mem.userRegion.allocable - 1) := by grind
      _ = 0 := by rw [heq]; grind
  exact absurd hone (by decide)

/-- `proc_exec` never fails the way it should: without a file it keeps the new trap
frame and its table, and behind that it panics. -/
theorem exec_never_fails_cleanly (p : ProcId) (ip : Option ExecFile)
    (argv : List (List UInt8)) (st : UvmState) : ¬ FailsCleanly p ip argv st := by
  rintro ⟨st', hrun, hintact⟩
  cases ip with
  | none => exact procExec_none_allocable hrun hintact.user
  | some file =>
      obtain ⟨argc, hargc⟩ := procExec_some_eq_ok hrun
      omega

/-- The first process calls `proc_exec` with a path one of whose components is no directory:
the result is -1, and the new trap frame and three tables are gone. -/
theorem exec_missing_file_leaks : ∃ st,
    run UvmState.step UvmState.unborn [.first [7]] = some st ∧ st.Used 0 ∧
    (∃ st', procExec 0 none [] st = .ok (-1, st')) ∧
    ¬ FailsCleanly 0 none [] st := by
  have hall : (run UvmState.step UvmState.unborn [.first [7]]).map (fun st =>
      (decide (st.Used 0), (procExec 0 none [] st).toOption.map Prod.fst)) =
        some (true, some (-1)) := by
    decide +kernel
  obtain ⟨st, hrun, hall⟩ := Option.map_eq_some_iff.mp hall
  obtain ⟨hused, hresult⟩ := Prod.mk.inj hall
  refine ⟨st, hrun, of_decide_eq_true hused, ?_, ?_⟩
  · cases hexec : procExec 0 none [] st with
    | error reason =>
        rw [hexec] at hresult
        cases hresult
    | ok result =>
        rw [hexec] at hresult
        obtain ⟨value, st'⟩ := result
        cases hresult
        exact ⟨st', rfl⟩
  · rintro ⟨st', hexec, hintact⟩
    exact procExec_none_allocable hexec hintact.user

end UnoOS.Uvm
