import UnoOS.Kernel.ProcCollect

namespace UnoOS.Kernel

open UnoOS.Lib

/-! Whether a process that sleeps in `proc_wait` hears of the exit of a child.
`proc_exit` wakes up the parent that it read before, and the first process before
it hands over its own children. -/

namespace TaskPc

variable {n : Nat}

/-- In `proc_wait`, and will not look at process `z` before it is woken up. -/
@[grind =]
def passed (z : Fin n) (state : ProcState) : TaskPc n → Bool
  | .scanning k _ => decide (z < k)
  | .scanningAt i => decide (z < i)
  | .waitAsleep => decide (state = .sleeping)
  | _ => false

/-- In `proc_exit` with the lock of process `w`, which it will wake up. -/
@[grind =]
def Alarms (w : Fin n) : TaskPc n → Prop
  | .lockingItself _ q => q = w
  | .reparenting _ q _ => q = w
  | .reparentingAt _ q _ => q = w
  | _ => False

def inExit : TaskPc n → Bool
  | .exiting _ | .orphaning _ | .lockingParent _ _ | .lockingItself _ _ => true
  | .reparenting _ _ _ | .reparentingAt _ _ _ | .dying => true
  | _ => false

theorem inExit_of_alarms {w : Fin n} {pc : TaskPc n} (h : pc.Alarms w) : pc.inExit := by
  cases pc <;> first | rfl | cases h

theorem passed_of_awake {z : Fin n} {state state' : ProcState} {pc : TaskPc n}
    (h : pc.passed z state) (hne : state ≠ .sleeping) : pc.passed z state' := by
  cases pc <;> first | exact h | exact absurd (of_decide_eq_true h) hne

end TaskPc

namespace ProcTable

variable {n : Nat} {κ : Type}

def Alarmed (pc : Fin n → TaskPc n) (w : Fin n) : Prop :=
  ∃ q, (pc q).Alarms w

section

variable {st : ProcTable n κ} {w p : Fin n}

@[grind =]
theorem alarmed_setState {state : ProcState} :
    Alarmed (st.setState p state).pc w ↔ Alarmed st.pc w := Iff.rfl

@[grind =]
theorem alarmed_setParent {parent : Option (Fin n)} :
    Alarmed (st.setParent p parent).pc w ↔ Alarmed st.pc w := Iff.rfl

@[grind =]
theorem alarmed_setLk {holder : Option κ} :
    Alarmed (st.setLk p holder).pc w ↔ Alarmed st.pc w := Iff.rfl

@[grind =]
theorem alarmed_setSleep {space : SleepSpace} :
    Alarmed (st.setSleep p space).pc w ↔ Alarmed st.pc w := Iff.rfl

@[grind =]
theorem alarmed_procFree : Alarmed (st.procFree p).pc w ↔ Alarmed st.pc w := Iff.rfl

@[grind =]
theorem alarmed_setCpu [DecidableEq κ] {c : κ} {cpu : CpuPc n} :
    Alarmed (st.setCpu c cpu).pc w ↔ Alarmed st.pc w := Iff.rfl

@[grind ←]
theorem Alarmed.setPc {pc : TaskPc n} (h : Alarmed st.pc w)
    (hp : (st.pc p).Alarms w → pc.Alarms w) : Alarmed (st.setPc p pc).pc w := by
  obtain ⟨q, hq⟩ := h
  refine ⟨q, ?_⟩
  rw [setPc_pc]
  rcases eq_or_ne q p with heq | hne
  · rw [heq, Function.update_self]
    exact hp (heq ▸ hq)
  · rw [Function.update_of_ne hne]
    exact hq

@[grind ←]
theorem Alarmed.setPc_self {pc : TaskPc n} (h : pc.Alarms w) :
    Alarmed (st.setPc p pc).pc w :=
  ⟨p, by rw [setPc_pc, Function.update_self]; exact h⟩

end

/-- No exit is lost: a parent that has passed a child that is `ZOMBIE` will be woken
up. -/
structure Notified (st : ProcTable n κ) : Prop where
  heard : ∀ z w, st.state z = .zombie → st.parent z = some w →
    (st.pc w).passed z (st.state w) → Alarmed st.pc w
  space : ∀ w, st.pc w = .waitAsleep → st.sleepSpace w = .itself

attribute [local grind =] procSched ProcTable.endFork Function.update_apply
attribute [local grind cases eager] Notified

/-- What the code relies on when a process becomes `ZOMBIE` and when a child that is
`ZOMBIE` is handed over: the process that is woken up is the parent from then on, or
the new parent has not yet come to that child. -/
def heeds (proczero : Fin n) (st : ProcTable n κ) : TableOp n κ → Bool
  | .turn c _ =>
      match st.cpu c with
      | .executing p =>
          match st.pc p with
          | .reparenting _ q k => decide (n ≤ k → ∀ w, st.parent p = some w →
              w = q ∨ ¬(st.pc w).passed p (st.state w))
          | .reparentingAt _ q i => decide (st.state i = .zombie →
              proczero = q ∨ ¬(st.pc proczero).passed i (st.state proczero))
          | _ => true
      | _ => true
  | _ => true

variable {proczero p q i : Fin n} {st st' : ProcTable n κ} {c : κ}

theorem Notified.fork (hplaced : st.Placed) (h : st.Notified)
    (hmove : ForkMoves st st') : st'.Notified := by
  have hunused := hplaced.unused
  have hbuilt := hplaced.built
  cases hmove with
  | takePid | passSlot | takeSlot | endFork => constructor <;> grind -linarith

theorem Notified.awaken (h : st.Notified) (q : Fin n) :
    (st.setState q .runnable).Notified := by
  refine ⟨?_, h.space⟩
  intro z w hz hw hpassed
  have hz' : st.state z = .zombie := by
    grind
  apply h.heard z w hz' hw
  rcases eq_or_ne w q with heq | hne
  · rw [heq] at hpassed ⊢
    apply TaskPc.passed_of_awake hpassed
    simp [setState]
  · simpa [setState, Function.update_of_ne hne] using hpassed

theorem Notified.wakeupOne (h : st.Notified) (q : Fin n) : (st.wakeupOne q).Notified := by
  unfold ProcTable.wakeupOne
  split
  · exact h.awaken q
  · exact h

theorem Notified.goOn {pc : TaskPc n} (h : st.Notified)
    (hpassed : ∀ z, ¬pc.passed z (st.state p)) (hpc : pc ≠ .waitAsleep)
    (halarms : ∀ w, (st.pc p).Alarms w → pc.Alarms w) : (st.setPc p pc).Notified := by
  constructor <;> grind -linarith

theorem Notified.reparent {s : Int} (h : st.Notified)
    (hpc : st.pc p = .reparentingAt s q i)
    (hheeds : st.state i = .zombie →
      proczero = q ∨ ¬(st.pc proczero).passed i (st.state proczero)) :
    ((st.setParent i (some proczero)).setPc p (.reparenting s q (i + 1))).Notified := by
  constructor <;> grind -linarith

/-- The parent that was read is not in the loop of `proc_wait`, and no longer
asleep there. -/
theorem Notified.not_passed {s : Int} {k : Nat} (hplaced : st.Placed) (h : st.Notified)
    (hcpu : st.cpu c = .executing p) (hpc : st.pc p = .reparenting s q k) (z : Fin n) :
    ¬((st.wakeupOne q).pc q).passed z ((st.wakeupOne q).state q) := by
  have hlk : st.lk q = some c := hplaced.locked c p q hcpu (by rw [hpc]; exact Or.inl rfl)
  have hne := hplaced.apart p s q k hpc
  have hother : ∀ c', st.cpu c' = .executing q → st.lk q ≠ some c' := by
    intro c' hc' hlk'
    rw [hlk] at hlk'
    cases hlk'
    rw [hcpu] at hc'
    cases hc'
    exact hne rfl
  have hexecuted := hplaced.executed q
  have hlocked := hplaced.locked
  have hspace := h.space q
  rw [wakeupOne_pc]
  unfold ProcTable.wakeupOne
  cases hq : st.pc q with
  | scanning k' kids =>
      obtain ⟨c', hc'⟩ : OnCpu st.cpu q := by simpa [hq] using hexecuted
      exact absurd (hlocked c' q q hc' (by rw [hq]; rfl)) (hother c' hc')
  | scanningAt j =>
      obtain ⟨c', hc'⟩ : OnCpu st.cpu q := by simpa [hq] using hexecuted
      exact absurd (hlocked c' q q hc' (by rw [hq]; rfl)) (hother c' hc')
  | waitAsleep =>
      simp only [TaskPc.passed, decide_eq_true_eq]
      split
      · simp [setState]
      · rename_i hawake
        intro hsleeping
        exact hawake ⟨hsleeping, hspace hq⟩
  | _ => exact Bool.false_ne_true

theorem Notified.die {s : Int} {k : Nat} (h : st.Notified)
    (hpc : st.pc p = .reparenting s q k)
    (hnot : ∀ z, ¬(st.pc q).passed z (st.state q))
    (hheeds : ∀ w, st.parent p = some w →
      w = q ∨ ¬(st.pc w).passed p (st.state w)) :
    (((st.setState p .zombie).setLk q none).setPc p .dying).Notified := by
  constructor <;> grind -linarith

theorem Notified.endExit {s : Int} {k : Nat} (hplaced : st.Placed) (h : st.Notified)
    (hcpu : st.cpu c = .executing p) (hpc : st.pc p = .reparenting s q k)
    (hheeds : ∀ w, st.parent p = some w →
      w = q ∨ ¬(st.pc w).passed p (st.state w)) :
    (st.endExit p s q).Notified := by
  have hstate : ∀ w, w ≠ q → (st.wakeupOne q).state w = st.state w := by
    intro w hw
    unfold ProcTable.wakeupOne
    split
    · exact Function.update_of_ne hw _ _
    · rfl
  have hparent : (st.wakeupOne q).parent = st.parent := by
    unfold ProcTable.wakeupOne
    split <;> rfl
  have hpc' : (st.wakeupOne q).pc p = .reparenting s q k := by
    rw [wakeupOne_pc, hpc]
  have hheeds' : ∀ w, (st.wakeupOne q).parent p = some w →
      w = q ∨ ¬((st.wakeupOne q).pc w).passed p ((st.wakeupOne q).state w) := by
    intro w hw
    rw [hparent] at hw
    rcases eq_or_ne w q with heq | hne
    · exact Or.inl heq
    · rw [wakeupOne_pc, hstate w hne]
      exact hheeds w hw
  exact { (h.wakeupOne q).die hpc' (h.not_passed hplaced hcpu hpc) hheeds' with }

/-- While no process is in `proc_exit`, none that sleeps in `proc_wait` has a child
that is `ZOMBIE`. -/
def Prompt (st : ProcTable n κ) : Prop :=
  (∀ p, (st.pc p).inExit = false) → ∀ w z, st.pc w = .waitAsleep →
    st.state w = .sleeping → st.parent z = some w → st.state z ≠ .zombie

theorem Notified.prompt (h : st.Notified) : st.Prompt := by
  intro hexit w z hpc hstate hparent hzombie
  have hpassed : (st.pc w).passed z (st.state w) := by
    rw [hpc, hstate]
    rfl
  obtain ⟨q, hq⟩ := h.heard z w hzombie hparent hpassed
  have hin := TaskPc.inExit_of_alarms hq
  rw [hexit q] at hin
  cases hin

variable [DecidableEq κ]

theorem Notified.exit (hplaced : st.Placed) (h : st.Notified) {better : Bool}
    (hheeds : st.heeds proczero (.turn c better))
    (hmove : ExitMoves proczero st c st') : st'.Notified := by
  cases hmove with
  | wakeZero hcpu hpc hlk =>
      exact (h.wakeupOne proczero).goOn (by simp [TaskPc.passed]) (by simp)
        (by simp [hpc, TaskPc.Alarms])
  | readParent hcpu hpc _ =>
      exact h.goOn (by simp [TaskPc.passed]) (by simp) (by simp [hpc, TaskPc.Alarms])
  | findChild hcpu hpc _ =>
      exact h.goOn (by simp [TaskPc.passed]) (by simp) (by simp [hpc, TaskPc.Alarms])
  | passChild hcpu hpc _ =>
      exact h.goOn (by simp [TaskPc.passed]) (by simp) (by simp [hpc, TaskPc.Alarms])
  | lockParent hcpu hpc _ =>
      exact { h.goOn (by simp [TaskPc.passed]) (by simp) (by simp [hpc, TaskPc.Alarms]) with }
  | lockItself hcpu hpc _ =>
      exact { h.goOn (by simp [TaskPc.passed]) (by simp) (by simp [hpc, TaskPc.Alarms]) with }
  | die hcpu hpc =>
      exact { h.goOn (by simp [TaskPc.passed]) (by simp) (by simp [hpc, TaskPc.Alarms]) with }
  | reparent hcpu hpc _ =>
      simp only [heeds, hcpu, hpc, decide_eq_true_eq] at hheeds
      exact h.reparent hpc hheeds
  | endExit hcpu hpc hall =>
      simp only [heeds, hcpu, hpc, decide_eq_true_eq] at hheeds
      exact h.endExit hplaced hcpu hpc (hheeds hall)

theorem Notified.wait (hplaced : st.Placed) (h : st.Notified)
    (hmove : WaitMoves st st') : st'.Notified := by
  have hzombie := hplaced.zombie
  cases hmove with
  | collect =>
      simp only [ProcTable.collect]
      constructor <;> grind -linarith
  | lockWait | scanFind | scanPass | scanSleep | scanFail | scanNext | endFree =>
      constructor <;> grind -linarith

theorem Notified.switch (hplaced : st.Placed) (h : st.Notified)
    (hmove : SwitchMoves st st') : st'.Notified := by
  have hchosen := hplaced.chosen
  cases hmove with
  | wake hlk hstate hspace => exact h.awaken _
  | chooseFirst | chooseBetter | choosePass | release => exact { h with }
  | call | doze | sleep | resumeWait | resumeSleep | resumeFresh =>
      constructor <;> grind -linarith

theorem Notified.step {op : TableOp n κ} (hplaced : st.Placed) (h : st.Notified)
    (hheeds : st.heeds proczero op) (hstep : st.step proczero op = some st') :
    st'.Notified := by
  cases moves_of_step hstep with
  | fork hmove => exact h.fork hplaced hmove
  | exit hop hmove =>
      rw [hop] at hheeds
      exact h.exit hplaced hheeds hmove
  | wait hmove => exact h.wait hplaced hmove
  | switch hmove => exact h.switch hplaced hmove

/-- In every run of any number of processes in which every process that becomes
`ZOMBIE` or is handed over so is noticed, no exit is lost. -/
theorem exits_noticed {ops : List (TableOp n κ)}
    (halong : Along (step proczero) (fun st op => st.heeds proczero op) (boot proczero) ops)
    (hrun : run (step proczero) (boot proczero) ops = some st) : st.Prompt := by
  have hboot : (boot proczero : ProcTable n κ).Notified := by
    constructor <;> simp only [boot] <;> grind -linarith
  have h : st.Placed ∧ st.Notified := by
    refine run_invariant (I := fun st => st.Placed ∧ st.Notified) ?_
      ⟨placed_boot proczero, hboot⟩ halong hrun
    intro st op st' hi hheeds hop
    exact ⟨hi.1.step hop, hi.2.step hi.1 hheeds hop⟩
  exact h.2.prompt

def exitOfChild : List (TableOp 2 Bool) :=
  [.turn false true, .turn false false, .turn false false, .fork false,
    .turn false false, .turn false false, .turn false false, .turn false false,
    .wait false, .turn false false, .turn false false, .turn false false,
    .turn false false, .turn false false, .turn false false,
    .turn true false, .turn true true, .turn true false, .exit true 7,
    .turn true false, .turn true false, .turn true false, .turn true false,
    .turn true false, .turn true false, .turn true false, .turn true false,
    .turn true false]

theorem exits_noticed_of_child :
    ∃ st : ProcTable 2 Bool, run (step 0) (boot 0) exitOfChild = some st ∧
      st.Prompt ∧ st.state 1 = .zombie ∧ st.pc 0 = .waitAsleep ∧
      st.state 0 = .runnable := by
  have hlast : (run (step 0) (boot 0) exitOfChild).map
      (fun st => (st.state 1, st.pc 0, st.state 0)) =
      some (.zombie, .waitAsleep, .runnable) := by
    decide +kernel
  obtain ⟨st, hrun, hst⟩ := Option.map_eq_some_iff.mp hlast
  obtain ⟨hone, hst⟩ := Prod.mk.inj hst
  obtain ⟨hpc, hzero⟩ := Prod.mk.inj hst
  refine ⟨st, hrun, exits_noticed ?_ hrun, hone, hpc, hzero⟩
  decide +kernel

/-- Process 2 reads its parent, process 1, before that exits as well and hands it over
to the first process, which then waits again. -/
def staleParent : List (TableOp 3 Bool) :=
  [.turn false true, .turn false false, .turn false false, .turn false false,
    .fork false, .turn false false, .turn false false, .turn false false,
    .turn false false, .wait false, .turn false false, .turn false false,
    .turn false false, .turn false false, .turn false false, .turn false false,
    .turn false false, .turn false false, .turn false true, .turn false false,
    .turn false false, .fork false, .turn false false, .turn false false,
    .turn false false, .turn false false, .turn false false, .turn true false,
    .turn true false, .turn true true, .turn true false, .exit true 7,
    .turn true false, .turn true false, .exit false 8, .turn false false,
    .turn false false, .turn false false, .turn false false, .turn false false,
    .turn false false, .turn false false, .turn false false, .turn false false,
    .turn false false, .turn false false, .turn false true, .turn false false,
    .turn false false, .turn false false, .turn false false, .turn false false,
    .turn false false, .turn false false, .wait false, .turn false false,
    .turn false false, .turn false false, .turn false false, .turn false false,
    .turn false false, .turn false false, .turn true false, .turn true false,
    .turn true false, .turn true false, .turn true false, .turn true false,
    .turn true false, .turn true false]

theorem exit_lost :
    ∃ st : ProcTable 3 Bool, run (step 0) (boot 0) staleParent = some st ∧
      ¬st.Prompt := by
  have hlast : (run (step 0) (boot 0) staleParent).map
      (fun st => (decide (∀ p, (st.pc p).inExit = false), st.pc 0, st.state 0,
        st.parent 2, st.state 2)) =
      some (true, .waitAsleep, .sleeping, some 0, .zombie) := by
    decide +kernel
  obtain ⟨st, hrun, hst⟩ := Option.map_eq_some_iff.mp hlast
  simp only [Prod.mk.injEq, decide_eq_true_eq] at hst
  obtain ⟨hexit, hpc, hstate, hparent, hzombie⟩ := hst
  refine ⟨st, hrun, ?_⟩
  intro hprompt
  exact hprompt hexit 0 2 hpc hstate hparent hzombie

end ProcTable

end UnoOS.Kernel
