import UnoOS.Kernel.State
import UnoOS.Lib.Transition
import Mathlib.Tactic.Simps.Basic

namespace UnoOS.Kernel

open UnoOS.Lib

/-! `mycpu()->proc` under timer interrupts: `push_off`, `pop_off`
(`spinlock.c`), `proc_sched` and `proc_scheduler` (`proc.c`), and
`timer_interrupt_handler` (`trap_kernel.c`). -/

inductive CpuTask (π : Type) where
  /-- `proc_scheduler` at the beginning of its loop. -/
  | top
  /-- `proc_scheduler` in the loop over the processes. -/
  | looking (next : Option π)
  | executing (p : π)
  /-- `proc_scheduler`, which `swtch` has returned to from `p`. -/
  | back (p : π)
  /-- It has released the lock of `p`. -/
  | released (p : π)
deriving DecidableEq

structure CpuState (π : Type) where
  /-- Interrupts are enabled. -/
  intr : Bool
  noff : Nat
  origin : Bool
  proc : Option π
  task : CpuTask π
  /-- In `timer_interrupt_handler`, before it looks at `myproc()`. -/
  trap : Bool

namespace CpuState

variable {π : Type}

def pushOff (s : CpuState π) : CpuState π :=
  { s with
    intr := false
    noff := s.noff + 1
    origin := if s.noff = 0 then s.intr else s.origin }

def popOff (s : CpuState π) : CpuState π :=
  { s with
    noff := s.noff - 1
    intr := s.noff == 1 && s.origin }

/-- `timer_interrupt_handler` has acquired and released locks, with interrupts
disabled. -/
def leaveTrap (s : CpuState π) : CpuState π :=
  { s with
    trap := false
    origin := if s.noff = 0 then false else s.origin }

def canPop (s : CpuState π) : Bool :=
  !s.intr && decide (0 < s.noff)

end CpuState

structure CpuSystem (κ π : Type) where
  cpu : κ → CpuState π
  state : π → ProcState
  /-- The CPUs that have the locks of the processes. -/
  lk : π → Option κ
  /-- The variable `origin` of a process in `proc_sched`; none for a new process. -/
  saved : π → Option Bool

inductive CpuOp (κ π : Type) where
  /-- `intr_on` and `intr_off` around a system call. -/
  | intrOn (c : κ)
  | intrOff (c : κ)
  /-- Acquiring and releasing a lock of no process. -/
  | pushOff (c : κ)
  | popOff (c : κ)
  /-- The process acquires or releases its own lock. -/
  | lockOwn (c : κ)
  | unlockOwn (c : κ)
  /-- `proc_yield`, `proc_sleep` or `proc_exit` sets the state. -/
  | setState (c : κ) (state : ProcState)
  | sched (c : κ)
  /-- The scheduler goes on, or is at the end of the loop over the processes. -/
  | turn (c : κ)
  /-- The scheduler looks at a process, whose weight is the greatest so far or not. -/
  | look (c : κ) (q : π) (better : Bool)
  | tick (c : κ)
  /-- `timer_interrupt_handler` looks at `myproc()`. -/
  | test (c : κ)
  /-- `proc_wakeup` -/
  | wake (q : π)
  /-- `proc_free` and `proc_fork` of a new process in the same place. -/
  | create (q : π)

namespace CpuSystem

variable {κ π : Type}

section

variable [DecidableEq κ] [DecidableEq π]

@[simps -isSimp]
def setCpu (st : CpuSystem κ π) (c : κ) (s : CpuState π) : CpuSystem κ π :=
  { st with cpu := Function.update st.cpu c s }

@[simps -isSimp]
def setLk (st : CpuSystem κ π) (q : π) (holder : Option κ) : CpuSystem κ π :=
  { st with lk := Function.update st.lk q holder }

@[simps -isSimp]
def setState (st : CpuSystem κ π) (q : π) (state : ProcState) : CpuSystem κ π :=
  { st with state := Function.update st.state q state }

/-- `proc_init` and `proc_make_first`, with all CPUs in `proc_scheduler`. -/
def boot (first : π) : CpuSystem κ π where
  cpu := fun _ => ⟨true, 0, false, none, .top, false⟩
  state := Function.update (fun _ => .unused) first .runnable
  lk := fun _ => none
  saved := fun _ => none

/-- The scheduler runs a process whose lock it has.  `proc_sched` in that process
restores `origin`. -/
def dispatch (st : CpuSystem κ π) (c : κ) (q : π) : CpuSystem κ π :=
  (st.setState q .running).setCpu c { st.cpu c with
    proc := some q
    task := .executing q
    origin := (st.saved q).getD (st.cpu c).origin }

/-- `proc_scheduler` -/
def schedule (st : CpuSystem κ π) (c : κ) : Option (CpuSystem κ π) :=
  match (st.cpu c).task with
  | .top => some (st.setCpu c { st.cpu c with intr := true, task := .looking none })
  | .looking none => some (st.setCpu c { st.cpu c with task := .top })
  | .looking (some q) =>
      if st.state q = .runnable then some (st.dispatch c q) else none
  | .executing _ => none
  | .back p =>
      if st.lk p = some c ∧ (st.cpu c).canPop then
        some ((st.setLk p none).setCpu c
          { (st.cpu c).popOff with task := .released p })
      else none
  | .released _ => some (st.setCpu c { st.cpu c with proc := none, task := .top })

/-- The loop of `proc_scheduler` at one process: it acquires its lock and, if the
process is the best so far, releases that of the last one. -/
def lookAt (st : CpuSystem κ π) (c : κ) (next : Option π) (q : π) (better : Bool) :
    Option (CpuSystem κ π) :=
  if st.lk q = none then
    let s := (st.cpu c).pushOff
    if st.state q = .runnable ∧ better then
      match next with
      | none => some ((st.setLk q (some c)).setCpu c { s with task := .looking (some q) })
      | some q' => some (((st.setLk q' none).setLk q (some c)).setCpu c
          { s.popOff with task := .looking (some q) })
    else some (st.setCpu c s.popOff)
  else none

/-- `timer_interrupt_handler` after `timer_update`.  Called for a process that it does
not execute, `proc_yield` would save the wrong context: that is not modelled. -/
def timerTest (st : CpuSystem κ π) (c : κ) : Option (CpuSystem κ π) :=
  match (st.cpu c).proc with
  | none => some (st.setCpu c { (st.cpu c).leaveTrap with intr := true })
  | some q =>
      if st.state q = .running then
        if (st.cpu c).task = .executing q then some (st.setCpu c (st.cpu c).leaveTrap)
        else none
      else some (st.setCpu c { (st.cpu c).leaveTrap with intr := true })

def act (st : CpuSystem κ π) (c : κ) (f : π → Option (CpuSystem κ π)) :
    Option (CpuSystem κ π) :=
  match (st.cpu c).task with
  | .executing p => if (st.cpu c).trap then none else f p
  | _ => none

def step (st : CpuSystem κ π) : CpuOp κ π → Option (CpuSystem κ π)
  | .intrOn c => st.act c fun _ => some (st.setCpu c { st.cpu c with intr := true })
  | .intrOff c => st.act c fun _ => some (st.setCpu c { st.cpu c with intr := false })
  | .pushOff c => st.act c fun _ => some (st.setCpu c (st.cpu c).pushOff)
  | .popOff c => st.act c fun _ =>
      if (st.cpu c).canPop then some (st.setCpu c (st.cpu c).popOff) else none
  | .lockOwn c => st.act c fun p =>
      if st.lk p = none then
        some ((st.setLk p (some c)).setCpu c (st.cpu c).pushOff)
      else none
  | .unlockOwn c => st.act c fun p =>
      if st.lk p = some c ∧ st.state p = .running ∧ (st.cpu c).canPop then
        some ((st.setLk p none).setCpu c (st.cpu c).popOff)
      else none
  | .setState c state => st.act c fun p =>
      if st.lk p = some c ∧ (state = .runnable ∨ state = .sleeping ∨ state = .zombie)
        then some (st.setState p state)
      else none
  | .sched c => st.act c fun p =>
      if st.lk p = some c ∧ (st.cpu c).noff = 1 ∧ st.state p ≠ .running ∧
          (st.cpu c).intr = false then
        some { st.setCpu c { st.cpu c with task := .back p } with
          saved := Function.update st.saved p (some (st.cpu c).origin) }
      else none
  | .turn c => if (st.cpu c).trap then none else st.schedule c
  | .look c q better =>
      match (st.cpu c).task with
      | .looking next =>
          if (st.cpu c).trap then none else st.lookAt c next q better
      | _ => none
  | .tick c =>
      if (st.cpu c).intr ∧ ¬(st.cpu c).trap then
        some (st.setCpu c { st.cpu c with intr := false, trap := true })
      else none
  | .test c => if (st.cpu c).trap then st.timerTest c else none
  | .wake q =>
      if st.lk q = none ∧ st.state q = .sleeping then some (st.setState q .runnable)
      else none
  | .create q =>
      if st.lk q = none ∧ (st.state q = .unused ∨ st.state q = .zombie) then
        some { st.setState q .runnable with saved := Function.update st.saved q none }
      else none

end

structure Sound (st : CpuSystem κ π) : Prop where
  executing : ∀ c q, (st.cpu c).task = .executing q →
    (st.cpu c).proc = some q ∧ (st.state q = .running ∨ st.lk q = some c)
  alone : ∀ c c' q, (st.cpu c).task = .executing q → (st.cpu c').task = .executing q →
    c = c'
  back : ∀ c q, (st.cpu c).task = .back q →
    (st.cpu c).proc = some q ∧ st.lk q = some c ∧ st.state q ≠ .running ∧
      (st.cpu c).intr = false ∧ (st.cpu c).trap = false
  released : ∀ c q, (st.cpu c).task = .released q → (st.cpu c).proc = some q
  chosen : ∀ c q, (st.cpu c).task = .looking (some q) →
    st.lk q = some c ∧ st.state q = .runnable
  idle : ∀ c next, (st.cpu c).task = .top ∨ (st.cpu c).task = .looking next →
    (st.cpu c).proc = none

attribute [grind =] setCpu_cpu setCpu_state setCpu_lk setLk_cpu setLk_state setLk_lk
  setState_cpu setState_state setState_lk

attribute [local grind =] CpuSystem.dispatch CpuState.pushOff CpuState.popOff
  Function.update_apply
attribute [local grind cases eager] Sound

/-- Where a timer interrupt is possible, or has begun, `proc_yield` is called for the
process that the CPU executes. -/
def Right (st : CpuSystem κ π) : Prop :=
  ∀ c q, (st.cpu c).proc = some q → st.state q = .running →
    (st.cpu c).intr ∨ (st.cpu c).trap → (st.cpu c).task = .executing q

attribute [local grind =] Right

/-- A process is not run while another CPU that has released its lock with interrupts
enabled has not cleared `proc`. -/
def Clear (st : CpuSystem κ π) : CpuOp κ π → Prop
  | .turn c => ∀ q, (st.cpu c).task = .looking (some q) →
      ∀ c', (st.cpu c').task = .released q → ¬((st.cpu c').intr ∨ (st.cpu c').trap)
  | _ => True

instance [Fintype κ] [Fintype π] [DecidableEq π] (st : CpuSystem κ π) (op : CpuOp κ π) :
    Decidable (st.Clear op) := by
  unfold Clear
  split <;> infer_instance

variable {st st' : CpuSystem κ π} {c : κ} {p q : π}

theorem act_eq_some {f : π → Option (CpuSystem κ π)} (h : st.act c f = some st') :
    ∃ p, (st.cpu c).task = .executing p ∧ (st.cpu c).trap = false ∧ f p = some st' := by
  unfold act at h
  split at h
  case h_2 => cases h
  case h_1 p htask =>
    split at h
    case isTrue => cases h
    case isFalse htrap => exact ⟨p, htask, by simpa using htrap, h⟩

section

variable [DecidableEq π]

theorem Sound.setState {state : ProcState} (h : st.Sound)
    (htask : (st.cpu c).task = .executing p) (hlk : st.lk p = some c)
    (hstate : state = .runnable ∨ state = .sleeping ∨ state = .zombie) :
    (st.setState p state).Sound ∧
      (st.Right → (st.setState p state).Right) := by
  refine ⟨?_, ?_⟩
  · exact { h with
      executing := by grind -linarith
      back := by grind -linarith
      chosen := by grind -linarith }
  · intro hright
    grind -linarith

/-- A process that no CPU has the lock of becomes `RUNNABLE`. -/
theorem Sound.awaken (h : st.Sound) (hlk : st.lk q = none)
    (hstate : st.state q ≠ .running) :
    (CpuSystem.setState st q .runnable).Sound ∧
      (st.Right → (CpuSystem.setState st q .runnable).Right) := by
  refine ⟨?_, ?_⟩
  · exact { h with
      executing := by grind -linarith
      back := by grind -linarith
      chosen := by grind -linarith }
  · intro hright
    grind -linarith

end

section

variable [DecidableEq κ]

/-- The process that a CPU executes changes its interrupts only. -/
theorem Sound.ofExecuting {s : CpuState π} (h : st.Sound)
    (htask : (st.cpu c).task = .executing p) (hs : s.task = .executing p)
    (hproc : s.proc = (st.cpu c).proc) :
    (st.setCpu c s).Sound ∧
      (st.Right → (st.setCpu c s).Right) := by
  refine ⟨?_, ?_⟩
  · constructor <;> grind -linarith
  · intro hright
    grind -linarith

theorem Sound.sched (h : st.Sound)
    (htask : (st.cpu c).task = .executing p) (htrap : (st.cpu c).trap = false)
    (hlk : st.lk p = some c) (hstate : st.state p ≠ .running)
    (hintr : (st.cpu c).intr = false) :
    (st.setCpu c { st.cpu c with task := .back p }).Sound ∧
      (st.Right → (st.setCpu c { st.cpu c with task := .back p }).Right) := by
  refine ⟨?_, ?_⟩
  · constructor <;> grind -linarith
  · intro hright
    grind -linarith

theorem Sound.reset {s : CpuState π} (h : st.Sound)
    (hs : s.task = .top ∨ s.task = .looking none) (hproc : s.proc = none) :
    (st.setCpu c s).Sound ∧
      (st.Right → (st.setCpu c s).Right) := by
  refine ⟨?_, ?_⟩
  · constructor <;> grind -linarith
  · intro hright
    grind -linarith

theorem Sound.pass {s : CpuState π} {next : Option π} (h : st.Sound)
    (htask : (st.cpu c).task = .looking next) (hs : s.task = (st.cpu c).task)
    (hproc : s.proc = none) : (st.setCpu c s).Sound ∧
      (st.Right → (st.setCpu c s).Right) := by
  refine ⟨?_, ?_⟩
  · constructor <;> grind -linarith
  · intro hright
    grind -linarith

/-- `timer_interrupt_handler` begins or ends; the CPU stays where it is. -/
theorem Sound.interrupt {s : CpuState π} (h : st.Sound)
    (hopen : (st.cpu c).intr ∨ (st.cpu c).trap) (htask : s.task = (st.cpu c).task)
    (hproc : s.proc = (st.cpu c).proc) :
    (st.setCpu c s).Sound ∧
      (st.Right → (st.setCpu c s).Right) := by
  refine ⟨?_, ?_⟩
  · constructor <;> grind -linarith
  · intro hright
    grind -linarith

end

variable [DecidableEq κ] [DecidableEq π]

theorem Sound.lockOwn (h : st.Sound)
    (htask : (st.cpu c).task = .executing p) (hlk : st.lk p = none) :
    ((st.setLk p (some c)).setCpu c (st.cpu c).pushOff).Sound ∧
      (st.Right → ((st.setLk p (some c)).setCpu c (st.cpu c).pushOff).Right) := by
  refine ⟨?_, ?_⟩
  · constructor <;> grind -linarith
  · intro hright
    grind -linarith

theorem Sound.unlockOwn (h : st.Sound)
    (htask : (st.cpu c).task = .executing p) (hstate : st.state p = .running) :
    ((st.setLk p none).setCpu c (st.cpu c).popOff).Sound ∧
      (st.Right → ((st.setLk p none).setCpu c (st.cpu c).popOff).Right) := by
  refine ⟨?_, ?_⟩
  · constructor <;> grind -linarith
  · intro hright
    grind -linarith

theorem Sound.release (h : st.Sound)
    (htask : (st.cpu c).task = .back p) :
    ((st.setLk p none).setCpu c { (st.cpu c).popOff with task := .released p }).Sound ∧
      (st.Right → ((st.setLk p none).setCpu c
        { (st.cpu c).popOff with task := .released p }).Right) := by
  refine ⟨?_, ?_⟩
  · constructor <;> grind -linarith
  · intro hright
    grind -linarith

theorem Sound.choose {s : CpuState π} (h : st.Sound)
    (hlk : st.lk q = none) (hstate : st.state q = .runnable)
    (hs : s.task = .looking (some q)) (hproc : s.proc = none) :
    ((st.setLk q (some c)).setCpu c s).Sound ∧
      (st.Right → ((st.setLk q (some c)).setCpu c s).Right) := by
  refine ⟨?_, ?_⟩
  · constructor <;> grind -linarith
  · intro hright
    grind -linarith

theorem Sound.chooseBetter {s : CpuState π} (h : st.Sound)
    (htask : (st.cpu c).task = .looking (some p)) (hlk : st.lk q = none)
    (hstate : st.state q = .runnable) (hs : s.task = .looking (some q))
    (hproc : s.proc = none) :
    (((st.setLk p none).setLk q (some c)).setCpu c s).Sound ∧
      (st.Right → (((st.setLk p none).setLk q (some c)).setCpu c s).Right) := by
  refine ⟨?_, ?_⟩
  · constructor <;> grind -linarith
  · intro hright
    grind -linarith

/-- A process is run: this is right exactly if no other CPU still names it. -/
theorem Sound.dispatch (h : st.Sound)
    (htask : (st.cpu c).task = .looking (some q)) (htrap : (st.cpu c).trap = false) :
    (st.dispatch c q).Sound ∧ (st.Right → ((st.dispatch c q).Right ↔
      ∀ c', (st.cpu c').task = .released q →
        ¬((st.cpu c').intr ∨ (st.cpu c').trap))) := by
  refine ⟨?_, fun hright => ⟨?_, ?_⟩⟩
  · constructor <;> grind -linarith
  · intro hright' c' hc'
    have hne : c' ≠ c := by
      intro heq
      rw [heq, htask] at hc'
      cases hc'
    have hr := hright' c' q
    simp only [CpuSystem.dispatch, setCpu, CpuSystem.setState, Function.update_of_ne hne,
      Function.update_self, hc', h.released c' q hc'] at hr
    intro hopen
    cases hr trivial trivial hopen
  · intro hclear
    simp only [Right, CpuSystem.dispatch, setCpu, CpuSystem.setState] at *
    intro c' q' hproc hstate hopen
    cases htask' : (st.cpu c').task <;> grind -linarith

theorem Sound.schedule (h : st.Sound)
    (htrap : (st.cpu c).trap = false) (hstep : st.schedule c = some st') :
    st'.Sound ∧ (st.Right → (st'.Right ↔ st.Clear (.turn c))) := by
  -- only running a process asks for anything
  have hclear : (∀ q, (st.cpu c).task ≠ .looking (some q)) → st.Clear (.turn c) :=
    fun hnone q hq => absurd hq (hnone q)
  unfold CpuSystem.schedule at hstep
  split at hstep
  case h_1 htask =>
    cases hstep
    obtain ⟨hsound, hright'⟩ := h.reset (c := c)
      (s := { st.cpu c with intr := true, task := .looking none })
      (Or.inr rfl) (h.idle c none (Or.inl htask))
    exact ⟨hsound, fun hright =>
      ⟨fun _ => hclear (by simp [htask]), fun _ => hright' hright⟩⟩
  case h_2 htask =>
    cases hstep
    obtain ⟨hsound, hright'⟩ := h.reset (c := c)
      (s := { st.cpu c with task := .top })
      (Or.inl rfl) (h.idle c none (Or.inr htask))
    exact ⟨hsound, fun hright =>
      ⟨fun _ => hclear (by simp [htask]), fun _ => hright' hright⟩⟩
  case h_3 q htask =>
    split at hstep
    case isFalse => cases hstep
    case isTrue =>
      cases hstep
      obtain ⟨hsound, hiff⟩ := h.dispatch htask htrap
      refine ⟨hsound, fun hright => (hiff hright).trans ⟨?_, fun hq => hq q htask⟩⟩
      intro hq q' htask'
      rw [htask] at htask'
      cases htask'
      exact hq
  case h_4 => cases hstep
  case h_5 p htask =>
    split at hstep
    case isFalse => cases hstep
    case isTrue =>
      cases hstep
      obtain ⟨hsound, hright'⟩ := h.release htask
      exact ⟨hsound, fun hright =>
      ⟨fun _ => hclear (by simp [htask]), fun _ => hright' hright⟩⟩
  case h_6 htask =>
    cases hstep
    obtain ⟨hsound, hright'⟩ := h.reset (c := c)
      (s := { st.cpu c with proc := none, task := .top })
      (Or.inl rfl) rfl
    exact ⟨hsound, fun hright =>
      ⟨fun _ => hclear (by simp [htask]), fun _ => hright' hright⟩⟩

theorem Sound.lookAt {next : Option π} {better : Bool} (h : st.Sound)
    (htask : (st.cpu c).task = .looking next)
    (hstep : st.lookAt c next q better = some st') :
    st'.Sound ∧ (st.Right → st'.Right) := by
  have hproc := h.idle c next (Or.inr htask)
  unfold CpuSystem.lookAt at hstep
  split at hstep
  case isFalse => cases hstep
  case isTrue hlk =>
    split at hstep
    case isTrue hbetter =>
      cases next with
      | none =>
          cases hstep
          exact h.choose hlk hbetter.1 rfl hproc
      | some p =>
          cases hstep
          exact h.chooseBetter htask hlk hbetter.1 rfl hproc
    case isFalse =>
      cases hstep
      exact h.pass htask rfl hproc

theorem Sound.timerTest (h : st.Sound)
    (htrap : (st.cpu c).trap) (hstep : st.timerTest c = some st') :
    st'.Sound ∧ (st.Right → st'.Right) := by
  unfold CpuSystem.timerTest at hstep
  split at hstep
  case h_1 =>
    cases hstep
    exact h.interrupt (Or.inr htrap) rfl rfl
  case h_2 =>
    split at hstep
    case isTrue =>
      split at hstep
      case isFalse => cases hstep
      case isTrue =>
        cases hstep
        exact h.interrupt (Or.inr htrap) rfl rfl
    case isFalse =>
      cases hstep
      exact h.interrupt (Or.inr htrap) rfl rfl

theorem Sound.process (h : st.Sound) {op : CpuOp κ π}
    (hstep : st.step op = some st') (hop : ∀ c, op ≠ .turn c) :
    st'.Sound ∧ (st.Right → st'.Right) := by
  cases op with
  | intrOn c =>
      obtain ⟨p, htask, _, heq⟩ := act_eq_some hstep
      cases heq
      exact h.ofExecuting htask htask rfl
  | intrOff c =>
      obtain ⟨p, htask, _, heq⟩ := act_eq_some hstep
      cases heq
      exact h.ofExecuting htask htask rfl
  | pushOff c =>
      obtain ⟨p, htask, _, heq⟩ := act_eq_some hstep
      cases heq
      exact h.ofExecuting htask htask rfl
  | popOff c =>
      obtain ⟨p, htask, _, heq⟩ := act_eq_some hstep
      split at heq
      case isFalse => cases heq
      case isTrue =>
        cases heq
        exact h.ofExecuting htask htask rfl
  | lockOwn c =>
      obtain ⟨p, htask, _, heq⟩ := act_eq_some hstep
      split at heq
      case isFalse => cases heq
      case isTrue hlk =>
        cases heq
        exact h.lockOwn htask hlk
  | unlockOwn c =>
      obtain ⟨p, htask, _, heq⟩ := act_eq_some hstep
      split at heq
      case isFalse => cases heq
      case isTrue hlk =>
        cases heq
        exact h.unlockOwn htask hlk.2.1
  | setState c state =>
      obtain ⟨p, htask, _, heq⟩ := act_eq_some hstep
      split at heq
      case isFalse => cases heq
      case isTrue hlk =>
        cases heq
        exact h.setState htask hlk.1 hlk.2
  | sched c =>
      obtain ⟨p, htask, htrap, heq⟩ := act_eq_some hstep
      split at heq
      case isFalse => cases heq
      case isTrue hlk =>
        cases heq
        obtain ⟨hsound, hright'⟩ :=
          h.sched htask htrap hlk.1 hlk.2.2.1 hlk.2.2.2
        exact ⟨{ hsound with }, hright'⟩
  | turn c => exact absurd rfl (hop c)
  | look c q better =>
      simp only [step] at hstep
      split at hstep
      case h_2 => cases hstep
      case h_1 next htask =>
        split at hstep
        case isTrue => cases hstep
        case isFalse => exact h.lookAt htask hstep
  | tick c =>
      simp only [step] at hstep
      split at hstep
      case isFalse => cases hstep
      case isTrue hopen =>
        cases hstep
        exact h.interrupt (Or.inl hopen.1) rfl rfl
  | test c =>
      simp only [step] at hstep
      split at hstep
      case isFalse => cases hstep
      case isTrue htrap => exact h.timerTest htrap hstep
  | wake q =>
      simp only [step] at hstep
      split at hstep
      case isFalse => cases hstep
      case isTrue hq =>
        cases hstep
        exact h.awaken hq.1 (by simp [hq.2])
  | create q =>
      simp only [step] at hstep
      split at hstep
      case isFalse => cases hstep
      case isTrue hq =>
        cases hstep
        have hne : st.state q ≠ .running := by
          rcases hq.2 with hstate | hstate <;> simp [hstate]
        obtain ⟨hsound, hright'⟩ := h.awaken hq.1 hne
        exact ⟨{ hsound with }, hright'⟩

theorem Sound.step (h : st.Sound) {op : CpuOp κ π}
    (hstep : st.step op = some st') :
    st'.Sound ∧ (st.Right → (st'.Right ↔ st.Clear op)) := by
  by_cases hturn : ∃ c, op = .turn c
  · obtain ⟨c, hc⟩ := hturn
    rw [hc] at hstep ⊢
    simp only [CpuSystem.step] at hstep
    split at hstep
    case isTrue => cases hstep
    case isFalse htrap => exact h.schedule (by simpa using htrap) hstep
  · obtain ⟨hsound, hright'⟩ := h.process hstep (not_exists.mp hturn)
    refine ⟨hsound, fun hright => ⟨fun _ => ?_, fun _ => hright' hright⟩⟩
    cases op <;> first | trivial | exact absurd ⟨_, rfl⟩ hturn

theorem sound_of_run {first : π} {ops : List (CpuOp κ π)}
    (hrun : run step (boot first) ops = some st) : st.Sound := by
  have hboot : (boot first : CpuSystem κ π).Sound := by
    constructor <;> simp only [boot] <;> grind
  exact run_invariant_of_step (fun _ _ _ hi hop => (hi.step hop).1) hboot hrun

/-- In a run, `proc_yield` is only ever called for the process that the CPU executes if
and only if no process is run while another CPU names it with interrupts enabled. -/
theorem yields_right_iff {first : π} {ops : List (CpuOp κ π)}
    (hrun : run step (boot first) ops = some st) :
    Along step Clear (boot first) ops ↔
      ∀ before after middle, ops = before ++ after →
        run step (boot first) before = some middle → middle.Right := by
  have hsound : (boot first : CpuSystem κ π).Sound :=
    sound_of_run (show run step (boot first) [] = some (boot first) from rfl)
  have hright : (boot first : CpuSystem κ π).Right := by
    intro c q hproc
    cases hproc
  have hiff := along_iff_invariant
    (I := fun st : CpuSystem κ π => st.Sound ∧ st.Right) (P := Clear)
    (fun s op s' hi hop => by
      obtain ⟨hsound', hright'⟩ := hi.1.step hop
      exact ⟨fun hclear => ⟨hsound', (hright' hi.2).mpr hclear⟩,
        fun hi' => (hright' hi.2).mp hi'.2⟩)
    ⟨hsound, hright⟩ hrun
  refine hiff.trans ⟨?_, ?_⟩
  · intro h before after middle hops hbefore
    exact (h before after middle hops hbefore).2
  · intro h before after middle hops hbefore
    exact ⟨sound_of_run hbefore, h before after middle hops hbefore⟩

/-- A process sleeps with `origin` set; its CPU clears `proc` before the other one
runs the process again. -/
def sleepAndResume : List (CpuOp Bool Unit) :=
  [.turn false, .look false () true, .turn false, .unlockOwn false, .pushOff false,
    .lockOwn false, .popOff false, .setState false .sleeping, .sched false, .turn false,
    .turn false, .wake (), .turn true, .look true () true, .turn true]

theorem yields_right_iff_resumed :
    ∃ st : CpuSystem Bool Unit, run step (boot ()) sleepAndResume = some st ∧
      st.Right ∧ (st.cpu true).proc = some () := by
  have hlast : (run step (boot () : CpuSystem Bool Unit) sleepAndResume).map
      (fun st => (st.cpu true).proc) = some (some ()) := by
    decide +kernel
  obtain ⟨st, hrun, hst⟩ := Option.map_eq_some_iff.mp hlast
  have hclear : Along step Clear (boot () : CpuSystem Bool Unit) sleepAndResume := by
    decide +kernel
  refine ⟨st, hrun, ?_, hst⟩
  exact (yields_right_iff hrun).mp hclear sleepAndResume [] st
    (List.append_nil _).symm hrun

def resumeFirst : List (CpuOp Bool Unit) :=
  [.turn false, .look false () true, .turn false, .unlockOwn false, .pushOff false,
    .lockOwn false, .popOff false, .setState false .sleeping, .sched false, .turn false,
    .wake (), .turn true, .look true () true, .turn true]

theorem wrong_process_yields :
    ∃ st : CpuSystem Bool Unit, run step (boot ()) resumeFirst = some st ∧
      (st.cpu false).intr ∧ (st.cpu false).proc = some () ∧ st.state () = .running ∧
      (st.cpu true).task = .executing () ∧ ¬st.Right := by
  have hlast : (run step (boot () : CpuSystem Bool Unit) resumeFirst).map
      (fun st => ((st.cpu false).intr, (st.cpu false).proc, st.state (),
        (st.cpu true).task, (st.cpu false).task)) =
      some (true, some (), .running, .executing (), .released ()) := by
    decide +kernel
  obtain ⟨st, hrun, hst⟩ := Option.map_eq_some_iff.mp hlast
  simp only [Prod.mk.injEq] at hst
  obtain ⟨hintr, hproc, hstate, htask, htask'⟩ := hst
  refine ⟨st, hrun, hintr, hproc, hstate, htask, ?_⟩
  intro hright
  have hexecuting := hright false () hproc hstate (Or.inl hintr)
  rw [htask'] at hexecuting
  cases hexecuting

end CpuSystem

end UnoOS.Kernel
