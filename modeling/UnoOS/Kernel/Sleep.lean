import UnoOS.Kernel.State
import UnoOS.Lib.Transition
import Mathlib.Tactic.Simps.Basic

namespace UnoOS.Kernel

open UnoOS.Lib

/-! `proc_sleep`, `proc_wakeup` and the scheduler (`proc.c`), for processes that
wait for something behind a spinlock.  A step goes from one acquisition or
release of a spinlock to the next. -/

/-- What is behind the lock, and the functions that use it: one waits until it
may take, one gives and wakes up the others, some only look. -/
structure Monitor (n : Nat) (ρ ω : Type) where
  /-- The condition of the loop around `proc_sleep`. -/
  blocked : ρ → Bool
  take : Fin n → ρ → ρ
  give : Fin n → ρ → ρ
  /-- Who may call the function that gives. -/
  mayGive : Fin n → ρ → Bool
  ask : ω → Fin n → ρ → Bool

inductive SleepPc (n : Nat) (ω : Type) where
  | idle
  /-- Waits for the lock, at first or after `proc_sleep`. -/
  | entering
  /-- In `proc_sleep` with the lock, before it has its own. -/
  | parking
  /-- With both locks. -/
  | handing
  /-- With its own lock. -/
  | switching
  /-- `SLEEPING`, before the scheduler has released its lock. -/
  | switched
  | asleep
  /-- Chosen by the scheduler, with its own lock. -/
  | resumed
  /-- Has taken, with the lock. -/
  | leaving
  /-- About to give. -/
  | signalling
  /-- In `proc_wakeup` with the lock, before process `i`. -/
  | waking (i : Nat)
  /-- In `proc_wakeup` with the lock and that of process `i`. -/
  | wakingAt (i : Fin n)
  | asking (w : ω)
  /-- Has looked, with the lock. -/
  | answered (w : ω) (answer : Bool)

inductive Holder (n : Nat) where
  | proc (p : Fin n)
  | scheduler
deriving DecidableEq

structure SleepSystem (n : Nat) (ρ ω : Type) where
  res : ρ
  /-- Who has the lock. -/
  lk : Option (Fin n)
  /-- Who has the locks of the processes. -/
  plk : Fin n → Option (Holder n)
  state : Fin n → ProcState
  /-- `sleep_space` points here. -/
  sleepsHere : Fin n → Bool
  pc : Fin n → SleepPc n ω

inductive SleepOp (n : Nat) (ω : Type) where
  | wait (p : Fin n)
  | signal (p : Fin n)
  | ask (p : Fin n) (w : ω)
  /-- A process goes on. -/
  | run (p : Fin n)
  /-- The scheduler releases the lock of a process that it came from. -/
  | release (p : Fin n)
  /-- The scheduler takes the lock of a process to look at it. -/
  | peek (p : Fin n)
  | drop (p : Fin n)
  /-- The scheduler runs a process that it looked at. -/
  | dispatch (p : Fin n)
  /-- `proc_yield` in the timer interrupt. -/
  | preempt (p : Fin n)
  /-- Anything else that happens to a process outside of the calls: it sleeps
  somewhere else, is woken up there, exits, is forked again. -/
  | elsewhere (p : Fin n) (state : ProcState)

namespace SleepSystem

variable {n : Nat} {ρ ω : Type}

@[simps -isSimp]
def setPc (st : SleepSystem n ρ ω) (p : Fin n) (pc : SleepPc n ω) :
    SleepSystem n ρ ω :=
  { st with pc := Function.update st.pc p pc }

@[simps -isSimp]
def setPlk (st : SleepSystem n ρ ω) (p : Fin n) (holder : Option (Holder n)) :
    SleepSystem n ρ ω :=
  { st with plk := Function.update st.plk p holder }

@[simps -isSimp]
def setState (st : SleepSystem n ρ ω) (p : Fin n) (state : ProcState) :
    SleepSystem n ρ ω :=
  { st with state := Function.update st.state p state }

@[simps -isSimp]
def setSleeps (st : SleepSystem n ρ ω) (p : Fin n) (here : Bool) :
    SleepSystem n ρ ω :=
  { st with sleepsHere := Function.update st.sleepsHere p here }

def start (res : ρ) : SleepSystem n ρ ω where
  res := res
  lk := none
  plk := fun _ => none
  state := fun _ => .running
  sleepsHere := fun _ => false
  pc := fun _ => .idle

variable (m : Monitor n ρ ω)

/-- The test of the loop around `proc_sleep`, with the lock just acquired. -/
def enter (st : SleepSystem n ρ ω) (p : Fin n) : SleepSystem n ρ ω :=
  if m.blocked st.res then { st.setPc p .parking with lk := some p }
  else { st.setPc p .leaving with lk := some p, res := m.take p st.res }

def wakeNext (st : SleepSystem n ρ ω) (p : Fin n) (i : Nat) :
    Option (SleepSystem n ρ ω) :=
  if h : i < n then
    if st.plk ⟨i, h⟩ = none then
      some ((st.setPlk ⟨i, h⟩ (some (.proc p))).setPc p (.wakingAt ⟨i, h⟩))
    else none
  else some { st.setPc p .idle with lk := none }

def wakeOne (st : SleepSystem n ρ ω) (p i : Fin n) : SleepSystem n ρ ω :=
  let st := if st.state i = .sleeping ∧ st.sleepsHere i then st.setState i .runnable
    else st
  (st.setPlk i none).setPc p (.waking (i + 1))

/-- What a process does next; `none` while it waits for a lock or sleeps. -/
def advance (st : SleepSystem n ρ ω) (p : Fin n) : Option (SleepSystem n ρ ω) :=
  match st.pc p with
  | .idle => none
  | .entering => if st.lk = none then some (st.enter m p) else none
  | .parking =>
      if st.plk p = none then
        some ((st.setPlk p (some (.proc p))).setPc p .handing)
      else none
  | .handing => some { st.setPc p .switching with lk := none }
  | .switching =>
      some (((st.setSleeps p true).setState p .sleeping).setPc p .switched)
  | .switched => none
  | .asleep => none
  | .resumed => some (((st.setSleeps p false).setPlk p none).setPc p .entering)
  | .leaving => some { st.setPc p .idle with lk := none }
  | .signalling =>
      if st.lk = none then
        some { st.setPc p (.waking 0) with lk := some p, res := m.give p st.res }
      else none
  | .waking i => st.wakeNext p i
  | .wakingAt i => some (st.wakeOne p i)
  | .asking w =>
      if st.lk = none then
        some { st.setPc p (.answered w (m.ask w p st.res)) with lk := some p }
      else none
  | .answered _ _ => some { st.setPc p .idle with lk := none }

/-- A call by a process that is in none. -/
def call (st : SleepSystem n ρ ω) (p : Fin n) (pc : SleepPc n ω) :
    Option (SleepSystem n ρ ω) :=
  match st.pc p with
  | .idle => if st.state p = .running then some (st.setPc p pc) else none
  | _ => none

/-- The scheduler chooses a process whose lock it has.  One that `proc_yield` had
switched out releases its lock at once. -/
def resume (st : SleepSystem n ρ ω) (p : Fin n) : SleepSystem n ρ ω :=
  match st.pc p with
  | .asleep =>
      ((st.setState p .running).setPlk p (some (.proc p))).setPc p .resumed
  | _ => (st.setState p .running).setPlk p none

def preemptible (st : SleepSystem n ρ ω) (p : Fin n) : Bool :=
  match st.pc p with
  | .idle | .entering | .signalling | .asking _ => true
  | _ => false

def step (st : SleepSystem n ρ ω) : SleepOp n ω → Option (SleepSystem n ρ ω)
  | .wait p => st.call p .entering
  | .signal p => if m.mayGive p st.res then st.call p .signalling else none
  | .ask p w => st.call p (.asking w)
  | .run p => if st.state p = .running then st.advance m p else none
  | .release p =>
      match st.pc p with
      | .switched => some ((st.setPlk p none).setPc p .asleep)
      | _ => none
  | .peek p =>
      if st.plk p = none then some (st.setPlk p (some .scheduler)) else none
  | .drop p =>
      if st.plk p = some .scheduler then some (st.setPlk p none) else none
  | .dispatch p =>
      if st.plk p = some .scheduler ∧ st.state p = .runnable then
        some (st.resume p)
      else none
  | .preempt p =>
      if st.preemptible p ∧ st.plk p = none ∧ st.state p = .running then
        some (st.setState p .runnable)
      else none
  | .elsewhere p state =>
      match st.pc p with
      | .idle => if st.plk p = none then some (st.setState p state) else none
      | _ => none

/-- The step gets a process out of the loop around `proc_sleep`. -/
def takes (st : SleepSystem n ρ ω) (op : SleepOp n ω) (st' : SleepSystem n ρ ω) : Bool :=
  match op with
  | .run p =>
      match st.pc p, st'.pc p with
      | .entering, .leaving => true
      | _, _ => false
  | _ => false

def gives (st : SleepSystem n ρ ω) (op : SleepOp n ω) (st' : SleepSystem n ρ ω) : Bool :=
  match op with
  | .run p =>
      match st.pc p, st'.pc p with
      | .signalling, .waking _ => true
      | _, _ => false
  | _ => false

end SleepSystem

end UnoOS.Kernel
