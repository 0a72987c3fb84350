import UnoOS.Kernel.State
import UnoOS.Lib.Transition
import Mathlib.Tactic.Simps.Basic

namespace UnoOS.Kernel

open UnoOS.Lib

/-! The process table (`proc.c`) under all its users at once: `proc_fork`,
`proc_exit`, `proc_wait`, `proc_sleep` elsewhere and the schedulers of the CPUs.
A step goes from one acquisition or release of a spinlock to the next; a field
that is read without its lock is read in a step of its own. -/

inductive SleepSpace where
  | null
  /-- `p` itself, in `proc_wait`. -/
  | itself
  | other
deriving DecidableEq

inductive TaskPc (n : Nat) where
  /-- In none of the functions. -/
  | outside
  | forking
  /-- In `proc_alloc`, before process `i`. -/
  | allocating (pid : Int) (i : Nat)
  /-- In `proc_fork`, with the lock of the new process. -/
  | building (pid : Int) (i : Fin n)
  | exiting (status : Int)
  /-- In `proc_exit`, before it reads its parent. -/
  | orphaning (status : Int)
  | lockingParent (status : Int) (parent : Fin n)
  | lockingItself (status : Int) (parent : Fin n)
  /-- In `proc_reparent` with both locks, before process `i`. -/
  | reparenting (status : Int) (parent : Fin n) (i : Nat)
  /-- It has found process `i` to be its child. -/
  | reparentingAt (status : Int) (parent : Fin n) (i : Fin n)
  /-- `ZOMBIE`, with its own lock. -/
  | dying
  /-- Has made its last step, or there is no process. -/
  | dead
  | waiting
  /-- In `proc_wait` with its own lock, before process `i`. -/
  | scanning (i : Nat) (kids : Bool)
  | scanningAt (i : Fin n)
  /-- Has freed process `i`, with the lock of that. -/
  | freeing (i : Fin n)
  /-- In `proc_sleep`, called by `proc_wait`. -/
  | waitAsleep
  /-- In `proc_sleep` with its own lock, called by another function. -/
  | drowsy
  | asleep
  /-- Before `fork_return`. -/
  | fresh
deriving DecidableEq

inductive CpuPc (n : Nat) where
  /-- In `proc_scheduler`, before process `i`. -/
  | choosing (i : Nat) (next : Option (Fin n))
  | executing (p : Fin n)
  /-- Back in `proc_scheduler`, before it releases the lock of the process. -/
  | switched (p : Fin n)
deriving DecidableEq

/-- A process that `proc_wait` has returned. -/
structure Collected (n : Nat) where
  waiter : Fin n
  slot : Fin n
  pid : Int
  status : Int
deriving DecidableEq

structure ProcTable (n : Nat) (κ : Type) where
  pid : Fin n → Int
  state : Fin n → ProcState
  parent : Fin n → Option (Fin n)
  exitState : Fin n → Int
  sleepSpace : Fin n → SleepSpace
  /-- The CPUs that have the locks of the processes. -/
  lk : Fin n → Option κ
  globalPid : Int
  pc : Fin n → TaskPc n
  cpu : κ → CpuPc n
  /-- The pids and states of the processes that became `ZOMBIE`. -/
  exits : List (Int × Int)
  collected : List (Collected n)

inductive TableOp (n : Nat) (κ : Type) where
  | fork (c : κ)
  | exit (c : κ) (status : Int)
  | wait (c : κ)
  | sleep (c : κ)
  /-- A CPU goes on; the scheduler finds the weight of a process to be the
  greatest so far or not. -/
  | turn (c : κ) (better : Bool)
  /-- `proc_wakeup` at what a process sleeps for elsewhere. -/
  | wake (p : Fin n)

def nextPid (pid : Int) : Int := (pid + 1).bmod (2 ^ 32)

namespace ProcTable

variable {n : Nat} {κ : Type}

@[simps -isSimp]
def setPc (st : ProcTable n κ) (p : Fin n) (pc : TaskPc n) : ProcTable n κ :=
  { st with pc := Function.update st.pc p pc }

@[simps -isSimp]
def setState (st : ProcTable n κ) (p : Fin n) (state : ProcState) : ProcTable n κ :=
  { st with state := Function.update st.state p state }

@[simps -isSimp]
def setParent (st : ProcTable n κ) (p : Fin n) (parent : Option (Fin n)) :
    ProcTable n κ :=
  { st with parent := Function.update st.parent p parent }

@[simps -isSimp]
def setLk (st : ProcTable n κ) (p : Fin n) (holder : Option κ) : ProcTable n κ :=
  { st with lk := Function.update st.lk p holder }

@[simps -isSimp]
def setSleep (st : ProcTable n κ) (p : Fin n) (space : SleepSpace) : ProcTable n κ :=
  { st with sleepSpace := Function.update st.sleepSpace p space }

/-- `proc_init` and `proc_make_first` -/
def boot (proczero : Fin n) : ProcTable n κ where
  pid := Function.update (fun _ => -1) proczero 1
  state := Function.update (fun _ => .unused) proczero .runnable
  parent := fun _ => none
  exitState := fun _ => 0
  sleepSpace := fun _ => .null
  lk := fun _ => none
  globalPid := 2
  pc := Function.update (fun _ => .dead) proczero .fresh
  cpu := fun _ => .choosing 0 none
  exits := []
  collected := []

def wakeupOne (st : ProcTable n κ) (p : Fin n) : ProcTable n κ :=
  if st.state p = .sleeping ∧ st.sleepSpace p = .itself then st.setState p .runnable
  else st

@[simps -isSimp]
def procFree (st : ProcTable n κ) (p : Fin n) : ProcTable n κ :=
  { st with
    pid := Function.update st.pid p (-1)
    state := Function.update st.state p .unused
    parent := Function.update st.parent p none
    exitState := Function.update st.exitState p 0
    sleepSpace := Function.update st.sleepSpace p .null }

variable [DecidableEq κ]

@[simps -isSimp]
def setCpu (st : ProcTable n κ) (c : κ) (pc : CpuPc n) : ProcTable n κ :=
  { st with cpu := Function.update st.cpu c pc }

/-- `proc_alloc`; nothing if the lock is taken or all processes are in use. -/
def allocStep (st : ProcTable n κ) (c : κ) (p : Fin n) (pid : Int) (i : Nat) :
    Option (ProcTable n κ) :=
  if h : i < n then
    if st.lk ⟨i, h⟩ = none then
      if st.state ⟨i, h⟩ = .unused then
        some { (st.setLk ⟨i, h⟩ (some c)).setPc p (.building pid ⟨i, h⟩) with
          pid := Function.update st.pid ⟨i, h⟩ pid }
      else some (st.setPc p (.allocating pid (i + 1)))
    else none
  else none

def endFork (st : ProcTable n κ) (p i : Fin n) : ProcTable n κ :=
  ((((st.setState i .runnable).setParent i (some p)).setPc i .fresh).setLk i
    none).setPc p .outside

/-- `proc_exit` after `proc_reparent`, until it has released its parent. -/
def endExit (st : ProcTable n κ) (p : Fin n) (status : Int) (parent : Fin n) :
    ProcTable n κ :=
  { (((st.wakeupOne parent).setState p .zombie).setLk parent none).setPc p .dying with
    exitState := Function.update st.exitState p status
    exits := (st.pid p, status) :: st.exits }

def reparentStep (st : ProcTable n κ) (p : Fin n) (status : Int) (parent : Fin n)
    (i : Nat) : ProcTable n κ :=
  if h : i < n then
    if st.parent ⟨i, h⟩ = some p then
      st.setPc p (.reparentingAt status parent ⟨i, h⟩)
    else st.setPc p (.reparenting status parent (i + 1))
  else st.endExit p status parent

def procSched (st : ProcTable n κ) (c : κ) (p : Fin n) (pc : TaskPc n) :
    ProcTable n κ :=
  (st.setPc p pc).setCpu c (.switched p)

/-- The loop of `proc_wait`.  Without children it returns -1 and keeps the lock. -/
def scanStep (st : ProcTable n κ) (c : κ) (p : Fin n) (i : Nat) (kids : Bool) :
    ProcTable n κ :=
  if h : i < n then
    if st.parent ⟨i, h⟩ = some p then st.setPc p (.scanningAt ⟨i, h⟩)
    else st.setPc p (.scanning (i + 1) kids)
  else if kids then
    ((st.setSleep p .itself).setState p .sleeping).procSched c p .waitAsleep
  else st.setPc p .outside

/-- `proc_wait` at a child that is `ZOMBIE`, until it has released itself. -/
def collect (st : ProcTable n κ) (c : κ) (p i : Fin n) : ProcTable n κ :=
  { (((st.procFree i).setLk p none).setLk i (some c)).setPc p (.freeing i) with
    collected := ⟨p, i, st.pid i, st.exitState i⟩ :: st.collected }

/-- What a process does next; `none` while it waits for a lock, or if an assertion
fails. -/
def proceed (proczero : Fin n) (st : ProcTable n κ) (c : κ) (p : Fin n) :
    Option (ProcTable n κ) :=
  match st.pc p with
  | .forking =>
      if 0 ≤ st.globalPid then
        some { st.setPc p (.allocating st.globalPid 0) with
          globalPid := nextPid st.globalPid }
      else none
  | .allocating pid i => st.allocStep c p pid i
  | .building _ i => some (st.endFork p i)
  | .exiting status =>
      if st.lk proczero = none then
        some ((st.wakeupOne proczero).setPc p (.orphaning status))
      else none
  | .orphaning status =>
      if st.lk p = none then
        (st.parent p).map fun parent => st.setPc p (.lockingParent status parent)
      else none
  | .lockingParent status parent =>
      if st.lk parent = none then
        some ((st.setLk parent (some c)).setPc p (.lockingItself status parent))
      else none
  | .lockingItself status parent =>
      if st.lk p = none then
        some ((st.setLk p (some c)).setPc p (.reparenting status parent 0))
      else none
  | .reparenting status parent i => some (st.reparentStep p status parent i)
  | .reparentingAt status parent i =>
      if st.lk i = none then
        some ((st.setParent i (some proczero)).setPc p
          (.reparenting status parent (i + 1)))
      else none
  | .dying => some (st.procSched c p .dead)
  | .waiting =>
      if st.lk p = none then some ((st.setLk p (some c)).setPc p (.scanning 0 false))
      else none
  | .scanning i kids => some (st.scanStep c p i kids)
  | .scanningAt i =>
      if st.lk i = none then
        if st.state i = .zombie then some (st.collect c p i)
        else some (st.setPc p (.scanning (i + 1) true))
      else none
  | .freeing i => some ((st.setLk i none).setPc p .outside)
  | .drowsy =>
      some (((st.setSleep p .other).setState p .sleeping).procSched c p .asleep)
  | .outside | .dead | .waitAsleep | .asleep | .fresh => none

/-- The process chosen by the scheduler goes on where `swtch` left it, or in
`fork_return`. -/
def dispatch (st : ProcTable n κ) (c : κ) (q : Fin n) : Option (ProcTable n κ) :=
  let st' := (st.setState q .running).setCpu c (.executing q)
  match st.pc q with
  | .waitAsleep => some ((st'.setSleep q .null).setPc q (.scanning 0 false))
  | .asleep => some (((st'.setSleep q .null).setLk q none).setPc q .outside)
  | .fresh => some ((st'.setLk q none).setPc q .outside)
  | _ => none

/-- `proc_scheduler` at process `i`. -/
def chooseStep (st : ProcTable n κ) (c : κ) (i : Nat) (next : Option (Fin n))
    (better : Bool) : Option (ProcTable n κ) :=
  if h : i < n then
    if st.lk ⟨i, h⟩ = none then
      if st.state ⟨i, h⟩ = .runnable ∧ better then
        let st' := match next with
          | some q => st.setLk q none
          | none => st
        some ((st'.setLk ⟨i, h⟩ (some c)).setCpu c (.choosing (i + 1) (some ⟨i, h⟩)))
      else some (st.setCpu c (.choosing (i + 1) next))
    else none
  else
    match next with
    | some q => st.dispatch c q
    | none => some (st.setCpu c (.choosing 0 none))

def call (st : ProcTable n κ) (c : κ) (pc : TaskPc n) : Option (ProcTable n κ) :=
  match st.cpu c with
  | .executing p => if st.pc p = .outside then some (st.setPc p pc) else none
  | _ => none

def step (proczero : Fin n) (st : ProcTable n κ) :
    TableOp n κ → Option (ProcTable n κ)
  | .fork c => st.call c .forking
  | .exit c status =>
      match st.cpu c with
      | .executing p => if st.pid p ≠ 1 then st.call c (.exiting status) else none
      | _ => none
  | .wait c => st.call c .waiting
  | .sleep c =>
      match st.cpu c with
      | .executing p =>
          if st.pc p = .outside ∧ st.lk p = none then
            some ((st.setLk p (some c)).setPc p .drowsy)
          else none
      | _ => none
  | .turn c better =>
      match st.cpu c with
      | .choosing i next => st.chooseStep c i next better
      | .executing p => st.proceed proczero c p
      | .switched p => some ((st.setLk p none).setCpu c (.choosing 0 none))
  | .wake p =>
      if st.lk p = none ∧ st.state p = .sleeping ∧ st.sleepSpace p = .other then
        some (st.setState p .runnable)
      else none

end ProcTable

end UnoOS.Kernel
