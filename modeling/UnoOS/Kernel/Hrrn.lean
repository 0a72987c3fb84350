import UnoOS.Kernel.ProcTable

namespace UnoOS.Kernel

open UnoOS.Lib

/-! The times of the processes and the schedulers that read them (`proc.c`).  A
step goes from one acquisition or release of the lock of a process to the next.
The clock moves only while CPU `zero` has none of these locks, since a CPU that
holds a spinlock takes no interrupts. -/

structure SchedEntry where
  state : ProcState
  sleepSpace : SleepSpace
  beginRunnable : UInt64
  beginRunning : UInt64
  totalWait : UInt64
  totalExec : UInt64
deriving DecidableEq

namespace SchedEntry

def rateGradient : UInt64 := 8

def free : SchedEntry where
  state := .unused
  sleepSpace := .null
  beginRunnable := 0
  beginRunning := 0
  totalWait := 0
  totalExec := 0

def getWeight (e : SchedEntry) : UInt64 :=
  if e.totalExec = 0 then -1
  else ((e.totalExec + e.totalWait) <<< rateGradient) / e.totalExec

/-- The time since it became `RUNNABLE`, added by the scheduler. -/
def account (ticks : UInt64) (e : SchedEntry) : SchedEntry :=
  { e with
    totalWait := e.totalWait + (ticks - e.beginRunnable)
    beginRunnable := ticks }

def charge (ticks : UInt64) (e : SchedEntry) : SchedEntry :=
  { e with totalExec := e.totalExec + (ticks - e.beginRunning) }

/-- `proc_make_first`, the end of `proc_fork` and the body of `proc_wakeup` -/
def ready (ticks : UInt64) (e : SchedEntry) : SchedEntry :=
  { e with state := .runnable, beginRunnable := ticks }

/-- `proc_yield` -/
def giveUp (ticks : UInt64) (e : SchedEntry) : SchedEntry :=
  { charge ticks e with state := .runnable, beginRunnable := ticks }

/-- `proc_sleep` -/
def fallAsleep (ticks : UInt64) (space : SleepSpace) (e : SchedEntry) : SchedEntry :=
  { charge ticks e with state := .sleeping, sleepSpace := space }

/-- `proc_exit` -/
def exit (e : SchedEntry) : SchedEntry := { e with state := .zombie }

def wakeupOne (e : SchedEntry) : SchedEntry :=
  if e.state = .sleeping ∧ e.sleepSpace = .itself then { e with state := .runnable }
  else e

/-- The scheduler before `swtch`, and the end of `proc_sleep` after it. -/
def choose (ticks : UInt64) (e : SchedEntry) : SchedEntry :=
  { e with state := .running, beginRunning := ticks, sleepSpace := .null }

def switchBack (ticks : UInt64) (e : SchedEntry) : SchedEntry :=
  { charge ticks e with beginRunnable := ticks }

end SchedEntry

/-- The variables of one pass of `proc_scheduler`, before process `i`. -/
structure Pass (n : Nat) where
  i : Nat
  ticks : UInt64
  maxWeight : UInt64
  next : Option (Fin n)
  found : Bool
deriving DecidableEq

inductive HrrnPc (n : Nat) where
  /-- In `proc_scheduler`, between two passes. -/
  | top
  | scanning (pass : Pass n)
  | executing (p : Fin n)
  /-- Back in `proc_scheduler` after `swtch`. -/
  | switched (p : Fin n)
deriving DecidableEq

structure Hrrn (n : Nat) (κ : Type) where
  /-- `sys_timer.ticks` -/
  ticks : UInt64
  entry : Fin n → SchedEntry
  /-- The CPUs that have the locks of the processes. -/
  lk : Fin n → Option κ
  cpu : κ → HrrnPc n
  /-- The ticks in which the process was `RUNNING` and `RUNNABLE`; these are not in
  the source. -/
  ran : Fin n → Nat
  waited : Fin n → Nat

inductive HrrnOp (n : Nat) (κ : Type) where
  | tick
  /-- A scheduler reads the clock. -/
  | start (c : κ)
  /-- A scheduler looks at the next process. -/
  | look (c : κ)
  /-- A scheduler is at the end of the table. -/
  | finish (c : κ)
  /-- The process has come back from `swtch` and releases its lock. -/
  | resume (c : κ)
  | yield (c : κ)
  | sleep (c : κ) (space : SleepSpace)
  | exit (c : κ)
  /-- A scheduler comes back from `swtch`. -/
  | back (c : κ)
  /-- `proc_wakeup` at a process that sleeps for its argument. -/
  | wake (c : κ) (q : Fin n)
  | wakeOne (c : κ) (q : Fin n)
  | fork (c : κ) (q : Fin n)
  | reap (c : κ) (q : Fin n)
deriving DecidableEq

namespace Hrrn

open SchedEntry

variable {n : Nat} {κ : Type}

@[simps -isSimp]
def setEntry (s : Hrrn n κ) (p : Fin n) (e : SchedEntry) : Hrrn n κ :=
  { s with entry := Function.update s.entry p e }

@[simps -isSimp]
def setLk (s : Hrrn n κ) (p : Fin n) (holder : Option κ) : Hrrn n κ :=
  { s with lk := Function.update s.lk p holder }

/-- `proc_init` and `proc_make_first` -/
def boot (proczero : Fin n) : Hrrn n κ where
  ticks := 0
  entry := Function.update (fun _ => free) proczero (ready 0 free)
  lk := fun _ => none
  cpu := fun _ => .top
  ran := fun _ => 0
  waited := fun _ => 0

/-- The CPU has the lock of no process. -/
def Free (s : Hrrn n κ) (c : κ) : Prop := ∀ p, s.lk p ≠ some c

variable [DecidableEq κ]

instance (s : Hrrn n κ) (c : κ) : Decidable (s.Free c) :=
  inferInstanceAs (Decidable (∀ p, s.lk p ≠ some c))

@[simps -isSimp]
def setCpu (s : Hrrn n κ) (c : κ) (pc : HrrnPc n) : Hrrn n κ :=
  { s with cpu := Function.update s.cpu c pc }

/-- `timer_update` -/
@[simps -isSimp]
def tick (s : Hrrn n κ) : Hrrn n κ :=
  { s with
    ticks := s.ticks + 1
    ran := fun p => if (s.entry p).state = .running then s.ran p + 1 else s.ran p
    waited := fun p =>
      if (s.entry p).state = .runnable then s.waited p + 1 else s.waited p }

/-- The scheduler has the lock of process `p`, which is `RUNNABLE`. -/
def weigh (s : Hrrn n κ) (c : κ) (pass : Pass n) (p : Fin n) : Hrrn n κ :=
  let e := account pass.ticks (s.entry p)
  if pass.maxWeight < e.getWeight then
    let s' := match pass.next with
      | some q => s.setLk q none
      | none => s
    ((s'.setLk p (some c)).setEntry p e).setCpu c (.scanning
      ⟨pass.i + 1, pass.ticks, e.getWeight, some p, true⟩)
  else
    (s.setEntry p e).setCpu c (.scanning { pass with i := pass.i + 1, found := true })

/-- The body of the loop of `proc_scheduler`; nothing while the lock is taken. -/
def lookStep (s : Hrrn n κ) (c : κ) (pass : Pass n) : Option (Hrrn n κ) :=
  if h : pass.i < n then
    if s.lk ⟨pass.i, h⟩ = none then
      if (s.entry ⟨pass.i, h⟩).state = .runnable then
        some (s.weigh c pass ⟨pass.i, h⟩)
      else some (s.setCpu c (.scanning { pass with i := pass.i + 1 }))
    else none
  else none

/-- After the loop; nothing if `next_p` is read while it is `NULL`. -/
def finishStep (s : Hrrn n κ) (c : κ) (pass : Pass n) : Option (Hrrn n κ) :=
  if pass.i < n then none
  else if pass.found then
    pass.next.map fun q =>
      (s.setEntry q (choose pass.ticks (s.entry q))).setCpu c (.executing q)
  else some (s.setCpu c .top)

/-- `proc_sched` by the process that a CPU executes. -/
def leave (s : Hrrn n κ) (c : κ) (p : Fin n) (e : SchedEntry) : Hrrn n κ :=
  ((s.setEntry p e).setLk p (some c)).setCpu c (.switched p)

def touch (s : Hrrn n κ) (q : Fin n) (e : SchedEntry) : Option (Hrrn n κ) :=
  if s.lk q = none then some (s.setEntry q e) else none

def step (zero : κ) (s : Hrrn n κ) : HrrnOp n κ → Option (Hrrn n κ)
  | .tick => if s.Free zero then some s.tick else none
  | .start c =>
      if s.cpu c = .top then
        some (s.setCpu c (.scanning ⟨0, s.ticks, 0, none, false⟩))
      else none
  | .look c =>
      match s.cpu c with
      | .scanning pass => s.lookStep c pass
      | _ => none
  | .finish c =>
      match s.cpu c with
      | .scanning pass => s.finishStep c pass
      | _ => none
  | .resume c =>
      match s.cpu c with
      | .executing p => if s.lk p = some c then some (s.setLk p none) else none
      | _ => none
  | .yield c =>
      match s.cpu c with
      | .executing p =>
          if s.lk p = none then some (s.leave c p (giveUp s.ticks (s.entry p)))
          else none
      | _ => none
  | .sleep c space =>
      match s.cpu c with
      | .executing p =>
          if s.lk p = none ∨ s.lk p = some c then
            some (s.leave c p (fallAsleep s.ticks space (s.entry p)))
          else none
      | _ => none
  | .exit c =>
      match s.cpu c with
      | .executing p =>
          if s.lk p = none then some (s.leave c p (s.entry p).exit) else none
      | _ => none
  | .back c =>
      match s.cpu c with
      | .switched p =>
          some (((s.setEntry p (switchBack s.ticks (s.entry p))).setLk p none).setCpu c
            .top)
      | _ => none
  | .wake c q =>
      if s.Free c ∧ (s.entry q).state = .sleeping ∧ (s.entry q).sleepSpace = .other then
        s.touch q (ready s.ticks (s.entry q))
      else none
  | .wakeOne c q =>
      match s.cpu c with
      | .executing _ => s.touch q (s.entry q).wakeupOne
      | _ => none
  | .fork c q =>
      match s.cpu c with
      | .executing _ =>
          if (s.entry q).state = .unused then
            s.touch q (ready s.ticks (s.entry q))
          else none
      | _ => none
  | .reap c q =>
      match s.cpu c with
      | .executing _ =>
          if (s.entry q).state = .zombie then
            (s.touch q free).map fun s' =>
              { s' with
                ran := Function.update s.ran q 0
                waited := Function.update s.waited q 0 }
          else none
      | _ => none

end Hrrn

end UnoOS.Kernel
