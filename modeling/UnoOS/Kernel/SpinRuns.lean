import UnoOS.Lib.Transition

namespace UnoOS.Kernel

open UnoOS.Lib

/-! `spinlock.c`, statement by statement: any number of CPUs, threads that move between
them, and interrupts wherever they are enabled. -/

/-- Where a computation is in `push_off`, `spinlock_acquire`, `spinlock_release` and
`pop_off`.  A `push_off` may be the beginning of `spinlock_acquire`. -/
inductive SpinPc (ℓ : Type) where
  | out
  | getIntr (next : Option ℓ)
  | intrOff (next : Option ℓ)
  | saveOrigin (next : Option ℓ)
  | countUp (next : Option ℓ)
  /-- `spinlock_holding` reads `lk->cpuid` and `lk->locked`. -/
  | testOwner (l : ℓ)
  | testFree (l : ℓ)
  | swap (l : ℓ)
  | setCpuid (l : ℓ)
  | checkOwner (l : ℓ)
  | checkLocked (l : ℓ)
  | clearCpuid (l : ℓ)
  | clearLocked (l : ℓ)
  | checkOff
  | checkCount
  | countDown
  | restore

structure SpinFrame (ℓ : Type) where
  pc : SpinPc ℓ
  /-- `interrupt_status` -/
  status : Bool
  /-- `lk->cpuid==mycpuid()` -/
  own : Bool
  /-- How often it has called `push_off` more than `pop_off`. -/
  depth : Nat
  /-- Whether it has interrupts enabled when it has no lock, as far as that is known. -/
  wants : Option Bool

structure SpinCpu (ℓ : Type) where
  intr : Bool
  noff : Nat
  origin : Bool
  /-- The locks that `spinlock_acquire` has returned with, up to the call of
  `spinlock_release`. -/
  taken : List ℓ

/-- No CPU has the number -1. -/
structure SpinLock (κ : Type) where
  locked : Bool
  cpuid : Option κ

structure SpinSystem (κ τ ℓ : Type) where
  cpu : κ → SpinCpu ℓ
  lock : ℓ → SpinLock κ
  on : κ → τ
  /-- The innermost interrupt handler of a thread first. -/
  frames : τ → List (SpinFrame ℓ)
  /-- `origin` in `proc_sched`, for threads that have been switched off there. -/
  saved : τ → Option Bool

inductive SpinCall (ℓ : Type) where
  | pushOff
  | popOff
  | acquire (l : ℓ)
  | release (l : ℓ)

inductive SpinOp (κ τ ℓ : Type) where
  | call (c : κ) (f : SpinCall ℓ)
  | tick (c : κ)
  /-- `intr_on` and `intr_off` -/
  | setIntr (c : κ) (enabled : Bool)
  | interrupt (c : κ)
  /-- An interrupt handler returns. -/
  | iret (c : κ)
  /-- `proc_sched` in a process with the given lock, up to the end of it in the next. -/
  | sched (c : κ) (own : ℓ) (t : τ)
  /-- `swtch` in `proc_scheduler` -/
  | dispatch (c : κ) (t : τ)
  /-- `proc_alloc`: the thread will begin with its lock taken. -/
  | create (t : τ)

namespace SpinFrame

variable {ℓ : Type}

def handler : SpinFrame ℓ := ⟨.out, false, false, 0, some false⟩

/-- A thread that begins, with the lock that `proc_scheduler` has taken for it. -/
def fresh : SpinFrame ℓ := ⟨.out, false, false, 1, none⟩

def call (f : SpinFrame ℓ) : SpinCall ℓ → SpinFrame ℓ
  | .pushOff => { f with pc := .getIntr none }
  | .popOff => { f with pc := .checkOff }
  | .acquire l => { f with pc := .getIntr (some l) }
  | .release l => { f with pc := .checkOwner l }

/-- One statement on the CPU `c`; `none` is an assertion. -/
def advance {κ : Type} [DecidableEq κ] [DecidableEq ℓ] (c : κ) (s : SpinCpu ℓ)
    (lock : ℓ → SpinLock κ) (f : SpinFrame ℓ) :
    Option (SpinCpu ℓ × (ℓ → SpinLock κ) × SpinFrame ℓ) :=
  match f.pc with
  | .out => some (s, lock, f)
  | .getIntr next => some (s, lock, { f with status := s.intr, pc := .intrOff next })
  | .intrOff next => some ({ s with intr := false }, lock, { f with pc := .saveOrigin next })
  | .saveOrigin next => some ({ s with origin := if s.noff = 0 then f.status else s.origin },
      lock, { f with pc := .countUp next })
  | .countUp next => some ({ s with noff := s.noff + 1 }, lock,
      { f with depth := f.depth + 1, pc := next.elim .out .testOwner })
  | .testOwner l => some (s, lock,
      { f with own := decide ((lock l).cpuid = some c), pc := .testFree l })
  | .testFree l =>
      if f.own && (lock l).locked then none else some (s, lock, { f with pc := .swap l })
  | .swap l =>
      if (lock l).locked then some (s, lock, f)
      else some (s, Function.update lock l { lock l with locked := true },
        { f with pc := .setCpuid l })
  | .setCpuid l => some ({ s with taken := l :: s.taken },
      Function.update lock l { lock l with cpuid := some c }, { f with pc := .out })
  | .checkOwner l => some (s, lock,
      { f with own := decide ((lock l).cpuid = some c), pc := .checkLocked l })
  | .checkLocked l =>
      if f.own && (lock l).locked then some (s, lock, { f with pc := .clearCpuid l }) else none
  | .clearCpuid l => some (s, Function.update lock l { lock l with cpuid := none },
      { f with pc := .clearLocked l })
  | .clearLocked l => some (s, Function.update lock l { lock l with locked := false },
      { f with pc := .checkOff })
  | .checkOff => if s.intr then none else some (s, lock, { f with pc := .checkCount })
  | .checkCount => if 0 < s.noff then some (s, lock, { f with pc := .countDown }) else none
  | .countDown => some ({ s with noff := s.noff - 1 }, lock,
      { f with depth := f.depth - 1, pc := .restore })
  | .restore => some ({ s with intr := s.intr || (s.noff == 0 && s.origin) }, lock,
      { f with pc := .out })

end SpinFrame

namespace SpinSystem

variable {κ τ ℓ : Type} [DecidableEq κ] [DecidableEq τ] [DecidableEq ℓ]

def put (st : SpinSystem κ τ ℓ) (c : κ) (s : SpinCpu ℓ) (frames : List (SpinFrame ℓ)) :
    SpinSystem κ τ ℓ :=
  { st with
    cpu := Function.update st.cpu c s
    frames := Function.update st.frames (st.on c) frames }

/-- A CPU goes on with another thread, which has its `origin` restored if it was switched
off in `proc_sched`. -/
def switchTo (st : SpinSystem κ τ ℓ) (c : κ) (t : τ) : SpinSystem κ τ ℓ :=
  { st with
    cpu := Function.update st.cpu c
      { st.cpu c with origin := (st.saved t).getD (st.cpu c).origin }
    on := Function.update st.on c t
    saved := Function.update st.saved t none }

def step (st : SpinSystem κ τ ℓ) : SpinOp κ τ ℓ → Option (SpinSystem κ τ ℓ)
  | .call c call =>
      match st.frames (st.on c) with
      | [] => none
      | f :: rest =>
          let s := st.cpu c
          let s := match call with
            | .release l => { s with taken := s.taken.erase l }
            | _ => s
          some (st.put c s (f.call call :: rest))
  | .tick c =>
      match st.frames (st.on c) with
      | [] => none
      | f :: rest => (f.advance c (st.cpu c) st.lock).map fun next =>
          { st.put c next.1 (next.2.2 :: rest) with lock := next.2.1 }
  | .setIntr c enabled =>
      match st.frames (st.on c) with
      | [] => none
      | f :: rest => some (st.put c { st.cpu c with intr := enabled }
          ({ f with wants := some enabled } :: rest))
  | .interrupt c =>
      if (st.cpu c).intr then
        some (st.put c { st.cpu c with intr := false } (.handler :: st.frames (st.on c)))
      else none
  | .iret c =>
      match st.frames (st.on c) with
      | _ :: g :: rest => some (st.put c { st.cpu c with intr := true } (g :: rest))
      | _ => none
  | .sched c own t =>
      if (st.lock own).cpuid = some c ∧ (st.lock own).locked ∧ (st.cpu c).noff = 1 ∧
          (st.cpu c).intr = false then
        some (SpinSystem.switchTo { st with
          saved := Function.update st.saved (st.on c) (some (st.cpu c).origin) } c t)
      else none
  | .dispatch c t =>
      match st.frames (st.on c) with
      | [] => none
      | f :: rest => some ((st.put c (st.cpu c) ({ f with wants := none } :: rest)).switchTo c t)
  | .create t => some { st with
      frames := Function.update st.frames t [.fresh]
      saved := Function.update st.saved t none }

def top (st : SpinSystem κ τ ℓ) (c : κ) : Option (SpinFrame ℓ) := (st.frames (st.on c)).head?

/-- The calls of `spinlock.c` come from code that is in none of them.  It acquires no
lock that its CPU has, releases locks that it has, and returns from an interrupt or changes
the state of interrupts without locks.  A thread that is switched off has one lock, and so
has the next one, which is no other CPU's. -/
def Allowed (st : SpinSystem κ τ ℓ) : SpinOp κ τ ℓ → Prop
  | .call c call => (∀ f ∈ st.top c, f.pc = .out) ∧
      match call with
      | .pushOff => True
      | .popOff => (st.cpu c).taken.length < (st.cpu c).noff
      | .acquire l => l ∉ (st.cpu c).taken
      | .release l => l ∈ (st.cpu c).taken
  | .tick _ => True
  | .setIntr c _ => (∀ f ∈ st.top c, f.pc = .out) ∧ (st.cpu c).noff = 0
  | .interrupt c => (st.cpu c).intr = true
  | .iret c => (∀ f ∈ st.top c, f.pc = .out) ∧ (st.cpu c).noff = 0 ∧
      1 < (st.frames (st.on c)).length
  | .sched c own t => (∀ f ∈ st.top c, f.pc = .out) ∧ (st.cpu c).noff = 1 ∧
      own ∈ (st.cpu c).taken ∧ st.frames t ≠ [] ∧ ∀ c', st.on c' ≠ t
  | .dispatch c t => (∀ f ∈ st.top c, f.pc = .out) ∧ (st.cpu c).noff = 1 ∧
      st.frames t ≠ [] ∧ ∀ c', st.on c' ≠ t
  | .create t => ∀ c, st.on c ≠ t

end SpinSystem

end UnoOS.Kernel
