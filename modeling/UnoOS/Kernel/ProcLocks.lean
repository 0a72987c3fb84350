import UnoOS.Kernel.ProcPlaces

namespace UnoOS.Kernel

open UnoOS.Lib

/-! The order in which the CPUs take the locks of the processes.  `proc_wakeup` takes
them all in turn, also inside other functions; a CPU in it is marked. -/

namespace ProcTable

variable {n : Nat} {κ : Type}

/-- The lock that a CPU is about to take, beside `proc_wakeup`. -/
def wants (proczero : Fin n) (st : ProcTable n κ) (c : κ) : Option (Fin n) :=
  match st.cpu c with
  | .choosing i _ => if h : i < n then some ⟨i, h⟩ else none
  | .executing p =>
      match st.pc p with
      | .allocating _ i => if h : i < n then some ⟨i, h⟩ else none
      | .exiting _ => some proczero
      | .orphaning _ => some p
      | .lockingParent _ q => some q
      | .lockingItself _ _ => some p
      | .reparentingAt _ _ i => some i
      | .waiting => some p
      | .scanningAt i => some i
      | _ => none
  | .switched _ => none

end ProcTable

structure LockTable (n : Nat) (κ : Type) where
  table : ProcTable n κ
  /-- The CPUs in `proc_wakeup`, and the processes before which they are. -/
  waking : κ → Option Nat

inductive LockOp (n : Nat) (κ : Type) where
  | fork (c : κ)
  | exit (c : κ) (status : Int)
  | wait (c : κ)
  | sleep (c : κ)
  | turn (c : κ) (better : Bool)
  /-- A process or an interrupt handler calls `proc_wakeup`. -/
  | wakeup (c : κ)
  | wakeupTurn (c : κ)
  /-- `proc_wait` frees a child, and closing its files calls `proc_wakeup`. -/
  | closing (c : κ)

namespace LockTable

variable {n : Nat} {κ : Type}

def boot (proczero : Fin n) : LockTable n κ := ⟨.boot proczero, fun _ => none⟩

/-- The lock for which a CPU spins if it is taken. -/
def wants (proczero : Fin n) (s : LockTable n κ) (c : κ) : Option (Fin n) :=
  match s.waking c with
  | some i => if h : i < n then some ⟨i, h⟩ else none
  | none => s.table.wants proczero c

/-- The first CPU spins on a lock that the second has. -/
def Awaits (proczero : Fin n) (s : LockTable n κ) (c d : κ) : Prop :=
  ∃ q, s.wants proczero c = some q ∧ s.table.lk q = some d

variable [DecidableEq κ]

def lift (proczero : Fin n) (s : LockTable n κ) (c : κ) (op : TableOp n κ) :
    Option (LockTable n κ) :=
  if s.waking c = none then
    (s.table.step proczero op).map fun table => { s with table := table }
  else none

/-- `proc_wakeup` at process `i`, for what processes sleep for elsewhere. -/
def wakeupStep (s : LockTable n κ) (c : κ) (i : Nat) : Option (LockTable n κ) :=
  if h : i < n then
    if s.table.lk ⟨i, h⟩ = none then
      let table :=
        if s.table.state ⟨i, h⟩ = .sleeping ∧ s.table.sleepSpace ⟨i, h⟩ = .other then
          s.table.setState ⟨i, h⟩ .runnable
        else s.table
      some ⟨table, Function.update s.waking c (some (i + 1))⟩
    else none
  else some { s with waking := Function.update s.waking c none }

/-- The CPU executes a process that is in none of the modelled functions. -/
def elsewhere (s : LockTable n κ) (c : κ) : Bool :=
  match s.table.cpu c with
  | .executing p => s.table.pc p = .outside
  | _ => false

/-- The CPU may call `proc_wakeup`: in another function of a process, or in an
interrupt, which comes only while it has no lock. -/
def MayWake (s : LockTable n κ) (c : κ) : Prop :=
  s.elsewhere c ∨ ∀ q, s.table.lk q ≠ some c

instance (s : LockTable n κ) (c : κ) : Decidable (s.MayWake c) :=
  inferInstanceAs (Decidable (s.elsewhere c ∨ ∀ q, s.table.lk q ≠ some c))

def step (proczero : Fin n) (s : LockTable n κ) : LockOp n κ → Option (LockTable n κ)
  | .fork c => s.lift proczero c (.fork c)
  | .exit c status => s.lift proczero c (.exit c status)
  | .wait c => s.lift proczero c (.wait c)
  | .sleep c => s.lift proczero c (.sleep c)
  | .turn c better => s.lift proczero c (.turn c better)
  | .wakeup c =>
      if s.waking c = none ∧ s.MayWake c then
        some { s with waking := Function.update s.waking c (some 0) }
      else none
  | .wakeupTurn c =>
      match s.waking c with
      | some i => s.wakeupStep c i
      | none => none
  | .closing c =>
      match s.waking c, s.table.cpu c with
      | none, .executing p =>
          match s.table.pc p with
          | .scanningAt i =>
              if s.table.lk i = none ∧ s.table.state i = .zombie then
                some ⟨s.table.setLk i (some c), Function.update s.waking c (some 0)⟩
              else none
          | _ => none
      | _, _ => none

end LockTable

end UnoOS.Kernel
