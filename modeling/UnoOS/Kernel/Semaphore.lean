import UnoOS.Kernel.SleepRuns

namespace UnoOS.Kernel

open UnoOS.Lib

/-! Semaphores (`proc.c`) and sleep locks (`sleeplock.c`). -/

structure Semaphore where
  value : Int32

namespace Semaphore

open SleepSystem

def zero : Semaphore := ⟨0⟩

def semWait (s : Semaphore) : Semaphore :=
  { s with value := s.value - 1 }

def semUp (s : Semaphore) : Semaphore :=
  { s with value := s.value + 1 }

def monitor (n : Nat) : Monitor n Semaphore Empty where
  blocked s := s.value == 0
  take _ s := s.semWait
  give _ s := s.semUp
  mayGive _ _ := true
  ask w := nomatch w

theorem monitor_lawful (n : Nat) : (monitor n).Lawful fun _ => True where
  take _ _ _ _ := trivial
  give _ _ _ _ := trivial
  mayGive_take _ _ _ _ h := h
  mayGive_give _ _ _ _ h := h

structure Counted (n : Nat) where
  sys : SleepSystem n Semaphore Empty
  /-- The calls of `sem_up` that have come to `proc_wakeup`. -/
  ups : Nat
  /-- The calls of `sem_wait` that have come out of their loop. -/
  downs : Nat

namespace Counted

variable {n : Nat} {st st' : Counted n}

def start : Counted n := ⟨SleepSystem.start zero, 0, 0⟩

def step (st : Counted n) (op : SleepOp n Empty) : Option (Counted n) :=
  (st.sys.step (monitor n) op).map fun sys =>
    ⟨sys, st.ups + (st.sys.gives op sys).toNat, st.downs + (st.sys.takes op sys).toNat⟩

/-- As long as the value does not overflow, it is what was put in and not taken. -/
structure Counts (st : Counted n) : Prop where
  inv : st.sys.Inv (monitor n) fun _ => True
  value : st.ups < 2 ^ 31 →
    st.downs ≤ st.ups ∧ st.sys.res.value.toInt = st.ups - st.downs

theorem counts_start : (start : Counted n).Counts :=
  ⟨Inv.start trivial, fun _ => ⟨le_refl 0, rfl⟩⟩

theorem Counts.step {op : SleepOp n Empty} (h : st.Counts) (hstep : st.step op = some st') :
    st'.Counts := by
  obtain ⟨sys, hsys, rfl⟩ := Option.map_eq_some_iff.mp hstep
  refine ⟨h.inv.step (monitor_lawful n) hsys, ?_⟩
  intro hups
  dsimp only at hups ⊢
  obtain ⟨hle, hvalue⟩ := h.value (by omega)
  cases moved_of_step hsys with
  | keeps htakes hgives hres =>
      rw [htakes, hgives, hres]
      exact ⟨hle, hvalue⟩
  | take p htakes hgives hfree hres =>
      have hne : st.sys.res.value.toInt ≠ 0 := by
        intro hzero
        have hvalue : st.sys.res.value = 0 := Int32.toInt_inj.mp hzero
        simp [monitor, hvalue] at hfree
      rw [hgives, Bool.toNat_false, Nat.add_zero] at hups
      rw [htakes, hgives, hres, Bool.toNat_true, Bool.toNat_false, Nat.add_zero]
      refine ⟨by omega, ?_⟩
      change (st.sys.res.value - 1).toInt = _
      rw [Int32.toInt_sub, hvalue, Int32.toInt_one, Int.bmod_eq_of_le (by omega) (by omega)]
      push_cast
      omega
  | give p htakes hgives hres =>
      rw [hgives, Bool.toNat_true] at hups
      rw [htakes, hgives, hres, Bool.toNat_true, Bool.toNat_false, Nat.add_zero]
      refine ⟨by omega, ?_⟩
      change (st.sys.res.value + 1).toInt = _
      rw [Int32.toInt_add, hvalue, Int32.toInt_one, Int.bmod_eq_of_le (by omega) (by omega)]
      push_cast
      omega

end Counted

/-- Over every run of any number of processes, with fewer than `2 ^ 31` increments:
the value counts, and no process sleeps while it could go on. -/
theorem semaphore_counts {n : Nat} {ops : List (SleepOp n Empty)} {st : Counted n}
    (hrun : run Counted.step .start ops = some st) (hfew : st.ups < 2 ^ 31) :
    st.sys.res.value.toInt = st.ups - st.downs ∧ 0 ≤ st.sys.res.value.toInt ∧
      ((∀ q, (st.sys.pc q).inGive = false) → 0 < st.sys.res.value →
        ∀ p, ¬(st.sys.state p = .sleeping ∧ st.sys.sleepsHere p)) := by
  have h : st.Counts :=
    run_invariant_of_step (fun _ _ _ h hop => h.step hop) Counted.counts_start hrun
  obtain ⟨hle, hvalue⟩ := h.value hfew
  refine ⟨hvalue, by omega, ?_⟩
  intro hgive hpos p
  apply h.inv.not_sleeping hgive
  have hne : st.sys.res.value ≠ 0 := by
    intro hzero
    rw [hzero] at hpos
    exact absurd hpos (by decide)
  simpa [monitor] using hne

/-- A process sleeps until another one has gone through `proc_wakeup`, takes what that
one put in, and the other one puts in once more. -/
def sleepAndTake : List (SleepOp 2 Empty) :=
  [.wait 0, .run 0, .run 0, .run 0, .run 0, .release 0, .signal 1, .run 1, .run 1,
    .run 1, .run 1, .run 1, .run 1, .peek 0, .dispatch 0, .run 0, .run 0, .run 0,
    .signal 1, .run 1, .run 1, .run 1, .run 1, .run 1, .run 1]

theorem semaphore_counts_woken :
    ∃ st : Counted 2, run Counted.step .start sleepAndTake = some st ∧
      st.ups = 2 ∧ st.downs = 1 ∧ st.sys.res.value.toInt = 1 ∧
      ¬(st.sys.state 0 = .sleeping ∧ st.sys.sleepsHere 0) := by
  have hlast : (run Counted.step .start sleepAndTake).map
      (fun st => (st.ups, st.downs, decide (0 < st.sys.res.value),
        (st.sys.pc 0).inGive, (st.sys.pc 1).inGive)) =
      some (2, 1, true, false, false) := by
    decide +kernel
  obtain ⟨st, hrun, hst⟩ := Option.map_eq_some_iff.mp hlast
  simp only [Prod.mk.injEq, decide_eq_true_eq] at hst
  obtain ⟨hups, hdowns, hpos, hzero, hone⟩ := hst
  obtain ⟨hvalue, _, hsleep⟩ := semaphore_counts hrun (by rw [hups]; decide)
  refine ⟨st, hrun, hups, hdowns, ?_, ?_⟩
  · rw [hvalue, hups, hdowns]
    rfl
  · apply hsleep _ hpos
    intro q
    fin_cases q
    · exact hzero
    · exact hone

end Semaphore

/-- `sleeplock_t` -/
structure SleepLock (n : Nat) where
  locked : Bool
  pid : Int32
  /-- The processes that `sleeplock_acquire` has let through and that have not
  released the lock. -/
  holds : Fin n → Bool

namespace SleepLock

open SleepSystem

variable {n : Nat}

def invalidPid : Int32 := -1

def sleeplockInit : SleepLock n where
  locked := false
  pid := invalidPid
  holds := fun _ => false

variable (pid : Fin n → Int32)

def sleeplockAcquire (p : Fin n) (l : SleepLock n) : SleepLock n where
  locked := true
  pid := pid p
  holds := Function.update l.holds p true

def sleeplockRelease (p : Fin n) (l : SleepLock n) : SleepLock n where
  locked := false
  pid := invalidPid
  holds := Function.update l.holds p false

def sleeplockHolding (p : Fin n) (l : SleepLock n) : Bool :=
  l.locked && l.pid == pid p

/-- The lock behind its spinlock; only a process that holds it releases it. -/
def monitor : Monitor n (SleepLock n) Unit where
  blocked l := l.locked
  take := sleeplockAcquire pid
  give := sleeplockRelease
  mayGive p l := l.holds p
  ask _ := sleeplockHolding pid

structure Owned (l : SleepLock n) : Prop where
  names : ∀ p, l.holds p ↔ l.locked ∧ l.pid = pid p
  held : l.locked → ∃ p, l.holds p

variable {pid}

theorem owned_init : (sleeplockInit : SleepLock n).Owned pid where
  names p := by simp [sleeplockInit]
  held h := by cases h

theorem Owned.unique {l : SleepLock n} (hpid : Function.Injective pid) (h : l.Owned pid)
    {p q : Fin n} (hp : l.holds p) (hq : l.holds q) : p = q := by
  obtain ⟨_, hp⟩ := (h.names p).mp hp
  obtain ⟨_, hq⟩ := (h.names q).mp hq
  exact hpid (hp.symm.trans hq)

theorem Owned.acquire {l : SleepLock n} (hpid : Function.Injective pid)
    (h : l.Owned pid) (hfree : l.locked = false) (p : Fin n) :
    (l.sleeplockAcquire pid p).Owned pid := by
  refine ⟨?_, fun _ => ⟨p, Function.update_self ..⟩⟩
  intro q
  simp only [sleeplockAcquire, true_and]
  rcases eq_or_ne q p with heq | hne
  · simp [heq]
  · rw [Function.update_of_ne hne, h.names q, hfree]
    simp only [Bool.false_eq_true, false_and, false_iff]
    intro heq
    exact hne (hpid heq).symm

theorem Owned.release {l : SleepLock n} (hpid : Function.Injective pid)
    (h : l.Owned pid) {p : Fin n} (hp : l.holds p) :
    (l.sleeplockRelease p).Owned pid := by
  refine ⟨?_, fun hlocked => by cases hlocked⟩
  intro q
  simp only [sleeplockRelease, Bool.false_eq_true, false_and, iff_false]
  rcases eq_or_ne q p with heq | hne
  · simp [heq]
  · rw [Function.update_of_ne hne]
    intro hq
    exact hne (h.unique hpid hq hp)

theorem monitor_lawful (hpid : Function.Injective pid) :
    (monitor pid).Lawful (Owned pid) where
  take p l h hfree := h.acquire hpid hfree p
  give _ _ h hp := h.release hpid hp
  mayGive_take p q l hne h := by
    simp only [monitor, sleeplockAcquire] at *
    rw [Function.update_of_ne hne.symm]
    exact h
  mayGive_give p q l hne h := by
    simp only [monitor, sleeplockRelease] at *
    rw [Function.update_of_ne hne.symm]
    exact h

/-- Over every run of any number of processes: one of them at most holds the lock,
its fields and `sleeplock_holding` say which, and no process sleeps at a free
lock. -/
theorem sleeplock_excludes (hpid : Function.Injective pid)
    {ops : List (SleepOp n Unit)} {st : SleepSystem n (SleepLock n) Unit}
    (hrun : run (step (monitor pid)) (start sleeplockInit) ops = some st) :
    (∀ p q, st.res.holds p → st.res.holds q → p = q) ∧
      (st.res.locked ↔ ∃ p, st.res.holds p) ∧
      (∀ p, st.res.holds p ↔ st.res.locked ∧ st.res.pid = pid p) ∧
      (∀ p b, st.pc p = .answered () b → b = st.res.holds p) ∧
      (st.res.locked = false → (∀ q, (st.pc q).inGive = false) →
        ∀ p, ¬(st.state p = .sleeping ∧ st.sleepsHere p)) := by
  have h := inv_of_run (monitor_lawful hpid) owned_init hrun
  refine ⟨?_, ?_, h.good.names, ?_, ?_⟩
  · intro p q hp hq
    exact h.good.unique hpid hp hq
  · refine ⟨h.good.held, ?_⟩
    intro ⟨p, hp⟩
    exact ((h.good.names p).mp hp).1
  · intro p b hb
    rw [h.answer p () b hb, Bool.eq_iff_iff, h.good.names p]
    simp [monitor, sleeplockHolding]
  · intro hfree hgive p
    exact h.not_sleeping hgive hfree p

def threePids (p : Fin 3) : Int32 := Int32.ofNat (p + 2)

/-- Two processes wait for the third; one of them is let through and asks. -/
def handOver : List (SleepOp 3 Unit) :=
  [.wait 0, .run 0, .run 0, .wait 1, .run 1, .run 1, .run 1, .run 1, .release 1,
    .wait 2, .run 2, .run 2, .run 2, .run 2, .release 2, .signal 0, .run 0, .run 0,
    .run 0, .run 0, .run 0, .run 0, .run 0, .run 0, .peek 2, .dispatch 2, .run 2,
    .run 2, .run 2, .ask 2 (), .run 2]

theorem sleeplock_excludes_woken :
    ∃ st : SleepSystem 3 (SleepLock 3) Unit,
      run (step (monitor threePids)) (start sleeplockInit) handOver = some st ∧
      st.res.pid = 4 ∧ st.pc 2 = .answered () true ∧ st.res.holds 1 = false := by
  have hpid : Function.Injective threePids := by
    decide
  have hlast : (run (step (monitor threePids)) (start sleeplockInit) handOver).map
      (fun st => (st.res.holds 2, match st.pc 2 with
        | .answered () b => b
        | _ => false)) = some (true, true) := by
    decide +kernel
  obtain ⟨st, hrun, hst⟩ := Option.map_eq_some_iff.mp hlast
  obtain ⟨hholds, hpc⟩ := Prod.mk.inj hst
  obtain ⟨hone, _, howned, _, _⟩ := sleeplock_excludes hpid hrun
  refine ⟨st, hrun, ((howned 2).mp hholds).2, ?_, ?_⟩
  · split at hpc
    · rename_i hb
      rw [hb, hpc]
    · cases hpc
  · cases hother : st.res.holds 1 with
    | false => rfl
    | true => exact absurd (hone 1 2 hother hholds) (by decide)

end SleepLock

end UnoOS.Kernel
