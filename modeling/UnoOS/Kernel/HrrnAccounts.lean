import UnoOS.Kernel.HrrnMoves

namespace UnoOS.Kernel

open UnoOS.Lib

/-! The totals against the ticks that the processes have spent, on one CPU. -/

namespace Hrrn

open SchedEntry

variable {n : Nat}

/-- The time that a step takes for the present one: the clock of a pass at a
`RUNNABLE` process, the start of what `proc_yield` and `proc_sleep` charge, which the
scheduler charges again, and the stamp that `proc_wakeup_one` leaves. -/
def taken (s : Hrrn n Unit) : HrrnOp n Unit → Option UInt64
  | .look c =>
      match s.cpu c with
      | .scanning pass =>
          if h : pass.i < n then
            if (s.entry ⟨pass.i, h⟩).state = .runnable then some pass.ticks else none
          else none
      | _ => none
  | .yield c | .sleep c _ =>
      match s.cpu c with
      | .executing p => some (s.entry p).beginRunning
      | _ => none
  | .wakeOne _ q =>
      if (s.entry q).state = .sleeping ∧ (s.entry q).sleepSpace = .itself then
        some (s.entry q).beginRunnable
      else none
  | _ => none

def Punctual (s : Hrrn n Unit) (op : HrrnOp n Unit) : Prop :=
  ∀ time ∈ s.taken op, time = s.ticks

instance (s : Hrrn n Unit) (op : HrrnOp n Unit) : Decidable (s.Punctual op) :=
  Option.decidableForallMem (s.taken op)

/-- The time not yet added to `total_exec_time`. -/
def unpaid (s : Hrrn n Unit) (p : Fin n) : UInt64 :=
  if (s.entry p).state = .running ∨
      (s.entry p).state = .zombie ∧ s.cpu () = .switched p then
    s.ticks - (s.entry p).beginRunning
  else 0

/-- The time not yet added to `total_wait_time`. -/
def unseen (s : Hrrn n Unit) (p : Fin n) : UInt64 :=
  if (s.entry p).state = .runnable then s.ticks - (s.entry p).beginRunnable else 0

structure Accounted (s : Hrrn n Unit) : Prop where
  exec : ∀ p, (s.entry p).totalExec + s.unpaid p = UInt64.ofNat (s.ran p)
  wait : ∀ p, (s.entry p).totalWait + s.unseen p = UInt64.ofNat (s.waited p)
  chosen : ∀ pass q, s.cpu () = .scanning pass → pass.next = some q →
    pass.ticks = s.ticks ∧ (s.entry q).beginRunnable = s.ticks
  left : ∀ p, s.cpu () = .switched p → (s.entry p).state ≠ .zombie →
    (s.entry p).beginRunning = s.ticks
  stamped : ∀ p, s.cpu () = .switched p → (s.entry p).state = .runnable →
    (s.entry p).beginRunnable = s.ticks

attribute [local grind =] leave unpaid unseen choose switchBack charge
  Function.update_apply
attribute [local grind cases eager] Held Accounted

theorem accounted_boot (proczero : Fin n) : (boot proczero).Accounted := by
  have hentry : ∀ p, ((boot proczero : Hrrn n Unit).entry p).totalExec = 0 ∧
      ((boot proczero : Hrrn n Unit).entry p).totalWait = 0 ∧
      ((boot proczero : Hrrn n Unit).entry p).beginRunnable = 0 ∧
      ((boot proczero : Hrrn n Unit).entry p).beginRunning = 0 := by
    intro p
    simp only [boot]
    rcases eq_or_ne p proczero with rfl | hne
    · simp [ready, free]
    · simp [Function.update_of_ne hne, free]
  have hcpu : (boot proczero : Hrrn n Unit).cpu () = .top := rfl
  have hticks : (boot proczero : Hrrn n Unit).ticks = 0 := rfl
  have hran : ∀ p, (boot proczero : Hrrn n Unit).ran p = 0 := fun _ => rfl
  have hwaited : ∀ p, (boot proczero : Hrrn n Unit).waited p = 0 := fun _ => rfl
  constructor <;> simp [unpaid, unseen, hentry, hcpu, hticks, hran, hwaited]

variable {s s' : Hrrn n Unit} {p q : Fin n} {pass : Pass n} {e : SchedEntry}

/-- While the clock moves, no process is between two of its places. -/
theorem Accounted.tick (h : s.Accounted) (hheld : s.Held) (hfree : s.Free ()) :
    s.tick.Accounted := by
  obtain ⟨hexec, hwait, hchosen, hleft, hstamped⟩ := h
  have hunswitched : ∀ p, s.cpu () ≠ .switched p := by
    intro p hcpu
    exact hfree p (hheld.switched () p hcpu).1
  have hunchosen : ∀ pass q, s.cpu () = .scanning pass → pass.next ≠ some q := by
    intro pass q hcpu hnext
    exact hfree q (hheld.chosen () pass q hcpu hnext).1
  constructor
  · intro p
    have h := hexec p
    simp only [Hrrn.tick, unpaid, hunswitched, and_false, or_false] at h ⊢
    split <;> simp only [*, if_true, if_false, UInt64.ofNat_add] at h ⊢
    · grind
    · exact h
  · intro p
    have h := hwait p
    simp only [Hrrn.tick, unseen] at h ⊢
    split <;> simp only [*, if_true, if_false, UInt64.ofNat_add] at h ⊢
    · grind
    · exact h
  · intro pass q hcpu hnext
    exact absurd hnext (hunchosen pass q hcpu)
  · intro p hcpu
    exact absurd hcpu (hunswitched p)
  · intro p hcpu
    exact absurd hcpu (hunswitched p)

theorem Accounted.setEntry (h : s.Accounted) (hheld : s.Held) (hlk : s.lk q = none)
    (hexec : e.totalExec = UInt64.ofNat (s.ran q))
    (hwait : e.totalWait + (if e.state = .runnable then s.ticks - e.beginRunnable else 0) =
      UInt64.ofNat (s.waited q))
    (hstate : e.state ≠ .running) : (s.setEntry q e).Accounted := by
  constructor <;> grind

theorem Accounted.leave (h : s.Accounted) (hcpu : s.cpu () = .executing p)
    (hexec : e.totalExec + (if e.state = .zombie then s.ticks - e.beginRunning else 0) =
      UInt64.ofNat (s.ran p))
    (hwait : e.totalWait + (if e.state = .runnable then s.ticks - e.beginRunnable else 0) =
      UInt64.ofNat (s.waited p))
    (hstate : e.state ≠ .running) (hleft : e.state ≠ .zombie → e.beginRunning = s.ticks)
    (hstamped : e.state = .runnable → e.beginRunnable = s.ticks) :
    (s.leave () p e).Accounted := by
  constructor <;> grind

theorem Accounted.weigh (h : s.Accounted) (hcpu : s.cpu () = .scanning pass)
    (hstate : (s.entry p).state = .runnable) (hnow : pass.ticks = s.ticks) :
    (s.weigh () pass p).Accounted := by
  have hwhen : (account pass.ticks (s.entry p)).beginRunnable = pass.ticks := rfl
  have hrunning : (account pass.ticks (s.entry p)).beginRunning =
      (s.entry p).beginRunning := rfl
  have hstate' : (account pass.ticks (s.entry p)).state = .runnable := hstate
  have hexec : (account pass.ticks (s.entry p)).totalExec = (s.entry p).totalExec := rfl
  have hwait : (account pass.ticks (s.entry p)).totalWait =
      (s.entry p).totalWait + (pass.ticks - (s.entry p).beginRunnable) := rfl
  simp only [Hrrn.weigh]
  generalize account pass.ticks (s.entry p) = e at *
  split
  · rcases hnext : pass.next with _ | q
    · constructor <;> grind
    · constructor <;> grind
  · constructor <;> grind

theorem Accounted.dispatch (h : s.Accounted) (hheld : s.Held)
    (hcpu : s.cpu () = .scanning pass) (hnext : pass.next = some q) :
    ((s.setEntry q (choose pass.ticks (s.entry q))).setCpu ()
      (.executing q)).Accounted := by
  obtain ⟨hlk, hstate, _⟩ := hheld.chosen () pass q hcpu hnext
  obtain ⟨hnow, hbegin⟩ := h.chosen pass q hcpu hnext
  constructor <;> grind

theorem Accounted.back (h : s.Accounted) (hheld : s.Held)
    (hcpu : s.cpu () = .switched p) :
    (((s.setEntry p (switchBack s.ticks (s.entry p))).setLk p none).setCpu ()
      .top).Accounted := by
  have hstate := (hheld.switched () p hcpu).2
  constructor <;> grind

theorem Accounted.setCpu (h : s.Accounted) {pc : HrrnPc n}
    (hold : ∀ p, s.cpu () ≠ .switched p) (hnew : ∀ p, pc ≠ .switched p)
    (hchosen : ∀ pass q, pc = .scanning pass → pass.next = some q →
      pass.ticks = s.ticks ∧ (s.entry q).beginRunnable = s.ticks) :
    (s.setCpu () pc).Accounted :=
  { h with
    exec := by grind
    chosen := by grind
    left := by grind
    stamped := by grind }

theorem Accounted.reap (h : s.Accounted) (hheld : s.Held) (hlk : s.lk q = none) :
    Accounted { s.setEntry q free with
      ran := Function.update s.ran q 0, waited := Function.update s.waited q 0 } := by
  obtain ⟨h1, h2, h3, h4, h5⟩ := h
  obtain ⟨hexecuting, honce, hswitched, hchosen⟩ := hheld
  constructor
  · intro p
    rcases eq_or_ne p q with rfl | hne
    · simp [Hrrn.setEntry, free, unpaid]
    · simpa [Hrrn.setEntry, unpaid, hne] using h1 p
  · intro p
    rcases eq_or_ne p q with rfl | hne
    · simp [Hrrn.setEntry, free, unseen]
    · simpa [Hrrn.setEntry, unseen, hne] using h2 p
  all_goals
    simp only [Hrrn.setEntry]
    grind

theorem Accounted.totalExec (h : s.Accounted) (hheld : s.Held) (hlk : s.lk p = none)
    (hstate : (s.entry p).state ≠ .running) :
    (s.entry p).totalExec = UInt64.ofNat (s.ran p) := by
  have hexec := h.exec p
  have hpaid : s.unpaid p = 0 := by
    rw [unpaid, if_neg]
    intro hrunning
    rcases hrunning with hrunning | ⟨_, hcpu⟩
    · exact hstate hrunning
    · have hheld := (hheld.switched () p hcpu).1
      rw [hlk] at hheld
      cases hheld
  rwa [hpaid, UInt64.add_zero] at hexec

theorem Accounted.totalExec_running (h : s.Accounted)
    (hstate : (s.entry p).state = .running) :
    (charge s.ticks (s.entry p)).totalExec = UInt64.ofNat (s.ran p) := by
  have hexec := h.exec p
  rwa [unpaid, if_pos (Or.inl hstate)] at hexec

theorem Accounted.totalWait (h : s.Accounted) (hstate : (s.entry p).state ≠ .runnable) :
    (s.entry p).totalWait = UInt64.ofNat (s.waited p) := by
  have hwait := h.wait p
  rwa [unseen, if_neg hstate, UInt64.add_zero] at hwait

theorem Accounted.ready (h : s.Accounted) (hheld : s.Held) (hlk : s.lk q = none)
    (hrunning : (s.entry q).state ≠ .running) (hrunnable : (s.entry q).state ≠ .runnable)
    (hexec : e.totalExec = (s.entry q).totalExec)
    (hwait : e.totalWait = (s.entry q).totalWait)
    (hstate : e.state = .runnable) (hstamp : e.beginRunnable = s.ticks) :
    (s.setEntry q e).Accounted := by
  apply h.setEntry hheld hlk
  · rw [hexec]
    exact h.totalExec hheld hlk hrunning
  · rw [hwait, if_pos hstate, hstamp, UInt64.sub_self, UInt64.add_zero]
    exact h.totalWait hrunnable
  · simp [hstate]

variable {op : HrrnOp n Unit}

theorem Accounted.step (h : s.Accounted) (hheld : s.Held) (hpunctual : s.Punctual op)
    (hstep : step () s op = some s') : s'.Accounted := by
  cases moves_of_step hstep with
  | tick hfree => exact h.tick hheld hfree
  | start hcpu =>
      apply h.setCpu
      · simp [hcpu]
      · simp
      · intro pass q hpc hnext
        cases hpc
        cases hnext
  | @skip c pass p hcpu hi hlk hstate =>
      apply h.setCpu
      · simp [hcpu]
      · simp
      · intro pass' q hpc hnext
        cases hpc
        exact h.chosen pass q hcpu hnext
  | @weigh c pass p hcpu hi hlk hstate =>
      refine h.weigh hcpu hstate (hpunctual pass.ticks ?_)
      simp only [taken, hcpu, ← hi, p.isLt, dif_pos, Fin.eta, hstate, if_true]
      rfl
  | choose hcpu hi hfound hnext => exact h.dispatch hheld hcpu hnext
  | idle hcpu hi hfound =>
      apply h.setCpu
      · simp [hcpu]
      · simp
      · simp
  | resume hcpu hlk => exact { h with }
  | @yield c p hcpu hlk =>
      have hrunning := (hheld.executing () p hcpu).1
      have hnow := hpunctual (s.entry p).beginRunning (by simp [taken, hcpu])
      apply h.leave hcpu
      · simpa [giveUp] using h.totalExec_running hrunning
      · simpa [giveUp, charge] using h.totalWait (by simp [hrunning])
      · simp [giveUp]
      · exact fun _ => hnow
      · exact fun _ => rfl
  | @sleep c p space hcpu hlk =>
      have hrunning := (hheld.executing () p hcpu).1
      have hnow := hpunctual (s.entry p).beginRunning (by simp [taken, hcpu])
      apply h.leave hcpu
      · simpa [fallAsleep] using h.totalExec_running hrunning
      · simpa [fallAsleep, charge] using h.totalWait (by simp [hrunning])
      · simp [fallAsleep]
      · exact fun _ => hnow
      · simp [fallAsleep]
  | @exit c p hcpu hlk =>
      have hrunning := (hheld.executing () p hcpu).1
      apply h.leave hcpu
      · simpa [SchedEntry.exit, charge] using h.totalExec_running hrunning
      · simpa [SchedEntry.exit] using h.totalWait (by simp [hrunning])
      · simp [SchedEntry.exit]
      · simp [SchedEntry.exit]
      · simp [SchedEntry.exit]
  | @back c p hcpu => exact h.back hheld hcpu
  | @wake c q hfree hstate hlk =>
      exact h.ready hheld hlk (by simp [hstate]) (by simp [hstate]) rfl rfl rfl rfl
  | @wakeOne c q hstate hspace hlk =>
      have hnow := hpunctual (s.entry q).beginRunnable (by simp [taken, hstate, hspace])
      exact h.ready hheld hlk (by simp [hstate]) (by simp [hstate]) rfl rfl rfl hnow
  | wakeNone => exact h
  | @fork c q hstate hlk =>
      exact h.ready hheld hlk (by simp [hstate]) (by simp [hstate]) rfl rfl rfl rfl
  | @reap c q hstate hlk => exact h.reap hheld hlk

def Weighed (s : Hrrn n Unit) (op : HrrnOp n Unit) : Prop :=
  ∀ c pass (p : Fin n), op = .look c → s.cpu c = .scanning pass → p.val = pass.i →
    (s.entry p).state = .runnable →
    (account pass.ticks (s.entry p)).totalWait = UInt64.ofNat (s.waited p)

theorem Accounted.weighed (h : s.Accounted) (hpunctual : s.Punctual op) :
    s.Weighed op := by
  intro c pass p hop hcpu hi hstate
  have hnow : pass.ticks = s.ticks := by
    apply hpunctual
    simp only [hop, taken, hcpu, ← hi, p.isLt, dif_pos, Fin.eta, hstate, if_true]
    rfl
  have hwait := h.wait p
  rwa [unseen, if_pos hstate, ← hnow] at hwait

theorem totals_of_punctual (proczero : Fin n) (ops : List (HrrnOp n Unit))
    (hpunctual : Along (Hrrn.step ()) Punctual (boot proczero) ops)
    (hrun : run (Hrrn.step ()) (boot proczero) ops = some s) :
    (∀ p, s.lk p = none → (s.entry p).state ≠ .running →
      (s.entry p).totalExec = UInt64.ofNat (s.ran p)) ∧
    Along (Hrrn.step ()) Weighed (boot proczero) ops := by
  have hboot : (boot proczero : Hrrn n Unit).Accounted ∧
      (boot proczero : Hrrn n Unit).Held :=
    ⟨accounted_boot proczero, held_boot proczero⟩
  have hstep : ∀ (s : Hrrn n Unit) op s', s.Accounted ∧ s.Held → s.Punctual op →
      Hrrn.step () s op = some s' → s'.Accounted ∧ s'.Held := by
    intro s op s' h hop hs'
    exact ⟨h.1.step h.2 hop hs', h.2.step hs'⟩
  obtain ⟨h, hheld⟩ := run_invariant hstep hboot hpunctual hrun
  refine ⟨fun p => h.totalExec hheld, ?_⟩
  exact along_of_along hstep (fun s op h hop => h.1.weighed hop) hboot hpunctual

/-- The first process is chosen, sleeps and is woken up in one tick; in the next tick
it is chosen again and gives up the CPU. -/
def napping : List (HrrnOp 2 Unit) :=
  [.tick, .start (), .look (), .look (), .finish (), .resume (),
    .sleep () .other, .back (), .wake () 0, .tick, .start (), .look (), .look (),
    .finish (), .resume (), .yield (), .back ()]

theorem totals_napping :
    ∃ s, run (Hrrn.step ()) (boot 0) napping = some s ∧
      (s.entry 0).totalExec = UInt64.ofNat (s.ran 0) ∧
      Along (Hrrn.step ()) Weighed (boot 0) napping := by
  have hrun : (run (Hrrn.step ()) (boot 0) napping).map
      (fun s => (s.lk 0, (s.entry 0).state)) = some (none, .runnable) := by
    decide +kernel
  obtain ⟨s, hs, heq⟩ := Option.map_eq_some_iff.mp hrun
  obtain ⟨hlk, hstate⟩ := Prod.mk.inj heq
  have htotals := totals_of_punctual 0 napping (by decide +kernel) hs
  exact ⟨s, hs, htotals.1 0 hlk (by simp [hstate]), htotals.2⟩

/-- The first process runs for one tick and gives up the CPU. -/
def oneSlice : List (HrrnOp 64 Unit) :=
  .start () :: (List.replicate 64 (.look ()) ++
    [.finish (), .resume (), .tick, .yield (), .back ()])

theorem yield_charged_twice :
    ∃ s, run (Hrrn.step ()) (boot 0) oneSlice = some s ∧ s.lk 0 = none ∧
      (s.entry 0).state = .runnable ∧ (s.entry 0).totalExec = 2 ∧ s.ran 0 = 1 := by
  have hrun : (run (Hrrn.step ()) (boot 0) oneSlice).map
      (fun s => (s.lk 0, (s.entry 0).state, (s.entry 0).totalExec, s.ran 0)) =
      some (none, .runnable, 2, 1) := by
    decide +kernel
  obtain ⟨s, hs, heq⟩ := Option.map_eq_some_iff.mp hrun
  simp only [Prod.mk.injEq] at heq
  exact ⟨s, hs, heq⟩

end Hrrn

end UnoOS.Kernel
