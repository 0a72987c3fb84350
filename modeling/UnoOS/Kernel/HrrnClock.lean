import UnoOS.Kernel.HrrnPass
import UnoOS.Kernel.HrrnMoves

namespace UnoOS.Kernel

open UnoOS.Lib

/-! The clock that a pass reads once at its start, while other CPUs go on. -/

namespace SchedEntry

variable {e : SchedEntry} {ticks : UInt64}

def used (e : SchedEntry) : Nat := e.totalExec.toNat + e.totalWait.toNat

theorem used_account (hbegin : e.beginRunnable.toNat ≤ ticks.toNat)
    (hused : e.used ≤ 2 * e.beginRunnable.toNat) (hclock : ticks.toNat < 2 ^ 55) :
    (account ticks e).used ≤ 2 * ticks.toNat := by
  simp only [used] at hused
  have hwait := account_totalWait hbegin (by omega)
  have hexec : (account ticks e).totalExec = e.totalExec := rfl
  simp only [used, hwait, hexec]
  omega

theorem used_charge {bound : Nat} (hrunning : e.beginRunning.toNat ≤ ticks.toNat)
    (hused : e.used ≤ bound) (hbound : bound + ticks.toNat < 2 ^ 64) :
    (charge ticks e).used ≤ bound + (ticks.toNat - e.beginRunning.toNat) := by
  have hsub := UInt64.toNat_sub_of_le ticks e.beginRunning
    (UInt64.le_iff_toNat_le.mpr hrunning)
  simp only [used] at hused
  simp only [used, charge, UInt64.toNat_add, hsub]
  rw [Nat.mod_eq_of_lt (by omega)]
  omega

end SchedEntry

def HrrnPc.pass? {n : Nat} : HrrnPc n → Option (Pass n)
  | .scanning pass => some pass
  | _ => none

theorem HrrnPc.mem_pass? {n : Nat} {pc : HrrnPc n} {pass : Pass n} :
    pass ∈ pc.pass? ↔ pc = .scanning pass := by
  cases pc <;> simp [pass?, eq_comm]

namespace Hrrn

open SchedEntry

variable {n : Nat} {κ : Type}

/-- Every pass that has not yet reached process `p` read the clock at `ticks` or
later. -/
def Seen (s : Hrrn n κ) (p : Fin n) (ticks : UInt64) : Prop :=
  ∀ c, ∀ pass ∈ (s.cpu c).pass?, pass.i ≤ p.val → ticks.toNat ≤ pass.ticks.toNat

/-- The process that a step makes or keeps `RUNNABLE` with a new stamp, and the
stamp. -/
def stamp (s : Hrrn n κ) : HrrnOp n κ → Option (Fin n × UInt64)
  | .look c =>
      match s.cpu c with
      | .scanning pass =>
          if h : pass.i < n then
            if (s.entry ⟨pass.i, h⟩).state = .runnable then
              some (⟨pass.i, h⟩, pass.ticks)
            else none
          else none
      | _ => none
  | .yield c =>
      match s.cpu c with
      | .executing p => some (p, s.ticks)
      | _ => none
  | .back c =>
      match s.cpu c with
      | .switched p =>
          if (s.entry p).state = .runnable then some (p, s.ticks) else none
      | _ => none
  | .wake _ q => some (q, s.ticks)
  | .wakeOne _ q =>
      if (s.entry q).state = .sleeping ∧ (s.entry q).sleepSpace = .itself then
        some (q, (s.entry q).beginRunnable)
      else none
  | .fork _ q => some (q, s.ticks)
  | _ => none

/-- No step gives a process a stamp that is newer than the clock of a pass that is
still to come to it, and the clock is far from overflowing. -/
def Fresh (s : Hrrn n κ) (op : HrrnOp n κ) : Prop :=
  (op = .tick → s.ticks.toNat + 1 < 2 ^ 55) ∧ ∀ stamped ∈ s.stamp op,
    s.Seen stamped.1 stamped.2

instance [Fintype κ] (s : Hrrn n κ) (p : Fin n) (ticks : UInt64) :
    Decidable (s.Seen p ticks) :=
  inferInstanceAs (Decidable (∀ c, ∀ pass ∈ (s.cpu c).pass?, pass.i ≤ p.val →
    ticks.toNat ≤ pass.ticks.toNat))

instance [Fintype κ] [DecidableEq κ] (s : Hrrn n κ) (op : HrrnOp n κ) :
    Decidable (s.Fresh op) :=
  have := Option.decidableForallMem (p := fun stamped => s.Seen stamped.1 stamped.2)
    (s.stamp op)
  instDecidableAnd

structure Timed (s : Hrrn n κ) : Prop where
  clock : s.ticks.toNat < 2 ^ 55
  begun : ∀ p, (s.entry p).beginRunnable.toNat ≤ s.ticks.toNat
  dispatched : ∀ p, (s.entry p).beginRunning.toNat ≤ s.ticks.toNat
  sampled : ∀ c pass, s.cpu c = .scanning pass → pass.ticks.toNat ≤ s.ticks.toNat
  unreached : ∀ p, (s.entry p).state = .runnable → s.Seen p (s.entry p).beginRunnable
  idle : ∀ p, s.lk p = none → (s.entry p).state ≠ .running →
    (s.entry p).used ≤ 2 * (s.entry p).beginRunnable.toNat
  running : ∀ p, (s.entry p).state = .running →
    (s.entry p).used ≤ 2 * (s.entry p).beginRunning.toNat
  left : ∀ c p, s.cpu c = .switched p →
    (s.entry p).used ≤ (s.entry p).beginRunning.toNat + s.ticks.toNat
  chosen : ∀ c pass q, s.cpu c = .scanning pass → pass.next = some q →
    (s.entry q).beginRunnable = pass.ticks ∧
      (s.entry q).used ≤ 2 * (s.entry q).beginRunnable.toNat
  found : ∀ c pass, s.cpu c = .scanning pass → pass.found = true → pass.next ≠ none
  light : ∀ c pass, s.cpu c = .scanning pass → pass.next = none → pass.maxWeight = 0

attribute [local grind =] leave Seen HrrnPc.mem_pass? Function.update_apply
attribute [local grind cases eager] Held Timed

theorem timed_boot (proczero : Fin n) : (boot proczero : Hrrn n κ).Timed := by
  have hentry : ∀ p, ((boot proczero : Hrrn n κ).entry p).used = 0 ∧
      ((boot proczero : Hrrn n κ).entry p).beginRunnable = 0 ∧
      ((boot proczero : Hrrn n κ).entry p).beginRunning = 0 := by
    intro p
    simp only [boot]
    rcases eq_or_ne p proczero with rfl | hne
    · simp [ready, free, used]
    · simp [Function.update_of_ne hne, free, used]
  have hcpu : ∀ c, (boot proczero : Hrrn n κ).cpu c = .top := fun _ => rfl
  have hticks : (boot proczero : Hrrn n κ).ticks = 0 := rfl
  constructor <;> simp only [Seen, HrrnPc.mem_pass?, hentry, hcpu, hticks] <;> simp

variable {s s' : Hrrn n κ} {c zero : κ} {p q : Fin n} {pass : Pass n} {e : SchedEntry}

/-- A process that does not run is changed under its lock. -/
theorem Timed.setEntry (h : s.Timed) (hheld : s.Held) (hlk : s.lk q = none)
    (hstate : e.state ≠ .running) (hbegun : e.beginRunnable.toNat ≤ s.ticks.toNat)
    (hdispatched : e.beginRunning.toNat ≤ s.ticks.toNat)
    (hused : e.used ≤ 2 * e.beginRunnable.toNat)
    (hseen : e.state = .runnable → s.Seen q e.beginRunnable) : (s.setEntry q e).Timed := by
  constructor <;> grind -linarith

theorem Timed.tick (h : s.Timed) (hclock : s.ticks.toNat + 1 < 2 ^ 55) :
    s.tick.Timed := by
  have hticks : (s.ticks + 1).toNat = s.ticks.toNat + 1 := by
    rw [UInt64.toNat_add]
    exact Nat.mod_eq_of_lt (by simp; omega)
  exact { h with
    clock := by grind -linarith
    begun := by grind -linarith
    dispatched := by grind -linarith
    sampled := by grind -linarith
    left := by grind -linarith }

theorem Timed.resume (h : s.Timed) (hstate : (s.entry p).state = .running) :
    (s.setLk p none).Timed :=
  { h with
    idle := by grind -linarith }

theorem Timed.charged (h : s.Timed) (hheld : s.Held) (hcpu : s.cpu c = .executing p) :
    (charge s.ticks (s.entry p)).used ≤
      (s.entry p).beginRunning.toNat + s.ticks.toNat := by
  have hclock := h.clock
  have hdispatched := h.dispatched p
  have hcharged := used_charge hdispatched (h.running p (hheld.executing c p hcpu).1)
    (by omega)
  omega

/-- A process that does not run is stamped with the current time. -/
theorem Timed.ready (h : s.Timed) (hheld : s.Held) (hlk : s.lk q = none)
    (hstate : (s.entry q).state ≠ .running) (hseen : s.Seen q s.ticks) :
    (s.setEntry q (ready s.ticks (s.entry q))).Timed := by
  refine h.setEntry hheld hlk (by simp [SchedEntry.ready]) le_rfl (h.dispatched q) ?_
    fun _ => hseen
  have hused := h.idle q hlk hstate
  have hbegun := h.begun q
  change (s.entry q).used ≤ 2 * s.ticks.toNat
  omega

variable [DecidableEq κ]

theorem Timed.leave (h : s.Timed) (hheld : s.Held) (hcpu : s.cpu c = .executing p)
    (hstate : e.state ≠ .running) (hbegun : e.beginRunnable.toNat ≤ s.ticks.toNat)
    (hrunning : e.beginRunning = (s.entry p).beginRunning)
    (hused : e.used ≤ e.beginRunning.toNat + s.ticks.toNat)
    (hseen : e.state = .runnable → s.Seen p e.beginRunnable) : (s.leave c p e).Timed := by
  constructor
  case chosen =>
    intro c' pass q hcpu' hnext
    have hscan : s.cpu c' = .scanning pass := by grind -linarith
    have hne : q ≠ p := by grind -linarith
    have hold := h.chosen c' pass q hscan hnext
    grind -linarith
  all_goals grind -linarith

theorem Timed.weigh (h : s.Timed) (hheld : s.Held) (hcpu : s.cpu c = .scanning pass)
    (hi : p.val = pass.i) (hlk : s.lk p = none)
    (hstate : (s.entry p).state = .runnable) (hseen : s.Seen p pass.ticks) :
    (s.weigh c pass p).Timed := by
  have hbegin := h.unreached p hstate c pass (HrrnPc.mem_pass?.mpr hcpu) hi.ge
  have hsampled := h.sampled c pass hcpu
  have hclock := h.clock
  have hused := used_account hbegin (h.idle p hlk (by simp [hstate])) (by omega)
  have hpos : 0 < (account pass.ticks (s.entry p)).getWeight := by
    have hfits : (account pass.ticks (s.entry p)).Fits := by
      simp only [Fits]
      simp only [used] at hused
      omega
    have hle := getWeight_pos hfits
    rw [UInt64.lt_iff_toNat_lt]
    exact Nat.lt_of_lt_of_le (by decide) hle
  have hwhen : (account pass.ticks (s.entry p)).beginRunnable = pass.ticks := rfl
  have hrunning : (account pass.ticks (s.entry p)).beginRunning =
      (s.entry p).beginRunning := rfl
  have hstate' : (account pass.ticks (s.entry p)).state = .runnable := hstate
  simp only [Hrrn.weigh]
  generalize account pass.ticks (s.entry p) = e at *
  split
  · rcases hnext : pass.next with _ | q
    · constructor <;> grind -linarith
    · constructor <;> grind -linarith
  · constructor <;> grind -linarith

variable {op : HrrnOp n κ}

/-- The start of a pass, or a step of it that changes no process. -/
theorem Timed.setCpu_scanning (h : s.Timed) (hsampled : pass.ticks.toNat ≤ s.ticks.toNat)
    (hunreached : ∀ p, (s.entry p).state = .runnable → pass.i ≤ p.val →
      (s.entry p).beginRunnable.toNat ≤ pass.ticks.toNat)
    (hchosen : ∀ q, pass.next = some q → (s.entry q).beginRunnable = pass.ticks ∧
      (s.entry q).used ≤ 2 * (s.entry q).beginRunnable.toNat)
    (hfound : pass.found = true → pass.next ≠ none)
    (hlight : pass.next = none → pass.maxWeight = 0) :
    (s.setCpu c (.scanning pass)).Timed := by
  constructor <;> grind -linarith

theorem Timed.setCpu_top (h : s.Timed) : (s.setCpu c .top).Timed := by
  constructor <;> grind -linarith

theorem Timed.dispatch (h : s.Timed) (hheld : s.Held) (hcpu : s.cpu c = .scanning pass)
    (hnext : pass.next = some q) :
    ((s.setEntry q (choose pass.ticks (s.entry q))).setCpu c (.executing q)).Timed := by
  have hstate : (choose pass.ticks (s.entry q)).state = .running := rfl
  have hrunning : (choose pass.ticks (s.entry q)).beginRunning = pass.ticks := rfl
  have hbegin : (choose pass.ticks (s.entry q)).beginRunnable =
      (s.entry q).beginRunnable := rfl
  have hused : (choose pass.ticks (s.entry q)).used = (s.entry q).used := rfl
  generalize SchedEntry.choose pass.ticks (s.entry q) = e at *
  constructor <;> grind -linarith

theorem Timed.back (h : s.Timed) (hheld : s.Held) (hcpu : s.cpu c = .switched p)
    (hseen : (s.entry p).state = .runnable → s.Seen p s.ticks) :
    (((s.setEntry p (switchBack s.ticks (s.entry p))).setLk p none).setCpu c
      .top).Timed := by
  have hclock := h.clock
  have hdispatched := h.dispatched p
  have hcharged := used_charge hdispatched (h.left c p hcpu) (by omega)
  have hused : (switchBack s.ticks (s.entry p)).used ≤ 2 * s.ticks.toNat := by
    change (charge s.ticks (s.entry p)).used ≤ _
    omega
  have hstate : (switchBack s.ticks (s.entry p)).state = (s.entry p).state := rfl
  have hbegin : (switchBack s.ticks (s.entry p)).beginRunnable = s.ticks := rfl
  have hrunning : (switchBack s.ticks (s.entry p)).beginRunning =
      (s.entry p).beginRunning := rfl
  generalize switchBack s.ticks (s.entry p) = e at *
  constructor <;> grind -linarith

theorem Timed.step (h : s.Timed) (hheld : s.Held) (hfresh : s.Fresh op)
    (hstep : step zero s op = some s') : s'.Timed := by
  cases moves_of_step hstep with
  | tick hfree => exact h.tick (hfresh.1 rfl)
  | start hcpu =>
      apply h.setCpu_scanning le_rfl (fun p _ _ => h.begun p)
      all_goals simp
  | @skip c pass p hcpu hi hlk hstate =>
      apply h.setCpu_scanning
      · exact h.sampled c pass hcpu
      · intro p hrunnable hle
        exact h.unreached p hrunnable c pass (HrrnPc.mem_pass?.mpr hcpu)
          (Nat.le_of_succ_le hle)
      · exact fun q => h.chosen c pass q hcpu
      · exact h.found c pass hcpu
      · exact h.light c pass hcpu
  | @weigh c pass p hcpu hi hlk hstate =>
      refine h.weigh hheld hcpu hi hlk hstate (hfresh.2 (p, pass.ticks) ?_)
      simp only [stamp, hcpu, ← hi, p.isLt, dif_pos, Fin.eta, hstate, if_true]
      rfl
  | choose hcpu hi hfound hnext => exact h.dispatch hheld hcpu hnext
  | idle hcpu hi hfound => exact h.setCpu_top
  | resume hcpu hlk => exact h.resume (hheld.executing _ _ hcpu).1
  | @yield c p hcpu hlk =>
      exact h.leave hheld hcpu (by simp [giveUp]) le_rfl rfl (h.charged hheld hcpu)
        fun _ => hfresh.2 (p, s.ticks) (by simp [stamp, hcpu])
  | @sleep c p space hcpu hlk =>
      exact h.leave hheld hcpu (by simp [fallAsleep]) (h.begun p) rfl
        (h.charged hheld hcpu) (by simp [fallAsleep])
  | @exit c p hcpu hlk =>
      refine h.leave hheld hcpu (by simp [SchedEntry.exit]) (h.begun p) rfl ?_
        (by simp [SchedEntry.exit])
      have hused := h.running p (hheld.executing c p hcpu).1
      have hdispatched := h.dispatched p
      change (s.entry p).used ≤ (s.entry p).beginRunning.toNat + _
      omega
  | @back c p hcpu =>
      apply h.back hheld hcpu
      intro hstate
      exact hfresh.2 (p, s.ticks) (by simp [stamp, hcpu, hstate])
  | @wake c q hfree hstate hlk =>
      exact h.ready hheld hlk (by simp [hstate]) (hfresh.2 (q, s.ticks) rfl)
  | @wakeOne c q hstate hspace hlk =>
      refine h.setEntry hheld hlk (by simp) (h.begun q) (h.dispatched q)
        (h.idle q hlk (by simp [hstate])) fun _ => ?_
      exact hfresh.2 (q, (s.entry q).beginRunnable) (by simp [stamp, hstate, hspace])
  | wakeNone => exact h
  | @fork c q hstate hlk =>
      exact h.ready hheld hlk (by simp [hstate]) (hfresh.2 (q, s.ticks) rfl)
  | reap hstate hlk =>
      exact { h.setEntry hheld hlk (e := free) (by simp [free]) (by simp [free])
        (by simp [free]) (by simp [free, used]) (by simp [free]) with }

theorem timed_of_run {proczero : Fin n} {ops : List (HrrnOp n κ)}
    (hfresh : Along (Hrrn.step zero) Fresh (boot proczero) ops)
    (hrun : run (Hrrn.step zero) (boot proczero) ops = some s) : s.Timed ∧ s.Held := by
  refine run_invariant (I := fun s => s.Timed ∧ s.Held) ?_
    ⟨timed_boot proczero, held_boot proczero⟩ hfresh hrun
  intro s op s' h hop hstep
  exact ⟨h.1.step h.2 hop hstep, h.2.step hstep⟩

theorem pass_current_of_fresh (zero : κ) (proczero : Fin n) (ops : List (HrrnOp n κ))
    (hfresh : Along (Hrrn.step zero) Fresh (boot proczero) ops)
    (hrun : run (Hrrn.step zero) (boot proczero) ops = some s) :
    (∀ c pass (p : Fin n), s.cpu c = .scanning pass → p.val = pass.i →
      (s.entry p).state = .runnable →
      (pass.ticks - (s.entry p).beginRunnable).toNat =
          pass.ticks.toNat - (s.entry p).beginRunnable.toNat ∧
        (s.entry p).beginRunnable.toNat ≤ pass.ticks.toNat) ∧
    ∀ c pass, s.cpu c = .scanning pass → pass.found = true → pass.next ≠ none := by
  have h := (timed_of_run hfresh hrun).1
  refine ⟨?_, h.found⟩
  intro c pass p hcpu hi hstate
  have hle := h.unreached p hstate c pass (HrrnPc.mem_pass?.mpr hcpu) hi.ge
  exact ⟨UInt64.toNat_sub_of_le _ _ (UInt64.le_iff_toNat_le.mpr hle), hle⟩

/-- On CPU 0 the first process runs for a tick, sleeps for another and is woken up. -/
def sleepOnce : List (HrrnOp 64 Bool) :=
  [.finish false, .resume false, .tick, .sleep false .other, .back false, .tick,
    .wake false 0]

/-- CPU 1 begins its pass after that; a table of two. -/
def promptScan : List (HrrnOp 2 Bool) :=
  [.start false, .look false, .look false, .finish false, .resume false, .tick,
    .sleep false .other, .back false, .tick, .wake false 0, .start true, .look true,
    .look true]

theorem pass_current_prompt :
    ∃ s pass, run (Hrrn.step false) (boot 0) promptScan = some s ∧
      s.cpu true = .scanning pass ∧ pass.found = true ∧ pass.next ≠ none := by
  have hrun : (run (Hrrn.step false) (boot 0) promptScan).map
      (fun s => (s.cpu true).pass?.map Pass.found) = some (some true) := by
    decide +kernel
  obtain ⟨s, hs, hcpu⟩ := Option.map_eq_some_iff.mp hrun
  obtain ⟨pass, hpass, hfound⟩ := Option.map_eq_some_iff.mp hcpu
  have hscan := HrrnPc.mem_pass?.mp hpass
  have hcurrent := pass_current_of_fresh false 0 promptScan (by decide +kernel) hs
  exact ⟨s, pass, hs, hscan, hfound, hcurrent.2 true pass hscan hfound⟩

/-- CPU 1 reads the clock before that, and looks at no process meanwhile. -/
def lateScan : List (HrrnOp 64 Bool) :=
  .start true :: .start false :: (List.replicate 64 (.look false) ++ sleepOnce)

theorem late_pass_wraps :
    (∃ s pass, run (Hrrn.step false) (boot 0) lateScan = some s ∧
      s.cpu true = .scanning pass ∧ pass.i = 0 ∧ (s.entry 0).state = .runnable ∧
      pass.ticks < (s.entry 0).beginRunnable) ∧
    ∃ s pass, run (Hrrn.step false) (boot 0)
        (lateScan ++ List.replicate 64 (.look true)) = some s ∧
      s.cpu true = .scanning pass ∧ pass.i = 64 ∧ pass.found = true ∧
      pass.next = none := by
  constructor
  · have hrun : (run (Hrrn.step false) (boot 0) lateScan).map
        (fun s => (s.cpu true, (s.entry 0).state, (s.entry 0).beginRunnable)) =
        some (.scanning ⟨0, 0, 0, none, false⟩, .runnable, 2) := by
      decide +kernel
    obtain ⟨s, hs, heq⟩ := Option.map_eq_some_iff.mp hrun
    simp only [Prod.mk.injEq] at heq
    exact ⟨s, _, hs, heq.1, rfl, heq.2.1, by rw [heq.2.2]; decide⟩
  · have hrun : (run (Hrrn.step false) (boot 0)
        (lateScan ++ List.replicate 64 (.look true))).map (fun s => s.cpu true) =
        some (.scanning ⟨64, 0, 0, none, true⟩) := by
      decide +kernel
    obtain ⟨s, hs, heq⟩ := Option.map_eq_some_iff.mp hrun
    exact ⟨s, _, hs, heq, rfl, rfl, rfl⟩

end Hrrn

end UnoOS.Kernel
