import UnoOS.Kernel.Hrrn

namespace UnoOS.Kernel

open UnoOS.Lib

namespace Hrrn

open SchedEntry

/-! What the steps can do, and who has the locks meanwhile. -/

variable {n : Nat} {κ : Type} {s s' : Hrrn n κ}

theorem touch_eq_some {q : Fin n} {e : SchedEntry} :
    s.touch q e = some s' ↔ s.lk q = none ∧ s.setEntry q e = s' := by
  simp [touch]

structure Held (s : Hrrn n κ) : Prop where
  executing : ∀ c p, s.cpu c = .executing p →
    (s.entry p).state = .running ∧ (s.lk p = none ∨ s.lk p = some c)
  executingOnce : ∀ c c' p, s.cpu c = .executing p → s.cpu c' = .executing p → c = c'
  switched : ∀ c p, s.cpu c = .switched p →
    s.lk p = some c ∧ (s.entry p).state ≠ .running
  chosen : ∀ c pass q, s.cpu c = .scanning pass → pass.next = some q →
    s.lk q = some c ∧ (s.entry q).state = .runnable ∧ q.val < pass.i

attribute [grind =] setEntry_ticks setEntry_entry setEntry_lk setEntry_cpu setEntry_ran
  setEntry_waited setLk_ticks setLk_entry setLk_lk setLk_cpu setLk_ran setLk_waited
  setCpu_ticks setCpu_entry setCpu_lk setCpu_cpu setCpu_ran setCpu_waited
  tick_ticks tick_entry tick_lk tick_cpu tick_ran tick_waited

attribute [local grind =] leave choose Function.update_apply
attribute [local grind cases eager] Held

theorem held_boot (proczero : Fin n) : (boot proczero : Hrrn n κ).Held := by
  constructor <;> intro c <;> intros <;> contradiction

/-- Steps at a process whose lock is free and that does not run. -/
theorem Held.setEntry {q : Fin n} {e : SchedEntry} (h : s.Held)
    (hlk : s.lk q = none) (hold : (s.entry q).state ≠ .running) :
    (s.setEntry q e).Held :=
  { h with
    executing := by grind -linarith
    switched := by grind -linarith
    chosen := by grind -linarith }

variable [DecidableEq κ]

inductive Moves (zero : κ) (s : Hrrn n κ) : HrrnOp n κ → Hrrn n κ → Prop where
  | tick (hfree : s.Free zero) : Moves zero s .tick s.tick
  | start {c} (hcpu : s.cpu c = .top) :
      Moves zero s (.start c) (s.setCpu c (.scanning ⟨0, s.ticks, 0, none, false⟩))
  | skip {c pass} (p : Fin n) (hcpu : s.cpu c = .scanning pass) (hi : p.val = pass.i)
      (hlk : s.lk p = none) (hstate : (s.entry p).state ≠ .runnable) :
      Moves zero s (.look c) (s.setCpu c (.scanning { pass with i := pass.i + 1 }))
  | weigh {c pass} (p : Fin n) (hcpu : s.cpu c = .scanning pass) (hi : p.val = pass.i)
      (hlk : s.lk p = none) (hstate : (s.entry p).state = .runnable) :
      Moves zero s (.look c) (s.weigh c pass p)
  | choose {c pass q} (hcpu : s.cpu c = .scanning pass) (hi : n ≤ pass.i)
      (hfound : pass.found = true) (hnext : pass.next = some q) :
      Moves zero s (.finish c)
        ((s.setEntry q (choose pass.ticks (s.entry q))).setCpu c (.executing q))
  | idle {c pass} (hcpu : s.cpu c = .scanning pass) (hi : n ≤ pass.i)
      (hfound : pass.found = false) : Moves zero s (.finish c) (s.setCpu c .top)
  | resume {c p} (hcpu : s.cpu c = .executing p) (hlk : s.lk p = some c) :
      Moves zero s (.resume c) (s.setLk p none)
  | yield {c p} (hcpu : s.cpu c = .executing p) (hlk : s.lk p = none) :
      Moves zero s (.yield c) (s.leave c p (giveUp s.ticks (s.entry p)))
  | sleep {c p space} (hcpu : s.cpu c = .executing p)
      (hlk : s.lk p = none ∨ s.lk p = some c) :
      Moves zero s (.sleep c space) (s.leave c p (fallAsleep s.ticks space (s.entry p)))
  | exit {c p} (hcpu : s.cpu c = .executing p) (hlk : s.lk p = none) :
      Moves zero s (.exit c) (s.leave c p (s.entry p).exit)
  | back {c p} (hcpu : s.cpu c = .switched p) :
      Moves zero s (.back c)
        (((s.setEntry p (switchBack s.ticks (s.entry p))).setLk p none).setCpu c .top)
  | wake {c q} (hfree : s.Free c) (hstate : (s.entry q).state = .sleeping)
      (hlk : s.lk q = none) :
      Moves zero s (.wake c q) (s.setEntry q (ready s.ticks (s.entry q)))
  | wakeOne {c q} (hstate : (s.entry q).state = .sleeping)
      (hspace : (s.entry q).sleepSpace = .itself) (hlk : s.lk q = none) :
      Moves zero s (.wakeOne c q) (s.setEntry q { s.entry q with state := .runnable })
  /-- `proc_wakeup_one` at a process that does not sleep in `proc_wait`. -/
  | wakeNone {c q} : Moves zero s (.wakeOne c q) s
  | fork {c q} (hstate : (s.entry q).state = .unused) (hlk : s.lk q = none) :
      Moves zero s (.fork c q) (s.setEntry q (ready s.ticks (s.entry q)))
  | reap {c q} (hstate : (s.entry q).state = .zombie) (hlk : s.lk q = none) :
      Moves zero s (.reap c q)
        { s.setEntry q free with
          ran := Function.update s.ran q 0, waited := Function.update s.waited q 0 }

variable {zero : κ} {op : HrrnOp n κ}

theorem moves_of_step (h : step zero s op = some s') : Moves zero s op s' := by
  cases op with
  | tick =>
      simp only [step, Option.ite_none_right_eq_some, Option.some.injEq] at h
      obtain ⟨hfree, rfl⟩ := h
      exact .tick hfree
  | start c =>
      simp only [step, Option.ite_none_right_eq_some, Option.some.injEq] at h
      obtain ⟨hcpu, rfl⟩ := h
      exact .start hcpu
  | look c =>
      simp only [step] at h
      rcases hcpu : s.cpu c with _ | pass | p | p <;> simp only [hcpu] at h
      · cases h
      · simp only [lookStep, Option.dite_none_right_eq_some,
          Option.ite_none_right_eq_some] at h
        obtain ⟨hi, hlk, h⟩ := h
        split at h
        · cases h
          exact .weigh _ hcpu rfl hlk ‹_›
        · cases h
          exact .skip _ hcpu rfl hlk ‹_›
      · cases h
      · cases h
  | finish c =>
      simp only [step] at h
      rcases hcpu : s.cpu c with _ | pass | p | p <;> simp only [hcpu] at h
      · cases h
      · simp only [finishStep, Option.ite_none_left_eq_some] at h
        obtain ⟨hi, h⟩ := h
        split at h
        · obtain ⟨q, hnext, rfl⟩ := Option.map_eq_some_iff.mp h
          exact .choose hcpu (Nat.not_lt.mp hi) ‹_› hnext
        · cases h
          exact .idle hcpu (Nat.not_lt.mp hi) (Bool.eq_false_iff.mpr ‹_›)
      · cases h
      · cases h
  | resume c =>
      simp only [step] at h
      rcases hcpu : s.cpu c with _ | pass | p | p <;>
        simp only [hcpu, Option.ite_none_right_eq_some, Option.some.injEq, reduceCtorEq] at h
      obtain ⟨hlk, rfl⟩ := h
      exact .resume hcpu hlk
  | yield c =>
      simp only [step] at h
      rcases hcpu : s.cpu c with _ | pass | p | p <;>
        simp only [hcpu, Option.ite_none_right_eq_some, Option.some.injEq, reduceCtorEq] at h
      obtain ⟨hlk, rfl⟩ := h
      exact .yield hcpu hlk
  | sleep c space =>
      simp only [step] at h
      rcases hcpu : s.cpu c with _ | pass | p | p <;>
        simp only [hcpu, Option.ite_none_right_eq_some, Option.some.injEq, reduceCtorEq] at h
      obtain ⟨hlk, rfl⟩ := h
      exact .sleep hcpu hlk
  | exit c =>
      simp only [step] at h
      rcases hcpu : s.cpu c with _ | pass | p | p <;>
        simp only [hcpu, Option.ite_none_right_eq_some, Option.some.injEq, reduceCtorEq] at h
      obtain ⟨hlk, rfl⟩ := h
      exact .exit hcpu hlk
  | back c =>
      simp only [step] at h
      rcases hcpu : s.cpu c with _ | pass | p | p <;> simp only [hcpu] at h <;> cases h
      exact .back hcpu
  | wake c q =>
      simp only [step, Option.ite_none_right_eq_some, touch_eq_some] at h
      obtain ⟨⟨hfree, hstate, _⟩, hlk, rfl⟩ := h
      exact .wake hfree hstate hlk
  | wakeOne c q =>
      simp only [step] at h
      rcases hcpu : s.cpu c with _ | pass | p | p <;>
        simp only [hcpu, touch_eq_some, reduceCtorEq] at h
      obtain ⟨hlk, rfl⟩ := h
      simp only [wakeupOne]
      split
      · rename_i hasleep
        exact .wakeOne hasleep.1 hasleep.2 hlk
      · simp only [setEntry, Function.update_eq_self]
        exact .wakeNone
  | fork c q =>
      simp only [step] at h
      rcases hcpu : s.cpu c with _ | pass | p | p <;>
        simp only [hcpu, touch_eq_some, Option.ite_none_right_eq_some, reduceCtorEq] at h
      obtain ⟨hstate, hlk, rfl⟩ := h
      exact .fork hstate hlk
  | reap c q =>
      simp only [step] at h
      rcases hcpu : s.cpu c with _ | pass | p | p <;>
        simp only [hcpu, Option.ite_none_right_eq_some, Option.map_eq_some_iff,
          touch_eq_some, reduceCtorEq] at h
      obtain ⟨hstate, _, ⟨hlk, rfl⟩, rfl⟩ := h
      exact .reap hstate hlk

variable {c : κ} {p q : Fin n} {pass : Pass n} {e : SchedEntry}

theorem Held.leave (h : s.Held) (hcpu : s.cpu c = .executing p)
    (hstate : e.state ≠ .running) : (s.leave c p e).Held := by
  constructor <;> grind -linarith

theorem Held.weigh (h : s.Held) (hcpu : s.cpu c = .scanning pass) (hi : p.val = pass.i)
    (hlk : s.lk p = none) (hstate : (s.entry p).state = .runnable) :
    (s.weigh c pass p).Held := by
  have haccount : (account pass.ticks (s.entry p)).state = .runnable := hstate
  simp only [Hrrn.weigh]
  split
  · rcases hnext : pass.next with _ | q
    · constructor <;> grind -linarith
    · constructor <;> grind -linarith
  · constructor <;> grind -linarith

theorem Held.step (h : s.Held) (hstep : step zero s op = some s') : s'.Held := by
  cases moves_of_step hstep with
  | tick hfree => exact { h with }
  | start hcpu => constructor <;> grind -linarith
  | skip p hcpu hi hlk hstate => constructor <;> grind -linarith
  | weigh p hcpu hi hlk hstate => exact h.weigh hcpu hi hlk hstate
  | choose hcpu hi hfound hnext => constructor <;> grind -linarith
  | idle hcpu hi hfound => constructor <;> grind -linarith
  | resume hcpu hlk =>
      exact { h with
        executing := by grind -linarith
        switched := by grind -linarith
        chosen := by grind -linarith }
  | yield hcpu hlk => exact h.leave hcpu (by simp [giveUp])
  | sleep hcpu hlk => exact h.leave hcpu (by simp [fallAsleep])
  | exit hcpu hlk => exact h.leave hcpu (by simp [SchedEntry.exit])
  | back hcpu => constructor <;> grind -linarith
  | wake hfree hstate hlk => exact h.setEntry hlk (by simp [hstate])
  | wakeOne hstate hspace hlk => exact h.setEntry hlk (by simp [hstate])
  | wakeNone => exact h
  | fork hstate hlk => exact h.setEntry hlk (by simp [hstate])
  | reap hstate hlk => exact { h.setEntry hlk (by simp [hstate]) with }

end Hrrn

end UnoOS.Kernel
