import UnoOS.Kernel.Hrrn
import UnoOS.Lib.First

namespace UnoOS.Kernel

open UnoOS.Lib

/-! One pass of `proc_scheduler` over a table that nobody else changes. -/

namespace SchedEntry

variable {e : SchedEntry} {ticks : UInt64}

/-- Times for which the arithmetic of `get_weight` does not overflow. -/
def Fits (e : SchedEntry) : Prop :=
  e.totalExec.toNat + e.totalWait.toNat < 2 ^ 56

theorem getWeight_new (hexec : e.totalExec = 0) : e.getWeight.toNat = 2 ^ 64 - 1 := by
  simp only [getWeight, hexec, if_true]
  rfl

theorem getWeight_ran (hexec : e.totalExec ≠ 0) (hfits : e.Fits) :
    e.getWeight.toNat =
      (e.totalExec.toNat + e.totalWait.toNat) * 256 / e.totalExec.toNat := by
  simp only [Fits] at hfits
  have hsum : (e.totalExec + e.totalWait).toNat =
      e.totalExec.toNat + e.totalWait.toNat := by
    rw [UInt64.toNat_add, Nat.mod_eq_of_lt (by omega)]
  have hgradient : rateGradient.toNat % 64 = 8 := rfl
  simp only [getWeight, if_neg hexec, UInt64.toNat_div, UInt64.toNat_shiftLeft, hsum,
    hgradient, Nat.shiftLeft_eq]
  rw [Nat.mod_eq_of_lt (by omega)]

theorem totalExec_pos (hexec : e.totalExec ≠ 0) : 0 < e.totalExec.toNat := by
  apply Nat.pos_of_ne_zero
  intro hzero
  exact hexec (UInt64.toNat_inj.mp hzero)

/-- A weight is at least 1, in units of 1/256. -/
theorem getWeight_pos (hfits : e.Fits) : 256 ≤ e.getWeight.toNat := by
  rcases eq_or_ne e.totalExec 0 with hexec | hexec
  · rw [getWeight_new hexec]
    decide
  · rw [getWeight_ran hexec hfits, Nat.le_div_iff_mul_le (totalExec_pos hexec)]
    omega

theorem getWeight_lt_new (hexec : e.totalExec ≠ 0) (hfits : e.Fits) :
    e.getWeight.toNat < 2 ^ 64 - 1 := by
  have hle := Nat.div_le_self ((e.totalExec.toNat + e.totalWait.toNat) * 256)
    e.totalExec.toNat
  rw [getWeight_ran hexec hfits]
  simp only [Fits] at hfits
  omega

def ratio (e : SchedEntry) : ℚ :=
  (e.totalExec.toNat + e.totalWait.toNat) / e.totalExec.toNat

/-- The weight is the ratio in units of 1/256, rounded down. -/
theorem getWeight_ratio (hexec : e.totalExec ≠ 0) (hfits : e.Fits) :
    (e.getWeight.toNat : ℚ) ≤ 256 * e.ratio ∧ 256 * e.ratio < e.getWeight.toNat + 1 := by
  have hpos : (0 : ℚ) < e.totalExec.toNat := by exact_mod_cast totalExec_pos hexec
  have hratio : 256 * e.ratio =
      ((e.totalExec.toNat + e.totalWait.toNat) * 256 : ℕ) / e.totalExec.toNat := by
    simp only [ratio]
    push_cast
    ring
  rw [getWeight_ran hexec hfits, hratio]
  constructor
  · exact Nat.cast_div_le
  · rw [div_lt_iff₀ hpos]
    have hlt := Nat.lt_mul_div_succ ((e.totalExec.toNat + e.totalWait.toNat) * 256)
      (totalExec_pos hexec)
    rw [Nat.mul_comm e.totalExec.toNat] at hlt
    exact_mod_cast hlt

theorem account_totalWait (hbegin : e.beginRunnable.toNat ≤ ticks.toNat)
    (hsmall : e.totalExec.toNat + e.totalWait.toNat +
      (ticks.toNat - e.beginRunnable.toNat) < 2 ^ 56) :
    (account ticks e).totalWait.toNat =
      e.totalWait.toNat + (ticks.toNat - e.beginRunnable.toNat) := by
  have hsub := UInt64.toNat_sub_of_le ticks e.beginRunnable (UInt64.le_iff_toNat_le.mpr hbegin)
  simp only [account, UInt64.toNat_add, hsub]
  exact Nat.mod_eq_of_lt (by omega)

theorem fits_account (hbegin : e.beginRunnable.toNat ≤ ticks.toNat)
    (hsmall : e.totalExec.toNat + e.totalWait.toNat +
      (ticks.toNat - e.beginRunnable.toNat) < 2 ^ 56) : (account ticks e).Fits := by
  simp only [Fits, account_totalWait hbegin hsmall]
  change e.totalExec.toNat + _ < _
  omega

theorem ratio_lt_of_getWeight_le {e' : SchedEntry} (hfits : e.Fits) (hfits' : e'.Fits)
    (hexec : e.totalExec ≠ 0) (hexec' : e'.totalExec ≠ 0)
    (hle : e.getWeight.toNat ≤ e'.getWeight.toNat) : e.ratio < e'.ratio + 1 / 256 := by
  obtain ⟨_, hlt⟩ := getWeight_ratio hexec hfits
  obtain ⟨hfloor, _⟩ := getWeight_ratio hexec' hfits'
  have hcast : (e.getWeight.toNat : ℚ) ≤ e'.getWeight.toNat := by exact_mod_cast hle
  linarith

end SchedEntry

namespace Hrrn

open SchedEntry

variable {n : Nat} {κ : Type}

def Runnable (s : Hrrn n κ) (p : Fin n) : Prop := (s.entry p).state = .runnable

instance (s : Hrrn n κ) (p : Fin n) : Decidable (s.Runnable p) :=
  inferInstanceAs (Decidable ((s.entry p).state = .runnable))

def weight (s : Hrrn n κ) (p : Fin n) : Nat :=
  (account s.ticks (s.entry p)).getWeight.toNat

/-- The table `s'` in the middle of a pass that began in `s`. -/
structure Scanned (s : Hrrn n κ) (c : κ) (pass : Pass n) (s' : Hrrn n κ) : Prop where
  cpu : s'.cpu c = .scanning pass
  ticks : pass.ticks = s.ticks
  entry : ∀ p, s'.entry p =
    if p.val < pass.i ∧ s.Runnable p then account s.ticks (s.entry p) else s.entry p
  lk : ∀ p, s'.lk p = if pass.next = some p then some c else none
  found : pass.found = true ↔ ∃ p : Fin n, p.val < pass.i ∧ s.Runnable p
  chosen : ∀ q, pass.next = some q →
    pass.maxWeight.toNat = s.weight q ∧ Leads s.Runnable s.weight pass.i q
  unchosen : pass.next = none → pass.maxWeight = 0 ∧ pass.found = false

variable {s s' : Hrrn n κ} {c zero : κ} {pass : Pass n} {p : Fin n}

/-- The entries of the table after a `RUNNABLE` process has been looked at. -/
theorem Scanned.entry_weighed (h : Scanned s c pass s') (hi : p.val = pass.i)
    (hrunnable : s.Runnable p) (j : Fin n) :
    Function.update s'.entry p (account pass.ticks (s'.entry p)) j =
      if j.val < pass.i + 1 ∧ s.Runnable j then account s.ticks (s.entry j)
      else s.entry j := by
  have hp := h.entry p
  rw [if_neg (by omega)] at hp
  rcases eq_or_ne j p with rfl | hne
  · rw [Function.update_self, h.ticks, hp, if_pos ⟨by omega, hrunnable⟩]
  · have hj : j.val ≠ pass.i := fun hj => hne (Fin.ext (hj.trans hi.symm))
    have hlt : j.val < pass.i + 1 ↔ j.val < pass.i := by omega
    rw [Function.update_of_ne hne, h.entry j]
    simp only [hlt]

/-- The weight that the scheduler computes is the one at the start of the pass. -/
theorem Scanned.weight_eq (h : Scanned s c pass s') (hi : p.val = pass.i) :
    (account pass.ticks (s'.entry p)).getWeight.toNat = s.weight p := by
  rw [h.entry p, if_neg (by omega), h.ticks]
  rfl

theorem Scanned.lk_replaced (h : Scanned s c pass s') (j : Fin n) :
    ((match pass.next with
      | some q => s'.setLk q none
      | none => s').setLk p (some c)).lk j =
      if some p = some j then some c else none := by
  have hlk := h.lk j
  rcases hnext : pass.next with _ | q
  · rw [hnext] at hlk
    simp only [setLk, Function.update_apply]
    grind
  · rw [hnext] at hlk
    simp only [setLk, Function.update_apply]
    grind

variable [DecidableEq κ]

theorem Scanned.skip (h : Scanned s c pass s') (hi : p.val = pass.i)
    (hrunnable : ¬ s.Runnable p) :
    Scanned s c { pass with i := pass.i + 1 }
      (s'.setCpu c (.scanning { pass with i := pass.i + 1 })) := by
  have hbelow : ∀ j : Fin n, j.val < pass.i + 1 ∧ s.Runnable j ↔
      j.val < pass.i ∧ s.Runnable j := by
    intro j
    have hj : j.val = pass.i → j = p := fun hj => Fin.ext (hj.trans hi.symm)
    grind
  refine ⟨by simp [setCpu], h.ticks, ?_, h.lk, ?_, ?_, h.unchosen⟩
  · intro j
    simp only [hbelow]
    exact h.entry j
  · simp only [hbelow]
    exact h.found
  · intro q hq
    obtain ⟨hmax, hleads⟩ := h.chosen q hq
    refine ⟨hmax, hleads.skip ?_⟩
    intro j hj hrun
    rw [Fin.ext (hj.trans hi.symm)] at hrun
    exact absurd hrun hrunnable

theorem Scanned.keep (h : Scanned s c pass s') (hi : p.val = pass.i)
    (hrunnable : s.Runnable p) (hpos : 0 < s.weight p)
    (hle : s.weight p ≤ pass.maxWeight.toNat) :
    Scanned s c { pass with i := pass.i + 1, found := true }
      ((s'.setEntry p (account pass.ticks (s'.entry p))).setCpu c
        (.scanning { pass with i := pass.i + 1, found := true })) := by
  refine ⟨by simp [setCpu], h.ticks, h.entry_weighed hi hrunnable, h.lk, ?_, ?_, ?_⟩
  · simp only [true_iff]
    exact ⟨p, by omega, hrunnable⟩
  · intro q hq
    obtain ⟨hmax, hleads⟩ := h.chosen q hq
    refine ⟨hmax, hleads.skip ?_⟩
    intro j hj _
    rw [Fin.ext (hj.trans hi.symm), ← hmax]
    exact hle
  · intro hnone
    rw [(h.unchosen hnone).1] at hle
    exact absurd hpos (Nat.not_lt.mpr hle)

theorem Scanned.replace (h : Scanned s c pass s') (hi : p.val = pass.i)
    (hrunnable : s.Runnable p) (hgt : pass.maxWeight.toNat < s.weight p) :
    Scanned s c
      ⟨pass.i + 1, pass.ticks, (account pass.ticks (s'.entry p)).getWeight, some p, true⟩
      ((((match pass.next with
          | some q => s'.setLk q none
          | none => s').setLk p (some c)).setEntry p
            (account pass.ticks (s'.entry p))).setCpu c (.scanning
        ⟨pass.i + 1, pass.ticks, (account pass.ticks (s'.entry p)).getWeight, some p,
          true⟩)) := by
  have hbest : Leads s.Runnable s.weight (pass.i + 1) p := by
    rw [← hi]
    rcases hnext : pass.next with _ | q
    · apply leads_of_above hrunnable
      intro j hj hrun
      have hfound := h.found.mpr ⟨j, hi ▸ hj, hrun⟩
      rw [(h.unchosen hnext).2] at hfound
      cases hfound
    · obtain ⟨hmax, hleads⟩ := h.chosen q hnext
      rw [← hi] at hleads
      exact hleads.take hrunnable (hmax ▸ hgt)
  refine ⟨by simp [setCpu], h.ticks, ?_, h.lk_replaced, ?_, ?_, ?_⟩
  · intro j
    rw [← h.entry_weighed hi hrunnable j]
    rcases pass.next with _ | q <;> rfl
  · simp only [true_iff]
    exact ⟨p, by omega, hrunnable⟩
  · intro q hq
    cases hq
    exact ⟨h.weight_eq hi, hbest⟩
  · intro hnone
    cases hnone

theorem Scanned.look (h : Scanned s c pass s') (hi : pass.i < n)
    (hpos : ∀ p, s.Runnable p → 0 < s.weight p) :
    ∃ pass' s'', step zero s' (.look c) = some s'' ∧ pass'.i = pass.i + 1 ∧
      Scanned s c pass' s'' := by
  have hp : (⟨pass.i, hi⟩ : Fin n).val = pass.i := rfl
  have hlk : s'.lk ⟨pass.i, hi⟩ = none := by
    rw [h.lk, if_neg]
    intro hnext
    exact absurd (h.chosen _ hnext).2.below (Nat.lt_irrefl _)
  have hentry : s'.entry ⟨pass.i, hi⟩ = s.entry ⟨pass.i, hi⟩ := by
    rw [h.entry, if_neg (by simp)]
  simp only [step, h.cpu, lookStep, dif_pos hi, if_pos hlk, hentry]
  by_cases hrunnable : s.Runnable ⟨pass.i, hi⟩
  · have hstate : (s.entry ⟨pass.i, hi⟩).state = .runnable := hrunnable
    rw [if_pos hstate]
    simp only [weigh, UInt64.lt_iff_toNat_lt, h.weight_eq hp]
    split
    · exact ⟨_, _, rfl, rfl, h.replace hp hrunnable ‹_›⟩
    · exact ⟨_, _, rfl, rfl, h.keep hp hrunnable (hpos _ hrunnable) (Nat.not_lt.mp ‹_›)⟩
  · have hstate : ¬ (s.entry ⟨pass.i, hi⟩).state = .runnable := hrunnable
    rw [if_neg hstate]
    exact ⟨_, _, rfl, rfl, h.skip hp hrunnable⟩

theorem Scanned.looks {k : Nat} (h : Scanned s c pass s') (hk : pass.i + k ≤ n)
    (hpos : ∀ p, s.Runnable p → 0 < s.weight p) :
    ∃ pass' s'', run (step zero) s' (List.replicate k (.look c)) = some s'' ∧
      pass'.i = pass.i + k ∧ Scanned s c pass' s'' := by
  induction k generalizing pass s' with
  | zero => exact ⟨pass, s', rfl, rfl, h⟩
  | succ k ih =>
      obtain ⟨middle, s₁, hstep, hmiddle, hscanned⟩ := h.look (by omega) hpos
      obtain ⟨pass', s₂, hrun, hpass', hdone⟩ := ih hscanned (by omega)
      refine ⟨pass', s₂, run_cons.mpr ⟨s₁, hstep, hrun⟩, by omega, hdone⟩

theorem scanned_start (hlk : ∀ p, s.lk p = none) :
    Scanned s c ⟨0, s.ticks, 0, none, false⟩
      (s.setCpu c (.scanning ⟨0, s.ticks, 0, none, false⟩)) := by
  refine ⟨by simp [setCpu], rfl, ?_, ?_, ?_, ?_, ?_⟩
  · intro p
    simp [setCpu]
  · intro p
    simpa [setCpu] using hlk p
  · simp
  · intro q hq
    cases hq
  · intro _
    exact ⟨rfl, rfl⟩

theorem pass_selects (s : Hrrn n κ) (zero c : κ) (hcpu : s.cpu c = .top)
    (hlk : ∀ p, s.lk p = none)
    (hsmall : ∀ p, s.Runnable p →
      (s.entry p).beginRunnable.toNat ≤ s.ticks.toNat ∧
      (s.entry p).totalExec.toNat + (s.entry p).totalWait.toNat +
        (s.ticks.toNat - (s.entry p).beginRunnable.toNat) < 2 ^ 56) :
    ∃ s' pass, run (step zero) s (.start c :: List.replicate n (.look c)) = some s' ∧
      s'.cpu c = .scanning pass ∧ pass.i = n ∧
      (∀ p, ¬ s.Runnable p → s'.entry p = s.entry p) ∧
      (∀ p, s.Runnable p →
        s'.entry p = { s.entry p with
          totalWait := (s'.entry p).totalWait, beginRunnable := s.ticks } ∧
        (s'.entry p).totalWait.toNat = (s.entry p).totalWait.toNat +
          (s.ticks.toNat - (s.entry p).beginRunnable.toNat)) ∧
      (∀ p, s'.lk p = if pass.next = some p then some c else none) ∧
      (pass.found = true ↔ ∃ p, s.Runnable p) ∧
      (pass.next = none ↔ ∀ p, ¬ s.Runnable p) ∧
      ∀ q, pass.next = some q → s.Runnable q ∧ ∀ p, s.Runnable p →
        (s'.entry p).getWeight ≤ (s'.entry q).getWeight ∧
        (p < q → (s'.entry p).getWeight < (s'.entry q).getWeight) ∧
        ((s'.entry p).totalExec ≠ 0 → (s'.entry q).totalExec ≠ 0 →
          (s'.entry p).ratio < (s'.entry q).ratio + 1 / 256) ∧
        ((s'.entry p).totalExec = 0 → (s'.entry q).totalExec = 0) := by
  have hfits : ∀ p, s.Runnable p → (account s.ticks (s.entry p)).Fits :=
    fun p hp => fits_account (hsmall p hp).1 (hsmall p hp).2
  have hpos : ∀ p, s.Runnable p → 0 < s.weight p :=
    fun p hp => (by decide : 0 < 256).trans_le (getWeight_pos (hfits p hp))
  obtain ⟨pass, s', hrun, hi, h⟩ :=
    (scanned_start (c := c) hlk).looks (k := n) (by simp) hpos
  replace hi : pass.i = n := by simpa using hi
  have hentry : ∀ p, s.Runnable p → s'.entry p = account s.ticks (s.entry p) := by
    intro p hp
    rw [h.entry p, if_pos ⟨by omega, hp⟩]
  have hfound : pass.found = true ↔ ∃ p, s.Runnable p := by
    rw [h.found]
    simp [hi]
  refine ⟨s', pass, run_cons.mpr ⟨_, by rw [step, if_pos hcpu], hrun⟩, h.cpu, hi, ?_, ?_,
    h.lk, hfound, ?_, ?_⟩
  · intro p hp
    rw [h.entry p, if_neg fun hboth => hp hboth.2]
  · intro p hp
    rw [hentry p hp]
    exact ⟨rfl, account_totalWait (hsmall p hp).1 (hsmall p hp).2⟩
  · constructor
    · intro hnone p hp
      have hfalse := (h.unchosen hnone).2
      rw [hfound.mpr ⟨p, hp⟩] at hfalse
      cases hfalse
    · intro hidle
      rcases hnext : pass.next with _ | q
      · rfl
      · exact absurd (h.chosen q hnext).2.eligible (hidle q)
  · intro q hq
    obtain ⟨_, hleads⟩ := h.chosen q hq
    refine ⟨hleads.eligible, ?_⟩
    intro p hp
    have hle : (s'.entry p).getWeight.toNat ≤ (s'.entry q).getWeight.toNat := by
      rw [hentry p hp, hentry q hleads.eligible]
      exact hleads.greatest p hp (by omega)
    have hfp := hentry p hp ▸ hfits p hp
    have hfq := hentry q hleads.eligible ▸ hfits q hleads.eligible
    refine ⟨UInt64.le_iff_toNat_le.mpr hle, ?_, ?_, ?_⟩
    · intro hlt
      rw [UInt64.lt_iff_toNat_lt, hentry p hp, hentry q hleads.eligible]
      exact hleads.first p hlt hp
    · intro hexec hexec'
      exact ratio_lt_of_getWeight_le hfp hfq hexec hexec' hle
    · -- a process that has run weighs less than the saturated value
      intro hexec
      apply Classical.byContradiction
      intro hexec'
      have hlt := getWeight_lt_new hexec' hfq
      rw [getWeight_new hexec] at hle
      omega

def contended : Hrrn 64 Bool where
  ticks := 12
  entry := fun p =>
    if p = 3 then { free with state := .runnable, beginRunnable := 9, totalExec := 9 }
    else if p = 5 then { free with state := .runnable, totalExec := 3, totalWait := 1 }
    else free
  lk := fun _ => none
  cpu := fun _ => .top
  ran := fun _ => 0
  waited := fun _ => 0

theorem pass_selects_contended :
    ∃ s' pass, run (step false) contended (.start true :: List.replicate 64 (.look true)) =
        some s' ∧ s'.cpu true = .scanning pass ∧ pass.next ≠ none ∧
      (s'.entry 5).totalWait.toNat = 13 ∧
      ∀ q, pass.next = some q → (s'.entry 5).getWeight ≤ (s'.entry q).getWeight := by
  obtain ⟨s', pass, hrun, hcpu, _, _, hwait, _, _, hnone, hbest⟩ :=
    pass_selects contended false true rfl (by decide +kernel) (by decide +kernel)
  refine ⟨s', pass, hrun, hcpu, ?_, (hwait 5 (by decide +kernel)).2, ?_⟩
  · rw [Ne, hnone]
    decide +kernel
  · intro q hq
    exact ((hbest q hq).2 5 (by decide +kernel)).1

end Hrrn

end UnoOS.Kernel
