import Mathlib

namespace UnoOS.Lib

/-! Runs of a partial step function.  `none` means that the operation is not
enabled or does not return. -/

variable {σ ι : Type}

def run (step : σ → ι → Option σ) : σ → List ι → Option σ
  | s, [] => some s
  | s, op :: ops => (step s op).bind fun s' => run step s' ops

/-- Every operation of the run starts in a state where `P` holds of it. -/
def Along (step : σ → ι → Option σ) (P : σ → ι → Prop) : σ → List ι → Prop
  | _, [] => True
  | s, op :: ops => P s op ∧ ∀ s', step s op = some s' → Along step P s' ops

section

variable {step : σ → ι → Option σ} {P Q : σ → ι → Prop} {I : σ → Prop}

theorem run_cons {s s' : σ} {op : ι} {ops : List ι} :
    run step s (op :: ops) = some s' ↔
      ∃ middle, step s op = some middle ∧ run step middle ops = some s' := by
  simp [run, Option.bind_eq_some_iff]

theorem run_append {s s' : σ} {ops ops' : List ι} :
    run step s (ops ++ ops') = some s' ↔
      ∃ middle, run step s ops = some middle ∧ run step middle ops' = some s' := by
  induction ops generalizing s with
  | nil => simp [run]
  | cons op ops ih =>
      simp only [List.cons_append, run_cons, ih]
      constructor
      · rintro ⟨first, hop, middle, hfirst, hrest⟩
        exact ⟨middle, ⟨first, hop, hfirst⟩, hrest⟩
      · rintro ⟨middle, ⟨first, hop, hfirst⟩, hrest⟩
        exact ⟨first, hop, middle, hfirst, hrest⟩

theorem run_concat {s middle s' : σ} {op : ι} {ops : List ι}
    (hrun : run step s ops = some middle) (hop : step middle op = some s') :
    run step s (ops ++ [op]) = some s' :=
  run_append.mpr ⟨middle, hrun, run_cons.mpr ⟨s', hop, rfl⟩⟩

/-- The invariant rule: what every admitted step keeps holds after every run
whose steps are admitted. -/
theorem run_invariant
    (hstep : ∀ s op s', I s → P s op → step s op = some s' → I s')
    {s s' : σ} {ops : List ι} (hs : I s) (halong : Along step P s ops)
    (hrun : run step s ops = some s') : I s' := by
  induction ops generalizing s with
  | nil =>
      cases hrun
      exact hs
  | cons op ops ih =>
      obtain ⟨middle, hop, hrest⟩ := run_cons.mp hrun
      exact ih (hstep s op middle hs halong.1 hop) (halong.2 middle hop) hrest

theorem along_of_forall (h : ∀ s op, P s op) (s : σ) (ops : List ι) :
    Along step P s ops := by
  induction ops generalizing s with
  | nil => trivial
  | cons op ops ih => exact ⟨h s op, fun s' _ => ih s'⟩

theorem run_invariant_of_step
    (hstep : ∀ s op s', I s → step s op = some s' → I s')
    {s s' : σ} {ops : List ι} (hs : I s)
    (hrun : run step s ops = some s') : I s' :=
  run_invariant (P := fun _ _ => True)
    (fun s op s' hi _ hop => hstep s op s' hi hop) hs
    (along_of_forall (fun _ _ => trivial) s ops) hrun

/-- Conditions that imply each other step by step, as long as an invariant
holds, imply each other along a run. -/
theorem along_of_along
    (hstep : ∀ s op s', I s → P s op → step s op = some s' → I s')
    (hpq : ∀ s op, I s → P s op → Q s op)
    {s : σ} {ops : List ι} (hs : I s) (halong : Along step P s ops) :
    Along step Q s ops := by
  induction ops generalizing s with
  | nil => trivial
  | cons op ops ih =>
      refine ⟨hpq s op hs halong.1, ?_⟩
      intro s' hop
      exact ih (hstep s op s' hs halong.1 hop) (halong.2 s' hop)

def decAlong [∀ s op, Decidable (P s op)] :
    (ops : List ι) → (s : σ) → Decidable (Along step P s ops)
  | [], _ => isTrue trivial
  | op :: ops, s =>
      match hop : step s op with
      | none => decidable_of_iff (P s op) (by simp [Along, hop])
      | some s' =>
          have := decAlong ops s'
          decidable_of_iff (P s op ∧ Along step P s' ops) (by simp [Along, hop])

instance [∀ s op, Decidable (P s op)] (s : σ) (ops : List ι) :
    Decidable (Along step P s ops) :=
  decAlong ops s

theorem Along.and {s : σ} {ops : List ι} (hp : Along step P s ops)
    (hq : Along step Q s ops) :
    Along step (fun s op => P s op ∧ Q s op) s ops := by
  induction ops generalizing s with
  | nil => trivial
  | cons op ops ih =>
      refine ⟨⟨hp.1, hq.1⟩, ?_⟩
      intro s' hop
      exact ih (hp.2 s' hop) (hq.2 s' hop)

theorem along_cons {s middle : σ} {op : ι} {ops : List ι} (hop : P s op)
    (hstep : step s op = some middle) (hrest : Along step P middle ops) :
    Along step P s (op :: ops) := by
  refine ⟨hop, ?_⟩
  intro s' hs'
  rw [hstep] at hs'
  cases hs'
  exact hrest

/-- If a step keeps the invariant exactly when a condition holds of it, then
the invariant holds at every point of a run exactly when the condition holds
along it. -/
theorem along_iff_invariant
    (hstep : ∀ s op s', I s → step s op = some s' → (P s op ↔ I s'))
    {s s' : σ} {ops : List ι} (hs : I s) (hrun : run step s ops = some s') :
    Along step P s ops ↔
      ∀ before after middle, ops = before ++ after →
        run step s before = some middle → I middle := by
  induction ops generalizing s with
  | nil =>
      refine ⟨?_, fun _ => trivial⟩
      intro _ before after middle hops hbefore
      obtain ⟨hnil, _⟩ := List.append_eq_nil_iff.mp hops.symm
      rw [hnil] at hbefore
      cases hbefore
      exact hs
  | cons op ops ih =>
      obtain ⟨next, hop, hrest⟩ := run_cons.mp hrun
      constructor
      · intro halong before after middle hops hbefore
        have hnext := (hstep s op next hs hop).mp halong.1
        cases before with
        | nil =>
            cases hbefore
            exact hs
        | cons op' before =>
            obtain ⟨hop', hops⟩ := List.cons.inj hops
            rw [← hop'] at hbefore
            obtain ⟨next', hnext', hbefore⟩ := run_cons.mp hbefore
            rw [hop] at hnext'
            cases hnext'
            exact (ih hnext hrest).mp (halong.2 next hop) before after middle hops
              hbefore
      · intro h
        have hnext : I next := by
          apply h [op] ops next rfl
          exact run_cons.mpr ⟨next, hop, rfl⟩
        refine along_cons ((hstep s op next hs hop).mpr hnext) hop ?_
        refine (ih hnext hrest).mpr ?_
        intro before after middle hops hbefore
        apply h (op :: before) after middle
        · rw [hops, List.cons_append]
        · exact run_cons.mpr ⟨next, hop, hbefore⟩

/-- A step condition holds at every point of a run along which it holds. -/
theorem along_append {s middle : σ} {ops ops' : List ι}
    (halong : Along step P s (ops ++ ops'))
    (hrun : run step s ops = some middle) : Along step P middle ops' := by
  induction ops generalizing s with
  | nil =>
      cases hrun
      exact halong
  | cons op ops ih =>
      obtain ⟨next, hop, hrest⟩ := run_cons.mp hrun
      exact ih (halong.2 next hop) hrest

/-- If every step of one machine is matched by another, then so is every run. -/
theorem run_simulates {τ : Type} {step' : τ → ι → Option τ} {R : σ → τ → Prop}
    (hstep : ∀ s t op s', R s t → step s op = some s' →
      ∃ t', step' t op = some t' ∧ R s' t')
    {s s' : σ} {t : τ} {ops : List ι} (h : R s t) (hrun : run step s ops = some s') :
    ∃ t', run step' t ops = some t' ∧ R s' t' := by
  induction ops generalizing s t with
  | nil =>
      cases hrun
      exact ⟨t, rfl, h⟩
  | cons op ops ih =>
      obtain ⟨middle, hop, hrest⟩ := run_cons.mp hrun
      obtain ⟨middle', hop', hmiddle⟩ := hstep s t op middle h hop
      obtain ⟨t', hrest', ht'⟩ := ih hmiddle hrest
      exact ⟨t', run_cons.mpr ⟨middle', hop', hrest'⟩, ht'⟩

end

end UnoOS.Lib
