import UnoOS.Lib.Exec

namespace UnoOS.Lib.Exec

/-! Computations that return, unless they stop for one of some given reasons. -/

variable {σ ε α β : Type}

theorem bind_congr {m m' : Exec σ ε α} {f : α → Exec σ ε β} {s : σ} (h : m s = m' s) :
    (m >>= f) s = (m' >>= f) s := by
  rw [bind_apply, bind_apply, h]

/-- From `s`, `m` returns with `Q` or stops for one of the reasons. -/
def Returns (reasons : ε → Prop) (m : Exec σ ε α) (s : σ) (Q : α → σ → Prop) : Prop :=
  match m s with
  | .ok (value, s') => Q value s'
  | .error reason => reasons reason

namespace Returns

variable {reasons : ε → Prop} {m m' : Exec σ ε α} {f : α → Exec σ ε β} {s s' : σ}
  {value : α} {reason : ε} {Q Q' : α → σ → Prop} {R : β → σ → Prop}

theorem intro (hstops : ∀ reason, m s = .error reason → reasons reason)
    (hreturns : ∀ value s', m s = .ok (value, s') → Q value s') : Returns reasons m s Q := by
  unfold Returns
  cases hm : m s with
  | error reason => exact hstops reason hm
  | ok result => exact hreturns result.1 result.2 hm

theorem of_ok (hm : m s = .ok (value, s')) (h : Q value s') : Returns reasons m s Q := by
  unfold Returns
  rw [hm]
  exact h

theorem congr (heq : m s = m' s') (h : Returns reasons m' s' Q) : Returns reasons m s Q := by
  unfold Returns
  rw [heq]
  exact h

theorem stops (h : Returns reasons m s Q) (hm : m s = .error reason) : reasons reason := by
  unfold Returns at h
  rwa [hm] at h

theorem returns (h : Returns reasons m s Q) (hm : m s = .ok (value, s')) : Q value s' := by
  unfold Returns at h
  rwa [hm] at h

/-- What is known of the result may use that it is the result. -/
theorem run (h : Returns reasons m s Q) :
    Returns reasons m s fun value s' => m s = .ok (value, s') ∧ Q value s' :=
  intro (fun _ hm => h.stops hm) fun _ _ hm => ⟨hm, h.returns hm⟩

theorem mono (h : Returns reasons m s Q) (hQ : ∀ value s', Q value s' → Q' value s') :
    Returns reasons m s Q' :=
  intro (fun _ hm => h.stops hm) fun value s' hm => hQ value s' (h.returns hm)

theorem bind (h : Returns reasons m s Q)
    (hf : ∀ value s', Q value s' → Returns reasons (f value) s' R) :
    Returns reasons (m >>= f) s R := by
  refine intro (fun reason hrun => ?_) fun result final hrun => ?_
  · rcases bind_eq_error.mp hrun with hm | ⟨value, s', hm, hrest⟩
    · exact h.stops hm
    · exact (hf value s' (h.returns hm)).stops hrest
  · obtain ⟨value, s', hm, hrest⟩ := bind_eq_ok.mp hrun
    exact (hf value s' (h.returns hm)).returns hrest

theorem bind_of_ok (hm : m s = .ok (value, s')) (h : Returns reasons (f value) s' R) :
    Returns reasons (m >>= f) s R := by
  unfold Returns
  rw [Exec.bind_of_ok hm]
  exact h

theorem exists_ok (h : Returns reasons m s Q)
    (hnone : ∀ reason, m s = .error reason → ¬ reasons reason) :
    ∃ value s', m s = .ok (value, s') ∧ Q value s' := by
  cases hm : m s with
  | error reason => exact absurd (h.stops hm) (hnone reason hm)
  | ok result => exact ⟨result.1, result.2, rfl, h.returns hm⟩

end Returns

end UnoOS.Lib.Exec
