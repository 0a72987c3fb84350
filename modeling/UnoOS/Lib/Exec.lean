import Mathlib

namespace UnoOS.Lib

/-! Stateful computations that either return or stop, and partial-correctness
triples for them.  A computation that stops satisfies every triple: a stopped
machine has no next state. -/

abbrev Exec (σ ε : Type) := StateT σ (Except ε)

namespace Exec

variable {σ ε α β : Type}

def stop (reason : ε) : Exec σ ε α := fun _ => .error reason

/-- Go on only if the condition holds. -/
def require (condition : Prop) [Decidable condition] (reason : ε) :
    Exec σ ε Unit :=
  if condition then pure () else stop reason

theorem pure_apply (value : α) (s : σ) :
    (pure value : Exec σ ε α) s = .ok (value, s) := rfl

theorem bind_apply (m : Exec σ ε α) (f : α → Exec σ ε β) (s : σ) :
    (m >>= f) s =
      match m s with
      | .ok (value, s') => f value s'
      | .error reason => .error reason := by
  change (m s >>= fun result => f result.1 result.2) = _
  cases m s <;> rfl

theorem bind_of_ok {m : Exec σ ε α} {f : α → Exec σ ε β} {s s' : σ}
    {value : α} (hm : m s = .ok (value, s')) : (m >>= f) s = f value s' := by
  rw [bind_apply, hm]

theorem bind_eq_ok {m : Exec σ ε α} {f : α → Exec σ ε β} {s final : σ}
    {result : β} :
    (m >>= f) s = .ok (result, final) ↔
      ∃ value s', m s = .ok (value, s') ∧ f value s' = .ok (result, final) := by
  rw [bind_apply]
  constructor
  · intro h
    cases hm : m s with
    | error reason => simp [hm] at h
    | ok pair => exact ⟨pair.1, pair.2, rfl, by simpa [hm] using h⟩
  · rintro ⟨value, s', hm, hf⟩
    rw [hm]
    exact hf

theorem bind_eq_error {m : Exec σ ε α} {f : α → Exec σ ε β} {s : σ}
    {reason : ε} :
    (m >>= f) s = .error reason ↔
      m s = .error reason ∨
        ∃ value s', m s = .ok (value, s') ∧ f value s' = .error reason := by
  rw [bind_apply]
  cases hm : m s with
  | error reason' => simp
  | ok pair =>
      constructor
      · intro h
        exact .inr ⟨pair.1, pair.2, rfl, h⟩
      · intro h
        rcases h with h | ⟨value, s', hpair, hf⟩
        · cases h
        · cases hpair
          exact hf

theorem require_of_true {condition : Prop} [Decidable condition]
    {reason : ε} (h : condition) :
    (require condition reason : Exec σ ε Unit) = pure () :=
  if_pos h

theorem require_eq_ok {condition : Prop} [Decidable condition] {reason : ε}
    {s s' : σ} {value : Unit} :
    (require condition reason : Exec σ ε Unit) s = .ok (value, s') ↔
      condition ∧ s' = s := by
  unfold require
  by_cases h : condition
  · simp only [h, if_true, pure_apply, true_and]
    constructor
    · intro heq
      cases heq
      rfl
    · rintro rfl
      rfl
  · simp [h, stop]

theorem require_bind_eq_ok {condition : Prop} [Decidable condition]
    {reason : ε} {f : Unit → Exec σ ε β} {s : σ} {result : β × σ} :
    (require condition reason >>= f) s = .ok result ↔
      condition ∧ f () s = .ok result := by
  unfold require
  by_cases h : condition
  · simp only [h, if_true, true_and]
    rfl
  · simp only [h, if_false, false_and, iff_false]
    exact fun heq => by cases heq

/-- Whenever `m` returns, what `view` shows of the state is as before. -/
def Keeps {τ : Type} (view : σ → τ) (m : Exec σ ε α) : Prop :=
  ∀ s value s', m s = .ok (value, s') → view s' = view s

namespace Keeps

variable {τ : Type} {view : σ → τ} {m m' : Exec σ ε α}

theorem pure_intro (value : α) :
    Keeps view (pure value : Exec σ ε α) := by
  intro s result s' hrun
  cases hrun
  rfl

theorem bind {f : α → Exec σ ε β} (hm : Keeps view m)
    (hf : ∀ value, Keeps view (f value)) : Keeps view (m >>= f) := by
  intro s result final hrun
  obtain ⟨value, s', hfirst, hrest⟩ := bind_eq_ok.mp hrun
  rw [hf value s' result final hrest, hm s value s' hfirst]

theorem ite {condition : Prop} [Decidable condition]
    (hthen : Keeps view m) (helse : Keeps view m') :
    Keeps view (if condition then m else m') := by
  by_cases h : condition
  · rwa [if_pos h]
  · rwa [if_neg h]

theorem stop_intro (reason : ε) : Keeps view (stop reason : Exec σ ε α) := by
  intro s value s' hrun
  cases hrun

theorem require_intro (condition : Prop) [Decidable condition] (reason : ε) :
    Keeps view (require condition reason : Exec σ ε Unit) := by
  intro s value s' hrun
  rw [(require_eq_ok.mp hrun).2]

theorem get_intro : Keeps view (get : Exec σ ε σ) := by
  intro s value s' hrun
  cases hrun
  rfl

theorem modify_intro {update : σ → σ} (h : ∀ s, view (update s) = view s) :
    Keeps view (modify update : Exec σ ε Unit) := by
  intro s value s' hrun
  cases hrun
  exact h s

end Keeps

/-- Whenever `m` stops, it stops for one of the given reasons. -/
def StopsWith (reasons : ε → Prop) (m : Exec σ ε α) : Prop :=
  ∀ s reason, m s = .error reason → reasons reason

namespace StopsWith

variable {reasons : ε → Prop} {m m' : Exec σ ε α}

theorem pure_intro (value : α) :
    StopsWith reasons (pure value : Exec σ ε α) := by
  intro s reason hrun
  cases hrun

theorem bind {f : α → Exec σ ε β} (hm : StopsWith reasons m)
    (hf : ∀ value, StopsWith reasons (f value)) :
    StopsWith reasons (m >>= f) := by
  intro s reason hrun
  rcases bind_eq_error.mp hrun with hfirst | ⟨value, s', _, hrest⟩
  · exact hm s reason hfirst
  · exact hf value s' reason hrest

theorem ite {condition : Prop} [Decidable condition]
    (hthen : StopsWith reasons m) (helse : StopsWith reasons m') :
    StopsWith reasons (if condition then m else m') := by
  by_cases h : condition
  · rwa [if_pos h]
  · rwa [if_neg h]

theorem stop_intro {reason : ε} (h : reasons reason) :
    StopsWith reasons (stop reason : Exec σ ε α) := by
  intro s reason' hrun
  cases hrun
  exact h

theorem require_intro {condition : Prop} [Decidable condition] {reason : ε}
    (h : reasons reason) :
    StopsWith reasons (require condition reason : Exec σ ε Unit) :=
  ite (pure_intro ()) (stop_intro h)

theorem get_intro : StopsWith reasons (get : Exec σ ε σ) := by
  intro s reason hrun
  cases hrun

theorem modify_intro (update : σ → σ) :
    StopsWith reasons (modify update : Exec σ ε Unit) := by
  intro s reason hrun
  cases hrun

end StopsWith

end Exec

end UnoOS.Lib
