import UnoOS.Lib.Exec

namespace UnoOS.Lib.Exec

/-! Loops whose turns go on or end. -/

variable {σ ε α β : Type}

inductive Turn (α β : Type) where
  | next (a : α)
  | ends (b : β)

/-- The loop.  It stops with `out` if it has not ended after so many turns. -/
def loop (turn : α → Exec σ ε (Turn α β)) (out : ε) : Nat → α → Exec σ ε β
  | 0, _ => stop out
  | turns + 1, a => do
      match ← turn a with
      | .next a => loop turn out turns a
      | .ends b => return b

inductive Turns (turn : α → Exec σ ε (Turn α β)) : Nat → α → σ → α → σ → Prop
  | here (a : α) (s : σ) : Turns turn 0 a s a s
  | more {n : Nat} {a a₁ a' : α} {s s₁ s' : σ} (hturn : turn a s = .ok (.next a₁, s₁))
      (hrest : Turns turn n a₁ s₁ a' s') : Turns turn (n + 1) a s a' s'

def Last (turn : α → Exec σ ε (Turn α β)) (a : α) (s : σ) : Prop :=
  ∀ a' s', turn a s ≠ .ok (.next a', s')

section

variable {turn : α → Exec σ ε (Turn α β)} {out : ε} {I : α → Prop} {μ : α → Nat} {n : Nat}
  {a a' : α} {s s' : σ}

theorem Turns.loop_eq (h : Turns turn n a s a' s') (more : Nat) :
    loop turn out (n + more) a s = loop turn out more a' s' := by
  induction h with
  | here a s => rw [Nat.zero_add]
  | more hturn _ ih =>
      rw [Nat.succ_add, loop, bind_of_ok hturn]
      exact ih

theorem Last.loop_eq (h : Last turn a s) (more : Nat) :
    loop turn out (more + 1) a s = loop turn out 1 a s := by
  rw [loop, loop, bind_apply, bind_apply]
  cases hturn : turn a s with
  | error reason => rfl
  | ok result =>
      obtain ⟨turned, s'⟩ := result
      cases turned with
      | next a' => exact absurd hturn (h a' s')
      | ends b => rfl

theorem Turns.le (hstep : ∀ a s a' s', I a → turn a s = .ok (.next a', s') →
    I a' ∧ μ a' < μ a) (ha : I a) (h : Turns turn n a s a' s') : I a' ∧ μ a' + n ≤ μ a := by
  induction h with
  | here a s => exact ⟨ha, le_refl _⟩
  | more hturn _ ih =>
      obtain ⟨ha₁, hless⟩ := hstep _ _ _ _ ha hturn
      obtain ⟨ha', hle⟩ := ih ha₁
      exact ⟨ha', by omega⟩

theorem exists_last (hstep : ∀ a s a' s', I a → turn a s = .ok (.next a', s') →
    I a' ∧ μ a' < μ a) (ha : I a) (s : σ) :
    ∃ n a' s', Turns turn n a s a' s' ∧ Last turn a' s' := by
  induction hμ : μ a using Nat.strong_induction_on generalizing a s with
  | _ m ih =>
      subst hμ
      by_cases hlast : Last turn a s
      · exact ⟨0, a, s, .here a s, hlast⟩
      · unfold Last at hlast
        push Not at hlast
        obtain ⟨a₁, s₁, hturn⟩ := hlast
        obtain ⟨ha₁, hless⟩ := hstep _ _ _ _ ha hturn
        obtain ⟨n, a', s', hturns, hlast'⟩ := ih (μ a₁) hless ha₁ s₁ rfl
        exact ⟨n + 1, a', s', .more hturn hturns, hlast'⟩

theorem loop_eq_last (hturns : Turns turn n a s a' s') (hlast : Last turn a' s') {turns : Nat}
    (hmore : n < turns) : loop turn out turns a s = loop turn out 1 a' s' := by
  obtain ⟨more, rfl⟩ := Nat.exists_eq_add_of_lt hmore
  rw [Nat.add_assoc, hturns.loop_eq, hlast.loop_eq]

end

theorem StopsWith.mono {reasons reasons' : ε → Prop} {m : Exec σ ε α}
    (h : StopsWith reasons m) (hreasons : ∀ reason, reasons reason → reasons' reason) :
    StopsWith reasons' m :=
  fun s reason hrun => hreasons reason (h s reason hrun)

/-- Two computations that go on in the same way wherever the first one returns. -/
theorem bind_congr_of_ok {m : Exec σ ε α} {f g : α → Exec σ ε β} {s : σ}
    (h : ∀ value s', m s = .ok (value, s') → f value s' = g value s') :
    (m >>= f) s = (m >>= g) s := by
  rw [bind_apply, bind_apply]
  cases hm : m s with
  | error reason => rfl
  | ok result => exact h result.1 result.2 hm

end UnoOS.Lib.Exec
