import Mathlib

namespace UnoOS.Lib

/-! The first entry of a table with a property. -/

variable {n : Nat} {p : Fin n → Prop} {i j : Fin n}

def First (p : Fin n → Prop) (i : Fin n) : Prop := p i ∧ ∀ j < i, ¬ p j

instance [DecidablePred p] (i : Fin n) : Decidable (First p i) :=
  inferInstanceAs (Decidable (_ ∧ _))

theorem First.unique (hi : First p i) (hj : First p j) : i = j := by
  rcases lt_trichotomy i j with hlt | heq | hlt
  · exact absurd hi.1 (hj.2 i hlt)
  · exact heq
  · exact absurd hj.1 (hi.2 j hlt)

theorem find?_eq_some_iff_first [DecidablePred p] :
    (List.finRange n).find? (fun i => p i) = some i ↔ First p i := by
  rw [← Fin.find?_eq_find?_finRange, Fin.find?_eq_some_iff]
  simp [First]

theorem find?_eq_none_iff_forall [DecidablePred p] :
    (List.finRange n).find? (fun i => p i) = none ↔ ∀ i, ¬ p i := by
  simp [List.find?_eq_none]

/-! The first entry with the greatest key, found by a scan that keeps the best
entry so far. -/

section

variable {α : Type} [LinearOrder α] {key : Fin n → α} {k : Nat} {q : Fin n}

/-- Of the entries below `k` with the property, `q` is the first one with the
greatest key. -/
structure Leads (p : Fin n → Prop) (key : Fin n → α) (k : Nat) (q : Fin n) : Prop where
  eligible : p q
  below : q.val < k
  greatest : ∀ j, p j → j.val < k → key j ≤ key q
  first : ∀ j < q, p j → key j < key q

theorem Leads.skip (h : Leads p key k q)
    (hskip : ∀ j : Fin n, j.val = k → p j → key j ≤ key q) : Leads p key (k + 1) q := by
  refine ⟨h.eligible, Nat.lt_succ_of_lt h.below, ?_, h.first⟩
  intro j hj hlt
  rcases Nat.lt_succ_iff_lt_or_eq.mp hlt with hlt | heq
  · exact h.greatest j hj hlt
  · exact hskip j heq hj

theorem leads_of_above (hi : p i) (habove : ∀ j < i, p j → key j < key i) :
    Leads p key (i.val + 1) i := by
  refine ⟨hi, Nat.lt_succ_self _, ?_, habove⟩
  intro j hj hlt
  rcases Nat.lt_succ_iff_lt_or_eq.mp hlt with hlt | heq
  · exact (habove j hlt hj).le
  · rw [Fin.ext heq]

theorem Leads.take (h : Leads p key i q) (hi : p i) (hgt : key q < key i) :
    Leads p key (i.val + 1) i := by
  apply leads_of_above hi
  intro j hlt hj
  exact (h.greatest j hj hlt).trans_lt hgt

end

end UnoOS.Lib
