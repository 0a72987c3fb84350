import Mathlib

namespace UnoOS.Lib

/-! Values handed out to places, each to one place.  Zero marks a place without
a value. -/

variable {κ ν : Type} [Zero ν]

/-- No value stands at two places. -/
def Exclusive (value : κ → ν) : Prop :=
  ∀ a b, value a = value b → value a ≠ 0 → a = b

/-- Every place of the first has its value in the second. -/
def Within (value value' : κ → ν) : Prop :=
  ∀ a, value a ≠ 0 → value' a = value a

theorem Within.refl (value : κ → ν) : Within value value := fun _ _ => rfl

theorem Within.trans {value value' value'' : κ → ν} (h : Within value value')
    (h' : Within value' value'') : Within value value'' := by
  intro a ha
  have hsame := h a ha
  rw [h' a (hsame ▸ ha), hsame]

theorem Within.exclusive {value value' : κ → ν} (h : Within value value')
    (hexclusive : Exclusive value') : Exclusive value := by
  intro a b heq hne
  refine hexclusive a b ?_ ?_
  · rw [h a hne, h b (heq ▸ hne), heq]
  · rwa [h a hne]

variable [DecidableEq κ]

theorem Exclusive.update {value : κ → ν} (h : Exclusive value) {place : κ}
    {fresh : ν} (hfresh : ∀ a, value a ≠ fresh) :
    Exclusive (Function.update value place fresh) := by
  intro a b heq hne
  by_cases ha : a = place <;> by_cases hb : b = place
  · rw [ha, hb]
  · simp only [ha, Function.update_self, Function.update_of_ne hb] at heq
    exact absurd heq.symm (hfresh b)
  · simp only [hb, Function.update_self, Function.update_of_ne ha] at heq
    exact absurd heq (hfresh a)
  · simp only [Function.update_of_ne ha, Function.update_of_ne hb] at heq hne
    exact h a b heq hne

theorem Within.update {value : κ → ν} {place : κ} (hplace : value place = 0)
    (fresh : ν) : Within value (Function.update value place fresh) := by
  intro a ha
  have hne : a ≠ place := by
    rintro rfl
    exact ha hplace
  rw [Function.update_of_ne hne]

end UnoOS.Lib
