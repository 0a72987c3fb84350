import Mathlib

namespace UnoOS.Lib

/-! Resources that are free, held by whoever works on them, or owned by a
place.  Each resource is in one of these states at most, and owned by one place
at most. -/

structure Tenancy {κ ρ : Type} (owns : κ → ρ → Prop) (free held : Set ρ) :
    Prop where
  exclusive : ∀ {a b r}, owns a r → owns b r → a = b
  owned_free : ∀ {a r}, owns a r → r ∉ free
  owned_held : ∀ {a r}, owns a r → r ∉ held
  held_free : ∀ {r}, r ∈ held → r ∉ free

namespace Tenancy

variable {κ ρ : Type} {owns owns' : κ → ρ → Prop} {free free' held held' : Set ρ}
  {a : κ} {r : ρ}

theorem mono (h : Tenancy owns free held) (howns : ∀ b q, owns' b q → owns b q)
    (hfree : free' ⊆ free) (hheld : held' ⊆ held) :
    Tenancy owns' free' held' where
  exclusive := fun hb hc => h.exclusive (howns _ _ hb) (howns _ _ hc)
  owned_free := fun hb hq => h.owned_free (howns _ _ hb) (hfree hq)
  owned_held := fun hb hq => h.owned_held (howns _ _ hb) (hheld hq)
  held_free := fun hq hq' => h.held_free (hheld hq) (hfree hq')

theorem take (h : Tenancy owns free held) (hr : r ∈ free)
    (hfree : free' ⊆ free) (hgone : r ∉ free') :
    Tenancy owns free' (insert r held) where
  exclusive := h.exclusive
  owned_free := fun hb hq => h.owned_free hb (hfree hq)
  owned_held := by
    intro b q hb hq
    rcases Set.mem_insert_iff.mp hq with rfl | hq
    · exact h.owned_free hb hr
    · exact h.owned_held hb hq
  held_free := by
    intro q hq hq'
    rcases Set.mem_insert_iff.mp hq with rfl | hq
    · exact hgone hq'
    · exact h.held_free hq (hfree hq')

/-- Give a held resource to a place; what the place had is dropped. -/
theorem settle (h : Tenancy owns free held) (hr : r ∈ held)
    (howns : ∀ b q, owns' b q → owns b q ∨ (b = a ∧ q = r))
    (hheld : held' ⊆ held) (hgone : r ∉ held') :
    Tenancy owns' free held' where
  exclusive := by
    intro b c q hb hc
    rcases howns b q hb with hb | ⟨rfl, rfl⟩
    · rcases howns c q hc with hc | ⟨rfl, rfl⟩
      · exact h.exclusive hb hc
      · exact absurd hr (h.owned_held hb)
    · rcases howns c q hc with hc | ⟨rfl, _⟩
      · exact absurd hr (h.owned_held hc)
      · rfl
  owned_free := by
    intro b q hb hq
    rcases howns b q hb with hb | ⟨_, rfl⟩
    · exact h.owned_free hb hq
    · exact h.held_free hr hq
  owned_held := by
    intro b q hb hq
    rcases howns b q hb with hb | ⟨_, rfl⟩
    · exact h.owned_held hb (hheld hq)
    · exact hgone hq
  held_free := fun hq hq' => h.held_free (hheld hq) hq'

theorem vacate (h : Tenancy owns free held) (hr : owns a r)
    (howns : ∀ b q, owns' b q → owns b q ∧ b ≠ a) :
    Tenancy owns' free (insert r held) where
  exclusive := fun hb hc => h.exclusive (howns _ _ hb).1 (howns _ _ hc).1
  owned_free := fun hb => h.owned_free (howns _ _ hb).1
  owned_held := by
    intro b q hb hq
    obtain ⟨hb, hne⟩ := howns b q hb
    rcases Set.mem_insert_iff.mp hq with rfl | hq
    · exact hne (h.exclusive hb hr)
    · exact h.owned_held hb hq
  held_free := by
    intro q hq
    rcases Set.mem_insert_iff.mp hq with rfl | hq
    · exact h.owned_free hr
    · exact h.held_free hq

theorem evict (h : Tenancy owns free held) (gone : κ → Prop)
    (howns : ∀ b q, owns' b q → owns b q ∧ ¬ gone b) :
    Tenancy owns' free (held ∪ {q | ∃ b, gone b ∧ owns b q}) where
  exclusive := fun hb hc => h.exclusive (howns _ _ hb).1 (howns _ _ hc).1
  owned_free := fun hb => h.owned_free (howns _ _ hb).1
  owned_held := by
    rintro b q hb (hq | ⟨c, hc, hq⟩)
    · exact h.owned_held (howns b q hb).1 hq
    · rw [h.exclusive hq (howns b q hb).1] at hc
      exact (howns b q hb).2 hc
  held_free := by
    rintro q (hq | ⟨c, _, hq⟩)
    · exact h.held_free hq
    · exact h.owned_free hq

theorem release (h : Tenancy owns free held) (hr : r ∈ held)
    (hheld : held' ⊆ held) (hgone : r ∉ held') :
    Tenancy owns (insert r free) held' where
  exclusive := h.exclusive
  owned_free := by
    intro b q hb hq
    rcases Set.mem_insert_iff.mp hq with rfl | hq
    · exact h.owned_held hb hr
    · exact h.owned_free hb hq
  owned_held := fun hb hq => h.owned_held hb (hheld hq)
  held_free := by
    intro q hq hq'
    rcases Set.mem_insert_iff.mp hq' with rfl | hq'
    · exact hgone hq
    · exact h.held_free (hheld hq) hq'

end Tenancy

end UnoOS.Lib
