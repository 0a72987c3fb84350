import Mathlib

namespace UnoOS.Lib

/-! Radix forests: tables whose entries link further tables, reached from
roots along lists of indices. -/

namespace Radix

variable {F I : Type}

def walk (links : F → I → Option F) : F → List I → Option F
  | t, [] => some t
  | t, i :: path => (links t i).bind fun t' => walk links t' path

def Distinct (links : F → I → Option F) (roots : Set F) (depth : Nat) : Prop :=
  ∀ r ∈ roots, ∀ r' ∈ roots, ∀ p p' : List I, p.length ≤ depth →
    p'.length ≤ depth → ∀ t, walk links r p = some t →
    walk links r' p' = some t → r = r' ∧ p = p'

def Reached (links : F → I → Option F) (roots : Set F) (depth : Nat) (t : F) :
    Prop :=
  ∃ r ∈ roots, ∃ p : List I, p.length ≤ depth ∧ walk links r p = some t

variable {links links' : F → I → Option F} {roots : Set F} {depth : Nat}
  {r t : F} {p : List I} {i : I}

theorem walk_concat (links : F → I → Option F) (r : F) (p : List I) (i : I) :
    walk links r (p ++ [i]) = (walk links r p).bind fun t => links t i := by
  induction p generalizing r with
  | nil =>
      cases h : links r i with
      | none => simp [walk, h]
      | some t => simp [walk, h]
  | cons j p ih =>
      cases h : links r j with
      | none => simp [walk, h]
      | some t => simp [walk, h, ih]

theorem walk_concat_of_some (h : walk links r p = some t) (i : I) :
    walk links r (p ++ [i]) = links t i := by
  rw [walk_concat, h]
  rfl

theorem walk_congr
    (h : ∀ p t i, p.length < depth → walk links r p = some t →
      links' t i = links t i)
    (hp : p.length ≤ depth) : walk links' r p = walk links r p := by
  induction p using List.reverseRecOn with
  | nil => rfl
  | append_singleton p i ih =>
      rw [List.length_append, List.length_singleton] at hp
      rw [walk_concat, walk_concat, ih (by omega)]
      cases hwalk : walk links r p with
      | none => rfl
      | some t => exact h p t i (by omega) hwalk

theorem Distinct.congr (hdistinct : Distinct links roots depth)
    (h : ∀ r ∈ roots, ∀ p : List I, p.length ≤ depth →
      walk links' r p = walk links r p) :
    Distinct links' roots depth := by
  intro r hr r' hr' p p' hp hp' t hwalk hwalk'
  rw [h r hr p hp] at hwalk
  rw [h r' hr' p' hp'] at hwalk'
  exact hdistinct r hr r' hr' p p' hp hp' t hwalk hwalk'

theorem Reached.congr (h : ∀ r ∈ roots, ∀ p : List I, p.length ≤ depth →
      walk links' r p = walk links r p) :
    Reached links' roots depth t ↔ Reached links roots depth t := by
  constructor
  · rintro ⟨r, hr, p, hp, hwalk⟩
    exact ⟨r, hr, p, hp, (h r hr p hp).symm.trans hwalk⟩
  · rintro ⟨r, hr, p, hp, hwalk⟩
    exact ⟨r, hr, p, hp, (h r hr p hp).trans hwalk⟩

/-! Other sets of roots. -/

theorem Distinct.mono {roots' : Set F} (h : Distinct links roots depth)
    (hsub : roots' ⊆ roots) : Distinct links roots' depth :=
  fun r hr r' hr' => h r (hsub hr) r' (hsub hr')

theorem walk_of_bare (hbare : ∀ i, links r i = none)
    (h : walk links r p = some t) : p = [] ∧ t = r := by
  cases p with
  | nil => exact ⟨rfl, (Option.some_inj.mp h).symm⟩
  | cons i p =>
      rw [walk, hbare] at h
      cases h

theorem Distinct.insert (h : Distinct links roots depth)
    (hbare : ∀ i, links t i = none) (hfresh : ¬ Reached links roots depth t) :
    Distinct links (insert t roots) depth := by
  intro r hmem r' hmem' p p' hp hp' t' hwalk hwalk'
  rcases Set.mem_insert_iff.mp hmem with rfl | hr
  · obtain ⟨rfl, rfl⟩ := walk_of_bare hbare hwalk
    rcases Set.mem_insert_iff.mp hmem' with rfl | hr'
    · exact ⟨rfl, (walk_of_bare hbare hwalk').1.symm⟩
    · exact absurd ⟨r', hr', p', hp', hwalk'⟩ hfresh
  · rcases Set.mem_insert_iff.mp hmem' with rfl | hr'
    · obtain ⟨rfl, rfl⟩ := walk_of_bare hbare hwalk'
      exact absurd ⟨r, hr, p, hp, hwalk⟩ hfresh
    · exact h r hr r' hr' p p' hp hp' t' hwalk hwalk'

theorem reached_insert (hbare : ∀ i, links r i = none) :
    Reached links (insert r roots) depth t →
      t = r ∨ Reached links roots depth t := by
  rintro ⟨r', hr', p, hp, hwalk⟩
  rcases Set.mem_insert_iff.mp hr' with rfl | hr'
  · exact .inl (walk_of_bare hbare hwalk).2
  · exact .inr ⟨r', hr', p, hp, hwalk⟩

/-! Linking a fresh empty table at an entry that was empty. -/

structure Linked (links links' : F → I → Option F) (roots : Set F)
    (depth : Nat) (r₀ : F) (p₀ : List I) (t₀ : F) (i₀ : I) (f : F) : Prop where
  root : r₀ ∈ roots
  short : p₀.length < depth
  table : walk links r₀ p₀ = some t₀
  empty : links t₀ i₀ = none
  fresh : ¬ Reached links roots depth f
  entry : links' t₀ i₀ = some f
  bare : ∀ i, links' f i = none
  other : ∀ t i, Reached links roots depth t → t ≠ t₀ ∨ i ≠ i₀ →
    links' t i = links t i

variable {r₀ t₀ f : F} {p₀ : List I} {i₀ : I}

theorem Linked.walk_eq (h : Linked links links' roots depth r₀ p₀ t₀ i₀ f)
    (hdistinct : Distinct links roots depth) (hr : r ∈ roots)
    (hp : p.length ≤ depth + 1) :
    (r = r₀ ∧ p = p₀ ++ [i₀] ∧ walk links' r p = some f) ∨
      (¬ (r = r₀ ∧ p = p₀ ++ [i₀]) ∧ walk links' r p = walk links r p) := by
  induction p using List.reverseRecOn with
  | nil =>
      refine .inr ⟨?_, rfl⟩
      rintro ⟨_, hnil⟩
      simp at hnil
  | append_singleton p i ih =>
      rw [List.length_append, List.length_singleton] at hp
      rw [walk_concat, walk_concat]
      rcases ih (by omega) with ⟨rfl, rfl, hwalk⟩ | ⟨hnot, hwalk⟩
      · -- behind the fresh table there is nothing, as before
        refine .inr ⟨?_, ?_⟩
        · rintro ⟨_, heq⟩
          have hlength := congrArg List.length heq
          simp at hlength
        · rw [hwalk, walk_concat_of_some h.table, h.empty]
          exact h.bare i
      · rw [hwalk]
        cases hold : walk links r p with
        | none =>
            refine .inr ⟨?_, rfl⟩
            rintro ⟨rfl, heq⟩
            obtain ⟨rfl, _⟩ := List.append_inj' heq rfl
            rw [h.table] at hold
            cases hold
        | some t =>
            have hreached : Reached links roots depth t :=
              ⟨r, hr, p, by omega, hold⟩
            by_cases hhere : t = t₀ ∧ i = i₀
            · obtain ⟨rfl, rfl⟩ := hhere
              obtain ⟨rfl, rfl⟩ := hdistinct r hr r₀ h.root p p₀ (by omega)
                (le_of_lt h.short) t hold h.table
              exact .inl ⟨rfl, rfl, h.entry⟩
            · refine .inr ⟨?_, ?_⟩
              · rintro ⟨rfl, heq⟩
                obtain ⟨rfl, hi⟩ := List.append_inj' heq rfl
                rw [h.table] at hold
                cases hold
                exact hhere ⟨rfl, List.singleton_inj.mp hi⟩
              · exact h.other t i hreached (by tauto)

theorem Linked.distinct (h : Linked links links' roots depth r₀ p₀ t₀ i₀ f)
    (hdistinct : Distinct links roots depth) :
    Distinct links' roots depth := by
  intro r hr r' hr' p p' hp hp' t hwalk hwalk'
  rcases h.walk_eq hdistinct hr (Nat.le_succ_of_le hp) with
    ⟨hroot, hpath, hnew⟩ | ⟨_, hold⟩
  · rcases h.walk_eq hdistinct hr' (Nat.le_succ_of_le hp') with
      ⟨hroot', hpath', _⟩ | ⟨_, hold'⟩
    · exact ⟨hroot.trans hroot'.symm, hpath.trans hpath'.symm⟩
    · rw [hnew] at hwalk
      cases hwalk
      exact absurd ⟨r', hr', p', hp', hold'.symm.trans hwalk'⟩ h.fresh
  · rcases h.walk_eq hdistinct hr' (Nat.le_succ_of_le hp') with
      ⟨_, _, hnew'⟩ | ⟨_, hold'⟩
    · rw [hnew'] at hwalk'
      cases hwalk'
      exact absurd ⟨r, hr, p, hp, hold.symm.trans hwalk⟩ h.fresh
    · exact hdistinct r hr r' hr' p p' hp hp' t (hold.symm.trans hwalk)
        (hold'.symm.trans hwalk')

theorem Linked.reached (h : Linked links links' roots depth r₀ p₀ t₀ i₀ f)
    (hdistinct : Distinct links roots depth) (ht : Reached links' roots depth t) :
    t = f ∨ Reached links roots depth t := by
  obtain ⟨r, hr, p, hp, hwalk⟩ := ht
  rcases h.walk_eq hdistinct hr (Nat.le_succ_of_le hp) with
    ⟨_, _, hnew⟩ | ⟨_, hold⟩
  · rw [hnew] at hwalk
    cases hwalk
    exact .inl rfl
  · exact .inr ⟨r, hr, p, hp, hold.symm.trans hwalk⟩

end Radix

end UnoOS.Lib
