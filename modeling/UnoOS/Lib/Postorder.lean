import UnoOS.Lib.Radix

namespace UnoOS.Lib

namespace Radix

/-! What is under a table, each thing behind what it links. -/

variable {F I : Type}

/-- The things that an entry links come before the table; `true` marks the tables. -/
def postorder (links : F → I → Option F) (indices : List I) :
    (level : Nat) → F → List (F × Bool)
  | 0, t => [(t, false)]
  | level + 1, t =>
      (indices.flatMap fun i => (links t i).elim [] (postorder links indices level)) ++
        [(t, true)]

def OnePath (links : F → I → Option F) (level : Nat) (t : F) : Prop :=
  ∀ p p' : List I, p.length ≤ level → p'.length ≤ level → ∀ f,
    walk links t p = some f → walk links t p' = some f → p = p'

variable {links links' : F → I → Option F} {indices : List I} {level : Nat} {t t' f : F}
  {i : I} {b : Bool}

theorem OnePath.below (h : OnePath links (level + 1) t) (hlink : links t i = some t') :
    OnePath links level t' := by
  intro p p' hp hp' f hwalk hwalk'
  have hcons : ∀ q, walk links t (i :: q) = walk links t' q := by
    intro q
    rw [walk, hlink, Option.bind_some]
  have heq := h (i :: p) (i :: p') (Nat.succ_le_succ hp) (Nat.succ_le_succ hp') f
    ((hcons p).trans hwalk) ((hcons p').trans hwalk')
  exact (List.cons.inj heq).2

theorem walk_of_mem_postorder (hmem : (f, b) ∈ postorder links indices level t) :
    ∃ p : List I, walk links t p = some f ∧
      (b = true ∧ p.length < level ∨ b = false ∧ p.length = level) := by
  induction level generalizing t with
  | zero =>
      rw [postorder, List.mem_singleton] at hmem
      obtain ⟨rfl, rfl⟩ := Prod.mk.inj hmem
      exact ⟨[], rfl, .inr ⟨rfl, rfl⟩⟩
  | succ level ih =>
      rw [postorder, List.mem_append] at hmem
      rcases hmem with hmem | hmem
      · obtain ⟨i, _, hmem⟩ := List.mem_flatMap.mp hmem
        cases hlink : links t i with
        | none =>
            rw [hlink] at hmem
            exact absurd hmem List.not_mem_nil
        | some t' =>
            rw [hlink] at hmem
            obtain ⟨p, hwalk, hlevel⟩ := ih hmem
            refine ⟨i :: p, ?_, ?_⟩
            · rw [walk, hlink, Option.bind_some]
              exact hwalk
            · exact hlevel.imp (And.imp_right Nat.succ_lt_succ)
                (And.imp_right (congrArg Nat.succ))
      · rw [List.mem_singleton] at hmem
        obtain ⟨rfl, rfl⟩ := Prod.mk.inj hmem
        exact ⟨[], rfl, .inl ⟨rfl, Nat.succ_pos level⟩⟩

theorem mem_postorder_of_walk (hall : ∀ i : I, i ∈ indices) {p : List I}
    (hwalk : walk links t p = some f)
    (hp : b = true ∧ p.length < level ∨ b = false ∧ p.length = level) :
    (f, b) ∈ postorder links indices level t := by
  induction level generalizing t p with
  | zero =>
      rcases hp with ⟨_, hp⟩ | ⟨rfl, hp⟩
      · omega
      · rw [List.length_eq_zero_iff] at hp
        subst hp
        cases hwalk
        exact List.mem_singleton_self _
  | succ level ih =>
      rw [postorder, List.mem_append]
      cases p with
      | nil =>
          cases hwalk
          rcases hp with ⟨rfl, _⟩ | ⟨_, hp⟩
          · exact .inr (List.mem_singleton_self _)
          · cases hp
      | cons i p =>
          rw [walk] at hwalk
          obtain ⟨t', hlink, hwalk⟩ := Option.bind_eq_some_iff.mp hwalk
          refine .inl (List.mem_flatMap.mpr ⟨i, hall i, ?_⟩)
          rw [hlink]
          refine ih hwalk (hp.imp (And.imp_right ?_) (And.imp_right ?_))
          · exact Nat.lt_of_succ_lt_succ
          · exact Nat.succ.inj

theorem self_mem_postorder : ∃ b, (t, b) ∈ postorder links indices level t := by
  cases level with
  | zero => exact ⟨false, List.mem_singleton_self _⟩
  | succ level => exact ⟨true, List.mem_append_right _ (List.mem_singleton_self _)⟩

theorem flatMap_split {α β : Type} {g : α → List β} {l : List α} {before after : List β}
    {e : β} (h : l.flatMap g = before ++ e :: after) :
    ∃ a ∈ l, ∃ front back, g a = front ++ e :: back ∧ front ⊆ before := by
  induction l generalizing before with
  | nil =>
      rw [List.flatMap_nil] at h
      exact absurd h.symm (by simp)
  | cons a l ih =>
      rw [List.flatMap_cons, List.append_eq_append_iff] at h
      rcases h with ⟨rest, rfl, hrest⟩ | ⟨rest, hfirst, hrest⟩
      · obtain ⟨a', ha', front, back, hg, hsub⟩ := ih hrest
        exact ⟨a', List.mem_cons_of_mem _ ha', front, back, hg,
          fun x hx => List.mem_append_right _ (hsub hx)⟩
      · cases rest with
        | nil =>
            rw [List.nil_append] at hrest
            have hlater : l.flatMap g = [] ++ e :: after := hrest.symm
            obtain ⟨a', ha', front, back, hg, hsub⟩ := ih hlater
            exact ⟨a', List.mem_cons_of_mem _ ha', front, back, hg,
              fun x hx => absurd (hsub hx) List.not_mem_nil⟩
        | cons e' rest =>
            obtain ⟨rfl, _⟩ := List.cons.inj hrest
            exact ⟨a, List.mem_cons_self, before, rest, hfirst, fun x hx => hx⟩

theorem postorder_before {before after : List (F × Bool)}
    (h : postorder links indices level t = before ++ (f, true) :: after)
    (hi : i ∈ indices) (hlink : links f i = some t') : ∃ b, (t', b) ∈ before := by
  induction level generalizing t before after with
  | zero =>
      cases before with
      | nil => cases h
      | cons first before => simp [postorder] at h
  | succ level ih =>
      have hself : f = t → (indices.flatMap fun i =>
          (links t i).elim [] (postorder links indices level)) ⊆ before →
          ∃ b, (t', b) ∈ before := by
        rintro rfl hsub
        obtain ⟨b, hb⟩ : ∃ b, (t', b) ∈ postorder links indices level t' :=
          self_mem_postorder
        refine ⟨b, hsub (List.mem_flatMap.mpr ⟨i, hi, ?_⟩)⟩
        rw [hlink]
        exact hb
      rw [postorder, List.append_eq_append_iff] at h
      rcases h with ⟨rest, rfl, hrest⟩ | ⟨rest, hfirst, hrest⟩
      · refine hself ?_ (List.subset_append_left _ _)
        cases rest with
        | nil => exact (Prod.mk.inj (List.cons.inj hrest).1).1.symm
        | cons _ rest => simp at hrest
      · cases rest with
        | nil =>
            rw [List.append_nil] at hfirst
            refine hself (Prod.mk.inj (List.cons.inj hrest).1).1 ?_
            rw [hfirst]
            exact List.Subset.refl _
        | cons e rest =>
            obtain ⟨rfl, _⟩ := List.cons.inj hrest
            obtain ⟨j, _, front, back, hg, hsub⟩ := flatMap_split hfirst
            cases hj : links t j with
            | none =>
                rw [hj] at hg
                exact absurd hg.symm (by simp)
            | some q =>
                rw [hj] at hg
                obtain ⟨b, hb⟩ := ih hg
                exact ⟨b, hsub hb⟩

theorem nodup_postorder (h : OnePath links level t) (hindices : indices.Nodup) :
    ((postorder links indices level t).map Prod.fst).Nodup := by
  induction level generalizing t with
  | zero => exact List.nodup_singleton t
  | succ level ih =>
      -- what is behind an entry is on a path that starts with its index
      have hpath : ∀ i f, f ∈ ((links t i).elim []
          (postorder links indices level)).map Prod.fst →
          ∃ p : List I, p.length ≤ level ∧ walk links t (i :: p) = some f := by
        intro i f hf
        cases hlink : links t i with
        | none =>
            rw [hlink] at hf
            exact absurd hf List.not_mem_nil
        | some t' =>
            rw [hlink] at hf
            obtain ⟨⟨f', b⟩, hmem, rfl⟩ := List.mem_map.mp hf
            obtain ⟨p, hwalk, hlevel⟩ := walk_of_mem_postorder hmem
            refine ⟨p, hlevel.elim (fun h => le_of_lt h.2) (fun h => le_of_eq h.2), ?_⟩
            rw [walk, hlink, Option.bind_some]
            exact hwalk
      rw [postorder, List.map_append, List.map_flatMap, List.map_singleton]
      refine List.Nodup.append ?_ (List.nodup_singleton t) ?_
      · rw [List.nodup_flatMap]
        refine ⟨?_, ?_⟩
        · intro i _
          cases hlink : links t i with
          | none => exact List.nodup_nil
          | some t' => exact ih (h.below hlink)
        · refine hindices.imp ?_
          intro i i' hne f hf hf'
          obtain ⟨p, hp, hwalk⟩ := hpath i f hf
          obtain ⟨p', hp', hwalk'⟩ := hpath i' f hf'
          have heq := h (i :: p) (i' :: p') (Nat.succ_le_succ hp)
            (Nat.succ_le_succ hp') f hwalk hwalk'
          exact hne (List.cons.inj heq).1
      · intro f hf hself
        rw [List.mem_singleton] at hself
        subst hself
        obtain ⟨i, _, hf⟩ := List.mem_flatMap.mp hf
        obtain ⟨p, hp, hwalk⟩ := hpath i f hf
        have heq := h (i :: p) [] (Nat.succ_le_succ hp) (Nat.zero_le _) f hwalk rfl
        cases heq

end Radix

end UnoOS.Lib
