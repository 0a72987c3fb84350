import UnoOS.Mem.Unmap

namespace UnoOS.Mem

open UnoOS.Lib

/-! Pages that are given back, frames of user code and pages of tables. -/

def freeAll : List (UInt64 × Bool) → MemM Unit
  | [] => return
  | (page, k) :: rest => do
      pmemFree page k
      freeAll rest

variable {s s' : MemState} {roots : Set UInt64} {lk lk' lu : List UInt64}
  {held : Set UInt64} {root page : UInt64} {value : Unit} {l : List (UInt64 × Bool)}

theorem freeAll_append (l l' : List (UInt64 × Bool)) (s : MemState) :
    freeAll (l ++ l') s = (freeAll l >>= fun _ => freeAll l') s := by
  induction l generalizing s with
  | nil => rfl
  | cons first rest ih =>
      obtain ⟨page, k⟩ := first
      rw [List.cons_append, freeAll, freeAll, Exec.bind_apply, Exec.bind_apply,
        Exec.bind_apply]
      cases pmemFree page k s with
      | error reason => rfl
      | ok result =>
          dsimp only
          rw [ih, Exec.bind_apply]

theorem freeAll_singleton (page : UInt64) (k : Bool) (s : MemState) :
    freeAll [(page, k)] s = pmemFree page k s := by
  rw [freeAll, Exec.bind_apply]
  cases pmemFree page k s with
  | error reason => rfl
  | ok result => rfl

theorem freeAll_samePage (hrun : freeAll l s = .ok (value, s'))
    (haligned : page.toNat % 4096 = 0) (hnot : page ∉ l.map Prod.fst) :
    SamePage page s.mem s'.mem := by
  induction l generalizing s with
  | nil =>
      cases hrun
      exact fun _ _ => rfl
  | cons first rest ih =>
      obtain ⟨page', k⟩ := first
      rw [freeAll, Exec.bind_eq_ok] at hrun
      obtain ⟨_, s₁, hfree, hrest⟩ := hrun
      rw [List.map_cons, List.mem_cons, not_or] at hnot
      have hin := (pmemFree_eq_ok.mp hfree).1
      exact ((pmemFree_onlyPage hfree).samePage hin.aligned haligned hnot.1).trans
        (ih hrest hnot.2)

theorem RegionsApart.free_any {k : Bool} (h : RegionsApart s)
    (hrun : pmemFree page k s = .ok (value, s')) : RegionsApart s' := by
  obtain ⟨_, rfl⟩ := pmemFree_eq_ok.mp hrun
  split
  · cases k with
    | false => exact h.congr rfl rfl fun q => Region.contains_congr rfl rfl
    | true => exact h.congr rfl rfl fun q => Iff.rfl
  · exact h

structure Releases (roots : Set UInt64) (s s' : MemState) : Prop where
  tables : ∀ t, IsTable s.mem roots t → SamePage t s.mem s'.mem
  spares : ∀ r ∈ roots, Spares r s s'

namespace Releases

theorem refl (roots : Set UInt64) (s : MemState) : Releases roots s s :=
  ⟨fun _ _ _ _ => rfl, fun r _ => Spares.refl r s⟩

theorem trans {s'' : MemState} (h : Releases roots s s') (h' : Releases roots s' s'') :
    Releases roots s s'' := by
  refine ⟨?_, fun r hr => (h.spares r hr).trans (h'.spares r hr)⟩
  intro t ht
  exact (h.tables t ht).trans
    (h'.tables t ((isTable_of_samePages h.tables).mpr ht))

end Releases

namespace Frames

/-- A page of the kernel that is no table changes. -/
theorem touch_kern (h : Frames s roots lk lu held) (haligned : page.toNat % 4096 = 0)
    (htable : ¬ IsTable s.mem roots page) (huser : ¬ s.userRegion.Contains page)
    (honly : OnlyPage page s.mem s'.mem) (hregion : s'.userRegion = s.userRegion)
    (hlist : FreeList s' true lk') (hsub : ∀ q ∈ lk', q = page ∨ q ∈ lk) :
    Frames s' roots lk' lu held ∧ Releases roots s s' := by
  have hsame : ∀ t, IsTable s.mem roots t → SamePage t s.mem s'.mem := by
    intro t ht
    refine honly.samePage haligned (IsTable.aligned h.tables ht) ?_
    rintro rfl
    exact htable ht
  have hframe : ∀ r ∈ roots, ∀ va,
      userFrame s'.mem r va = userFrame s.mem r va := by
    intro r hr va
    unfold userFrame
    rw [translate_of_samePages hr hsame]
  have howns : Owns s'.mem roots = Owns s.mem roots := by
    funext place f
    apply propext
    refine and_congr_right fun hr => exists_congr fun va => ?_
    rw [hframe _ hr]
  have hpage : ∀ q, s.userRegion.Contains q → SamePage q s.mem s'.mem := by
    intro q hq
    refine honly.samePage haligned hq.aligned ?_
    rintro rfl
    exact huser hq
  refine ⟨⟨h.tables.of_samePages hsame, ⟨hlist, ?_⟩, ?_, ?_, ?_, ?_, ?_, ?_, ?_⟩,
    hsame, ?_⟩
  · intro q hq htable'
    rw [isTable_of_samePages hsame] at htable'
    rcases hsub q hq with rfl | hq
    · exact htable htable'
    · exact h.kern.fresh q hq htable'
  · exact h.user.congr hregion fun q hq => hpage q (h.user.inRegion q hq)
  · rw [hregion]
    exact h.nonzero
  · intro q hq
    rw [hregion]
    exact h.tables_apart q ((isTable_of_samePages hsame).mp hq)
  · intro q hq
    rw [hregion]
    rcases hsub q hq with rfl | hq
    · exact huser
    · exact h.kern_apart q hq
  · rw [howns, hregion]
    exact h.owned_in
  · rw [hregion]
    exact h.held_in
  · rw [howns]
    exact h.tenancy
  · intro r hr va hva
    exact ⟨hframe r hr va, fun f hf => hpage f (h.userFrame_in hr hva hf)⟩

theorem free_table (h : Frames s roots lk lu held) (hapart : RegionsApart s)
    (htable : ¬ IsTable s.mem roots page) (hnot : page ∉ lk)
    (hrun : pmemFree page true s = .ok (value, s')) :
    ∃ lk', (∀ q ∈ lk', q = page ∨ q ∈ lk) ∧ Frames s' roots lk' lu held ∧
      Releases roots s s' := by
  have honly := pmemFree_onlyPage hrun
  obtain ⟨hin, rfl⟩ := pmemFree_eq_ok.mp hrun
  obtain ⟨hnonzero, huser⟩ := hapart page hin
  by_cases hone : refCnt s.mem page = 1
  · rw [if_pos hone] at honly ⊢
    have hsub : ∀ q ∈ page :: lk, q = page ∨ q ∈ lk := fun q hq => List.mem_cons.mp hq
    exact ⟨page :: lk, hsub, h.touch_kern hin.aligned htable huser honly
      (region_pushed_of_ne (show false ≠ true by decide))
      (h.kern.list.pushed hnot hin hnonzero) hsub⟩
  · rw [if_neg hone] at honly ⊢
    exact ⟨lk, fun q hq => .inr hq, h.touch_kern hin.aligned htable huser honly rfl
      (h.kern.list.counted hnot hin.aligned) fun q hq => .inr hq⟩

/-- Frames that are held go back, and so do pages that are in no table. -/
theorem freeAll (h : Frames s roots lk lu (held ∪ {f | (f, false) ∈ l}))
    (hapart : RegionsApart s) (hheld : ∀ f, (f, false) ∈ l → f ∉ held)
    (htables : ∀ t, (t, true) ∈ l → ¬ IsTable s.mem roots t ∧ t ∉ lk)
    (hnodup : (l.map Prod.fst).Nodup) (hrun : freeAll l s = .ok (value, s')) :
    ∃ lk' lu', Frames s' roots lk' lu' held ∧ RegionsApart s' ∧
      Releases roots s s' := by
  induction l generalizing s lk lu with
  | nil =>
      cases hrun
      exact ⟨lk, lu, h.held_mono Set.subset_union_left, hapart, .refl roots _⟩
  | cons first rest ih =>
      obtain ⟨page, k⟩ := first
      rw [Mem.freeAll, Exec.bind_eq_ok] at hrun
      obtain ⟨_, s₁, hfree, hrest⟩ := hrun
      have hapart₁ := hapart.free_any hfree
      obtain ⟨hnot, hdistinct⟩ := List.nodup_cons.mp hnodup
      have hfresh : ∀ b, (page, b) ∉ rest :=
        fun b hmem => hnot (List.mem_map.mpr ⟨(page, b), hmem, rfl⟩)
      have hsub : held ∪ {f | (f, false) ∈ rest} ⊆
          held ∪ {f | (f, false) ∈ (page, k) :: rest} :=
        Set.union_subset_union_right held fun f hf => List.mem_cons_of_mem _ hf
      have hlater : ∀ f, (f, false) ∈ rest → f ∉ held :=
        fun f hf => hheld f (List.mem_cons_of_mem _ hf)
      cases k with
      | false =>
          obtain ⟨lu₁, h₁, honly, _⟩ := h.free (.inr List.mem_cons_self) hsub (by
            rintro (hmem | hmem)
            · exact hheld page List.mem_cons_self hmem
            · exact hfresh false hmem) hfree
          have hin := h.held_in page (.inr List.mem_cons_self)
          have hreleases : Releases roots s s₁ :=
            ⟨fun t ht => h.touch_table hin honly ht, fun r hr =>
              h.touch_spares hin honly hr fun va hva =>
                h.not_held (.inr List.mem_cons_self) hr hva⟩
          obtain ⟨lk', lu', h', hapart', hreleases'⟩ := ih h₁ hapart₁ hlater (by
            intro t ht
            rw [isTable_of_samePages hreleases.tables]
            exact htables t (List.mem_cons_of_mem _ ht)) hdistinct hrest
          exact ⟨lk', lu', h', hapart', hreleases.trans hreleases'⟩
      | true =>
          obtain ⟨htable, hfree'⟩ := htables page List.mem_cons_self
          obtain ⟨lk₁, hlk, h₁, hreleases⟩ := h.free_table hapart htable hfree' hfree
          obtain ⟨lk', lu', h', hapart', hreleases'⟩ := ih (h₁.held_mono hsub) hapart₁
            hlater (by
              intro t ht
              rw [isTable_of_samePages hreleases.tables]
              obtain ⟨htable', hmem'⟩ := htables t (List.mem_cons_of_mem _ ht)
              refine ⟨htable', ?_⟩
              intro hmem
              rcases hlk t hmem with rfl | hmem
              · exact hfresh true ht
              · exact hmem' hmem) hdistinct hrest
          exact ⟨lk', lu', h', hapart', hreleases.trans hreleases'⟩

end Frames

end UnoOS.Mem
