import UnoOS.Uvm.Bounds
import UnoOS.Uvm.NewImage
import UnoOS.Uvm.Teardown

namespace UnoOS.Uvm

open UnoOS.Lib
open UnoOS.Lib.Exec (Keeps)
open UnoOS.Lib.Radix (walk)
open UnoOS.Mem

/-! `uvm_destroy_pgtbl` among the tables of other processes. -/

variable {s s' : MemState} {m : Memory} {roots : Set UInt64} {lk lu : List UInt64}
  {tfs held : Set UInt64} {root va f : UInt64} {p : List Vpn} {value : Unit}

/-! The paths of a table and its addresses. -/

theorem entryPath_eq_iff {va' : UInt64} (hva : va < vaMax) (hva' : va' < vaMax) :
    entryPath va = entryPath va' ↔ va.toNat / 4096 = va'.toNat / 4096 := by
  rw [← same_vpns_iff hva (UInt64.le_of_lt hva')]
  unfold entryPath
  constructor
  · intro heq
    obtain ⟨hvpns, hvpn⟩ := List.append_inj' heq rfl
    exact ⟨hvpns, List.singleton_inj.mp hvpn⟩
  · rintro ⟨hvpns, hvpn⟩
    rw [hvpns, hvpn]

/-- A path whose first index is in the lower half is that of an address. -/
theorem exists_entryPath {i j k : Vpn} (hi : i.val < 256) :
    ∃ va, va < vaMax ∧ entryPath va = [i, j, k] := by
  have hj := j.isLt
  have hk := k.isLt
  have hval : (UInt64.ofNat (i.val * 2 ^ 30 + j.val * 2 ^ 21 + k.val * 2 ^ 12)).toNat =
      i.val * 2 ^ 30 + j.val * 2 ^ 21 + k.val * 2 ^ 12 :=
    UInt64.toNat_ofNat_of_lt'
      (show i.val * 2 ^ 30 + j.val * 2 ^ 21 + k.val * 2 ^ 12 < 2 ^ 64 by omega)
  refine ⟨UInt64.ofNat (i.val * 2 ^ 30 + j.val * 2 ^ 21 + k.val * 2 ^ 12), ?_, ?_⟩
  · rw [UInt64.lt_iff_toNat_lt, hval, vaMax_toNat]
    omega
  · simp only [entryPath, vpns, List.cons_append, List.nil_append, List.cons.injEq, and_true,
      Fin.ext_iff, vpn_val _ (show 2 ≤ 2 by omega), vpn_val _ (show 1 ≤ 2 by omega),
      vpn_val _ (show 0 ≤ 2 by omega), hval]
    omega

theorem translate_of_walk (h : walk (links m) root (entryPath va) = some f) :
    ∃ pte, Mem.translate m root va = some pte ∧ pteToPa pte = f := by
  unfold entryPath at h
  rw [Radix.walk_concat, Option.bind_eq_some_iff] at h
  obtain ⟨t, hleaf, hlink⟩ := h
  unfold links at hlink
  split at hlink
  · next hvalid =>
    cases hlink
    refine ⟨entry m t (vpn va 0), ?_, rfl⟩
    unfold Mem.translate leafTable validEntry
    rw [hleaf, Option.bind_some, if_pos hvalid]
  · cases hlink

/-- A table without the pages of the kernel maps frames of user code only. -/
structure OnlyUser (m : Memory) (root : UInt64) : Prop where
  upper : NoUpper m root
  user : ∀ va, va < vaMax → ∀ pte, Mem.translate m root va = some pte → pte &&& pteU ≠ 0

theorem OnlyUser.frame (h : OnlyUser m root) (hp : p.length = 3)
    (hwalk : walk (links m) root p = some f) :
    ∃ va, va < vaMax ∧ entryPath va = p ∧ userFrame m root va = some f := by
  obtain ⟨i, j, k, rfl⟩ := List.length_eq_three.mp hp
  have hi : i.val < 256 := by
    by_contra hupper
    rw [Radix.walk, h.upper i (not_lt.mp hupper)] at hwalk
    cases hwalk
  obtain ⟨va, hva, hpath⟩ := exists_entryPath (j := j) (k := k) hi
  rw [← hpath] at hwalk
  obtain ⟨pte, hpte, rfl⟩ := translate_of_walk hwalk
  refine ⟨va, hva, hpath, ?_⟩
  unfold userFrame userEntry
  rw [hpte, Option.bind_some, if_pos (h.user va hva pte hpte)]

theorem OnlyUser.onePath (h : OnlyUser s.mem root) (hframes : Frames s roots lk lu held)
    (hroot : root ∈ roots) : Radix.OnePath (links s.mem) 3 root := by
  have hlong : ∀ q q' : List Vpn, q.length = 3 → q'.length ≤ 3 → ∀ f,
      walk (links s.mem) root q = some f → walk (links s.mem) root q' = some f → q = q' := by
    intro q q' hq hq' f hwalk hwalk'
    obtain ⟨va, hva, rfl, hf⟩ := h.frame hq hwalk
    by_cases hfull : q'.length = 3
    · obtain ⟨va', hva', rfl, hf'⟩ := h.frame hfull hwalk'
      have hplace := hframes.tenancy.exclusive (Frames.owns_of_userFrame hroot hva hf)
        (Frames.owns_of_userFrame hroot hva' hf')
      exact (entryPath_eq_iff hva hva').mpr (Prod.mk.inj hplace).2
    · have htable : IsTable s.mem roots f :=
        ⟨root, hroot, q', by change _ ≤ 2; omega, hwalk'⟩
      exact absurd (hframes.userFrame_in hroot hva hf) (hframes.tables_apart f htable)
  intro q q' hq hq' f hwalk hwalk'
  by_cases hfull : q.length = 3
  · exact hlong q q' hfull hq' f hwalk hwalk'
  · by_cases hfull' : q'.length = 3
    · exact (hlong q' q hfull' hq f hwalk' hwalk).symm
    · exact (hframes.tables.distinct root hroot root hroot q q' (by change _ ≤ 2; omega)
        (by change _ ≤ 2; omega) f hwalk hwalk').2

/-! One table less. -/

/-- The frames of a table are held by the call that takes it away. -/
theorem frames_evict (h : Frames s roots lk lu held) (hroot : root ∈ roots) :
    Frames s (roots \ {root}) lk lu
      (held ∪ {f | ∃ va, va < vaMax ∧ userFrame s.mem root va = some f}) := by
  have hsub : roots \ {root} ⊆ roots := Set.sdiff_subset
  have howns : ∀ place f, Owns s.mem (roots \ {root}) place f →
      Owns s.mem roots place f ∧ ¬ place.1 = root := by
    rintro place f ⟨⟨hmem, hne⟩, hrest⟩
    exact ⟨⟨hmem, hrest⟩, hne⟩
  have hevicted := h.tenancy.evict (fun place => place.1 = root) howns
  have hheld : held ∪ {f | ∃ va, va < vaMax ∧ userFrame s.mem root va = some f} ⊆
      held ∪ {q | ∃ b, b.1 = root ∧ Owns s.mem roots b q} := by
    refine Set.union_subset_union_right held ?_
    rintro f ⟨va, hva, hf⟩
    exact ⟨(root, va.toNat / 4096), rfl, Frames.owns_of_userFrame hroot hva hf⟩
  refine ⟨h.tables.mono hsub, h.kern.mono hsub, h.user, h.nonzero, ?_, h.kern_apart, ?_, ?_,
    hevicted.mono (fun _ _ hb => hb) (fun _ hq => hq) hheld⟩
  · exact fun page htable => h.tables_apart page (htable.mono hsub)
  · exact fun place f hf => h.owned_in place f (howns place f hf).1
  · rintro f (hf | ⟨va, hva, hf⟩)
    · exact h.held_in f hf
    · exact h.userFrame_in hroot hva hf

theorem contains_of_setting (h : setting s' = setting s) (k : Bool) (page : UInt64) :
    (s'.region k).Contains page ↔ (s.region k).Contains page := by
  cases k with
  | false => exact contains_of_bounds (congrArg Prod.fst h) page
  | true =>
      obtain ⟨hbegin, hend⟩ := Prod.mk.inj (Prod.mk.inj h).2
      exact Region.contains_congr hbegin hend

theorem freeAll_total {l : List (UInt64 × Bool)}
    (hin : ∀ page k, (page, k) ∈ l → (s.region k).Contains page) :
    ∃ s', freeAll l s = .ok ((), s') := by
  induction l generalizing s with
  | nil => exact ⟨s, rfl⟩
  | cons first rest ih =>
      obtain ⟨page, k⟩ := first
      obtain ⟨s₁, hfree⟩ : ∃ s₁, pmemFree page k s = .ok ((), s₁) :=
        ⟨_, pmemFree_eq_ok.mpr ⟨hin page k List.mem_cons_self, rfl⟩⟩
      have hsetting := keeps_pmemFree page k _ _ _ hfree
      obtain ⟨s', hrest⟩ := ih fun page' k' hmem =>
        (contains_of_setting hsetting k' page').mpr (hin page' k' (List.mem_cons_of_mem _ hmem))
      exact ⟨s', (Exec.bind_of_ok hfree).trans hrest⟩

theorem keeps_freeAll (l : List (UInt64 × Bool)) : Keeps setting (freeAll l) := by
  induction l with
  | nil => exact .pure_intro _
  | cons first rest ih => exact (keeps_pmemFree _ _).bind fun _ => ih

/-- The entry of a page that user code may not use is cleared. -/
theorem frames_clear (h : Frames s roots lk lu held) (hroot : root ∈ roots) (hva : va < vaMax)
    {t : UInt64} (hleaf : leafTable s.mem root va = some t)
    (hnone : ∀ x, x < vaMax → x.toNat / 4096 = va.toNat / 4096 →
      userFrame s.mem root x = none) :
    Frames (s.setMem (setEntry s.mem t (vpn va 0) 0)) roots lk lu held ∧
      Remapped s (s.setMem (setEntry s.mem t (vpn va 0) 0)) roots lk lk root
        (setPage (Mem.translate s.mem root) va none) ∧
      ∀ r ∈ roots, Spares r s (s.setMem (setEntry s.mem t (vpn va 0) 0)) := by
  have hzero : validEntry 0 = none := rfl
  rw [← hzero]
  refine h.set_entry hroot (UInt64.le_of_lt hva) hleaf ?_
  intro x hx hpage
  rw [hnone x hx hpage]
  rfl

/-- What `uvm_destroy_pgtbl` has done when the two pages of the kernel are unmapped. -/
structure Bared (roots : Set UInt64) (lk lu : List UInt64) (held : Set UInt64)
    (root : UInt64) (s s' : MemState) : Prop where
  frames : Frames s' roots lk lu held
  only : OnlyUser s'.mem root
  setting : setting s' = setting s
  spares : ∀ r ∈ roots, Spares r s s'
  others : ∀ r ∈ roots, r ≠ root → ∀ va, va < vaMax →
    Mem.translate s'.mem r va = Mem.translate s.mem r va
  upper : ∀ r ∈ roots, NoUpper s.mem r → NoUpper s'.mem r
  pages : ∀ f, s.userRegion.Contains f → SamePage f s.mem s'.mem
  tables : KernelTables s roots → KernelTables s' roots

theorem unmapKept_bare {s₁ s₂ : MemState} {value' : Unit} (hframes : Frames s roots lk lu held)
    (hkernel : KernelPages s root tfs) (hroot : root ∈ roots) (hupper : NoUpper s.mem root)
    (hfirst : vmUnmappages root trapframe pgsize false s = .ok (value, s₁))
    (hsecond : vmUnmappages root trampoline pgsize false s₁ = .ok (value', s₂)) :
    Bared roots lk lu held root s s₂ := by
  have htfVa := trapframe_toNat
  have htrVa : trampoline.toNat = 2 ^ 38 - 4096 := rfl
  have hnone : ∀ x, x < vaMax → trapframe.toNat ≤ x.toNat → userFrame s.mem root x = none := by
    intro x hmax hx
    obtain ⟨pte, hpte, huser, _⟩ := hkernel.above x (UInt64.le_iff_toNat_le.mpr hx) hmax
    unfold userFrame userEntry
    rw [hpte, Option.bind_some, if_neg (not_not.mpr huser)]
  obtain ⟨t, hleaf, rfl⟩ := unmapKept_eq_ok (.inl rfl) hfirst
  obtain ⟨hframes₁, hmap₁, hspares₁⟩ := frames_clear hframes hroot (by decide) hleaf
    fun x hx hpage => hnone x hx (by omega)
  have hupper₁ : ∀ r ∈ roots, NoUpper s.mem r → NoUpper _ r := fun r hr =>
    noUpper_setEntry_leaf hframes.tables hroot hleaf (vpn trapframe 0) 0 hr
  obtain ⟨t₂, hleaf₂, rfl⟩ := unmapKept_eq_ok (.inr rfl) hsecond
  obtain ⟨hframes₂, hmap₂, hspares₂⟩ := frames_clear hframes₁ hroot (by decide) hleaf₂
    fun x hx hpage => ((hspares₁ root hroot) x hx).1.trans (hnone x hx (by omega))
  have hupper₂ : ∀ r ∈ roots, NoUpper _ r → NoUpper _ r := fun r hr =>
    noUpper_setEntry_leaf hframes₁.tables hroot hleaf₂ (vpn trampoline 0) 0 hr
  refine ⟨hframes₂, ⟨hupper₂ root hroot (hupper₁ root hroot hupper), ?_⟩, rfl,
    fun r hr => (hspares₁ r hr).trans (hspares₂ r hr), ?_,
    fun r hr hnoUpper => hupper₂ r hr (hupper₁ r hr hnoUpper), ?_,
    fun htables => (htables.added hframes hmap₁.added rfl).added hframes₁ hmap₂.added rfl⟩
  · intro x hx pte hpte
    rw [hmap₂.translate x hx] at hpte
    unfold setPage at hpte
    split at hpte
    · cases hpte
    · next hne₂ =>
      rw [hmap₁.translate x hx] at hpte
      unfold setPage at hpte
      split at hpte
      · cases hpte
      · next hne₁ =>
        have hlt := UInt64.lt_iff_toNat_lt.mp hx
        rw [vaMax_toNat] at hlt
        refine hkernel.below x ?_ pte hpte
        rw [UInt64.lt_iff_toNat_lt]
        omega
  · intro r hr hne x hx
    rw [hmap₂.others r hr hne x hx, hmap₁.others r hr hne x hx]
  · intro f hf
    exact (hframes.remapped_same hmap₁ hf).trans (hframes₁.remapped_same hmap₂ hf)

theorem unmapKept_bared {s₁ s₂ : MemState} {value' : Unit} (h : Spaces s roots lk lu tfs ∅)
    (hroot : root ∈ roots) (hupper : NoUpper s.mem root)
    (hfirst : vmUnmappages root trapframe pgsize false s = .ok (value, s₁))
    (hsecond : vmUnmappages root trampoline pgsize false s₁ = .ok (value', s₂)) :
    Bared roots lk lu tfs root s s₂ := by
  have hframes := h.frames
  rw [Set.union_empty] at hframes
  exact unmapKept_bare hframes (h.kernel root hroot) hroot hupper hfirst hsecond

/-! The pages that the walk gives back. -/

theorem Bared.frame_of_pagesUnder (h : Bared roots lk lu held root s s')
    (hmem : (f, false) ∈ pagesUnder s'.mem 3 root) :
    ∃ va, va < vaMax ∧ userFrame s'.mem root va = some f := by
  obtain ⟨q, hwalk, hq⟩ := Radix.walk_of_mem_postorder hmem
  obtain ⟨va, hva, _, hf⟩ := h.only.frame
    (hq.resolve_left fun hboth => absurd hboth.1 (by decide)).2 hwalk
  exact ⟨va, hva, hf⟩

theorem table_of_pagesUnder {t : UInt64} (hmem : (t, true) ∈ pagesUnder m 3 root) :
    IsTable m {root} t := by
  obtain ⟨q, hwalk, hq⟩ := Radix.walk_of_mem_postorder hmem
  have hlength := (hq.resolve_right fun hboth => absurd hboth.1 (by decide)).2
  exact ⟨root, rfl, q, Nat.le_of_lt_succ hlength, hwalk⟩

/-- The table goes with its frames, and the other tables and all frames that the kernel
holds stay. -/
theorem uvmDestroyPgtbl_frames (h : Frames s roots lk lu held)
    (hkernel : KernelPages s root tfs) (hapart : RegionsApart s) (hroot : root ∈ roots)
    (hupper : NoUpper s.mem root) (hrun : uvmDestroyPgtbl 3 root s = .ok (value, s')) :
    (∃ lk' lu', Frames s' (roots \ {root}) lk' lu' held) ∧ setting s' = setting s ∧
      (∀ r ∈ roots, r ≠ root → Spares r s s') ∧
      (∀ r ∈ roots, r ≠ root → ∀ x, x < vaMax →
        Mem.translate s'.mem r x = Mem.translate s.mem r x) ∧
      KeepsUpper (roots \ {root}) s.mem s'.mem ∧ ∀ f ∈ held, SamePage f s.mem s'.mem := by
  rw [uvmDestroyPgtbl, if_pos rfl, Exec.bind_eq_ok] at hrun
  obtain ⟨_, s₁, hfirst, hrun⟩ := hrun
  rw [Exec.bind_eq_ok] at hrun
  obtain ⟨_, s₂, hsecond, hrun⟩ := hrun
  have hbared := unmapKept_bare h hkernel hroot hupper hfirst hsecond
  have hframes := hbared.frames
  have hone := hbared.only.onePath hframes hroot
  have hfree := (destroyRest_eq_freeAll (hframes.tables.aligned root hroot) hone).symm.trans hrun
  have hevicted := frames_evict hframes hroot
  have hleaf : ∀ f, (f, false) ∈ pagesUnder s₂.mem 3 root →
      ∃ va, va < vaMax ∧ userFrame s₂.mem root va = some f :=
    fun _ => hbared.frame_of_pagesUnder
  have htable : ∀ t, (t, true) ∈ pagesUnder s₂.mem 3 root → IsTable s₂.mem {root} t :=
    fun _ => table_of_pagesUnder
  have hsingle : ({root} : Set UInt64) ⊆ roots := Set.singleton_subset_iff.mpr hroot
  have hframes' : Frames s₂ (roots \ {root}) lk lu
      (held ∪ {f | (f, false) ∈ pagesUnder s₂.mem 3 root}) :=
    hevicted.held_mono (Set.union_subset_union_right held hleaf)
  have hnodup := Radix.nodup_postorder hone (List.nodup_finRange 512)
  obtain ⟨lk', lu', hend, _, hreleases⟩ := hframes'.freeAll
    (regionsApart_of_setting hbared.setting hapart)
    (by
      intro f hmem
      obtain ⟨va, hva, hf⟩ := hleaf f hmem
      exact hframes.tenancy.owned_held (Frames.owns_of_userFrame hroot hva hf))
    (by
      intro t hmem
      have ht := htable t hmem
      refine ⟨?_, fun hfresh => hframes.kern.fresh t hfresh (ht.mono hsingle)⟩
      rintro ⟨r, ⟨hr, hne⟩, q, hq, hwalk⟩
      obtain ⟨r', hr', q', hq', hwalk'⟩ := ht
      cases hr'
      exact hne (hframes.tables.distinct r hr root hroot q q' hq hq' t hwalk hwalk').1)
    hnodup hfree
  have hsetting : setting s' = setting s :=
    (keeps_freeAll _ _ _ _ hfree).trans hbared.setting
  have htranslate : ∀ r ∈ roots, r ≠ root → ∀ x, x < vaMax →
      Mem.translate s'.mem r x = Mem.translate s.mem r x := by
    intro r hr hne x hx
    have hmem : r ∈ roots \ {root} := ⟨hr, hne⟩
    rw [translate_of_samePages hmem hreleases.tables]
    exact hbared.others r hr hne x hx
  refine ⟨⟨lk', lu', hend⟩, hsetting, ?_, htranslate, ⟨?_, ?_⟩, ?_⟩
  · intro r hr hne
    exact (hbared.spares r hr).trans (hreleases.spares r ⟨hr, hne⟩)
  · rintro r ⟨hr, hne⟩ hnoUpper
    exact (hbared.upper r hr hnoUpper).of_samePage
      (hreleases.tables r (isTable_root ⟨hr, hne⟩))
  · rintro r ⟨hr, hne⟩ x _ hx
    exact htranslate r hr hne x hx
  · intro f hf
    have hin := h.held_in f hf
    have hin₂ := hframes.held_in f hf
    have hnot : f ∉ (pagesUnder s₂.mem 3 root).map Prod.fst := by
      intro hmem
      obtain ⟨⟨f', k⟩, hmem, heq⟩ := List.mem_map.mp hmem
      dsimp only at heq
      subst heq
      cases k with
      | false =>
          obtain ⟨va, hva, hf'⟩ := hleaf f' hmem
          exact hframes.tenancy.owned_held (Frames.owns_of_userFrame hroot hva hf') hf
      | true => exact hframes.tables_apart f' ((htable f' hmem).mono hsingle) hin₂
    exact (hbared.pages f hin).trans (freeAll_samePage hfree hin.aligned hnot)

/-- The table goes with its frames, and the other tables and all trap frames stay. -/
theorem uvmDestroyPgtbl_spec (h : Spaces s roots lk lu tfs ∅) (hapart : RegionsApart s)
    (hroot : root ∈ roots) (hupper : NoUpper s.mem root)
    (hrun : uvmDestroyPgtbl 3 root s = .ok (value, s')) :
    (∃ lk' lu', Spaces s' (roots \ {root}) lk' lu' tfs ∅) ∧ setting s' = setting s ∧
      (∀ r ∈ roots, r ≠ root → Spares r s s') ∧
      KeepsUpper (roots \ {root}) s.mem s'.mem ∧ ∀ f ∈ tfs, SamePage f s.mem s'.mem := by
  have hframes := h.frames
  rw [Set.union_empty] at hframes
  obtain ⟨⟨lk', lu', hend⟩, hsetting, hspares, htranslate, hkept, hsame⟩ :=
    uvmDestroyPgtbl_frames hframes (h.kernel root hroot) hapart hroot hupper hrun
  refine ⟨⟨lk', lu', ?_, ?_⟩, hsetting, hspares, hkept, hsame⟩
  · rw [Set.union_empty]
    exact hend
  · rintro r ⟨hr, hne⟩
    exact (h.kernel r hr).congr (fun _ hf => hf)
      (contains_of_bounds (congrArg Prod.fst hsetting)) (htranslate r hr hne)

/-- The walk meets no page that is outside its region. -/
theorem uvmDestroyPgtbl_total (h : Spaces s roots lk lu tfs ∅) (hroot : root ∈ roots)
    (hupper : NoUpper s.mem root) (htables : KernelTables s roots)
    (hleaves : ∀ va, KernelPage va → ∃ pte, MapsLeaf s.mem root va pte) :
    ∃ s', uvmDestroyPgtbl 3 root s = .ok ((), s') := by
  have hnonzero := h.frames.tables.nonzero root hroot
  obtain ⟨ptf, htf⟩ := hleaves trapframe (.inl rfl)
  obtain ⟨ptramp, htramp⟩ := hleaves trampoline (.inr rfl)
  obtain ⟨t, hleaf, hfirst⟩ := unmapKept (.inl rfl) hnonzero htf
  have htramp₁ : MapsLeaf (setEntry s.mem t (vpn trapframe 0) 0) root trampoline ptramp := by
    refine ⟨?_, htramp.2⟩
    rw [translate_setEntry_leaf h.frames.tables hroot (by decide) hleaf 0 hroot (by decide),
      if_neg fun hboth => absurd hboth.2 (by decide)]
    exact htramp.1
  obtain ⟨t₂, _, hsecond⟩ := unmapKept
    (s := s.setMem (setEntry s.mem t (vpn trapframe 0) 0)) (.inr rfl) hnonzero htramp₁
  have hbared := unmapKept_bared h hroot hupper hfirst hsecond
  have hframes := hbared.frames
  have hone := hbared.only.onePath hframes hroot
  rw [uvmDestroyPgtbl, if_pos rfl, Exec.bind_of_ok hfirst, Exec.bind_of_ok hsecond]
  obtain ⟨s', hfree⟩ := freeAll_total (l := pagesUnder _ 3 root) fun page k hmem => by
    cases k with
    | false =>
        obtain ⟨va, hva, hf⟩ := hbared.frame_of_pagesUnder hmem
        exact hframes.userFrame_in hroot hva hf
    | true =>
        exact hbared.tables htables page
          ((table_of_pagesUnder hmem).mono (Set.singleton_subset_iff.mpr hroot))
  exact ⟨s', (destroyRest_eq_freeAll (hframes.tables.aligned root hroot) hone).trans hfree⟩

end UnoOS.Uvm
