import UnoOS.Mem.UpperHalf

namespace UnoOS.Mem

open UnoOS.Lib

/-! Page tables of processes: below the trap frame the pages of user code, from
there on two pages of the kernel. -/

/-- `tfs` are the frames in which the kernel keeps trap frames. -/
structure KernelPages (s : MemState) (root : UInt64) (tfs : Set UInt64) : Prop where
  below : ∀ va, va < trapframe → ∀ pte, translate s.mem root va = some pte →
    pte &&& pteU ≠ 0
  above : ∀ va, trapframe ≤ va → va < vaMax → ∃ pte,
    translate s.mem root va = some pte ∧ pte &&& pteU = 0 ∧ pte &&& pteCow = 0 ∧
      (pteToPa pte ∈ tfs ∨ ¬ s.userRegion.Contains (pteToPa pte))

/-- The tables of processes; `extra` are frames that a call holds on its way. -/
structure Spaces (s : MemState) (roots : Set UInt64) (lk lu : List UInt64)
    (tfs extra : Set UInt64) : Prop where
  frames : Frames s roots lk lu (tfs ∪ extra)
  kernel : ∀ root ∈ roots, KernelPages s root tfs

variable {s s' : MemState} {roots : Set UInt64} {lk lu : List UInt64}
  {tfs tfs' extra extra' : Set UInt64} {root page va : UInt64}

theorem trapframe_toNat : trapframe.toNat = 2 ^ 38 - 8192 := rfl

theorem vaMax_toNat : vaMax.toNat = 2 ^ 38 := rfl

theorem lt_vaMax_of_lt (h : va < trapframe) : va < vaMax := by
  rw [UInt64.lt_iff_toNat_lt, trapframe_toNat] at h
  rw [UInt64.lt_iff_toNat_lt, vaMax_toNat]
  omega

theorem KernelPages.congr (h : KernelPages s root tfs) (htfs : tfs ⊆ tfs')
    (hbounds : ∀ q, s'.userRegion.Contains q ↔ s.userRegion.Contains q)
    (htranslate : ∀ va, va < vaMax →
      translate s'.mem root va = translate s.mem root va) :
    KernelPages s' root tfs' := by
  refine ⟨?_, ?_⟩
  · intro va hva pte hpte
    rw [htranslate va (lt_vaMax_of_lt hva)] at hpte
    exact h.below va hva pte hpte
  · intro va hva hmax
    obtain ⟨pte, hpte, huser, hcow, hframe⟩ := h.above va hva hmax
    refine ⟨pte, (htranslate va hmax).trans hpte, huser, hcow, ?_⟩
    rw [hbounds]
    exact hframe.imp (fun hmem => htfs hmem) id

theorem KernelPages.of_upper (h : KernelPages s root tfs)
    (hbelow : ∀ va, va < trapframe → ∀ pte, translate s'.mem root va = some pte →
      pte &&& pteU ≠ 0)
    (hbounds : ∀ q, s'.userRegion.Contains q ↔ s.userRegion.Contains q)
    (hkernel : ∀ va, trapframe ≤ va → va < vaMax →
      translate s'.mem root va = translate s.mem root va) :
    KernelPages s' root tfs := by
  refine ⟨hbelow, ?_⟩
  intro va hva hmax
  obtain ⟨pte, hpte, huser, hcow, hframe⟩ := h.above va hva hmax
  refine ⟨pte, (hkernel va hva hmax).trans hpte, huser, hcow, ?_⟩
  rw [hbounds]
  exact hframe

theorem KernelPages.setPage {lk' : List UInt64} {value : Option UInt64}
    (h : KernelPages s root tfs)
    (hmap : Remapped s s' roots lk lk' root
      (setPage (translate s.mem root) va value))
    (hva : va < trapframe) (hvalue : ∀ pte, value = some pte → pte &&& pteU ≠ 0) :
    KernelPages s' root tfs := by
  have htf := trapframe_toNat
  rw [UInt64.lt_iff_toNat_lt] at hva
  refine ⟨?_, ?_⟩
  · intro x hx pte hpte
    rw [hmap.translate x (lt_vaMax_of_lt hx)] at hpte
    unfold Mem.setPage at hpte
    split at hpte
    · exact hvalue pte hpte
    · exact h.below x hx pte hpte
  · intro x hx hmax
    obtain ⟨pte, hpte, huser, hcow, hframe⟩ := h.above x hx hmax
    refine ⟨pte, ?_, huser, hcow, ?_⟩
    · rw [hmap.translate x hmax]
      unfold Mem.setPage
      rw [UInt64.le_iff_toNat_le] at hx
      rw [if_neg (by omega)]
      exact hpte
    · rw [hmap.userRegion]
      exact hframe

/-- The kernel pages of a table are not overwritten by another frame. -/
theorem KernelPages.map_below (h : KernelPages s root tfs)
    (htranslate : ∀ va, va < vaMax →
      translate s'.mem root va = translate s.mem root va)
    {held : Set UInt64} (hframes : Frames s' roots lk lu held)
    (hroot : root ∈ roots) (hpage : s.userRegion.Contains page) (hnot : page ∉ tfs)
    {s'' : MemState} {perm : UInt64} {value : Unit}
    (hrun : vmMappages root va page pgsize perm s' = .ok (value, s'')) :
    va < trapframe := by
  obtain ⟨_, _, hroom, _⟩ := Frames.mapPage_guard hrun
  by_contra hge
  rw [UInt64.not_lt] at hge
  have hmax : va < vaMax := by
    rw [UInt64.lt_iff_toNat_lt, vaMax_toNat]
    omega
  obtain ⟨pte, hpte, _, _, hframe⟩ := h.above va hge hmax
  rw [← htranslate va hmax] at hpte
  rw [hframes.mapPage_check hroot hrun hpte] at hframe
  rcases hframe with hframe | hframe
  · exact hnot hframe
  · exact hframe hpage

namespace Spaces

theorem kernel_congr (h : Spaces s roots lk lu tfs extra) (htfs : tfs ⊆ tfs')
    (hbounds : ∀ q, s'.userRegion.Contains q ↔ s.userRegion.Contains q)
    (htables : ∀ t, IsTable s.mem roots t → SamePage t s.mem s'.mem) :
    ∀ root ∈ roots, KernelPages s' root tfs' := by
  intro root hroot
  refine (h.kernel root hroot).congr htfs hbounds ?_
  intro va _
  exact translate_of_samePages hroot htables va

theorem alloc (h : Spaces s roots lk lu tfs extra)
    (hrun : pmemAlloc false s = .ok (page, s')) :
    ∃ rest, page ∉ tfs ∪ extra ∧
      Spaces s' roots lk rest tfs (insert page extra) ∧
      (∀ x, InPage page x → s'.mem x = 0) ∧ OnlyPage page s.mem s'.mem ∧
      (∀ t, IsTable s.mem roots t → SamePage t s.mem s'.mem) ∧
      ∀ root ∈ roots, Spares root s s' := by
  obtain ⟨rest, hmem, hframes, hzero, honly, hbounds, hspares⟩ :=
    h.frames.alloc hrun
  have hin := h.frames.user.inRegion page hmem
  have htables : ∀ t, IsTable s.mem roots t → SamePage t s.mem s'.mem :=
    fun t ht => h.frames.touch_table hin honly ht
  refine ⟨rest, ?_, ⟨?_, h.kernel_congr (fun _ hq => hq) hbounds htables⟩, hzero,
    honly, htables, hspares⟩
  · intro hheld
    exact h.frames.tenancy.held_free hheld hmem
  · rw [Set.union_insert]
    exact hframes

/-- A write to a frame that the call holds or keeps a trap frame in. -/
theorem write_held (h : Spaces s roots lk lu tfs extra) {m : Memory}
    (hpage : page ∈ tfs ∪ extra) (honly : OnlyPage page s.mem m) :
    Spaces (s.setMem m) roots lk lu tfs extra ∧
      (∀ t, IsTable s.mem roots t → SamePage t s.mem m) ∧
      ∀ root ∈ roots, Spares root s (s.setMem m) := by
  obtain ⟨hframes, hspares⟩ := h.frames.write_held hpage honly
  have honly' : OnlyPage page s.mem (s.setMem m).mem := honly
  have htables : ∀ t, IsTable s.mem roots t → SamePage t s.mem m :=
    fun t ht => h.frames.touch_table (h.frames.held_in page hpage) honly' ht
  exact ⟨⟨hframes, h.kernel_congr (fun _ hq => hq) (fun _ => Iff.rfl) htables⟩,
    htables, hspares⟩

/-- A write to a frame of user code, which the other tables do not notice. -/
theorem write_user (h : Spaces s roots lk lu tfs extra) {m : Memory}
    (hroot : root ∈ roots) (hva : va < vaMax)
    (hpage : userFrame s.mem root va = some page)
    (honly : OnlyPage page s.mem m) :
    Spaces (s.setMem m) roots lk lu tfs extra ∧
      (∀ r ∈ roots, r ≠ root → Spares r s (s.setMem m)) ∧
      KeepsUpper roots s.mem m := by
  have honly' : OnlyPage page s.mem (s.setMem m).mem := honly
  have hin := h.frames.userFrame_in hroot hva hpage
  have howns := Frames.owns_of_userFrame hroot hva hpage
  have hframes := h.frames.write hin (h.frames.tenancy.owned_free howns) honly
  have htables : ∀ t, IsTable s.mem roots t → SamePage t s.mem m :=
    fun t ht => h.frames.touch_table hin honly' ht
  refine ⟨⟨hframes, h.kernel_congr (fun _ hq => hq) (fun _ => Iff.rfl) htables⟩, ?_,
    .of_samePages htables⟩
  · intro r hr hne
    refine h.frames.touch_spares hin honly hr ?_
    intro x hx hf
    have hplace := h.frames.tenancy.exclusive
      (Frames.owns_of_userFrame hr hx hf) howns
    exact hne (Prod.mk.inj hplace).1

theorem map (h : Spaces s roots lk lu tfs extra) (hroot : root ∈ roots)
    (hpage : page ∈ extra) (hnot : page ∉ tfs) (hsub : extra' ⊆ extra)
    (hgone : page ∉ extra') {perm : UInt64} {value : Unit}
    (hperm : perm.toNat < 1024) (huser : perm &&& pteU ≠ 0)
    (hrun : vmMappages root va page pgsize perm s = .ok (value, s')) :
    ∃ lk', Spaces s' roots lk' lu tfs extra' ∧
      (∀ x, x < vaMax → translate s'.mem root x =
        setPage (translate s.mem root) va
          (some (paToPte page ||| perm ||| pteV)) x) ∧
      (∀ x, x < vaMax → userFrame s'.mem root x =
        if x.toNat / 4096 = va.toNat / 4096 then some page
        else userFrame s.mem root x) ∧
      (∀ f, s.userRegion.Contains f → SamePage f s.mem s'.mem) ∧
      s'.userRegion = s.userRegion ∧
      (∀ r ∈ roots, r ≠ root → Spares r s s') ∧ KeepsUpper roots s.mem s'.mem := by
  have hva := (h.kernel root hroot).map_below (fun _ _ => rfl) h.frames hroot
    (h.frames.held_in page (.inr hpage)) hnot hrun
  obtain ⟨_, hpageAligned, _, _⟩ := Frames.mapPage_guard hrun
  obtain ⟨lk', _, hmap, rfl, hmapped⟩ := h.frames.mapPage_spec hroot hperm hrun
  have hframe : ∀ x, x < vaMax → userFrame s'.mem root x =
      if x.toNat / 4096 = va.toNat / 4096 then some page
      else userFrame s.mem root x := by
    intro x hx
    have heq := hmapped x hx
    rw [← hmap.translate x hx] at heq
    refine Eq.trans heq ?_
    unfold Frames.mappedFrame
    rw [if_pos huser]
  refine ⟨lk', ⟨?_, ?_⟩, fun x hx => hmap.translate x hx, hframe,
    fun f hf => h.frames.remapped_same hmap hf, hmap.userRegion, fun r hr hne =>
      h.frames.remapped_spares hmap hr hne,
    mapPage_keepsUpper h.frames.tables h.frames.kern hroot hrun hva⟩
  · have hsettle : ∀ x, x < vaMax → ∀ f, (setPage (translate s.mem root) va
        (some (paToPte page ||| perm ||| pteV)) x).bind userEntry = some f →
        userFrame s.mem root x = some f ∨
          (x.toNat / 4096 = va.toNat / 4096 ∧ f = page) := by
      intro x hx f hf
      rw [← hmap.translate x hx] at hf
      have hf' := (hframe x hx).symm.trans hf
      split at hf'
      · next hsame =>
        cases hf'
        exact .inr ⟨hsame, rfl⟩
      · exact .inl hf'
    refine h.frames.remapped_settle hroot hmap (.inr hpage) hsettle ?_ ?_
    · exact Set.union_subset_union_right tfs hsub
    · rintro (hmem | hmem)
      · exact hnot hmem
      · exact hgone hmem
  · intro r hr
    by_cases hne : r = root
    · subst hne
      refine (h.kernel r hr).setPage hmap hva ?_
      intro pte hpte
      cases hpte
      rw [or_and_of_disjoint (by decide), entry_and hperm (by decide)]
      exact huser
    · refine (h.kernel r hr).congr (fun _ hq => hq) (fun q => ?_) ?_
      · rw [hmap.userRegion]
      · exact fun x hx => hmap.others r hr hne x hx

theorem set_flags (h : Spaces s roots lk lu tfs extra) (hroot : root ∈ roots)
    (hva : va < trapframe) {t pte : UInt64}
    (hleaf : leafTable s.mem root va = some t)
    (hvalid : pteValid (entry s.mem t (vpn va 0)))
    (hpte : pteValid pte) (hpa : pteToPa pte = pteToPa (entry s.mem t (vpn va 0)))
    (hflag : pte &&& pteU = entry s.mem t (vpn va 0) &&& pteU) :
    Spaces (s.setMem (setEntry s.mem t (vpn va 0) pte)) roots lk lu tfs extra ∧
      (∀ r ∈ roots, Spares r s (s.setMem (setEntry s.mem t (vpn va 0) pte))) ∧
      KeepsUpper roots s.mem (setEntry s.mem t (vpn va 0) pte) := by
  have hmax := lt_vaMax_of_lt hva
  obtain ⟨hframes, hmap, hspares⟩ :=
    h.frames.set_flags hroot hmax hleaf hvalid hpte hpa hflag
  refine ⟨⟨hframes, ?_⟩, hspares,
    .setEntry_leaf h.frames.tables hroot (.inl hva) hleaf pte⟩
  intro r hr
  by_cases hne : r = root
  · subst hne
    refine (h.kernel r hr).setPage hmap hva ?_
    intro pte' hpte'
    unfold validEntry at hpte'
    rw [if_pos hpte] at hpte'
    cases hpte'
    rw [hflag]
    exact (h.kernel r hr).below va hva _
      (Frames.translate_of_entry hmax hleaf hvalid hmax rfl)
  · exact (h.kernel r hr).congr (fun _ hq => hq) (fun _ => Iff.rfl) fun x hx =>
      hmap.others r hr hne x hx

theorem userFrame_of_entry (h : Spaces s roots lk lu tfs extra)
    (hroot : root ∈ roots) (hva : va < trapframe) {t : UInt64}
    (hleaf : leafTable s.mem root va = some t)
    (hvalid : pteValid (entry s.mem t (vpn va 0))) :
    userFrame s.mem root va = some (pteToPa (entry s.mem t (vpn va 0))) := by
  have hmax := lt_vaMax_of_lt hva
  have htranslate := Frames.translate_of_entry hmax hleaf hvalid hmax rfl
  unfold userFrame userEntry
  rw [htranslate, Option.bind_some,
    if_pos ((h.kernel root hroot).below va hva _ htranslate)]

theorem clear_entry (h : Spaces s roots lk lu tfs extra) (hroot : root ∈ roots)
    (hva : va < trapframe) {t pte : UInt64}
    (hleaf : leafTable s.mem root va = some t)
    (hvalid : pteValid (entry s.mem t (vpn va 0))) (hpte : pteValid pte = false) :
    Spaces (s.setMem (setEntry s.mem t (vpn va 0) pte)) roots lk lu tfs
        (insert (pteToPa (entry s.mem t (vpn va 0))) extra) ∧
      (∀ x, x < vaMax → userFrame (setEntry s.mem t (vpn va 0) pte) root x =
        if x.toNat / 4096 = va.toNat / 4096 then none
        else userFrame s.mem root x) ∧
      (∀ f, s.userRegion.Contains f →
        SamePage f s.mem (setEntry s.mem t (vpn va 0) pte)) ∧
      (∀ r ∈ roots, r ≠ root →
        Spares r s (s.setMem (setEntry s.mem t (vpn va 0) pte))) ∧
      KeepsUpper roots s.mem (setEntry s.mem t (vpn va 0) pte) := by
  have hmax := lt_vaMax_of_lt hva
  have hmap := remapped_setEntry h.frames.tables h.frames.kern hroot
    (UInt64.le_of_lt hmax) hleaf pte
  have hnone : validEntry pte = none := by
    unfold validEntry
    rw [hpte]
    rfl
  have hframe : ∀ x, x < vaMax →
      (setPage (translate s.mem root) va (validEntry pte) x).bind userEntry =
        if x.toNat / 4096 = va.toNat / 4096 then none
        else userFrame s.mem root x := by
    intro x _
    unfold setPage
    rw [hnone]
    split
    · rfl
    · rfl
  refine ⟨⟨?_, ?_⟩, ?_, fun f hf => h.frames.remapped_same hmap hf,
    fun r hr hne => h.frames.remapped_spares hmap hr hne,
    .setEntry_leaf h.frames.tables hroot (.inl hva) hleaf pte⟩
  · rw [Set.union_insert]
    refine h.frames.remapped_vacate hroot hmap hmax
      (h.userFrame_of_entry hroot hva hleaf hvalid) ?_
    intro x hx f hf
    rw [hframe x hx] at hf
    split at hf
    · cases hf
    · exact ⟨hf, ‹_›⟩
  · intro r hr
    by_cases hne : r = root
    · subst hne
      refine (h.kernel r hr).setPage hmap hva ?_
      intro pte' hpte'
      rw [hnone] at hpte'
      cases hpte'
    · exact (h.kernel r hr).congr (fun _ hq => hq) (fun _ => Iff.rfl) fun x hx =>
        hmap.others r hr hne x hx
  · intro x hx
    rw [← hframe x hx, ← hmap.translate x hx]
    rfl

theorem free (h : Spaces s roots lk lu tfs extra) {value : Unit}
    (hpage : page ∈ extra) (hnot : page ∉ tfs) (hsub : extra' ⊆ extra)
    (hgone : page ∉ extra')
    (hrun : pmemFree page false s = .ok (value, s')) :
    ∃ lu', Spaces s' roots lk lu' tfs extra' ∧
      (∀ t, IsTable s.mem roots t → SamePage t s.mem s'.mem) ∧
      ∀ root ∈ roots, Spares root s s' := by
  have hheld : page ∈ tfs ∪ extra := .inr hpage
  have hin := h.frames.held_in page hheld
  have hkept : page ∉ tfs ∪ extra' := by
    rintro (hmem | hmem)
    · exact hnot hmem
    · exact hgone hmem
  obtain ⟨lu', hframes, honly, hbounds⟩ := h.frames.free hheld
    (Set.union_subset_union_right tfs hsub) hkept hrun
  have htables : ∀ t, IsTable s.mem roots t → SamePage t s.mem s'.mem :=
    fun t ht => h.frames.touch_table hin honly ht
  refine ⟨lu', ⟨hframes, h.kernel_congr (fun _ hq => hq) hbounds htables⟩, htables,
    ?_⟩
  intro root hroot
  exact h.frames.touch_spares hin honly hroot fun va hva =>
    h.frames.not_held hheld hroot hva

end Spaces

end UnoOS.Mem
