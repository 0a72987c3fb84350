import UnoOS.Uvm.Faults

namespace UnoOS.Uvm

open UnoOS.Lib
open UnoOS.Kernel (ProcId nProc)
open UnoOS.Mem

/-! New page tables, and what `proc_fork` leaves in the old ones. -/

variable {s s' : MemState} {roots : Set UInt64} {lk lu : List UInt64}
  {tfs extra extra' held : Set UInt64} {root va page perm : UInt64}

/-- A page that user code may not use is mapped. -/
theorem mapHidden {value : Unit} (h : Frames s roots lk lu held)
    (hroot : root ∈ roots) (hperm : perm.toNat < 1024) (huser : perm &&& pteU = 0)
    (hrun : vmMappages root va page pgsize perm s = .ok (value, s')) :
    ∃ lk', Frames s' roots lk' lu held ∧
      (∀ x, x < vaMax → translate s'.mem root x =
        setPage (translate s.mem root) va
          (some (paToPte page ||| perm ||| pteV)) x) ∧
      (∀ r ∈ roots, r ≠ root → ∀ x, x < vaMax →
        translate s'.mem r x = translate s.mem r x) ∧
      s'.userRegion = s.userRegion ∧
      (∀ r ∈ roots, r ≠ root → Spares r s s') ∧
      ∀ r ∈ roots, NoUpper s.mem r → NoUpper s'.mem r := by
  obtain ⟨lk', _, hmap, rfl, hmapped⟩ := h.mapPage_spec hroot hperm hrun
  refine ⟨lk', ?_, hmap.translate, hmap.others, hmap.userRegion,
    fun r hr hne => h.remapped_spares hmap hr hne,
    fun r hr => mapPage_noUpper h.tables h.kern hroot hrun hr⟩
  refine h.remapped_shrink hroot hmap ?_
  intro x hx f hf
  rw [hmapped x hx] at hf
  unfold Frames.mappedFrame at hf
  split at hf
  · rw [if_neg (not_not.mpr huser)] at hf
    cases hf
  · exact hf

theorem hiddenEntry {flag : UInt64} (hperm : perm.toNat < 1024)
    (hflag : 0x3FF &&& flag = flag) (hvalid : pteV &&& flag = 0)
    (hnot : perm &&& flag = 0) :
    (paToPte page ||| perm ||| pteV) &&& flag = 0 := by
  rw [or_and_of_disjoint hvalid, entry_and hperm hflag, hnot]

theorem hiddenEntry_pa (hpage : page.toNat % 4096 = 0) (hperm : perm.toNat < 1024) :
    pteToPa (paToPte page ||| perm ||| pteV) = page := by
  rw [UInt64.or_assoc]
  exact pteToPa_entry hpage (flags_or_lt hperm (by decide))

theorem trampoline_toNat : trampoline.toNat = 2 ^ 38 - 4096 := rfl

/-- A table with the two pages of the kernel and nothing else. -/
theorem kernelPages_of_init {tramp tf : UInt64}
    (htramp : ¬ s.userRegion.Contains tramp) (htf : tf ∈ tfs)
    (haligned : tramp.toNat % 4096 = 0) (haligned' : tf.toNat % 4096 = 0)
    (htranslate : ∀ x, x < vaMax → translate s.mem root x =
      setPage (setPage (fun _ => none) trampoline
        (some (paToPte tramp ||| (pteX ||| pteR) ||| pteV))) trapframe
        (some (paToPte tf ||| (pteW ||| pteR) ||| pteV)) x) :
    KernelPages s root tfs := by
  have htfVa := trapframe_toNat
  have htrVa := trampoline_toNat
  refine ⟨?_, ?_⟩
  · intro x hx pte hpte
    rw [htranslate x (lt_vaMax_of_lt hx)] at hpte
    rw [UInt64.lt_iff_toNat_lt] at hx
    unfold setPage at hpte
    rw [if_neg (by omega), if_neg (by omega)] at hpte
    cases hpte
  · intro x hx hmax
    rw [htranslate x hmax]
    rw [UInt64.le_iff_toNat_le] at hx
    rw [UInt64.lt_iff_toNat_lt, vaMax_toNat] at hmax
    unfold setPage
    by_cases hpage : x.toNat / 4096 = trapframe.toNat / 4096
    · rw [if_pos hpage]
      refine ⟨_, rfl, hiddenEntry (by decide) (by decide) (by decide) (by decide),
        hiddenEntry (by decide) (by decide) (by decide) (by decide), .inl ?_⟩
      rw [hiddenEntry_pa haligned' (by decide)]
      exact htf
    · rw [if_neg hpage, if_pos (by omega)]
      refine ⟨_, rfl, hiddenEntry (by decide) (by decide) (by decide) (by decide),
        hiddenEntry (by decide) (by decide) (by decide) (by decide), .inr ?_⟩
      rw [hiddenEntry_pa haligned (by decide)]
      exact htramp

theorem procPgtblInit_spec {tramp tf t : UInt64}
    (h : Spaces s roots lk lu tfs extra) (htramp : ¬ s.userRegion.Contains tramp)
    (hsub : insert tf tfs ∪ extra' ⊆ tfs ∪ extra)
    (hrun : procPgtblInit tramp tf s = .ok (t, s')) :
    ∃ lk', t ∉ roots ∧ Spaces s' (insert t roots) lk' lu (insert tf tfs) extra' ∧
      (∀ r ∈ roots, Spares r s s') ∧ KeepsUpper roots s.mem s'.mem ∧
      NoUpper s'.mem t ∧ KernelPages s' t {tf} ∧
      ∀ va, va < vaMax → userByte s'.mem t va = none := by
  unfold procPgtblInit at hrun
  rw [Exec.bind_eq_ok] at hrun
  obtain ⟨t', s₀, halloc, hrun⟩ := hrun
  rw [updateMem_bind, Exec.bind_eq_ok] at hrun
  obtain ⟨_, s₂, hmap, hrun⟩ := hrun
  rw [Exec.bind_eq_ok] at hrun
  obtain ⟨_, s₃, hmap', hrun⟩ := hrun
  obtain ⟨rfl, rfl⟩ := Prod.mk.inj (Except.ok.inj hrun)
  obtain ⟨rest, hfresh, hregion₁, h₁, hnone, hothers₁, htables₁, hspares₁⟩ :=
    h.frames.new_root halloc
  have ht : t' ∈ insert t' roots := Set.mem_insert t' roots
  have hold : ∀ r ∈ roots, r ∈ insert t' roots ∧ r ≠ t' := by
    intro r hr
    refine ⟨Set.mem_insert_of_mem t' hr, ?_⟩
    rintro rfl
    exact hfresh hr
  obtain ⟨lk₂, h₂, hmapped₂, hothers₂, hregion₂, hspares₂, hupper₂⟩ :=
    mapHidden h₁ ht (by decide) (by decide) hmap
  obtain ⟨lk₃, h₃, hmapped₃, hothers₃, hregion₃, hspares₃, hupper₃⟩ :=
    mapHidden h₂ ht (by decide) (by decide) hmap'
  have hregion : s₃.userRegion = s.userRegion :=
    (hregion₃.trans hregion₂).trans hregion₁
  have hbounds : ∀ q, s₃.userRegion.Contains q ↔ s.userRegion.Contains q := by
    intro q
    rw [hregion]
  -- the two pages and no other
  have htranslate : ∀ x, x < vaMax → translate s₃.mem t' x =
      setPage (setPage (fun _ => none) trampoline
        (some (paToPte tramp ||| (pteX ||| pteR) ||| pteV))) trapframe
        (some (paToPte tf ||| (pteW ||| pteR) ||| pteV)) x := by
    intro x hx
    rw [hmapped₃ x hx]
    unfold setPage
    split
    · rfl
    · rw [hmapped₂ x hx]
      unfold setPage
      split
      · rfl
      · exact hnone x
  have hkernel : KernelPages s₃ t' {tf} :=
    kernelPages_of_init ((hbounds tramp).not.mpr htramp) (Set.mem_singleton tf)
      (Frames.mapPage_guard hmap).2.1 (Frames.mapPage_guard hmap').2.1 htranslate
  have hothers : ∀ r ∈ roots, ∀ x, x < vaMax →
      translate s₃.mem r x = translate s.mem r x := by
    intro r hr x hx
    obtain ⟨hmem, hne⟩ := hold r hr
    rw [hothers₃ r hmem hne x hx, hothers₂ r hmem hne x hx]
    exact hothers₁ r hr x
  have hupper : KeepsUpper roots s.mem s₃.mem := by
    refine ⟨fun r hr hnone => ?_, fun r hr x _ hx => hothers r hr x hx⟩
    have hnone₁ := (KeepsUpper.of_samePages htables₁).links r hr hnone
    exact hupper₃ r (hold r hr).1 (hupper₂ r (hold r hr).1 hnone₁)
  refine ⟨lk₃, hfresh, ⟨h₃.held_mono hsub, ?_⟩, ?_, hupper,
    hupper₃ t' ht (hupper₂ t' ht (noUpper_memset _ t')), hkernel, ?_⟩
  · intro r hr
    rcases Set.mem_insert_iff.mp hr with rfl | hr
    · refine hkernel.congr ?_ (fun _ => Iff.rfl) fun _ _ => rfl
      exact Set.singleton_subset_iff.mpr (Set.mem_insert _ tfs)
    · exact (h.kernel r hr).congr (Set.subset_insert tf tfs) hbounds (hothers r hr)
  · intro r hr
    obtain ⟨hmem, hne⟩ := hold r hr
    exact ((hspares₁ r hr).trans (hspares₂ r hmem hne)).trans (hspares₃ r hmem hne)
  · intro x hx
    unfold userByte userFrame
    cases hpte : translate s₃.mem t' x with
    | none => rfl
    | some pte =>
        have huser : pte &&& pteU = 0 := by
          by_contra hne
          have hge : trapframe ≤ x := by
            by_contra hlt
            rw [UInt64.not_le] at hlt
            rw [htranslate x hx] at hpte
            have htfVa := trapframe_toNat
            have htrVa := trampoline_toNat
            rw [UInt64.lt_iff_toNat_lt] at hlt
            unfold setPage at hpte
            rw [if_neg (by omega), if_neg (by omega)] at hpte
            cases hpte
          obtain ⟨pte', hpte', hzero, _⟩ := hkernel.above x hge hx
          rw [hpte] at hpte'
          cases hpte'
          exact hne hzero
        rw [Option.bind_some, userEntry, if_neg (not_not.mpr huser)]
        rfl

/-! The pages of the first process. -/

theorem mapFresh_spec {value : Unit} {s₁ : MemState}
    (h : Spaces s roots lk lu tfs extra) (hroot : root ∈ roots)
    (hperm : perm.toNat < 1024) (huser : perm &&& pteU ≠ 0)
    (halloc : pmemAlloc false s = .ok (page, s₁))
    (hrun : vmMappages root va page pgsize perm s₁ = .ok (value, s')) :
    ∃ lk' lu', Spaces s' roots lk' lu' tfs extra ∧
      (∀ x, x < vaMax → userFrame s'.mem root x =
        if x.toNat / 4096 = va.toNat / 4096 then some page
        else userFrame s₁.mem root x) ∧
      (∀ r ∈ roots, r ≠ root → Spares r s s') ∧ KeepsUpper roots s.mem s'.mem := by
  obtain ⟨rest, hfresh, h₁, _, _, htables₁, hspares₁⟩ := h.alloc halloc
  obtain ⟨lk', h₂, _, hframe, _, _, hspares₂, hupper₂⟩ :=
    h₁.map hroot (Set.mem_insert page extra) (fun hmem => hfresh (.inl hmem))
      (Set.subset_insert page extra) (fun hmem => hfresh (.inr hmem)) hperm huser hrun
  exact ⟨lk', rest, h₂, hframe, fun r hr hne =>
    (hspares₁ r hr).trans (hspares₂ r hr hne),
    (KeepsUpper.of_samePages htables₁).trans hupper₂⟩

theorem mapStack_spec {pages : List Nat} {value : Unit}
    (h : Spaces s roots lk lu tfs extra) (hroot : root ∈ roots)
    (hrun : mapStack root pages s = .ok (value, s')) :
    ∃ lk' lu', Spaces s' roots lk' lu' tfs extra ∧
      (∀ r ∈ roots, r ≠ root → Spares r s s') ∧ KeepsUpper roots s.mem s'.mem := by
  induction pages generalizing s lk lu with
  | nil =>
      cases hrun
      exact ⟨lk, lu, h, fun r _ _ => Spares.refl r _, .refl roots _⟩
  | cons i pages ih =>
      rw [mapStack, Exec.bind_eq_ok] at hrun
      obtain ⟨page, s₁, halloc, hrun⟩ := hrun
      rw [Exec.bind_eq_ok] at hrun
      obtain ⟨_, s₂, hmap, hrun⟩ := hrun
      obtain ⟨lk₂, lu₂, h₂, _, hspares₂, hupper₂⟩ :=
        mapFresh_spec h hroot (by decide) (by decide) halloc hmap
      obtain ⟨lk', lu', h', hspares', hupper'⟩ := ih h₂ hrun
      exact ⟨lk', lu', h', fun r hr hne =>
        (hspares₂ r hr hne).trans (hspares' r hr hne), hupper₂.trans hupper'⟩

theorem loadInitcode_spec {initcode : List UInt8} {value : Unit}
    (h : Spaces s roots lk lu tfs extra) (hroot : root ∈ roots)
    (hrun : loadInitcode root initcode s = .ok (value, s')) :
    ∃ lk' lu', Spaces s' roots lk' lu' tfs extra ∧
      (∀ r ∈ roots, r ≠ root → Spares r s s') ∧ KeepsUpper roots s.mem s'.mem := by
  unfold loadInitcode at hrun
  rw [massert_bind_eq_ok, Exec.bind_eq_ok] at hrun
  obtain ⟨hlen, page, s₁, halloc, hrun⟩ := hrun
  rw [Exec.bind_eq_ok] at hrun
  obtain ⟨_, s₂, hmap, hrun⟩ := hrun
  cases hrun
  obtain ⟨lk', lu', h₂, hframe, hspares₂, hupper₂⟩ :=
    mapFresh_spec h hroot (by decide) (by decide) halloc hmap
  have hva : userVmemStart < vaMax := by decide
  have hpage : userFrame s₂.mem root userVmemStart = some page := by
    rw [hframe _ hva, if_pos rfl]
  obtain ⟨h₃, hspares₃, hupper₃⟩ := h₂.write_user hroot hva hpage
    (onlyPage_write page s₂.mem 0 initcode.length (fun i => initcode.getD i 0)
      (by omega))
  exact ⟨lk', lu', h₃, fun r hr hne => (hspares₂ r hr hne).trans (hspares₃ r hr hne),
    hupper₂.trans hupper₃⟩

end UnoOS.Uvm
