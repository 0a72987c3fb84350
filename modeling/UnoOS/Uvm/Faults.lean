import UnoOS.Uvm.Copies

namespace UnoOS.Uvm

open UnoOS.Lib
open UnoOS.Mem

/-! What the page fault handlers and `uvm_copyout` leave in the tables. -/

variable {s s' : MemState} {roots : Set UInt64} {lk lu : List UInt64}
  {tfs extra : Set UInt64} {root va : UInt64}

theorem handlePageFault_spec {page : UInt64} (h : Spaces s roots lk lu tfs extra)
    (hroot : root ∈ roots)
    (hrun : handlePageFault root va s = .ok (page, s')) :
    ∃ lk' lu', Spaces s' roots lk' lu' tfs extra ∧
      (∀ r ∈ roots, r ≠ root → Spares r s s') ∧ KeepsUpper roots s.mem s'.mem := by
  unfold handlePageFault at hrun
  rw [massert_bind_eq_ok, Exec.bind_eq_ok] at hrun
  obtain ⟨_, newPage, s₁, halloc, hrun⟩ := hrun
  rw [updateMem_bind, Exec.bind_eq_ok] at hrun
  obtain ⟨_, s₂, hmap, hrun⟩ := hrun
  cases hrun
  obtain ⟨rest, hfresh, h₁, _, _, htables₁, hspares₁⟩ := h.alloc halloc
  have hpage : page ∈ insert page extra := Set.mem_insert page extra
  obtain ⟨h₂, htables₂, hspares₂⟩ :=
    h₁.write_held (.inr hpage) (onlyPage_memset page s₁.mem 0)
  obtain ⟨lk', h₃, _, _, _, _, hspares₃, hupper₃⟩ :=
    h₂.map hroot hpage (fun hmem => hfresh (.inl hmem))
      (Set.subset_insert page extra) (fun hmem => hfresh (.inr hmem)) (by decide)
      (by decide) hmap
  have hupper := (KeepsUpper.of_samePages htables₁).trans (.of_samePages htables₂)
  exact ⟨lk', rest, h₃, fun r hr hne =>
    ((hspares₁ r hr).trans (hspares₂ r hr)).trans (hspares₃ r hr hne),
    hupper.trans hupper₃⟩

theorem unCow_user (flags : UInt64) :
    (flags ||| pteW) &&& ~~~pteCow &&& pteU = flags &&& pteU := by
  rw [and_not_and (by decide), or_and_of_disjoint (by decide)]

theorem unCow_valid {pte : UInt64} (h : pteValid pte) :
    pteValid ((pte ||| pteW) &&& ~~~pteCow) := by
  unfold pteValid at h ⊢
  rwa [and_not_and (by decide), or_and_of_disjoint (by decide)]

theorem unCow_pa (pte : UInt64) :
    pteToPa ((pte ||| pteW) &&& ~~~pteCow) = pteToPa pte := by
  rw [pteToPa_and_not (by decide), pteToPa_or (by decide)]

/-- The table and the entry of a page are the same after a write elsewhere. -/
theorem leafTable_of_samePages {t : UInt64} (hroot : root ∈ roots)
    (hsame : ∀ t, IsTable s.mem roots t → SamePage t s.mem s'.mem)
    (hleaf : leafTable s.mem root va = some t) :
    leafTable s'.mem root va = some t ∧
      ∀ idx, entry s'.mem t idx = entry s.mem t idx :=
  ⟨(walk_of_samePages hroot hsame (by rw [length_vpns]; decide)).trans hleaf,
    entry_of_samePage (hsame t (leafTable_isTable hroot hleaf))⟩

/-- A page table entry at `VA_MAX` is read by nobody. -/
theorem set_entry_top (h : Spaces s roots lk lu tfs extra) (hroot : root ∈ roots)
    {t : UInt64} (hleaf : leafTable s.mem root vaMax = some t) (pte : UInt64) :
    Spaces (s.setMem (setEntry s.mem t (vpn vaMax 0) pte)) roots lk lu tfs extra ∧
      (∀ r ∈ roots, Spares r s (s.setMem (setEntry s.mem t (vpn vaMax 0) pte))) ∧
      KeepsUpper roots s.mem (setEntry s.mem t (vpn vaMax 0) pte) := by
  have hapart : ∀ x, x < vaMax → x.toNat / 4096 ≠ vaMax.toNat / 4096 := by
    intro x hx
    rw [UInt64.lt_iff_toNat_lt, vaMax_toNat] at hx
    rw [vaMax_toNat]
    omega
  obtain ⟨hframes, hmap, hspares⟩ := h.frames.set_entry hroot (UInt64.le_refl vaMax)
    hleaf (fun x hx hpage => absurd hpage (hapart x hx))
  refine ⟨⟨hframes, ?_⟩, hspares,
    .setEntry_leaf h.frames.tables hroot (.inr rfl) hleaf pte⟩
  intro r hr
  refine (h.kernel r hr).congr (fun _ hq => hq) (fun _ => Iff.rfl) ?_
  intro x hx
  by_cases hne : r = root
  · subst hne
    rw [hmap.translate x hx]
    exact if_neg (hapart x hx)
  · exact hmap.others r hr hne x hx

def CowPage (m : Memory) (root va : UInt64) : Prop :=
  ∃ pte, translate m root va = some pte ∧ pte &&& pteCow ≠ 0

theorem cowPage_below (h : Spaces s roots lk lu tfs extra) (hroot : root ∈ roots)
    (hva : va < vaMax) (hcow : CowPage s.mem root va) : va < trapframe := by
  obtain ⟨pte, hpte, hflag⟩ := hcow
  by_contra hge
  rw [UInt64.not_lt] at hge
  obtain ⟨pte', hpte', _, hnot, _⟩ := (h.kernel root hroot).above va hge hva
  rw [hpte] at hpte'
  cases hpte'
  exact hflag hnot

/-- The entry that is changed is the one that makes the page wait. -/
theorem cowPage_valid {t : UInt64} (hleaf : leafTable s.mem root va = some t)
    (hcow : CowPage s.mem root va) : pteValid (entry s.mem t (vpn va 0)) := by
  obtain ⟨pte, hpte, _⟩ := hcow
  unfold Mem.translate validEntry at hpte
  rw [hleaf, Option.bind_some] at hpte
  split at hpte
  · assumption
  · cases hpte

theorem cowCopy_spec {t page : UInt64} (h : Spaces s roots lk lu tfs extra)
    (hroot : root ∈ roots) (hleaf : leafTable s.mem root va = some t)
    (hcow : va < vaMax → CowPage s.mem root va)
    (hrun : cowCopy root va (entryAddr t (vpn va 0))
      (pteToPa (entry s.mem t (vpn va 0))) (pteFlags (entry s.mem t (vpn va 0))) s =
        .ok (page, s')) :
    ∃ lk' lu', Spaces s' roots lk' lu' tfs extra ∧
      (∀ r ∈ roots, r ≠ root → Spares r s s') ∧ KeepsUpper roots s.mem s'.mem ∧
      ∀ x, x < vaMax → userByte s'.mem root x = userByte s.mem root x := by
  unfold cowCopy at hrun
  rw [Exec.bind_eq_ok] at hrun
  obtain ⟨newPage, s₁, halloc, hrun⟩ := hrun
  obtain ⟨rest, hfresh, h₁, _, _, htables₁, hspares₁⟩ := h.alloc halloc
  have hheld : newPage ∈ insert newPage extra := Set.mem_insert newPage extra
  have hzero : newPage ≠ 0 :=
    h₁.frames.nonzero newPage (h₁.frames.held_in newPage (.inr hheld))
  rw [if_neg hzero, updateMem_bind, updateMem_bind, Exec.bind_eq_ok] at hrun
  obtain ⟨_, s₄, hmap, hrun⟩ := hrun
  rw [Exec.bind_eq_ok] at hrun
  obtain ⟨_, s₅, hfree, hrun⟩ := hrun
  obtain ⟨_, rfl⟩ := Prod.mk.inj (Except.ok.inj hrun)
  obtain ⟨_, _, hroom, _⟩ := Frames.mapPage_guard hmap
  have hmax : va < vaMax := by
    rw [UInt64.lt_iff_toNat_lt, vaMax_toNat]
    omega
  have hvalid := cowPage_valid hleaf (hcow hmax)
  have hva := cowPage_below h hroot hmax (hcow hmax)
  have hsrc := h.userFrame_of_entry hroot hva hleaf hvalid
  generalize hpa : pteToPa (entry s.mem t (vpn va 0)) = pa at hsrc hmap hfree
  -- the copy is made in a page that nobody else reaches
  have hnewTfs : newPage ∉ tfs := fun hmem => hfresh (.inl hmem)
  have hnewExtra : newPage ∉ extra := fun hmem => hfresh (.inr hmem)
  have hsrc₁ := (hspares₁ root hroot va hmax).1.trans hsrc
  have hne : newPage ≠ pa := by
    rintro rfl
    exact h₁.frames.not_held (.inr hheld) hroot hmax hsrc₁
  have hpaHeld : pa ∉ tfs ∪ extra :=
    h.frames.tenancy.owned_held (Frames.owns_of_userFrame hroot hmax hsrc)
  obtain ⟨s₂, hs₂, h₂, htables₂, hspares₂, hcopied⟩ :=
    copy_held h₁ hheld hroot hmax hsrc₁
  rw [← hs₂] at hmap
  -- the entry is made invalid, which leaves the frame to the call
  obtain ⟨hleaf₁, hentry₁⟩ := leafTable_of_samePages hroot htables₁ hleaf
  obtain ⟨hleaf₂, hentry₂⟩ := leafTable_of_samePages hroot htables₂ hleaf₁
  have hentry : entry s₂.mem t (vpn va 0) = entry s.mem t (vpn va 0) :=
    (hentry₂ _).trans (hentry₁ _)
  obtain ⟨h₃, hframe₃, hsame₃, hspares₃, hupper₃⟩ := h₂.clear_entry hroot hva hleaf₂
    (hentry ▸ hvalid) (pteValid_clear (entry s₂.mem t (vpn va 0)))
  have hpa₂ : pteToPa (entry s₂.mem t (vpn va 0)) = pa := by
    rw [hentry, hpa]
  rw [hpa₂] at h₃
  -- the copy is mapped in its place, and the frame is given back
  have hflags : ((pteFlags (entry s.mem t (vpn va 0)) ||| pteW) &&&
      ~~~pteCow).toNat < 1024 := and_lt (flags_or_lt (pteFlags_lt _) (by decide))
  have huser : (pteFlags (entry s.mem t (vpn va 0)) ||| pteW) &&& ~~~pteCow &&&
      pteU ≠ 0 := by
    rw [unCow_user, pteFlags_and (by decide)]
    exact (h.kernel root hroot).below va hva _
      (Frames.translate_of_entry hmax hleaf hvalid hmax rfl)
  have hgone : newPage ∉ insert pa extra := by
    rw [Set.mem_insert_iff, not_or]
    exact ⟨hne, hnewExtra⟩
  obtain ⟨lk', h₄, _, hframe₄, hsame₄, _, hspares₄, hupper₄⟩ := h₃.map hroot
    (Set.mem_insert_of_mem pa hheld) hnewTfs
    (Set.insert_subset_insert (Set.subset_insert newPage extra)) hgone hflags huser
    hmap
  obtain ⟨lu', h₅, htables₅, hspares₅⟩ := h₄.free (Set.mem_insert pa extra)
    (fun hmem => hpaHeld (.inl hmem)) (Set.subset_insert pa extra)
    (fun hmem => hpaHeld (.inr hmem)) hfree
  have hspares₁₂ : ∀ r ∈ roots, Spares r s s₂ :=
    fun r hr => (hspares₁ r hr).trans (hspares₂ r hr)
  have hupper₂ := (KeepsUpper.of_samePages htables₁).trans (.of_samePages htables₂)
  refine ⟨lk', lu', h₅, fun r hr hr' => (((hspares₁₂ r hr).trans
    (hspares₃ r hr hr')).trans (hspares₄ r hr hr')).trans (hspares₅ r hr),
    ((hupper₂.trans hupper₃).trans hupper₄).trans (.of_samePages htables₅), ?_⟩
  intro x hx
  rw [(hspares₅ root hroot).userByte hx]
  by_cases hpage : x.toNat / 4096 = va.toNat / 4096
  · have hin₃ := h₃.frames.held_in newPage (.inr (Set.mem_insert_of_mem pa hheld))
    have hin₂ := h₂.frames.held_in newPage (.inr hheld)
    have hold := (userFrame_same_page hx hmax hpage).trans hsrc
    rw [userByte_of_frame hold,
      userByte_of_frame ((hframe₄ x hx).trans (if_pos hpage)),
      hsame₄ newPage hin₃ _ (inPage_offset newPage x.toNat)]
    rw [MemState.mem_setMem, hsame₃ newPage hin₂ _ (inPage_offset newPage x.toNat),
      hcopied, (hspares₁ root hroot va hmax).2 pa hsrc _ (inPage_offset pa x.toNat)]
  · have hframe : userFrame s₄.mem root x = userFrame s₂.mem root x := by
      rw [hframe₄ x hx, if_neg hpage]
      exact (hframe₃ x hx).trans (if_neg hpage)
    rw [← (hspares₁₂ root hroot).userByte hx]
    unfold userByte
    rw [hframe]
    cases hf : userFrame s₂.mem root x with
    | none => rfl
    | some f =>
        have hin := h₂.frames.userFrame_in hroot hx hf
        rw [Option.map_some, Option.map_some,
          hsame₄ f hin _ (inPage_offset f x.toNat), MemState.mem_setMem,
          hsame₃ f hin _ (inPage_offset f x.toNat)]

theorem handleCow_spec {page : UInt64} (h : Spaces s roots lk lu tfs extra)
    (hroot : root ∈ roots) (hcow : va < vaMax → CowPage s.mem root va)
    (hrun : handleCow root va s = .ok (page, s')) :
    ∃ lk' lu', Spaces s' roots lk' lu' tfs extra ∧
      (∀ r ∈ roots, r ≠ root → Spares r s s') ∧ KeepsUpper roots s.mem s'.mem ∧
      ∀ x, x < vaMax → userByte s'.mem root x = userByte s.mem root x := by
  have hspared : ∀ {s₁ : MemState}, (∀ r ∈ roots, Spares r s s₁) →
      KeepsUpper roots s.mem s₁.mem →
      (∀ r ∈ roots, r ≠ root → Spares r s s₁) ∧ KeepsUpper roots s.mem s₁.mem ∧
      ∀ x, x < vaMax → userByte s₁.mem root x = userByte s.mem root x :=
    fun hall hupper => ⟨fun r hr _ => hall r hr, hupper,
      fun _ hx => (hall root hroot).userByte hx⟩
  unfold handleCow at hrun
  by_cases haligned : va % pgsize ≠ 0
  · rw [if_pos haligned] at hrun
    cases hrun
    exact ⟨lk, lu, h, hspared (fun r _ => Spares.refl r s) (.refl roots _)⟩
  · rw [if_neg haligned, Exec.bind_eq_ok] at hrun
    obtain ⟨result, s₀, hgetpte, hrun⟩ := hrun
    obtain ⟨⟨hle, _⟩, rfl, rfl⟩ := vmGetpte_reads_eq_ok.mp hgetpte
    cases hleaf : leafTable s₀.mem root va with
    | none =>
        rw [hleaf] at hrun
        cases hrun
    | some t =>
        rw [hleaf] at hrun
        dsimp only [Option.map_some] at hrun
        rw [readMem_bind] at hrun
        have hload : s₀.mem.load64 (entryAddr t (vpn va 0)) =
          entry s₀.mem t (vpn va 0) := rfl
        rw [hload] at hrun
        have href : pmemGetRef (pteToPa (entry s₀.mem t (vpn va 0))) s₀ =
          .ok (refCnt s₀.mem (pteToPa (entry s₀.mem t (vpn va 0))), s₀) := rfl
        rw [Exec.bind_of_ok href] at hrun
        split at hrun
        · -- the entry gets its flags back in place
          rw [updateMem_bind] at hrun
          obtain ⟨_, rfl⟩ := Prod.mk.inj (Except.ok.inj hrun)
          by_cases hmax : va < vaMax
          · obtain ⟨h', hspares, hupper⟩ := h.set_flags hroot
              (cowPage_below h hroot hmax (hcow hmax)) hleaf
              (cowPage_valid hleaf (hcow hmax))
              (unCow_valid (cowPage_valid hleaf (hcow hmax))) (unCow_pa _)
              (unCow_user _)
            exact ⟨lk, lu, h', hspared hspares hupper⟩
          · have htop : va = vaMax :=
              UInt64.le_antisymm hle (UInt64.not_lt.mp hmax)
            subst htop
            obtain ⟨h', hspares, hupper⟩ := set_entry_top h hroot hleaf
              ((entry s₀.mem t (vpn vaMax 0) ||| pteW) &&& ~~~pteCow)
            exact ⟨lk, lu, h', hspared hspares hupper⟩
        · exact cowCopy_spec h hroot hleaf hcow hrun

theorem isCowpage_spec {result : Int}
    (hrun : isCowpage root va s = .ok (result, s')) :
    s' = s ∧ (result ≠ 0 → va < vaMax → CowPage s.mem root va) := by
  unfold isCowpage at hrun
  by_cases hva : vaMax ≤ va
  · rw [if_pos hva] at hrun
    cases hrun
    exact ⟨rfl, fun _ hlt => absurd hva (UInt64.not_le.mpr hlt)⟩
  · rw [if_neg hva, Exec.bind_eq_ok] at hrun
    obtain ⟨pte, s₀, hgetpte, hrun⟩ := hrun
    obtain ⟨_, rfl, rfl⟩ := vmGetpte_reads_eq_ok.mp hgetpte
    cases hleaf : leafTable s₀.mem root va with
    | none =>
        rw [hleaf] at hrun
        cases hrun
        exact ⟨rfl, fun hne => absurd rfl hne⟩
    | some t =>
        rw [hleaf] at hrun
        dsimp only [Option.map_some] at hrun
        rw [readMem_bind] at hrun
        split at hrun
        · next hvalid =>
          cases hrun
          refine ⟨rfl, ?_⟩
          intro hne _
          refine ⟨entry s'.mem t (vpn va 0), ?_, ?_⟩
          · unfold Mem.translate validEntry
            rw [hleaf, Option.bind_some]
            exact if_pos hvalid
          · intro hzero
            exact hne (if_neg (not_not.mpr hzero))
        · cases hrun
          exact ⟨rfl, fun hne => absurd rfl hne⟩

theorem cowPage_pgrounddown {m : Memory} (h : CowPage m root va) :
    CowPage m root (pgrounddown va) := by
  obtain ⟨pte, hpte, hcow⟩ := h
  refine ⟨pte, ?_, hcow⟩
  unfold Mem.translate leafTable at hpte ⊢
  rw [vpns_pgrounddown va (le_refl 2), vpn_pgrounddown va (by decide)]
  exact hpte

/-- The handlers change what the faulting process reaches, and nothing else. -/
theorem handleFault_spec {stval : UInt64} {value : Unit}
    (h : Spaces s roots lk lu tfs extra) (hroot : root ∈ roots)
    (hrun : handleFault root stval s = .ok (value, s')) :
    ∃ lk' lu', Spaces s' roots lk' lu' tfs extra ∧
      (∀ r ∈ roots, r ≠ root → Spares r s s') ∧ KeepsUpper roots s.mem s'.mem := by
  unfold handleFault at hrun
  rw [Exec.bind_eq_ok] at hrun
  obtain ⟨result, s₁, hcow, hrun⟩ := hrun
  obtain ⟨rfl, hcowPage⟩ := isCowpage_spec hcow
  split at hrun
  · next hresult =>
    rw [Exec.bind_eq_ok] at hrun
    obtain ⟨page, s₂, hhandle, hrun⟩ := hrun
    cases hrun
    have hdown : pgrounddown stval < vaMax →
        CowPage s₁.mem root (pgrounddown stval) := by
      intro hlt
      refine cowPage_pgrounddown (hcowPage hresult ?_)
      rw [UInt64.lt_iff_toNat_lt, pgrounddown_toNat, vaMax_toNat] at hlt
      rw [UInt64.lt_iff_toNat_lt, vaMax_toNat]
      omega
    obtain ⟨lk', lu', h', hspares, hupper, _⟩ := handleCow_spec h hroot hdown hhandle
    exact ⟨lk', lu', h', hspares, hupper⟩
  · rw [Exec.bind_eq_ok] at hrun
    obtain ⟨page, s₂, hhandle, hrun⟩ := hrun
    cases hrun
    exact handlePageFault_spec h hroot hhandle

/-! `uvm_copyout` into one page. -/

theorem entry_of_userFrame {t f : UInt64} (hleaf : leafTable s.mem root va = some t)
    (hvalid : pteValid (entry s.mem t (vpn va 0)))
    (hf : userFrame s.mem root va = some f) :
    pteToPa (entry s.mem t (vpn va 0)) = f := by
  unfold userFrame Mem.translate validEntry userEntry at hf
  rw [hleaf, Option.bind_some, if_pos hvalid, Option.bind_some] at hf
  split at hf
  · exact Option.some_inj.mp hf
  · cases hf

theorem copyoutTurns {dst : UInt64} {len : UInt32} (hdst : dst < vaMax)
    (hone : dst.toNat % 4096 + len.toNat ≤ 4096) :
    ((dst + len.toUInt64).toNat - (pgrounddown dst).toNat + 4095) / 4096 ≤ 1 := by
  rw [UInt64.lt_iff_toNat_lt, vaMax_toNat] at hdst
  have hlen := len.toNat_lt
  have hsum : (dst + len.toUInt64).toNat = dst.toNat + len.toNat := by
    rw [UInt64.toNat_add, UInt32.toNat_toUInt64]
    exact Nat.mod_eq_of_lt (by omega)
  rw [hsum, pgrounddown_toNat]
  omega

theorem uvmCopyout_spec {dst f : UInt64} {src : Nat → UInt8} {len : UInt32}
    {value : Unit} (h : Spaces s roots lk lu tfs extra) (hroot : root ∈ roots)
    (hdst : dst < vaMax) (hf : userFrame s.mem root dst = some f)
    (hone : dst.toNat % 4096 + len.toNat ≤ 4096)
    (hrun : uvmCopyout root dst src len s = .ok (value, s')) :
    Spaces s' roots lk lu tfs extra ∧
      (∀ r ∈ roots, r ≠ root → Spares r s s') ∧ KeepsUpper roots s.mem s'.mem := by
  have hturns := copyoutTurns hdst hone
  unfold uvmCopyout at hrun
  generalize ((dst + len.toUInt64).toNat - (pgrounddown dst).toNat + 4095) / 4096 =
    turns at hrun hturns
  cases turns with
  | zero =>
      cases hrun
      exact ⟨h, fun r _ _ => Spares.refl r _, .refl roots _⟩
  | succ turns =>
      have hzero : turns = 0 := by omega
      subst hzero
      rw [copyoutLoop, Exec.bind_eq_ok] at hrun
      obtain ⟨result, s₀, hgetpte, hrun⟩ := hrun
      obtain ⟨_, rfl, rfl⟩ := vmGetpte_reads_eq_ok.mp hgetpte
      have hdown := pgrounddown_toNat dst
      rw [UInt64.lt_iff_toNat_lt] at hdst
      have hbeg : pgrounddown dst < vaMax := by
        rw [UInt64.lt_iff_toNat_lt]
        omega
      have hle : pgrounddown dst ≤ dst := by
        rw [UInt64.le_iff_toNat_le]
        omega
      cases hleaf : leafTable s₀.mem root (pgrounddown dst) with
      | none =>
          rw [hleaf] at hrun
          cases hrun
      | some t =>
          rw [hleaf] at hrun
          dsimp only [Option.map_some] at hrun
          rw [readMem_bind, massert_bind_eq_ok, if_pos hle, updateMem_bind] at hrun
          obtain ⟨hvalid, hrun⟩ := hrun
          cases hrun
          have hframe : userFrame s₀.mem root (pgrounddown dst) = some f :=
            (userFrame_same_page hbeg (UInt64.lt_iff_toNat_lt.mpr hdst)
              (by omega)).trans hf
          have hpa := entry_of_userFrame hleaf hvalid hframe
          change pteToPa (s₀.mem.load64 (entryAddr t (vpn (pgrounddown dst) 0))) = f
            at hpa
          rw [hpa]
          exact h.write_user hroot hbeg hframe
            (onlyPage_write f s₀.mem _ _ _ (by omega))

end UnoOS.Uvm
