import UnoOS.Mem.Spaces
import UnoOS.Uvm.Proc

namespace UnoOS.Uvm

open UnoOS.Lib
open UnoOS.Mem

/-! What `copy_range` leaves in the two tables. -/

variable {s s' : MemState} {roots : Set UInt64} {lk lu : List UInt64}
  {tfs extra : Set UInt64} {old new root va pa flags : UInt64} {value : Unit}

theorem onlyPage_memcpy (page : UInt64) (m : Memory) (src len : Nat)
    (hlen : len ≤ 4096) : OnlyPage page m (m.memcpy page.toNat src len) := by
  intro x hx
  apply Memory.memcpy_of_not_mem
  unfold InPage at hx
  omega

theorem memcpy_page {page : UInt64} (m : Memory)
    (haligned : page.toNat % 4096 = 0) (haligned' : pa.toNat % 4096 = 0)
    (hne : page ≠ pa) (i : Nat) :
    m.memcpy page.toNat pa.toNat 4096 (page.toNat + i % 4096) =
      m (pa.toNat + i % 4096) := by
  have hdiff : page.toNat ≠ pa.toNat := fun heq => hne (UInt64.toNat_inj.mp heq)
  rw [Memory.memcpy_of_mem (by omega) (by omega) (by omega), Nat.add_sub_cancel_left]

/-- A page of user code is copied to a frame that the call holds. -/
theorem copy_held {page : UInt64} (h : Spaces s roots lk lu tfs extra)
    (hpage : page ∈ extra) (hroot : root ∈ roots) (hva : va < vaMax)
    (hsrc : userFrame s.mem root va = some pa) :
    ∃ s', s' = s.setMem (s.mem.memcpy page.toNat pa.toNat 4096) ∧
      Spaces s' roots lk lu tfs extra ∧
      (∀ t, IsTable s.mem roots t → SamePage t s.mem s'.mem) ∧
      (∀ r ∈ roots, Spares r s s') ∧
      ∀ i, s'.mem (page.toNat + i % 4096) = s.mem (pa.toNat + i % 4096) := by
  obtain ⟨h', htables, hspares⟩ := h.write_held (.inr hpage)
    (onlyPage_memcpy page s.mem pa.toNat 4096 (le_refl _))
  refine ⟨_, rfl, h', htables, hspares, ?_⟩
  have hne : page ≠ pa := by
    rintro rfl
    exact h.frames.not_held (.inr hpage) hroot hva hsrc
  intro i
  rw [MemState.mem_setMem]
  exact memcpy_page s.mem (h.frames.held_in page (.inr hpage)).aligned
    (h.frames.userFrame_in hroot hva hsrc).aligned hne i

theorem copyPage_guard (hrun : copyPage new va pa flags s = .ok (value, s')) :
    va.toNat % 4096 = 0 ∧ va.toNat + 4096 ≤ 2 ^ 38 := by
  unfold copyPage at hrun
  rw [Exec.bind_eq_ok] at hrun
  obtain ⟨page, s₁, _, hrun⟩ := hrun
  rw [updateMem_bind] at hrun
  obtain ⟨haligned, _, hroom, _⟩ := Frames.mapPage_guard hrun
  exact ⟨haligned, hroom⟩

/-- The pages that the kernel has in a table are not replaced by copies. -/
theorem copyPage_below {held : Set UInt64} {s₀ : MemState}
    (hkernel : KernelPages s₀ new tfs)
    (htranslate : ∀ va, va < vaMax →
      translate s.mem new va = translate s₀.mem new va)
    (hregion : s.userRegion = s₀.userRegion) (htfs : tfs ⊆ held)
    (h : Frames s roots lk lu held) (hnew : new ∈ roots)
    (hrun : copyPage new va pa flags s = .ok (value, s')) : va < trapframe := by
  unfold copyPage at hrun
  rw [Exec.bind_eq_ok] at hrun
  obtain ⟨page, s₁, halloc, hrun⟩ := hrun
  rw [updateMem_bind] at hrun
  obtain ⟨rest, hmem, hframes, _, honly, _, _⟩ := h.alloc halloc
  have hin : s.userRegion.Contains page := h.user.inRegion page hmem
  obtain ⟨hframes', _⟩ := hframes.write_held (Set.mem_insert page held)
    (onlyPage_memcpy page s₁.mem pa.toNat 4096 (le_refl _))
  have hcopied : OnlyPage page s.mem
      (s₁.setMem (s₁.mem.memcpy page.toNat pa.toNat 4096)).mem :=
    honly.trans (onlyPage_memcpy page s₁.mem pa.toNat 4096 (le_refl _))
  refine hkernel.map_below ?_ hframes' hnew (hregion ▸ hin) ?_ hrun
  · intro va hva
    rw [← htranslate va hva]
    exact translate_of_samePages hnew
      (fun t ht => h.touch_table hin hcopied ht) va
  · intro hmem'
    exact h.tenancy.held_free (htfs hmem') hmem

theorem copyPage_spec (h : Spaces s roots lk lu tfs extra) (hold : old ∈ roots)
    (hnew : new ∈ roots) (hva : va < vaMax)
    (hsrc : userFrame s.mem old va = some pa) (hflags : flags.toNat < 1024)
    (huser : flags &&& pteU ≠ 0)
    (hrun : copyPage new va pa flags s = .ok (value, s')) :
    ∃ lk' lu', Spaces s' roots lk' lu' tfs extra ∧
      (∀ r ∈ roots, r ≠ new → Spares r s s') ∧ KeepsUpper roots s.mem s'.mem ∧
      ∀ x, x < vaMax → userByte s'.mem new x =
        if x.toNat / 4096 = va.toNat / 4096 then
          some (s.mem (pa.toNat + x.toNat % 4096))
        else userByte s.mem new x := by
  unfold copyPage at hrun
  rw [Exec.bind_eq_ok] at hrun
  obtain ⟨page, s₁, halloc, hrun⟩ := hrun
  rw [updateMem_bind] at hrun
  obtain ⟨rest, hfresh, h₁, _, _, htables₁, hspares₁⟩ := h.alloc halloc
  have hpage : page ∈ insert page extra := Set.mem_insert page extra
  have hnot : page ∉ tfs := fun hmem => hfresh (.inl hmem)
  have hgone : page ∉ extra := fun hmem => hfresh (.inr hmem)
  obtain ⟨s₂, hs₂, h₂, htables₂, hspares₂, hcopied⟩ := copy_held h₁ hpage hold hva
    ((hspares₁ old hold va hva).1.trans hsrc)
  rw [← hs₂] at hrun
  obtain ⟨lk', h₃, _, hframe, hsame, _, hspares₃, hupper₃⟩ :=
    h₂.map hnew hpage hnot (Set.subset_insert page extra) hgone hflags huser hrun
  -- what the tables show up to the mapping
  have hspares : ∀ r ∈ roots, Spares r s s₂ :=
    fun r hr => (hspares₁ r hr).trans (hspares₂ r hr)
  have hupper := (KeepsUpper.of_samePages htables₁).trans (.of_samePages htables₂)
  refine ⟨lk', rest, h₃, fun r hr hne => (hspares r hr).trans (hspares₃ r hr hne),
    hupper.trans hupper₃, ?_⟩
  have hin₂ := h₂.frames.held_in page (.inr hpage)
  intro x hx
  by_cases hx' : x.toNat / 4096 = va.toNat / 4096
  · rw [if_pos hx', userByte_of_frame ((hframe x hx).trans (if_pos hx')),
      hsame page hin₂ _ (inPage_offset page x.toNat), hcopied,
      (hspares₁ old hold va hva).2 pa hsrc _ (inPage_offset pa x.toNat)]
  · rw [if_neg hx', ← (hspares new hnew).userByte hx]
    unfold userByte
    rw [hframe x hx, if_neg hx']
    cases hf : userFrame s₂.mem new x with
    | none => rfl
    | some f =>
        rw [Option.map_some, Option.map_some, hsame f
          (h₂.frames.userFrame_in hnew hx hf) _ (inPage_offset f x.toNat)]

theorem cowFlags_lt (h : flags.toNat < 1024) : (cowFlags flags).toNat < 1024 :=
  and_lt (flags_or_lt h (by decide))

theorem cowFlags_user : cowFlags flags &&& pteU = flags &&& pteU := by
  unfold cowFlags
  rw [and_not_and (by decide), or_and_of_disjoint (by decide)]

theorem cowFlags_valid : cowFlags flags &&& pteV = flags &&& pteV := by
  unfold cowFlags
  rw [and_not_and (by decide), or_and_of_disjoint (by decide)]

/-- The page of an entry is copied, after the entry got other flags or not. -/
theorem copyEntry_spec {t : UInt64} {s₁ : MemState}
    (h : Spaces s roots lk lu tfs extra) (hold : old ∈ roots) (hnew : new ∈ roots)
    (hleaf : leafTable s.mem old va = some t)
    (hvalid : pteValid (entry s.mem t (vpn va 0)))
    (hframes : Frames s₁ roots lk lu (tfs ∪ extra))
    (htranslate : ∀ x, x < vaMax →
      translate s₁.mem new x = translate s.mem new x)
    (hregion : s₁.userRegion = s.userRegion)
    (hspaces : va < trapframe → Spaces s₁ roots lk lu tfs extra)
    (hspares : ∀ r ∈ roots, Spares r s s₁)
    (hupper : va < trapframe → KeepsUpper roots s.mem s₁.mem)
    (hflags : flags.toNat < 1024)
    (huser : flags &&& pteU = entry s.mem t (vpn va 0) &&& pteU)
    (hrun : copyPage new va (pteToPa (entry s.mem t (vpn va 0))) flags s₁ =
      .ok (value, s')) :
    ∃ lk' lu', Spaces s' roots lk' lu' tfs extra ∧ va < trapframe ∧
      va.toNat % 4096 = 0 ∧ (∀ r ∈ roots, r ≠ new → Spares r s s') ∧
      KeepsUpper roots s.mem s'.mem ∧
      ∀ x, x < vaMax → userByte s'.mem new x =
        if x.toNat / 4096 = va.toNat / 4096 then userByte s.mem old x
        else userByte s.mem new x := by
  have hva : va < trapframe := copyPage_below (h.kernel new hnew) htranslate hregion
    Set.subset_union_left hframes hnew hrun
  have hmax := lt_vaMax_of_lt hva
  have h₁ := hspaces hva
  have hfound : ∀ x, x < vaMax → x.toNat / 4096 = va.toNat / 4096 →
      translate s.mem old x = some (entry s.mem t (vpn va 0)) :=
    fun x hx hpage => Frames.translate_of_entry hmax hleaf hvalid hx hpage
  have huserOld := (h.kernel old hold).below va hva _ (hfound va hmax rfl)
  have hsrc : ∀ x, x < vaMax → x.toNat / 4096 = va.toNat / 4096 →
      userFrame s.mem old x = some (pteToPa (entry s.mem t (vpn va 0))) := by
    intro x hx hpage
    unfold userFrame userEntry
    rw [hfound x hx hpage, Option.bind_some, if_pos huserOld]
  have hsrc₁ : userFrame s₁.mem old va =
      some (pteToPa (entry s.mem t (vpn va 0))) :=
    (hspares old hold va hmax).1.trans (hsrc va hmax rfl)
  obtain ⟨lk', lu', h', hothers, hupper', hbytes⟩ :=
    copyPage_spec h₁ hold hnew hmax hsrc₁ hflags (huser ▸ huserOld) hrun
  refine ⟨lk', lu', h', hva, (copyPage_guard hrun).1,
    fun r hr hne => (hspares r hr).trans (hothers r hr hne), (hupper hva).trans hupper', ?_⟩
  intro x hx
  rw [hbytes x hx]
  split
  · next hpage =>
    unfold userByte
    rw [hsrc x hx hpage, Option.map_some, (hspares old hold va hmax).2 _
      (hsrc va hmax rfl) _ (inPage_offset _ x.toNat)]
  · exact (hspares new hnew).userByte hx

theorem copyRangeLoop_succ {turns : Nat} (h : Spaces s roots lk lu tfs extra)
    (hold : old ∈ roots) (hnew : new ∈ roots) (hne : old ≠ new)
    (hrun : copyRangeLoop old new (turns + 1) va s = .ok (value, s')) :
    ∃ s₁ lk₁ lu₁, Spaces s₁ roots lk₁ lu₁ tfs extra ∧ va < trapframe ∧
      va.toNat % 4096 = 0 ∧ (∀ r ∈ roots, r ≠ new → Spares r s s₁) ∧
      KeepsUpper roots s.mem s₁.mem ∧
      (∀ x, x < vaMax → userByte s₁.mem new x =
        if x.toNat / 4096 = va.toNat / 4096 then userByte s.mem old x
        else userByte s.mem new x) ∧
      copyRangeLoop old new turns (va + pgsize) s₁ = .ok (value, s') := by
  rw [copyRangeLoop, Exec.bind_eq_ok] at hrun
  obtain ⟨result, s₀, hgetpte, hrun⟩ := hrun
  obtain ⟨_, rfl, rfl⟩ := vmGetpte_reads_eq_ok.mp hgetpte
  cases hleaf : leafTable s₀.mem old va with
  | none =>
      rw [hleaf] at hrun
      cases hrun
  | some t =>
      rw [hleaf] at hrun
      dsimp only [Option.map_some] at hrun
      rw [readMem_bind, massert_bind_eq_ok] at hrun
      obtain ⟨hvalid, hrun⟩ := hrun
      have hload : s₀.mem.load64 (entryAddr t (vpn va 0)) =
        entry s₀.mem t (vpn va 0) := rfl
      rw [hload] at hvalid hrun
      have hlt := pteFlags_lt (entry s₀.mem t (vpn va 0))
      have hflag : pteFlags (entry s₀.mem t (vpn va 0)) &&& pteU =
          entry s₀.mem t (vpn va 0) &&& pteU := pteFlags_and (by decide)
      by_cases hwrite : pteFlags (entry s₀.mem t (vpn va 0)) &&& pteW ≠ 0
      · -- the entry loses the right to write
        rw [if_pos hwrite, updateMem_bind, Exec.bind_eq_ok] at hrun
        obtain ⟨_, s₁, hcopy, hrun⟩ := hrun
        obtain ⟨_, hroom⟩ := copyPage_guard hcopy
        have hmax : va < vaMax := by
          rw [UInt64.lt_iff_toNat_lt, vaMax_toNat]
          omega
        have hcow := cowFlags_lt hlt
        have hpte : pteValid (paToPte (pteToPa (entry s₀.mem t (vpn va 0))) |||
            cowFlags (pteFlags (entry s₀.mem t (vpn va 0)))) := by
          unfold pteValid at hvalid ⊢
          rwa [entry_and hcow (by decide), cowFlags_valid, pteFlags_and (by decide)]
        have hpa := pteToPa_entry
          (pteToPa_aligned (entry s₀.mem t (vpn va 0))) hcow
        have hkeep := cowFlags_user.trans hflag
        have huser : (paToPte (pteToPa (entry s₀.mem t (vpn va 0))) |||
            cowFlags (pteFlags (entry s₀.mem t (vpn va 0)))) &&& pteU =
              entry s₀.mem t (vpn va 0) &&& pteU :=
          (entry_and hcow (by decide)).trans hkeep
        obtain ⟨hframes, hmap, hspares⟩ :=
          h.frames.set_flags hold hmax hleaf hvalid hpte hpa huser
        obtain ⟨lk', lu', h', hva, haligned, hothers, hupper, hbytes⟩ :=
          copyEntry_spec h hold hnew hleaf hvalid hframes
            (fun x hx => hmap.others new hnew (Ne.symm hne) x hx) rfl
            (fun hva => (h.set_flags hold hva hleaf hvalid hpte hpa huser).1)
            hspares (fun hva => .setEntry_leaf h.frames.tables hold (.inl hva) hleaf _)
            hcow hkeep hcopy
        exact ⟨s₁, lk', lu', h', hva, haligned, hothers, hupper, hbytes, hrun⟩
      · rw [if_neg hwrite, Exec.bind_eq_ok] at hrun
        obtain ⟨_, s₁, hcopy, hrun⟩ := hrun
        obtain ⟨lk', lu', h', hva, haligned, hothers, hupper, hbytes⟩ :=
          copyEntry_spec h hold hnew hleaf hvalid h.frames (fun _ _ => rfl) rfl
            (fun _ => h) (fun r _ => Spares.refl r s₀) (fun _ => .refl roots _) hlt hflag hcopy
        exact ⟨s₁, lk', lu', h', hva, haligned, hothers, hupper, hbytes, hrun⟩

/-- The address lies in one of the pages from `begin` on. -/
def InTurns (begin : UInt64) (turns : Nat) (x : UInt64) : Prop :=
  begin.toNat / 4096 ≤ x.toNat / 4096 ∧
    x.toNat / 4096 < begin.toNat / 4096 + turns

instance (begin : UInt64) (turns : Nat) (x : UInt64) :
    Decidable (InTurns begin turns x) :=
  inferInstanceAs (Decidable (_ ∧ _))

theorem inTurns_zero (begin x : UInt64) : ¬ InTurns begin 0 x := by
  unfold InTurns
  omega

theorem inTurns_succ {begin : UInt64} (turns : Nat) (x : UInt64)
    (h : begin.toNat + 4096 < 2 ^ 64) :
    InTurns begin (turns + 1) x ↔ x.toNat / 4096 = begin.toNat / 4096 ∨
      InTurns (begin + pgsize) turns x := by
  unfold InTurns
  rw [add_pgsize_toNat h]
  omega

/-- The pages of the range are copied, and nothing else changes for user code. -/
theorem copyRangeLoop_spec {turns : Nat} (h : Spaces s roots lk lu tfs extra)
    (hold : old ∈ roots) (hnew : new ∈ roots) (hne : old ≠ new)
    (hrun : copyRangeLoop old new turns va s = .ok (value, s')) :
    ∃ lk' lu', Spaces s' roots lk' lu' tfs extra ∧
      (∀ r ∈ roots, r ≠ new → Spares r s s') ∧ KeepsUpper roots s.mem s'.mem ∧
      ∀ x, x < vaMax → userByte s'.mem new x =
        if InTurns va turns x then userByte s.mem old x
        else userByte s.mem new x := by
  induction turns generalizing s va lk lu with
  | zero =>
      cases hrun
      refine ⟨lk, lu, h, fun r _ _ => Spares.refl r _, .refl roots _, ?_⟩
      intro x _
      rw [if_neg (inTurns_zero va x)]
  | succ turns ih =>
      obtain ⟨s₁, lk₁, lu₁, h₁, hva, haligned, hothers, hupper, hbytes, hrest⟩ :=
        copyRangeLoop_succ h hold hnew hne hrun
      obtain ⟨lk', lu', h', hothers', hupper', hbytes'⟩ := ih h₁ hrest
      have hroom : va.toNat + 4096 < 2 ^ 64 := by
        rw [UInt64.lt_iff_toNat_lt, trapframe_toNat] at hva
        omega
      refine ⟨lk', lu', h', fun r hr hr' =>
        (hothers r hr hr').trans (hothers' r hr hr'), hupper.trans hupper', ?_⟩
      intro x hx
      rw [hbytes' x hx, (hothers old hold hne).userByte hx, hbytes x hx]
      simp only [inTurns_succ turns x hroom]
      by_cases hlater : InTurns (va + pgsize) turns x
      · rw [if_pos hlater, if_pos (.inr hlater)]
      · by_cases hhere : x.toNat / 4096 = va.toNat / 4096
        · rw [if_neg hlater, if_pos hhere, if_pos (.inl hhere)]
        · rw [if_neg hlater, if_neg hhere, if_neg (by tauto)]

/-! The spans of addresses that `uvm_copy_pgtbl` copies. -/

def InSpan (span : UInt64 × UInt64) (x : UInt64) : Prop :=
  InTurns span.1 ((span.2.toNat - span.1.toNat + 4095) / 4096) x

instance (span : UInt64 × UInt64) (x : UInt64) : Decidable (InSpan span x) :=
  inferInstanceAs (Decidable (InTurns _ _ _))

/-- Between the regions of a list, and behind the last one. -/
def gaps (regions : MmapId → MmapRegion) :
    (steps : Nat) → Option MmapId → List (UInt64 × UInt64)
  | _, none => []
  | 0, some _ => []
  | steps + 1, some id =>
      ((regions id).end_, gapEnd regions id) ::
        gaps regions steps (regions id).next

def spans (regions : MmapId → MmapRegion) (heapTop : UInt64) (ustackPages : UInt32)
    (mmap : Option MmapId) : List (UInt64 × UInt64) :=
  (userVmemStart, heapTop) ::
    (userStackBottom - (ustackPages * 4096).toUInt64, userStackBottom) ::
    gaps regions nMmap mmap

/-- The pages of the spans are copied, and nothing else changes for user code. -/
structure Copied (roots : Set UInt64) (old new : UInt64)
    (spans : List (UInt64 × UInt64)) (s s' : MemState) : Prop where
  others : ∀ r ∈ roots, r ≠ new → Spares r s s'
  bytes : ∀ x, x < vaMax → userByte s'.mem new x =
    if ∃ span ∈ spans, InSpan span x then userByte s.mem old x
    else userByte s.mem new x

theorem Copied.refl (roots : Set UInt64) (old new : UInt64) (s : MemState) :
    Copied roots old new [] s s :=
  ⟨fun r _ _ => Spares.refl r s, fun x _ => by simp⟩

theorem Copied.append {s'' : MemState} {spans spans' : List (UInt64 × UInt64)}
    (h : Copied roots old new spans s s') (h' : Copied roots old new spans' s' s'')
    (hold : old ∈ roots) (hne : old ≠ new) :
    Copied roots old new (spans ++ spans') s s'' := by
  refine ⟨fun r hr hr' => (h.others r hr hr').trans (h'.others r hr hr'), ?_⟩
  intro x hx
  rw [h'.bytes x hx, (h.others old hold hne).userByte hx, h.bytes x hx]
  simp only [List.mem_append, or_and_right, exists_or]
  by_cases hlater : ∃ span ∈ spans', InSpan span x
  · rw [if_pos hlater, if_pos (.inr hlater)]
  · by_cases hhere : ∃ span ∈ spans, InSpan span x
    · rw [if_neg hlater, if_pos hhere, if_pos (.inl hhere)]
    · rw [if_neg hlater, if_neg hhere, if_neg (not_or.mpr ⟨hhere, hlater⟩)]

theorem copyRange_spec {begin end_ : UInt64} (h : Spaces s roots lk lu tfs extra)
    (hold : old ∈ roots) (hnew : new ∈ roots) (hne : old ≠ new)
    (hrun : copyRange old new begin end_ s = .ok (value, s')) :
    ∃ lk' lu', Spaces s' roots lk' lu' tfs extra ∧
      Copied roots old new [(begin, end_)] s s' ∧ KeepsUpper roots s.mem s'.mem := by
  obtain ⟨lk', lu', h', hothers, hupper, hbytes⟩ :=
    copyRangeLoop_spec h hold hnew hne hrun
  refine ⟨lk', lu', h', ⟨hothers, ?_⟩, hupper⟩
  intro x hx
  simp only [List.mem_singleton, exists_eq_left]
  exact hbytes x hx

section

variable {st st' : UvmState}

theorem copyGaps_spec {steps : Nat} {mmap : Option MmapId}
    (h : Spaces st.mem roots lk lu tfs extra)
    (hold : old ∈ roots) (hnew : new ∈ roots) (hne : old ≠ new)
    (hrun : copyGaps old new steps mmap st = .ok (value, st')) :
    st' = { st with mem := st'.mem } ∧
      (∃ lk' lu', Spaces st'.mem roots lk' lu' tfs extra) ∧
      Copied roots old new (gaps st.regions steps mmap) st.mem st'.mem ∧
      KeepsUpper roots st.mem.mem st'.mem.mem := by
  induction steps generalizing st mmap lk lu with
  | zero =>
      cases mmap with
      | none =>
          cases hrun
          exact ⟨rfl, ⟨lk, lu, h⟩, Copied.refl .., .refl roots _⟩
      | some id => cases hrun
  | succ steps ih =>
      cases mmap with
      | none =>
          cases hrun
          exact ⟨rfl, ⟨lk, lu, h⟩, Copied.refl .., .refl roots _⟩
      | some id =>
          rw [copyGaps, Exec.bind_of_ok (m := get) rfl, liftMem_bind_eq_ok] at hrun
          obtain ⟨_, mem, hcopy, hrun⟩ := hrun
          obtain ⟨lk₁, lu₁, h₁, hcopied, hupper⟩ :=
            copyRange_spec h hold hnew hne hcopy
          obtain ⟨hst, hspaces, hcopied', hupper'⟩ := ih h₁ hrun
          exact ⟨hst, hspaces, hcopied.append hcopied' hold hne, hupper.trans hupper'⟩

theorem uvmCopyPgtbl_spec {heapTop : UInt64} {ustackPages : UInt32}
    {mmap : Option MmapId} (h : Spaces st.mem roots lk lu tfs extra)
    (hold : old ∈ roots) (hnew : new ∈ roots) (hne : old ≠ new)
    (hrun : uvmCopyPgtbl old new heapTop ustackPages mmap st = .ok (value, st')) :
    st' = { st with mem := st'.mem } ∧
      (∃ lk' lu', Spaces st'.mem roots lk' lu' tfs extra) ∧
      Copied roots old new (spans st.regions heapTop ustackPages mmap)
        st.mem st'.mem ∧ KeepsUpper roots st.mem.mem st'.mem.mem := by
  unfold uvmCopyPgtbl at hrun
  rw [liftMem_bind_eq_ok] at hrun
  obtain ⟨_, mem₁, hheap, hrun⟩ := hrun
  rw [liftMem_bind_eq_ok] at hrun
  obtain ⟨_, mem₂, hstack, hrun⟩ := hrun
  obtain ⟨lk₁, lu₁, h₁, hcopied₁, hupper₁⟩ := copyRange_spec h hold hnew hne hheap
  obtain ⟨lk₂, lu₂, h₂, hcopied₂, hupper₂⟩ := copyRange_spec h₁ hold hnew hne hstack
  obtain ⟨hst, hspaces, hcopied₃, hupper₃⟩ := copyGaps_spec h₂ hold hnew hne hrun
  refine ⟨hst, hspaces, ?_, (hupper₁.trans hupper₂).trans hupper₃⟩
  exact hcopied₁.append (hcopied₂.append hcopied₃ hold hne) hold hne

end

end UnoOS.Uvm
