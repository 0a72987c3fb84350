import UnoOS.Mem.Spaces

namespace UnoOS.Mem

open UnoOS.Lib

/-! `vm_unmappages` on pages of user code.  It gives a frame back before it clears
the entry, with the same memory in the end as the other way round. -/

section

variable {s s' : MemState} {t page : UInt64} {k : Bool}

/-- A write to another page may come before the entry or after it. -/
theorem setEntry_write (m : Memory) (idx : Vpn) (pte : UInt64)
    (ht : t.toNat % 4096 = 0) (hpage : page.toNat % 4096 = 0) (hne : page ≠ t) {off len : Nat}
    (hoff : off + len ≤ 4096) (src : Nat → UInt8) :
    (setEntry m t idx pte).write (page.toNat + off) len src =
      setEntry (m.write (page.toNat + off) len src) t idx pte := by
  have hdiff : page.toNat ≠ t.toNat := fun heq => hne (UInt64.toNat_inj.mp heq)
  have hidx := idx.isLt
  apply Memory.write_comm
  unfold entryAddr
  omega

theorem counted_setEntry (idx : Vpn) (pte : UInt64) (ht : t.toNat % 4096 = 0)
    (hpage : page.toNat % 4096 = 0) (hne : page ≠ t) :
    refCnt (setEntry s.mem t idx pte) page = refCnt s.mem page ∧
    (s.setMem (setEntry s.mem t idx pte)).counted page =
      (s.counted page).setMem (setEntry (s.counted page).mem t idx pte) := by
  have hrefs : refCnt (setEntry s.mem t idx pte) page = refCnt s.mem page := by
    have hsame := (onlyPage_setEntry s.mem t idx pte).samePage ht hpage hne
    apply Memory.load32_congr
    intro i hi
    apply hsame
    unfold InPage refCntAddr
    omega
  have hmem : (setEntry s.mem t idx pte).store32 (refCntAddr page)
      (refCnt (setEntry s.mem t idx pte) page - 1) =
      setEntry (s.mem.store32 (refCntAddr page) (refCnt s.mem page - 1)) t idx pte := by
    rw [hrefs]
    exact setEntry_write s.mem idx pte ht hpage hne (show 8 + 4 ≤ 4096 by omega) _
  refine ⟨hrefs, ?_⟩
  unfold MemState.counted MemState.setMem
  dsimp only
  rw [hmem]

theorem pushed_setEntry (idx : Vpn) (pte : UInt64) (ht : t.toNat % 4096 = 0)
    (hpage : page.toNat % 4096 = 0) (hne : page ≠ t) :
    (s.setMem (setEntry s.mem t idx pte)).pushed page k =
      (s.pushed page k).setMem (setEntry (s.pushed page k).mem t idx pte) := by
  have hcounted : ((s.setMem (setEntry s.mem t idx pte)).counted page).mem =
      setEntry (s.counted page).mem t idx pte :=
    congrArg MemState.mem (counted_setEntry idx pte ht hpage hne).2
  have hmem : (((s.setMem (setEntry s.mem t idx pte)).counted page).mem.memset
      page.toNat 1 4096).store64 page.toNat (s.region k).next =
      setEntry (((s.counted page).mem.memset page.toNat 1 4096).store64 page.toNat
        (s.region k).next) t idx pte := by
    rw [hcounted]
    have hjunk := setEntry_write (s.counted page).mem idx pte ht hpage hne
      (show 0 + 4096 ≤ 4096 by omega) (fun _ => 1)
    have hlink := fun m => setEntry_write m idx pte ht hpage hne
      (show 0 + 8 ≤ 4096 by omega) (Memory.digit (s.region k).next.toNat)
    exact (congrArg (fun m : Memory => m.store64 page.toNat (s.region k).next) hjunk).trans
      (hlink _)
  unfold MemState.pushed
  rw [MemState.region_setMem, hmem]
  cases k with
  | true => rfl
  | false => rfl

/-- `pmem_free` does not notice an entry that is cleared before it. -/
theorem pmemFree_setEntry {value : Unit} (idx : Vpn) (pte : UInt64)
    (ht : t.toNat % 4096 = 0) (hne : page ≠ t)
    (hrun : pmemFree page k s = .ok (value, s')) :
    pmemFree page k (s.setMem (setEntry s.mem t idx pte)) =
      .ok (value, s'.setMem (setEntry s'.mem t idx pte)) := by
  obtain ⟨hin, rfl⟩ := pmemFree_eq_ok.mp hrun
  obtain ⟨hrefs, hcounted⟩ := counted_setEntry (s := s) idx pte ht hin.aligned hne
  refine pmemFree_eq_ok.mpr ⟨hin, ?_⟩
  rw [MemState.mem_setMem, hrefs]
  split
  · exact (pushed_setEntry idx pte ht hin.aligned hne).symm
  · exact hcounted.symm

end

variable {s s' s₁ : MemState} {roots : Set UInt64} {lk lu : List UInt64}
  {tfs extra : Set UInt64} {root va t page : UInt64} {value : Unit}

/-- No page is in both regions, and the kernel's has no page at the null pointer. -/
def RegionsApart (s : MemState) : Prop :=
  ∀ page, s.kernRegion.Contains page → page ≠ 0 ∧ ¬ s.userRegion.Contains page

theorem RegionsApart.congr (h : RegionsApart s)
    (hbegin : s'.kernRegion.begin = s.kernRegion.begin)
    (hend : s'.kernRegion.end_ = s.kernRegion.end_)
    (huser : ∀ q, s'.userRegion.Contains q ↔ s.userRegion.Contains q) :
    RegionsApart s' := by
  intro page hin
  rw [huser]
  exact h page ((Region.contains_congr hbegin hend).mp hin)

theorem RegionsApart.free (h : RegionsApart s)
    (hrun : pmemFree page false s = .ok (value, s')) : RegionsApart s' := by
  obtain ⟨_, rfl⟩ := pmemFree_eq_ok.mp hrun
  split
  · exact h.congr rfl rfl fun q => Region.contains_congr rfl rfl
  · exact h

/-- What a call does to the memory of one process: `gone` are the pages that it
takes away. -/
structure Unmaps (roots : Set UInt64) (root : UInt64) (gone : Nat → Prop)
    (s s' : MemState) : Prop where
  frames : ∀ x, x < vaMax → gone (x.toNat / 4096) → userFrame s'.mem root x = none
  bytes : ∀ x, x < vaMax → ¬ gone (x.toNat / 4096) →
    userByte s'.mem root x = userByte s.mem root x
  others : ∀ r ∈ roots, r ≠ root → Spares r s s'
  upper : KeepsUpper roots s.mem s'.mem

namespace Unmaps

variable {gone gone' : Nat → Prop} {s'' : MemState}

theorem congr (h : Unmaps roots root gone s s') (hgone : ∀ n, gone' n ↔ gone n) :
    Unmaps roots root gone' s s' :=
  ⟨fun x hx hpage => h.frames x hx ((hgone _).mp hpage),
    fun x hx hpage => h.bytes x hx fun hold => hpage ((hgone _).mpr hold),
    h.others, h.upper⟩

theorem refl (roots : Set UInt64) (root : UInt64) (s : MemState) :
    Unmaps roots root (fun _ => False) s s :=
  ⟨fun _ _ hgone => hgone.elim, fun _ _ _ => rfl, fun r _ _ => Spares.refl r s,
    .refl roots _⟩

theorem trans (h : Unmaps roots root gone s s') (h' : Unmaps roots root gone' s' s'') :
    Unmaps roots root (fun n => gone n ∨ gone' n) s s'' := by
  refine ⟨?_, ?_, fun r hr hne => (h.others r hr hne).trans (h'.others r hr hne),
    h.upper.trans h'.upper⟩
  · intro x hx hpage
    by_cases hlater : gone' (x.toNat / 4096)
    · exact h'.frames x hx hlater
    · have hbyte := h'.bytes x hx hlater
      unfold userByte at hbyte
      rw [h.frames x hx (hpage.resolve_right hlater), Option.map_none] at hbyte
      exact Option.map_eq_none_iff.mp hbyte
  · intro x hx hpage
    rw [not_or] at hpage
    rw [h'.bytes x hx hpage.2, h.bytes x hx hpage.1]

end Unmaps

namespace Spaces

theorem unmap_page (h : Spaces s roots lk lu tfs extra) (hroot : root ∈ roots)
    (hva : va < trapframe) (hleaf : leafTable s.mem root va = some t)
    (hvalid : pteValid (entry s.mem t (vpn va 0)))
    (hfree : pmemFree (pteToPa (entry s.mem t (vpn va 0))) false s = .ok (value, s₁)) :
    ∃ lu', Spaces (s₁.setMem (setEntry s₁.mem t (vpn va 0) 0)) roots lk lu' tfs extra ∧
      Unmaps roots root (· = va.toNat / 4096) s
        (s₁.setMem (setEntry s₁.mem t (vpn va 0) 0)) := by
  have hmax := lt_vaMax_of_lt hva
  have htable := leafTable_isTable hroot hleaf
  have hframe := h.userFrame_of_entry hroot hva hleaf hvalid
  have hin := h.frames.userFrame_in hroot hmax hframe
  have hne : pteToPa (entry s.mem t (vpn va 0)) ≠ t := by
    intro heq
    rw [heq] at hin
    exact h.frames.tables_apart t htable hin
  have hinvalid : pteValid 0 = false := by decide
  obtain ⟨h₂, hframe₂, hsame₂, hspares₂, hupper₂⟩ :=
    h.clear_entry hroot hva hleaf hvalid hinvalid
  have hfree₂ := pmemFree_setEntry (vpn va 0) 0
    (IsTable.aligned h.frames.tables htable) hne hfree
  have hheld := h.frames.tenancy.owned_held (Frames.owns_of_userFrame hroot hmax hframe)
  obtain ⟨lu', h₃, htables₃, hspares₃⟩ := h₂.free (Set.mem_insert _ extra)
    (fun hmem => hheld (.inl hmem)) (Set.subset_insert _ extra)
    (fun hmem => hheld (.inr hmem)) hfree₂
  refine ⟨lu', h₃, ⟨?_, ?_, fun r hr hne => (hspares₂ r hr hne).trans (hspares₃ r hr),
    hupper₂.trans (.of_samePages htables₃)⟩⟩
  · intro x hx hpage
    refine ((hspares₃ root hroot) x hx).1.trans ?_
    exact (hframe₂ x hx).trans (if_pos hpage)
  · intro x hx hpage
    rw [(hspares₃ root hroot).userByte hx]
    have hkept := (hframe₂ x hx).trans (if_neg hpage)
    unfold userByte
    rw [MemState.mem_setMem, hkept]
    cases hf : userFrame s.mem root x with
    | none => rfl
    | some f =>
        rw [Option.map_some, Option.map_some,
          hsame₂ f (h.frames.userFrame_in hroot hx hf) _ (inPage_offset f x.toNat)]

theorem unmap_loop {pages : Nat} {beg : UInt64} (h : Spaces s roots lk lu tfs extra)
    (hroot : root ∈ roots) (hapart : RegionsApart s)
    (hrange : beg.toNat + pages * 4096 ≤ trapframe.toNat)
    (hrun : vmUnmappagesLoop root true pages beg s = .ok (value, s')) :
    ∃ lu', Spaces s' roots lk lu' tfs extra ∧ RegionsApart s' ∧
      Unmaps roots root
        (fun n => beg.toNat / 4096 ≤ n ∧ n < beg.toNat / 4096 + pages) s s' := by
  induction pages generalizing s beg lu with
  | zero =>
      cases hrun
      refine ⟨lu, h, hapart, (Unmaps.refl roots root _).congr ?_⟩
      exact fun n => ⟨fun hgone => by omega, False.elim⟩
  | succ pages ih =>
      obtain ⟨t, s₁, hleaf, hvalid, _, hfree, hrest⟩ := vmUnmappagesLoop_succ hrun
      have hva : beg < trapframe := by
        rw [UInt64.lt_iff_toNat_lt]
        omega
      have hnext : (beg + pgsize).toNat = beg.toNat + 4096 := by
        apply add_pgsize_toNat
        rw [trapframe_toNat] at hrange
        omega
      have hin := h.frames.userFrame_in hroot (lt_vaMax_of_lt hva)
        (h.userFrame_of_entry hroot hva hleaf hvalid)
      -- a frame of user code is not in the region of the kernel
      have huser : decide (root = s.kernelPgtbl) = false := by
        rw [freeFrame_eq_ok, if_pos rfl, pmemFree_eq_ok] at hfree
        cases hflag : decide (root = s.kernelPgtbl) with
        | false => rfl
        | true =>
            rw [hflag] at hfree
            exact absurd hin (hapart _ hfree.1).2
      rw [freeFrame_eq_ok, if_pos rfl, huser] at hfree
      obtain ⟨lu₁, h₁, hpage⟩ := h.unmap_page hroot hva hleaf hvalid hfree
      have hapart₁ : RegionsApart (s₁.setMem (setEntry s₁.mem t (vpn beg 0) 0)) :=
        RegionsApart.congr (hapart.free hfree) rfl rfl fun _ => Iff.rfl
      obtain ⟨lu', h', hapart', hpages⟩ := ih h₁ hapart₁ (by omega) hrest
      refine ⟨lu', h', hapart', (hpage.trans hpages).congr ?_⟩
      intro n
      rw [hnext]
      omega

end Spaces

end UnoOS.Mem
