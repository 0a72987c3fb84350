import UnoOS.Mem.Spaces
import UnoOS.Uvm.CopyExact

namespace UnoOS.Uvm

open UnoOS.Lib
open UnoOS.Mem

/-! Memory that no process has. -/

/-- Bytes of the kernel that are in no table and in no page of the allocator. -/
structure OffPages (s : MemState) (roots : Set UInt64) (a : UInt64) (n : Nat) : Prop where
  low : 4096 ≤ a.toNat
  room : a.toNat + n < 2 ^ 64
  tables : ∀ j, j < n → ∀ t, IsTable s.mem roots t → ¬ InPage t (a.toNat + j)
  pages : ∀ j, j < n → ∀ k page, (s.region k).Contains page → ¬ InPage page (a.toNat + j)

variable {s s' : MemState} {roots : Set UInt64} {lk lk' lu : List UInt64} {tfs extra : Set UInt64}
  {page a : UInt64} {n : Nat}

theorem spaces_elsewhere (h : Spaces s roots lk lu tfs extra)
    (htables : ∀ t, IsTable s.mem roots t → SamePage t s.mem s'.mem)
    (huser : ∀ f, s.userRegion.Contains f → SamePage f s.mem s'.mem)
    (hregion : s'.userRegion = s.userRegion) (hlist : FreeList s' true lk')
    (hsub : ∀ q ∈ lk', q ∈ lk) :
    Spaces s' roots lk' lu tfs extra ∧ ∀ root ∈ roots, Spares root s s' := by
  have hframe : ∀ root ∈ roots, ∀ va,
      userFrame s'.mem root va = userFrame s.mem root va := by
    intro root hroot va
    unfold userFrame
    rw [translate_of_samePages hroot htables]
  have howns : Owns s'.mem roots = Owns s.mem roots := by
    funext place f
    apply propext
    constructor
    · rintro ⟨hroot, va, hva, hplace, hf⟩
      exact ⟨hroot, va, hva, hplace, (hframe _ hroot va).symm.trans hf⟩
    · rintro ⟨hroot, va, hva, hplace, hf⟩
      exact ⟨hroot, va, hva, hplace, (hframe _ hroot va).trans hf⟩
  have hframes := h.frames
  refine ⟨⟨⟨hframes.tables.of_samePages htables, ⟨hlist, ?_⟩, ?_, ?_, ?_, ?_, ?_, ?_, ?_⟩,
    h.kernel_congr (fun _ hf => hf) (fun _ => by rw [hregion]) htables⟩, ?_⟩
  · intro q hq htable
    exact hframes.kern.fresh q (hsub q hq) ((isTable_of_samePages htables).mp htable)
  · exact hframes.user.congr hregion fun q hq => huser q (hframes.user.inRegion q hq)
  · rw [hregion]
    exact hframes.nonzero
  · intro q htable
    rw [hregion]
    exact hframes.tables_apart q ((isTable_of_samePages htables).mp htable)
  · intro q hq
    rw [hregion]
    exact hframes.kern_apart q (hsub q hq)
  · intro place f hf
    rw [howns] at hf
    rw [hregion]
    exact hframes.owned_in place f hf
  · intro f hf
    rw [hregion]
    exact hframes.held_in f hf
  · rw [howns]
    exact hframes.tenancy
  · intro root hroot va hva
    refine ⟨hframe root hroot va, ?_⟩
    intro f hf
    exact huser f (hframes.userFrame_in hroot hva hf)

/-- A call that only wrote where no process has memory, as seen by the processes. -/
structure Elsewhere (s s' : MemState) (roots : Set UInt64) : Prop where
  tables : ∀ t, IsTable s.mem roots t → SamePage t s.mem s'.mem
  spares : ∀ root ∈ roots, Spares root s s'
  regions : ∀ k q, (s'.region k).Contains q ↔ (s.region k).Contains q

theorem Elsewhere.trans {s'' : MemState} (h : Elsewhere s s' roots)
    (h' : Elsewhere s' s'' roots) : Elsewhere s s'' roots := by
  refine ⟨?_, fun r hr => (h.spares r hr).trans (h'.spares r hr),
    fun k q => (h'.regions k q).trans (h.regions k q)⟩
  intro t ht
  exact (h.tables t ht).trans (h'.tables t ((isTable_of_samePages h.tables).mpr ht))

theorem OffPages.keep (h : OffPages s roots a n) (helse : Elsewhere s s' roots) :
    OffPages s' roots a n := by
  refine ⟨h.low, h.room, ?_, ?_⟩
  · intro j hj t ht
    exact h.tables j hj t ((isTable_of_samePages helse.tables).mp ht)
  · intro j hj k q hq
    exact h.pages j hj k q ((helse.regions k q).mp hq)

theorem OffPages.write (hoff : OffPages s roots a n) (h : Spaces s roots lk lu tfs extra)
    {m : Memory} (honly : ∀ x, x < a.toNat ∨ a.toNat + n ≤ x → m x = s.mem x) :
    Spaces (s.setMem m) roots lk lu tfs extra ∧ Elsewhere s (s.setMem m) roots ∧
      ∀ k q, (s.region k).Contains q → SamePage q s.mem m := by
  have htables : ∀ t, IsTable s.mem roots t → SamePage t s.mem m := by
    intro t ht x hx
    apply honly
    by_contra hin
    refine hoff.tables (x - a.toNat) (by omega) t ht ?_
    rwa [Nat.add_sub_cancel' (by omega)]
  have hpages : ∀ k q, (s.region k).Contains q → SamePage q s.mem m := by
    intro k q hq x hx
    apply honly
    by_contra hin
    refine hoff.pages (x - a.toNat) (by omega) k q hq ?_
    rwa [Nat.add_sub_cancel' (by omega)]
  have hlist : FreeList (s.setMem m) true lk :=
    h.frames.kern.list.congr rfl fun q hq =>
      hpages true q (h.frames.kern.list.inRegion q hq)
  obtain ⟨hspaces, hspares⟩ : Spaces (s.setMem m) roots lk lu tfs extra ∧
      ∀ root ∈ roots, Spares root s (s.setMem m) :=
    spaces_elsewhere h htables (hpages false) rfl hlist fun _ hq => hq
  exact ⟨hspaces, ⟨htables, hspares, fun _ _ => Iff.rfl⟩, hpages⟩

structure OwnPage (s : MemState) (roots : Set UInt64) (lk : List UInt64)
    (page : UInt64) : Prop where
  nonzero : page ≠ 0
  aligned : page.toNat % 4096 = 0
  free : page ∉ lk
  table : ¬ IsTable s.mem roots page
  user : ¬ s.userRegion.Contains page

theorem OwnPage.write (hpage : OwnPage s roots lk page)
    (h : Spaces s roots lk lu tfs extra) {m : Memory} (honly : OnlyPage page s.mem m) :
    Spaces (s.setMem m) roots lk lu tfs extra ∧ Elsewhere s (s.setMem m) roots := by
  have htables : ∀ t, IsTable s.mem roots t → SamePage t s.mem m := by
    intro t ht
    refine honly.samePage hpage.aligned (IsTable.aligned h.frames.tables ht) ?_
    rintro rfl
    exact hpage.table ht
  have huser : ∀ f, s.userRegion.Contains f → SamePage f s.mem m := by
    intro f hf
    refine honly.samePage hpage.aligned hf.aligned ?_
    rintro rfl
    exact hpage.user hf
  have hlist : FreeList (s.setMem m) true lk := by
    refine h.frames.kern.list.congr rfl ?_
    intro q hq
    refine honly.samePage hpage.aligned (h.frames.kern.list.inRegion q hq).aligned ?_
    rintro rfl
    exact hpage.free hq
  obtain ⟨hspaces, hspares⟩ : Spaces (s.setMem m) roots lk lu tfs extra ∧
      ∀ root ∈ roots, Spares root s (s.setMem m) :=
    spaces_elsewhere h htables huser rfl hlist fun _ hq => hq
  exact ⟨hspaces, htables, hspares, fun _ _ => Iff.rfl⟩

theorem allocOwn (h : Spaces s roots lk lu tfs extra)
    (hrun : pmemAlloc true s = .ok (page, s')) :
    ∃ rest, lk = page :: rest ∧ Spaces s' roots rest lu tfs extra ∧
      Elsewhere s s' roots ∧ OwnPage s' roots rest page := by
  obtain ⟨rest, rfl, hlist⟩ := h.frames.kern.list.alloc hrun
  obtain ⟨_, hne, hpage, rfl⟩ := pmemAlloc_eq_ok.mp hrun
  have honly : OnlyPage page s.mem (s.taken true).mem := by
    rw [hpage]
    exact onlyPage_taken
  have hmem : page ∈ page :: rest := List.mem_cons_self
  have haligned := (h.frames.kern.list.inRegion page hmem).aligned
  have hfresh := h.frames.kern.fresh page hmem
  have hnot := h.frames.kern_apart page hmem
  have htables : ∀ t, IsTable s.mem roots t → SamePage t s.mem (s.taken true).mem := by
    intro t ht
    refine honly.samePage haligned (IsTable.aligned h.frames.tables ht) ?_
    rintro rfl
    exact hfresh ht
  have huser : ∀ f, s.userRegion.Contains f → SamePage f s.mem (s.taken true).mem := by
    intro f hf
    refine honly.samePage haligned hf.aligned ?_
    rintro rfl
    exact hnot hf
  obtain ⟨hspaces, hspares⟩ := spaces_elsewhere h htables huser
    (region_taken_of_ne (show false ≠ true by decide)) hlist
    fun _ hq => List.mem_cons_of_mem _ hq
  refine ⟨rest, rfl, hspaces, ⟨htables, hspares, ?_⟩, ?_⟩
  · intro k q
    by_cases hk : k = true
    · subst hk
      rw [region_taken]
      exact Region.contains_congr rfl rfl
    · rw [region_taken_of_ne hk]
  · refine ⟨hpage ▸ hne, haligned, (List.nodup_cons.mp h.frames.kern.list.nodup).1, ?_, ?_⟩
    · exact fun htable => hfresh ((isTable_of_samePages htables).mp htable)
    · rw [show (s.taken true).userRegion = s.userRegion from
        region_taken_of_ne (show false ≠ true by decide)]
      exact hnot

/-! What the copies write. -/

theorem copyinStrLoop_writes {pgtbl dst offset srcbeg paddr : UInt64} {turns : Nat}
    {value : Unit} (hroom : dst.toNat + turns ≤ 2 ^ 64)
    (hrun : copyinStrLoop pgtbl turns dst offset srcbeg paddr s = .ok (value, s')) :
    ∃ m, s' = s.setMem m ∧
      ∀ x, x < dst.toNat ∨ dst.toNat + turns ≤ x → m x = s.mem x := by
  induction turns generalizing dst offset srcbeg paddr s with
  | zero =>
      cases hrun
      exact ⟨s'.mem, rfl, fun _ _ => rfl⟩
  | succ turns ih =>
      rw [copyinStrLoop, Exec.bind_eq_ok] at hrun
      obtain ⟨⟨srcbeg', paddr'⟩, s₁, hpage, hrun⟩ := hrun
      have hsame : s₁ = s := by
        unfold copyinStrPage at hpage
        split at hpage
        · obtain ⟨result, s₂, hgetpte, hpage⟩ := Exec.bind_eq_ok.mp hpage
          obtain ⟨_, rfl, _⟩ := vmGetpte_reads_eq_ok.mp hgetpte
          cases result with
          | none => cases hpage
          | some pte =>
              dsimp only at hpage
              rw [readMem_bind, massert_bind_eq_ok] at hpage
              exact (Prod.mk.inj (Except.ok.inj hpage.2)).2.symm
        · exact (Prod.mk.inj (Except.ok.inj hpage)).2.symm
      subst hsame
      dsimp only at hrun
      rw [readMem_bind, updateMem_bind] at hrun
      split at hrun
      · by_cases hlast : turns = 0
        · subst hlast
          cases hrun
          refine ⟨_, rfl, ?_⟩
          intro x hx
          rw [Memory.write_of_not_mem (by omega)]
        · have hnext : (dst + 1).toNat = dst.toNat + 1 := by
            rw [UInt64.toNat_add]
            exact Nat.mod_eq_of_lt (show dst.toNat + 1 < 2 ^ 64 by omega)
          obtain ⟨m, rfl, hm⟩ := ih (by omega) hrun
          refine ⟨m, rfl, ?_⟩
          intro x hx
          rw [hm x (by omega), MemState.mem_setMem, Memory.write_of_not_mem (by omega)]
      · cases hrun
        refine ⟨_, rfl, ?_⟩
        intro x hx
        rw [Memory.write_of_not_mem (by omega)]

theorem userByte_placeOf {root addr : UInt64} {i : Nat}
    (h : Spaces s roots lk lu tfs extra) (hroot : root ∈ roots)
    (hbelow : addr.toNat + i < trapframe.toNat)
    (hmapped : (translate s.mem root (addr + UInt64.ofNat i)).isSome) :
    s.userRegion.Contains (frameOf s.mem root (addr + UInt64.ofNat i)) ∧
      userByte s.mem root (addr + UInt64.ofNat i) =
        some (s.mem (placeOf s.mem root addr i)) := by
  rw [trapframe_toNat] at hbelow
  have haddr : (addr + UInt64.ofNat i).toNat = addr.toNat + i := by
    rw [UInt64.toNat_add, UInt64.toNat_ofNat_of_lt' (show i < 2 ^ 64 by omega)]
    exact Nat.mod_eq_of_lt (by omega)
  have hlt : addr + UInt64.ofNat i < trapframe := by
    rw [UInt64.lt_iff_toNat_lt, haddr, trapframe_toNat]
    exact hbelow
  obtain ⟨pte, hpte⟩ := Option.isSome_iff_exists.mp hmapped
  have hframe : userFrame s.mem root (addr + UInt64.ofNat i) = some (pteToPa pte) := by
    unfold userFrame userEntry
    rw [hpte, Option.bind_some, if_pos ((h.kernel root hroot).below _ hlt _ hpte)]
  rw [frameOf_of_translate hpte]
  refine ⟨h.frames.userFrame_in hroot (lt_vaMax_of_lt hlt) hframe, ?_⟩
  rw [userByte_of_frame hframe]
  unfold placeOf
  rw [frameOf_of_translate hpte, haddr]

theorem ownBuffer_of_offPages {root addr dst : UInt64} {len : UInt32}
    (h : Spaces s roots lk lu tfs extra) (hroot : root ∈ roots)
    (hoff : OffPages s roots dst len.toNat)
    (hbelow : addr.toNat + len.toNat ≤ trapframe.toNat) :
    OwnBuffer s.mem root addr len dst := by
  refine ⟨hoff.room, ?_, ?_⟩
  · intro j hj t ht
    exact hoff.tables j hj t (ht.mono (Set.singleton_subset_iff.mpr hroot))
  · intro i j hi hj heq
    cases hpte : translate s.mem root (addr + UInt64.ofNat i) with
    | none =>
        have hzero : frameOf s.mem root (addr + UInt64.ofNat i) = 0 := by
          unfold frameOf
          rw [hpte]
          rfl
        unfold placeOf at heq
        rw [hzero] at heq
        have hlow := hoff.low
        change 0 + _ = _ at heq
        omega
    | some pte =>
        obtain ⟨hin, _⟩ := userByte_placeOf (i := i) h hroot (by omega)
          (Option.isSome_iff_exists.mpr ⟨pte, hpte⟩)
        refine hoff.pages j hj false _ hin ?_
        rw [← heq]
        exact inPage_placeOf s.mem root addr i

theorem eachPage_setMem {root addr beg : UInt64} {len : UInt32} {message : String}
    {copy : (at_ n done : Nat) → Memory → Memory} {turns done n : Nat}
    (hrun : eachPage root addr len message copy turns beg done s = .ok (n, s')) :
    s' = s.setMem s'.mem := by
  induction turns generalizing beg done s with
  | zero =>
      cases hrun
      rfl
  | succ turns ih =>
      obtain ⟨_, pte, _, hrest⟩ := eachPage_succ_eq_ok.mp hrun
      have hmem := ih hrest
      exact hmem

theorem copyinWrites_word {root addr dst : UInt64} {n : Nat}
    (h : Spaces s roots lk lu tfs extra) (hroot : root ∈ roots)
    (hoff : OffPages s roots dst 8) (hbelow : addr.toNat + 8 ≤ trapframe.toNat)
    (hn : n ≤ 8) (hrun : copyinWrites root dst addr 8 s = .ok (n, s')) :
    (∀ j, j < 8 → userByte s.mem root (addr + UInt64.ofNat j) =
      some (s'.mem (dst.toNat + j))) ∧
    ∀ x, x < dst.toNat ∨ dst.toNat + 8 ≤ x → s'.mem x = s.mem x := by
  have hbuffer : OwnBuffer s.mem root addr 8 dst :=
    ownBuffer_of_offPages h hroot hoff hbelow
  have hlen : (8 : UInt32).toNat = 8 := rfl
  have hroom : addr.toNat + (8 : UInt32).toNat < 2 ^ 64 := by
    rw [trapframe_toNat] at hbelow
    omega
  have hmax : 0 < (8 : UInt32).toNat → addr.toNat + (8 : UInt32).toNat ≤ 2 ^ 38 := by
    rw [trapframe_toNat] at hbelow
    omega
  have hpage := AtPage.start hroom
  have hstart : Loaded s.mem root addr dst 0 s.mem :=
    ⟨fun i hi => absurd hi (Nat.not_lt_zero i), fun _ _ => rfl⟩
  have hcopying := copying_loadBytes hbuffer
  have hfits : ∀ va : UInt64, va.toNat % 4096 = 0 →
      (pgrounddown addr).toNat ≤ va.toNat → va.toNat < addr.toNat + (8 : UInt32).toNat →
      PageFits s.mem root addr 8 va := fun va haligned hlow hhigh =>
    hcopying.fits hroom hmax hpage hstart hrun hn haligned hlow hhigh
  have hnonzero : root ≠ 0 := by
    rw [copyinWrites, show pagesMeeting addr 8 = pagesMeeting addr 8 - 1 + 1 by
      have hturns := hpage.turns
      have hdown := pgrounddown_toNat addr
      omega] at hrun
    exact (eachPage_succ_eq_ok.mp hrun).1.2
  obtain ⟨s₁, hrun₁, hloaded⟩ := hcopying.copies hnonzero hroom hmax hpage hstart hfits
  obtain ⟨_, rfl⟩ := Prod.mk.inj (Except.ok.inj (hrun.symm.trans hrun₁))
  refine ⟨?_, hloaded.frame⟩
  intro j hj
  have haddr : (addr + UInt64.ofNat j).toNat = addr.toNat + j := by
    rw [UInt64.toNat_add, UInt64.toNat_ofNat_of_lt' (show j < 2 ^ 64 by omega)]
    exact Nat.mod_eq_of_lt (by omega)
  have hdown := pgrounddown_toNat addr
  have hdown' := pgrounddown_toNat (addr + UInt64.ofNat j)
  rw [trapframe_toNat] at hbelow
  obtain ⟨hle, hmapped, _⟩ := hfits (pgrounddown (addr + UInt64.ofNat j)) (by omega)
    (by omega) (by omega)
  have hsame : translate s.mem root (pgrounddown (addr + UInt64.ofNat j)) =
      translate s.mem root (addr + UInt64.ofNat j) := by
    refine translate_same_page ?_ ?_ (by omega)
    · rw [UInt64.lt_iff_toNat_lt, vaMax_toNat]
      omega
    · rw [UInt64.le_iff_toNat_le, vaMax_toNat]
      omega
  rw [hsame] at hmapped
  obtain ⟨_, hbyte⟩ := userByte_placeOf h hroot (by rw [trapframe_toNat]; omega) hmapped
  rw [hbyte, hloaded.copied j hj]

end UnoOS.Uvm
