import UnoOS.Uvm.HeapRuns

namespace UnoOS.Uvm

open UnoOS.Lib
open UnoOS.Mem

/-! What the calls of the memory layer leave alone: the frames that the kernel holds,
above all the trap frames of processes. -/

def Saves (held : Set UInt64) (s s' : MemState) : Prop :=
  ∀ f ∈ held, SamePage f s.mem s'.mem

variable {s s' s'' : MemState} {roots : Set UInt64} {lk lk' lu : List UInt64}
  {tfs extra held held' : Set UInt64} {root va page perm f : UInt64} {value : Unit}

theorem Saves.refl (held : Set UInt64) (s : MemState) : Saves held s s :=
  fun _ _ _ _ => rfl

theorem Saves.trans (h : Saves held s s') (h' : Saves held s' s'') : Saves held s s'' :=
  fun f hf => (h f hf).trans (h' f hf)

theorem Saves.mono (h : Saves held s s') (hsub : held' ⊆ held) : Saves held' s s' :=
  fun f hf => h f (hsub hf)

/-! Stores to one page. -/

theorem saves_only (h : Frames s roots lk lu held) (hin : s.userRegion.Contains page)
    (hnot : page ∉ held) (honly : OnlyPage page s.mem s'.mem) : Saves held s s' := by
  intro f hf
  refine honly.samePage hin.aligned (h.held_in f hf).aligned ?_
  rintro rfl
  exact hnot hf

theorem saves_user (h : Frames s roots lk lu held) (hroot : root ∈ roots) (hva : va < vaMax)
    (hpage : userFrame s.mem root va = some page) (honly : OnlyPage page s.mem s'.mem) :
    Saves held s s' :=
  saves_only h (h.userFrame_in hroot hva hpage)
    (h.tenancy.owned_held (Frames.owns_of_userFrame hroot hva hpage)) honly

theorem saves_alloc (h : Frames s roots lk lu held)
    (hrun : pmemAlloc false s = .ok (page, s')) : Saves held s s' := by
  obtain ⟨_, hmem, _, _, honly, _⟩ := h.alloc hrun
  exact saves_only h (h.user.inRegion page hmem)
    (fun hheld => h.tenancy.held_free hheld hmem) honly

theorem saves_free (h : Frames s roots lk lu held) (hnot : page ∉ held)
    (hrun : pmemFree page false s = .ok (value, s')) : Saves held s s' :=
  saves_only h (pmemFree_eq_ok.mp hrun).1 hnot (pmemFree_onlyPage hrun)

/-- A frame on its way to a table is none of the trap frames. -/
theorem saves_extra (h : Spaces s roots lk lu tfs extra) (hpage : page ∈ extra)
    (hnot : page ∉ tfs) (honly : OnlyPage page s.mem s'.mem) : Saves tfs s s' :=
  saves_only (h.frames.held_mono Set.subset_union_left)
    (h.frames.held_in page (.inr hpage)) hnot honly

/-! Entries of tables. -/

/-- A page that is no table and does not become one. -/
structure Aside (s : MemState) (roots : Set UInt64) (lk : List UInt64) (f : UInt64) :
    Prop where
  tables : PageTables s.mem roots
  kern : FreshFrames s roots lk
  aligned : f.toNat % 4096 = 0
  table : ¬ IsTable s.mem roots f
  fresh : f ∉ lk

theorem aside_of_held (h : Frames s roots lk lu held) (hf : f ∈ held) :
    Aside s roots lk f :=
  ⟨h.tables, h.kern, (h.held_in f hf).aligned, (h.frame_apart (h.held_in f hf)).1,
    (h.frame_apart (h.held_in f hf)).2⟩

theorem Aside.remapped {map : UInt64 → Option UInt64} (h : Aside s roots lk f)
    (hmap : Remapped s s' roots lk lk' root map) :
    SamePage f s.mem s'.mem ∧ Aside s' roots lk' f := by
  obtain ⟨taken, hsuffix⟩ := hmap.suffix
  refine ⟨hmap.mem f h.aligned h.table h.fresh, hmap.tables, hmap.frames, h.aligned, ?_, ?_⟩
  · intro htable
    exact (hmap.added f htable).elim h.table h.fresh
  · intro hmem
    exact h.fresh (hsuffix ▸ List.mem_append_right taken hmem)

theorem Aside.map (h : Aside s roots lk f) (hroot : root ∈ roots)
    (hrun : vmMappages root va page pgsize perm s = .ok (value, s')) :
    ∃ lk', SamePage f s.mem s'.mem ∧ Aside s' roots lk' f := by
  obtain ⟨_, _, hroom, hloop⟩ := Frames.mapPage_guard hrun
  obtain ⟨lk', hmap⟩ := vmMappagesLoop_spec h.tables h.kern hroot (by omega) hloop
  exact ⟨lk', h.remapped hmap⟩

theorem saves_map (h : Frames s roots lk lu held) (hroot : root ∈ roots)
    (hrun : vmMappages root va page pgsize perm s = .ok (value, s')) : Saves held s s' := by
  intro f hf
  obtain ⟨_, hsame, _⟩ := (aside_of_held h hf).map hroot hrun
  exact hsame

theorem saves_entry (h : Frames s roots lk lu held) (hroot : root ∈ roots) {t : UInt64}
    (hleaf : leafTable s.mem root va = some t) (idx : Vpn) (pte : UInt64) :
    Saves held s (s.setMem (setEntry s.mem t idx pte)) := by
  have ht := leafTable_isTable hroot hleaf
  intro f hf
  refine (onlyPage_setEntry s.mem t idx pte).samePage (IsTable.aligned h.tables ht)
    (h.held_in f hf).aligned ?_
  rintro rfl
  exact h.tables_apart f ht (h.held_in f hf)

/-! Page faults. -/

theorem handlePageFault_saves (h : Spaces s roots lk lu tfs extra) (hroot : root ∈ roots)
    (hrun : handlePageFault root va s = .ok (page, s')) : Saves tfs s s' := by
  unfold handlePageFault at hrun
  rw [massert_bind_eq_ok, Exec.bind_eq_ok] at hrun
  obtain ⟨_, newPage, s₁, halloc, hrun⟩ := hrun
  rw [updateMem_bind, Exec.bind_eq_ok] at hrun
  obtain ⟨_, s₂, hmap, hrun⟩ := hrun
  cases hrun
  obtain ⟨_, hfresh, h₁, _⟩ := h.alloc halloc
  have hpage : page ∈ insert page extra := Set.mem_insert page extra
  have honly := onlyPage_memset page s₁.mem 0
  obtain ⟨h₂, _⟩ := h₁.write_held (.inr hpage) honly
  have hsaved : Saves tfs s s₁ := (saves_alloc h.frames halloc).mono Set.subset_union_left
  have hcleared : Saves tfs s₁ (s₁.setMem (s₁.mem.memset page.toNat 0 4096)) :=
    saves_extra h₁ hpage (fun hmem => hfresh (.inl hmem)) honly
  exact (hsaved.trans hcleared).trans
    ((saves_map h₂.frames hroot hmap).mono Set.subset_union_left)

theorem cowCopy_saves {t : UInt64} (h : Spaces s roots lk lu tfs extra)
    (hroot : root ∈ roots) (hleaf : leafTable s.mem root va = some t)
    (hcow : va < vaMax → CowPage s.mem root va)
    (hrun : cowCopy root va (entryAddr t (vpn va 0))
      (pteToPa (entry s.mem t (vpn va 0))) (pteFlags (entry s.mem t (vpn va 0))) s =
        .ok (page, s')) : Saves tfs s s' := by
  unfold cowCopy at hrun
  rw [Exec.bind_eq_ok] at hrun
  obtain ⟨newPage, s₁, halloc, hrun⟩ := hrun
  obtain ⟨_, hfresh, h₁, _, _, htables₁, hspares₁⟩ := h.alloc halloc
  have hheld : newPage ∈ insert newPage extra := Set.mem_insert newPage extra
  have hzero : newPage ≠ 0 :=
    h₁.frames.nonzero newPage (h₁.frames.held_in newPage (.inr hheld))
  rw [if_neg hzero, updateMem_bind, updateMem_bind, Exec.bind_eq_ok] at hrun
  obtain ⟨_, s₄, hmap, hrun⟩ := hrun
  rw [Exec.bind_eq_ok] at hrun
  obtain ⟨_, s₅, hfree, hrun⟩ := hrun
  obtain ⟨_, rfl⟩ := Prod.mk.inj (Except.ok.inj hrun)
  obtain ⟨_, _, hroom, _⟩ := Frames.mapPage_guard hmap
  have hmax : va < vaMax := by
    rw [UInt64.lt_iff_toNat_lt, vaMax_toNat]
    omega
  have hvalid := cowPage_valid hleaf (hcow hmax)
  have hsrc := h.userFrame_of_entry hroot (cowPage_below h hroot hmax (hcow hmax)) hleaf hvalid
  have hpa := h.frames.tenancy.owned_held (Frames.owns_of_userFrame hroot hmax hsrc)
  have honly := onlyPage_memcpy newPage s₁.mem
    (pteToPa (entry s.mem t (vpn va 0))).toNat 4096 (le_refl _)
  obtain ⟨h₂, htables₂, _⟩ := h₁.write_held (.inr hheld) honly
  obtain ⟨hleaf₁, _⟩ := leafTable_of_samePages hroot htables₁ hleaf
  let s₂ := s₁.setMem
    (s₁.mem.memcpy newPage.toNat (pteToPa (entry s.mem t (vpn va 0))).toNat 4096)
  have hleaf₂ : leafTable s₂.mem root va = some t :=
    (leafTable_of_samePages hroot htables₂ hleaf₁).1
  intro f hf
  have hfirst := saves_alloc h.frames halloc f (.inl hf)
  have hcopied : Saves tfs s₁ s₂ :=
    saves_extra h₁ hheld (fun hmem => hfresh (.inl hmem)) honly
  have hsecond : SamePage f s₁.mem s₂.mem := hcopied f hf
  -- from here on the page that is copied is nobody's
  have haside := aside_of_held h₂.frames (.inl hf)
  obtain ⟨hthird, haside⟩ := haside.remapped (remapped_setEntry haside.tables haside.kern hroot
    (UInt64.le_of_lt hmax) hleaf₂ _)
  obtain ⟨_, hfourth, _⟩ := haside.map hroot hmap
  have hlast : SamePage f s₄.mem s₅.mem := by
    have hin := (pmemFree_eq_ok.mp hfree).1
    refine (pmemFree_onlyPage hfree).samePage hin.aligned haside.aligned ?_
    rintro rfl
    exact hpa (.inl hf)
  exact (((hfirst.trans hsecond).trans hthird).trans hfourth).trans hlast

theorem handleCow_saves (h : Spaces s roots lk lu tfs extra) (hroot : root ∈ roots)
    (hcow : va < vaMax → CowPage s.mem root va)
    (hrun : handleCow root va s = .ok (page, s')) : Saves tfs s s' := by
  unfold handleCow at hrun
  split at hrun
  · cases hrun
    exact .refl tfs _
  · rw [Exec.bind_eq_ok] at hrun
    obtain ⟨_, s₀, hgetpte, hrun⟩ := hrun
    obtain ⟨_, rfl, rfl⟩ := vmGetpte_reads_eq_ok.mp hgetpte
    cases hleaf : leafTable s₀.mem root va with
    | none =>
        rw [hleaf] at hrun
        cases hrun
    | some t =>
        rw [hleaf] at hrun
        dsimp only [Option.map_some] at hrun
        have href : pmemGetRef (pteToPa (s₀.mem.load64 (entryAddr t (vpn va 0)))) s₀ =
          .ok (refCnt s₀.mem (pteToPa (entry s₀.mem t (vpn va 0))), s₀) := rfl
        rw [readMem_bind, Exec.bind_of_ok href] at hrun
        split at hrun
        · rw [updateMem_bind] at hrun
          obtain ⟨_, rfl⟩ := Prod.mk.inj (Except.ok.inj hrun)
          exact (saves_entry h.frames hroot hleaf (vpn va 0) _).mono Set.subset_union_left
        · exact cowCopy_saves h hroot hleaf hcow hrun

theorem handleFault_saves {stval : UInt64} (h : Spaces s roots lk lu tfs extra)
    (hroot : root ∈ roots) (hrun : handleFault root stval s = .ok (value, s')) :
    Saves tfs s s' := by
  unfold handleFault at hrun
  rw [Exec.bind_eq_ok] at hrun
  obtain ⟨result, s₁, hcow, hrun⟩ := hrun
  obtain ⟨rfl, hcowPage⟩ := isCowpage_spec hcow
  split at hrun
  · next hresult =>
    rw [Exec.bind_eq_ok] at hrun
    obtain ⟨page, s₂, hhandle, hrun⟩ := hrun
    cases hrun
    refine handleCow_saves h hroot (fun hlt => cowPage_pgrounddown (hcowPage hresult ?_)) hhandle
    rw [UInt64.lt_iff_toNat_lt, pgrounddown_toNat, vaMax_toNat] at hlt
    rw [UInt64.lt_iff_toNat_lt, vaMax_toNat]
    omega
  · rw [Exec.bind_eq_ok] at hrun
    obtain ⟨page, s₂, hhandle, hrun⟩ := hrun
    cases hrun
    exact handlePageFault_saves h hroot hhandle

/-! Pages that are mapped one after the other. -/

theorem mapFresh_saves {s₁ : MemState} (h : Spaces s roots lk lu tfs extra)
    (hroot : root ∈ roots) (halloc : pmemAlloc false s = .ok (page, s₁))
    (hmap : vmMappages root va page pgsize perm s₁ = .ok (value, s')) : Saves tfs s s' := by
  obtain ⟨_, _, h₁, _⟩ := h.alloc halloc
  exact ((saves_alloc h.frames halloc).mono Set.subset_union_left).trans
    ((saves_map h₁.frames hroot hmap).mono Set.subset_union_left)

theorem heapGrowLoop_saves {flags : UInt64} {turns : Nat} (h : Spaces s roots lk lu tfs ∅)
    (hroot : root ∈ roots) (hflags : (flags ||| pteU).toNat < 1024)
    (hrun : heapGrowLoop root flags turns va s = .ok (value, s')) : Saves tfs s s' := by
  induction turns generalizing s va lk lu with
  | zero =>
      cases hrun
      exact .refl tfs _
  | succ turns ih =>
      rw [heapGrowLoop, Exec.bind_eq_ok] at hrun
      obtain ⟨page, s₀, halloc, hrun⟩ := hrun
      rw [massert_bind_eq_ok, Exec.bind_eq_ok] at hrun
      obtain ⟨_, _, s₂, hmap, hrun⟩ := hrun
      rw [updateMem_bind] at hrun
      have huser : (flags ||| pteU) &&& pteU ≠ 0 := by
        rw [or_pteU]
        decide
      obtain ⟨hbuilds, _, hbelow, hframe, _⟩ :=
        mapFresh_builds h hroot hflags huser halloc hmap
      obtain ⟨_, _, h₂⟩ := hbuilds.spaces
      obtain ⟨hpage, _⟩ := heapGrow_page h hroot hflags halloc hmap
      obtain ⟨_, _, h₃⟩ := hpage.spaces
      have hcleared : Saves tfs s₂ (s₂.setMem (s₂.mem.memset page.toNat 0 4096)) :=
        (saves_user h₂.frames hroot (lt_vaMax_of_lt hbelow) hframe
          (onlyPage_memset page s₂.mem 0)).mono Set.subset_union_left
      exact ((mapFresh_saves h hroot halloc hmap).trans hcleared).trans (ih h₃ hrun)

theorem uvmHeapGrow_saves {heapTop newHeapTop flags : UInt64} {len : UInt32}
    (h : Spaces s roots lk lu tfs ∅) (hroot : root ∈ roots)
    (hflags : (flags ||| pteU).toNat < 1024)
    (hrun : uvmHeapGrow root heapTop len flags s = .ok (newHeapTop, s')) :
    Saves tfs s s' := by
  unfold uvmHeapGrow at hrun
  rw [Exec.bind_eq_ok] at hrun
  obtain ⟨_, s₁, hloop, hrun⟩ := hrun
  cases hrun
  exact heapGrowLoop_saves h hroot hflags hloop

theorem mapNewPages_saves {pages : Nat} (h : Spaces s roots lk lu tfs ∅)
    (hroot : root ∈ roots) (hperm : perm.toNat < 1024) (huser : perm &&& pteU ≠ 0)
    (hrun : mapNewPages root perm pages va s = .ok (value, s')) : Saves tfs s s' := by
  induction pages generalizing s va lk lu with
  | zero =>
      cases hrun
      exact .refl tfs _
  | succ pages ih =>
      rw [mapNewPages, Exec.bind_eq_ok] at hrun
      obtain ⟨page, s₀, halloc, hrun⟩ := hrun
      rw [Exec.bind_eq_ok] at hrun
      obtain ⟨_, s₁, hmap, hrun⟩ := hrun
      obtain ⟨hbuilds, _⟩ := mapFresh_builds h hroot hperm huser halloc hmap
      obtain ⟨_, _, h₁⟩ := hbuilds.spaces
      exact (mapFresh_saves h hroot halloc hmap).trans (ih h₁ hrun)

theorem mapStack_saves {pages : List Nat} (h : Spaces s roots lk lu tfs extra)
    (hroot : root ∈ roots) (hrun : mapStack root pages s = .ok (value, s')) :
    Saves tfs s s' := by
  induction pages generalizing s lk lu with
  | nil =>
      cases hrun
      exact .refl tfs _
  | cons i pages ih =>
      rw [mapStack, Exec.bind_eq_ok] at hrun
      obtain ⟨page, s₁, halloc, hrun⟩ := hrun
      rw [Exec.bind_eq_ok] at hrun
      obtain ⟨_, s₂, hmap, hrun⟩ := hrun
      obtain ⟨_, _, h₂, _⟩ := mapFresh_spec h hroot (by decide) (by decide) halloc hmap
      exact (mapFresh_saves h hroot halloc hmap).trans (ih h₂ hrun)

theorem loadInitcode_saves {initcode : List UInt8} (h : Spaces s roots lk lu tfs extra)
    (hroot : root ∈ roots) (hrun : loadInitcode root initcode s = .ok (value, s')) :
    Saves tfs s s' := by
  unfold loadInitcode at hrun
  rw [massert_bind_eq_ok, Exec.bind_eq_ok] at hrun
  obtain ⟨hlen, page, s₁, halloc, hrun⟩ := hrun
  rw [Exec.bind_eq_ok] at hrun
  obtain ⟨_, s₂, hmap, hrun⟩ := hrun
  cases hrun
  obtain ⟨_, _, h₂, hframe, _⟩ := mapFresh_spec h hroot (by decide) (by decide) halloc hmap
  have hva : userVmemStart < vaMax := by decide
  have hpage : userFrame s₂.mem root userVmemStart = some page := by
    rw [hframe _ hva, if_pos rfl]
  have hwritten : Saves tfs s₂ (s₂.setMem
      (s₂.mem.write page.toNat initcode.length fun i => initcode.getD i 0)) :=
    (saves_user h₂.frames hroot hva hpage (onlyPage_write page s₂.mem 0 initcode.length
      (fun i => initcode.getD i 0) (by omega))).mono Set.subset_union_left
  exact (mapFresh_saves h hroot halloc hmap).trans hwritten

/-! Pages that are taken away. -/

theorem unmapPage_saves {s₁ : MemState} {t : UInt64} (h : Spaces s roots lk lu tfs extra)
    (hroot : root ∈ roots) (hva : va < trapframe) (hleaf : leafTable s.mem root va = some t)
    (hvalid : pteValid (entry s.mem t (vpn va 0)))
    (hfree : pmemFree (pteToPa (entry s.mem t (vpn va 0))) false s = .ok (value, s₁)) :
    Saves tfs s (s₁.setMem (setEntry s₁.mem t (vpn va 0) 0)) := by
  have hmax := lt_vaMax_of_lt hva
  have htable := leafTable_isTable hroot hleaf
  have howns := Frames.owns_of_userFrame hroot hmax (h.userFrame_of_entry hroot hva hleaf hvalid)
  have hfreed : Saves tfs s s₁ :=
    (saves_free h.frames (h.frames.tenancy.owned_held howns) hfree).mono Set.subset_union_left
  refine hfreed.trans ?_
  intro f hf
  have hin := h.frames.held_in f (.inl hf)
  refine (onlyPage_setEntry s₁.mem t (vpn va 0) 0).samePage
    (IsTable.aligned h.frames.tables htable) hin.aligned ?_
  rintro rfl
  exact h.frames.tables_apart f htable hin

theorem unmapLoop_saves {pages : Nat} {beg : UInt64} (h : Spaces s roots lk lu tfs extra)
    (hroot : root ∈ roots) (hapart : RegionsApart s)
    (hrange : beg.toNat + pages * 4096 ≤ trapframe.toNat)
    (hrun : vmUnmappagesLoop root true pages beg s = .ok (value, s')) : Saves tfs s s' := by
  induction pages generalizing s beg lu with
  | zero =>
      cases hrun
      exact .refl tfs _
  | succ pages ih =>
      obtain ⟨t, s₁, hleaf, hvalid, hflags, hfree, hrest⟩ := vmUnmappagesLoop_succ hrun
      have hva : beg < trapframe := by
        rw [UInt64.lt_iff_toNat_lt]
        omega
      have hnext : (beg + pgsize).toNat = beg.toNat + 4096 := by
        apply add_pgsize_toNat
        rw [trapframe_toNat] at hrange
        omega
      have hin := h.frames.userFrame_in hroot (lt_vaMax_of_lt hva)
        (h.userFrame_of_entry hroot hva hleaf hvalid)
      rw [freeFrame_eq_ok, if_pos rfl] at hfree
      -- a frame of user code is not in the region of the kernel
      have huser : decide (root = s.kernelPgtbl) = false := by
        cases hflag : decide (root = s.kernelPgtbl) with
        | false => rfl
        | true =>
            rw [hflag] at hfree
            exact absurd hin (hapart _ (pmemFree_eq_ok.mp hfree).1).2
      rw [huser] at hfree
      obtain ⟨_, h₁, _⟩ := h.unmap_page hroot hva hleaf hvalid hfree
      have hapart₁ : RegionsApart (s₁.setMem (setEntry s₁.mem t (vpn beg 0) 0)) :=
        RegionsApart.congr (hapart.free hfree) rfl rfl fun _ => Iff.rfl
      exact (unmapPage_saves h hroot hva hleaf hvalid hfree).trans
        (ih h₁ hapart₁ (by omega) hrest)

theorem heapUngrowLoop_saves {turns : Nat} {ptr : UInt64} (h : Spaces s roots lk lu tfs ∅)
    (hroot : root ∈ roots) (hapart : RegionsApart s) (hturns : turns * 4096 ≤ ptr.toNat)
    (hptr : ptr.toNat ≤ trapframe.toNat)
    (hrun : heapUngrowLoop root turns ptr s = .ok (value, s')) : Saves tfs s s' := by
  induction turns generalizing s ptr lk lu with
  | zero =>
      cases hrun
      exact .refl tfs _
  | succ turns ih =>
      rw [heapUngrowLoop, Exec.bind_eq_ok] at hrun
      obtain ⟨_, s₁, hunmap, hrest⟩ := hrun
      have hprev : (ptr - pgsize).toNat + 4096 = ptr.toNat := ptr_sub_pgsize (by omega)
      obtain ⟨haligned, hlen, _, hloop⟩ := vmUnmappages_eq_ok hunmap
      have hwrap : (ptr - pgsize).toNat + pgsize.toNat < 2 ^ 64 := by
        rw [trapframe_toNat] at hptr
        change _ + 4096 < 2 ^ 64
        omega
      rw [pageCount_spec haligned hlen hwrap] at hloop
      have hbelow : (ptr - pgsize).toNat + 4096 ≤ trapframe.toNat := by omega
      have hpage : Saves tfs s s₁ := unmapLoop_saves h hroot hapart hbelow hloop
      have hconfined := unmapPage_confined h hroot hapart hbelow hunmap
      obtain ⟨_, _, h₁⟩ := hconfined.spaces
      have hleft : turns * 4096 ≤ (ptr - pgsize).toNat := by
        rw [Nat.succ_mul, ← hprev] at hturns
        exact Nat.le_of_add_le_add_right hturns
      exact hpage.trans (ih h₁ (regionsApart_of_setting hconfined.setting hapart) hleft
        (by omega) hrest)

theorem uvmHeapUngrow_saves {heapTop newHeapTop : UInt64} {len : UInt32}
    (h : Spaces s roots lk lu tfs ∅) (hroot : root ∈ roots) (hapart : RegionsApart s)
    (hheap : heapTop.toNat ≤ trapframe.toNat)
    (hrun : uvmHeapUngrow root heapTop len s = .ok (newHeapTop, s')) : Saves tfs s s' := by
  unfold uvmHeapUngrow at hrun
  rw [massert_bind_eq_ok, Exec.bind_eq_ok] at hrun
  obtain ⟨_, _, s₁, hloop, hrun⟩ := hrun
  cases hrun
  exact heapUngrowLoop_saves h hroot hapart (by omega) (pgroundup_toNat_le hheap).2 hloop

theorem uvmMunmap_saves {begin len : UInt64} (h : Spaces s roots lk lu tfs ∅)
    (hroot : root ∈ roots) (hapart : RegionsApart s) (hsize : len.toNat < 2 ^ 32)
    (hend : begin + len ≤ mmapEnd)
    (hrun : vmUnmappages root begin len true s = .ok (value, s')) : Saves tfs s s' := by
  obtain ⟨haligned, hlen, hmax, hloop⟩ := vmUnmappages_eq_ok hrun
  rcases munmap_range haligned hlen hsize hend hmax with hrange | hnone
  · exact unmapLoop_saves h hroot hapart hrange hloop
  · rw [hnone] at hloop
    cases hloop
    exact .refl tfs _

end UnoOS.Uvm
