import UnoOS.Uvm.SavedFrames

namespace UnoOS.Uvm

open UnoOS.Lib
open UnoOS.Kernel (ProcId)
open UnoOS.Mem

/-! Trap frames while tables are made, copied and filled. -/

variable {s s' : MemState} {roots : Set UInt64} {lk lu : List UInt64}
  {tfs extra held : Set UInt64} {root old new va pa t flags : UInt64} {value : Unit}

/-! New tables. -/

theorem saves_new_root (h : Frames s roots lk lu held)
    (hrun : pmemAlloc true s = .ok (t, s')) :
    Saves held s (s'.setMem (s'.mem.memset t.toNat 0 4096)) := by
  obtain ⟨rest, rfl, _⟩ := h.kern.list.alloc hrun
  obtain ⟨_, _, hpage, rfl⟩ := pmemAlloc_eq_ok.mp hrun
  have hmem : t ∈ t :: rest := List.mem_cons_self
  have honly : OnlyPage t s.mem ((s.taken true).mem.memset t.toNat 0 4096) := by
    refine OnlyPage.trans ?_ (onlyPage_memset t _ 0)
    rw [hpage]
    exact onlyPage_taken
  intro f hf
  refine honly.samePage (h.kern.list.inRegion t hmem).aligned (h.held_in f hf).aligned ?_
  rintro rfl
  exact h.kern_apart f hmem (h.held_in f hf)

theorem procPgtblInit_saves {tramp tf : UInt64} (h : Frames s roots lk lu held)
    (hrun : procPgtblInit tramp tf s = .ok (t, s')) : Saves held s s' := by
  unfold procPgtblInit at hrun
  rw [Exec.bind_eq_ok] at hrun
  obtain ⟨t', s₀, halloc, hrun⟩ := hrun
  rw [updateMem_bind, Exec.bind_eq_ok] at hrun
  obtain ⟨_, s₂, hmap, hrun⟩ := hrun
  rw [Exec.bind_eq_ok] at hrun
  obtain ⟨_, s₃, hmap', hrun⟩ := hrun
  obtain ⟨rfl, rfl⟩ := Prod.mk.inj (Except.ok.inj hrun)
  obtain ⟨_, _, _, h₁, _⟩ := h.new_root halloc
  have ht : t' ∈ insert t' roots := Set.mem_insert t' roots
  obtain ⟨_, h₂, _⟩ := mapHidden h₁ ht (by decide) (by decide) hmap
  exact ((saves_new_root h halloc).trans (saves_map h₁ ht hmap)).trans (saves_map h₂ ht hmap')

/-! `uvm_copy_pgtbl` -/

theorem copyPage_saves (h : Frames s roots lk lu held) (hnew : new ∈ roots)
    (hrun : copyPage new va pa flags s = .ok (value, s')) : Saves held s s' := by
  unfold copyPage at hrun
  rw [Exec.bind_eq_ok] at hrun
  obtain ⟨page, s₁, halloc, hrun⟩ := hrun
  rw [updateMem_bind] at hrun
  obtain ⟨_, hmem, h₁, _⟩ := h.alloc halloc
  have hpage : page ∈ insert page held := Set.mem_insert page held
  have honly := onlyPage_memcpy page s₁.mem pa.toNat 4096 (le_refl _)
  obtain ⟨h₂, _⟩ := h₁.write_held hpage honly
  have hcopied : Saves held s₁ (s₁.setMem (s₁.mem.memcpy page.toNat pa.toNat 4096)) :=
    saves_only (h₁.held_mono (Set.subset_insert page held)) (h₁.held_in page hpage)
      (fun hheld => h.tenancy.held_free hheld hmem) honly
  exact ((saves_alloc h halloc).trans hcopied).trans
    ((saves_map h₂ hnew hrun).mono (Set.subset_insert page held))

theorem frames_unwritable (h : Frames s roots lk lu held) (hold : old ∈ roots)
    (hva : va < vaMax) (hleaf : leafTable s.mem old va = some t)
    (hvalid : pteValid (entry s.mem t (vpn va 0))) :
    Frames (s.setMem (setEntry s.mem t (vpn va 0)
      (paToPte (pteToPa (entry s.mem t (vpn va 0))) |||
        cowFlags (pteFlags (entry s.mem t (vpn va 0)))))) roots lk lu held := by
  have hcow := cowFlags_lt (pteFlags_lt (entry s.mem t (vpn va 0)))
  refine (h.set_flags hold hva hleaf hvalid ?_
    (pteToPa_entry (pteToPa_aligned (entry s.mem t (vpn va 0))) hcow) ?_).1
  · unfold pteValid at hvalid ⊢
    rwa [entry_and hcow (by decide), cowFlags_valid, pteFlags_and (by decide)]
  · rw [entry_and hcow (by decide), cowFlags_user, pteFlags_and (by decide)]

theorem copyRangeLoop_turn {turns : Nat}
    (hrun : copyRangeLoop old new (turns + 1) va s = .ok (value, s')) :
    ∃ s₁, copyRangeLoop old new 1 va s = .ok ((), s₁) ∧
      copyRangeLoop old new turns (va + pgsize) s₁ = .ok (value, s') := by
  have hturn : copyRangeLoop old new (turns + 1) va = (copyRangeLoop old new 1 va >>= fun _ =>
      copyRangeLoop old new turns (va + pgsize)) := by
    simp only [copyRangeLoop, bind_assoc]
    refine bind_congr fun pte => ?_
    cases pte with
    | none => rfl
    | some pte =>
        simp only [bind_assoc]
        refine bind_congr fun m => bind_congr fun _ => ?_
        split
        · simp only [bind_assoc, pure_bind]
        · simp only [bind_assoc, pure_bind]
  rw [hturn, Exec.bind_eq_ok] at hrun
  obtain ⟨_, s₁, hfirst, hrest⟩ := hrun
  exact ⟨s₁, hfirst, hrest⟩

theorem copyRangeLoop_one_saves (h : Frames s roots lk lu held) (hold : old ∈ roots)
    (hnew : new ∈ roots) (hrun : copyRangeLoop old new 1 va s = .ok (value, s')) :
    Saves held s s' := by
  rw [copyRangeLoop, Exec.bind_eq_ok] at hrun
  obtain ⟨result, s₀, hgetpte, hrun⟩ := hrun
  obtain ⟨_, rfl, rfl⟩ := vmGetpte_reads_eq_ok.mp hgetpte
  cases hleaf : leafTable s₀.mem old va with
  | none =>
      rw [hleaf] at hrun
      cases hrun
  | some t =>
      rw [hleaf] at hrun
      dsimp only [Option.map_some] at hrun
      rw [readMem_bind, massert_bind_eq_ok] at hrun
      obtain ⟨hvalid, hrun⟩ := hrun
      split at hrun
      · rw [updateMem_bind, Exec.bind_eq_ok] at hrun
        obtain ⟨_, s₁, hcopy, hrun⟩ := hrun
        cases hrun
        obtain ⟨_, hroom⟩ := copyPage_guard hcopy
        have hmax : va < vaMax := by
          rw [UInt64.lt_iff_toNat_lt, vaMax_toNat]
          omega
        exact (saves_entry h hold hleaf (vpn va 0) _).trans
          (copyPage_saves (frames_unwritable h hold hmax hleaf hvalid) hnew hcopy)
      · rw [Exec.bind_eq_ok] at hrun
        obtain ⟨_, s₁, hcopy, hrun⟩ := hrun
        cases hrun
        exact copyPage_saves h hnew hcopy

theorem copyRange_saves {begin end_ : UInt64} (h : Spaces s roots lk lu tfs extra)
    (hold : old ∈ roots) (hnew : new ∈ roots) (hne : old ≠ new)
    (hrun : copyRange old new begin end_ s = .ok (value, s')) :
    Saves (tfs ∪ extra) s s' := by
  unfold copyRange at hrun
  generalize (end_.toNat - begin.toNat + 4095) / 4096 = turns at hrun
  induction turns generalizing s begin lk lu with
  | zero =>
      cases hrun
      exact .refl _ _
  | succ turns ih =>
      obtain ⟨s₁, hfirst, hrest⟩ := copyRangeLoop_turn hrun
      obtain ⟨_, _, h₁, _⟩ := copyRangeLoop_spec h hold hnew hne hfirst
      exact (copyRangeLoop_one_saves h.frames hold hnew hfirst).trans (ih h₁ hrest)

theorem copyGaps_saves {st st' : UvmState} {steps : Nat} {mmap : Option MmapId}
    (h : Spaces st.mem roots lk lu tfs extra) (hold : old ∈ roots) (hnew : new ∈ roots)
    (hne : old ≠ new) (hrun : copyGaps old new steps mmap st = .ok (value, st')) :
    Saves (tfs ∪ extra) st.mem st'.mem := by
  induction steps generalizing st mmap lk lu with
  | zero =>
      cases mmap with
      | none =>
          cases hrun
          exact .refl _ _
      | some id => cases hrun
  | succ steps ih =>
      cases mmap with
      | none =>
          cases hrun
          exact .refl _ _
      | some id =>
          rw [copyGaps, Exec.bind_of_ok (m := get) rfl, liftMem_bind_eq_ok] at hrun
          obtain ⟨_, mem, hcopy, hrun⟩ := hrun
          obtain ⟨_, _, h₁, _⟩ := copyRange_spec h hold hnew hne hcopy
          exact (copyRange_saves h hold hnew hne hcopy).trans (ih h₁ hrun)

theorem uvmCopyPgtbl_saves {st st' : UvmState} {heapTop : UInt64} {ustackPages : UInt32}
    {mmap : Option MmapId} (h : Spaces st.mem roots lk lu tfs extra) (hold : old ∈ roots)
    (hnew : new ∈ roots) (hne : old ≠ new)
    (hrun : uvmCopyPgtbl old new heapTop ustackPages mmap st = .ok (value, st')) :
    Saves (tfs ∪ extra) st.mem st'.mem := by
  unfold uvmCopyPgtbl at hrun
  obtain ⟨_, mem₁, hheap, hrun⟩ := liftMem_bind_eq_ok.mp hrun
  obtain ⟨_, mem₂, hstack, hrun⟩ := liftMem_bind_eq_ok.mp hrun
  obtain ⟨_, _, h₁, _⟩ := copyRange_spec h hold hnew hne hheap
  obtain ⟨_, _, h₂, _⟩ := copyRange_spec h₁ hold hnew hne hstack
  exact ((copyRange_saves h hold hnew hne hheap).trans
    (copyRange_saves h₁ hold hnew hne hstack)).trans (copyGaps_saves h₂ hold hnew hne hrun)

/-! `load_image` -/

theorem loadSegmentLoop_saves {file : ExecFile} {offset size off : UInt32} {turns : Nat}
    {result : Int} (h : Spaces s roots lk lu tfs ∅) (hroot : root ∈ roots)
    (hentries : SoundEntries s.mem root) (hroom : va.toNat + size.toNat ≤ trapframe.toNat)
    (hoff : turns ≠ 0 → off.toNat + (turns - 1) * 4096 < size.toNat)
    (hrun : loadSegmentLoop file offset root va size turns off s = .ok (result, s')) :
    Saves tfs s s' := by
  induction turns generalizing s off lk lu with
  | zero =>
      cases hrun
      exact .refl tfs _
  | succ turns ih =>
      have hlt : off.toNat + turns * 4096 < size.toNat := hoff (Nat.succ_ne_zero turns)
      have hsize := size.toNat_lt
      have hva : va + off.toUInt64 < trapframe := by
        rw [trapframe_toNat] at hroom
        rw [UInt64.lt_iff_toNat_lt, UInt64.toNat_add, UInt32.toNat_toUInt64, trapframe_toNat,
          Nat.mod_eq_of_lt (by omega)]
        omega
      obtain ⟨page, data, s₁, hframe, hread, rfl, hcases⟩ :=
        loadSegmentLoop_succ h hroot hentries hva rfl hrun
      have hreadLen := readLen_toNat (show off.toNat < size.toNat by omega)
      have hlength : data.2.length ≤ 4096 := (readData_length_le hread).trans (by omega)
      have hmax := lt_vaMax_of_lt hva
      have honly : OnlyPage page s.mem
          (s.mem.write page.toNat data.2.length (buffer data.2)) :=
        onlyPage_write page s.mem 0 data.2.length (buffer data.2) (by omega)
      have hsaved : Saves tfs s
          (s.setMem (s.mem.write page.toNat data.2.length (buffer data.2))) :=
        (saves_user h.frames hroot hmax hframe honly).mono Set.subset_union_left
      rcases hcases with ⟨_, _, rfl⟩ | ⟨_, hrest⟩
      · exact hsaved
      · have hbuilds := write_user_builds h hroot hmax hframe honly
        obtain ⟨_, _, h₁⟩ := hbuilds.spaces
        refine hsaved.trans (ih h₁ (hbuilds.entries hentries) ?_ hrest)
        intro hmore
        have hnext : (off + 4096).toNat = off.toNat + 4096 := by
          rw [UInt32.toNat_add]
          exact Nat.mod_eq_of_lt (show off.toNat + 4096 < 2 ^ 32 by omega)
        rw [hnext]
        omega

theorem loadProgram_saves {file : ExecFile} {ph : ProgramHeader} {heapTop newHeapTop : UInt64}
    (h : Spaces s roots lk lu tfs ∅) (hroot : root ∈ roots)
    (hentries : SoundEntries s.mem root) (hheap : heapTop.toNat ≤ trapframe.toNat)
    (hrun : loadProgram file root ph heapTop s = .ok (some newHeapTop, s')) :
    Saves tfs s s' := by
  by_cases htype : ph.type = elfProgLoad
  · obtain ⟨_, hfits, _⟩ := loadProgram_spec h hroot hentries hheap htype hrun
    have hsizes := hfits.sizes
    have hends := hfits.ends
    have hbelow := hfits.below
    have hsize := toUInt32_toNat_le ph.fileSize
    unfold loadProgram at hrun
    rw [if_neg (not_not.mpr htype)] at hrun
    split at hrun
    · cases hrun
    split at hrun
    · cases hrun
    split at hrun
    · cases hrun
    rw [Exec.bind_eq_ok] at hrun
    obtain ⟨grown, s₁, hgrow, hrun⟩ := hrun
    split at hrun
    · cases hrun
    rw [Exec.bind_eq_ok] at hrun
    obtain ⟨loaded, s₂, hload, hrun⟩ := hrun
    split at hrun
    · cases hrun
    obtain ⟨_, rfl⟩ := Prod.mk.inj (Except.ok.inj hrun)
    obtain ⟨hbuilds, _⟩ := uvmHeapGrow_spec h hroot (by decide) hheap hgrow
    obtain ⟨_, _, h₁⟩ := hbuilds.spaces
    unfold loadSegment at hload
    rw [massert_bind_eq_ok] at hload
    exact (uvmHeapGrow_saves h hroot (by decide) hgrow).trans (loadSegmentLoop_saves h₁ hroot
      (hbuilds.entries hentries) (by omega) (fun hne => by
        change 0 + _ < _
        omega) hload.2)
  · rw [loadProgram_skip htype] at hrun
    cases hrun
    exact .refl tfs _

theorem loadPrograms_saves {file : ExecFile} {eh : ElfHeader} {turns : Nat} {off : UInt32}
    {heapTop newHeapTop : UInt64} (h : Spaces s roots lk lu tfs ∅) (hroot : root ∈ roots)
    (hentries : SoundEntries s.mem root) (hheap : heapTop.toNat ≤ trapframe.toNat)
    (hrun : loadPrograms file eh root turns off heapTop s = .ok (some newHeapTop, s')) :
    Saves tfs s s' := by
  induction turns generalizing s off heapTop lk lu with
  | zero => cases hrun
  | succ turns ih =>
      rw [loadPrograms] at hrun
      split at hrun
      · obtain ⟨data, _, hrun⟩ := inodeReadData_bind_eq_ok.mp hrun
        split at hrun
        · cases hrun
        · rw [Exec.bind_eq_ok] at hrun
          obtain ⟨loaded, s₁, hload, hrun⟩ := hrun
          cases loaded with
          | none => cases hrun
          | some next =>
              obtain ⟨hbuilds, hnext⟩ := loadProgram_builds h hroot hentries hheap hload
              obtain ⟨_, _, h₁⟩ := hbuilds.spaces
              exact (loadProgram_saves h hroot hentries hheap hload).trans
                (ih h₁ (hbuilds.entries hentries) hnext hrun)
      · cases hrun
        exact .refl tfs _

theorem loadImage_saves {file : ExecFile} {entry heapTop : UInt64}
    (h : Spaces s roots lk lu tfs ∅) (hroot : root ∈ roots)
    (hentries : SoundEntries s.mem root)
    (hrun : loadImage file root s = .ok (some (entry, heapTop), s')) : Saves tfs s s' := by
  unfold loadImage at hrun
  obtain ⟨data, _, hrun⟩ := inodeReadData_bind_eq_ok.mp hrun
  dsimp only at hrun
  split at hrun
  · cases hrun
  split at hrun
  · cases hrun
  rw [Exec.bind_eq_ok] at hrun
  obtain ⟨loaded, s₁, hload, hrun⟩ := hrun
  cases loaded with
  | none => cases hrun
  | some top =>
      cases hrun
      exact loadPrograms_saves h hroot hentries (by decide) hload

end UnoOS.Uvm
