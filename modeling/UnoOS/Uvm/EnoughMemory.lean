import UnoOS.Mem.Remap
import UnoOS.Uvm.ExecImage

namespace UnoOS.Uvm

open UnoOS.Lib
open UnoOS.Lib.Exec (StopsWith)
open UnoOS.Fs (Stop)
open UnoOS.Kernel (ProcId)
open UnoOS.Mem

/-! Calls of `proc_exec` that stop for want of memory only. -/

def OutOfMemory (reason : Stop) : Prop :=
  reason = .panic "There is no empty page." ∨
    reason = .panic "Failed to allocate physical page!" ∨
    reason = .panic "mmap_region_alloc failed"

variable {s s' : MemState} {roots : Set UInt64} {lk lu : List UInt64}
  {tfs held : Set UInt64} {root va page perm : UInt64} {reason : Stop}

theorem pmemAlloc_stops (k : Bool) : StopsWith OutOfMemory (pmemAlloc k) := by
  refine StopsWith.bind (.bind .get_intro fun _ => .pure_intro _) fun region => ?_
  refine StopsWith.bind (.require_intro (.inl rfl)) fun _ => ?_
  refine StopsWith.bind (.require_intro (.inr (.inl rfl))) fun _ => ?_
  refine StopsWith.bind (.bind .get_intro fun _ => .pure_intro _) fun m => ?_
  refine StopsWith.bind (.modify_intro _) fun _ => ?_
  refine StopsWith.bind (.modify_intro _) fun _ => ?_
  exact .bind (.modify_intro _) fun _ => .pure_intro _

theorem vmGetpteLoop_stops (va : UInt64) (alloc : Bool) (level : Nat) (t : UInt64) :
    StopsWith OutOfMemory (vmGetpteLoop va alloc level t) := by
  induction level generalizing t with
  | zero => exact .pure_intro _
  | succ level ih =>
      refine StopsWith.bind (.bind .get_intro fun _ => .pure_intro _) fun m => ?_
      refine StopsWith.ite (ih _) (StopsWith.ite ?_ (.pure_intro _))
      refine StopsWith.bind (pmemAlloc_stops true) fun table => ?_
      refine StopsWith.bind (.modify_intro _) fun _ => ?_
      exact .bind (.modify_intro _) fun _ => ih table

theorem vmGetpte_stops {alloc : Bool} (hva : va ≤ vaMax) (hroot : root ≠ 0) :
    StopsWith OutOfMemory (vmGetpte root va alloc) := by
  unfold vmGetpte massert
  rw [Exec.require_of_true hva, Exec.require_of_true hroot, pure_bind, pure_bind]
  refine StopsWith.bind (vmGetpteLoop_stops _ _ _ _) fun table => ?_
  cases table with
  | none => exact .pure_intro _
  | some t => exact .pure_intro _

theorem mapPage_stops (h : Frames s roots lk lu held) (hroot : root ∈ roots)
    (hva : va.toNat % 4096 = 0) (hpage : page.toNat % 4096 = 0)
    (hroom : va.toNat + 4096 ≤ 2 ^ 38) (hnone : Mem.translate s.mem root va = none)
    (hrun : vmMappages root va page pgsize perm s = .error reason) : OutOfMemory reason := by
  have hrange : MapRange va page pgsize :=
    ⟨(aligned_iff va).mpr hva, (aligned_iff page).mpr hpage, by decide, hroom⟩
  have hone : pageCount va pgsize = 1 := pageCount_spec hrange.va_aligned hrange.nonempty
    hrange.wraps
  have hmax : va ≤ vaMax := by
    rw [UInt64.le_iff_toNat_le, vaMax_toNat]
    omega
  rw [hrange.vmMappages_eq, hone, vmMappagesLoop] at hrun
  rcases Exec.bind_eq_error.mp hrun with hgetpte | ⟨result, s₁, hgetpte, hrun⟩
  · exact vmGetpte_stops hmax (h.tables.nonzero root hroot) s reason hgetpte
  · obtain ⟨t, l₁, rfl, hgrown, hleaf⟩ := vmGetpte_grows h.tables h.kern hroot hgetpte
    dsimp only at hrun
    have hinvalid : ¬ pteValid (entry s₁.mem t (vpn va 0)) := by
      intro hvalid
      have heq := hgrown.translate root hroot va
      rw [hnone] at heq
      unfold Mem.translate validEntry at heq
      rw [hleaf, Option.bind_some, if_pos hvalid] at heq
      cases heq
    have hcheck : ¬ pteValid (s₁.mem.load64 (entryAddr t (vpn va 0))) ∨
        pteToPa (s₁.mem.load64 (entryAddr t (vpn va 0))) = page := .inl hinvalid
    rw [readMem_bind] at hrun
    unfold massert at hrun
    rw [Exec.require_of_true hcheck, pure_bind, updateMem_bind] at hrun
    cases hrun

/-- Below the trap frame a page that user code does not reach is not mapped. -/
theorem translate_none {extra : Set UInt64} (h : Spaces s roots lk lu tfs extra)
    (hroot : root ∈ roots) (hva : va < trapframe)
    (hnone : userByte s.mem root va = none) : Mem.translate s.mem root va = none := by
  cases hpte : Mem.translate s.mem root va with
  | none => rfl
  | some pte =>
      have huser := (h.kernel root hroot).below va hva pte hpte
      unfold userByte userFrame userEntry at hnone
      rw [hpte, Option.bind_some, if_pos huser] at hnone
      cases hnone

theorem mapFresh_stops (h : Spaces s roots lk lu tfs ∅) (hroot : root ∈ roots)
    (hva : va.toNat % 4096 = 0) (hbelow : va < trapframe)
    (hnone : userByte s.mem root va = none)
    (halloc : pmemAlloc false s = .ok (page, s'))
    (hrun : vmMappages root va page pgsize perm s' = .error reason) : OutOfMemory reason := by
  obtain ⟨rest, _, h₁, _, _, htables₁, _⟩ := h.alloc halloc
  have hin := h₁.frames.held_in page (.inr (Set.mem_insert page ∅))
  have hlt := UInt64.lt_iff_toNat_lt.mp hbelow
  rw [trapframe_toNat] at hlt
  refine mapPage_stops h₁.frames hroot hva hin.aligned (by omega) ?_ hrun
  rw [translate_of_samePages hroot htables₁]
  exact translate_none h hroot hbelow hnone

/-! The heap. -/

def pageEnd (a : Nat) : Nat := (a + 4095) / 4096 * 4096

/-- Every page from the start of user memory to `top` is mapped, and none from there to the
trap frame. -/
structure HeapAt (m : Memory) (root : UInt64) (top : Nat) : Prop where
  mapped : ∀ x : UInt64, userVmemStart.toNat ≤ x.toNat → x.toNat < top →
    (userByte m root x).isSome
  free : ∀ x : UInt64, pageEnd top ≤ x.toNat → x < trapframe → userByte m root x = none

theorem page_lt_of_contains {region : Region} (hend : region.end_ ≤ allocEnd)
    (hin : region.Contains page) : page.toNat / 4096 < 0x88000 := by
  have hlt := UInt64.lt_iff_toNat_lt.mp (UInt64.lt_of_lt_of_le hin.2.2 hend)
  have hlimit : allocEnd.toNat = 0x88000000 := rfl
  omega

/-- There are no more pages of the heap than there are frames. -/
theorem HeapAt.top_le {top : Nat} (h : HeapAt s.mem root top)
    (hspaces : Spaces s roots lk lu tfs ∅) (hroot : root ∈ roots)
    (hend : s.userRegion.end_ ≤ allocEnd) : top ≤ userVmemStart.toNat + 0x88000 * 4096 := by
  by_contra hmore
  have hstart : userVmemStart.toNat = 4096 := rfl
  let va : Fin (0x88000 + 1) → UInt64 := fun k => UInt64.ofNat (4096 + k.val * 4096)
  have hva : ∀ k, (va k).toNat = 4096 + k.val * 4096 := by
    intro k
    have hk := k.isLt
    exact UInt64.toNat_ofNat_of_lt' (show 4096 + k.val * 4096 < 2 ^ 64 by omega)
  have hmax : ∀ k, va k < vaMax := by
    intro k
    have hk := k.isLt
    rw [UInt64.lt_iff_toNat_lt, hva, vaMax_toNat]
    omega
  have hframe : ∀ k, ∃ f, userFrame s.mem root (va k) = some f := by
    intro k
    have hk := k.isLt
    have hsome := h.mapped (va k) (by rw [hva]; omega) (by rw [hva]; omega)
    unfold userByte at hsome
    rw [Option.isSome_map] at hsome
    exact Option.isSome_iff_exists.mp hsome
  choose f hf using hframe
  have hin : ∀ k, s.userRegion.Contains (f k) := fun k =>
    hspaces.frames.userFrame_in hroot (hmax k) (hf k)
  have hinjective : Function.Injective fun k : Fin (0x88000 + 1) =>
      (⟨(f k).toNat / 4096, page_lt_of_contains hend (hin k)⟩ : Fin 0x88000) := by
    intro k k' heq
    have hsame : f k = f k' := by
      have hk := (hin k).aligned
      have hk' := (hin k').aligned
      have hdiv := congrArg Fin.val heq
      dsimp only at hdiv
      exact UInt64.toNat_inj.mp (by omega)
    have hplace := hspaces.frames.tenancy.exclusive
      (Frames.owns_of_userFrame hroot (hmax k) (hf k))
      (Frames.owns_of_userFrame hroot (hmax k') (hsame ▸ hf k'))
    have hpage := (Prod.mk.inj hplace).2
    rw [hva, hva] at hpage
    exact Fin.ext (by omega)
  have hcard := Fintype.card_le_of_injective _ hinjective
  rw [Fintype.card_fin, Fintype.card_fin] at hcard
  omega

theorem end_of_setting {region : UInt64} (hend : s.userRegion.end_ ≤ region)
    (hsetting : setting s' = setting s) : s'.userRegion.end_ ≤ region := by
  have heq : s'.userRegion.end_ = s.userRegion.end_ :=
    (Prod.mk.inj (congrArg Prod.fst hsetting)).2
  rw [heq]
  exact hend

theorem pageEnd_of_aligned {a : Nat} (h : a % 4096 = 0) : pageEnd a = a := by
  unfold pageEnd
  omega

theorem HeapAt.next {m m' : Memory} (h : HeapAt m root va.toNat) (hva : va.toNat % 4096 = 0)
    (hbytes : ∀ x, x < vaMax → userByte m' root x =
      if x.toNat / 4096 = va.toNat / 4096 then some 0 else userByte m root x)
    (hbelow : va.toNat + 4096 ≤ trapframe.toNat) : HeapAt m' root (va.toNat + 4096) := by
  have htf := trapframe_toNat
  have hmax := vaMax_toNat
  refine ⟨?_, ?_⟩
  · intro x hlow hhigh
    rw [hbytes x (by rw [UInt64.lt_iff_toNat_lt]; omega)]
    split
    · rfl
    · exact h.mapped x hlow (by omega)
  · intro x hlow hhigh
    rw [pageEnd_of_aligned (by omega)] at hlow
    rw [hbytes x (lt_vaMax_of_lt hhigh), if_neg (by omega)]
    exact h.free x (by rw [pageEnd_of_aligned hva]; omega) hhigh

theorem heapGrowLoop_stops {flags : UInt64} {turns : Nat}
    (h : Spaces s roots lk lu tfs ∅) (hroot : root ∈ roots)
    (hflags : (flags ||| pteU).toNat < 1024) (hend : s.userRegion.end_ ≤ allocEnd)
    (hva : va.toNat % 4096 = 0) (hheap : HeapAt s.mem root va.toNat)
    (hrun : heapGrowLoop root flags turns va s = .error reason) : OutOfMemory reason := by
  induction turns generalizing s va lk lu with
  | zero => cases hrun
  | succ turns ih =>
      have htop := hheap.top_le h hroot hend
      have hstart : userVmemStart.toNat = 4096 := rfl
      have htf := trapframe_toNat
      have hbelow : va < trapframe := by
        rw [UInt64.lt_iff_toNat_lt]
        omega
      rw [heapGrowLoop] at hrun
      rcases Exec.bind_eq_error.mp hrun with halloc | ⟨page, s₀, halloc, hrun⟩
      · exact pmemAlloc_stops false s reason halloc
      have hpage : page ≠ 0 := by
        obtain ⟨_, hne, hpage, _⟩ := pmemAlloc_eq_ok.mp halloc
        exact hpage ▸ hne
      unfold massert at hrun
      rw [Exec.require_of_true hpage, pure_bind] at hrun
      rcases Exec.bind_eq_error.mp hrun with hmap | ⟨_, s₂, hmap, hrun⟩
      · refine mapFresh_stops h hroot hva hbelow (hheap.free va ?_ hbelow) halloc hmap
        rw [pageEnd_of_aligned hva]
      · rw [updateMem_bind] at hrun
        obtain ⟨hbuilds, _, _, hbytes⟩ := heapGrow_page h hroot hflags halloc hmap
        obtain ⟨lk₁, lu₁, h₁⟩ := hbuilds.spaces
        have hnext : (va + pgsize).toNat = va.toNat + 4096 := add_pgsize_toNat (by omega)
        refine ih h₁ (end_of_setting hend hbuilds.setting) (by omega) ?_ hrun
        rw [hnext]
        exact hheap.next hva hbytes (by omega)

/-! The new table. -/

theorem procPgtblInit_stops {tramp tf : UInt64} {extra : Set UInt64}
    (h : Spaces s roots lk lu tfs extra) (htramp : tramp.toNat % 4096 = 0)
    (htf : tf.toNat % 4096 = 0) (hrun : procPgtblInit tramp tf s = .error reason) :
    OutOfMemory reason := by
  unfold procPgtblInit at hrun
  rcases Exec.bind_eq_error.mp hrun with halloc | ⟨t, s₀, halloc, hrun⟩
  · exact pmemAlloc_stops true s reason halloc
  rw [updateMem_bind] at hrun
  obtain ⟨rest, _, _, h₁, hnone, _⟩ := h.frames.new_root halloc
  have ht : t ∈ insert t roots := Set.mem_insert t roots
  have htfVa := trapframe_toNat
  have htrVa := trampoline_toNat
  rcases Exec.bind_eq_error.mp hrun with hmap | ⟨_, s₂, hmap, hrun⟩
  · exact mapPage_stops h₁ ht (by decide) htramp (by decide) (hnone _) hmap
  · obtain ⟨lk₂, h₂, hmapped₂, _⟩ := mapHidden h₁ ht (by decide) (by decide) hmap
    rcases Exec.bind_eq_error.mp hrun with hmap' | ⟨_, s₃, _, hrun⟩
    · refine mapPage_stops h₂ ht (by decide) htf (by decide) ?_ hmap'
      rw [hmapped₂ trapframe (by decide)]
      unfold setPage
      rw [if_neg (by omega)]
      exact hnone _
    · cases hrun

section

variable {α : Type} {st st₁ st' : UvmState} {p : ProcId} {tf pgtbl : UInt64}

theorem liftMem_eq_error {m : MemM α} :
    liftMem m st = .error reason ↔ m st.mem = .error reason := by
  unfold liftMem
  cases hm : m st.mem with
  | error reason' => simp
  | ok result => simp

theorem newTable_stops (h : st.Isolated) (htramp : st.trampolinePage.toNat % 4096 = 0)
    {old : Space} (hrun : newTable old st = .error reason) : OutOfMemory reason := by
  unfold newTable at hrun
  rcases Exec.bind_eq_error.mp hrun with halloc | ⟨tf, st₁, halloc, hrun⟩
  · exact pmemAlloc_stops false _ reason (liftMem_eq_error.mp halloc)
  obtain ⟨mem₁, hpage, rfl⟩ := liftMem_eq_ok.mp halloc
  rcases Exec.bind_eq_error.mp hrun with hcopy | ⟨_, st₂, hcopy, hrun⟩
  · cases liftMem_eq_error.mp hcopy
  obtain ⟨mem₂, hcopy, rfl⟩ := liftMem_eq_ok.mp hcopy
  cases hcopy
  rw [Exec.bind_of_ok (m := get) rfl] at hrun
  rcases Exec.bind_eq_error.mp hrun with hinit | ⟨_, st₃, _, hrun⟩
  · obtain ⟨lk, lu, hspaces⟩ := h.spaces
    obtain ⟨rest, _, hspaces₁, _⟩ := hspaces.alloc hpage
    have hheld := Set.mem_insert tf (∅ : Set UInt64)
    obtain ⟨hspaces₂, _⟩ := hspaces₁.write_held (.inr hheld)
      (onlyPage_memcpy tf mem₁.mem old.tf.toNat 4096 (le_refl _))
    exact procPgtblInit_stops hspaces₂ htramp
      (hspaces₁.frames.held_in tf (.inr hheld)).aligned (liftMem_eq_error.mp hinit)
  · cases hrun

end

end UnoOS.Uvm
