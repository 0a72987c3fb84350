import UnoOS.Mem.Entries
import UnoOS.Uvm.Bounds
import UnoOS.Uvm.Copies
import UnoOS.Uvm.Forks
import UnoOS.Uvm.ProcExec

namespace UnoOS.Uvm

open UnoOS.Lib
open UnoOS.Mem

/-! What the calls of `proc_exec` put behind the addresses of a table. -/

def KernelTables (s : MemState) (roots : Set UInt64) : Prop :=
  ∀ t, IsTable s.mem roots t → s.kernRegion.Contains t

structure Builds (roots : Set UInt64) (root : UInt64) (tfs : Set UInt64)
    (s s' : MemState) : Prop where
  spaces : ∃ lk lu, Spaces s' roots lk lu tfs ∅
  others : ∀ r ∈ roots, r ≠ root → Spares r s s'
  upper : KeepsUpper roots s.mem s'.mem
  entries : SoundEntries s.mem root → SoundEntries s'.mem root
  tables : KernelTables s roots → KernelTables s' roots
  setting : setting s' = setting s

variable {s s' s'' : MemState} {roots : Set UInt64} {lk lk' lu : List UInt64}
  {tfs held : Set UInt64} {root va page perm : UInt64}

theorem KernelTables.added (h : KernelTables s roots) (hframes : Frames s roots lk lu held)
    (hadded : ∀ t, IsTable s'.mem roots t → IsTable s.mem roots t ∨ t ∈ lk)
    (hsetting : setting s' = setting s) : KernelTables s' roots := by
  intro t ht
  obtain ⟨hbegin, hend⟩ := Prod.mk.inj (Prod.mk.inj hsetting).2
  rw [Region.contains_congr hbegin hend]
  rcases hadded t ht with hold | hnew
  · exact h t hold
  · exact hframes.kern.list.inRegion t hnew

theorem KernelTables.of_samePages (h : KernelTables s roots)
    (hsame : ∀ t, IsTable s.mem roots t → SamePage t s.mem s'.mem)
    (hsetting : setting s' = setting s) : KernelTables s' roots := by
  intro t ht
  obtain ⟨hbegin, hend⟩ := Prod.mk.inj (Prod.mk.inj hsetting).2
  rw [Region.contains_congr hbegin hend]
  exact h t ((isTable_of_samePages hsame).mp ht)

theorem Builds.refl (h : Spaces s roots lk lu tfs ∅) : Builds roots root tfs s s :=
  ⟨⟨lk, lu, h⟩, fun r _ _ => Spares.refl r s, .refl roots _, id, id, rfl⟩

theorem Builds.trans (h : Builds roots root tfs s s') (h' : Builds roots root tfs s' s'') :
    Builds roots root tfs s s'' :=
  ⟨h'.spaces, fun r hr hne => (h.others r hr hne).trans (h'.others r hr hne),
    h.upper.trans h'.upper, fun hentries => h'.entries (h.entries hentries),
    fun htables => h'.tables (h.tables htables), h'.setting.trans h.setting⟩

/-! Stores to a frame of the table. -/

theorem write_user_bytes (h : Spaces s roots lk lu tfs ∅) (hroot : root ∈ roots)
    (hva : va < vaMax) (hpage : userFrame s.mem root va = some page) {m : Memory}
    (honly : OnlyPage page s.mem m) {x : UInt64} (hx : x < vaMax) :
    userByte m root x =
      if x.toNat / 4096 = va.toNat / 4096 then some (m (page.toNat + x.toNat % 4096))
      else userByte s.mem root x := by
  have hin := h.frames.userFrame_in hroot hva hpage
  have honly' : OnlyPage page s.mem (s.setMem m).mem := honly
  have hframe : userFrame m root x = userFrame s.mem root x :=
    Frames.touch_userFrame h.frames hin honly' hroot x
  unfold userByte
  rw [hframe]
  by_cases hsame : x.toNat / 4096 = va.toNat / 4096
  · rw [if_pos hsame, userFrame_same_page hx hva hsame, hpage, Option.map_some]
  · rw [if_neg hsame]
    cases hf : userFrame s.mem root x with
    | none => rfl
    | some f =>
        have hne : f ≠ page := by
          rintro rfl
          have hplace := h.frames.tenancy.exclusive
            (Frames.owns_of_userFrame hroot hx hf) (Frames.owns_of_userFrame hroot hva hpage)
          exact hsame (Prod.mk.inj hplace).2
        have hsamePage : SamePage f s.mem m :=
          honly.samePage hin.aligned (h.frames.userFrame_in hroot hx hf).aligned hne
        rw [Option.map_some, Option.map_some, hsamePage _ (inPage_offset f x.toNat)]

theorem write_user_builds (h : Spaces s roots lk lu tfs ∅) (hroot : root ∈ roots)
    (hva : va < vaMax) (hpage : userFrame s.mem root va = some page) {m : Memory}
    (honly : OnlyPage page s.mem m) : Builds roots root tfs s (s.setMem m) := by
  obtain ⟨h', hothers, hupper⟩ := h.write_user hroot hva hpage honly
  have honly' : OnlyPage page s.mem (s.setMem m).mem := honly
  have hsame : ∀ t, IsTable s.mem roots t → SamePage t s.mem (s.setMem m).mem :=
    fun t ht => Frames.touch_table h.frames (h.frames.userFrame_in hroot hva hpage) honly' ht
  refine ⟨⟨lk, lu, h'⟩, hothers, hupper, ?_, fun htables => htables.of_samePages hsame rfl,
    rfl⟩
  intro hentries
  refine hentries.of_samePages fun t ht => ?_
  exact hsame t (ht.mono (Set.singleton_subset_iff.mpr hroot))

/-! A page that is allocated and mapped. -/

theorem mapFresh_builds {value : Unit} (h : Spaces s roots lk lu tfs ∅)
    (hroot : root ∈ roots) (hperm : perm.toNat < 1024) (huser : perm &&& pteU ≠ 0)
    (halloc : pmemAlloc false s = .ok (page, s'))
    (hrun : vmMappages root va page pgsize perm s' = .ok (value, s'')) :
    Builds roots root tfs s s'' ∧ va.toNat % 4096 = 0 ∧ va < trapframe ∧
      userFrame s''.mem root va = some page ∧
      ∀ x, x < vaMax → userByte s''.mem root x =
        if x.toNat / 4096 = va.toNat / 4096 then some 0 else userByte s.mem root x := by
  obtain ⟨rest, hfresh, h₁, hzero, _, htables₁, hspares₁⟩ := h.alloc halloc
  have hin : s'.userRegion.Contains page :=
    h₁.frames.held_in page (.inr (Set.mem_insert page ∅))
  have hnot : page ∉ tfs := fun hmem => hfresh (.inl hmem)
  obtain ⟨lk', h₂, _, hframe, hsame, _, hspares₂, hupper₂⟩ :=
    h₁.map hroot (Set.mem_insert page ∅) hnot (Set.subset_insert page ∅)
      (fun hmem => hfresh (.inr hmem)) hperm huser hrun
  have hbelow : va < trapframe :=
    (h₁.kernel root hroot).map_below (fun _ _ => rfl) h₁.frames hroot hin hnot hrun
  obtain ⟨haligned, _⟩ := Frames.mapPage_guard hrun
  obtain ⟨htables', hframes'⟩ : PageTables s'.mem {root} ∧ FreshFrames s' {root} lk :=
    ⟨h₁.frames.tables.mono (Set.singleton_subset_iff.mpr hroot),
      h₁.frames.kern.mono (Set.singleton_subset_iff.mpr hroot)⟩
  refine ⟨⟨⟨lk', rest, h₂⟩, fun r hr hne => (hspares₁ r hr).trans (hspares₂ r hr hne),
    (KeepsUpper.of_samePages htables₁).trans hupper₂, ?_, ?_,
    (keeps_vmMappages _ _ _ _ _ _ _ _ hrun).trans (keeps_pmemAlloc _ _ _ _ halloc)⟩,
    haligned, hbelow, ?_, ?_⟩
  · intro hentries
    refine mapPage_soundEntries htables' hframes' (hentries.of_samePages fun t ht => ?_) hrun
    exact htables₁ t (ht.mono (Set.singleton_subset_iff.mpr hroot))
  · intro hkernel
    obtain ⟨_, _, hmap, _⟩ := h₁.frames.mapPage_spec hroot hperm hrun
    exact (hkernel.of_samePages htables₁ (keeps_pmemAlloc _ _ _ _ halloc)).added h₁.frames
      hmap.added (keeps_vmMappages _ _ _ _ _ _ _ _ hrun)
  · rw [hframe va (lt_vaMax_of_lt hbelow), if_pos rfl]
  · intro x hx
    unfold userByte
    rw [hframe x hx]
    by_cases hpage : x.toNat / 4096 = va.toNat / 4096
    · have hinPage := inPage_offset page x.toNat
      rw [if_pos hpage, if_pos hpage, Option.map_some, hsame page hin _ hinPage,
        hzero _ hinPage]
    · rw [if_neg hpage, if_neg hpage]
      obtain ⟨hframe₁, hsame₁⟩ := hspares₁ root hroot x hx
      rw [hframe₁]
      cases hf : userFrame s.mem root x with
      | none => rfl
      | some f =>
          have hinPage := inPage_offset f x.toNat
          have hin' := h₁.frames.userFrame_in hroot hx (hframe₁.trans hf)
          rw [Option.map_some, Option.map_some, hsame f hin' _ hinPage, hsame₁ f hf _ hinPage]

/-! Loops that map page after page. -/

/-- A page is mapped at `va`, and the rest of the loop follows. -/
def MapsPage (roots : Set UInt64) (root : UInt64) (tfs : Set UInt64) (va : UInt64)
    (rest : MemM Unit) (s : MemState) (value : Unit) (s' : MemState) : Prop :=
  ∃ s₁, Builds roots root tfs s s₁ ∧ va.toNat % 4096 = 0 ∧ va < trapframe ∧
    (∀ x, x < vaMax → userByte s₁.mem root x =
      if x.toNat / 4096 = va.toNat / 4096 then some 0 else userByte s.mem root x) ∧
    rest s₁ = .ok (value, s')

theorem mapsPages_spec (loop : Nat → UInt64 → MemM Unit) {turns : Nat} {value : Unit}
    (hzero : ∀ va, loop 0 va = pure ())
    (hsucc : ∀ {turns va s s' lk lu}, Spaces s roots lk lu tfs ∅ →
      loop (turns + 1) va s = .ok (value, s') →
      MapsPage roots root tfs va (loop turns (va + pgsize)) s value s')
    (h : Spaces s roots lk lu tfs ∅) (hrun : loop turns va s = .ok (value, s')) :
    Builds roots root tfs s s' ∧
      (turns ≠ 0 → va.toNat % 4096 = 0 ∧ va.toNat + turns * 4096 ≤ trapframe.toNat) ∧
      ∀ x, x < vaMax → userByte s'.mem root x =
        if InTurns va turns x then some 0 else userByte s.mem root x := by
  induction turns generalizing s va lk lu with
  | zero =>
      rw [hzero] at hrun
      cases hrun
      refine ⟨.refl h, fun hne => absurd rfl hne, ?_⟩
      intro x _
      rw [if_neg (inTurns_zero va x)]
  | succ turns ih =>
      obtain ⟨s₁, hbuilds, haligned, hbelow, hbytes, hrest⟩ :=
        hsucc h hrun
      obtain ⟨lk₁, lu₁, h₁⟩ := hbuilds.spaces
      obtain ⟨hbuilds', hroom, hbytes'⟩ := ih h₁ hrest
      rw [UInt64.lt_iff_toNat_lt, trapframe_toNat] at hbelow
      have hnext : (va + pgsize).toNat = va.toNat + 4096 := add_pgsize_toNat (by omega)
      refine ⟨hbuilds.trans hbuilds', fun _ => ⟨haligned, ?_⟩, ?_⟩
      · rw [trapframe_toNat] at hroom ⊢
        by_cases hlast : turns = 0
        · subst hlast
          omega
        · have hend := (hroom hlast).2
          omega
      · intro x hx
        rw [hbytes' x hx, hbytes x hx]
        simp only [inTurns_succ turns x (show va.toNat + 4096 < 2 ^ 64 by omega)]
        by_cases hlater : InTurns (va + pgsize) turns x
        · rw [if_pos hlater, if_pos (.inr hlater)]
        · by_cases hhere : x.toNat / 4096 = va.toNat / 4096
          · rw [if_neg hlater, if_pos hhere, if_pos (.inl hhere)]
          · rw [if_neg hlater, if_neg hhere, if_neg fun hor => hor.elim hhere hlater]

/-! `uvm_heap_grow` -/

theorem or_pteU (flags : UInt64) : (flags ||| pteU) &&& pteU = pteU := by
  apply UInt64.toBitVec_inj.mp
  ext i
  simp
  tauto

theorem heapGrow_page {flags : UInt64} {value : Unit} {s₀ s₂ : MemState}
    (h : Spaces s roots lk lu tfs ∅) (hroot : root ∈ roots)
    (hflags : (flags ||| pteU).toNat < 1024) (halloc : pmemAlloc false s = .ok (page, s₀))
    (hmap : vmMappages root va page pgsize (flags ||| pteU) s₀ = .ok (value, s₂)) :
    Builds roots root tfs s (s₂.setMem (s₂.mem.memset page.toNat 0 4096)) ∧
      va.toNat % 4096 = 0 ∧ va < trapframe ∧
      ∀ x, x < vaMax → userByte (s₂.mem.memset page.toNat 0 4096) root x =
        if x.toNat / 4096 = va.toNat / 4096 then some 0 else userByte s.mem root x := by
  have huser : (flags ||| pteU) &&& pteU ≠ 0 := by
    rw [or_pteU]
    decide
  obtain ⟨hbuilds, haligned, hbelow, hframe, hbytes⟩ :=
    mapFresh_builds h hroot hflags huser halloc hmap
  obtain ⟨lk₂, lu₂, h₂⟩ := hbuilds.spaces
  have hmax := lt_vaMax_of_lt hbelow
  have honly := onlyPage_memset page s₂.mem 0
  refine ⟨hbuilds.trans (write_user_builds h₂ hroot hmax hframe honly), haligned,
    hbelow, ?_⟩
  intro x hx
  rw [write_user_bytes h₂ hroot hmax hframe honly hx, hbytes x hx]
  split
  · have hin := inPage_offset page x.toNat
    unfold InPage at hin
    exact congrArg some (Memory.write_of_mem hin.1 hin.2)
  · rfl

theorem heapGrowLoop_succ {flags : UInt64} {turns : Nat} {value : Unit}
    (h : Spaces s roots lk lu tfs ∅) (hroot : root ∈ roots)
    (hflags : (flags ||| pteU).toNat < 1024)
    (hrun : heapGrowLoop root flags (turns + 1) va s = .ok (value, s')) :
    MapsPage roots root tfs va (heapGrowLoop root flags turns (va + pgsize)) s value s' := by
  rw [heapGrowLoop, Exec.bind_eq_ok] at hrun
  obtain ⟨page, s₀, halloc, hrun⟩ := hrun
  rw [massert_bind_eq_ok, Exec.bind_eq_ok] at hrun
  obtain ⟨_, _, s₂, hmap, hrun⟩ := hrun
  rw [updateMem_bind] at hrun
  obtain ⟨hbuilds, haligned, hbelow, hbytes⟩ := heapGrow_page h hroot hflags halloc hmap
  exact ⟨_, hbuilds, haligned, hbelow, hbytes, hrun⟩

theorem heapGrowLoop_spec {flags : UInt64} {turns : Nat} {value : Unit}
    (h : Spaces s roots lk lu tfs ∅) (hroot : root ∈ roots)
    (hflags : (flags ||| pteU).toNat < 1024)
    (hrun : heapGrowLoop root flags turns va s = .ok (value, s')) :
    Builds roots root tfs s s' ∧
      (turns ≠ 0 → va.toNat % 4096 = 0 ∧ va.toNat + turns * 4096 ≤ trapframe.toNat) ∧
      ∀ x, x < vaMax → userByte s'.mem root x =
        if InTurns va turns x then some 0 else userByte s.mem root x :=
  mapsPages_spec (heapGrowLoop root flags) (fun _ => rfl)
    (fun h hrun => heapGrowLoop_succ h hroot hflags hrun) h hrun

/-! `uvm_mmap` -/

theorem mapNewPages_succ {pages : Nat} {value : Unit} (h : Spaces s roots lk lu tfs ∅)
    (hroot : root ∈ roots) (hperm : perm.toNat < 1024) (huser : perm &&& pteU ≠ 0)
    (hrun : mapNewPages root perm (pages + 1) va s = .ok (value, s')) :
    MapsPage roots root tfs va (mapNewPages root perm pages (va + pgsize)) s value s' := by
  rw [mapNewPages, Exec.bind_eq_ok] at hrun
  obtain ⟨page, s₀, halloc, hrun⟩ := hrun
  rw [Exec.bind_eq_ok] at hrun
  obtain ⟨_, s₁, hmap, hrun⟩ := hrun
  obtain ⟨hbuilds, haligned, hbelow, _, hbytes⟩ :=
    mapFresh_builds h hroot hperm huser halloc hmap
  exact ⟨s₁, hbuilds, haligned, hbelow, hbytes, hrun⟩

theorem mapNewPages_spec {pages : Nat} {value : Unit} (h : Spaces s roots lk lu tfs ∅)
    (hroot : root ∈ roots) (hperm : perm.toNat < 1024) (huser : perm &&& pteU ≠ 0)
    (hrun : mapNewPages root perm pages va s = .ok (value, s')) :
    Builds roots root tfs s s' ∧
      (pages ≠ 0 → va.toNat % 4096 = 0 ∧ va.toNat + pages * 4096 ≤ trapframe.toNat) ∧
      ∀ x, x < vaMax → userByte s'.mem root x =
        if InTurns va pages x then some 0 else userByte s.mem root x :=
  mapsPages_spec (mapNewPages root perm) (fun _ => rfl)
    (fun h hrun => mapNewPages_succ h hroot hperm huser hrun) h hrun

end UnoOS.Uvm
