import UnoOS.Uvm.CopyRuns
import UnoOS.Uvm.SavedCopies

namespace UnoOS.Uvm

open UnoOS.Lib
open UnoOS.Lib.Exec (Keeps)
open UnoOS.Kernel (ProcId nProc)
open UnoOS.Mem

/-! What a process keeps while something is done for another one: its memory, its saved
registers and its way into the kernel. -/

/-- The entries of the two pages that the kernel has in the table of a process. -/
structure Seated (m : Memory) (root tf tramp : UInt64) : Prop where
  frame : Mem.translate m root trapframe = some (paToPte tf ||| (pteW ||| pteR) ||| pteV)
  code : Mem.translate m root trampoline = some (paToPte tramp ||| (pteX ||| pteR) ||| pteV)

theorem Seated.of_upper {m m' : Memory} {roots : Set UInt64} {root tf tramp : UInt64}
    (h : Seated m root tf tramp) (hupper : KeepsUpper roots m m') (hroot : root ∈ roots) :
    Seated m' root tf tramp :=
  ⟨(hupper.kernel root hroot trapframe (UInt64.le_refl _) (by decide)).trans h.frame,
    (hupper.kernel root hroot trampoline (by decide) (by decide)).trans h.code⟩

theorem copyoutAreas_saves {s s' : MemState} {roots tfs : Set UInt64} {lk lu : List UInt64}
    {root dst : UInt64} {bytes : Nat → UInt8} {len : UInt32} {areas : List (Nat × Nat)}
    (h : Spaces s roots lk lu tfs ∅) (hroot : root ∈ roots)
    (hspan : UserSpan s.mem root dst len)
    (hrun : copyoutAreas root dst bytes len s = .ok (areas, s')) : Saves tfs s s' := by
  have hroom : dst.toNat + len.toNat < 2 ^ 64 := by
    have hend := hspan.1
    rw [trapframe_toNat] at hend
    omega
  have hin : ∀ {va f : UInt64}, va < vaMax → userFrame s.mem root va = some f →
      s.userRegion.Contains f := fun hva hf => h.frames.userFrame_in hroot hva hf
  -- a page that user code does not reach is not written
  obtain ⟨_, _, hkept⟩ := eachArea_spec
    (fun _ s₁ => ∀ g : UInt64, g.toNat % 4096 = 0 →
      (∀ va, va < vaMax → userFrame s.mem root va ≠ some g) → SamePage g s.mem s₁.mem)
    (h.kernel root hroot).below hspan
    (fun _ s₁ _ hinv va => translate_of_samePages hroot (fun t ht =>
      hinv t (ht.aligned h.frames.tables) fun x hx hf =>
        h.frames.tables_apart t ht (hin hx hf)) va)
    (fun done s₁ va f off n hinv hva hf hoff g hg hnot => by
      have honly : OnlyPage f s₁.mem (storeBytes bytes (f.toNat + off) n done s₁.mem) :=
        onlyPage_write f s₁.mem off n (fun i => bytes (done + i)) hoff
      have hmax := lt_vaMax_of_lt hva
      refine (hinv g hg hnot).trans (honly.samePage (hin hmax hf).aligned hg ?_)
      rintro rfl
      exact hnot va hmax hf)
    (AtPage.start hroom) (fun _ _ _ _ _ => rfl) hrun
  intro f hf
  exact hkept f (h.frames.held_in f (.inl hf)).aligned fun va hva =>
    h.frames.not_held (.inl hf) hroot hva

namespace UvmState

/-- The tables are apart, each process has a trap frame of its own, and its table leads
there and to the trampoline. -/
structure Living (st : UvmState) : Prop where
  kept : st.Kept
  distinct : ∀ p q, st.Used p → st.Used q → (st.procs p).tf = (st.procs q).tf → p = q
  seated : ∀ p, st.Used p →
    Seated st.mem.mem (st.procs p).pgtbl (st.procs p).tf st.trampolinePage
  table : ∀ p, st.Used p → st.mem.kernRegion.Contains (st.procs p).pgtbl

/-- A process that does not notice what happened. -/
structure Untouched (st st' : UvmState) (q : ProcId) : Prop where
  space : st'.procs q = st.procs q
  bytes : ∀ va, va < vaMax → st'.readByte q va = st.readByte q va
  saved : SamePage (st.procs q).tf st.mem.mem st'.mem.mem
  upper : ∀ va, trapframe ≤ va → va < vaMax →
    Mem.translate st'.mem.mem (st.procs q).pgtbl va =
      Mem.translate st.mem.mem (st.procs q).pgtbl va

/-- Nobody but the owner notices. -/
def Spared (owner : Option ProcId) (st st' : UvmState) : Prop :=
  ∀ q, st.Used q → owner ≠ some q → Untouched st st' q

structure Serves (owner : Option ProcId) (st st' : UvmState) : Prop where
  living : st'.Living
  spared : Spared owner st st'
  setting : setting st'.mem = setting st.mem

variable {st st' st'' : UvmState} {p q c : ProcId} {owner : Option ProcId} {mem : MemState}
  {value : Unit}

theorem Untouched.refl (st : UvmState) (q : ProcId) : Untouched st st q :=
  ⟨rfl, fun _ _ => rfl, fun _ _ => rfl, fun _ _ _ => rfl⟩

theorem Untouched.trans (h : Untouched st st' q) (h' : Untouched st' st'' q) :
    Untouched st st'' q := by
  have hsaved := h'.saved
  have hupper := h'.upper
  rw [h.space] at hsaved hupper
  exact ⟨h'.space.trans h.space, fun va hva => (h'.bytes va hva).trans (h.bytes va hva),
    h.saved.trans hsaved, fun va hva hmax => (hupper va hva hmax).trans (h.upper va hva hmax)⟩

theorem Untouched.used (h : Untouched st st' q) (hq : st.Used q) : st'.Used q := by
  unfold Used
  rw [h.space]
  exact hq

theorem Serves.refl (h : st.Living) (owner : Option ProcId) : Serves owner st st :=
  ⟨h, fun q _ _ => .refl st q, rfl⟩

theorem Serves.trans (h : Serves owner st st') (h' : Serves owner st' st'') :
    Serves owner st st'' := by
  refine ⟨h'.living, fun q hq hne => ?_, h'.setting.trans h.setting⟩
  have hfirst := h.spared q hq hne
  exact hfirst.trans (h'.spared q (hfirst.used hq) hne)

/-! Calls that change memory only. -/

structure Touches (st : UvmState) (p : ProcId) (mem : MemState) : Prop where
  confined : Confined st.roots (st.procs p).pgtbl st.trapframes st.mem mem
  saves : Saves (st.trapframes \ {(st.procs p).tf}) st.mem mem

theorem Touches.serves (h : st.Living) (hp : st.Used p) (ht : Touches st p mem) :
    Serves (some p) st { st with mem := mem } := by
  obtain ⟨hkept, hundisturbed⟩ := h.kept.confined hp fun _ _ _ => ht.confined
  refine ⟨⟨hkept, h.distinct, ?_, ?_⟩, ?_, ht.confined.setting⟩
  · intro q hq
    exact (h.seated q hq).of_upper ht.confined.upper (mem_roots hq)
  · intro q hq
    exact (contains_of_setting ht.confined.setting true _).mpr (h.table q hq)
  · intro q hq hne
    have hne' : q ≠ p := by
      rintro rfl
      exact hne rfl
    obtain ⟨hspace, hbytes⟩ := hundisturbed q hq hne'
    refine ⟨hspace, hbytes, ht.saves _ ⟨mem_trapframes hq, ?_⟩, fun va hva hmax =>
      ht.confined.upper.kernel _ (mem_roots hq) va hva hmax⟩
    exact fun heq => hne' (h.distinct q p hq hp heq)

theorem touches_frame (h : st.Living) (hp : st.Used p) {m : Memory}
    (honly : OnlyPage (st.procs p).tf st.mem.mem m) : Touches st p (st.mem.setMem m) := by
  obtain ⟨lk, lu, hspaces⟩ := h.kept.isolated.spaces
  obtain ⟨hspaces', htables, hspares⟩ := hspaces.write_held (.inl (mem_trapframes hp)) honly
  refine ⟨⟨⟨lk, lu, hspaces'⟩, fun r hr _ => hspares r hr, .of_samePages htables, rfl⟩, ?_⟩
  rintro f ⟨hf, hne⟩
  exact honly.samePage (hspaces.frames.held_in _ (.inl (mem_trapframes hp))).aligned
    (hspaces.frames.held_in f (.inl hf)).aligned hne

/-- A call of the memory layer that may change the trap frame of the process. -/
theorem Living.call {α : Type} {m : MemM α} {result : α} (h : st.Living) (hp : st.Used p)
    (hcall : ∀ mem, m st.mem = .ok (result, mem) → Touches st p mem)
    (hrun : liftMem m st = .ok (result, st')) :
    Serves (some p) st st' ∧ st'.procs = st.procs := by
  obtain ⟨mem, hm, rfl⟩ := liftMem_eq_ok.mp hrun
  exact ⟨(hcall mem hm).serves h hp, rfl⟩

/-! Calls that leave the trap frame of the process as well. -/

structure KeepsSeats (p : ProcId) (st st' : UvmState) : Prop where
  serves : Serves (some p) st st'
  same : ∀ q, (st'.procs q).state = (st.procs q).state ∧
    (st'.procs q).pgtbl = (st.procs q).pgtbl ∧ (st'.procs q).tf = (st.procs q).tf
  saves : Saves st.trapframes st.mem st'.mem

theorem KeepsSeats.refl (h : st.Living) (p : ProcId) : KeepsSeats p st st :=
  ⟨.refl h (some p), fun _ => ⟨rfl, rfl, rfl⟩, .refl _ _⟩

theorem KeepsSeats.used (h : KeepsSeats p st st') (q : ProcId) : st'.Used q ↔ st.Used q := by
  unfold Used
  rw [(h.same q).1]

theorem KeepsSeats.trapframes (h : KeepsSeats p st st') : st'.trapframes = st.trapframes := by
  ext f
  simp only [UvmState.trapframes, Set.mem_ofPred_eq, h.used, (h.same _).2.2]

theorem KeepsSeats.trans (h : KeepsSeats p st st') (h' : KeepsSeats p st' st'') :
    KeepsSeats p st st'' := by
  refine ⟨h.serves.trans h'.serves, fun q => ?_, h.saves.trans (h.trapframes ▸ h'.saves)⟩
  obtain ⟨hstate, hpgtbl, htf⟩ := h.same q
  obtain ⟨hstate', hpgtbl', htf'⟩ := h'.same q
  exact ⟨hstate'.trans hstate, hpgtbl'.trans hpgtbl, htf'.trans htf⟩

theorem Living.within {α : Type} {m : MemM α} {result : α} (h : st.Living) (hp : st.Used p)
    (hcall : ∀ mem lk lu, Spaces st.mem st.roots lk lu st.trapframes ∅ →
      m st.mem = .ok (result, mem) →
      Confined st.roots (st.procs p).pgtbl st.trapframes st.mem mem ∧
        Saves st.trapframes st.mem mem)
    (hrun : liftMem m st = .ok (result, st')) : KeepsSeats p st st' ∧ st'.procs = st.procs := by
  obtain ⟨mem, hm, rfl⟩ := liftMem_eq_ok.mp hrun
  obtain ⟨lk, lu, hspaces⟩ := h.kept.isolated.spaces
  obtain ⟨hconfined, hsaves⟩ := hcall mem lk lu hspaces hm
  have htouches : Touches st p mem := ⟨hconfined, hsaves.mono Set.sdiff_subset⟩
  exact ⟨⟨htouches.serves h hp, fun _ => ⟨rfl, rfl, rfl⟩, hsaves⟩, rfl⟩

/-! Page faults and stores. -/

theorem handleFault_keepsSeats {stval : UInt64} (h : st.Living) (hp : st.Used p)
    (hrun : liftMem (handleFault (st.procs p).pgtbl stval) st = .ok (value, st')) :
    KeepsSeats p st st' ∧ st'.procs = st.procs := by
  have hroot := mem_roots hp
  refine h.within hp (fun mem lk lu hspaces hfault => ?_) hrun
  obtain ⟨lk', lu', hspaces', hspares, hupper⟩ := handleFault_spec hspaces hroot hfault
  exact ⟨⟨⟨lk', lu', hspaces'⟩, hspares, hupper, keeps_handleFault _ _ _ _ _ hfault⟩,
    handleFault_saves hspaces hroot hfault⟩

theorem userWrite_keepsSeats {update : Memory → Memory} {va pa : UInt64} (h : st.Living)
    (hp : st.Used p) (hframe : storeFrame st.mem.mem (st.procs p).pgtbl va = some pa)
    (honly : OnlyPage pa st.mem.mem (update st.mem.mem))
    (hrun : liftMem (updateMem update) st = .ok (value, st')) : KeepsSeats p st st' := by
  obtain ⟨hva, huser⟩ := userFrame_of_storeFrame hframe
  have hroot := mem_roots hp
  refine (h.within hp (fun mem lk lu hspaces hwrite => ?_) hrun).1
  cases hwrite
  obtain ⟨hspaces', hspares, hupper⟩ := hspaces.write_user hroot hva huser honly
  refine ⟨⟨⟨lk, lu, hspaces'⟩, hspares, hupper, rfl⟩, ?_⟩
  exact Saves.mono (saves_user hspaces.frames hroot hva huser honly) Set.subset_union_left

theorem pageFault_serves {frame : Nat → UInt8} {stval : UInt64} (h : st.Living)
    (hp : st.Used p) (hrun : pageFault p frame stval st = .ok (value, st')) :
    Serves (some p) st st' ∧ st'.procs = st.procs := by
  unfold pageFault at hrun
  rw [Exec.bind_eq_ok] at hrun
  obtain ⟨_, st₁, hsave, hrun⟩ := hrun
  unfold saveFrame at hsave
  rw [readSpace_bind] at hsave
  obtain ⟨hfirst, hprocs⟩ := h.call hp (fun mem hwrite => by
    cases hwrite
    exact touches_frame h hp (onlyPage_write (st.procs p).tf st.mem.mem 0 trapframeSize frame
      (by decide))) hsave
  have hp₁ := used_of_procs hprocs hp
  rw [readSpace_bind] at hrun
  obtain ⟨hrest, hprocs'⟩ := handleFault_keepsSeats hfirst.living hp₁ hrun
  exact ⟨hfirst.trans hrest.serves, hprocs'.trans hprocs⟩

theorem userStore_serves {frame : Nat → UInt8} {va : UInt64} {byte : UInt8} (h : st.Living)
    (hp : st.Used p) (hrun : userStore p frame va byte st = .ok (value, st')) :
    Serves (some p) st st' := by
  obtain ⟨st₁, pa, hfault, hframe, hwrite⟩ := userStore_eq_ok hrun
  have hbefore : Serves (some p) st st₁ ∧ st₁.procs = st.procs := by
    rcases hfault with rfl | ⟨u, hfault⟩
    · exact ⟨.refl h (some p), rfl⟩
    · exact pageFault_serves h hp hfault
  obtain ⟨h₁, hprocs₁⟩ := hbefore
  have hp₁ := used_of_procs hprocs₁ hp
  rw [← hprocs₁] at hframe
  have honly := onlyPage_write pa st₁.mem.mem (va.toNat % 4096) 1 (fun _ => byte) (by omega)
  exact h₁.trans (userWrite_keepsSeats h₁.living hp₁ hframe honly hwrite).serves

theorem copyout_keepsSeats {dst : UInt64} {src : Nat → UInt8} {len : UInt32} (h : st.Living)
    (hp : st.Used p) (hspan : UserSpan st.mem.mem (st.procs p).pgtbl dst len)
    (hrun : liftMem (uvmCopyout (st.procs p).pgtbl dst src len) st = .ok (value, st')) :
    KeepsSeats p st st' := by
  refine (h.within hp (fun mem lk lu hspaces hcopy => ?_) hrun).1
  rw [uvmCopyout_eq_areas] at hcopy
  obtain ⟨areas, mem', hareas, hend⟩ := Exec.bind_eq_ok.mp hcopy
  cases hend
  exact ⟨(copyoutAreas_spec hspaces (mem_roots hp) hspan hareas).2,
    copyoutAreas_saves hspaces (mem_roots hp) hspan hareas⟩

/-! `sys_brk`, `sys_mmap` and `sys_munmap` -/

theorem Living.of_regions (h : st.Living) (hsame : withoutRegions st' = withoutRegions st)
    (p : ProcId) : KeepsSeats p st st' := by
  obtain ⟨hmem, hprocs, htramp⟩ := withoutRegions_eq hsame
  have hused : ∀ q, st'.Used q → st.Used q := fun q hq => used_of_procs hprocs.symm hq
  refine ⟨⟨⟨h.kept.of_regions hsame, ?_, ?_, ?_⟩, fun q _ _ => ⟨by rw [hprocs], ?_, ?_, ?_⟩,
    by rw [hmem]⟩, fun q => by rw [hprocs]; exact ⟨rfl, rfl, rfl⟩, fun f _ x _ => by rw [hmem]⟩
  · intro a b ha hb heq
    rw [hprocs] at heq
    exact h.distinct a b (hused a ha) (hused b hb) heq
  · intro a ha
    rw [hmem, hprocs, htramp]
    exact h.seated a (hused a ha)
  · intro a ha
    rw [hmem, hprocs]
    exact h.table a (hused a ha)
  · intro va _
    unfold readByte
    rw [hmem, hprocs]
  · intro x _
    rw [hmem]
  · intro va _ _
    rw [hmem]

theorem Living.withHeapTop (h : st.Living) {heapTop : UInt64} (hheap : heapTop ≤ trapframe) :
    KeepsSeats p st (st.withHeapTop p heapTop) := by
  have hsame : ∀ q, ((st.withHeapTop p heapTop).procs q).state = (st.procs q).state ∧
      ((st.withHeapTop p heapTop).procs q).pgtbl = (st.procs q).pgtbl ∧
      ((st.withHeapTop p heapTop).procs q).tf = (st.procs q).tf :=
    withHeapTop_same heapTop
  have hused : ∀ q, (st.withHeapTop p heapTop).Used q → st.Used q := by
    intro q hq
    unfold Used at hq ⊢
    rwa [(hsame q).1] at hq
  refine ⟨⟨⟨h.kept.withHeapTop hheap, ?_, ?_, ?_⟩, ?_, rfl⟩, hsame, .refl _ _⟩
  · intro a b ha hb heq
    rw [(hsame a).2.2, (hsame b).2.2] at heq
    exact h.distinct a b (hused a ha) (hused b hb) heq
  · intro a ha
    rw [(hsame a).2.1, (hsame a).2.2]
    exact h.seated a (hused a ha)
  · intro a ha
    rw [(hsame a).2.1]
    exact h.table a (hused a ha)
  · intro q _ hne
    have hqp : q ≠ p := by
      rintro rfl
      exact hne rfl
    have hspace : (st.withHeapTop p heapTop).procs q = st.procs q :=
      Function.update_of_ne hqp _ _
    refine ⟨hspace, fun va _ => ?_, fun _ _ => rfl, fun _ _ _ => rfl⟩
    unfold readByte
    rw [hspace]
    rfl

theorem sysBrk_keepsSeats {newHeapTop ret : UInt64} (h : st.Living) (hp : st.Used p)
    (hrun : sysBrk p newHeapTop st = .ok (ret, st')) : KeepsSeats p st st' := by
  have hheap := UInt64.le_iff_toNat_le.mp (h.kept.settled.heap p hp)
  obtain ⟨lk, lu, hspaces⟩ := h.kept.isolated.spaces
  have hroot := mem_roots hp
  unfold sysBrk at hrun
  rw [readSpace_bind] at hrun
  split at hrun
  · cases hrun
    exact .refl h p
  split at hrun
  · obtain ⟨heapTop, mem, hgrow, hrun⟩ := liftMem_bind_eq_ok.mp hrun
    rw [writeSpace_bind] at hrun
    obtain ⟨rfl, rfl⟩ := Prod.mk.inj (Except.ok.inj hrun)
    obtain ⟨_, htop, hroom, _⟩ := uvmHeapGrow_spec hspaces hroot (by decide) hheap hgrow
    have hkeeps := (h.within hp (fun _ _ _ hspaces hgrow =>
      ⟨(uvmHeapGrow_spec hspaces hroot (by decide) hheap hgrow).1.confined,
        uvmHeapGrow_saves hspaces hroot (by decide) hgrow⟩)
      (liftMem_eq_ok.mpr ⟨mem, hgrow, rfl⟩)).1
    refine hkeeps.trans (hkeeps.serves.living.withHeapTop ?_)
    rw [UInt64.le_iff_toNat_le, htop]
    by_cases hlen : (newHeapTop - (st.procs p).heapTop).toUInt32.toNat = 0
    · omega
    · have hend := (hroom hlen).2
      omega
  · next hzero hle =>
    rw [UInt64.not_lt] at hle
    obtain ⟨heapTop, mem, hungrow, hrun⟩ := liftMem_bind_eq_ok.mp hrun
    rw [writeSpace_bind] at hrun
    obtain ⟨rfl, rfl⟩ := Prod.mk.inj (Except.ok.inj hrun)
    have hapart := h.kept.settled.apart
    have hlen : ((st.procs p).heapTop - newHeapTop).toUInt32.toNat ≤
        (st.procs p).heapTop.toNat := by
      refine Nat.le_trans (toUInt32_toNat_le _) ?_
      rw [UInt64.toNat_sub_of_le _ _ hle]
      omega
    obtain ⟨_, htop⟩ := uvmHeapUngrow_confined hspaces hroot hapart hheap hlen hungrow
    have hkeeps := (h.within hp (fun _ _ _ hspaces hungrow =>
      ⟨(uvmHeapUngrow_confined hspaces hroot hapart hheap hlen hungrow).1,
        uvmHeapUngrow_saves hspaces hroot hapart hheap hungrow⟩)
      (liftMem_eq_ok.mpr ⟨mem, hungrow, rfl⟩)).1
    refine hkeeps.trans (hkeeps.serves.living.withHeapTop ?_)
    rw [UInt64.le_iff_toNat_le, htop]
    omega

theorem sysMmap_keepsSeats {begin ret : UInt64} {len : UInt32} (h : st.Living) (hp : st.Used p)
    (hrun : sysMmap p begin len st = .ok (ret, st')) : KeepsSeats p st st' := by
  unfold sysMmap at hrun
  split at hrun
  · cases hrun
    exact .refl h p
  rw [readSpace_bind, deref_bind_eq_ok] at hrun
  obtain ⟨sentinel, _, hrun⟩ := hrun
  rw [readRegion_bind] at hrun
  obtain ⟨found, st₁, hscan, hrun⟩ := Exec.bind_eq_ok.mp hrun
  obtain rfl := mmapAddress_same hscan
  cases found with
  | none =>
      cases hrun
      exact .refl h p
  | some found =>
      obtain ⟨_, st₂, hmmap, hrun⟩ := Exec.bind_eq_ok.mp hrun
      obtain ⟨_, rfl⟩ := Prod.mk.inj (Except.ok.inj hrun)
      rcases uvmMmap_eq_ok hmmap with rfl | ⟨st₃, first, hsame, hmap⟩
      · exact .refl h p
      · obtain ⟨_, hprocs, _⟩ := withoutRegions_eq hsame
        rw [← hprocs] at hmap
        have hp₃ := used_of_procs hprocs hp
        have hroot := mem_roots hp₃
        have hfirst := h.of_regions hsame p
        exact hfirst.trans (hfirst.serves.living.within hp₃ (fun _ _ _ hspaces hm =>
          ⟨(mapNewPages_spec hspaces hroot (by decide) (by decide) hm).1.confined,
            mapNewPages_saves hspaces hroot (by decide) (by decide) hm⟩) hmap).1

theorem sysMunmap_keepsSeats {begin ret : UInt64} {len : UInt32} (h : st.Living) (hp : st.Used p)
    (hrun : sysMunmap p begin len st = .ok (ret, st')) : KeepsSeats p st st' := by
  unfold sysMunmap at hrun
  obtain ⟨_, st₁, hmunmap, hrun⟩ := Exec.bind_eq_ok.mp hrun
  obtain ⟨_, rfl⟩ := Prod.mk.inj (Except.ok.inj hrun)
  rcases uvmMunmap_eq_ok hmunmap with rfl | ⟨hend, st₂, hsame, hunmap⟩
  · exact .refl h p
  · obtain ⟨_, hprocs, _⟩ := withoutRegions_eq hsame
    rw [← hprocs] at hunmap
    have hp₂ := used_of_procs hprocs hp
    have hroot := mem_roots hp₂
    have hsize : (len / 4096 * 4096).toUInt64.toNat < 2 ^ 32 := by
      rw [UInt32.toNat_toUInt64]
      exact UInt32.toNat_lt _
    have hfirst := h.of_regions hsame p
    have hapart := hfirst.serves.living.kept.settled.apart
    exact hfirst.trans (hfirst.serves.living.within hp₂ (fun _ _ _ hspaces hm =>
      ⟨uvmMunmap_confined hspaces hroot hapart hsize hend hm,
        uvmMunmap_saves hspaces hroot hapart hsize hend hm⟩) hunmap).1

end UvmState

end UnoOS.Uvm
