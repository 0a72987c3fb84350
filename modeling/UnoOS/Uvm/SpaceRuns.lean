import UnoOS.Uvm.SpaceCalls

namespace UnoOS.Uvm

open UnoOS.Lib
open UnoOS.Kernel (ProcId)
open UnoOS.Mem

/-! Runs of all calls that change what processes have mapped. -/

structure ExecArgv where
  argv : List (List UInt8)
  count : argv.length ≤ elfMaxargs
  strings : ∀ arg ∈ argv, KernelString arg

namespace UvmState

structure Kept (st : UvmState) : Prop where
  isolated : st.Isolated
  settled : st.Settled

variable {st st' : UvmState} {p : ProcId}

theorem kept_of_tables (hframes : ∃ lk lu, Frames st.mem st.roots lk lu st.trapframes)
    (hown : ∀ p, st.Used p → KernelPages st.mem (st.procs p).pgtbl {(st.procs p).tf})
    (hupper : ∀ p, st.Used p → NoUpper st.mem.mem (st.procs p).pgtbl)
    (hheap : ∀ p, st.Used p → (st.procs p).heapTop ≤ trapframe)
    (hdistinct : ∀ p q, st.Used p → st.Used q →
      (st.procs p).pgtbl = (st.procs q).pgtbl → p = q)
    (htramp : ¬ st.mem.userRegion.Contains st.trampolinePage)
    (hapart : RegionsApart st.mem) : st.Kept := by
  obtain ⟨lk, lu, hframes⟩ := hframes
  refine ⟨⟨⟨lk, lu, ?_, ?_⟩, hdistinct, htramp⟩, ⟨hapart, hupper, hown, hheap⟩⟩
  · rw [Set.union_empty]
    exact hframes
  · rintro _ ⟨p, hp, rfl⟩
    exact (hown p hp).congr (Set.singleton_subset_iff.mpr (mem_trapframes hp))
      (fun _ => Iff.rfl) fun _ _ => rfl

/-- Only memory has changed, by a call for one process. -/
theorem Kept.confined (h : st.Kept) (hp : st.Used p) {mem : MemState}
    (hcall : ∀ lk lu, Spaces st.mem st.roots lk lu st.trapframes ∅ →
      Confined st.roots (st.procs p).pgtbl st.trapframes st.mem mem) :
    Kept { st with mem := mem } ∧ Undisturbed p st { st with mem := mem } := by
  obtain ⟨lk, lu, hspaces⟩ := h.isolated.spaces
  have hconfined := hcall lk lu hspaces
  obtain ⟨lk', lu', hspaces'⟩ := hconfined.spaces
  have hisolated := h.isolated.of_mem hspaces' (congrArg Prod.fst hconfined.setting)
  exact ⟨⟨hisolated, h.settled.keeps rfl hisolated hconfined.setting hconfined.upper⟩,
    h.isolated.undisturbed hp hconfined.others⟩

theorem Kept.of_regions (h : st.Kept) (hsame : withoutRegions st' = withoutRegions st) :
    st'.Kept := by
  obtain ⟨hmem, hprocs, htramp⟩ := withoutRegions_eq hsame
  have hroots := roots_of_procs hprocs
  have htfs : st'.trapframes = st.trapframes := by
    unfold trapframes Used
    rw [hprocs]
  have hisolated : st'.Isolated := by
    refine ⟨?_, ?_, ?_⟩
    · rw [hmem, hroots, htfs]
      exact h.isolated.spaces
    · unfold Used
      rw [hprocs]
      exact h.isolated.distinct
    · rw [hmem, htramp]
      exact h.isolated.trampoline
  refine ⟨hisolated, h.settled.keeps hprocs hisolated (by rw [hmem]) ?_⟩
  rw [hmem]
  exact .refl _ _

def withHeapTop (st : UvmState) (p : ProcId) (heapTop : UInt64) : UvmState :=
  { st with procs := Function.update st.procs p { st.procs p with heapTop := heapTop } }

theorem withHeapTop_same (heapTop : UInt64) (q : ProcId) :
    ((st.withHeapTop p heapTop).procs q).state = (st.procs q).state ∧
      ((st.withHeapTop p heapTop).procs q).pgtbl = (st.procs q).pgtbl ∧
      ((st.withHeapTop p heapTop).procs q).tf = (st.procs q).tf := by
  unfold withHeapTop
  by_cases hq : q = p
  · subst hq
    simp only [Function.update_self, and_self]
  · simp only [Function.update_of_ne hq, and_self]

theorem Kept.withHeapTop (h : st.Kept) {heapTop : UInt64} (hheap : heapTop ≤ trapframe) :
    (st.withHeapTop p heapTop).Kept := by
  have hused : ∀ q, (st.withHeapTop p heapTop).Used q ↔ st.Used q := by
    intro q
    unfold Used
    rw [(withHeapTop_same heapTop q).1]
  have hroots : (st.withHeapTop p heapTop).roots = st.roots := by
    ext t
    simp only [roots, Set.mem_ofPred_eq, hused, (withHeapTop_same heapTop _).2.1]
  have htfs : (st.withHeapTop p heapTop).trapframes = st.trapframes := by
    ext f
    simp only [trapframes, Set.mem_ofPred_eq, hused, (withHeapTop_same heapTop _).2.2]
  obtain ⟨lk, lu, hspaces⟩ := h.isolated.spaces
  refine kept_of_tables ?_ ?_ ?_ ?_ ?_ h.isolated.trampoline h.settled.apart
  · rw [hroots, htfs, ← Set.union_empty st.trapframes]
    exact ⟨lk, lu, hspaces.frames⟩
  · intro q hq
    rw [(withHeapTop_same heapTop q).2.1, (withHeapTop_same heapTop q).2.2]
    exact h.settled.own q ((hused q).mp hq)
  · intro q hq
    rw [(withHeapTop_same heapTop q).2.1]
    exact h.settled.upper q ((hused q).mp hq)
  · intro q hq
    unfold UvmState.withHeapTop
    by_cases hqp : q = p
    · subst hqp
      simp only [Function.update_self]
      exact hheap
    · simp only [Function.update_of_ne hqp]
      exact h.settled.heap q ((hused q).mp hq)
  · intro q r hq hr heq
    rw [(withHeapTop_same heapTop q).2.1, (withHeapTop_same heapTop r).2.1] at heq
    exact h.isolated.distinct q r ((hused q).mp hq) ((hused r).mp hr) heq

/-! The system calls. -/

theorem sysBrk_kept {newHeapTop ret : UInt64} (h : st.Kept) (hp : st.Used p)
    (hrun : sysBrk p newHeapTop st = .ok (ret, st')) : st'.Kept := by
  have hheap := UInt64.le_iff_toNat_le.mp (h.settled.heap p hp)
  unfold sysBrk at hrun
  rw [readSpace_bind] at hrun
  split at hrun
  · cases hrun
    exact h
  split at hrun
  · obtain ⟨heapTop, mem, hgrow, hrun⟩ := liftMem_bind_eq_ok.mp hrun
    rw [writeSpace_bind] at hrun
    obtain ⟨rfl, rfl⟩ := Prod.mk.inj (Except.ok.inj hrun)
    obtain ⟨lk, lu, hspaces⟩ := h.isolated.spaces
    obtain ⟨_, htop, hroom, _⟩ :=
      uvmHeapGrow_spec hspaces (mem_roots hp) (by decide) hheap hgrow
    have hkept := (h.confined hp fun lk lu hspaces =>
      (uvmHeapGrow_spec hspaces (mem_roots hp) (by decide) hheap hgrow).1.confined).1
    refine hkept.withHeapTop ?_
    rw [UInt64.le_iff_toNat_le, htop]
    by_cases hlen : (newHeapTop - (st.procs p).heapTop).toUInt32.toNat = 0
    · omega
    · have hend := (hroom hlen).2
      omega
  · next hzero hle =>
    rw [UInt64.not_lt] at hle
    obtain ⟨heapTop, mem, hungrow, hrun⟩ := liftMem_bind_eq_ok.mp hrun
    rw [writeSpace_bind] at hrun
    obtain ⟨rfl, rfl⟩ := Prod.mk.inj (Except.ok.inj hrun)
    have hlen : ((st.procs p).heapTop - newHeapTop).toUInt32.toNat ≤
        (st.procs p).heapTop.toNat := by
      refine Nat.le_trans (toUInt32_toNat_le _) ?_
      rw [UInt64.toNat_sub_of_le _ _ hle]
      omega
    obtain ⟨lk, lu, hspaces⟩ := h.isolated.spaces
    obtain ⟨_, htop⟩ := uvmHeapUngrow_confined hspaces (mem_roots hp) h.settled.apart hheap
      hlen hungrow
    have hkept := (h.confined hp fun lk lu hspaces => (uvmHeapUngrow_confined hspaces
      (mem_roots hp) h.settled.apart hheap hlen hungrow).1).1
    refine hkept.withHeapTop ?_
    rw [UInt64.le_iff_toNat_le, htop]
    omega

theorem sysMmap_kept {begin ret : UInt64} {len : UInt32} (h : st.Kept) (hp : st.Used p)
    (hrun : sysMmap p begin len st = .ok (ret, st')) : st'.Kept := by
  unfold sysMmap at hrun
  split at hrun
  · cases hrun
    exact h
  rw [readSpace_bind, deref_bind_eq_ok] at hrun
  obtain ⟨sentinel, _, hrun⟩ := hrun
  rw [readRegion_bind] at hrun
  obtain ⟨found, st₁, hscan, hrun⟩ := Exec.bind_eq_ok.mp hrun
  obtain rfl := mmapAddress_same hscan
  cases found with
  | none =>
      cases hrun
      exact h
  | some found =>
      obtain ⟨_, st₂, hmmap, hrun⟩ := Exec.bind_eq_ok.mp hrun
      obtain ⟨_, rfl⟩ := Prod.mk.inj (Except.ok.inj hrun)
      rcases uvmMmap_eq_ok hmmap with rfl | ⟨st₃, first, hsame, hmap⟩
      · exact h
      · obtain ⟨_, hprocs, _⟩ := withoutRegions_eq hsame
        rw [← hprocs] at hmap
        obtain ⟨mem, hm, rfl⟩ := liftMem_eq_ok.mp hmap
        have hp₃ := used_of_procs hprocs hp
        exact ((h.of_regions hsame).confined hp₃ fun lk lu hspaces => (mapNewPages_spec
          hspaces (mem_roots hp₃) (by decide) (by decide) hm).1.confined).1

theorem sysMunmap_kept {begin ret : UInt64} {len : UInt32} (h : st.Kept) (hp : st.Used p)
    (hrun : sysMunmap p begin len st = .ok (ret, st')) : st'.Kept := by
  unfold sysMunmap at hrun
  obtain ⟨_, st₁, hmunmap, hrun⟩ := Exec.bind_eq_ok.mp hrun
  obtain ⟨_, rfl⟩ := Prod.mk.inj (Except.ok.inj hrun)
  rcases uvmMunmap_eq_ok hmunmap with rfl | ⟨hend, st₂, hsame, hunmap⟩
  · exact h
  · obtain ⟨_, hprocs, _⟩ := withoutRegions_eq hsame
    rw [← hprocs] at hunmap
    obtain ⟨mem, hm, rfl⟩ := liftMem_eq_ok.mp hunmap
    have hp₂ := used_of_procs hprocs hp
    have hkept := h.of_regions hsame
    have hsize : (len / 4096 * 4096).toUInt64.toNat < 2 ^ 32 := by
      rw [UInt32.toNat_toUInt64]
      exact UInt32.toNat_lt _
    exact (hkept.confined hp₂ fun lk lu hspaces => uvmMunmap_confined hspaces
      (mem_roots hp₂) hkept.settled.apart hsize hend hm).1

/-! `proc_exec` -/

variable {tf pgtbl : UInt64} {mem : MemState}

/-- The new table is left behind when there is no file. -/
theorem Kept.left_behind (h : st.Kept) (hnew : NewSpace st mem tf pgtbl) :
    Kept { st with mem := mem } := by
  obtain ⟨lk, lu, hspaces⟩ := hnew.spaces
  have hevicted := frames_evict hspaces.frames (Set.mem_insert pgtbl st.roots)
  rw [Set.insert_sdiff_self_of_notMem hnew.fresh] at hevicted
  have hheld : st.trapframes ⊆ insert tf st.trapframes ∪ ∅ ∪
      {f | ∃ va, va < vaMax ∧ userFrame mem.mem pgtbl va = some f} :=
    fun f hf => .inl (.inl (.inr hf))
  refine kept_of_tables ⟨lk, lu, hevicted.held_mono hheld⟩ ?_ ?_ h.settled.heap
    h.isolated.distinct ?_ (regionsApart_of_setting hnew.setting h.settled.apart)
  · intro q hq
    exact (h.settled.own q hq).of_upper
      (hspaces.kernel _ (Set.mem_insert_of_mem _ (mem_roots hq))).below
      (contains_of_bounds (congrArg Prod.fst hnew.setting)) (hnew.upper.kernel _ (mem_roots hq))
  · exact fun q hq => hnew.upper.links _ (mem_roots hq) (h.settled.upper q hq)
  · exact (contains_of_bounds (congrArg Prod.fst hnew.setting) _).not.mpr h.isolated.trampoline

theorem Kept.switched {space : Space} {entry sp : UInt64} (h : st.Kept) (hp : st.Used p)
    (hnew : NewSpace st mem tf pgtbl)
    (hswitched : Switched st (st.procs p).pgtbl mem st'.mem tf pgtbl entry sp)
    (hprocs : st'.procs = Function.update st.procs p space)
    (hstate : space.state = (st.procs p).state) (hpgtbl : space.pgtbl = pgtbl)
    (htf : space.tf = tf) (hheap : space.heapTop ≤ trapframe)
    (htramp : st'.trampolinePage = st.trampolinePage) : st'.Kept := by
  have hself : st'.procs p = space := by
    rw [hprocs, Function.update_self]
  have hother : ∀ q, q ≠ p → st'.procs q = st.procs q := by
    intro q hq
    rw [hprocs, Function.update_of_ne hq]
  have hused : ∀ q, st'.Used q ↔ st.Used q := by
    intro q
    unfold Used
    by_cases hq : q = p
    · subst hq
      rw [hself, hstate]
    · rw [hother q hq]
  have hfresh : ∀ q, st.Used q → pgtbl ≠ (st.procs q).pgtbl := by
    rintro q hq rfl
    exact hnew.fresh (mem_roots hq)
  have hroots : st'.roots = insert pgtbl st.roots \ {(st.procs p).pgtbl} := by
    ext t
    constructor
    · rintro ⟨q, hq, rfl⟩
      rw [hused] at hq
      by_cases hqp : q = p
      · subst hqp
        rw [hself, hpgtbl]
        exact ⟨Set.mem_insert _ _, hfresh q hq⟩
      · rw [hother q hqp]
        exact ⟨.inr (mem_roots hq), fun heq => hqp (h.isolated.distinct q p hq hp heq)⟩
    · rintro ⟨rfl | ⟨q, hq, rfl⟩, hne⟩
      · exact ⟨p, (hused p).mpr hp, by rw [hself, hpgtbl]⟩
      · have hqp : q ≠ p := by
          rintro rfl
          exact hne rfl
        exact ⟨q, (hused q).mpr hq, by rw [hother q hqp]⟩
  have htfs : st'.trapframes ⊆ insert tf st.trapframes ∪ ∅ := by
    rintro f ⟨q, hq, rfl⟩
    rw [hused] at hq
    by_cases hqp : q = p
    · subst hqp
      rw [hself, htf]
      exact .inl (.inl rfl)
    · rw [hother q hqp]
      exact .inl (.inr (mem_trapframes hq))
  have hsetting := hswitched.setting.trans hnew.setting
  have hcontains := contains_of_bounds (congrArg Prod.fst hsetting)
  obtain ⟨lk, lu, hspaces⟩ := hswitched.spaces
  rw [← hroots] at hspaces
  have hupper := hswitched.upper
  rw [← hroots] at hupper
  refine kept_of_tables ⟨lk, lu, hspaces.frames.held_mono htfs⟩ ?_ ?_ ?_ ?_ ?_
    (regionsApart_of_setting hsetting h.settled.apart)
  · intro q hq
    have hroot := mem_roots hq
    have hbelow := (hspaces.kernel _ hroot).below
    have hkernel := hupper.kernel _ hroot
    by_cases hqp : q = p
    · subst hqp
      rw [hself, hpgtbl] at hbelow hkernel
      rw [hself, hpgtbl, htf]
      exact hnew.kernel.of_upper hbelow
        (contains_of_bounds (congrArg Prod.fst hswitched.setting)) hkernel
    · rw [hother q hqp] at hbelow hkernel ⊢
      rw [hused] at hq
      refine (h.settled.own q hq).of_upper hbelow hcontains fun va hva hmax => ?_
      exact (hkernel va hva hmax).trans (hnew.upper.kernel _ (mem_roots hq) va hva hmax)
  · intro q hq
    have hlinks := hupper.links _ (mem_roots hq)
    by_cases hqp : q = p
    · subst hqp
      rw [hself, hpgtbl] at hlinks ⊢
      exact hlinks hnew.low
    · rw [hother q hqp] at hlinks ⊢
      rw [hused] at hq
      exact hlinks (hnew.upper.links _ (mem_roots hq) (h.settled.upper q hq))
  · intro q hq
    by_cases hqp : q = p
    · subst hqp
      rw [hself]
      exact hheap
    · rw [hother q hqp]
      exact h.settled.heap q ((hused q).mp hq)
  · intro q r hq hr heq
    rw [hused] at hq hr
    by_cases hqp : q = p
    · by_cases hrp : r = p
      · rw [hqp, hrp]
      · rw [hqp, hself, hother r hrp, hpgtbl] at heq
        exact absurd heq (hfresh r hr)
    · by_cases hrp : r = p
      · rw [hrp, hself, hother q hqp, hpgtbl] at heq
        exact absurd heq.symm (hfresh q hq)
      · rw [hother q hqp, hother r hrp] at heq
        exact h.isolated.distinct q r hq hr heq
  · rw [htramp, hcontains]
    exact h.isolated.trampoline

theorem procExec_kept {ip : Option ExecFile} {args : ExecArgv} {result : Int} (h : st.Kept)
    (hp : st.Used p) (hrun : procExec p ip args.argv st = .ok (result, st')) : st'.Kept := by
  obtain ⟨tf, pgtbl, st₁, htable, hcases⟩ := procExec_eq_ok hrun
  obtain ⟨hnew₁, hst₁, _⟩ := newTable_spec h.isolated htable
  rcases hcases with ⟨_, rfl⟩ | ⟨file, entry, st₂, argc, sp, mem, _, himage, hpush, hswitch, _⟩
  · rw [hst₁]
    exact h.left_behind hnew₁
  obtain ⟨heapTop, _, _, _, _, _, hheap, _, _, hst₂, _⟩ := buildImage_spec hnew₁ himage
  obtain ⟨_, m, _, hpush', hnew, _⟩ :=
    pushArgv_newSpace h.isolated args.count args.strings htable himage
  obtain ⟨_, rfl⟩ := Prod.mk.inj (Except.ok.inj (hpush.symm.trans hpush'))
  obtain ⟨hswitched, ⟨mmap, hprocs⟩, htramp⟩ := hnew.switch h.settled hp rfl hswitch
  have hprocs₂ : st₂.procs = Function.update st.procs p (withHeap (st.procs p) heapTop) := by
    rw [hst₂, hst₁]
  have htramp₂ : st₂.trampolinePage = st.trampolinePage := by
    rw [hst₂, hst₁]
  dsimp only at hprocs htramp
  rw [hprocs₂, Function.update_idem, Function.update_self] at hprocs
  refine h.switched hp hnew hswitched hprocs rfl rfl rfl ?_ (htramp.trans htramp₂)
  rw [UInt64.le_iff_toNat_le]
  exact (pgroundup_toNat_le hheap).2

end UvmState

/-! Runs. -/

inductive SpaceCall where
  | first (initcode : List UInt8)
  | fork (p : ProcId)
  | exec (p : ProcId) (ip : Option ExecFile) (args : ExecArgv)
  | brk (p : ProcId) (newHeapTop : UInt64)
  | mmap (p : ProcId) (begin : UInt64) (len : UInt32)
  | munmap (p : ProcId) (begin : UInt64) (len : UInt32)
  | fault (p : ProcId) (frame : Nat → UInt8) (stval : UInt64)
  | store (p : ProcId) (frame : Nat → UInt8) (va : UInt64) (byte : UInt8)

namespace UvmState

variable {st st' : UvmState} {p : ProcId}

def afterCall {α : Type} (st : UvmState) (p : ProcId) (m : UvmM α) : Option UvmState :=
  if st.Used p then after m st else none

def spaceStep (st : UvmState) : SpaceCall → Option UvmState
  | .first initcode => after (procMakeFirst initcode) st
  | .fork p => st.afterCall p (procFork p)
  | .exec p ip args => st.afterCall p (procExec p ip args.argv)
  | .brk p newHeapTop => st.afterCall p (sysBrk p newHeapTop)
  | .mmap p begin len => st.afterCall p (sysMmap p begin len)
  | .munmap p begin len => st.afterCall p (sysMunmap p begin len)
  | .fault p frame stval => st.afterCall p (pageFault p frame stval)
  | .store p frame va byte => st.afterCall p (userStore p frame va byte)

theorem afterCall_eq_some {α : Type} {m : UvmM α} :
    st.afterCall p m = some st' ↔ st.Used p ∧ ∃ value, m st = .ok (value, st') := by
  unfold afterCall
  rw [Option.ite_none_right_eq_some, after_eq_some]

theorem Kept.step {call : SpaceCall} (h : st.Kept) (hstep : st.spaceStep call = some st') :
    st'.Kept := by
  cases call with
  | first initcode =>
      obtain ⟨_, hrun⟩ := after_eq_some.mp hstep
      obtain ⟨hisolated, _, hsettled⟩ := procMakeFirst_spec h.isolated hrun
      exact ⟨hisolated, hsettled h.settled⟩
  | fork p =>
      obtain ⟨hp, _, hrun⟩ := afterCall_eq_some.mp hstep
      obtain ⟨hisolated, _, hsettled, _⟩ := procFork_spec h.isolated hp hrun
      exact ⟨hisolated, hsettled h.settled⟩
  | exec p ip args =>
      obtain ⟨hp, _, hrun⟩ := afterCall_eq_some.mp hstep
      exact procExec_kept h hp hrun
  | brk p newHeapTop =>
      obtain ⟨hp, _, hrun⟩ := afterCall_eq_some.mp hstep
      exact sysBrk_kept h hp hrun
  | mmap p begin len =>
      obtain ⟨hp, _, hrun⟩ := afterCall_eq_some.mp hstep
      exact sysMmap_kept h hp hrun
  | munmap p begin len =>
      obtain ⟨hp, _, hrun⟩ := afterCall_eq_some.mp hstep
      exact sysMunmap_kept h hp hrun
  | fault p frame stval =>
      obtain ⟨hp, _, hrun⟩ := afterCall_eq_some.mp hstep
      obtain ⟨hisolated, _, _, hsettled⟩ := pageFault_spec h.isolated hp hrun
      exact ⟨hisolated, hsettled h.settled⟩
  | store p frame va byte =>
      obtain ⟨hp, _, hrun⟩ := afterCall_eq_some.mp hstep
      obtain ⟨hisolated, _, _, hsettled⟩ := userStore_spec h.isolated hp hrun
      exact ⟨hisolated, hsettled h.settled⟩

theorem kept_run {calls : List SpaceCall} (h : st.Kept)
    (hrun : run spaceStep st calls = some st') : st'.Kept :=
  run_invariant_of_step (fun _ _ _ h hstep => h.step hstep) h hrun

theorem unborn_kept : unborn.Kept := ⟨unborn_isolated, unborn_settled⟩

end UvmState

end UnoOS.Uvm
