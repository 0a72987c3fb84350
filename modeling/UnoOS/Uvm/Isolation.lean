import UnoOS.Lib.Transition
import UnoOS.Uvm.Bounds
import UnoOS.Uvm.Forks

namespace UnoOS.Uvm

open UnoOS.Lib
open UnoOS.Lib.Exec (Keeps)
open UnoOS.Kernel (ProcId nProc)
open UnoOS.Mem

/-! Processes do not see each other's stores. -/

namespace UvmState

def Used (st : UvmState) (p : ProcId) : Prop := (st.procs p).state ≠ .unused

instance (st : UvmState) (p : ProcId) : Decidable (st.Used p) :=
  inferInstanceAs (Decidable (¬ _))

def roots (st : UvmState) : Set UInt64 :=
  {t | ∃ p, st.Used p ∧ (st.procs p).pgtbl = t}

def trapframes (st : UvmState) : Set UInt64 :=
  {f | ∃ p, st.Used p ∧ (st.procs p).tf = f}

def readByte (st : UvmState) (p : ProcId) (va : UInt64) : Option UInt8 :=
  userByte st.mem.mem (st.procs p).pgtbl va

/-- No frame is reached from two processes, and the allocator has none that a
process reaches. -/
structure Isolated (st : UvmState) : Prop where
  spaces : ∃ lk lu, Spaces st.mem st.roots lk lu st.trapframes ∅
  distinct : ∀ p q, st.Used p → st.Used q →
    (st.procs p).pgtbl = (st.procs q).pgtbl → p = q
  trampoline : ¬ st.mem.userRegion.Contains st.trampolinePage

/-- The regions are apart, and from the trap frame on the table of a process has its
own trap frame, the trampoline and nothing else; the heap ends below that. -/
structure Settled (st : UvmState) : Prop where
  apart : RegionsApart st.mem
  upper : ∀ p, st.Used p → NoUpper st.mem.mem (st.procs p).pgtbl
  own : ∀ p, st.Used p → KernelPages st.mem (st.procs p).pgtbl {(st.procs p).tf}
  heap : ∀ p, st.Used p → (st.procs p).heapTop ≤ trapframe

variable {st st' : UvmState} {p q c : ProcId}

theorem mem_roots (h : st.Used p) : (st.procs p).pgtbl ∈ st.roots := ⟨p, h, rfl⟩

theorem mem_trapframes (h : st.Used p) : (st.procs p).tf ∈ st.trapframes :=
  ⟨p, h, rfl⟩

theorem Isolated.of_mem (h : st.Isolated) {mem : MemState} {lk lu : List UInt64}
    (hspaces : Spaces mem st.roots lk lu st.trapframes ∅)
    (hbounds : bounds mem = bounds st.mem) :
    Isolated { st with mem := mem } :=
  ⟨⟨lk, lu, hspaces⟩, h.distinct, fun hin =>
    h.trampoline ((contains_of_bounds hbounds _).mp hin)⟩

def Undisturbed (p : ProcId) (st st' : UvmState) : Prop :=
  ∀ q, st.Used q → q ≠ p → st'.procs q = st.procs q ∧
    ∀ va, va < vaMax → st'.readByte q va = st.readByte q va

theorem Undisturbed.refl (p : ProcId) (st : UvmState) : Undisturbed p st st :=
  fun _ _ _ => ⟨rfl, fun _ _ => rfl⟩

theorem Undisturbed.trans {st'' : UvmState} (h : Undisturbed p st st')
    (h' : Undisturbed p st' st'') : Undisturbed p st st'' := by
  intro q hq hne
  obtain ⟨hproc, hbyte⟩ := h q hq hne
  have hq' : st'.Used q := by
    unfold Used
    rw [hproc]
    exact hq
  obtain ⟨hproc', hbyte'⟩ := h' q hq' hne
  exact ⟨hproc'.trans hproc, fun va hva => (hbyte' va hva).trans (hbyte va hva)⟩

theorem Isolated.undisturbed (h : st.Isolated) (hp : st.Used p) {mem : MemState}
    (hspares : ∀ r ∈ st.roots, r ≠ (st.procs p).pgtbl → Spares r st.mem mem) :
    Undisturbed p st { st with mem := mem } := by
  intro q hq hne
  refine ⟨rfl, ?_⟩
  intro va hva
  refine (hspares _ (mem_roots hq) ?_).userByte hva
  intro heq
  exact hne (h.distinct q p hq hp heq)

theorem Isolated.add (h : st.Isolated) {space : Space} {mem : MemState}
    {lk lu : List UInt64} (hc : ¬ st.Used c) (hstate : space.state ≠ .unused)
    (hfresh : space.pgtbl ∉ st.roots)
    (hspaces : Spaces mem (insert space.pgtbl st.roots) lk lu
      (insert space.tf st.trapframes) ∅)
    (hbounds : bounds mem = bounds st.mem) (hmem : st'.mem = mem)
    (hprocs : st'.procs = Function.update st.procs c space)
    (htramp : st'.trampolinePage = st.trampolinePage) : st'.Isolated := by
  have hself : st'.procs c = space := by
    rw [hprocs, Function.update_self]
  have hother : ∀ q, q ≠ c → st'.procs q = st.procs q := by
    intro q hq
    rw [hprocs, Function.update_of_ne hq]
  have hused : ∀ q, st'.Used q ↔ q = c ∨ st.Used q := by
    intro q
    unfold Used
    by_cases hq : q = c
    · subst hq
      rw [hself]
      exact iff_of_true hstate (.inl rfl)
    · rw [hother q hq]
      exact ⟨.inr, fun hor => hor.resolve_left hq⟩
  have hne : ∀ q, st.Used q → q ≠ c := by
    rintro q hq rfl
    exact hc hq
  have hset : ∀ f : Space → UInt64,
      {x | ∃ q, st'.Used q ∧ f (st'.procs q) = x} =
        insert (f space) {x | ∃ q, st.Used q ∧ f (st.procs q) = x} := by
    intro f
    ext x
    rw [Set.mem_insert_iff]
    constructor
    · rintro ⟨q, hq, rfl⟩
      rcases (hused q).mp hq with rfl | hq
      · exact .inl (by rw [hself])
      · exact .inr ⟨q, hq, by rw [hother q (hne q hq)]⟩
    · rintro (rfl | ⟨q, hq, rfl⟩)
      · exact ⟨c, (hused c).mpr (.inl rfl), by rw [hself]⟩
      · exact ⟨q, (hused q).mpr (.inr hq), by rw [hother q (hne q hq)]⟩
  refine ⟨⟨lk, lu, ?_⟩, ?_, ?_⟩
  · rw [hmem]
    unfold roots trapframes
    rw [hset Space.pgtbl, hset Space.tf]
    exact hspaces
  · intro q r hq hr heq
    rcases (hused q).mp hq with rfl | hq
    · rcases (hused r).mp hr with rfl | hr
      · rfl
      · rw [hself, hother r (hne r hr)] at heq
        exact absurd (heq ▸ mem_roots hr) hfresh
    · rcases (hused r).mp hr with rfl | hr
      · rw [hself, hother q (hne q hq)] at heq
        exact absurd (heq ▸ mem_roots hq) hfresh
      · rw [hother q (hne q hq), hother r (hne r hr)] at heq
        exact h.distinct q r hq hr heq
  · rw [hmem, htramp, contains_of_bounds hbounds]
    exact h.trampoline

theorem used_of_procs (h : st'.procs = st.procs) (hp : st.Used p) : st'.Used p := by
  unfold Used
  rw [h]
  exact hp

theorem roots_of_procs (h : st'.procs = st.procs) : st'.roots = st.roots := by
  unfold roots Used
  rw [h]

theorem Settled.keeps (h : st.Settled) (hprocs : st'.procs = st.procs)
    (hisolated : st'.Isolated) (hsetting : setting st'.mem = setting st.mem)
    (hupper : KeepsUpper st.roots st.mem.mem st'.mem.mem) : st'.Settled := by
  have hused : ∀ p, st'.Used p → st.Used p := fun p => used_of_procs hprocs.symm
  obtain ⟨_, _, hspaces⟩ := hisolated.spaces
  refine ⟨regionsApart_of_setting hsetting h.apart, ?_, ?_, ?_⟩
  · intro p hp
    rw [hprocs]
    exact hupper.links _ (mem_roots (hused p hp)) (h.upper p (hused p hp))
  · intro p hp
    have hbelow := (hspaces.kernel _ (mem_roots hp)).below
    rw [hprocs] at hbelow ⊢
    exact (h.own p (hused p hp)).of_upper hbelow
      (contains_of_bounds (congrArg Prod.fst hsetting))
      (hupper.kernel _ (mem_roots (hused p hp)))
  · intro p hp
    rw [hprocs]
    exact h.heap p (hused p hp)

/-! Page faults and stores. -/

theorem Isolated.call {α : Type} {m : MemM α} {value : α} (h : st.Isolated)
    (hp : st.Used p) (hbounds : Keeps setting m)
    (hspec : ∀ lk lu mem, Spaces st.mem st.roots lk lu st.trapframes ∅ →
      m st.mem = .ok (value, mem) →
      ∃ lk' lu', Spaces mem st.roots lk' lu' st.trapframes ∅ ∧
        (∀ r ∈ st.roots, r ≠ (st.procs p).pgtbl → Spares r st.mem mem) ∧
        KeepsUpper st.roots st.mem.mem mem.mem)
    (hrun : liftMem m st = .ok (value, st')) :
    st'.Isolated ∧ st'.procs = st.procs ∧ Undisturbed p st st' ∧
      (st.Settled → st'.Settled) := by
  obtain ⟨mem, hm, rfl⟩ := liftMem_eq_ok.mp hrun
  obtain ⟨lk, lu, hspaces⟩ := h.spaces
  obtain ⟨lk', lu', hspaces', hspares, hupper⟩ := hspec lk lu mem hspaces hm
  have hsetting := hbounds _ _ _ hm
  have hisolated := h.of_mem hspaces' (congrArg Prod.fst hsetting)
  exact ⟨hisolated, rfl, h.undisturbed hp hspares,
    fun hsettled => hsettled.keeps rfl hisolated hsetting hupper⟩

theorem saveFrame_spec {frame : Nat → UInt8} {value : Unit} (h : st.Isolated)
    (hp : st.Used p) (hrun : saveFrame p frame st = .ok (value, st')) :
    st'.Isolated ∧ st'.procs = st.procs ∧ Undisturbed p st st' ∧
      (st.Settled → st'.Settled) := by
  unfold saveFrame at hrun
  rw [readSpace_bind] at hrun
  refine h.call hp (keeps_updateMem _) ?_ hrun
  intro lk lu mem hspaces hwrite
  cases hwrite
  obtain ⟨hspaces', htables, hspares⟩ := hspaces.write_held (.inl (mem_trapframes hp))
    (onlyPage_write (st.procs p).tf st.mem.mem 0 trapframeSize frame (by decide))
  exact ⟨lk, lu, hspaces', fun r hr _ => hspares r hr, .of_samePages htables⟩

theorem pageFault_spec {frame : Nat → UInt8} {stval : UInt64} {value : Unit}
    (h : st.Isolated) (hp : st.Used p)
    (hrun : pageFault p frame stval st = .ok (value, st')) :
    st'.Isolated ∧ st'.procs = st.procs ∧ Undisturbed p st st' ∧
      (st.Settled → st'.Settled) := by
  unfold pageFault at hrun
  rw [Exec.bind_eq_ok] at hrun
  obtain ⟨_, st₁, hsave, hrun⟩ := hrun
  obtain ⟨h₁, hprocs₁, hundisturbed₁, hsettled₁⟩ := saveFrame_spec h hp hsave
  have hp₁ := used_of_procs hprocs₁ hp
  rw [readSpace_bind] at hrun
  obtain ⟨h₂, hprocs₂, hundisturbed₂, hsettled₂⟩ :=
    h₁.call hp₁ (keeps_handleFault _ _) (fun lk lu mem hspaces hm =>
      handleFault_spec hspaces (mem_roots hp₁) hm) hrun
  exact ⟨h₂, hprocs₂.trans hprocs₁, hundisturbed₁.trans hundisturbed₂,
    fun hsettled => hsettled₂ (hsettled₁ hsettled)⟩

theorem userFrame_of_storeFrame {m : Memory} {root va pa : UInt64}
    (h : storeFrame m root va = some pa) :
    va < vaMax ∧ userFrame m root va = some pa := by
  unfold storeFrame at h
  obtain ⟨pte, hpte, h⟩ := Option.bind_eq_some_iff.mp h
  split at h
  · next hguard =>
    obtain ⟨hva, huser, _⟩ := hguard
    refine ⟨hva, ?_⟩
    unfold userFrame userEntry
    rw [hpte, Option.bind_some, if_pos huser]
    exact h
  · cases h

/-- The store itself, once the page is there to be written. -/
theorem frameStore_eq_ok {root va : UInt64} {byte : UInt8} {value : Unit}
    (hrun : (do
      match storeFrame (← get).mem.mem root va with
      | none => Exec.stop .loops
      | some pa => liftMem (updateMem fun m =>
          m.write (pa.toNat + va.toNat % 4096) 1 fun _ => byte) : UvmM Unit) st =
      .ok (value, st')) :
    ∃ pa, storeFrame st.mem.mem root va = some pa ∧
      liftMem (updateMem fun m =>
        m.write (pa.toNat + va.toNat % 4096) 1 fun _ => byte) st = .ok (value, st') := by
  rw [Exec.bind_of_ok (m := get) rfl] at hrun
  cases hframe : storeFrame st.mem.mem root va with
  | none =>
      rw [hframe] at hrun
      cases hrun
  | some pa =>
      rw [hframe] at hrun
      exact ⟨pa, rfl, hrun⟩

theorem userStore_eq_ok {frame : Nat → UInt8} {va : UInt64} {byte : UInt8}
    {value : Unit} (hrun : userStore p frame va byte st = .ok (value, st')) :
    ∃ st₁ pa, (st₁ = st ∨ ∃ u, pageFault p frame va st = .ok (u, st₁)) ∧
      storeFrame st₁.mem.mem (st.procs p).pgtbl va = some pa ∧
      liftMem (updateMem fun m =>
        m.write (pa.toNat + va.toNat % 4096) 1 fun _ => byte) st₁ = .ok (value, st') := by
  unfold userStore at hrun
  rw [Exec.bind_of_ok (m := get) rfl] at hrun
  split at hrun
  · rw [Exec.bind_eq_ok] at hrun
    obtain ⟨u, st₁, hfault, hrun⟩ := hrun
    obtain ⟨pa, hframe, hwrite⟩ := frameStore_eq_ok hrun
    exact ⟨st₁, pa, .inr ⟨u, hfault⟩, hframe, hwrite⟩
  · obtain ⟨pa, hframe, hwrite⟩ := frameStore_eq_ok hrun
    exact ⟨st, pa, .inl rfl, hframe, hwrite⟩

theorem userStore_spec {frame : Nat → UInt8} {va : UInt64} {byte : UInt8}
    {value : Unit} (h : st.Isolated) (hp : st.Used p)
    (hrun : userStore p frame va byte st = .ok (value, st')) :
    st'.Isolated ∧ st'.procs = st.procs ∧ Undisturbed p st st' ∧
      (st.Settled → st'.Settled) := by
  obtain ⟨st₁, pa, hfault, hframe, hwrite⟩ := userStore_eq_ok hrun
  have hbefore : st₁.Isolated ∧ st₁.procs = st.procs ∧ Undisturbed p st st₁ ∧
      (st.Settled → st₁.Settled) := by
    rcases hfault with rfl | ⟨u, hfault⟩
    · exact ⟨h, rfl, Undisturbed.refl p st₁, id⟩
    · exact pageFault_spec h hp hfault
  obtain ⟨h₁, hprocs₁, hundisturbed₁, hsettled₁⟩ := hbefore
  have hp₁ := used_of_procs hprocs₁ hp
  obtain ⟨hva, huser⟩ := userFrame_of_storeFrame hframe
  rw [← hprocs₁] at huser
  obtain ⟨h₂, hprocs₂, hundisturbed₂, hsettled₂⟩ := h₁.call hp₁ (keeps_updateMem _) (by
    intro lk lu mem hspaces hwrite
    cases hwrite
    obtain ⟨hspaces', hspares, hupper⟩ := hspaces.write_user (mem_roots hp₁) hva huser
      (onlyPage_write pa st₁.mem.mem (va.toNat % 4096) 1 (fun _ => byte)
        (by omega))
    exact ⟨lk, lu, hspaces', hspares, hupper⟩) hwrite
  exact ⟨h₂, hprocs₂.trans hprocs₁, hundisturbed₁.trans hundisturbed₂,
    fun hsettled => hsettled₂ (hsettled₁ hsettled)⟩

theorem copyout_spec {dst : UInt64} {src : Nat → UInt8} {len : UInt32}
    {value : Unit} (h : st.Isolated) (hp : st.Used p) (hdst : dst < vaMax)
    (huser : (userFrame st.mem.mem (st.procs p).pgtbl dst).isSome)
    (hone : dst.toNat % 4096 + len.toNat ≤ 4096)
    (hrun : liftMem (uvmCopyout (st.procs p).pgtbl dst src len) st =
      .ok (value, st')) :
    st'.Isolated ∧ st'.procs = st.procs ∧ Undisturbed p st st' ∧
      (st.Settled → st'.Settled) := by
  obtain ⟨f, hf⟩ := Option.isSome_iff_exists.mp huser
  refine h.call hp (keeps_copyoutLoop _ _ _ _ _ _ _) ?_ hrun
  intro lk lu mem hspaces hm
  obtain ⟨hspaces', hspares, hupper⟩ :=
    uvmCopyout_spec hspaces (mem_roots hp) hdst hf hone hm
  exact ⟨lk, lu, hspaces', hspares, hupper⟩

/-! New processes. -/

/-- What the pool of regions has nothing to do with. -/
def withoutRegions (st : UvmState) : MemState × (ProcId → Space) × UInt64 :=
  (st.mem, st.procs, st.trampolinePage)

theorem keeps_readRegion (id : MmapId) : Keeps withoutRegions (readRegion id) :=
  .bind .get_intro fun _ => .pure_intro _

theorem keeps_writeRegion (id : MmapId) (region : MmapRegion) :
    Keeps withoutRegions (writeRegion id region) :=
  .modify_intro fun _ => rfl

theorem keeps_mmapRegionAlloc (init : Bool) :
    Keeps withoutRegions (mmapRegionAlloc init) := by
  apply (keeps_readRegion _).bind
  intro head
  cases head.link with
  | none => exact .stop_intro _
  | some id =>
      apply (keeps_readRegion _).bind
      intro region
      have hrest : Keeps withoutRegions (do
          let head ← readRegion listHead
          writeRegion listHead { head with link := region.link }
          return id : UvmM MmapId) := by
        apply (keeps_readRegion _).bind
        intro head
        exact (keeps_writeRegion _ _).bind fun _ => .pure_intro _
      apply Keeps.ite
      · exact (keeps_writeRegion _ _).bind fun _ => hrest
      · exact hrest

theorem keeps_copyRegions (steps : Nat) (new : MmapId) (id : Option MmapId) :
    Keeps withoutRegions (copyRegions steps new id) := by
  induction steps generalizing new id with
  | zero =>
      cases id with
      | none => exact .pure_intro _
      | some id => exact .stop_intro _
  | succ steps ih =>
      cases id with
      | none => exact .pure_intro _
      | some id =>
          apply (keeps_readRegion _).bind
          intro region
          apply (keeps_readRegion _).bind
          intro newRegion
          apply (keeps_writeRegion _ _).bind
          intro _
          apply (keeps_readRegion _).bind
          intro region
          cases region.next with
          | none =>
              apply (keeps_readRegion _).bind
              intro newRegion
              exact keeps_writeRegion _ _
          | some _ =>
              apply (keeps_mmapRegionAlloc _).bind
              intro other
              apply (keeps_readRegion _).bind
              intro newRegion
              apply (keeps_writeRegion _ _).bind
              intro _
              apply (keeps_readRegion _).bind
              intro region
              exact ih _ _

/-- A slot with a table and a trap frame, not yet a process. -/
structure Prepared (st st' : UvmState) (c : ProcId) : Prop where
  unused : (st.procs c).state = .unused
  fresh : (st'.procs c).pgtbl ∉ st.roots
  spaces : ∃ lk lu, Spaces st'.mem (insert (st'.procs c).pgtbl st.roots) lk lu
    (insert (st'.procs c).tf st.trapframes) ∅
  spares : ∀ r ∈ st.roots, Spares r st.mem st'.mem
  upper : KeepsUpper st.roots st.mem.mem st'.mem.mem
  low : NoUpper st'.mem.mem (st'.procs c).pgtbl
  own : KernelPages st'.mem (st'.procs c).pgtbl {(st'.procs c).tf}
  bounds : setting st'.mem = setting st.mem
  others : ∀ q, q ≠ c → st'.procs q = st.procs q
  trampoline : st'.trampolinePage = st.trampolinePage

theorem procAlloc_spec (h : st.Isolated) (hrun : procAlloc st = .ok (c, st')) :
    Prepared st st' c ∧ (∃ space, st'.procs = Function.update st.procs c space) ∧
      st'.regions = st.regions ∧
      ∀ va, va < vaMax → userByte st'.mem.mem (st'.procs c).pgtbl va = none := by
  unfold procAlloc at hrun
  rw [Exec.bind_of_ok (m := get) rfl] at hrun
  cases hfind : (List.finRange nProc).find? fun p => (st.procs p).state = .unused with
  | none =>
      rw [hfind] at hrun
      cases hrun
  | some c' =>
      rw [hfind] at hrun
      dsimp only at hrun
      have hunused : (st.procs c').state = .unused := by
        simpa using List.find?_some hfind
      rw [liftMem_bind_eq_ok] at hrun
      obtain ⟨tf, mem₁, halloc, hrun⟩ := hrun
      rw [liftMem_bind_eq_ok] at hrun
      obtain ⟨t, mem₂, hinit, hrun⟩ := hrun
      rw [readSpace_bind, writeSpace_bind] at hrun
      obtain ⟨rfl, rfl⟩ := Prod.mk.inj (Except.ok.inj hrun)
      obtain ⟨lk, lu, hspaces⟩ := h.spaces
      obtain ⟨rest, hnot, hspaces₁, _, _, htables₁, hspares₁⟩ := hspaces.alloc halloc
      have hsetting₁ := keeps_pmemAlloc _ _ _ _ halloc
      have hbounds₁ := congrArg Prod.fst hsetting₁
      have htramp : ¬ mem₁.userRegion.Contains st.trampolinePage :=
        (contains_of_bounds hbounds₁ _).not.mpr h.trampoline
      have hsub : insert tf st.trapframes ∪ ∅ ⊆ st.trapframes ∪ insert tf ∅ := by
        rintro x ((rfl | hx) | hx)
        · exact .inr (.inl rfl)
        · exact .inl hx
        · exact .inr (.inr hx)
      obtain ⟨lk₂, hfresh, hspaces₂, hspares₂, hupper₂, hlow₂, hown₂, hnone⟩ :=
        procPgtblInit_spec hspaces₁ htramp hsub hinit
      refine ⟨⟨hunused, ?_, ⟨lk₂, rest, ?_⟩, fun r hr =>
        (hspares₁ r hr).trans (hspares₂ r hr),
        (KeepsUpper.of_samePages htables₁).trans hupper₂, ?_, ?_, ?_, ?_, rfl⟩,
        ⟨_, rfl⟩, rfl, ?_⟩
      · simpa only [Function.update_self] using hfresh
      · simpa only [Function.update_self] using hspaces₂
      · simpa only [Function.update_self] using hlow₂
      · simpa only [Function.update_self] using hown₂
      · exact (keeps_procPgtblInit _ _ _ _ _ hinit).trans hsetting₁
      · intro q hq
        exact Function.update_of_ne hq _ _
      · simpa only [Function.update_self] using hnone

theorem Prepared.call {α : Type} {m : MemM α} {value : α} {st₁ st₂ : UvmState}
    (h : Prepared st st₁ c) (hbounds : Keeps setting m)
    (hspec : ∀ lk lu tfs mem, (st₁.procs c).tf ∈ tfs →
      Spaces st₁.mem (insert (st₁.procs c).pgtbl st.roots) lk lu tfs ∅ →
      m st₁.mem = .ok (value, mem) →
      ∃ lk' lu',
        Spaces mem (insert (st₁.procs c).pgtbl st.roots) lk' lu' tfs ∅ ∧
        (∀ r ∈ insert (st₁.procs c).pgtbl st.roots, r ≠ (st₁.procs c).pgtbl →
          Spares r st₁.mem mem) ∧
        KeepsUpper (insert (st₁.procs c).pgtbl st.roots) st₁.mem.mem mem.mem)
    (hrun : liftMem m st₁ = .ok (value, st₂)) :
    Prepared st st₂ c ∧ st₂.procs = st₁.procs ∧ st₂.regions = st₁.regions := by
  obtain ⟨mem, hm, rfl⟩ := liftMem_eq_ok.mp hrun
  obtain ⟨lk, lu, hspaces⟩ := h.spaces
  obtain ⟨lk', lu', hspaces', hspares, hupper⟩ :=
    hspec lk lu _ mem (Set.mem_insert _ _) hspaces hm
  refine ⟨⟨h.unused, h.fresh, ⟨lk', lu', hspaces'⟩, ?_,
    h.upper.trans (hupper.mono (Set.subset_insert _ _)),
    hupper.links _ (Set.mem_insert _ _) h.low,
    h.own.of_upper (hspaces'.kernel _ (Set.mem_insert _ _)).below
      (contains_of_bounds (congrArg Prod.fst (hbounds _ _ _ hm)))
      (hupper.kernel _ (Set.mem_insert _ _)),
    (hbounds _ _ _ hm).trans h.bounds, h.others, h.trampoline⟩, rfl, rfl⟩
  intro r hr
  refine (h.spares r hr).trans (hspares r (Set.mem_insert_of_mem _ hr) ?_)
  rintro rfl
  exact h.fresh hr

theorem Prepared.write_frame {value : Unit} {st₁ st₂ : UvmState}
    (h : Prepared st st₁ c) {update : Memory → Memory}
    (honly : OnlyPage (st₁.procs c).tf st₁.mem.mem (update st₁.mem.mem))
    (hrun : liftMem (updateMem update) st₁ = .ok (value, st₂)) :
    Prepared st st₂ c ∧ st₂.procs = st₁.procs ∧ st₂.regions = st₁.regions ∧
      ∀ va, va < vaMax → userByte st₂.mem.mem (st₁.procs c).pgtbl va =
        userByte st₁.mem.mem (st₁.procs c).pgtbl va := by
  have hheld : ∀ {lk lu tfs}, (st₁.procs c).tf ∈ tfs →
      Spaces st₁.mem (insert (st₁.procs c).pgtbl st.roots) lk lu tfs ∅ →
      Spaces (st₁.mem.setMem (update st₁.mem.mem))
          (insert (st₁.procs c).pgtbl st.roots) lk lu tfs ∅ ∧
        (∀ r ∈ insert (st₁.procs c).pgtbl st.roots,
          Spares r st₁.mem (st₁.mem.setMem (update st₁.mem.mem))) ∧
        KeepsUpper (insert (st₁.procs c).pgtbl st.roots) st₁.mem.mem
          (update st₁.mem.mem) := by
    intro lk lu tfs htf hspaces
    obtain ⟨hspaces', htables, hspares⟩ := hspaces.write_held (.inl htf) honly
    exact ⟨hspaces', hspares, .of_samePages htables⟩
  have hprepared : Prepared st st₂ c ∧ st₂.procs = st₁.procs ∧
      st₂.regions = st₁.regions := by
    refine h.call (keeps_updateMem _) ?_ hrun
    intro lk lu tfs mem htf hspaces hwrite
    cases hwrite
    obtain ⟨hspaces', hspares, hupper⟩ := hheld htf hspaces
    exact ⟨lk, lu, hspaces', fun r hr _ => hspares r hr, hupper⟩
  refine ⟨hprepared.1, hprepared.2.1, hprepared.2.2, ?_⟩
  intro va hva
  obtain ⟨lk, lu, hspaces⟩ := h.spaces
  obtain ⟨_, hspares, _⟩ := hheld (Set.mem_insert _ _) hspaces
  cases hrun
  exact (hspares _ (Set.mem_insert _ _)).userByte hva

theorem Prepared.start (hst : st.Isolated) {st₁ : UvmState}
    (h : Prepared st st₁ c) (hpgtbl : (st'.procs c).pgtbl = (st₁.procs c).pgtbl)
    (htf : (st'.procs c).tf = (st₁.procs c).tf)
    (hstate : (st'.procs c).state ≠ .unused)
    (hheap : st.Settled → (st'.procs c).heapTop ≤ trapframe)
    (hothers : ∀ q, q ≠ c → st'.procs q = st₁.procs q) (hmem : st'.mem = st₁.mem)
    (htramp : st'.trampolinePage = st₁.trampolinePage) :
    st'.Isolated ∧ (∀ q, st.Used q → st'.procs q = st.procs q ∧
      ∀ va, va < vaMax → st'.readByte q va = st.readByte q va) ∧
      (st.Settled → st'.Settled) := by
  have hunused : ¬ st.Used c := not_not.mpr h.unused
  have hothers' : ∀ q, q ≠ c → st'.procs q = st.procs q :=
    fun q hq => (hothers q hq).trans (h.others q hq)
  have hprocs : st'.procs = Function.update st.procs c (st'.procs c) := by
    funext q
    by_cases hq : q = c
    · subst hq
      rw [Function.update_self]
    · rw [Function.update_of_ne hq, hothers' q hq]
  have hused : ∀ q, st'.Used q → q ≠ c → st.Used q := by
    intro q hq hqc
    unfold Used at hq ⊢
    rwa [hothers' q hqc] at hq
  obtain ⟨lk, lu, hspaces⟩ := h.spaces
  rw [← hpgtbl, ← htf] at hspaces
  refine ⟨hst.add hunused hstate (hpgtbl ▸ h.fresh) hspaces
    (congrArg Prod.fst h.bounds) hmem hprocs (htramp.trans h.trampoline), ?_, ?_⟩
  · intro q hq
    have hne : q ≠ c := by
      rintro rfl
      exact hunused hq
    refine ⟨hothers' q hne, ?_⟩
    intro va hva
    unfold readByte
    rw [hothers' q hne, hmem]
    exact (h.spares _ (mem_roots hq)).userByte hva
  · intro hsettled
    refine ⟨?_, ?_, ?_, ?_⟩
    · rw [hmem]
      exact regionsApart_of_setting h.bounds hsettled.apart
    · intro q hq
      rw [hmem]
      by_cases hqc : q = c
      · subst hqc
        rw [hpgtbl]
        exact h.low
      · rw [hothers' q hqc]
        exact h.upper.links _ (mem_roots (hused q hq hqc))
          (hsettled.upper q (hused q hq hqc))
    · intro q hq
      rw [hmem]
      by_cases hqc : q = c
      · subst hqc
        rw [hpgtbl, htf]
        exact h.own
      · rw [hothers' q hqc]
        have hroot := mem_roots (hused q hq hqc)
        exact (hsettled.own q (hused q hq hqc)).of_upper
          (hspaces.kernel _ (Set.mem_insert_of_mem _ hroot)).below
          (contains_of_bounds (congrArg Prod.fst h.bounds)) (h.upper.kernel _ hroot)
    · intro q hq
      by_cases hqc : q = c
      · subst hqc
        exact hheap hsettled
      · rw [hothers' q hqc]
        exact hsettled.heap q (hused q hq hqc)

theorem withoutRegions_eq (h : withoutRegions st' = withoutRegions st) :
    st'.mem = st.mem ∧ st'.procs = st.procs ∧
      st'.trampolinePage = st.trampolinePage := by
  unfold withoutRegions at h
  simpa using h

theorem procMakeFirst_spec {initcode : List UInt8} (h : st.Isolated)
    (hrun : procMakeFirst initcode st = .ok (c, st')) :
    st'.Isolated ∧ (∀ q, st.Used q → st'.procs q = st.procs q ∧
      ∀ va, va < vaMax → st'.readByte q va = st.readByte q va) ∧
      (st.Settled → st'.Settled) := by
  unfold procMakeFirst at hrun
  rw [Exec.bind_eq_ok] at hrun
  obtain ⟨first, st₁, halloc, hrun⟩ := hrun
  obtain ⟨h₁, _⟩ := procAlloc_spec h halloc
  rw [readSpace_bind, Exec.bind_eq_ok] at hrun
  obtain ⟨_, st₂, hstack, hrun⟩ := hrun
  obtain ⟨h₂, hprocs₂, _⟩ := h₁.call (keeps_mapStack _ _)
    (fun lk lu tfs mem _ hspaces hm =>
      mapStack_spec hspaces (Set.mem_insert _ _) hm) hstack
  rw [Exec.bind_eq_ok, ← hprocs₂] at hrun
  obtain ⟨_, st₃, hload, hrun⟩ := hrun
  obtain ⟨h₃, hprocs₃, _⟩ := h₂.call (keeps_loadInitcode _ _)
    (fun lk lu tfs mem _ hspaces hm =>
      loadInitcode_spec hspaces (Set.mem_insert _ _) hm) hload
  rw [Exec.bind_eq_ok, ← hprocs₃] at hrun
  obtain ⟨_, st₄, hepc, hrun⟩ := hrun
  obtain ⟨h₄, hprocs₄, _⟩ := h₃.write_frame
    (onlyPage_store64 _ _ tfEpc userVmemStart (by decide)) hepc
  rw [Exec.bind_eq_ok, ← hprocs₄] at hrun
  obtain ⟨_, st₅, hsp, hrun⟩ := hrun
  obtain ⟨h₅, hprocs₅, _⟩ := h₄.write_frame
    (onlyPage_store64 _ _ tfSp userStackBottom (by decide)) hsp
  rw [Exec.bind_eq_ok, ← hprocs₅] at hrun
  obtain ⟨mmap, st₆, hmmap, hrun⟩ := hrun
  rw [readRegion_bind, writeRegion_bind, Exec.bind_eq_ok] at hrun
  obtain ⟨next, st₇, hnext, hrun⟩ := hrun
  rw [readRegion_bind, writeRegion_bind, writeSpace_bind] at hrun
  obtain ⟨rfl, rfl⟩ := Prod.mk.inj (Except.ok.inj hrun)
  obtain ⟨hmem₆, hprocs₆, htramp₆⟩ :=
    withoutRegions_eq (keeps_mmapRegionAlloc _ _ _ _ hmmap)
  obtain ⟨hmem₇, hprocs₇, htramp₇⟩ :=
    withoutRegions_eq (keeps_mmapRegionAlloc _ _ _ _ hnext)
  refine h₅.start h ?_ ?_ ?_ ?_ ?_ (hmem₇.trans hmem₆) (htramp₇.trans htramp₆)
  · simp only [Function.update_self]
  · simp only [Function.update_self]
  · simp only [Function.update_self]
    exact Kernel.ProcState.noConfusion
  · simp only [Function.update_self]
    exact fun _ => by decide
  · intro q hq
    simp only [Function.update_of_ne hq, hprocs₇, hprocs₆]

def childByte (st : UvmState) (p : ProcId) (va : UInt64) : Option UInt8 :=
  if ∃ span ∈ spans st.regions (st.procs p).heapTop
      (st.procs p).ustackPages.toUInt32 (st.procs p).mmap, InSpan span va
  then st.readByte p va
  else none

theorem procFork_prepared (h : st.Isolated) (hp : st.Used p)
    (hrun : procFork p st = .ok (c, st')) :
    ∃ st₁, Prepared st st₁ c ∧ st'.mem = st₁.mem ∧
      st'.trampolinePage = st₁.trampolinePage ∧
      (∀ q, q ≠ c → st'.procs q = st₁.procs q) ∧
      (∃ mmap, st'.procs c = { st₁.procs c with
        mmap := some mmap
        heapTop := (st.procs p).heapTop
        ustackPages := (st.procs p).ustackPages
        state := .runnable }) ∧
      ∀ va, va < vaMax →
        userByte st₁.mem.mem (st₁.procs c).pgtbl va = st.childByte p va := by
  unfold procFork at hrun
  rw [Exec.bind_eq_ok] at hrun
  obtain ⟨child, st₁, halloc, hrun⟩ := hrun
  obtain ⟨h₁, _, hregions₁, hnone⟩ := procAlloc_spec h halloc
  have hne : p ≠ child := by
    rintro rfl
    exact hp h₁.unused
  rw [readSpace_bind, readSpace_bind, h₁.others p hne, Exec.bind_eq_ok] at hrun
  obtain ⟨_, st₂, hframe, hrun⟩ := hrun
  obtain ⟨h₂, hprocs₂, hregions₂, hbytes₂⟩ := h₁.write_frame
    (onlyPage_memcpy _ _ (st.procs p).tf.toNat trapframeSize (by decide)) hframe
  rw [Exec.bind_eq_ok, ← hprocs₂] at hrun
  obtain ⟨_, st₃, ha0, hrun⟩ := hrun
  obtain ⟨h₃, hprocs₃, hregions₃, hbytes₃⟩ := h₂.write_frame
    (onlyPage_store64 _ _ tfA0 0 (by decide)) ha0
  rw [Exec.bind_eq_ok, ← hprocs₃] at hrun
  obtain ⟨_, st₄, hcopy, hrun⟩ := hrun
  obtain ⟨lk, lu, hspaces₃⟩ := h₃.spaces
  have hapart : (st.procs p).pgtbl ≠ (st₃.procs child).pgtbl := by
    intro heq
    exact h₃.fresh (heq ▸ mem_roots hp)
  obtain ⟨hst₄, ⟨lk₄, lu₄, hspaces₄⟩, hcopied, hupper₄⟩ := uvmCopyPgtbl_spec hspaces₃
    (Set.mem_insert_of_mem _ (mem_roots hp)) (Set.mem_insert _ _) hapart hcopy
  have hprocs₄ : st₄.procs = st₃.procs := by
    rw [hst₄]
  have htramp₄ : st₄.trampolinePage = st₃.trampolinePage := by
    rw [hst₄]
  have h₄ : Prepared st st₄ child := by
    have hsetting := keeps_uvmCopyPgtbl _ _ _ _ _ _ _ _ hcopy
    refine ⟨h₃.unused, ?_, ⟨lk₄, lu₄, ?_⟩, ?_, h₃.upper.trans (hupper₄.mono
      (Set.subset_insert _ _)), ?_, ?_, ?_, ?_, htramp₄.trans h₃.trampoline⟩
    · rw [hprocs₄]
      exact h₃.fresh
    · rw [hprocs₄]
      exact hspaces₄
    · intro r hr
      refine (h₃.spares r hr).trans (hcopied.others r (Set.mem_insert_of_mem _ hr) ?_)
      rintro rfl
      exact h₃.fresh hr
    · rw [hprocs₄]
      exact hupper₄.links _ (Set.mem_insert _ _) h₃.low
    · rw [hprocs₄]
      exact h₃.own.of_upper (hspaces₄.kernel _ (Set.mem_insert _ _)).below
        (contains_of_bounds (congrArg Prod.fst hsetting))
        (hupper₄.kernel _ (Set.mem_insert _ _))
    · exact hsetting.trans h₃.bounds
    · rw [hprocs₄]
      exact h₃.others
  rw [Exec.bind_eq_ok] at hrun
  obtain ⟨mmap, st₅, hmmap, hrun⟩ := hrun
  rw [Exec.bind_eq_ok] at hrun
  obtain ⟨_, st₆, hchain, hrun⟩ := hrun
  rw [writeSpace_bind] at hrun
  obtain ⟨rfl, rfl⟩ := Prod.mk.inj (Except.ok.inj hrun)
  obtain ⟨hmem₅, hprocs₅, htramp₅⟩ :=
    withoutRegions_eq (keeps_mmapRegionAlloc _ _ _ _ hmmap)
  obtain ⟨hmem₆, hprocs₆, htramp₆⟩ :=
    withoutRegions_eq (keeps_copyRegions _ _ _ _ _ _ hchain)
  refine ⟨st₄, h₄, hmem₆.trans hmem₅, htramp₆.trans htramp₅, ?_, ⟨mmap, ?_⟩, ?_⟩
  · intro q hq
    simp only [Function.update_of_ne hq, hprocs₆, hprocs₅]
  · simp only [Function.update_self, hprocs₄]
  · intro va hva
    have hparent : userByte st₃.mem.mem (st.procs p).pgtbl va = st.readByte p va :=
      (h₃.spares _ (mem_roots hp)).userByte hva
    have hchild : userByte st₃.mem.mem (st₃.procs child).pgtbl va = none := by
      rw [hprocs₃, hbytes₃ va hva, hprocs₂, hbytes₂ va hva]
      exact hnone va hva
    rw [hprocs₄, hcopied.bytes va hva, hparent, hchild, hregions₃, hregions₂,
      hregions₁]
    rfl

theorem procFork_spec (h : st.Isolated) (hp : st.Used p)
    (hrun : procFork p st = .ok (c, st')) :
    st'.Isolated ∧ (∀ q, st.Used q → st'.procs q = st.procs q ∧
      ∀ va, va < vaMax → st'.readByte q va = st.readByte q va) ∧
      (st.Settled → st'.Settled) ∧
      ∀ va, va < vaMax → st'.readByte c va = st.childByte p va := by
  obtain ⟨st₁, h₁, hmem, htramp, hothers, ⟨mmap, hchild⟩, hbytes⟩ :=
    procFork_prepared h hp hrun
  obtain ⟨hisolated, hused, hsettled⟩ := h₁.start h (by rw [hchild]) (by rw [hchild])
    (by rw [hchild]; exact Kernel.ProcState.noConfusion)
    (fun hsettled => by rw [hchild]; exact hsettled.heap p hp) hothers hmem htramp
  refine ⟨hisolated, hused, hsettled, ?_⟩
  intro va hva
  unfold readByte
  rw [hchild, hmem]
  exact hbytes va hva

end UvmState

end UnoOS.Uvm
