import UnoOS.Lib.Transition
import UnoOS.Mem.PmemInit

namespace UnoOS.Mem

open UnoOS.Lib
open UnoOS.Fs (Stop)

/-! Runs of `pmem_alloc` and `pmem_free`, with the stores that owners make. -/

structure PmemRun where
  sys : MemState
  /-- The pages handed out and not given back. -/
  owned : List UInt64
  /-- The pages of a region given back and not put on its list. -/
  lost : Bool → Nat

inductive PmemCall where
  | alloc (inKernel : Bool)
  | free (page : UInt64) (inKernel : Bool)
  /-- An owner stores a byte. -/
  | store (page : UInt64) (off : Nat) (byte : UInt8)

namespace PmemRun

def step (st : PmemRun) : PmemCall → Option PmemRun
  | .alloc k =>
      match pmemAlloc k st.sys with
      | .ok (page, sys) => some { st with sys := sys, owned := page :: st.owned }
      | .error _ => none
  | .free page k =>
      if page ∈ st.owned then
        match pmemFree page k st.sys with
        | .ok (_, sys) => some {
            sys := sys
            owned := st.owned.erase page
            lost := if refCnt st.sys.mem page = 1 then st.lost
              else Function.update st.lost k (st.lost k + 1) }
        | .error _ => none
      else none
  | .store page off byte =>
      if page ∈ st.owned ∧ off < 4096 then
        let mem := st.sys.mem.write (page.toNat + off) 1 fun _ => byte
        some { st with sys := st.sys.setMem mem }
      else none

def unbooted (mem : Memory) : MemState where
  mem := mem
  kernRegion := ⟨0, 0, 0, 0⟩
  userRegion := ⟨0, 0, 0, 0⟩
  kernelPgtbl := 0
  freed := []

/-- Nobody owns a page of what `pmem_init` leaves. -/
def ofInit (sys : MemState) : Except Stop (Unit × MemState) → PmemRun
  | .ok (_, sys') => ⟨sys', [], fun _ => 0⟩
  | .error _ => ⟨sys, [], fun _ => 0⟩

/-- After `pmem_init`, which always returns. -/
def booted (image : KernelImage) (mem : Memory) : PmemRun :=
  ofInit (unbooted mem) (pmemInit image (unbooted mem))

def outstanding (st : PmemRun) (k : Bool) : List UInt64 :=
  st.owned.filter fun page => decide ((st.sys.region k).Contains page)

structure Sound (image : KernelImage) (st : PmemRun) : Prop where
  begin : ∀ k, (st.sys.region k).begin = image.begin k
  end_ : ∀ k, (st.sys.region k).end_ = image.end_ k
  ownedNodup : st.owned.Nodup
  ownedAligned : ∀ page ∈ st.owned, page.toNat % 4096 = 0
  list : ∀ k, ∃ l, FreeList st.sys k l ∧ (∀ page ∈ l, page ∉ st.owned) ∧
    (st.sys.region k).allocable.toNat = l.length + image.pages k ∧
    l.length + (st.outstanding k).length + st.lost k = image.pages k

variable {image : KernelImage} {st st' : PmemRun} {k k' : Bool} {page : UInt64}

theorem Sound.contains_iff (h : st.Sound image) :
    (st.sys.region k).Contains page ↔
      page % pgsize = 0 ∧ image.begin k ≤ page ∧ page < image.end_ k := by
  simp only [Region.Contains, h.begin, h.end_]

theorem Sound.one_region (h : st.Sound image)
    (hk : (st.sys.region k).Contains page)
    (hk' : (st.sys.region k').Contains page) : k = k' :=
  image.one_region (h.contains_iff.mp hk).2 (h.contains_iff.mp hk').2

theorem outstanding_congr {owned : List UInt64} {sys : MemState}
    {lost : Bool → Nat} (hbegin : (sys.region k).begin = (st.sys.region k).begin)
    (hend : (sys.region k).end_ = (st.sys.region k).end_) :
    outstanding ⟨sys, owned, lost⟩ k =
      owned.filter fun page => decide ((st.sys.region k).Contains page) := by
  unfold outstanding
  refine List.filter_congr fun page _ => ?_
  rw [decide_eq_decide]
  exact Region.contains_congr hbegin hend

theorem Sound.alloc (h : st.Sound image) {sys : MemState}
    (hrun : pmemAlloc k st.sys = .ok (page, sys)) :
    Sound image { st with sys := sys, owned := page :: st.owned } := by
  obtain ⟨l, hlist, hapart, hcount, hsum⟩ := h.list k
  obtain ⟨rest, rfl, hrest⟩ := hlist.alloc hrun
  obtain ⟨hallocable, _, rfl, rfl⟩ := pmemAlloc_eq_ok.mp hrun
  have hcontains := hlist.inRegion _ (List.mem_cons_self ..)
  obtain ⟨hnot, _⟩ := List.nodup_cons.mp hlist.nodup
  have hbounds : ∀ k', ((st.sys.taken k).region k').begin =
      (st.sys.region k').begin ∧ ((st.sys.taken k).region k').end_ =
      (st.sys.region k').end_ := by
    intro k'
    by_cases hk : k' = k
    · subst hk
      rw [region_taken]
      exact ⟨rfl, rfl⟩
    · rw [region_taken_of_ne hk]
      exact ⟨rfl, rfl⟩
  refine ⟨?_, ?_, ?_, ?_, ?_⟩
  · intro k'
    exact (hbounds k').1.trans (h.begin k')
  · intro k'
    exact (hbounds k').2.trans (h.end_ k')
  · exact List.nodup_cons.mpr ⟨hapart _ (by simp), h.ownedNodup⟩
  · intro other hother
    rcases List.mem_cons.mp hother with rfl | hother
    · exact hcontains.aligned
    · exact h.ownedAligned other hother
  · intro k'
    rw [outstanding_congr (hbounds k').1 (hbounds k').2]
    by_cases hk : k' = k
    · subst hk
      refine ⟨rest, hrest, ?_, ?_, ?_⟩
      · intro other hother
        rw [List.mem_cons, not_or]
        refine ⟨?_, hapart other (List.mem_cons_of_mem _ hother)⟩
        rintro rfl
        exact hnot hother
      · have hone : (1 : UInt32) ≤ (st.sys.region k').allocable := by
          rw [UInt32.le_iff_toNat_le]
          change 1 ≤ _
          rw [hcount, List.length_cons]
          omega
        rw [region_taken]
        dsimp only
        rw [UInt32.toNat_sub_of_le _ _ hone, hcount, List.length_cons]
        change _ - 1 = _
        omega
      · rw [List.filter_cons_of_pos (by simpa using hcontains)]
        simp only [outstanding, List.length_cons] at hsum ⊢
        omega
    · obtain ⟨l', hlist', hapart', hcount', hsum'⟩ := h.list k'
      have hforeign : (st.sys.region k).next ∉ l' := fun hmem =>
        hk (h.one_region (hlist'.inRegion _ hmem) hcontains)
      refine ⟨l', ?_, ?_, ?_, ?_⟩
      · refine hlist'.congr (region_taken_of_ne hk) ?_
        intro other hother
        refine onlyPage_taken.samePage hcontains.aligned
          (hlist'.inRegion _ hother).aligned ?_
        rintro rfl
        exact hforeign hother
      · intro other hother
        rw [List.mem_cons, not_or]
        refine ⟨?_, hapart' other hother⟩
        rintro rfl
        exact hforeign hother
      · rw [region_taken_of_ne hk]
        exact hcount'
      · have hout : ¬ (st.sys.region k').Contains (st.sys.region k).next :=
          fun hin => hk (h.one_region hin hcontains)
        rw [List.filter_cons_of_neg (by simpa using hout)]
        exact hsum'

/-- A change within an owned page touches no free list. -/
theorem Sound.apart (h : st.Sound image) {l : List UInt64}
    (hlist : FreeList st.sys k l) (hapart : ∀ page ∈ l, page ∉ st.owned)
    (howned : page ∈ st.owned) {m : Memory} (honly : OnlyPage page st.sys.mem m) :
    ∀ other ∈ l, SamePage other st.sys.mem m := by
  intro other hother
  refine honly.samePage (h.ownedAligned _ howned)
    (hlist.inRegion _ hother).aligned ?_
  rintro rfl
  exact hapart _ hother howned

theorem Sound.store (h : st.Sound image) (howned : page ∈ st.owned) {off : Nat}
    (hoff : off < 4096) (byte : UInt8) :
    Sound image { st with
      sys := st.sys.setMem
        (st.sys.mem.write (page.toNat + off) 1 fun _ => byte) } := by
  refine ⟨h.begin, h.end_, h.ownedNodup, h.ownedAligned, ?_⟩
  intro k
  obtain ⟨l, hlist, hapart, hcount, hsum⟩ := h.list k
  have honly := onlyPage_write page st.sys.mem off 1 (fun _ => byte) (by omega)
  exact ⟨l, hlist.congr rfl (h.apart hlist hapart howned honly), hapart, hcount,
    hsum⟩

theorem length_filter_erase {α : Type} [DecidableEq α] {l : List α} {a : α}
    (p : α → Bool) (h : a ∈ l) :
    ((l.erase a).filter p).length + (if p a then 1 else 0) =
      (l.filter p).length := by
  have hperm := (List.perm_cons_erase h).filter p
  rw [hperm.length_eq]
  split
  · next hp => rw [List.filter_cons_of_pos hp, List.length_cons]
  · next hp => rw [List.filter_cons_of_neg hp, Nat.add_zero]

theorem Sound.free (h : st.Sound image) (howned : page ∈ st.owned)
    {sys : MemState} {value : Unit}
    (hrun : pmemFree page k st.sys = .ok (value, sys)) :
    Sound image {
      sys := sys
      owned := st.owned.erase page
      lost := if refCnt st.sys.mem page = 1 then st.lost
        else Function.update st.lost k (st.lost k + 1) } := by
  have honly := pmemFree_onlyPage hrun
  obtain ⟨hcontains, hsys⟩ := pmemFree_eq_ok.mp hrun
  have hne : page ≠ 0 := by
    rintro rfl
    have hbegin := (h.contains_iff.mp hcontains).2.1
    have hbase := image.begin_ge k
    rw [UInt64.le_iff_toNat_le] at hbegin
    rw [show (0 : UInt64).toNat = 0 from rfl] at hbegin
    rw [show kernelBase.toNat = 0x80000000 from rfl] at hbase
    omega
  have hbounds : ∀ k', (sys.region k').begin = (st.sys.region k').begin ∧
      (sys.region k').end_ = (st.sys.region k').end_ := by
    intro k'
    rw [hsys]
    split
    · by_cases hk : k' = k
      · subst hk
        rw [region_pushed]
        exact ⟨rfl, rfl⟩
      · rw [region_pushed_of_ne hk]
        exact ⟨rfl, rfl⟩
    · rw [region_counted]
      exact ⟨rfl, rfl⟩
  have hsub : ∀ other, other ∈ st.owned.erase page → other ∈ st.owned :=
    fun other hother => List.mem_of_mem_erase hother
  refine ⟨?_, ?_, h.ownedNodup.erase page, ?_, ?_⟩
  · intro k'
    exact (hbounds k').1.trans (h.begin k')
  · intro k'
    exact (hbounds k').2.trans (h.end_ k')
  · exact fun other hother => h.ownedAligned other (hsub other hother)
  · intro k'
    obtain ⟨l, hlist, hapart, hcount, hsum⟩ := h.list k'
    have herase := length_filter_erase
      (fun page => decide ((st.sys.region k').Contains page)) howned
    have hapart' : ∀ other ∈ l, other ∉ st.owned.erase page :=
      fun other hother hmem => hapart other hother (hsub other hmem)
    rw [outstanding_congr (hbounds k').1 (hbounds k').2]
    unfold outstanding at hsum
    by_cases hk : k' = k
    · subst hk
      simp only [hcontains, decide_true, if_true] at herase
      by_cases hone : refCnt st.sys.mem page = 1
      · rw [if_pos hone] at hsys
        subst hsys
        refine ⟨page :: l, hlist.pushed ?_ hcontains hne, ?_, ?_, ?_⟩
        · exact fun hmem => hapart page hmem howned
        · intro other hother
          rcases List.mem_cons.mp hother with rfl | hother
          · exact fun hmem => (h.ownedNodup.mem_erase_iff.mp hmem).1 rfl
          · exact hapart' other hother
        · have hlt := image.pages_lt k'
          rw [region_pushed]
          dsimp only
          rw [UInt32.toNat_add, hcount, List.length_cons]
          change (_ + 1) % 4294967296 = _
          omega
        · simp only [hone, if_true, List.length_cons]
          omega
      · rw [if_neg hone] at hsys
        subst hsys
        refine ⟨l, ?_, hapart', ?_, ?_⟩
        · exact hlist.congr region_counted
            (h.apart hlist hapart howned onlyPage_counted)
        · rw [region_counted]
          exact hcount
        · simp only [hone, if_false, Function.update_self]
          omega
    · have hout : ¬ (st.sys.region k').Contains page :=
        fun hin => hk (h.one_region hin hcontains)
      have hregion : sys.region k' = st.sys.region k' := by
        rw [hsys]
        split
        · exact region_pushed_of_ne hk
        · exact region_counted
      simp only [hout, decide_false, Bool.false_eq_true, if_false] at herase
      refine ⟨l, ?_, hapart', ?_, ?_⟩
      · exact hlist.congr hregion (h.apart hlist hapart howned honly)
      · rw [hregion]
        exact hcount
      · by_cases hone : refCnt st.sys.mem page = 1
        · simp only [hone, if_true]
          omega
        · simp only [hone, if_false, Function.update_of_ne hk]
          omega

theorem Sound.step (h : st.Sound image) {call : PmemCall}
    (hstep : st.step call = some st') : st'.Sound image := by
  cases call with
  | alloc k =>
      simp only [PmemRun.step] at hstep
      cases hrun : pmemAlloc k st.sys with
      | error reason =>
          rw [hrun] at hstep
          cases hstep
      | ok result =>
          rw [hrun] at hstep
          cases hstep
          exact h.alloc hrun
  | free page k =>
      simp only [PmemRun.step] at hstep
      split at hstep
      · next howned =>
        cases hrun : pmemFree page k st.sys with
        | error reason =>
            rw [hrun] at hstep
            cases hstep
        | ok result =>
            rw [hrun] at hstep
            cases hstep
            exact h.free howned hrun
      · cases hstep
  | store page off byte =>
      simp only [PmemRun.step] at hstep
      split at hstep
      · next howned =>
        cases hstep
        exact h.store howned.1 howned.2 byte
      · cases hstep

theorem booted_eq (image : KernelImage) (mem : Memory) :
    ∃ sys, booted image mem = ⟨sys, [], fun _ => 0⟩ ∧
      ∀ k, Initialised image sys k := by
  obtain ⟨sys, hinit, hsys⟩ := pmemInit_spec image (unbooted mem)
  refine ⟨sys, ?_, hsys⟩
  unfold booted
  rw [hinit]
  rfl

theorem sound_booted (image : KernelImage) (mem : Memory) :
    (booted image mem).Sound image := by
  obtain ⟨sys, hbooted, hsys⟩ := booted_eq image mem
  rw [hbooted]
  refine ⟨fun k => (hsys k).begin, fun k => (hsys k).end_, List.nodup_nil,
    fun _ hmem => absurd hmem List.not_mem_nil, ?_⟩
  intro k
  refine ⟨_, (hsys k).list, fun _ _ => List.not_mem_nil, ?_, ?_⟩
  · rw [(hsys k).allocable, List.length_reverse, length_pageRun]
  · rw [List.length_reverse, length_pageRun]
    rfl

theorem sound_run {calls : List PmemCall} {mem : Memory}
    (hrun : run step (booted image mem) calls = some st) : st.Sound image :=
  run_invariant_of_step (fun _ _ _ h hstep => h.step hstep)
    (sound_booted image mem) hrun

/-- The first page that `pmem_alloc` hands out to the kernel. -/
def lastKernPage (image : KernelImage) : UInt64 :=
  image.allocBegin + UInt64.ofNat 1023 * pgsize

theorem alloc_booted (image : KernelImage) (mem : Memory) :
    ∃ sys : MemState, (booted image mem).step (.alloc true) =
        some ⟨sys.taken true, [lastKernPage image], fun _ => 0⟩ ∧
      (sys.region true).next = lastKernPage image ∧
      (sys.region true).Contains (lastKernPage image) := by
  obtain ⟨sys, hbooted, hsys⟩ := booted_eq image mem
  have hlist := (hsys true).list
  have hpages : (pageRun (image.begin true) (image.pages true)).reverse =
      lastKernPage image :: (pageRun image.allocBegin 1023).reverse := by
    change (pageRun image.allocBegin (1023 + 1)).reverse = _
    rw [pageRun_succ, List.reverse_concat]
    rfl
  rw [hpages] at hlist
  have hallocable : (sys.region true).allocable ≠ 0 := by
    intro hzero
    have hcount := (hsys true).allocable
    rw [hzero] at hcount
    cases hcount
  refine ⟨sys, ?_, hlist.chain.1, hlist.inRegion _ (by simp)⟩
  rw [hbooted]
  simp only [step, hlist.alloc_returns hallocable]

/-- After every run each page has one owner at most: `pmem_alloc` returns a
zeroed page of the region that nobody owns. -/
theorem page_has_one_owner (image : KernelImage) (mem : Memory)
    (calls : List PmemCall) (st : PmemRun)
    (hrun : run step (booted image mem) calls = some st) :
    st.owned.Nodup ∧
      (∀ k, ∃ l, FreeList st.sys k l ∧ ∀ page ∈ l, page ∉ st.owned) ∧
      ∀ k page sys, pmemAlloc k st.sys = .ok (page, sys) →
        page % pgsize = 0 ∧ image.begin k ≤ page ∧
          page.toNat + 4096 ≤ (image.end_ k).toNat ∧
          (∀ x, InPage page x → sys.mem x = 0) ∧ page ∉ st.owned := by
  have h := sound_run hrun
  refine ⟨h.ownedNodup, ?_, ?_⟩
  · intro k
    obtain ⟨l, hlist, hapart, _⟩ := h.list k
    exact ⟨l, hlist, hapart⟩
  · intro k page sys halloc
    obtain ⟨l, hlist, hapart, _⟩ := h.list k
    obtain ⟨rest, rfl, _⟩ := hlist.alloc halloc
    have hcontains := h.contains_iff.mp (hlist.inRegion page (by simp))
    obtain ⟨haligned, hbegin, hend⟩ := hcontains
    refine ⟨haligned, hbegin, ?_, ?_, hapart page (by simp)⟩
    · have hsize := image.end_toNat k
      have hfirst := image.begin_aligned k
      rw [aligned_iff] at haligned
      rw [UInt64.lt_iff_toNat_lt] at hend
      omega
    · obtain ⟨_, _, rfl, rfl⟩ := pmemAlloc_eq_ok.mp halloc
      exact fun x hx => taken_zero hx

theorem step_store {off : Nat} (howned : page ∈ st.owned) (hoff : off < 4096)
    (byte : UInt8) :
    st.step (.store page off byte) = some { st with
      sys := st.sys.setMem (st.sys.mem.write (page.toNat + off) 1 fun _ => byte) } :=
  if_pos ⟨howned, hoff⟩

theorem step_free_of_one (howned : page ∈ st.owned)
    (hcontains : (st.sys.region k).Contains page) (hcount : refCnt st.sys.mem page = 1) :
    st.step (.free page k) = some {
      sys := st.sys.pushed page k
      owned := st.owned.erase page
      lost := st.lost } := by
  have hfree : pmemFree page k st.sys = .ok ((), st.sys.pushed page k) := by
    apply pmemFree_eq_ok.mpr
    rw [if_pos hcount]
    exact ⟨hcontains, rfl⟩
  simp only [step, howned, if_true, hfree, hcount]

/-- The page on the free list is handed out, whatever was done before. -/
theorem Sound.alloc_first (h : st.Sound image) (hnext : (st.sys.region k).next ≠ 0)
    (hpages : 0 < image.pages k) :
    st.step (.alloc k) = some { st with
      sys := st.sys.taken k
      owned := (st.sys.region k).next :: st.owned } := by
  obtain ⟨l, hlist, _, hcount, _⟩ := h.list k
  have hallocable : (st.sys.region k).allocable ≠ 0 := by
    intro hzero
    rw [hzero] at hcount
    change 0 = _ at hcount
    omega
  have halloc : pmemAlloc k st.sys = .ok ((st.sys.region k).next, st.sys.taken k) :=
    pmemAlloc_eq_ok.mpr ⟨hallocable, hnext, rfl, rfl⟩
  simp only [PmemRun.step, halloc]

theorem refCnt_write {m : Memory} (hzero : ∀ x, InPage page x → m x = 0) :
    refCnt (m.write (page.toNat + 8) 1 fun _ => 1) page = 1 := by
  have hnumber : (m.write (page.toNat + 8) 1 fun _ => 1).number (page.toNat + 8) 4 = 1 := by
    have hfirst : (m.write (page.toNat + 8) 1 fun _ => 1) (page.toNat + 8) = 1 :=
      Memory.write_of_mem (le_refl _) (by omega)
    have hothers : ∀ i, 0 < i → i < 4 →
        (m.write (page.toNat + 8) 1 fun _ => 1) (page.toNat + 8 + i) = 0 := by
      intro i hpos hi
      rw [Memory.write_of_not_mem (by omega)]
      exact hzero _ ⟨by omega, by omega⟩
    simp [Memory.number, hfirst, hothers]
  exact congrArg UInt32.ofNat hnumber

/-- A page that its owner leaves with the count one goes back on the list. -/
theorem run_free_stored (howned : page ∈ st.owned)
    (hcontains : (st.sys.region k).Contains page)
    (hzero : ∀ x, InPage page x → st.sys.mem x = 0) :
    ∃ st', run step st [.store page 8 1, .free page k] = some st' ∧
      st'.owned = st.owned.erase page ∧ (st'.sys.region k).next = page := by
  obtain ⟨stored, hstored⟩ : ∃ stored : PmemRun, stored = { st with
      sys := st.sys.setMem (st.sys.mem.write (page.toNat + 8) 1 fun _ => 1) } := ⟨_, rfl⟩
  have hstore : st.step (.store page 8 1) = some stored := by
    rw [hstored]
    exact step_store howned (by omega) 1
  have howned' : page ∈ stored.owned := by
    rw [hstored]
    exact howned
  have hcontains' : (stored.sys.region k).Contains page := by
    rw [hstored]
    exact hcontains
  have hone : refCnt stored.sys.mem page = 1 := by
    rw [hstored]
    exact refCnt_write hzero
  have hfree := step_free_of_one howned' hcontains' hone
  refine ⟨_, run_cons.mpr ⟨_, hstore, run_cons.mpr ⟨_, hfree, rfl⟩⟩, ?_, ?_⟩
  · rw [hstored]
  · rw [region_pushed]

def returned (image : KernelImage) : List PmemCall :=
  [.alloc true, .store (lastKernPage image) 8 1, .free (lastKernPage image) true,
    .alloc true]

theorem run_returned (image : KernelImage) (mem : Memory) (hpage : lastKernPage image ≠ 0) :
    ∃ st, run step (booted image mem) (returned image) = some st ∧
      st.owned = [lastKernPage image] := by
  obtain ⟨sys, hstep, hnext, hcontains⟩ := alloc_booted image mem
  have hcontains' : ((sys.taken true).region true).Contains (lastKernPage image) := by
    rw [region_taken]
    exact (Region.contains_congr rfl rfl).mpr hcontains
  have hzero : ∀ x, InPage (lastKernPage image) x → (sys.taken true).mem x = 0 := by
    rw [← hnext]
    exact fun x hx => taken_zero hx
  let out : PmemRun := ⟨sys.taken true, [lastKernPage image], fun _ => 0⟩
  have hout : lastKernPage image ∈ out.owned := List.mem_singleton_self _
  obtain ⟨st, hrun, howned, hfirst⟩ := run_free_stored hout hcontains' hzero
  have hback : run step (booted image mem)
      [.alloc true, .store (lastKernPage image) 8 1, .free (lastKernPage image) true] =
        some st := run_cons.mpr ⟨_, hstep, hrun⟩
  have hnext' : (st.sys.region true).next ≠ 0 := by
    rw [hfirst]
    exact hpage
  have halloc := (sound_run hback).alloc_first hnext' (show 0 < 1024 by omega)
  refine ⟨_, run_concat hback halloc, ?_⟩
  change (st.sys.region true).next :: st.owned = _
  rw [hfirst, howned, List.erase_cons_head]

theorem page_has_one_owner_returned :
    ∃ st, run step (booted KernelImage.small 0) (returned KernelImage.small) = some st ∧
      st.owned = [lastKernPage KernelImage.small] ∧ st.owned.Nodup ∧
      (∀ k, ∃ l, FreeList st.sys k l ∧ ∀ page ∈ l, page ∉ st.owned) ∧
      ∀ k page sys, pmemAlloc k st.sys = .ok (page, sys) →
        page % pgsize = 0 ∧ KernelImage.small.begin k ≤ page ∧
          page.toNat + 4096 ≤ (KernelImage.small.end_ k).toNat ∧
          (∀ x, InPage page x → sys.mem x = 0) ∧ page ∉ st.owned := by
  obtain ⟨st, hrun, howned⟩ := run_returned KernelImage.small 0 (by decide)
  exact ⟨st, hrun, howned, page_has_one_owner KernelImage.small 0 _ _ hrun⟩

/-! What the counter and the list say about the pages that are left. -/

/-- `allocable` is the length of the free list. -/
def CountsFree (st : PmemRun) (k : Bool) : Prop :=
  ∃ l, Chain st.sys.mem (st.sys.region k).next l ∧
    (st.sys.region k).allocable.toNat = l.length

def Conserves (image : KernelImage) (st : PmemRun) (k : Bool) : Prop :=
  ∃ l, Chain st.sys.mem (st.sys.region k).next l ∧
    l.length + (st.outstanding k).length = image.pages k

def FreesAtOne (k : Bool) (st : PmemRun) (call : PmemCall) : Prop :=
  ∀ page, call = .free page k → refCnt st.sys.mem page = 1

theorem Sound.countsFree_iff (h : st.Sound image) :
    st.CountsFree k ↔ image.pages k = 0 := by
  obtain ⟨l, hlist, _, hcount, _⟩ := h.list k
  constructor
  · rintro ⟨l', hchain, hcount'⟩
    rw [hchain.unique hlist.chain] at hcount'
    omega
  · intro hzero
    exact ⟨l, hlist.chain, by omega⟩

theorem Sound.conserves_iff (h : st.Sound image) :
    Conserves image st k ↔ st.lost k = 0 := by
  obtain ⟨l, hlist, _, _, hsum⟩ := h.list k
  constructor
  · rintro ⟨l', hchain, hsum'⟩
    rw [hchain.unique hlist.chain] at hsum'
    omega
  · intro hzero
    exact ⟨l, hlist.chain, by omega⟩

/-- A call loses a page of the region exactly if it frees it at another
count. -/
theorem lost_step {call : PmemCall} (hstep : st.step call = some st') (k : Bool) :
    st.lost k ≤ st'.lost k ∧ (st'.lost k = st.lost k ↔ FreesAtOne k st call) := by
  cases call with
  | alloc k' =>
      simp only [PmemRun.step] at hstep
      split at hstep
      · cases hstep
        exact ⟨le_refl _, by simp [FreesAtOne]⟩
      · cases hstep
  | free page k' =>
      simp only [PmemRun.step] at hstep
      split at hstep
      · split at hstep
        · cases hstep
          simp only [FreesAtOne, PmemCall.free.injEq, and_imp]
          by_cases hone : refCnt st.sys.mem page = 1
          · simp only [hone, if_true, le_refl, true_and, true_iff]
            rintro _ rfl _
            exact hone
          · by_cases hk : k = k'
            · subst hk
              simp only [hone, if_false, Function.update_self]
              refine ⟨by omega, by omega, ?_⟩
              intro h
              exact absurd (h page rfl trivial) hone
            · simp only [hone, if_false, Function.update_of_ne hk, le_refl,
                true_and, true_iff]
              rintro _ _ rfl
              exact absurd rfl hk
        · cases hstep
      · cases hstep
  | store page off byte =>
      simp only [PmemRun.step] at hstep
      split at hstep
      · cases hstep
        exact ⟨le_refl _, by simp [FreesAtOne]⟩
      · cases hstep

theorem lost_run {calls : List PmemCall} (hrun : run step st calls = some st')
    (k : Bool) :
    st.lost k ≤ st'.lost k ∧
      (st'.lost k = st.lost k ↔ Along step (FreesAtOne k) st calls) := by
  induction calls generalizing st with
  | nil =>
      cases hrun
      exact ⟨le_refl _, by simp [Along]⟩
  | cons call calls ih =>
      obtain ⟨middle, hstep, hrest⟩ := run_cons.mp hrun
      obtain ⟨hle, hiff⟩ := lost_step hstep k
      obtain ⟨hle', hiff'⟩ := ih hrest
      refine ⟨by omega, ?_, ?_⟩
      · intro heq
        exact along_cons (hiff.mp (by omega)) hstep (hiff'.mp (by omega))
      · intro halong
        have hfirst := hiff.mpr halong.1
        have hlater := hiff'.mpr (halong.2 middle hstep)
        omega

/-- After every run `allocable` is wrong for a region that has pages, and no
page of a region is lost exactly if all were given back at count one. -/
theorem pages_conserved_iff (image : KernelImage) (mem : Memory)
    (calls : List PmemCall) (st : PmemRun)
    (hrun : run step (booted image mem) calls = some st) (k : Bool) :
    (st.CountsFree k ↔ image.pages k = 0) ∧
      (Conserves image st k ↔
        Along step (FreesAtOne k) (booted image mem) calls) := by
  have h := sound_run hrun
  obtain ⟨sys, hbooted, _⟩ := booted_eq image mem
  refine ⟨h.countsFree_iff, ?_⟩
  rw [h.conserves_iff, ← (lost_run hrun k).2, hbooted]

theorem step_free_of_ne (howned : page ∈ st.owned)
    (hcontains : (st.sys.region k).Contains page)
    (hcount : refCnt st.sys.mem page ≠ 1) :
    st.step (.free page k) = some {
      sys := st.sys.counted page
      owned := st.owned.erase page
      lost := Function.update st.lost k (st.lost k + 1) } := by
  have hfree : pmemFree page k st.sys = .ok ((), st.sys.counted page) := by
    apply pmemFree_eq_ok.mpr
    rw [if_neg hcount]
    exact ⟨hcontains, rfl⟩
  simp only [step, howned, if_true, hfree, hcount, if_false]

/-- A page that its owner left as it was handed out is lost when given back. -/
theorem free_untouched (image : KernelImage) (mem : Memory) :
    ∃ st, run step (booted image mem)
        [.alloc true, .free (lastKernPage image) true] = some st ∧
      st.lost true = 1 := by
  obtain ⟨sys, hstep, hnext, hcontains⟩ := alloc_booted image mem
  have hzero : refCnt (sys.taken true).mem (lastKernPage image) ≠ 1 := by
    rw [← hnext, refCnt_taken]
    decide
  have hcontains' : ((sys.taken true).region true).Contains
      (lastKernPage image) := by
    rw [region_taken]
    exact (Region.contains_congr rfl rfl).mpr hcontains
  let st : PmemRun := ⟨sys.taken true, [lastKernPage image], fun _ => 0⟩
  have howned : lastKernPage image ∈ st.owned := List.mem_singleton_self _
  have hfree := step_free_of_ne howned hcontains' hzero
  exact ⟨_, run_cons.mpr ⟨_, hstep, run_cons.mpr ⟨_, hfree, rfl⟩⟩, rfl⟩

theorem pages_conserved_iff_untouched :
    ∃ st, run step (booted KernelImage.small 0)
        [.alloc true, .free (lastKernPage KernelImage.small) true] = some st ∧
      ((st.CountsFree true ↔ KernelImage.small.pages true = 0) ∧
        (Conserves KernelImage.small st true ↔
          Along step (FreesAtOne true) (booted KernelImage.small 0)
            [.alloc true, .free (lastKernPage KernelImage.small) true])) := by
  obtain ⟨st, hrun, _⟩ := free_untouched KernelImage.small 0
  exact ⟨st, hrun, pages_conserved_iff KernelImage.small 0 _ st hrun true⟩

/-- After one page was handed out and given back untouched, `allocable` is not
the length of the kernel's free list and the page is gone. -/
theorem untouched_page_is_lost :
    ∃ st, run step (booted KernelImage.small 0)
        [.alloc true, .free (lastKernPage KernelImage.small) true] = some st ∧
      ¬ st.CountsFree true ∧ ¬ Conserves KernelImage.small st true := by
  obtain ⟨st, hrun, hlost⟩ := free_untouched KernelImage.small 0
  have h := sound_run hrun
  refine ⟨st, hrun, ?_, ?_⟩
  · rw [h.countsFree_iff]
    decide
  · rw [h.conserves_iff, hlost]
    decide

end PmemRun

end UnoOS.Mem
