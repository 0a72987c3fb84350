import UnoOS.Mem.Pmem

namespace UnoOS.Mem

open UnoOS.Lib

/-! What the calls of `pmem.c` do to the free lists. -/

/-- The links from `p` lead through the pages of the list and end there. -/
def Chain (m : Memory) : UInt64 → List UInt64 → Prop
  | p, [] => p = 0
  | p, page :: l => p = page ∧ page ≠ 0 ∧ Chain m (m.load64 page.toNat) l

theorem Chain.congr {m m' : Memory} {p : UInt64} {l : List UInt64}
    (h : Chain m p l) (hsame : ∀ page ∈ l, SamePage page m m') :
    Chain m' p l := by
  induction l generalizing p with
  | nil => exact h
  | cons page l ih =>
      obtain ⟨hp, hne, hrest⟩ := h
      have hlink := (hsame page (by simp)).load64 0 (by omega)
      refine ⟨hp, hne, ?_⟩
      rw [Nat.add_zero] at hlink
      rw [hlink]
      exact ih hrest fun page' hmem => hsame page' (List.mem_cons_of_mem _ hmem)

theorem Chain.unique {m : Memory} {p : UInt64} {l l' : List UInt64}
    (h : Chain m p l) (h' : Chain m p l') : l = l' := by
  induction l generalizing p l' with
  | nil =>
      cases l' with
      | nil => rfl
      | cons page' l' => exact absurd (h'.1.symm.trans h) h'.2.1
  | cons page l ih =>
      cases l' with
      | nil => exact absurd (h.1.symm.trans h') h.2.1
      | cons page' l' =>
          have hpage : page = page' := h.1.symm.trans h'.1
          subst hpage
          rw [ih h.2.2 h'.2.2]

structure FreeList (s : MemState) (k : Bool) (l : List UInt64) : Prop where
  chain : Chain s.mem (s.region k).next l
  nodup : l.Nodup
  inRegion : ∀ page ∈ l, (s.region k).Contains page

theorem Region.Contains.aligned {region : Region} {page : UInt64}
    (h : region.Contains page) : page.toNat % 4096 = 0 :=
  (aligned_iff page).mp h.1

theorem Region.contains_congr {region region' : Region} {page : UInt64}
    (hbegin : region'.begin = region.begin) (hend : region'.end_ = region.end_) :
    region'.Contains page ↔ region.Contains page := by
  simp only [Region.Contains, hbegin, hend]

def refCnt (m : Memory) (page : UInt64) : UInt32 := m.load32 (refCntAddr page)

variable {s s' : MemState} {k k' : Bool} {page : UInt64} {l : List UInt64}

/-- A free list does not notice what happens off its pages. -/
theorem FreeList.congr (h : FreeList s k l)
    (hregion : s'.region k = s.region k)
    (hsame : ∀ page ∈ l, SamePage page s.mem s'.mem) : FreeList s' k l := by
  refine ⟨?_, h.nodup, ?_⟩
  · rw [hregion]
    exact h.chain.congr hsame
  · rw [hregion]
    exact h.inRegion

/-! `pmem_alloc`. -/

def MemState.taken (s : MemState) (k : Bool) : MemState :=
  let region := s.region k
  (s.setRegion k { region with
    next := s.mem.load64 region.next.toNat
    allocable := region.allocable - 1 }).setMem
      ((s.mem.store32 (refCntAddr region.next) 1).memset region.next.toNat 0 4096)

theorem pmemAlloc_eq_ok :
    pmemAlloc k s = .ok (page, s') ↔
      (s.region k).allocable ≠ 0 ∧ (s.region k).next ≠ 0 ∧
        page = (s.region k).next ∧ s' = s.taken k := by
  unfold pmemAlloc
  rw [readRegion_bind, massert_bind_eq_ok]
  dsimp only
  rw [massert_bind_eq_ok, readMem_bind, writeRegion_bind, updateMem_bind,
    updateMem_bind, Exec.pure_apply]
  simp only [MemState.mem_setRegion, MemState.mem_setMem, Except.ok.injEq,
    Prod.mk.injEq]
  refine and_congr_right fun _ => and_congr_right fun _ => ?_
  constructor
  · rintro ⟨rfl, rfl⟩
    exact ⟨rfl, rfl⟩
  · rintro ⟨rfl, rfl⟩
    exact ⟨rfl, rfl⟩

theorem region_taken :
    (s.taken k).region k = { s.region k with
      next := s.mem.load64 (s.region k).next.toNat
      allocable := (s.region k).allocable - 1 } := by
  simp [MemState.taken]

theorem region_taken_of_ne (h : k' ≠ k) :
    (s.taken k).region k' = s.region k' := by
  simp [MemState.taken, MemState.region_setRegion_of_ne _ _ _ _ h]

theorem onlyPage_taken :
    OnlyPage (s.region k).next s.mem (s.taken k).mem :=
  (onlyPage_store32 _ _ 8 1 (by omega)).trans (onlyPage_memset _ _ 0)

theorem taken_zero {x : Nat} (h : InPage (s.region k).next x) :
    (s.taken k).mem x = 0 := by
  simp only [MemState.taken, MemState.mem_setMem]
  exact Memory.write_of_mem h.1 h.2

theorem refCnt_taken : refCnt (s.taken k).mem (s.region k).next = 0 := by
  apply Memory.load32_of_zero
  intro i hi
  apply taken_zero
  unfold InPage refCntAddr
  omega

theorem FreeList.alloc (h : FreeList s k l)
    (hrun : pmemAlloc k s = .ok (page, s')) :
    ∃ rest, l = page :: rest ∧ FreeList s' k rest := by
  obtain ⟨_, hnext, rfl, rfl⟩ := pmemAlloc_eq_ok.mp hrun
  cases l with
  | nil => exact absurd h.chain hnext
  | cons first rest =>
      obtain ⟨hfirst, _, hrest⟩ := h.chain
      obtain ⟨hnot, hnodup⟩ := List.nodup_cons.mp h.nodup
      refine ⟨rest, by rw [hfirst], ?_, hnodup, ?_⟩
      · rw [region_taken]
        dsimp only
        rw [hfirst]
        refine hrest.congr ?_
        intro other hother
        have honly := onlyPage_taken (s := s) (k := k)
        rw [hfirst] at honly
        refine honly.samePage (h.inRegion _ (by simp)).aligned
          (h.inRegion _ (List.mem_cons_of_mem _ hother)).aligned ?_
        rintro rfl
        exact hnot hother
      · intro other hother
        rw [region_taken]
        exact h.inRegion other (List.mem_cons_of_mem _ hother)

theorem FreeList.alloc_returns (h : FreeList s k (page :: l))
    (hallocable : (s.region k).allocable ≠ 0) :
    pmemAlloc k s = .ok (page, s.taken k) := by
  obtain ⟨hfirst, hne, _⟩ := h.chain
  apply pmemAlloc_eq_ok.mpr
  exact ⟨hallocable, by rwa [hfirst], hfirst.symm, rfl⟩

def supply (s : MemState) (k : Bool) (l : List UInt64) : Nat :=
  min l.length (s.region k).allocable.toNat

/-- `pmem_alloc` hands out a page as long as there is a supply, else it panics. -/
theorem FreeList.alloc_cases (h : FreeList s k l) :
    (∃ page rest, l = page :: rest ∧ pmemAlloc k s = .ok (page, s.taken k) ∧
      supply (s.taken k) k rest + 1 = supply s k l) ∨
    (supply s k l = 0 ∧ ∃ message, pmemAlloc k s = .error (.panic message)) := by
  by_cases hempty : (s.region k).allocable = 0
  · refine .inr ⟨by simp [supply, hempty], "There is no empty page.", ?_⟩
    unfold pmemAlloc massert
    rw [readRegion_bind]
    exact Exec.bind_eq_error.mpr
      (.inl (by rw [Exec.require, if_neg fun hne => hne hempty]; rfl))
  · cases l with
    | nil =>
        have hnext : (s.region k).next = 0 := h.chain
        refine .inr ⟨by simp [supply], "Failed to allocate physical page!", ?_⟩
        unfold pmemAlloc massert
        rw [readRegion_bind, Exec.require_of_true hempty, pure_bind]
        exact Exec.bind_eq_error.mpr
          (.inl (by rw [Exec.require, if_neg fun hne => hne hnext]; rfl))
    | cons page rest =>
        refine .inl ⟨page, rest, rfl, h.alloc_returns hempty, ?_⟩
        have hone : (1 : UInt32) ≤ (s.region k).allocable := by
          rw [UInt32.le_iff_toNat_le]
          have hne : (s.region k).allocable.toNat ≠ 0 :=
            fun heq => hempty (UInt32.toNat_inj.mp heq)
          change 1 ≤ _
          omega
        have hless := UInt32.le_iff_toNat_le.mp hone
        change 1 ≤ _ at hless
        have hleft : ((s.region k).allocable - 1).toNat =
            (s.region k).allocable.toNat - 1 :=
          UInt32.toNat_sub_of_le _ _ hone
        unfold supply
        rw [region_taken, List.length_cons, hleft]
        omega

/-! `pmem_free`. -/

def MemState.counted (s : MemState) (page : UInt64) : MemState :=
  { s with
    mem := s.mem.store32 (refCntAddr page) (refCnt s.mem page - 1)
    freed := page :: s.freed }

def MemState.pushed (s : MemState) (page : UInt64) (k : Bool) : MemState :=
  { (s.counted page).setRegion k { s.region k with
      next := page
      allocable := (s.region k).allocable + 1 } with
    mem := ((s.counted page).mem.memset page.toNat 1 4096).store64 page.toNat
      (s.region k).next }

theorem pmemFree_eq_ok {value : Unit} :
    pmemFree page k s = .ok (value, s') ↔
      (s.region k).Contains page ∧
        s' = if refCnt s.mem page = 1 then s.pushed page k
          else s.counted page := by
  have hone : refCnt s.mem page - 1 = 0 ↔ refCnt s.mem page = 1 := sub_eq_zero
  have hregion : ∀ log : List UInt64,
      ({ s with freed := log } : MemState).region k = s.region k := by
    intro log
    cases k <;> rfl
  unfold pmemFree
  rw [logFree_bind, readRegion_bind, massert_bind_eq_ok, hregion, readMem_bind,
    updateMem_bind]
  refine and_congr_right fun _ => ?_
  change (if refCnt s.mem page - 1 ≠ 0 then (_ : MemM Unit) else _) _ = _ ↔ _
  by_cases h : refCnt s.mem page = 1
  · rw [if_pos h, if_neg (by simpa using hone.mpr h), updateMem_bind,
      updateMem_bind]
    cases k
    · constructor
      · intro heq
        cases heq
        rfl
      · rintro rfl
        rfl
    · constructor
      · intro heq
        cases heq
        rfl
      · rintro rfl
        rfl
  · rw [if_neg h, if_pos (fun hzero => h (hone.mp hzero))]
    constructor
    · intro heq
      cases heq
      rfl
    · rintro rfl
      rfl

theorem onlyPage_counted : OnlyPage page s.mem (s.counted page).mem :=
  onlyPage_store32 _ _ 8 _ (by omega)

theorem onlyPage_pushed : OnlyPage page s.mem (s.pushed page k).mem := by
  have hjunk := onlyPage_memset page (s.counted page).mem 1
  exact (onlyPage_counted.trans hjunk).trans
    (onlyPage_store64 page _ 0 _ (by omega))

theorem region_counted : (s.counted page).region k = s.region k := by
  cases k <;> rfl

theorem region_pushed :
    (s.pushed page k).region k = { s.region k with
      next := page
      allocable := (s.region k).allocable + 1 } := by
  cases k <;> rfl

theorem region_pushed_of_ne (h : k' ≠ k) :
    (s.pushed page k).region k' = s.region k' := by
  cases k <;> cases k' <;> first | rfl | exact absurd rfl h

theorem pmemFree_onlyPage {value : Unit}
    (hrun : pmemFree page k s = .ok (value, s')) :
    OnlyPage page s.mem s'.mem := by
  obtain ⟨_, rfl⟩ := pmemFree_eq_ok.mp hrun
  split
  · exact onlyPage_pushed
  · exact onlyPage_counted

theorem FreeList.counted (h : FreeList s k l) (hnot : page ∉ l)
    (haligned : page.toNat % 4096 = 0) : FreeList (s.counted page) k l := by
  refine h.congr region_counted ?_
  intro other hother
  refine onlyPage_counted.samePage haligned (h.inRegion _ hother).aligned ?_
  rintro rfl
  exact hnot hother

theorem FreeList.pushed (h : FreeList s k l) (hnot : page ∉ l)
    (hcontains : (s.region k).Contains page) (hne : page ≠ 0) :
    FreeList (s.pushed page k) k (page :: l) := by
  have hlink : (s.pushed page k).mem.load64 page.toNat = (s.region k).next :=
    Memory.load64_store64_self _ _ _
  refine ⟨?_, List.nodup_cons.mpr ⟨hnot, h.nodup⟩, ?_⟩
  · rw [region_pushed]
    refine ⟨rfl, hne, ?_⟩
    rw [hlink]
    refine h.chain.congr ?_
    intro other hother
    refine onlyPage_pushed.samePage hcontains.aligned
      (h.inRegion _ hother).aligned ?_
    rintro rfl
    exact hnot hother
  · intro other hother
    rw [region_pushed]
    rcases List.mem_cons.mp hother with rfl | hother
    · exact hcontains
    · exact h.inRegion other hother

/-! `free_range` and `pmem_init`. -/

def pageRun : UInt64 → Nat → List UInt64
  | _, 0 => []
  | p, pages + 1 => p :: pageRun (p + pgsize) pages

@[simp] theorem length_pageRun (p : UInt64) (n : Nat) :
    (pageRun p n).length = n := by
  induction n generalizing p with
  | zero => rfl
  | succ n ih => simp [pageRun, ih]

theorem add_pgsize_toNat {p : UInt64} (h : p.toNat + 4096 < 2 ^ 64) :
    (p + pgsize).toNat = p.toNat + 4096 := by
  rw [UInt64.toNat_add]
  exact Nat.mod_eq_of_lt h

theorem mem_pageRun {p q : UInt64} {n : Nat}
    (h : p.toNat + n * 4096 < 2 ^ 64) :
    q ∈ pageRun p n ↔ ∃ i < n, q.toNat = p.toNat + i * 4096 := by
  induction n generalizing p with
  | zero => simp [pageRun]
  | succ n ih =>
      have hroom : p.toNat + 4096 < 2 ^ 64 := by omega
      have hnext := add_pgsize_toNat hroom
      rw [pageRun, List.mem_cons, ih (by omega), hnext]
      constructor
      · rintro (rfl | ⟨i, hi, hq⟩)
        · exact ⟨0, by omega, by omega⟩
        · exact ⟨i + 1, by omega, by omega⟩
      · rintro ⟨i, hi, hq⟩
        cases i with
        | zero => exact .inl (UInt64.toNat_inj.mp (by omega))
        | succ i => exact .inr ⟨i, by omega, by omega⟩

theorem nodup_pageRun {p : UInt64} {n : Nat}
    (h : p.toNat + n * 4096 < 2 ^ 64) : (pageRun p n).Nodup := by
  induction n generalizing p with
  | zero => exact List.nodup_nil
  | succ n ih =>
      have hroom : p.toNat + 4096 < 2 ^ 64 := by omega
      have hnext := add_pgsize_toNat hroom
      refine List.nodup_cons.mpr ⟨?_, ih (by omega)⟩
      rw [mem_pageRun (by omega)]
      rintro ⟨i, _, hp⟩
      omega

theorem pageRun_succ (p : UInt64) (n : Nat) :
    pageRun p (n + 1) = pageRun p n ++ [p + UInt64.ofNat n * pgsize] := by
  induction n generalizing p with
  | zero => simp [pageRun]
  | succ n ih =>
      have hlast : p + pgsize + UInt64.ofNat n * pgsize =
          p + UInt64.ofNat (n + 1) * pgsize := by
        rw [UInt64.ofNat_add]
        grind
      rw [pageRun, ih, hlast]
      rfl

structure RangeFreed (s s' : MemState) (k : Bool) (pages : List UInt64) :
    Prop where
  begin : (s'.region k).begin = (s.region k).begin
  end_ : (s'.region k).end_ = (s.region k).end_
  allocable : (s'.region k).allocable =
    (s.region k).allocable + UInt32.ofNat pages.length
  other : ∀ k', k' ≠ k → s'.region k' = s.region k'
  mem : ∀ x, (∀ page ∈ pages, ¬ InPage page x) → s'.mem x = s.mem x

theorem freeRangeLoop_spec {n : Nat} {p : UInt64} (h : FreeList s k l)
    (hnodup : (pageRun p n).Nodup)
    (hpages : ∀ q ∈ pageRun p n, (s.region k).Contains q ∧ q ∉ l ∧ q ≠ 0) :
    ∃ s', freeRangeLoop k n p s = .ok ((), s') ∧
      FreeList s' k ((pageRun p n).reverse ++ l) ∧
      RangeFreed s s' k (pageRun p n) := by
  induction n generalizing s p l with
  | zero =>
      refine ⟨s, rfl, h, rfl, rfl, ?_, fun _ _ => rfl, fun _ _ => rfl⟩
      simp [pageRun]
  | succ n ih =>
      obtain ⟨hp, hrest⟩ := List.nodup_cons.mp hnodup
      obtain ⟨hcontains, hnot, hne⟩ := hpages p (by simp [pageRun])
      -- the count is set to one, so the page goes on the list
      let s₁ := s.setMem (s.mem.store32 (refCntAddr p) 1)
      have honly : OnlyPage p s.mem s₁.mem := onlyPage_store32 p _ 8 1 (by omega)
      have hlist₁ : FreeList s₁ k l := by
        refine h.congr rfl ?_
        intro other hother
        refine honly.samePage hcontains.aligned
          (h.inRegion _ hother).aligned ?_
        rintro rfl
        exact hnot hother
      have hone : refCnt s₁.mem p = 1 := Memory.load32_store32_self _ _ _
      have hfree : pmemFree p k s₁ = .ok ((), s₁.pushed p k) := by
        apply pmemFree_eq_ok.mpr
        rw [if_pos hone]
        exact ⟨hcontains, rfl⟩
      have hlist₂ := hlist₁.pushed hnot hcontains hne
      have hbounds : ∀ q, ((s₁.pushed p k).region k).Contains q ↔
          (s.region k).Contains q := by
        intro q
        rw [region_pushed]
        exact Region.contains_congr rfl rfl
      obtain ⟨s', hrun, hlist, hbegin, hend, hcount, hother, hmem⟩ := ih hlist₂ hrest (by
        intro q hq
        obtain ⟨hin, hql, hq0⟩ := hpages q (List.mem_cons_of_mem _ hq)
        refine ⟨(hbounds q).mpr hin, ?_, hq0⟩
        rintro (_ | ⟨_, hmem⟩)
        · exact hp hq
        · exact hql hmem)
      refine ⟨s', ?_, ?_, ?_, ?_, ?_, ?_, ?_⟩
      · rw [freeRangeLoop, updateMem_bind, Exec.bind_of_ok hfree]
        exact hrun
      · rw [pageRun, List.reverse_cons, List.append_assoc]
        exact hlist
      · rw [hbegin, region_pushed]
        rfl
      · rw [hend, region_pushed]
        rfl
      · rw [hcount, region_pushed, length_pageRun, length_pageRun,
          UInt32.ofNat_add]
        change (s.region k).allocable + 1 + UInt32.ofNat n = _
        grind
      · intro k' hk'
        rw [hother k' hk', region_pushed_of_ne hk']
        rfl
      · intro x hx
        have hxp := hx p (by simp [pageRun])
        rw [hmem x fun page hpage => hx page (List.mem_cons_of_mem _ hpage),
          onlyPage_pushed x hxp, honly x hxp]

end UnoOS.Mem
