import UnoOS.Lib.Transition
import UnoOS.Mem.KvmLaws

namespace UnoOS.Mem

open UnoOS.Lib

/-! Page tables as finite maps from pages to entries, over runs of
`vm_mappages` and `vm_unmappages`. -/

def walkOf (s : MemState) (pgtbl va : UInt64) : Option UInt64 :=
  match vmGetpte pgtbl va false s with
  | .ok (some pte, _) => validEntry (s.mem.load64 pte)
  | _ => none

theorem walkOf_eq {s : MemState} {pgtbl va : UInt64} (hpgtbl : pgtbl ≠ 0)
    (hva : va ≤ vaMax) : walkOf s pgtbl va = translate s.mem pgtbl va := by
  unfold walkOf translate
  rw [vmGetpte_reads hva hpgtbl]
  cases leafTable s.mem pgtbl va <;> rfl

abbrev PageMap := UInt64 → UInt64 → Option UInt64

inductive VmCall where
  | map (pgtbl va pa len perm : UInt64)
  | unmap (pgtbl va len : UInt64) (freeit : Bool)

/-- The address lies in a page of `[va, va + len)`. -/
def InRange (va len x : UInt64) : Prop :=
  va ≤ pgrounddown x ∧ pgrounddown x ≤ pgrounddown (va + len - 1)

instance (va len x : UInt64) : Decidable (InRange va len x) :=
  inferInstanceAs (Decidable (_ ∧ _))

def mapEntry (pa perm : UInt64) : UInt64 := paToPte pa ||| perm ||| pteV

namespace VmCall

def exec : VmCall → MemM Unit
  | .map pgtbl va pa len perm => vmMappages pgtbl va pa len perm
  | .unmap pgtbl va len freeit => vmUnmappages pgtbl va len freeit

def step (s : MemState) (call : VmCall) : Option MemState :=
  match call.exec s with
  | .ok (_, s') => some s'
  | .error _ => none

def apply (pages : PageMap) : VmCall → PageMap
  | .map pgtbl va pa len perm => fun r x =>
      if r = pgtbl ∧ InRange va len x then
        some (mapEntry (pa + (pgrounddown x - va)) perm)
      else pages r x
  | .unmap pgtbl va len _ => fun r x =>
      if r = pgtbl ∧ InRange va len x then none else pages r x

def frees (pages : PageMap) : VmCall → List UInt64
  | .unmap pgtbl va len true =>
      framesOf (pages pgtbl) va ((len.toNat + 4095) / 4096)
  | _ => []

def applyAll (pages : PageMap) (calls : List VmCall) : PageMap :=
  calls.foldl apply pages

def freesAll : PageMap → List VmCall → List UInt64
  | _, [] => []
  | pages, call :: calls => call.frees pages ++ freesAll (call.apply pages) calls

/-- The call is about one of the tables, its range does not wrap, and
`pmem_alloc` has only frames that are in no table. -/
def Assumed (roots : Set UInt64) (s : MemState) : VmCall → Prop
  | .map pgtbl va _ len _ =>
      pgtbl ∈ roots ∧ va.toNat + len.toNat < 2 ^ 64 ∧ ∃ l, FreshFrames s roots l
  | .unmap pgtbl va len _ => pgtbl ∈ roots ∧ va.toNat + len.toNat < 2 ^ 64

/-- No frame that the call frees is a page of a table. -/
def SparesTables (roots : Set UInt64) (s : MemState) (call : VmCall) : Prop :=
  ∀ page ∈ call.frees (walkOf s), ¬ IsTable s.mem roots page

variable {roots : Set UInt64} {s s' : MemState} {call : VmCall}

theorem inRange_iff {va len x : UInt64} (haligned : va % pgsize = 0)
    (hlen : 0 < len) (hwrap : va.toNat + len.toNat < 2 ^ 64) :
    InRange va len x ↔ va.toNat / 4096 ≤ x.toNat / 4096 ∧
      x.toNat / 4096 < va.toNat / 4096 + (len.toNat + 4095) / 4096 := by
  have hva := (aligned_iff va).mp haligned
  have hpos : 0 < len.toNat := UInt64.lt_iff_toNat_lt.mp hlen
  have hlast : (va + len - 1).toNat = va.toNat + len.toNat - 1 := by
    rw [UInt64.toNat_sub_of_le, UInt64.toNat_add, Nat.mod_eq_of_lt hwrap]
    · rfl
    · rw [UInt64.le_iff_toNat_le, UInt64.toNat_add, Nat.mod_eq_of_lt hwrap]
      change 1 ≤ _
      omega
  unfold InRange
  rw [UInt64.le_iff_toNat_le, UInt64.le_iff_toNat_le, pgrounddown_toNat,
    pgrounddown_toNat, hlast]
  omega

theorem distance_eq {va x : UInt64} (haligned : va % pgsize = 0)
    (hle : va.toNat / 4096 ≤ x.toNat / 4096) :
    UInt64.ofNat (x.toNat / 4096 - va.toNat / 4096) * pgsize =
      pgrounddown x - va := by
  have hva := (aligned_iff va).mp haligned
  have hx := x.toNat_lt
  apply UInt64.toNat_inj.mp
  rw [UInt64.toNat_sub_of_le, pgrounddown_toNat, UInt64.toNat_mul,
    UInt64.toNat_ofNat']
  · change _ * 4096 % _ = _
    omega
  · rw [UInt64.le_iff_toNat_le, pgrounddown_toNat]
    omega

theorem exec_of_step (hstep : step s call = some s') :
    ∃ value, call.exec s = .ok (value, s') := by
  unfold step at hstep
  cases hrun : call.exec s with
  | error reason =>
      rw [hrun] at hstep
      cases hstep
  | ok result =>
      rw [hrun] at hstep
      cases hstep
      exact ⟨_, rfl⟩

theorem vmUnmappages_range {pgtbl va len : UInt64} {freeit : Bool} {value : Unit}
    (hwrap : va.toNat + len.toNat < 2 ^ 64)
    (hrun : vmUnmappages pgtbl va len freeit s = .ok (value, s')) :
    va % pgsize = 0 ∧ 0 < len ∧
      va.toNat + (len.toNat + 4095) / 4096 * 4096 ≤ 2 ^ 38 := by
  unfold vmUnmappages at hrun
  rw [massert_bind_eq_ok, massert_bind_eq_ok, massert_bind_eq_ok] at hrun
  obtain ⟨haligned, hlen, hmax, _⟩ := hrun
  have hroom := pageCount_room haligned hlen hwrap hmax
  rw [pageCount_spec haligned hlen hwrap] at hroom
  exact ⟨haligned, hlen, hroom⟩

theorem step_refines (htables : PageTables s.mem roots)
    (hassumed : call.Assumed roots s) (hspares : call.SparesTables roots s)
    (hstep : step s call = some s') :
    PageTables s'.mem roots ∧
      (∀ root ∈ roots, ∀ va, va < vaMax →
        walkOf s' root va = call.apply (walkOf s) root va) ∧
      s'.freed = (call.frees (walkOf s)).reverse ++ s.freed := by
  have hwalk : ∀ (s : MemState) (root : UInt64), root ∈ roots →
      ∀ va, va < vaMax → walkOf s root va = translate s.mem root va := by
    intro s root hroot va hva
    exact walkOf_eq (htables.nonzero root hroot) (UInt64.le_of_lt hva)
  cases call with
  | map pgtbl va pa len perm =>
      obtain ⟨hpgtbl, hwrap, l, hframes⟩ := hassumed
      obtain ⟨_, hrun⟩ := exec_of_step hstep
      obtain ⟨l', hmapped⟩ := vmMappages_spec htables hframes hpgtbl hwrap hrun
      simp only [exec, vmMappages] at hrun
      rw [massert_bind_eq_ok, massert_bind_eq_ok] at hrun
      obtain ⟨⟨haligned, _⟩, hlen, _⟩ := hrun
      refine ⟨hmapped.tables, ?_, hmapped.freed⟩
      intro root hroot x hx
      rw [hwalk _ root hroot x hx]
      by_cases hsame : root = pgtbl
      · subst hsame
        rw [hmapped.translate x hx]
        simp only [apply, setPages, inRange_iff haligned hlen hwrap, true_and]
        split
        · next hin =>
          rw [mappedEntry, distance_eq haligned hin.1]
          rfl
        · exact (hwalk s root hroot x hx).symm
      · rw [hmapped.others root hroot hsame x hx]
        simp only [apply, hsame, false_and, if_false]
        exact (hwalk s root hroot x hx).symm
  | unmap pgtbl va len freeit =>
      obtain ⟨hpgtbl, hwrap⟩ := hassumed
      obtain ⟨_, hrun⟩ := exec_of_step hstep
      obtain ⟨haligned, hlen, hroom⟩ := vmUnmappages_range hwrap hrun
      have hframes : framesOf (translate s.mem pgtbl) va
          ((len.toNat + 4095) / 4096) =
          framesOf (walkOf s pgtbl) va ((len.toNat + 4095) / 4096) := by
        apply framesOf_congr hroom
        intro x _ hx
        refine (hwalk s pgtbl hpgtbl x ?_).symm
        rw [UInt64.lt_iff_toNat_lt]
        change _ < 2 ^ 38
        omega
      obtain ⟨_, hunmapped⟩ := vmUnmappages_spec htables hpgtbl hwrap (by
        intro hfreeit page hpage
        rw [hframes] at hpage
        subst hfreeit
        exact hspares page hpage) hrun
      refine ⟨hunmapped.tables, ?_, ?_⟩
      · intro root hroot x hx
        rw [hwalk _ root hroot x hx]
        by_cases hsame : root = pgtbl
        · subst hsame
          rw [hunmapped.translate x hx]
          simp only [apply, setPages, inRange_iff haligned hlen hwrap, true_and]
          split
          · rfl
          · exact (hwalk s root hroot x hx).symm
        · rw [hunmapped.others root hroot hsame x hx]
          simp only [apply, hsame, false_and, if_false]
          exact (hwalk s root hroot x hx).symm
      · rw [hunmapped.freed, hframes]
        cases freeit <;> rfl

/-- The calls agree on what they free when the maps agree on the pages that
`vm_unmappages` accepts. -/
theorem frees_congr {pages pages' : PageMap} (hassumed : call.Assumed roots s)
    (hstep : step s call = some s')
    (h : ∀ root ∈ roots, ∀ va, va < vaMax → pages root va = pages' root va) :
    call.frees pages = call.frees pages' := by
  cases call with
  | map pgtbl va pa len perm => rfl
  | unmap pgtbl va len freeit =>
      cases freeit with
      | false => rfl
      | true =>
          obtain ⟨hpgtbl, hwrap⟩ := hassumed
          obtain ⟨_, hrun⟩ := exec_of_step hstep
          obtain ⟨_, _, hroom⟩ := vmUnmappages_range hwrap hrun
          apply framesOf_congr hroom
          intro x _ hx
          apply h pgtbl hpgtbl
          rw [UInt64.lt_iff_toNat_lt]
          change _ < 2 ^ 38
          omega

theorem apply_congr {pages pages' : PageMap} (call : VmCall) {root va : UInt64}
    (h : pages root va = pages' root va) :
    call.apply pages root va = call.apply pages' root va := by
  cases call <;> simp only [apply, h]

/-- A run of calls keeps step with any map that agrees with the tables at the
start. -/
theorem run_refines {calls : List VmCall} {pages : PageMap}
    (htables : PageTables s.mem roots)
    (hpages : ∀ root ∈ roots, ∀ va, va < vaMax → walkOf s root va = pages root va)
    (halong : Along step
      (fun s call => call.Assumed roots s ∧ call.SparesTables roots s) s calls)
    (hrun : run step s calls = some s') :
    PageTables s'.mem roots ∧
      (∀ root ∈ roots, ∀ va, va < vaMax →
        walkOf s' root va = applyAll pages calls root va) ∧
      s'.freed = (freesAll pages calls).reverse ++ s.freed := by
  induction calls generalizing s pages with
  | nil =>
      cases hrun
      exact ⟨htables, hpages, rfl⟩
  | cons call calls ih =>
      obtain ⟨middle, hstep, hrest⟩ := run_cons.mp hrun
      obtain ⟨⟨hassumed, hspares⟩, halong⟩ := halong
      obtain ⟨htables', hwalk, hfreed⟩ :=
        step_refines htables hassumed hspares hstep
      have hpages' : ∀ root ∈ roots, ∀ va, va < vaMax →
          walkOf middle root va = call.apply pages root va := by
        intro root hroot va hva
        rw [hwalk root hroot va hva]
        exact apply_congr call (hpages root hroot va hva)
      obtain ⟨htables'', hwalk', hfreed'⟩ :=
        ih htables' hpages' (halong middle hstep) hrest
      refine ⟨htables'', hwalk', ?_⟩
      rw [hfreed', hfreed, frees_congr hassumed hstep hpages]
      simp only [freesAll, List.reverse_append, List.append_assoc]

theorem mapEntry_parts {pa perm : UInt64} (hpa : pa % pgsize = 0)
    (hperm : perm.toNat < 1024) :
    pteToPa (mapEntry pa perm) = pa ∧
      pteFlags (mapEntry pa perm) = perm ||| pteV := by
  have hflags : (perm ||| pteV).toNat < 1024 := flags_or_lt hperm (by decide)
  unfold mapEntry
  rw [UInt64.or_assoc]
  exact ⟨pteToPa_entry ((aligned_iff pa).mp hpa) hflags, pteFlags_entry hflags⟩

/-- The three-level walk computes the map that the calls describe. -/
theorem calls_refine_map {roots : Set UInt64} {s s' : MemState}
    {calls : List VmCall} (htables : PageTables s.mem roots)
    (hassumed : Along step (fun s call => call.Assumed roots s) s calls)
    (hspares : Along step (fun s call => call.SparesTables roots s) s calls)
    (hrun : run step s calls = some s') :
    (∀ root ∈ roots, ∀ va, va < vaMax →
        walkOf s' root va = applyAll (walkOf s) calls root va) ∧
      s'.freed = (freesAll (walkOf s) calls).reverse ++ s.freed ∧
      ∀ pa perm : UInt64, pa % pgsize = 0 → perm.toNat < 1024 →
        pteToPa (mapEntry pa perm) = pa ∧
          pteFlags (mapEntry pa perm) = perm ||| pteV := by
  have h := run_refines htables (fun _ _ _ _ => rfl) (hassumed.and hspares) hrun
  exact ⟨h.2.1, h.2.2, fun _ _ => mapEntry_parts⟩

/-! A kernel page table with no entries, and three free pages. -/

def emptyTable : MemState where
  mem := (Memory.store64 (fun _ => 0) 0x2000 0x3000).store64 0x3000 0x4000
  kernRegion := { begin := 0x1000, end_ := 0x9000, allocable := 3, next := 0x2000 }
  userRegion := { begin := 0x9000, end_ := 0x9000, allocable := 0, next := 0 }
  kernelPgtbl := 0x1000
  freed := []

theorem emptyTable_links : ∀ idx, links emptyTable.mem 0x1000 idx = none := by
  decide +kernel

theorem emptyTable_walk {p : List Vpn} {t : UInt64}
    (h : Radix.walk (links emptyTable.mem) 0x1000 p = some t) :
    p = [] ∧ t = 0x1000 := by
  cases p with
  | nil => exact ⟨rfl, (Option.some_inj.mp h).symm⟩
  | cons idx p =>
      rw [Radix.walk, emptyTable_links] at h
      cases h

theorem emptyTable_tables : PageTables emptyTable.mem {0x1000} := by
  refine ⟨?_, ?_, ?_⟩
  · intro r hr r' hr' p p' _ _ t hwalk hwalk'
    rw [Set.mem_singleton_iff] at hr hr'
    rw [hr] at hwalk ⊢
    rw [hr'] at hwalk' ⊢
    exact ⟨rfl, (emptyTable_walk hwalk).1.trans (emptyTable_walk hwalk').1.symm⟩
  · intro root hroot
    rw [Set.mem_singleton_iff.mp hroot]
    decide
  · intro root hroot
    rw [Set.mem_singleton_iff.mp hroot]
    decide

theorem emptyTable_isTable {t : UInt64} (h : IsTable emptyTable.mem {0x1000} t) :
    t = 0x1000 := by
  obtain ⟨r, hr, p, _, hwalk⟩ := h
  rw [Set.mem_singleton_iff.mp hr] at hwalk
  exact (emptyTable_walk hwalk).2

theorem emptyTable_frames :
    FreshFrames emptyTable {0x1000} [0x2000, 0x3000, 0x4000] := by
  refine ⟨⟨?_, by decide, ?_⟩, ?_⟩
  · have hnext : (emptyTable.region true).next = 0x2000 := rfl
    rw [hnext]
    simp only [Chain, true_and]
    decide +kernel
  · intro page hpage
    simp only [List.mem_cons, List.not_mem_nil, or_false] at hpage
    unfold Region.Contains
    rcases hpage with hpage | hpage | hpage <;> subst hpage <;> decide +kernel
  · intro page hpage htable
    rw [emptyTable_isTable htable] at hpage
    revert hpage
    decide

/-- After a page was mapped in the empty table, the tables are its root and
pages that were free. -/
theorem emptyTable_mapped {s₁ : MemState} {va pa len perm : UInt64}
    (hwrap : va.toNat + len.toNat < 2 ^ 64)
    (hstep : step emptyTable (.map 0x1000 va pa len perm) = some s₁) :
    (∃ l, FreshFrames s₁ {0x1000} l) ∧
      ∀ t, IsTable s₁.mem {0x1000} t →
        t ∈ [(0x1000 : UInt64), 0x2000, 0x3000, 0x4000] := by
  obtain ⟨_, hexec⟩ := exec_of_step hstep
  obtain ⟨l', hmap⟩ := vmMappages_spec emptyTable_tables emptyTable_frames
    (Set.mem_singleton _) hwrap hexec
  refine ⟨⟨l', hmap.frames⟩, ?_⟩
  intro t htable
  rcases hmap.added t htable with htable | hmem
  · rw [emptyTable_isTable htable]
    exact List.mem_cons_self
  · exact List.mem_cons_of_mem _ hmem

def mapAndUnmap : List VmCall :=
  [.map 0x1000 0x5000 0x7000 100 2, .unmap 0x1000 0x5000 100 true]

theorem calls_refine_map_and_unmap :
    (run step emptyTable mapAndUnmap).map
      (fun s' => (walkOf s' 0x1000 0x5000, s'.freed)) = some (none, [0x7000]) := by
  have hdone : (run step emptyTable mapAndUnmap).isSome := by
    decide +kernel
  obtain ⟨s', hrun⟩ := Option.isSome_iff_exists.mp hdone
  have hmapped : (step emptyTable (.map 0x1000 0x5000 0x7000 100 2)).map
      (fun s₁ => (VmCall.unmap 0x1000 0x5000 100 true).frees (walkOf s₁)) =
        some [0x7000] := by
    decide +kernel
  have hassumed : Along step (fun s call => call.Assumed {0x1000} s) emptyTable
      mapAndUnmap := by
    refine ⟨⟨Set.mem_singleton _, by decide, _, emptyTable_frames⟩, ?_⟩
    intro s₁ _
    refine ⟨⟨Set.mem_singleton _, by decide⟩, ?_⟩
    intro s₂ _
    trivial
  have hspares : Along step (fun s call => call.SparesTables {0x1000} s)
      emptyTable mapAndUnmap := by
    refine ⟨fun page hpage => absurd hpage List.not_mem_nil, ?_⟩
    intro s₁ hstep
    refine ⟨?_, fun s₂ _ => trivial⟩
    rw [hstep, Option.map_some, Option.some_inj] at hmapped
    intro page hpage htable
    rw [hmapped, List.mem_singleton] at hpage
    rw [hpage] at htable
    exact absurd ((emptyTable_mapped (by decide) hstep).2 _ htable) (by decide)
  have h := calls_refine_map emptyTable_tables hassumed hspares hrun
  have hwalk : walkOf s' 0x1000 0x5000 = none :=
    (h.1 0x1000 (Set.mem_singleton _) 0x5000 (by decide)).trans
      (by decide +kernel)
  have hfreed : s'.freed = [0x7000] := h.2.1.trans (by decide +kernel)
  rw [hrun, Option.map_some, hwalk, hfreed]

/-- The frame of the first call becomes the last table of its own entry;
`pmem_free` then counts down in the entry of the second. -/
def freeTable : List VmCall :=
  [.map 0x1000 0 0x3000 4096 2, .map 0x1000 0x1000 0x7000 4096 2,
    .unmap 0x1000 0 4096 true]

theorem freeTable_assumed : Along step (fun s call => call.Assumed {0x1000} s)
    emptyTable freeTable := by
  refine ⟨⟨Set.mem_singleton _, by decide, _, emptyTable_frames⟩, ?_⟩
  intro s₁ hstep
  refine ⟨⟨Set.mem_singleton _, by decide, ?_⟩, ?_⟩
  · exact (emptyTable_mapped (by decide) hstep).1
  · intro s₂ _
    refine ⟨⟨Set.mem_singleton _, by decide⟩, ?_⟩
    intro s₃ _
    trivial

theorem freed_table_loses_page :
    ¬ ∀ (roots : Set UInt64) (s s' : MemState) (calls : List VmCall),
      PageTables s.mem roots →
      Along step (fun s call => call.Assumed roots s) s calls →
      run step s calls = some s' →
      ∀ root ∈ roots, ∀ va, va < vaMax →
        walkOf s' root va = applyAll (walkOf s) calls root va := by
  intro h
  have hlost : (run step emptyTable freeTable).map
      (fun s' => walkOf s' 0x1000 0x1000) = some none := by
    decide +kernel
  obtain ⟨s', hrun, hwalk⟩ := Option.map_eq_some_iff.mp hlost
  have hkept := h {0x1000} emptyTable s' freeTable emptyTable_tables
    freeTable_assumed hrun 0x1000 (Set.mem_singleton _) 0x1000 (by decide)
  rw [hwalk] at hkept
  revert hkept
  decide +kernel

end VmCall

end UnoOS.Mem
