import UnoOS.Mem.PageMap

namespace UnoOS.Mem

open UnoOS.Lib
open UnoOS.Lib.Radix (walk)

/-! `vm_mappages` over pages that are mapped already.  The check in the loop compares
the frame of every page with that of the first one. -/

def pageAt (va : UInt64) (i : Nat) : UInt64 := va + UInt64.ofNat i * pgsize

def tablePaths : (beg : UInt64) → (pages : Nat) → Finset (List Vpn)
  | _, 0 => ∅
  | beg, pages + 1 => pathsFrom beg pgtableToplevel [] ∪ tablePaths (beg + pgsize) pages

def RangeMapped (m : Memory) (root va pa : UInt64) (pages : Nat) : Prop :=
  ∀ i, i < pages →
    (translate m root (pageAt va i)).map pteToPa = some (pageAt pa i)

/-- Some page is mapped to another frame than its own. -/
def WronglyMapped (m : Memory) (root va pa : UInt64) (pages : Nat) : Prop :=
  ∃ i, i < pages ∧ ∃ pte, translate m root (pageAt va i) = some pte ∧
    pteToPa pte ≠ pageAt pa i

def OneFrame (m : Memory) (root va pa : UInt64) (pages : Nat) : Prop :=
  ∀ i, i < pages → ∀ pte, translate m root (pageAt va i) = some pte → pteToPa pte = pa

/-- Nothing but the permissions in the entries of the range changed. -/
structure OnlyPermissions (s s' : MemState) (roots : Set UInt64)
    (root va len : UInt64) : Prop where
  tables : PageTables s'.mem roots
  frames : ∀ r ∈ roots, ∀ x, x < vaMax →
    (translate s'.mem r x).map pteToPa = (translate s.mem r x).map pteToPa
  others : ∀ r ∈ roots, ∀ x, x < vaMax → ¬ (r = root ∧ InRange va len x) →
    translate s'.mem r x = translate s.mem r x
  mem : ∀ page, page.toNat % 4096 = 0 → ¬ IsTable s.mem roots page →
    SamePage page s.mem s'.mem
  rest : s' = s.setMem s'.mem

/-- Mapping a range again where it is mapped changes the permissions, and once more
nothing; mapping it where another frame is mapped panics. -/
def RemapChecked (s : MemState) (roots : Set UInt64) (root va pa len perm : UInt64) :
    Prop :=
  (RangeMapped s.mem root va pa (pageCount va len) →
    ∃ s', vmMappages root va pa len perm s = .ok ((), s') ∧
      OnlyPermissions s s' roots root va len ∧
      vmMappages root va pa len perm s' = .ok ((), s')) ∧
  (WronglyMapped s.mem root va pa (pageCount va len) →
    ∃ message, vmMappages root va pa len perm s = .error (.panic message))

variable {s s' : MemState} {roots : Set UInt64} {l : List UInt64}
  {root va pa len perm beg dst t : UInt64} {pages : Nat}

/-! One page. -/

theorem pathsFrom_pgrounddown (va : UInt64) :
    pathsFrom (pgrounddown va) pgtableToplevel [] = pathsFrom va pgtableToplevel [] := by
  simp only [pathsFrom, vpn_pgrounddown va (show 2 ≤ 2 by omega),
    vpn_pgrounddown va (show 1 ≤ 2 by omega)]

theorem vmGetpte_cases (htables : PageTables s.mem roots)
    (hframes : FreshFrames s roots l) (hroot : root ∈ roots) (hva : va ≤ vaMax) :
    (∃ t s' l', vmGetpte root va true s = .ok (some (entryAddr t (vpn va 0)), s') ∧
      Grown s s' roots l l' ∧ leafTable s'.mem root va = some t ∧
      supply s' true l' + lacking s.mem root (pathsFrom va pgtableToplevel []) =
        supply s true l ∧
      ∀ q, q.length ≤ pgtableToplevel → (walk (links s'.mem) root q = none ↔
        walk (links s.mem) root q = none ∧ q ∉ pathsFrom va pgtableToplevel [])) ∨
    (supply s true l < lacking s.mem root (pathsFrom va pgtableToplevel []) ∧
      ∃ message, vmGetpte root va true s = .error (.panic message)) := by
  unfold vmGetpte massert
  rw [Exec.require_of_true hva, Exec.require_of_true (htables.nonzero root hroot),
    pure_bind, pure_bind]
  have hstart : walk (links s.mem) root [] = some root := rfl
  have hcases := vmGetpteLoop_cases (pgrounddown va) htables hframes hroot hstart
    (Nat.zero_add pgtableToplevel)
  rw [pathsFrom_pgrounddown] at hcases
  rcases hcases with ⟨t, s', l', hrun, hgrown, hend, hrest⟩ | ⟨hless, message, hpanic⟩
  · refine .inl ⟨t, s', l', Exec.bind_of_ok hrun, hgrown, ?_, hrest⟩
    rw [List.nil_append, vpns_pgrounddown va (le_refl 2)] at hend
    exact hend
  · exact .inr ⟨hless, message, Exec.bind_eq_error.mpr (.inl hpanic)⟩

/-- Where the last table is there, `vm_getpte` takes no page. -/
theorem vmGetpteLoop_present {level : Nat} {t' : UInt64}
    (h : walk (links s.mem) t (vpns va level) = some t') :
    vmGetpteLoop va true level t s = .ok (some t', s) := by
  induction level generalizing t with
  | zero =>
      cases h
      rfl
  | succ level ih =>
      rw [vmGetpteLoop, readMem_bind]
      rw [vpns, walk, links] at h
      by_cases hvalid : pteValid (entry s.mem t (vpn va (level + 1)))
      · rw [if_pos hvalid, Option.bind_some] at h
        rw [if_pos hvalid]
        exact ih h
      · rw [if_neg hvalid] at h
        cases h

theorem vmGetpte_present (hva : va ≤ vaMax) (hroot : root ≠ 0)
    (hleaf : leafTable s.mem root va = some t) :
    vmGetpte root va true s = .ok (some (entryAddr t (vpn va 0)), s) := by
  unfold vmGetpte massert
  rw [Exec.require_of_true hva, Exec.require_of_true hroot, pure_bind, pure_bind]
  have hwalk : walk (links s.mem) root (vpns (pgrounddown va) pgtableToplevel) = some t := by
    rw [vpns_pgrounddown va (le_refl 2)]
    exact hleaf
  exact Exec.bind_of_ok (vmGetpteLoop_present hwalk)

/-! The loop. -/

theorem pageAt_zero (va : UInt64) : pageAt va 0 = va := by
  unfold pageAt
  grind

theorem pageAt_succ (va : UInt64) (i : Nat) :
    pageAt va (i + 1) = pageAt (va + pgsize) i := by
  unfold pageAt
  rw [UInt64.ofNat_add]
  grind

theorem pageAt_toNat {i : Nat} (hroom : va.toNat + i * 4096 < 2 ^ 64) :
    (pageAt va i).toNat = va.toNat + i * 4096 := by
  unfold pageAt
  rw [UInt64.toNat_add, UInt64.toNat_mul,
    UInt64.toNat_ofNat_of_lt' (show i < 2 ^ 64 by omega)]
  change (_ + i * 4096 % _) % _ = _
  omega

theorem length_of_tablePaths {q : List Vpn} (hq : q ∈ tablePaths beg pages) :
    q.length ≤ pgtableToplevel := by
  induction pages generalizing beg with
  | zero => exact absurd hq (Finset.notMem_empty q)
  | succ pages ih =>
      rcases Finset.mem_union.mp hq with hhere | hlater
      · exact (length_of_pathsFrom hhere).2.trans_eq (Nat.zero_add _)
      · exact ih hlater

/-- The tables that are missing for two sets of pages: those for the first set, and
those that are still missing for the second one when these are made. -/
theorem lacking_union {m m' : Memory} {first second : Finset (List Vpn)}
    (h : ∀ q ∈ second, walk (links m') root q = none ↔
      walk (links m) root q = none ∧ q ∉ first) :
    lacking m root (first ∪ second) = lacking m root first + lacking m' root second := by
  unfold lacking
  rw [Finset.filter_union, ← Finset.card_union_of_disjoint]
  · congr 1
    ext q
    simp only [Finset.mem_union, Finset.mem_filter]
    by_cases hfirst : q ∈ first
    · simp only [hfirst, true_and]
      refine ⟨fun hq => .inl (hq.elim id And.right), fun hq => .inl (hq.elim id ?_)⟩
      exact fun hq => ((h q hq.1).mp hq.2).1
    · simp only [hfirst, false_and, false_or]
      refine and_congr_right fun hq => ?_
      rw [h q hq]
      exact ⟨fun hnone => ⟨hnone, hfirst⟩, fun hnone => hnone.1⟩
  · rw [Finset.disjoint_left]
    intro q hfirst hsecond
    rw [Finset.mem_filter] at hfirst hsecond
    exact ((h q hsecond.1).mp hsecond.2).2 hfirst.1

theorem oneFrame_succ {m m' : Memory}
    (h : ∀ i, i < pages → translate m' root (pageAt (beg + pgsize) i) =
      translate m root (pageAt (beg + pgsize) i)) :
    OneFrame m root beg pa (pages + 1) ↔
      (∀ pte, translate m root beg = some pte → pteToPa pte = pa) ∧
        OneFrame m' root (beg + pgsize) pa pages := by
  constructor
  · intro hone
    constructor
    · intro pte hpte
      refine hone 0 (by omega) pte ?_
      rw [pageAt_zero]
      exact hpte
    · intro i hi pte hpte
      refine hone (i + 1) (by omega) pte ?_
      rw [pageAt_succ, ← h i hi]
      exact hpte
  · rintro ⟨hfirst, hrest⟩ i hi pte hpte
    cases i with
    | zero =>
        rw [pageAt_zero] at hpte
        exact hfirst pte hpte
    | succ i =>
        rw [pageAt_succ, ← h i (by omega)] at hpte
        exact hrest i (by omega) pte hpte

/-- The loop passes if no page has another frame than the first one is to have, and
there are pages for the tables that are missing. -/
theorem vmMappagesLoop_cases (pa perm dst : UInt64) (htables : PageTables s.mem roots)
    (hframes : FreshFrames s roots l) (hroot : root ∈ roots)
    (hrange : beg.toNat + pages * 4096 ≤ 2 ^ 38) :
    ((OneFrame s.mem root beg pa pages ∧
        lacking s.mem root (tablePaths beg pages) ≤ supply s true l) ∧
      ∃ s', vmMappagesLoop root pa perm pages beg dst s = .ok ((), s')) ∨
    (¬ (OneFrame s.mem root beg pa pages ∧
        lacking s.mem root (tablePaths beg pages) ≤ supply s true l) ∧
      ∃ message, vmMappagesLoop root pa perm pages beg dst s =
        .error (.panic message)) := by
  induction pages generalizing s beg dst l with
  | zero =>
      refine .inl ⟨⟨fun i hi => absurd hi (Nat.not_lt_zero i), ?_⟩, s, rfl⟩
      exact Nat.zero_le _
  | succ pages ih =>
      have hbeg : beg < vaMax := by
        rw [UInt64.lt_iff_toNat_lt]
        change _ < 2 ^ 38
        omega
      have hnext : (beg + pgsize).toNat = beg.toNat + 4096 :=
        add_pgsize_toNat (by omega)
      rw [vmMappagesLoop]
      rcases vmGetpte_cases htables hframes hroot (UInt64.le_of_lt hbeg) with
        ⟨t, s₁, l₁, hgetpte, hgrown, hleaf, hsupply, hnone⟩ | ⟨hless, message, hpanic⟩
      · have hentry : translate s.mem root beg =
            validEntry (entry s₁.mem t (vpn beg 0)) := by
          rw [← hgrown.translate root hroot]
          unfold translate
          rw [hleaf, Option.bind_some]
        rw [Exec.bind_of_ok hgetpte]
        dsimp only
        rw [readMem_bind]
        change _ ∧ (∃ s', (massert (¬ pteValid (entry s₁.mem t (vpn beg 0)) ∨
          pteToPa (entry s₁.mem t (vpn beg 0)) = pa) _ >>= _) s₁ = _) ∨
          _ ∧ ∃ message, (massert (¬ pteValid (entry s₁.mem t (vpn beg 0)) ∨
          pteToPa (entry s₁.mem t (vpn beg 0)) = pa) _ >>= _) s₁ = _
        unfold massert
        by_cases hcheck : ¬ pteValid (entry s₁.mem t (vpn beg 0)) ∨
            pteToPa (entry s₁.mem t (vpn beg 0)) = pa
        · rw [Exec.require_of_true hcheck, pure_bind, updateMem_bind]
          obtain ⟨m', hm'⟩ : ∃ m', m' = setEntry s₁.mem t (vpn beg 0)
              (paToPte dst ||| perm ||| pteV) := ⟨_, rfl⟩
          change _ ∧ (∃ s', vmMappagesLoop _ _ _ _ _ _ (s₁.setMem (setEntry s₁.mem t
            (vpn beg 0) (paToPte dst ||| perm ||| pteV))) = _) ∨ _ ∧ ∃ message,
            vmMappagesLoop _ _ _ _ _ _ (s₁.setMem (setEntry s₁.mem t
              (vpn beg 0) (paToPte dst ||| perm ||| pteV))) = _
          have hset := remapped_setEntry hgrown.tables hgrown.frames hroot
            (UInt64.le_of_lt hbeg) hleaf (paToPte dst ||| perm ||| pteV)
          have hwalk : ∀ q ∈ tablePaths (beg + pgsize) pages,
              walk (links m') root q = none ↔ walk (links s.mem) root q = none ∧
                q ∉ pathsFrom beg pgtableToplevel [] := by
            intro q hq
            have hlength := length_of_tablePaths hq
            rw [hm', walk_setEntry_leaf hgrown.tables hroot hleaf hroot hlength]
            exact hnone q hlength
          rw [← hm'] at hset ⊢
          have hlacking := lacking_union hwalk
          have hrest : ∀ i, i < pages →
              translate m' root (pageAt (beg + pgsize) i) =
                translate s.mem root (pageAt (beg + pgsize) i) := by
            intro i hi
            have hat := pageAt_toNat
              (show (beg + pgsize).toNat + i * 4096 < 2 ^ 64 by omega)
            have hbelow : pageAt (beg + pgsize) i < vaMax := by
              rw [UInt64.lt_iff_toNat_lt, hat]
              change _ < 2 ^ 38
              omega
            refine (hset.translate _ hbelow).trans ?_
            unfold setPage
            rw [if_neg (by omega), hgrown.translate root hroot]
          have hfirst : ∀ pte, translate s.mem root beg = some pte → pteToPa pte = pa := by
            intro pte hpte
            rw [hentry] at hpte
            unfold validEntry at hpte
            split at hpte
            · next hvalid =>
              cases hpte
              exact hcheck.resolve_left fun hnot => hnot hvalid
            · cases hpte
          rw [oneFrame_succ hrest, tablePaths, hlacking]
          have hroom : (beg + pgsize).toNat + pages * 4096 ≤ 2 ^ 38 := by omega
          rcases ih (dst + pgsize) hset.tables hset.frames hroom with
            ⟨⟨hone, henough⟩, hrun⟩ | ⟨hnot, hpanic⟩
          · refine .inl ⟨⟨⟨hfirst, hone⟩, ?_⟩, hrun⟩
            change lacking m' root _ ≤ supply s₁ true l₁ at henough
            omega
          · refine .inr ⟨?_, hpanic⟩
            rintro ⟨⟨_, hone⟩, henough⟩
            refine hnot ⟨hone, ?_⟩
            change lacking m' root _ ≤ supply s₁ true l₁
            omega
        · refine .inr ⟨?_, "vm_mappages: remap at %p", ?_⟩
          · rintro ⟨hone, _⟩
            refine hcheck ?_
            by_cases hvalid : pteValid (entry s₁.mem t (vpn beg 0))
            · refine .inr (hone 0 (by omega) _ ?_)
              rw [pageAt_zero, hentry]
              exact if_pos hvalid
            · exact .inl hvalid
          · exact Exec.bind_eq_error.mpr
              (.inl (by rw [Exec.require, if_neg hcheck]; rfl))
      · refine .inr ⟨?_, message, Exec.bind_eq_error.mpr (.inl hpanic)⟩
        rintro ⟨_, henough⟩
        have hle : lacking s.mem root (pathsFrom beg pgtableToplevel []) ≤
            lacking s.mem root (tablePaths beg (pages + 1)) :=
          Finset.card_le_card (Finset.filter_subset_filter _ Finset.subset_union_left)
        omega

/-! The call. -/

structure MapRange (va pa len : UInt64) : Prop where
  va_aligned : va % pgsize = 0
  pa_aligned : pa % pgsize = 0
  nonempty : 0 < len
  room : va.toNat + len.toNat ≤ vaMax.toNat

namespace MapRange

theorem wraps (h : MapRange va pa len) : va.toNat + len.toNat < 2 ^ 64 := by
  have hroom := h.room
  change _ ≤ 2 ^ 38 at hroom
  omega

theorem last (h : MapRange va pa len) : va + len - 1 < vaMax := by
  have hwrap := h.wraps
  have hroom := h.room
  have hpos : 0 < len.toNat := UInt64.lt_iff_toNat_lt.mp h.nonempty
  rw [UInt64.lt_iff_toNat_lt, UInt64.toNat_sub_of_le, UInt64.toNat_add,
    Nat.mod_eq_of_lt hwrap]
  · change _ - 1 < _
    omega
  · rw [UInt64.le_iff_toNat_le, UInt64.toNat_add, Nat.mod_eq_of_lt hwrap]
    change 1 ≤ _
    omega

theorem count (h : MapRange va pa len) :
    0 < pageCount va len ∧ va.toNat + pageCount va len * 4096 ≤ 2 ^ 38 := by
  have hpos : 0 < len.toNat := UInt64.lt_iff_toNat_lt.mp h.nonempty
  refine ⟨?_, pageCount_room h.va_aligned h.nonempty h.wraps h.last⟩
  rw [pageCount_spec h.va_aligned h.nonempty h.wraps]
  omega

theorem vmMappages_eq (h : MapRange va pa len) (root perm : UInt64) :
    vmMappages root va pa len perm =
      vmMappagesLoop root pa perm (pageCount va len) va pa := by
  unfold vmMappages massert
  rw [Exec.require_of_true ⟨h.va_aligned, h.pa_aligned⟩,
    Exec.require_of_true h.nonempty, Exec.require_of_true h.last, pure_bind, pure_bind,
    pure_bind]

theorem vmMappages_present (h : MapRange va pa len) (perm : UInt64) (hone : pageCount va len = 1)
    (hroot : root ≠ 0) (hleaf : leafTable s.mem root va = some t)
    (hcheck : ¬ pteValid (entry s.mem t (vpn va 0)) ∨
      pteToPa (entry s.mem t (vpn va 0)) = pa) :
    vmMappages root va pa len perm s =
      .ok ((), s.setMem (setEntry s.mem t (vpn va 0) (mapEntry pa perm))) := by
  have hroom := h.count.2
  have hva : va ≤ vaMax := by
    rw [UInt64.le_iff_toNat_le]
    change _ ≤ 2 ^ 38
    omega
  rw [h.vmMappages_eq, hone, vmMappagesLoop,
    Exec.bind_of_ok (vmGetpte_present hva hroot hleaf)]
  dsimp only
  rw [readMem_bind]
  change (massert (¬ pteValid (entry s.mem t (vpn va 0)) ∨
    pteToPa (entry s.mem t (vpn va 0)) = pa) _ >>= _) s = _
  unfold massert
  rw [Exec.require_of_true hcheck, pure_bind, updateMem_bind]
  rfl

end MapRange

theorem setEntry_setEntry (m : Memory) (t pte : UInt64) (idx : Vpn) :
    setEntry (setEntry m t idx pte) t idx pte = setEntry m t idx pte := by
  funext x
  unfold setEntry Memory.store64 Memory.write
  split
  · rfl
  · rfl

theorem onlyPermissions_setEntry (hrange : MapRange va pa len)
    (hone : pageCount va len = 1) (htables : PageTables s.mem roots)
    (hframes : FreshFrames s roots l) (hroot : root ∈ roots) (hperm : perm.toNat < 1024)
    (hleaf : leafTable s.mem root va = some t)
    (hmapped : (translate s.mem root va).map pteToPa = some pa) :
    OnlyPermissions s
      (s.setMem (setEntry s.mem t (vpn va 0) (mapEntry pa perm))) roots root va
      len := by
  have hroom := hrange.count.2
  have hva : va ≤ vaMax := by
    rw [UInt64.le_iff_toNat_le]
    change _ ≤ 2 ^ 38
    omega
  have hset := remapped_setEntry htables hframes hroot hva hleaf
    (mapEntry pa perm)
  have hentry : validEntry (mapEntry pa perm) = some (mapEntry pa perm) :=
    if_pos (pteValid_or _)
  have hcount := pageCount_spec hrange.va_aligned hrange.nonempty hrange.wraps
  rw [hone] at hcount
  refine ⟨hset.tables, ?_, ?_, ?_, rfl⟩
  · intro r hr x hx
    by_cases hsame : r = root
    · subst hsame
      rw [hset.translate x hx]
      unfold setPage
      split
      · next hpage =>
        rw [hentry, Option.map_some,
          (VmCall.mapEntry_parts hrange.pa_aligned hperm).1,
          translate_same_page hx hva hpage, hmapped]
      · rfl
    · rw [hset.others r hr hsame x hx]
  · intro r hr x hx hout
    by_cases hsame : r = root
    · subst hsame
      rw [hset.translate x hx]
      unfold setPage
      rw [if_neg]
      intro hpage
      refine hout ⟨rfl, ?_⟩
      rw [VmCall.inRange_iff hrange.va_aligned hrange.nonempty hrange.wraps]
      omega
    · rw [hset.others r hr hsame x hx]
  · intro page haligned hnot
    refine (onlyPage_setEntry s.mem t (vpn va 0) _).samePage
      (IsTable.aligned htables (leafTable_isTable hroot hleaf)) haligned ?_
    rintro rfl
    exact hnot (leafTable_isTable hroot hleaf)

/-- One page that is mapped to its frame can be mapped again, twice. -/
theorem remap_one (hrange : MapRange va pa len) (hone : pageCount va len = 1)
    (htables : PageTables s.mem roots) (hframes : FreshFrames s roots l)
    (hroot : root ∈ roots) (hperm : perm.toNat < 1024)
    (hmapped : (translate s.mem root va).map pteToPa = some pa) :
    ∃ s', vmMappages root va pa len perm s = .ok ((), s') ∧
      OnlyPermissions s s' roots root va len ∧
      vmMappages root va pa len perm s' = .ok ((), s') := by
  obtain ⟨pte, hpte, hpa⟩ := Option.map_eq_some_iff.mp hmapped
  unfold translate at hpte
  obtain ⟨t, hleaf, hvalid⟩ := Option.bind_eq_some_iff.mp hpte
  have hold : entry s.mem t (vpn va 0) = pte := by
    unfold validEntry at hvalid
    split at hvalid
    · cases hvalid
      rfl
    · cases hvalid
  have hnonzero := htables.nonzero root hroot
  have hfirst := hrange.vmMappages_present perm hone hnonzero hleaf
    (.inr (hold ▸ hpa))
  have honly := onlyPermissions_setEntry hrange hone htables hframes hroot hperm hleaf
    hmapped
  obtain ⟨m', hm'⟩ : ∃ m', m' = setEntry s.mem t (vpn va 0) (mapEntry pa perm) :=
    ⟨_, rfl⟩
  have hleaf' : leafTable m' root va = some t := by
    rw [hm']
    refine (walk_setEntry_leaf htables hroot hleaf hroot ?_).trans hleaf
    rw [length_vpns]
  have hentry : entry m' t (vpn va 0) = mapEntry pa perm := by
    rw [hm', entry_setEntry_self]
  have hframe : pteToPa (entry m' t (vpn va 0)) = pa := by
    rw [hentry]
    exact (VmCall.mapEntry_parts hrange.pa_aligned hperm).1
  have hagain : setEntry m' t (vpn va 0) (mapEntry pa perm) = m' := by
    rw [hm', setEntry_setEntry]
  rw [← hm'] at hfirst honly
  have hsecond := hrange.vmMappages_present (s := s.setMem m') perm hone hnonzero hleaf'
    (.inr hframe)
  refine ⟨s.setMem m', hfirst, honly, hsecond.trans ?_⟩
  change Except.ok ((), s.setMem (setEntry m' _ _ _)) = _
  rw [hagain]

/-- Remapping is checked as it should be if and only if a range that is mapped to its
own frames is one page, and a range with a page that is mapped to another frame than
its own has one that is not mapped to the first frame (or the tables cannot be made). -/
theorem remap_checked_iff (hrange : MapRange va pa len) (htables : PageTables s.mem roots)
    (hframes : FreshFrames s roots l) (hroot : root ∈ roots)
    (hperm : perm.toNat < 1024) :
    RemapChecked s roots root va pa len perm ↔
      (RangeMapped s.mem root va pa (pageCount va len) → pageCount va len = 1) ∧
      (WronglyMapped s.mem root va pa (pageCount va len) →
        ¬ OneFrame s.mem root va pa (pageCount va len) ∨
          supply s true l < lacking s.mem root (tablePaths va (pageCount va len))) := by
  obtain ⟨hpos, hroom⟩ := hrange.count
  have hcases := vmMappagesLoop_cases pa perm pa htables hframes hroot hroom
  rw [← hrange.vmMappages_eq] at hcases
  unfold RemapChecked
  apply and_congr
  · constructor
    · intro hsucceeds hmapped
      obtain ⟨s', hrun, _⟩ := hsucceeds hmapped
      rcases hcases with ⟨⟨hone, _⟩, _⟩ | ⟨_, message, hpanic⟩
      · -- the second page is mapped to the second frame
        by_contra hmore
        have hsecond := hmapped 1 (by omega)
        obtain ⟨pte, hpte, hframe⟩ := Option.map_eq_some_iff.mp hsecond
        have hfirst := hone 1 (by omega) pte hpte
        rw [hframe, pageAt_succ, pageAt_zero] at hfirst
        have hstep : pgsize = 0 := by
          have hsub := congrArg (· - pa) hfirst
          grind
        exact absurd hstep (by decide)
      · rw [hpanic] at hrun
        cases hrun
    · intro hsingle hmapped
      have hone := hsingle hmapped
      have hframe := hmapped 0 hpos
      rw [pageAt_zero, pageAt_zero] at hframe
      exact remap_one hrange hone htables hframes hroot hperm hframe
  · refine imp_congr_right fun _ => ?_
    rcases hcases with ⟨⟨hone, henough⟩, s', hrun⟩ | ⟨hnot, message, hpanic⟩
    · constructor
      · rintro ⟨message, hpanic⟩
        rw [hrun] at hpanic
        cases hpanic
      · rintro (hother | hless)
        · exact absurd hone hother
        · omega
    · refine ⟨fun _ => ?_, fun _ => ⟨message, hpanic⟩⟩
      rw [not_and_or, not_le] at hnot
      exact hnot

/-! Pages of the empty table. -/

theorem emptyTable_maps (perm : UInt64) (hrange : MapRange va pa len)
    (hdone : (VmCall.step VmCall.emptyTable
      (.map 0x1000 va pa len perm)).isSome) :
    ∃ s l, VmCall.step VmCall.emptyTable (.map 0x1000 va pa len perm) = some s ∧
      PageTables s.mem {0x1000} ∧ FreshFrames s {0x1000} l := by
  obtain ⟨s, hstep⟩ := Option.isSome_iff_exists.mp hdone
  obtain ⟨_, hrun⟩ := VmCall.exec_of_step hstep
  obtain ⟨l, hmap⟩ := vmMappages_spec VmCall.emptyTable_tables VmCall.emptyTable_frames
    (Set.mem_singleton _) hrange.wraps hrun
  exact ⟨s, l, hstep, hmap.tables, hmap.frames⟩

theorem remap_checked_single : ∃ s,
    VmCall.step VmCall.emptyTable (.map 0x1000 0x5000 0x7000 4096 2) = some s ∧
      RangeMapped s.mem 0x1000 0x5000 0x7000 1 ∧
      RemapChecked s {0x1000} 0x1000 0x5000 0x7000 4096 4 := by
  have hrange : MapRange 0x5000 0x7000 4096 := by
    constructor <;> decide
  obtain ⟨s, l, hstep, htables, hframes⟩ := emptyTable_maps 2 hrange (by decide +kernel)
  have hentry : (VmCall.step VmCall.emptyTable (.map 0x1000 0x5000 0x7000 4096 2)).map
      (fun s => (translate s.mem 0x1000 0x5000).map pteToPa) = some (some 0x7000) := by
    decide +kernel
  rw [hstep, Option.map_some, Option.some_inj] at hentry
  have hmapped : RangeMapped s.mem 0x1000 0x5000 0x7000 1 := by
    intro i hi
    rw [show i = 0 by omega, pageAt_zero, pageAt_zero]
    exact hentry
  have hcount : pageCount 0x5000 4096 = 1 := by decide +kernel
  refine ⟨s, hstep, hmapped, (remap_checked_iff hrange htables hframes
    (Set.mem_singleton _) (by decide)).mpr ⟨fun _ => hcount, ?_⟩⟩
  rw [hcount]
  rintro ⟨i, hi, pte, hpte, hframe⟩
  have hown := hmapped i hi
  rw [hpte, Option.map_some, Option.some_inj] at hown
  exact absurd hown hframe

/-- A range of two pages that was mapped cannot be mapped again: the second page is compared
with the frame of the first. -/
theorem remap_compares_first_frame :
    ¬ ∀ (s : MemState) (roots : Set UInt64) (l : List UInt64)
      (root va pa len perm : UInt64), MapRange va pa len → PageTables s.mem roots →
      FreshFrames s roots l → root ∈ roots → perm.toNat < 1024 →
      RemapChecked s roots root va pa len perm := by
  intro h
  have hrange : MapRange 0x5000 0x7000 0x2000 := by
    constructor <;> decide
  obtain ⟨s, l, hstep, htables, hframes⟩ := emptyTable_maps 2 hrange (by decide +kernel)
  have hentries : (VmCall.step VmCall.emptyTable
      (.map 0x1000 0x5000 0x7000 0x2000 2)).map (fun s =>
        ((translate s.mem 0x1000 0x5000).map pteToPa,
          (translate s.mem 0x1000 0x6000).map pteToPa,
          (vmMappages 0x1000 0x5000 0x7000 0x2000 2 s).isOk)) =
        some (some 0x7000, some 0x8000, false) := by
    decide +kernel
  rw [hstep, Option.map_some, Option.some_inj] at hentries
  obtain ⟨hfirst, hrest⟩ := Prod.mk.inj hentries
  obtain ⟨hsecond, hstops⟩ := Prod.mk.inj hrest
  have hcount : pageCount 0x5000 0x2000 = 2 := by decide +kernel
  have hmapped : RangeMapped s.mem 0x1000 0x5000 0x7000 (pageCount 0x5000 0x2000) := by
    rw [hcount]
    intro i hi
    have hpages : i = 0 ∨ i = 1 := by omega
    rcases hpages with rfl | rfl
    · exact hfirst
    · exact hsecond
  obtain ⟨s', hrun, _⟩ := (h s {0x1000} l 0x1000 0x5000 0x7000 0x2000 2 hrange htables
    hframes (Set.mem_singleton _) (by decide)).1 hmapped
  rw [hrun] at hstops
  cases hstops

end UnoOS.Mem
