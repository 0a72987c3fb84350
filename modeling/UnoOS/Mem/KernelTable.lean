import UnoOS.Mem.Frames
import UnoOS.Mem.PmemInit
import UnoOS.Mem.Remap

namespace UnoOS.Mem

open UnoOS.Lib
open UnoOS.Lib.Radix (walk)

/-! `kvm_init`: the table of the kernel, and that there are pages enough for it. -/

abbrev uartBase : UInt64 := 0x10000000

abbrev virtioBase : UInt64 := 0x10001000

abbrev clintBase : UInt64 := 0x2000000

abbrev clintRegionSize : UInt64 := 0x10000

abbrev plicBase : UInt64 := 0x0c000000

abbrev plicRegionSize : UInt64 := 0x400000

abbrev shutdownReg : UInt64 := 0x100000

/-- `KERNEL_DATA`, which the linker script puts behind the page of `trampoline.S`. -/
structure LinkedImage extends KernelImage where
  kernelData : UInt64
  data_aligned : kernelData.toNat % 4096 = 0
  code : kernelBase.toNat + 4096 ≤ kernelData.toNat
  data : kernelData.toNat < allocBegin.toNat

/-- Code of 64 KiB and data of as much. -/
def LinkedImage.small : LinkedImage where
  toKernelImage := .small
  kernelData := 0x80010000
  data_aligned := by decide
  code := by decide
  data := by decide

def LinkedImage.trampolinePage (image : LinkedImage) : UInt64 := image.kernelData - pgsize

structure Mapping where
  va : UInt64
  pa : UInt64
  len : UInt64
  perm : UInt64
  deriving DecidableEq

def kernelMappings (image : LinkedImage) : List Mapping :=
  [⟨uartBase, uartBase, pgsize, pteR ||| pteW⟩,
   ⟨virtioBase, virtioBase, pgsize, pteR ||| pteW⟩,
   ⟨clintBase, clintBase, clintRegionSize, pteR ||| pteW⟩,
   ⟨plicBase, plicBase, plicRegionSize, pteR ||| pteW⟩,
   ⟨shutdownReg, shutdownReg, pgsize, pteR ||| pteW⟩,
   ⟨kernelBase, kernelBase, image.kernelData - kernelBase, pteR ||| pteW ||| pteX⟩,
   ⟨image.kernelData, image.kernelData, image.allocBegin - image.kernelData, pteR ||| pteW⟩,
   ⟨image.allocBegin, image.allocBegin, allocEnd - image.allocBegin, pteR ||| pteW⟩,
   ⟨trampoline, image.trampolinePage, pgsize, pteR ||| pteX⟩]

def mapAll (pgtbl : UInt64) : List Mapping → MemM Unit
  | [] => return
  | mapping :: mappings => do
      vmMappages pgtbl mapping.va mapping.pa mapping.len mapping.perm
      mapAll pgtbl mappings

def writeKernelPgtbl (pgtbl : UInt64) : MemM Unit :=
  modify fun s => { s with kernelPgtbl := pgtbl }

def kvmInit (image : LinkedImage) : MemM Unit := do
  let pgtbl ← pmemAlloc true
  writeKernelPgtbl pgtbl
  updateMem fun m => m.memset pgtbl.toNat 0 4096
  massert (pgtbl ≠ 0) "kvm_init: failed to initialize kernel page table."
  mapAll pgtbl (kernelMappings image)

variable {s s' : MemState} {roots : Set UInt64} {l : List UInt64}
  {root va pa len perm beg dst t : UInt64} {pages : Nat}

/-! The pages that are taken for tables. -/

theorem vmMappagesLoop_supply (htables : PageTables s.mem roots)
    (hframes : FreshFrames s roots l) (hroot : root ∈ roots)
    (hrange : beg.toNat + pages * 4096 ≤ 2 ^ 38) {value : Unit}
    (hrun : vmMappagesLoop root pa perm pages beg dst s = .ok (value, s')) :
    ∃ l', FreshFrames s' roots l' ∧
      supply s' true l' + lacking s.mem root (tablePaths beg pages) = supply s true l ∧
      ∀ q, q.length ≤ pgtableToplevel → (walk (links s'.mem) root q = none ↔
        walk (links s.mem) root q = none ∧ q ∉ tablePaths beg pages) := by
  induction pages generalizing s beg dst l with
  | zero =>
      cases hrun
      refine ⟨l, hframes, rfl, fun q _ => ⟨fun hq => ⟨hq, Finset.notMem_empty q⟩, And.left⟩⟩
  | succ pages ih =>
      have hbeg : beg < vaMax := by
        rw [UInt64.lt_iff_toNat_lt]
        change _ < 2 ^ 38
        omega
      have hnext : (beg + pgsize).toNat = beg.toNat + 4096 := add_pgsize_toNat (by omega)
      rw [vmMappagesLoop] at hrun
      rcases vmGetpte_cases htables hframes hroot (UInt64.le_of_lt hbeg) with
        ⟨t, s₁, l₁, hgetpte, hgrown, hleaf, hsupply, hnone⟩ | ⟨_, message, hpanic⟩
      · rw [Exec.bind_of_ok hgetpte] at hrun
        dsimp only at hrun
        rw [readMem_bind, massert_bind_eq_ok, updateMem_bind] at hrun
        obtain ⟨_, hrun⟩ := hrun
        have hset := remapped_setEntry hgrown.tables hgrown.frames hroot
          (UInt64.le_of_lt hbeg) hleaf (paToPte dst ||| perm ||| pteV)
        have hwalk : ∀ q, q.length ≤ pgtableToplevel →
            (walk (links (setEntry s₁.mem t (vpn beg 0) (paToPte dst ||| perm ||| pteV))) root q =
              none ↔ walk (links s.mem) root q = none ∧
                q ∉ pathsFrom beg pgtableToplevel []) := by
          intro q hq
          rw [walk_setEntry_leaf hgrown.tables hroot hleaf hroot hq]
          exact hnone q hq
        obtain ⟨l', hframes', hless, hnone'⟩ := ih hset.tables hset.frames (by omega) hrun
        have hpaths : ∀ q ∈ tablePaths (beg + pgsize) pages, _ :=
          fun q hq => hwalk q (length_of_tablePaths hq)
        have hlacking := lacking_union hpaths
        refine ⟨l', hframes', ?_, fun q hq => ?_⟩
        · rw [tablePaths, hlacking]
          change _ = supply s₁ true l₁ at hless
          change supply s' true l' + lacking (setEntry s₁.mem t (vpn beg 0) _) root _ = _ at hless
          omega
        · rw [tablePaths, Finset.notMem_union]
          refine (hnone' q hq).trans ?_
          rw [← and_assoc]
          exact and_congr_left fun _ => hwalk q hq
      · rw [Exec.bind_eq_ok] at hrun
        obtain ⟨_, _, hrun, _⟩ := hrun
        rw [hpanic] at hrun
        cases hrun

/-- A page of the kernel is taken for something else than a table. -/
theorem Frames.take {lk lu : List UInt64} {held : Set UInt64} {page : UInt64}
    (h : Frames s roots lk lu held) (hrun : pmemAlloc true s = .ok (page, s')) :
    ∃ rest, lk = page :: rest ∧ Frames s' roots rest lu held ∧
      ∀ t, IsTable s.mem roots t → SamePage t s.mem s'.mem := by
  obtain ⟨rest, rfl, hrest⟩ := h.kern.list.alloc hrun
  obtain ⟨_, _, rfl, rfl⟩ := pmemAlloc_eq_ok.mp hrun
  have hmem : (s.region true).next ∈ (s.region true).next :: rest := List.mem_cons_self
  have hin := h.kern.list.inRegion _ hmem
  have honly := onlyPage_taken (s := s) (k := true)
  have hsame : ∀ t, IsTable s.mem roots t → SamePage t s.mem (s.taken true).mem := by
    intro t ht
    refine honly.samePage hin.aligned (ht.aligned h.tables) ?_
    rintro rfl
    exact h.kern.fresh _ hmem ht
  have huser : (s.taken true).region false = s.region false := region_taken_of_ne (by decide)
  have hbounds : ∀ q, (s.taken true).userRegion.Contains q ↔ s.userRegion.Contains q := by
    intro q
    change ((s.taken true).region false).Contains q ↔ _
    rw [huser]
    exact Iff.rfl
  have howns : ∀ place f, Owns (s.taken true).mem roots place f → Owns s.mem roots place f := by
    rintro place f ⟨hroot, va, hva, hplace, hf⟩
    refine ⟨hroot, va, hva, hplace, ?_⟩
    unfold userFrame at hf ⊢
    rwa [translate_of_samePages hroot hsame] at hf
  refine ⟨rest, rfl, ⟨h.tables.of_samePages hsame, ⟨hrest, ?_⟩, ?_, ?_, ?_, ?_, ?_, ?_, ?_⟩,
    hsame⟩
  · intro q hq htable
    exact h.kern.fresh q (List.mem_cons_of_mem _ hq) ((isTable_of_samePages hsame).mp htable)
  · refine h.user.congr huser fun q hq => ?_
    refine honly.samePage hin.aligned (h.user.inRegion q hq).aligned ?_
    rintro rfl
    exact h.kern_apart _ hmem (h.user.inRegion _ hq)
  · exact fun q hq => h.nonzero q ((hbounds q).mp hq)
  · exact fun q htable hq => h.tables_apart q ((isTable_of_samePages hsame).mp htable)
      ((hbounds q).mp hq)
  · exact fun q hq hin' => h.kern_apart q (List.mem_cons_of_mem _ hq) ((hbounds q).mp hin')
  · exact fun place f hf => (hbounds f).mpr (h.owned_in place f (howns place f hf))
  · exact fun f hf => (hbounds f).mpr (h.held_in f hf)
  · exact h.tenancy.mono howns (fun _ hq => hq) (fun _ hq => hq)

/-! Mapping with enough pages. -/

variable {lk lu : List UInt64} {paths : Finset (List Vpn)} {spare : Nat}

/-- There are pages for the missing ones of some tables, and more. -/
structure Stocked (s : MemState) (root : UInt64) (lk lu : List UInt64)
    (paths : Finset (List Vpn)) (spare : Nat) : Prop where
  frames : Frames s {root} lk lu ∅
  short : ∀ q ∈ paths, q.length ≤ pgtableToplevel
  enough : lacking s.mem root paths + spare ≤ supply s true lk

theorem mappedEntry_hidden (pa : UInt64) {perm : UInt64} (hperm : perm.toNat < 1024)
    (huser : perm &&& pteU = 0) (i : Nat) : (mappedEntry pa perm i).bind userEntry = none := by
  unfold mappedEntry userEntry
  rw [Option.bind_some, or_and_of_disjoint (by decide), entry_and hperm (by decide),
    if_neg (not_not.mpr huser)]

theorem Stocked.map (h : Stocked s root lk lu paths spare) (hrange : MapRange va pa len)
    (hperm : perm.toNat < 1024) (huser : perm &&& pteU = 0)
    (hpaths : tablePaths va (pageCount va len) ⊆ paths)
    (hfree : ∀ i, i < pageCount va len → translate s.mem root (pageAt va i) = none) :
    ∃ s' lk', vmMappages root va pa len perm s = .ok ((), s') ∧
      Stocked s' root lk' lu paths spare ∧
      Remapped s s' {root} lk lk' root
        (setPages (translate s.mem root) va (pageCount va len) (mappedEntry pa perm)) := by
  have hroot : root ∈ ({root} : Set UInt64) := rfl
  have hone : OneFrame s.mem root va pa (pageCount va len) := by
    intro i hi pte hpte
    rw [hfree i hi] at hpte
    cases hpte
  have hless : lacking s.mem root (tablePaths va (pageCount va len)) ≤
      lacking s.mem root paths :=
    Finset.card_le_card (Finset.filter_subset_filter _ hpaths)
  have henough := h.enough
  obtain ⟨s', hrun⟩ : ∃ s', vmMappages root va pa len perm s = .ok ((), s') := by
    rw [hrange.vmMappages_eq]
    rcases vmMappagesLoop_cases pa perm pa h.frames.tables h.frames.kern hroot
        hrange.count.2 with ⟨_, hdone⟩ | ⟨hnot, _⟩
    · exact hdone
    · exact absurd ⟨hone, by omega⟩ hnot
  have hloop := hrun
  rw [hrange.vmMappages_eq] at hloop
  obtain ⟨lk', hmap⟩ := vmMappagesLoop_spec h.frames.tables h.frames.kern hroot
    hrange.count.2 hloop
  obtain ⟨lk'', hkern, hsupply, hnone⟩ := vmMappagesLoop_supply h.frames.tables h.frames.kern
    hroot hrange.count.2 hloop
  obtain rfl : lk'' = lk' := hkern.list.chain.unique hmap.frames.list.chain
  refine ⟨s', lk'', hrun, ⟨?_, h.short, ?_⟩, hmap⟩
  · refine h.frames.remapped_shrink hroot hmap fun x _ f hf => ?_
    unfold setPages at hf
    split at hf
    · rw [mappedEntry_hidden pa hperm huser] at hf
      cases hf
    · exact hf
  · have hsplit : lacking s.mem root (tablePaths va (pageCount va len) ∪ paths) =
        lacking s.mem root (tablePaths va (pageCount va len)) + lacking s'.mem root paths :=
      lacking_union fun q hq => hnone q (h.short q hq)
    rw [Finset.union_eq_right.mpr hpaths] at hsplit
    omega

theorem Stocked.take (h : Stocked s root lk lu paths (spare + 1)) :
    ∃ page rest, lk = page :: rest ∧ pmemAlloc true s = .ok (page, s.taken true) ∧
      Stocked (s.taken true) root rest lu paths spare ∧
      ∀ t, IsTable s.mem {root} t → SamePage t s.mem (s.taken true).mem := by
  have henough := h.enough
  rcases h.frames.kern.list.alloc_cases with ⟨page, rest, rfl, hrun, hsupply⟩ | ⟨hnone, _⟩
  · obtain ⟨rest', heq, hframes, hsame⟩ := h.frames.take hrun
    obtain ⟨_, rfl⟩ := List.cons.inj heq
    refine ⟨page, rest, rfl, hrun, ⟨hframes, h.short, ?_⟩, hsame⟩
    have hlacking : lacking (s.taken true).mem root paths = lacking s.mem root paths := by
      refine lacking_congr fun q hq => ?_
      rw [walk_of_samePages (Set.mem_singleton root) hsame (Nat.le_succ_of_le (h.short q hq))]
    omega
  · omega

/-! The tables for blocks of two megabytes. -/

def blockPaths (addrs : List UInt64) : Finset (List Vpn) :=
  (addrs.map fun a => [vpn a 2]).toFinset ∪ (addrs.map fun a => [vpn a 2, vpn a 1]).toFinset

theorem length_of_blockPaths {addrs : List UInt64} {q : List Vpn} (hq : q ∈ blockPaths addrs) :
    q.length ≤ pgtableToplevel := by
  rcases Finset.mem_union.mp hq with hq | hq
  · obtain ⟨a, _, rfl⟩ := List.mem_map.mp (List.mem_toFinset.mp hq)
    exact Nat.le_succ 1
  · obtain ⟨a, _, rfl⟩ := List.mem_map.mp (List.mem_toFinset.mp hq)
    exact Nat.le_refl 2

theorem card_blockPaths (addrs : List UInt64) :
    (blockPaths addrs).card ≤ addrs.length + addrs.length := by
  refine (Finset.card_union_le _ _).trans (Nat.add_le_add ?_ ?_)
  all_goals
    refine (List.toFinset_card_le _).trans ?_
    rw [List.length_map]

theorem vpn_block {x y : UInt64} (h : x.toNat / 2 ^ 21 = y.toNat / 2 ^ 21) :
    vpn x 2 = vpn y 2 ∧ vpn x 1 = vpn y 1 := by
  constructor
  all_goals
    apply Fin.ext
    change (vaToVpn x _).toNat = (vaToVpn y _).toNat
    rw [vaToVpn_toNat _ (by decide), vaToVpn_toNat _ (by decide)]
    omega

theorem tablePaths_subset {addrs : List UInt64} (hrange : va.toNat + pages * 4096 < 2 ^ 64)
    (hblocks : ∀ x, va.toNat ≤ x → x < va.toNat + pages * 4096 →
      ∃ a ∈ addrs, a.toNat / 2 ^ 21 = x / 2 ^ 21) :
    tablePaths va pages ⊆ blockPaths addrs := by
  induction pages generalizing va with
  | zero => exact Finset.empty_subset _
  | succ pages ih =>
      have hnext : (va + pgsize).toNat = va.toNat + 4096 := add_pgsize_toNat (by omega)
      refine Finset.union_subset ?_ (ih (by omega) fun x hlow hhigh =>
        hblocks x (by omega) (by omega))
      obtain ⟨a, ha, hblock⟩ := hblocks va.toNat (le_refl _) (by omega)
      obtain ⟨htop, hmid⟩ := vpn_block hblock
      intro q hq
      have hcases : q = [vpn a 2] ∨ q = [vpn a 2, vpn a 1] := by
        rw [htop, hmid]
        simpa [pathsFrom] using hq
      rcases hcases with rfl | rfl
      · exact Finset.mem_union_left _ (List.mem_toFinset.mpr (List.mem_map_of_mem ha))
      · exact Finset.mem_union_right _ (List.mem_toFinset.mpr (List.mem_map_of_mem ha))

/-! A list of ranges. -/

namespace Mapping

def Covers (mapping : Mapping) (x : UInt64) : Prop :=
  mapping.va.toNat ≤ x.toNat ∧ x.toNat < mapping.va.toNat + mapping.len.toNat

instance (mapping : Mapping) (x : UInt64) : Decidable (mapping.Covers x) :=
  inferInstanceAs (Decidable (_ ∧ _))

def entry (mapping : Mapping) (x : UInt64) : UInt64 :=
  mapEntry (mapping.pa + (pgrounddown x - mapping.va)) mapping.perm

structure Fits (mapping : Mapping) (addrs : List UInt64) : Prop where
  range : MapRange mapping.va mapping.pa mapping.len
  whole : mapping.len.toNat % 4096 = 0
  perm : mapping.perm.toNat < 1024
  hidden : mapping.perm &&& pteU = 0
  blocks : ∀ x, mapping.va.toNat ≤ x → x < mapping.va.toNat + mapping.len.toNat →
    ∃ a ∈ addrs, a.toNat / 2 ^ 21 = x / 2 ^ 21

def Apart (mapping other : Mapping) : Prop :=
  mapping.va.toNat + mapping.len.toNat ≤ other.va.toNat ∨
    other.va.toNat + other.len.toNat ≤ mapping.va.toNat

variable {mapping : Mapping} {addrs : List UInt64} {x : UInt64}

theorem Fits.count (h : mapping.Fits addrs) :
    pageCount mapping.va mapping.len * 4096 = mapping.len.toNat := by
  have hwhole := h.whole
  rw [pageCount_spec h.range.va_aligned h.range.nonempty h.range.wraps]
  omega

theorem Fits.setPages (h : mapping.Fits addrs) (map : UInt64 → Option UInt64) (x : UInt64) :
    setPages map mapping.va (pageCount mapping.va mapping.len)
      (mappedEntry mapping.pa mapping.perm) x =
      if mapping.Covers x then some (mapping.entry x) else map x := by
  have hcount := h.count
  have haligned := (aligned_iff _).mp h.range.va_aligned
  unfold Mem.setPages
  by_cases hin : mapping.Covers x
  · rw [if_pos hin]
    unfold Covers at hin
    rw [if_pos (by omega)]
    unfold mappedEntry entry mapEntry
    rw [VmCall.distance_eq h.range.va_aligned (by omega)]
  · rw [if_neg hin]
    unfold Covers at hin
    rw [if_neg (by omega)]

theorem Apart.not_covers {other : Mapping} (h : mapping.Apart other) (hx : mapping.Covers x) :
    ¬ other.Covers x := by
  unfold Apart at h
  unfold Covers at hx ⊢
  omega

end Mapping

variable {s'' : MemState} {addrs : List UInt64} {mappings : List Mapping}

structure Maps (s s' : MemState) (root : UInt64) (lk lk' : List UInt64)
    (mappings : List Mapping) : Prop where
  suffix : ∃ taken, lk = taken ++ lk'
  covered : ∀ mapping ∈ mappings, ∀ x, x < vaMax → mapping.Covers x →
    translate s'.mem root x = some (mapping.entry x)
  others : ∀ x, x < vaMax → (∀ mapping ∈ mappings, ¬ mapping.Covers x) →
    translate s'.mem root x = translate s.mem root x
  added : ∀ page, IsTable s'.mem {root} page → IsTable s.mem {root} page ∨ page ∈ lk
  kernelPgtbl : s'.kernelPgtbl = s.kernelPgtbl

theorem Maps.refl (s : MemState) (root : UInt64) (lk : List UInt64) :
    Maps s s root lk lk [] :=
  ⟨⟨[], rfl⟩, fun _ hmem => absurd hmem List.not_mem_nil, fun _ _ _ => rfl, fun _ => .inl, rfl⟩

theorem Maps.append {lk' lk'' : List UInt64} {mappings' : List Mapping}
    (h : Maps s s' root lk lk' mappings) (h' : Maps s' s'' root lk' lk'' mappings')
    (hapart : ∀ mapping ∈ mappings, ∀ other ∈ mappings', mapping.Apart other) :
    Maps s s'' root lk lk'' (mappings ++ mappings') := by
  obtain ⟨taken, rfl⟩ := h.suffix
  obtain ⟨taken', hsuffix⟩ := h'.suffix
  refine ⟨⟨taken ++ taken', by rw [List.append_assoc, ← hsuffix]⟩, ?_, ?_, ?_,
    h'.kernelPgtbl.trans h.kernelPgtbl⟩
  · intro mapping hmem x hx hcovers
    rcases List.mem_append.mp hmem with hmem | hmem
    · rw [h'.others x hx fun other hother => (hapart mapping hmem other hother).not_covers hcovers]
      exact h.covered mapping hmem x hx hcovers
    · exact h'.covered mapping hmem x hx hcovers
  · intro x hx hnone
    rw [h'.others x hx fun other hother => hnone other (List.mem_append_right _ hother)]
    exact h.others x hx fun other hother => hnone other (List.mem_append_left _ hother)
  · intro page htable
    rcases h'.added page htable with htable | hmem
    · exact h.added page htable
    · exact .inr (List.mem_append_right taken hmem)

theorem Stocked.mapOne {mapping : Mapping} (h : Stocked s root lk lu (blockPaths addrs) spare)
    (hfit : mapping.Fits addrs)
    (hfree : ∀ x, x < vaMax → mapping.Covers x → translate s.mem root x = none) :
    ∃ s' lk', vmMappages root mapping.va mapping.pa mapping.len mapping.perm s =
        .ok ((), s') ∧
      Stocked s' root lk' lu (blockPaths addrs) spare ∧ Maps s s' root lk lk' [mapping] := by
  have hcount := hfit.count
  have hroom := hfit.range.room
  rw [show vaMax.toNat = 2 ^ 38 from rfl] at hroom
  obtain ⟨s', lk', hrun, h', hmap⟩ := h.map hfit.range hfit.perm hfit.hidden
    (tablePaths_subset (by omega) (by rw [hcount]; exact hfit.blocks)) (fun i hi => by
      have hat := pageAt_toNat (show mapping.va.toNat + i * 4096 < 2 ^ 64 by omega)
      refine hfree _ ?_ ⟨by omega, by omega⟩
      rw [UInt64.lt_iff_toNat_lt, hat]
      change _ < 2 ^ 38
      omega)
  have htranslate : ∀ x, x < vaMax → translate s'.mem root x =
      if mapping.Covers x then some (mapping.entry x) else translate s.mem root x :=
    fun x hx => (hmap.translate x hx).trans (hfit.setPages _ x)
  refine ⟨s', lk', hrun, h', hmap.suffix, ?_, ?_, hmap.added, hmap.kernelPgtbl⟩
  · intro other hmem x hx hcovers
    obtain rfl := List.mem_singleton.mp hmem
    rw [htranslate x hx, if_pos hcovers]
  · intro x hx hnone
    rw [htranslate x hx, if_neg (hnone mapping List.mem_cons_self)]

theorem Stocked.mapAll (h : Stocked s root lk lu (blockPaths addrs) spare)
    (hfits : ∀ mapping ∈ mappings, mapping.Fits addrs)
    (hapart : mappings.Pairwise Mapping.Apart)
    (hfree : ∀ mapping ∈ mappings, ∀ x, x < vaMax → mapping.Covers x →
      translate s.mem root x = none) :
    ∃ s' lk', mapAll root mappings s = .ok ((), s') ∧
      Stocked s' root lk' lu (blockPaths addrs) spare ∧ Maps s s' root lk lk' mappings := by
  induction mappings generalizing s lk with
  | nil => exact ⟨s, lk, rfl, h, .refl s root lk⟩
  | cons mapping mappings ih =>
      obtain ⟨hfirst, hrest⟩ := List.pairwise_cons.mp hapart
      obtain ⟨s₁, lk₁, hrun, h₁, hmaps⟩ := h.mapOne (hfits mapping List.mem_cons_self)
        (hfree mapping List.mem_cons_self)
      obtain ⟨s', lk', hrun', h', hmaps'⟩ := ih h₁
        (fun other hmem => hfits other (List.mem_cons_of_mem _ hmem)) hrest
        (fun other hmem x hx hcovers => by
          rw [hmaps.others x hx]
          · exact hfree other (List.mem_cons_of_mem _ hmem) x hx hcovers
          · intro here hhere hcovers'
            obtain rfl := List.mem_singleton.mp hhere
            exact (hfirst other hmem).not_covers hcovers' hcovers)
      refine ⟨s', lk', (Exec.bind_of_ok hrun).trans hrun', h', hmaps.append hmaps' ?_⟩
      intro here hhere
      obtain rfl := List.mem_singleton.mp hhere
      exact hfirst

/-! The ranges of `kvm_init`. -/

def kernelBlocks : List UInt64 :=
  [shutdownReg, clintBase, plicBase, plicBase + 0x200000, uartBase, trampoline] ++
    (List.range 64).map fun b => kernelBase + UInt64.ofNat b * 0x200000

theorem kernelBlocks_memory {x : Nat} (hlow : kernelBase.toNat ≤ x) (hhigh : x < allocEnd.toNat) :
    ∃ a ∈ kernelBlocks, a.toNat / 2 ^ 21 = x / 2 ^ 21 := by
  have hbase : kernelBase.toNat = 0x80000000 := rfl
  have hend : allocEnd.toNat = 0x88000000 := rfl
  refine ⟨kernelBase + UInt64.ofNat ((x - kernelBase.toNat) / 2 ^ 21) * 0x200000,
    List.mem_append_right _ (List.mem_map.mpr ⟨_, List.mem_range.mpr (by omega), rfl⟩), ?_⟩
  rw [UInt64.toNat_add, UInt64.toNat_mul, UInt64.toNat_ofNat_of_lt'
    (show (x - kernelBase.toNat) / 2 ^ 21 < 2 ^ 64 by omega)]
  change (kernelBase.toNat + _ * 0x200000 % _) % _ / _ = _
  omega

namespace LinkedImage

variable (image : LinkedImage)

theorem trampolinePage_toNat : image.trampolinePage.toNat = image.kernelData.toNat - 4096 := by
  have hcode := image.code
  refine UInt64.toNat_sub_of_le _ _ ?_
  rw [UInt64.le_iff_toNat_le]
  change 4096 ≤ _
  omega

end LinkedImage

theorem len_toNat {lo hi : UInt64} (h : lo.toNat ≤ hi.toNat) :
    (hi - lo).toNat = hi.toNat - lo.toNat :=
  UInt64.toNat_sub_of_le _ _ (UInt64.le_iff_toNat_le.mpr h)

theorem fits_memory {lo hi perm : UInt64} (hlo : kernelBase.toNat ≤ lo.toNat)
    (hhi : hi.toNat ≤ allocEnd.toNat) (hlt : lo.toNat < hi.toNat)
    (haligned : lo.toNat % 4096 = 0) (haligned' : hi.toNat % 4096 = 0)
    (hperm : perm.toNat < 1024) (hhidden : perm &&& pteU = 0) :
    (Mapping.mk lo lo (hi - lo) perm).Fits kernelBlocks := by
  have hlen := len_toNat (Nat.le_of_lt hlt)
  have hbase : kernelBase.toNat = 0x80000000 := rfl
  have hend : allocEnd.toNat = 0x88000000 := rfl
  refine ⟨⟨(aligned_iff lo).mpr haligned, (aligned_iff lo).mpr haligned, ?_, ?_⟩, ?_, hperm,
    hhidden, fun x hlow hhigh => kernelBlocks_memory (by dsimp only at hlow; omega) ?_⟩
  · rw [UInt64.lt_iff_toNat_lt]
    dsimp only
    rw [hlen]
    change 0 < _
    omega
  · dsimp only
    rw [hlen, show vaMax.toNat = 2 ^ 38 from rfl]
    omega
  · dsimp only
    rw [hlen]
    omega
  · dsimp only at hhigh
    rw [hlen] at hhigh
    omega

theorem fits_blocks {va pa len perm : UInt64} (hva : va.toNat % 4096 = 0)
    (hpa : pa.toNat % 4096 = 0) (hlen : 0 < len.toNat) (hwhole : len.toNat % 4096 = 0)
    (hroom : va.toNat + len.toNat ≤ 2 ^ 38) (hperm : perm.toNat < 1024)
    (hhidden : perm &&& pteU = 0)
    (hblocks : ∀ b ∈ List.range' (va.toNat / 2 ^ 21)
      ((va.toNat + len.toNat - 1) / 2 ^ 21 + 1 - va.toNat / 2 ^ 21),
      ∃ a ∈ kernelBlocks, a.toNat / 2 ^ 21 = b) :
    (Mapping.mk va pa len perm).Fits kernelBlocks := by
  refine ⟨⟨(aligned_iff va).mpr hva, (aligned_iff pa).mpr hpa,
    UInt64.lt_iff_toNat_lt.mpr hlen, hroom⟩, hwhole, hperm, hhidden, fun x hlow hhigh => ?_⟩
  dsimp only at hlow hhigh
  refine hblocks _ (List.mem_range'.mpr ⟨x / 2 ^ 21 - va.toNat / 2 ^ 21, ?_, ?_⟩)
  · omega
  · omega

theorem kernelMappings_fit (image : LinkedImage) :
    ∀ mapping ∈ kernelMappings image, mapping.Fits kernelBlocks := by
  have haligned := image.data_aligned
  have hbegin := image.aligned
  have hcode := image.code
  have hdata := image.data
  have hroom := image.room
  have htrampoline := image.trampolinePage_toNat
  have hfirst : kernelBase.toNat ≤ kernelBase.toNat := Nat.le_refl _
  have hsecond := Nat.le_trans (Nat.le_add_right _ 4096) hcode
  intro mapping hmem
  simp only [kernelMappings, List.mem_cons, List.not_mem_nil, or_false] at hmem
  rcases hmem with rfl | rfl | rfl | rfl | rfl | rfl | rfl | rfl | rfl
  · exact fits_blocks (by decide) (by decide) (by decide) (by decide) (by decide) (by decide)
      (by decide) (by decide)
  · exact fits_blocks (by decide) (by decide) (by decide) (by decide) (by decide) (by decide)
      (by decide) (by decide)
  · exact fits_blocks (by decide) (by decide) (by decide) (by decide) (by decide) (by decide)
      (by decide) (by decide)
  · exact fits_blocks (by decide) (by decide) (by decide) (by decide) (by decide) (by decide)
      (by decide) (by decide)
  · exact fits_blocks (by decide) (by decide) (by decide) (by decide) (by decide) (by decide)
      (by decide) (by decide)
  · exact fits_memory hfirst (by omega) (by omega) (by decide) haligned (by decide)
      (by decide)
  · exact fits_memory hsecond (by omega) hdata haligned hbegin (by decide) (by decide)
  · have hmore : 0 < kernPages * 4096 := by decide
    exact fits_memory image.base (Nat.le_refl _) (by omega) hbegin (by decide) (by decide)
      (by decide)
  · exact fits_blocks (by decide) (by omega) (by decide) (by decide) (by decide) (by decide)
      (by decide) (by decide)

theorem kernelMappings_apart (image : LinkedImage) :
    (kernelMappings image).Pairwise Mapping.Apart := by
  have hcode := image.code
  have hdata := image.data
  have hroom := image.room
  have hmore : 0 < kernPages * 4096 := by decide
  have htext := len_toNat (Nat.le_trans (Nat.le_add_right _ _) hcode)
  have hrest := len_toNat (Nat.le_of_lt hdata)
  have hpool := len_toNat (Nat.le_trans (Nat.le_add_right _ _) hroom)
  have hbase : kernelBase.toNat = 0x80000000 := rfl
  have hend : allocEnd.toNat = 0x88000000 := rfl
  have htop : trampoline.toNat = 2 ^ 38 - 4096 := rfl
  have huart : uartBase.toNat = 0x10000000 := rfl
  have hvirtio : virtioBase.toNat = 0x10001000 := rfl
  have hclint : clintBase.toNat = 0x2000000 := rfl
  have hclintSize : clintRegionSize.toNat = 0x10000 := rfl
  have hplic : plicBase.toNat = 0xc000000 := rfl
  have hplicSize : plicRegionSize.toNat = 0x400000 := rfl
  have hshutdown : shutdownReg.toNat = 0x100000 := rfl
  have hpage : pgsize.toNat = 4096 := rfl
  simp only [kernelMappings, List.pairwise_cons, List.forall_mem_cons, List.not_mem_nil,
    false_implies, implies_true, List.Pairwise.nil, and_true, Mapping.Apart]
  omega

/-! `kvm_init` and the stacks. -/

def kstack (id : UInt64) : UInt64 := trapframe - (id + 1) * 2 * pgsize

def mapStack (pgtbl id : UInt64) : MemM Unit := do
  let page ← pmemAlloc true
  vmMappages pgtbl (kstack id) page pgsize (pteR ||| pteW)

def mapStacks (pgtbl : UInt64) : List UInt64 → MemM Unit
  | [] => return
  | id :: ids => do
      mapStack pgtbl id
      mapStacks pgtbl ids

def stackMapping (id page : UInt64) : Mapping := ⟨kstack id, page, pgsize, pteR ||| pteW⟩

theorem kstack_toNat {id : UInt64} (h : id.toNat < 64) :
    (kstack id).toNat = 2 ^ 38 - 8192 - (id.toNat + 1) * 8192 := by
  have hdown : ((id + 1) * 2 * pgsize).toNat = (id.toNat + 1) * 8192 := by
    rw [UInt64.toNat_mul, UInt64.toNat_mul, UInt64.toNat_add]
    change ((id.toNat + 1) % _ * 2 % _ * 4096) % _ = _
    omega
  unfold kstack
  rw [UInt64.toNat_sub_of_le, hdown]
  · rfl
  · rw [UInt64.le_iff_toNat_le, hdown]
    change _ ≤ 2 ^ 38 - 8192
    omega

theorem kstack_fits {id page : UInt64} (h : id.toNat < 64) (hpage : page.toNat % 4096 = 0) :
    (stackMapping id page).Fits kernelBlocks := by
  have hat := kstack_toNat h
  have hlen : pgsize.toNat = 4096 := rfl
  refine fits_blocks (by omega) hpage (by decide) (by decide) (by omega) (by decide) (by decide) ?_
  intro b hb
  obtain ⟨k, hk, rfl⟩ := List.mem_range'.mp hb
  refine ⟨trampoline, by decide, ?_⟩
  change (2 ^ 38 - 4096) / 2 ^ 21 = _
  omega

theorem stacks_apart {id id' : UInt64} (h : id.toNat < 64) (h' : id'.toNat < 64) (hne : id ≠ id')
    (page page' : UInt64) : (stackMapping id page).Apart (stackMapping id' page') := by
  have hat := kstack_toNat h
  have hat' := kstack_toNat h'
  have hlen : pgsize.toNat = 4096 := rfl
  have hdiffer : id.toNat ≠ id'.toNat := fun heq => hne (UInt64.toNat_inj.mp heq)
  unfold Mapping.Apart stackMapping
  dsimp only
  omega

theorem Maps.taken {page : UInt64} {rest : List UInt64}
    (hsame : ∀ t, IsTable s.mem {root} t → SamePage t s.mem (s.taken true).mem) :
    Maps s (s.taken true) root (page :: rest) rest [] :=
  ⟨⟨[page], rfl⟩, fun _ hmem => absurd hmem List.not_mem_nil,
    fun x _ _ => translate_of_samePages (Set.mem_singleton root) hsame x,
    fun _ htable => .inl ((isTable_of_samePages hsame).mp htable),
    MemState.kernelPgtbl_setRegion _ _ _⟩

theorem mem_stackMappings {ids pages : List UInt64} {mapping : Mapping}
    (h : mapping ∈ List.zipWith stackMapping ids pages) :
    ∃ id ∈ ids, ∃ page, mapping = stackMapping id page := by
  rw [← List.map_uncurry_zip_eq_zipWith] at h
  obtain ⟨⟨id, page⟩, hmem, rfl⟩ := List.mem_map.mp h
  exact ⟨id, (List.of_mem_zip hmem).1, page, rfl⟩

theorem Stocked.mapStacks {ids : List UInt64}
    (h : Stocked s root lk lu (blockPaths kernelBlocks) ids.length)
    (hids : ∀ id ∈ ids, id.toNat < 64) (hnodup : ids.Nodup)
    (hfree : ∀ id ∈ ids, ∀ page x, x < vaMax → (stackMapping id page).Covers x →
      translate s.mem root x = none) :
    ∃ s' lk' pages, mapStacks root ids s = .ok ((), s') ∧
      Stocked s' root lk' lu (blockPaths kernelBlocks) 0 ∧ pages.length = ids.length ∧
      Maps s s' root lk lk' (List.zipWith stackMapping ids pages) ∧ pages.Nodup ∧
      ∀ page ∈ pages, page ∈ lk ∧ page ∉ lk' ∧ ¬ IsTable s'.mem {root} page := by
  induction ids generalizing s lk with
  | nil =>
      exact ⟨s, lk, [], rfl, h, rfl, .refl s root lk, List.nodup_nil,
        fun _ hmem => absurd hmem List.not_mem_nil⟩
  | cons id ids ih =>
      obtain ⟨page, rest, rfl, halloc, h₁, hsame⟩ := h.take
      have htaken : Maps s (s.taken true) root (page :: rest) rest [] := .taken hsame
      have hmem : page ∈ page :: rest := List.mem_cons_self
      have hin := h.frames.kern.list.inRegion page hmem
      obtain ⟨hnot, hnodup'⟩ := List.nodup_cons.mp h.frames.kern.list.nodup
      obtain ⟨hother, hrest⟩ := List.nodup_cons.mp hnodup
      have hid := hids id List.mem_cons_self
      obtain ⟨s₂, lk₂, hrun, h₂, hmaps⟩ := h₁.mapOne (kstack_fits hid hin.aligned)
        fun x hx hcovers => by
          rw [htaken.others x hx fun _ hmem => absurd hmem List.not_mem_nil]
          exact hfree id List.mem_cons_self page x hx hcovers
      have hsofar := htaken.append hmaps fun _ hmem => absurd hmem List.not_mem_nil
      have hapart : ∀ other ∈ ids, ∀ page',
          (stackMapping id page).Apart (stackMapping other page') := fun other hmem' page' =>
        stacks_apart hid (hids other (List.mem_cons_of_mem _ hmem'))
          (fun heq => hother (heq ▸ hmem')) page page'
      obtain ⟨s', lk', pages, hrun', h', hlength, hmaps', hpages, haway⟩ := ih h₂
        (fun other hmem' => hids other (List.mem_cons_of_mem _ hmem')) hrest
        (fun other hmem' page' x hx hcovers => by
          rw [hsofar.others x hx]
          · exact hfree other (List.mem_cons_of_mem _ hmem') page' x hx hcovers
          · intro here hhere hcovers'
            obtain rfl := List.mem_singleton.mp hhere
            exact (hapart other hmem' page').not_covers hcovers' hcovers)
      obtain ⟨taken, hsuffix⟩ := hmaps.suffix
      obtain ⟨taken', hsuffix'⟩ := hmaps'.suffix
      have hsub : ∀ q ∈ lk₂, q ∈ rest := fun q hq => hsuffix ▸ List.mem_append_right taken hq
      have hsub' : ∀ q ∈ lk', q ∈ lk₂ := fun q hq => hsuffix' ▸ List.mem_append_right taken' hq
      refine ⟨s', lk', page :: pages, ?_, h', congrArg Nat.succ hlength,
        hsofar.append hmaps' ?_, List.nodup_cons.mpr ⟨?_, hpages⟩, ?_⟩
      · have hstack : mapStack root id s = .ok ((), s₂) := (Exec.bind_of_ok halloc).trans hrun
        exact (Exec.bind_of_ok hstack).trans hrun'
      · intro here hhere other hother'
        obtain rfl := List.mem_singleton.mp hhere
        obtain ⟨id', hid', page', rfl⟩ := mem_stackMappings hother'
        exact hapart id' hid' page'
      · exact fun hpage => hnot (hsub page (haway page hpage).1)
      · intro q hq
        rcases List.mem_cons.mp hq with rfl | hq
        · refine ⟨hmem, fun hq => hnot (hsub q (hsub' q hq)), fun htable => ?_⟩
          rcases hmaps'.added q htable with htable | hq
          · rcases hmaps.added q htable with htable | hq
            · exact h.frames.kern.fresh q hmem ((isTable_of_samePages hsame).mp htable)
            · exact hnot hq
          · exact hnot (hsub q hq)
        · obtain ⟨hq₁, hq₂, hq₃⟩ := haway q hq
          exact ⟨List.mem_cons_of_mem _ (hsub q hq₁), hq₂, hq₃⟩

theorem Frames.setKernelPgtbl (h : Frames s roots lk lu ∅) (k : UInt64) :
    Frames { s with kernelPgtbl := k } roots lk lu ∅ :=
  ⟨h.tables, ⟨⟨h.kern.list.chain, h.kern.list.nodup, h.kern.list.inRegion⟩, h.kern.fresh⟩,
    ⟨h.user.chain, h.user.nodup, h.user.inRegion⟩, h.nonzero, h.tables_apart, h.kern_apart,
    h.owned_in, h.held_in, h.tenancy⟩

theorem writeKernelPgtbl_bind (pgtbl : UInt64) (f : Unit → MemM Unit) (s : MemState) :
    (writeKernelPgtbl pgtbl >>= f) s = f () { s with kernelPgtbl := pgtbl } := rfl

/-- There are pages for all tables of the kernel and for the stacks. -/
theorem kvmInit_spec (image : LinkedImage) (h : Frames s ∅ lk lu ∅)
    (hsupply : 1024 ≤ supply s true lk) :
    ∃ root rest s₁ s' lk', lk = root :: rest ∧ kvmInit image s = .ok ((), s') ∧
      s₁.kernelPgtbl = root ∧ (∀ x, translate s₁.mem root x = none) ∧
      Stocked s' root lk' lu (blockPaths kernelBlocks) 64 ∧
      Maps s₁ s' root rest lk' (kernelMappings image) := by
  rcases h.kern.list.alloc_cases with ⟨root, rest, rfl, hrun, hrest⟩ | ⟨hnone, _⟩
  · obtain ⟨rest', _, _, hframes, hbare, _⟩ := h.new_root hrun
    obtain ⟨_, heq, hlist⟩ := h.kern.list.alloc hrun
    obtain ⟨_, rfl⟩ := List.cons.inj heq
    rw [insert_empty_eq] at hframes
    have haligned := fun q hq => (h.kern.list.inRegion q hq).aligned
    let cleared := (s.taken true).setMem ((s.taken true).mem.memset root.toNat 0 4096)
    have hcleared : FreeList cleared true rest := by
        refine hlist.congr rfl fun q hq => ?_
        refine (onlyPage_memset root _ 0).samePage (haligned root List.mem_cons_self)
          (haligned q (List.mem_cons_of_mem _ hq)) ?_
        rintro rfl
        exact (List.nodup_cons.mp h.kern.list.nodup).1 hq
    obtain rfl := hframes.kern.list.chain.unique hcleared.chain
    have hnonzero : root ≠ 0 := h.kern.list.chain.2.1
    let s₁ : MemState := { cleared with kernelPgtbl := root }
    have hcard := card_blockPaths kernelBlocks
    have hlength : kernelBlocks.length = 70 := rfl
    have hfew : lacking s₁.mem root (blockPaths kernelBlocks) ≤ (blockPaths kernelBlocks).card :=
      Finset.card_filter_le _ _
    have hsame : supply s₁ true rest' = supply (s.taken true) true rest' := rfl
    have hstocked : Stocked s₁ root rest' lu (blockPaths kernelBlocks) 64 :=
      ⟨hframes.setKernelPgtbl root, fun _ => length_of_blockPaths, by omega⟩
    obtain ⟨s', lk', hmap, h', hmaps⟩ := hstocked.mapAll (kernelMappings_fit image)
      (kernelMappings_apart image) fun _ _ x _ _ => hbare x
    refine ⟨root, rest', s₁, s', lk', rfl, ?_, rfl, hbare, h', hmaps⟩
    unfold kvmInit massert
    rw [Exec.bind_of_ok hrun, writeKernelPgtbl_bind, updateMem_bind,
      Exec.require_of_true hnonzero, pure_bind]
    exact hmap
  · omega

end UnoOS.Mem
