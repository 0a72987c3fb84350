import UnoOS.Mem.Frames
import UnoOS.Mem.Remap

namespace UnoOS.Mem

open UnoOS.Lib
open UnoOS.Lib.Radix (walk walk_concat_of_some)

/-! What a table has from the trap frame on: two pages of the kernel, and nothing in
the half of the top table that is for addresses from `VA_MAX` on. -/

/-- No table is linked for the addresses from `VA_MAX` on. -/
def NoUpper (m : Memory) (root : UInt64) : Prop :=
  ∀ idx : Vpn, 256 ≤ idx.val → links m root idx = none

structure KeepsUpper (roots : Set UInt64) (m m' : Memory) : Prop where
  links : ∀ r ∈ roots, NoUpper m r → NoUpper m' r
  kernel : ∀ r ∈ roots, ∀ va, trapframe ≤ va → va < vaMax →
    translate m' r va = translate m r va

variable {s s' : MemState} {m m' m'' : Memory} {roots roots' : Set UInt64}
  {l : List UInt64} {root va t : UInt64}

theorem KeepsUpper.refl (roots : Set UInt64) (m : Memory) : KeepsUpper roots m m :=
  ⟨fun _ _ h => h, fun _ _ _ _ _ => rfl⟩

theorem KeepsUpper.trans (h : KeepsUpper roots m m') (h' : KeepsUpper roots m' m'') :
    KeepsUpper roots m m'' :=
  ⟨fun r hr hupper => h'.links r hr (h.links r hr hupper), fun r hr va hva hmax =>
    (h'.kernel r hr va hva hmax).trans (h.kernel r hr va hva hmax)⟩

theorem KeepsUpper.mono (h : KeepsUpper roots m m') (hsub : roots' ⊆ roots) :
    KeepsUpper roots' m m' :=
  ⟨fun r hr => h.links r (hsub hr), fun r hr => h.kernel r (hsub hr)⟩

theorem NoUpper.of_samePage (h : NoUpper m root) (hsame : SamePage root m m') :
    NoUpper m' root := by
  intro idx hidx
  rw [links_of_samePage hsame]
  exact h idx hidx

theorem isTable_root (hroot : root ∈ roots) : IsTable m roots root :=
  ⟨root, hroot, [], Nat.zero_le _, rfl⟩

theorem KeepsUpper.of_samePages
    (hsame : ∀ t, IsTable m roots t → SamePage t m m') : KeepsUpper roots m m' :=
  ⟨fun r hr h => h.of_samePage (hsame r (isTable_root hr)), fun _ hr va _ _ =>
    translate_of_samePages hr hsame va⟩

theorem IsTable.mono (hsub : roots' ⊆ roots) (h : IsTable m roots' t) :
    IsTable m roots t := by
  obtain ⟨r, hr, p, hp, hwalk⟩ := h
  exact ⟨r, hsub hr, p, hp, hwalk⟩

theorem PageTables.mono (h : PageTables m roots) (hsub : roots' ⊆ roots) :
    PageTables m roots' :=
  ⟨h.distinct.mono hsub, fun r hr => h.aligned r (hsub hr),
    fun r hr => h.nonzero r (hsub hr)⟩

theorem FreshFrames.mono (h : FreshFrames s roots l) (hsub : roots' ⊆ roots) :
    FreshFrames s roots' l :=
  ⟨h.list, fun page hpage htable => h.fresh page hpage (htable.mono hsub)⟩

theorem noUpper_memset (m : Memory) (t : UInt64) :
    NoUpper (m.memset t.toNat 0 4096) t := by
  intro idx _
  have hentry : entry (m.memset t.toNat 0 4096) t idx = 0 := by
    apply Memory.load64_of_zero
    intro k hk
    unfold entryAddr
    exact Memory.write_of_mem (by omega) (by omega)
  unfold links
  rw [hentry]
  rfl

/-- The table of an address is not the top one. -/
theorem noUpper_setEntry_leaf (h : PageTables m roots) (hroot : root ∈ roots)
    (hleaf : leafTable m root va = some t) (idx : Vpn) (pte : UInt64) {r : UInt64}
    (hr : r ∈ roots) (hupper : NoUpper m r) : NoUpper (setEntry m t idx pte) r := by
  intro idx' hidx'
  have hwalk : ∀ m', walk (links m') r [idx'] = links m' r idx' := by
    intro m'
    exact walk_concat_of_some (p := []) rfl idx'
  have hkept : walk (links (setEntry m t idx pte)) r [idx'] = walk (links m) r [idx'] :=
    walk_setEntry_leaf h hroot hleaf hr (Nat.le_succ 1)
  rw [← hwalk, hkept, hwalk]
  exact hupper idx' hidx'

theorem KeepsUpper.setEntry_leaf (h : PageTables m roots) (hroot : root ∈ roots)
    (hva : va < trapframe ∨ va = vaMax) (hleaf : leafTable m root va = some t)
    (pte : UInt64) : KeepsUpper roots m (setEntry m t (vpn va 0) pte) := by
  refine ⟨fun r hr => noUpper_setEntry_leaf h hroot hleaf _ pte hr, ?_⟩
  intro r hr x hx hmax
  have hle : va ≤ vaMax := by
    rcases hva with hlt | rfl
    · rw [UInt64.lt_iff_toNat_lt] at hlt
      rw [UInt64.le_iff_toNat_le]
      change va.toNat < 2 ^ 38 - 8192 at hlt
      change _ ≤ 2 ^ 38
      omega
    · exact UInt64.le_refl _
  rw [translate_setEntry_leaf h hroot hle hleaf pte hr hmax, if_neg]
  rintro ⟨_, hpage⟩
  rw [UInt64.le_iff_toNat_le] at hx
  rw [UInt64.lt_iff_toNat_lt] at hmax
  change 2 ^ 38 - 8192 ≤ x.toNat at hx
  change x.toNat < 2 ^ 38 at hmax
  rcases hva with hlt | rfl
  · rw [UInt64.lt_iff_toNat_lt] at hlt
    change va.toNat < 2 ^ 38 - 8192 at hlt
    omega
  · change x.toNat / 4096 = 2 ^ 38 / 4096 at hpage
    omega

theorem vmGetpte_noUpper {result : Option Nat} (htables : PageTables s.mem roots)
    (hframes : FreshFrames s roots l) (hroot : root ∈ roots) (hva : va < vaMax)
    (hrun : vmGetpte root va true s = .ok (result, s')) {r : UInt64} (hr : r ∈ roots)
    (hupper : NoUpper s.mem r) : NoUpper s'.mem r := by
  by_cases hne : r = root
  · subst hne
    rcases vmGetpte_cases htables hframes hr (UInt64.le_of_lt hva) with
      ⟨t, s₁, l', hok, _, _, _, hnone⟩ | ⟨_, message, hpanic⟩
    · rw [hok] at hrun
      cases hrun
      intro idx hidx
      have hwalk : ∀ m, walk (links m) r [idx] = links m r idx := by
        intro m
        exact walk_concat_of_some (p := []) rfl idx
      rw [← hwalk]
      refine (hnone [idx] (show [idx].length ≤ pgtableToplevel from Nat.le_succ 1)).mpr
        ⟨(hwalk _).trans (hupper idx hidx), ?_⟩
      intro hmem
      -- the first index of an address below `VA_MAX` is in the lower half
      have hfirst : idx = vpn va 2 := by
        simpa [pathsFrom] using hmem
      rw [hfirst, vpn_val va (le_refl 2)] at hidx
      rw [UInt64.lt_iff_toNat_lt] at hva
      change va.toNat < 2 ^ 38 at hva
      omega
    · rw [hpanic] at hrun
      cases hrun
  · have hsub : ({root} : Set UInt64) ⊆ roots := Set.singleton_subset_iff.mpr hroot
    obtain ⟨_, _, _, hgrown, _⟩ := vmGetpte_grows (htables.mono hsub)
      (hframes.mono hsub) (Set.mem_singleton root) hrun
    refine hupper.of_samePage (hgrown.mem r (htables.aligned r hr) ?_ ?_)
    · rintro ⟨r', hr', p, hp, hwalk⟩
      rw [Set.mem_singleton_iff.mp hr'] at hwalk
      exact hne (htables.distinct root hroot r hr p [] hp (Nat.zero_le _) r hwalk rfl).1.symm
    · exact fun hmem => hframes.fresh r hmem (isTable_root hr)

theorem vmMappagesLoop_noUpper {pages : Nat} {beg dst pa perm : UInt64}
    {value : Unit} (htables : PageTables s.mem roots)
    (hframes : FreshFrames s roots l) (hroot : root ∈ roots)
    (hrange : beg.toNat + pages * 4096 ≤ 2 ^ 38)
    (hrun : vmMappagesLoop root pa perm pages beg dst s = .ok (value, s')) {r : UInt64}
    (hr : r ∈ roots) (hupper : NoUpper s.mem r) : NoUpper s'.mem r := by
  induction pages generalizing s beg dst l with
  | zero =>
      cases hrun
      exact hupper
  | succ pages ih =>
      rw [vmMappagesLoop, Exec.bind_eq_ok] at hrun
      obtain ⟨result, s₁, hgetpte, hrun⟩ := hrun
      obtain ⟨t, l₁, rfl, hgrown, hleaf⟩ :=
        vmGetpte_grows htables hframes hroot hgetpte
      dsimp only at hrun
      rw [readMem_bind, massert_bind_eq_ok, updateMem_bind] at hrun
      obtain ⟨_, hrun⟩ := hrun
      have hbeg : beg < vaMax := by
        rw [UInt64.lt_iff_toNat_lt]
        change _ < 2 ^ 38
        omega
      have hnext : (beg + pgsize).toNat = beg.toNat + 4096 :=
        add_pgsize_toNat (by omega)
      have hset := remapped_setEntry hgrown.tables hgrown.frames hroot
        (UInt64.le_of_lt hbeg) hleaf (paToPte dst ||| perm ||| pteV)
      have hfound := vmGetpte_noUpper htables hframes hroot hbeg hgetpte hr hupper
      exact ih hset.tables hset.frames (by omega) hrun
        (noUpper_setEntry_leaf hgrown.tables hroot hleaf _ _ hr hfound)

section

variable {perm page : UInt64} {value : Unit} (htables : PageTables s.mem roots)
  (hframes : FreshFrames s roots l) (hroot : root ∈ roots)
  (hrun : vmMappages root va page pgsize perm s = .ok (value, s'))

include htables hframes hroot hrun

theorem mapPage_noUpper {r : UInt64} (hr : r ∈ roots) (hupper : NoUpper s.mem r) :
    NoUpper s'.mem r := by
  obtain ⟨_, _, hroom, hloop⟩ := Frames.mapPage_guard hrun
  exact vmMappagesLoop_noUpper htables hframes hroot (by omega) hloop hr hupper

theorem mapPage_keepsUpper (hva : va < trapframe) : KeepsUpper roots s.mem s'.mem := by
  refine ⟨fun r hr => mapPage_noUpper htables hframes hroot hrun hr, ?_⟩
  obtain ⟨_, _, hroom, hloop⟩ := Frames.mapPage_guard hrun
  obtain ⟨_, hmap⟩ := vmMappagesLoop_spec htables hframes hroot (by omega) hloop
  intro r hr x hx hmax
  by_cases hne : r = root
  · subst hne
    rw [hmap.translate x hmax]
    unfold setPages
    rw [if_neg]
    rw [UInt64.lt_iff_toNat_lt] at hva
    rw [UInt64.le_iff_toNat_le] at hx
    change va.toNat < 2 ^ 38 - 8192 at hva
    change 2 ^ 38 - 8192 ≤ x.toNat at hx
    omega
  · exact hmap.others r hr hne x hmax

end

end UnoOS.Mem
