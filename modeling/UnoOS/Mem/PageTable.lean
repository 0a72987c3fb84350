import UnoOS.Lib.Radix
import UnoOS.Mem.Kvm
import UnoOS.Mem.PmemLaws

namespace UnoOS.Mem

open UnoOS.Lib
open UnoOS.Lib.Radix (walk walk_congr walk_concat_of_some)

/-! Page tables as a radix forest. -/

def links (m : Memory) (pgtbl : UInt64) (idx : Vpn) : Option UInt64 :=
  if pteValid (entry m pgtbl idx) then some (pteToPa (entry m pgtbl idx))
  else none

/-- The indices of an address from a level down to the first. -/
def vpns (va : UInt64) : Nat → List Vpn
  | 0 => []
  | level + 1 => vpn va (level + 1) :: vpns va level

def leafTable (m : Memory) (pgtbl va : UInt64) : Option UInt64 :=
  walk (links m) pgtbl (vpns va pgtableToplevel)

def validEntry (pte : UInt64) : Option UInt64 :=
  if pteValid pte then some pte else none

def translate (m : Memory) (pgtbl va : UInt64) : Option UInt64 :=
  (leafTable m pgtbl va).bind fun t => validEntry (entry m t (vpn va 0))

structure PageTables (m : Memory) (roots : Set UInt64) : Prop where
  distinct : Radix.Distinct (links m) roots pgtableToplevel
  aligned : ∀ root ∈ roots, root.toNat % 4096 = 0
  nonzero : ∀ root ∈ roots, root ≠ 0

def IsTable (m : Memory) (roots : Set UInt64) (page : UInt64) : Prop :=
  Radix.Reached (links m) roots pgtableToplevel page

/-! Indices of addresses. -/

@[simp] theorem length_vpns (va : UInt64) (level : Nat) :
    (vpns va level).length = level := by
  induction level with
  | zero => rfl
  | succ level ih => simp [vpns, ih]

theorem vpn_val (va : UInt64) {level : Nat} (h : level ≤ 2) :
    (vpn va level).val = va.toNat / 2 ^ (12 + 9 * level) % 512 :=
  vaToVpn_toNat va h

theorem vpn_pgrounddown (va : UInt64) {level : Nat} (h : level ≤ 2) :
    vpn (pgrounddown va) level = vpn va level := by
  apply Fin.ext
  rw [vpn_val _ h, vpn_val _ h, pgrounddown_toNat, Nat.pow_add,
    ← Nat.div_div_eq_div_mul, ← Nat.div_div_eq_div_mul,
    Nat.mul_div_cancel _ (by decide)]

theorem vpns_pgrounddown (va : UInt64) {level : Nat} (h : level ≤ 2) :
    vpns (pgrounddown va) level = vpns va level := by
  induction level with
  | zero => rfl
  | succ level ih => rw [vpns, vpns, vpn_pgrounddown va h, ih (by omega)]

theorem same_vpns_iff {va va' : UInt64} (h : va < vaMax) (h' : va' ≤ vaMax) :
    (vpns va 2 = vpns va' 2 ∧ vpn va 0 = vpn va' 0) ↔
      va.toNat / 4096 = va'.toNat / 4096 := by
  have hlt : va.toNat < 2 ^ 38 := UInt64.lt_iff_toNat_lt.mp h
  have hle' : va'.toNat ≤ 2 ^ 38 := UInt64.le_iff_toNat_le.mp h'
  simp only [vpns, List.cons.injEq, and_true, Fin.ext_iff,
    vpn_val _ (show 2 ≤ 2 by omega), vpn_val _ (show 1 ≤ 2 by omega),
    vpn_val _ (show 0 ≤ 2 by omega), Nat.reduceMul, Nat.reduceAdd, Nat.reducePow]
  omega

/-! What leaves the tables alone leaves the translations alone. -/

variable {m m' : Memory} {roots : Set UInt64} {root va t page : UInt64}

theorem entry_of_samePage (h : SamePage t m m') (idx : Vpn) :
    entry m' t idx = entry m t idx :=
  h.load64 (8 * idx.val) (by omega)

theorem links_of_samePage (h : SamePage t m m') (idx : Vpn) :
    links m' t idx = links m t idx := by
  unfold links
  rw [entry_of_samePage h]

theorem isTable_aligned (hroots : ∀ root ∈ roots, root.toNat % 4096 = 0)
    (ht : IsTable m roots t) : t.toNat % 4096 = 0 := by
  obtain ⟨r, hr, p, _, hwalk⟩ := ht
  induction p using List.reverseRecOn with
  | nil =>
      cases hwalk
      exact hroots _ hr
  | append_singleton p i _ =>
      rw [Radix.walk_concat] at hwalk
      obtain ⟨t', _, hlink⟩ := Option.bind_eq_some_iff.mp hwalk
      unfold links at hlink
      split at hlink
      · cases hlink
        exact pteToPa_aligned _
      · cases hlink

theorem IsTable.aligned (h : PageTables m roots) (ht : IsTable m roots t) :
    t.toNat % 4096 = 0 :=
  isTable_aligned h.aligned ht

theorem translate_same_page {x : UInt64} (hx : x < vaMax) (hva : va ≤ vaMax)
    (hpage : x.toNat / 4096 = va.toNat / 4096) :
    translate m root x = translate m root va := by
  obtain ⟨hvpns, hvpn⟩ := (same_vpns_iff hx hva).mpr hpage
  unfold translate leafTable
  rw [hvpns, hvpn]

theorem leafTable_isTable (hroot : root ∈ roots)
    (h : leafTable m root va = some t) : IsTable m roots t :=
  ⟨root, hroot, _, by rw [length_vpns], h⟩

theorem walk_of_samePages (hroot : root ∈ roots)
    (hsame : ∀ t, IsTable m roots t → SamePage t m m') {p : List Vpn}
    (hp : p.length ≤ 3) : walk (links m') root p = walk (links m) root p := by
  refine walk_congr ?_ hp
  intro q t idx hq hwalk
  exact links_of_samePage (hsame t ⟨root, hroot, q, Nat.lt_succ_iff.mp hq, hwalk⟩)
    idx

theorem PageTables.of_samePages (h : PageTables m roots)
    (hsame : ∀ t, IsTable m roots t → SamePage t m m') :
    PageTables m' roots := by
  refine ⟨h.distinct.congr ?_, h.aligned, h.nonzero⟩
  intro r hr p hp
  exact walk_of_samePages hr hsame (Nat.le_succ_of_le hp)

theorem isTable_of_samePages (hsame : ∀ t, IsTable m roots t → SamePage t m m') :
    IsTable m' roots page ↔ IsTable m roots page :=
  Radix.Reached.congr fun _ hr _ hp =>
    walk_of_samePages hr hsame (Nat.le_succ_of_le hp)

theorem translate_of_samePages (hroot : root ∈ roots)
    (hsame : ∀ t, IsTable m roots t → SamePage t m m') (va : UInt64) :
    translate m' root va = translate m root va := by
  have hleaf : leafTable m' root va = leafTable m root va :=
    walk_of_samePages hroot hsame (by rw [length_vpns]; decide)
  unfold translate
  rw [hleaf]
  cases ht : leafTable m root va with
  | none => rfl
  | some t =>
      simp only [Option.bind_some]
      rw [entry_of_samePage (hsame t (leafTable_isTable hroot ht))]

/-! Writing one entry. -/

def setEntry (m : Memory) (pgtbl : UInt64) (idx : Vpn) (pte : UInt64) : Memory :=
  m.store64 (entryAddr pgtbl idx) pte

theorem onlyPage_setEntry (m : Memory) (pgtbl : UInt64) (idx : Vpn)
    (pte : UInt64) : OnlyPage pgtbl m (setEntry m pgtbl idx pte) :=
  onlyPage_store64 pgtbl m (8 * idx.val) pte (by omega)

@[simp] theorem entry_setEntry_self (m : Memory) (pgtbl : UInt64) (idx : Vpn)
    (pte : UInt64) : entry (setEntry m pgtbl idx pte) pgtbl idx = pte :=
  Memory.load64_store64_self _ _ _

theorem entry_setEntry_of_ne (m : Memory) (pgtbl : UInt64) {idx idx' : Vpn}
    (pte : UInt64) (h : idx' ≠ idx) :
    entry (setEntry m pgtbl idx pte) pgtbl idx' = entry m pgtbl idx' := by
  have hval : idx'.val ≠ idx.val := fun heq => h (Fin.ext heq)
  apply Memory.load64_congr
  intro k hk
  apply Memory.write_of_not_mem
  unfold entryAddr
  omega

theorem entry_setEntry {pgtbl pgtbl' : UInt64} {idx idx' : Vpn} (pte : UInt64)
    (haligned : pgtbl.toNat % 4096 = 0) (haligned' : pgtbl'.toNat % 4096 = 0)
    (h : pgtbl' ≠ pgtbl ∨ idx' ≠ idx) :
    entry (setEntry m pgtbl idx pte) pgtbl' idx' = entry m pgtbl' idx' := by
  by_cases htable : pgtbl' = pgtbl
  · subst htable
    exact entry_setEntry_of_ne m _ pte (h.resolve_left (fun hne => hne rfl))
  · exact entry_of_samePage ((onlyPage_setEntry m pgtbl idx pte).samePage
      haligned haligned' htable) idx'

/-- An entry of a last table is on no walk to a table. -/
theorem walk_setEntry_leaf (h : PageTables m roots) (hroot : root ∈ roots)
    (hleaf : leafTable m root va = some t) {idx : Vpn} {pte r : UInt64}
    (hr : r ∈ roots) {p : List Vpn} (hp : p.length ≤ pgtableToplevel) :
    walk (links (setEntry m t idx pte)) r p = walk (links m) r p := by
  refine walk_congr ?_ hp
  intro q t' idx' hq hwalk
  have hreached : IsTable m roots t' := ⟨r, hr, q, le_of_lt hq, hwalk⟩
  have hne : t' ≠ t := by
    rintro rfl
    obtain ⟨_, rfl⟩ := h.distinct r hr root hroot q _ (le_of_lt hq)
      (by rw [length_vpns]) t' hwalk hleaf
    rw [length_vpns] at hq
    omega
  unfold links
  rw [entry_setEntry pte (IsTable.aligned h (leafTable_isTable hroot hleaf))
    (IsTable.aligned h hreached) (.inl hne)]

theorem PageTables.setEntry_leaf (h : PageTables m roots) (hroot : root ∈ roots)
    (hleaf : leafTable m root va = some t) (idx : Vpn) (pte : UInt64) :
    PageTables (setEntry m t idx pte) roots :=
  ⟨h.distinct.congr fun _ hr _ hp => walk_setEntry_leaf h hroot hleaf hr hp,
    h.aligned, h.nonzero⟩

theorem isTable_setEntry_leaf (h : PageTables m roots) (hroot : root ∈ roots)
    (hleaf : leafTable m root va = some t) (idx : Vpn) (pte : UInt64) :
    IsTable (setEntry m t idx pte) roots page ↔ IsTable m roots page :=
  Radix.Reached.congr fun _ hr _ hp => walk_setEntry_leaf h hroot hleaf hr hp

theorem translate_setEntry_leaf (h : PageTables m roots) (hroot : root ∈ roots)
    (hva : va ≤ vaMax) (hleaf : leafTable m root va = some t) (pte : UInt64)
    {r x : UInt64} (hr : r ∈ roots) (hx : x < vaMax) :
    translate (setEntry m t (vpn va 0) pte) r x =
      if r = root ∧ x.toNat / 4096 = va.toNat / 4096 then validEntry pte
      else translate m r x := by
  have hwalk : leafTable (setEntry m t (vpn va 0) pte) r x = leafTable m r x :=
    walk_setEntry_leaf h hroot hleaf hr (by rw [length_vpns])
  have htable := IsTable.aligned h (leafTable_isTable hroot hleaf)
  unfold translate
  rw [hwalk]
  by_cases hsame : r = root ∧ x.toNat / 4096 = va.toNat / 4096
  · obtain ⟨rfl, hpage⟩ := hsame
    obtain ⟨hvpns, hvpn⟩ := (same_vpns_iff hx hva).mpr hpage
    have hx' : leafTable m r x = some t := by
      unfold leafTable
      rw [hvpns]
      exact hleaf
    rw [if_pos ⟨rfl, hpage⟩, hx', hvpn, Option.bind_some, entry_setEntry_self]
  · rw [if_neg hsame]
    cases ht : leafTable m r x with
    | none => rfl
    | some t' =>
        simp only [Option.bind_some]
        have hapart : t' ≠ t ∨ vpn x 0 ≠ vpn va 0 := by
          -- the same entry would mean the same root and page
          by_contra hhere
          rw [not_or, not_not, not_not] at hhere
          obtain ⟨rfl, hvpn⟩ := hhere
          obtain ⟨rfl, hvpns⟩ := h.distinct r hr root hroot _ _
            (by rw [length_vpns]) (by rw [length_vpns]) t' ht hleaf
          exact hsame ⟨rfl, (same_vpns_iff hx hva).mp ⟨hvpns, hvpn⟩⟩
        rw [entry_setEntry pte htable
          (IsTable.aligned h (leafTable_isTable hr ht)) hapart]

end UnoOS.Mem
