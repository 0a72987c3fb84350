import UnoOS.Lib.Postorder
import UnoOS.Mem.Release
import UnoOS.Uvm.Uvm

namespace UnoOS.Uvm

open UnoOS.Lib
open UnoOS.Lib.Radix (walk postorder)
open UnoOS.Mem

/-! `uvm_destroy_pgtbl` gives the pages of a table back in postorder. -/

def pagesUnder (m : Memory) (level : Nat) (t : UInt64) : List (UInt64 × Bool) :=
  postorder (links m) (List.finRange 512) level t

variable {m : Memory} {s s' : MemState} {level : Nat} {t page : UInt64} {value : Unit}
  {l l' : List (UInt64 × Bool)}

def TablesStay (m : Memory) (l : List (UInt64 × Bool)) (s : MemState) : Prop :=
  ∀ t, (t, true) ∈ l → t.toNat % 4096 = 0 ∧ SamePage t m s.mem

theorem TablesStay.mono (h : TablesStay m l s) (hsub : ∀ t, (t, true) ∈ l' → (t, true) ∈ l) :
    TablesStay m l' s :=
  fun t ht => h t (hsub t ht)

theorem TablesStay.freeAll (h : TablesStay m l s) (hrun : freeAll l' s = .ok (value, s'))
    (hdisjoint : List.Disjoint (l.map Prod.fst) (l'.map Prod.fst)) : TablesStay m l s' := by
  intro t ht
  obtain ⟨haligned, hsame⟩ := h t ht
  exact ⟨haligned, hsame.trans (freeAll_samePage hrun haligned
    (hdisjoint (List.mem_map_of_mem (f := Prod.fst) ht)))⟩

def pagesBehind (m : Memory) (level : Nat) (t : UInt64) (indices : List Vpn) :
    List (UInt64 × Bool) :=
  indices.flatMap fun idx => (links m t idx).elim [] (pagesUnder m level)

theorem forEntries_eq_freeAll {f : UInt64 → MemM Unit} (indices : List Vpn)
    (hf : ∀ t' s, TablesStay m (pagesUnder m level t') s →
      ((pagesUnder m level t').map Prod.fst).Nodup →
      f t' s = freeAll (pagesUnder m level t') s)
    (hstay : TablesStay m (pagesBehind m level t indices ++ [(t, true)]) s)
    (hnodup : ((pagesBehind m level t indices ++ [(t, true)]).map Prod.fst).Nodup) :
    forEntries f t indices s = freeAll (pagesBehind m level t indices) s := by
  induction indices generalizing s with
  | nil => rfl
  | cons idx rest ih =>
      have hcons : pagesBehind m level t (idx :: rest) =
          (links m t idx).elim [] (pagesUnder m level) ++ pagesBehind m level t rest :=
        List.flatMap_cons
      rw [hcons, List.append_assoc] at hstay hnodup
      have hself : (t, true) ∈ (links m t idx).elim [] (pagesUnder m level) ++
          (pagesBehind m level t rest ++ [(t, true)]) :=
        List.mem_append_right _ (List.mem_append_right _ (List.mem_singleton_self _))
      have hentry : entry s.mem t idx = entry m t idx :=
        entry_of_samePage (hstay t hself).2 idx
      rw [List.map_append, List.nodup_append'] at hnodup
      obtain ⟨hnodup₁, hnodup₂, hdisjoint⟩ := hnodup
      have hrest : ∀ s₁, TablesStay m (pagesBehind m level t rest ++ [(t, true)]) s₁ →
          forEntries f t rest s₁ = freeAll (pagesBehind m level t rest) s₁ :=
        fun s₁ hstay₁ => ih hstay₁ hnodup₂
      have hlater : TablesStay m (pagesBehind m level t rest ++ [(t, true)]) s :=
        hstay.mono fun q hq => List.mem_append_right _ hq
      rw [hcons, freeAll_append, forEntries, readMem_bind]
      dsimp only
      rw [hentry]
      by_cases hvalid : pteValid (entry m t idx)
      · have hlink : links m t idx = some (pteToPa (entry m t idx)) := if_pos hvalid
        rw [if_pos hvalid]
        rw [hlink, Option.elim_some] at hstay hnodup₁ hdisjoint ⊢
        have hfirst := hf _ s (hstay.mono fun q hq => List.mem_append_left _ hq) hnodup₁
        rw [Exec.bind_apply, Exec.bind_apply, hfirst]
        cases hrun : freeAll (pagesUnder m level (pteToPa (entry m t idx))) s with
        | error reason => rfl
        | ok result =>
            exact hrest _ (hlater.freeAll hrun hdisjoint.symm)
      · have hlink : links m t idx = none := if_neg hvalid
        rw [if_neg hvalid, hlink]
        exact hrest s hlater

theorem pagesUnder_succ (m : Memory) (level : Nat) (t : UInt64) :
    pagesUnder m (level + 1) t =
      pagesBehind m level t (List.finRange 512) ++ [(t, true)] := rfl

theorem uvmDestroyPgtbl_eq_freeAll (hlevel : level ≤ pgtableToplevel)
    (hstay : TablesStay m (pagesUnder m level t) s)
    (hnodup : ((pagesUnder m level t).map Prod.fst).Nodup) :
    uvmDestroyPgtbl level t s = freeAll (pagesUnder m level t) s := by
  induction level generalizing t s with
  | zero => exact (freeAll_singleton t false s).symm
  | succ level ih =>
      rw [pagesUnder_succ] at hstay hnodup ⊢
      have hentries := forEntries_eq_freeAll (List.finRange 512)
        (fun _ _ => ih (by omega)) hstay hnodup
      rw [uvmDestroyPgtbl, if_neg (show level ≠ pgtableToplevel by omega), freeAll_append]
      change (forEntries (uvmDestroyPgtbl level) t (List.finRange 512) >>= fun _ =>
        pmemFree t true) s = _
      rw [Exec.bind_apply, Exec.bind_apply, hentries]
      cases freeAll (pagesBehind m level t (List.finRange 512)) s with
      | error reason => rfl
      | ok result => exact (freeAll_singleton t true _).symm

/-! The top table.  Its two kernel pages are taken out before the walk. -/

def entryPath (va : UInt64) : List Vpn := vpns va 2 ++ [vpn va 0]

section

variable {roots : Set UInt64} {root va pte : UInt64}

theorem length_entryPath (va : UInt64) : (entryPath va).length = 3 := by
  unfold entryPath
  rw [List.length_append, length_vpns]
  rfl

theorem walk_cleared (h : PageTables m roots) (hroot : root ∈ roots)
    (hleaf : leafTable m root va = some t) {p : List Vpn} (hp : p.length ≤ 3) :
    walk (links (setEntry m t (vpn va 0) 0)) root p =
      if p = entryPath va then none else walk (links m) root p := by
  have hshort : ∀ q : List Vpn, q.length ≤ pgtableToplevel →
      walk (links (setEntry m t (vpn va 0) 0)) root q = walk (links m) root q :=
    fun q hq => walk_setEntry_leaf h hroot hleaf hroot hq
  have htable := IsTable.aligned h (leafTable_isTable hroot hleaf)
  induction p using List.reverseRecOn with
  | nil =>
      rw [if_neg]
      · rfl
      · intro heq
        have hlength := length_entryPath va
        rw [← heq] at hlength
        cases hlength
  | append_singleton q idx _ =>
      rw [List.length_append, List.length_singleton] at hp
      have hq : q.length ≤ pgtableToplevel := Nat.le_of_succ_le_succ hp
      rw [Radix.walk_concat, Radix.walk_concat, hshort q hq]
      cases hwalk : walk (links m) root q with
      | none => rw [Option.bind_none, Option.bind_none, ite_self]
      | some t' =>
          rw [Option.bind_some, Option.bind_some]
          have haligned : t'.toNat % 4096 = 0 :=
            IsTable.aligned h ⟨root, hroot, q, hq, hwalk⟩
          by_cases hhere : q ++ [idx] = entryPath va
          · obtain ⟨rfl, hidx⟩ := List.append_inj' hhere rfl
            cases List.singleton_inj.mp hidx
            have htt : t' = t := Option.some_inj.mp (hwalk.symm.trans hleaf)
            subst htt
            rw [if_pos hhere]
            unfold links
            rw [entry_setEntry_self, pteValid_zero]
            rfl
          · rw [if_neg hhere]
            unfold links
            rw [entry_setEntry 0 htable haligned]
            by_contra hboth
            rw [not_or, not_not, not_not] at hboth
            obtain ⟨rfl, rfl⟩ := hboth
            obtain ⟨_, rfl⟩ := h.distinct root hroot root hroot q (vpns va pgtableToplevel)
              hq (by rw [length_vpns]) t' hwalk hleaf
            exact hhere rfl

/-- The entry of a page that is mapped, with flags that make it a leaf. -/
def MapsLeaf (m : Memory) (root va pte : UInt64) : Prop :=
  Mem.translate m root va = some pte ∧ pteFlags pte ≠ pteV

theorem entry_of_translate (h : Mem.translate m root va = some pte) :
    ∃ t, leafTable m root va = some t ∧ entry m t (vpn va 0) = pte ∧ pteValid pte := by
  unfold Mem.translate at h
  obtain ⟨t, hleaf, hentry⟩ := Option.bind_eq_some_iff.mp h
  unfold validEntry at hentry
  split at hentry
  · next hvalid =>
    cases hentry
    exact ⟨t, hleaf, rfl, hvalid⟩
  · cases hentry

def KernelPage (va : UInt64) : Prop := va = trapframe ∨ va = trampoline

theorem KernelPage.bounds (h : KernelPage va) :
    va % pgsize = 0 ∧ va < vaMax ∧ va + pgsize - 1 < vaMax ∧ pageCount va pgsize = 1 := by
  rcases h with rfl | rfl
  · decide
  · decide

theorem unmapKept (hpage : KernelPage va) (hroot : root ≠ 0)
    (hmaps : MapsLeaf s.mem root va pte) :
    ∃ t, leafTable s.mem root va = some t ∧
      vmUnmappages root va pgsize false s =
        .ok ((), s.setMem (setEntry s.mem t (vpn va 0) 0)) := by
  obtain ⟨haligned, hva, hlast, hcount⟩ := hpage.bounds
  obtain ⟨t, hleaf, hentry, hvalid⟩ := entry_of_translate hmaps.1
  refine ⟨t, hleaf, ?_⟩
  have hlen : (0 : UInt64) < pgsize := by decide
  have hload : s.mem.load64 (entryAddr t (vpn va 0)) = pte := hentry
  have hget := vmGetpte_reads (UInt64.le_of_lt hva) hroot s
  rw [hleaf, Option.map_some] at hget
  unfold vmUnmappages massert
  rw [Exec.require_of_true haligned, Exec.require_of_true hlen, Exec.require_of_true hlast,
    pure_bind, pure_bind, pure_bind, hcount, vmUnmappagesLoop, Exec.bind_of_ok hget]
  dsimp only
  rw [readMem_bind, hload]
  unfold massert
  rw [Exec.require_of_true hvalid, Exec.require_of_true hmaps.2, pure_bind, pure_bind]
  rfl

theorem unmapKept_eq_ok (hpage : KernelPage va)
    (hrun : vmUnmappages root va pgsize false s = .ok (value, s')) :
    ∃ t, leafTable s.mem root va = some t ∧
      s' = s.setMem (setEntry s.mem t (vpn va 0) 0) := by
  obtain ⟨_, _, _, hcount⟩ := hpage.bounds
  unfold vmUnmappages at hrun
  rw [massert_bind_eq_ok, massert_bind_eq_ok, massert_bind_eq_ok, hcount] at hrun
  obtain ⟨t, s₁, hleaf, _, _, hfree, hrest⟩ := vmUnmappagesLoop_succ hrun.2.2.2
  cases freeFrame_eq_ok.mp hfree
  cases hrest
  exact ⟨t, hleaf, rfl⟩

theorem destroyRest_eq_freeAll (haligned : root.toNat % 4096 = 0)
    (hone : Radix.OnePath (links s.mem) 3 root) :
    (forEntries (uvmDestroyPgtbl pgtableToplevel) root (List.finRange 512) >>= fun _ =>
      pmemFree root true) s = freeAll (pagesUnder s.mem 3 root) s := by
  have hnodup : ((pagesUnder s.mem 3 root).map Prod.fst).Nodup :=
    Radix.nodup_postorder hone (List.nodup_finRange 512)
  have hstay : TablesStay s.mem (pagesUnder s.mem 3 root) s := by
    intro t ht
    obtain ⟨p, hwalk, hp⟩ := Radix.walk_of_mem_postorder ht
    have hlength : p.length < 3 := by
      rcases hp with ⟨_, hp⟩ | ⟨hfalse, _⟩
      · exact hp
      · cases hfalse
    have htable : IsTable s.mem {root} t := ⟨root, rfl, p, Nat.le_of_lt_succ hlength, hwalk⟩
    refine ⟨isTable_aligned ?_ htable, fun _ _ => rfl⟩
    rintro r rfl
    exact haligned
  rw [pagesUnder_succ] at hstay hnodup ⊢
  have hentries := forEntries_eq_freeAll (f := uvmDestroyPgtbl pgtableToplevel)
    (List.finRange 512) (fun _ _ => uvmDestroyPgtbl_eq_freeAll (le_refl _)) hstay hnodup
  rw [freeAll_append, Exec.bind_apply, Exec.bind_apply, hentries]
  cases freeAll (pagesBehind s.mem pgtableToplevel root (List.finRange 512)) s with
  | error reason => rfl
  | ok result => exact (freeAll_singleton root true _).symm

theorem walk_entryPath (h : Mem.translate m root va = some pte) :
    walk (links m) root (entryPath va) = some (pteToPa pte) := by
  obtain ⟨t, hleaf, hentry, hvalid⟩ := entry_of_translate h
  unfold entryPath
  rw [Radix.walk_concat_of_some hleaf]
  unfold links
  rw [hentry, if_pos hvalid]

/-- Nothing is on two paths, and the root is a page. -/
structure OneRoot (m : Memory) (root : UInt64) : Prop where
  aligned : root.toNat % 4096 = 0
  nonzero : root ≠ 0
  onePath : Radix.OnePath (links m) 3 root

theorem OneRoot.pageTables (h : OneRoot m root) : PageTables m {root} := by
  refine ⟨?_, ?_, ?_⟩
  · rintro r rfl r' rfl p p' hp hp' t hwalk hwalk'
    exact ⟨rfl, h.onePath p p' (Nat.le_succ_of_le hp) (Nat.le_succ_of_le hp') t hwalk hwalk'⟩
  · rintro r rfl
    exact h.aligned
  · rintro r rfl
    exact h.nonzero

theorem OneRoot.cleared (h : OneRoot m root) (hleaf : leafTable m root va = some t) :
    OneRoot (setEntry m t (vpn va 0) 0) root := by
  refine ⟨h.aligned, h.nonzero, ?_⟩
  intro p p' hp hp' f hwalk hwalk'
  rw [walk_cleared h.pageTables rfl hleaf hp] at hwalk
  rw [walk_cleared h.pageTables rfl hleaf hp'] at hwalk'
  split at hwalk
  · cases hwalk
  · split at hwalk'
    · cases hwalk'
    · exact h.onePath p p' hp hp' f hwalk hwalk'

def Left (p : List Vpn) : Prop := p ≠ entryPath trapframe ∧ p ≠ entryPath trampoline

theorem uvmDestroyPgtbl_top {ptf ptramp : UInt64} (h : OneRoot s.mem root)
    (htf : MapsLeaf s.mem root trapframe ptf)
    (htramp : MapsLeaf s.mem root trampoline ptramp) :
    ∃ m', OneRoot m' root ∧
      (∀ p : List Vpn, p.length ≤ 3 → ∀ f, walk (links m') root p = some f ↔
        Left p ∧ walk (links s.mem) root p = some f) ∧
      uvmDestroyPgtbl 3 root s = freeAll (pagesUnder m' 3 root) (s.setMem m') := by
  obtain ⟨t, hleaf, hunmap⟩ := unmapKept (.inl rfl) h.nonzero htf
  have h₁ := h.cleared hleaf
  generalize hm₁ : setEntry s.mem t (vpn trapframe 0) 0 = m₁ at *
  have hwalk₁ : ∀ p : List Vpn, p.length ≤ 3 → walk (links m₁) root p =
      if p = entryPath trapframe then none else walk (links s.mem) root p := by
    intro p hp
    rw [← hm₁]
    exact walk_cleared h.pageTables rfl hleaf hp
  have htramp₁ : MapsLeaf m₁ root trampoline ptramp := by
    refine ⟨?_, htramp.2⟩
    rw [← hm₁, translate_setEntry_leaf h.pageTables rfl (by decide) hleaf 0 rfl (by decide),
      if_neg fun hboth => absurd hboth.2 (by decide)]
    exact htramp.1
  obtain ⟨t₂, hleaf₂, hunmap₂⟩ := unmapKept (s := s.setMem m₁) (.inr rfl) h.nonzero htramp₁
  rw [MemState.mem_setMem] at hleaf₂ hunmap₂
  have h₂ := h₁.cleared hleaf₂
  have hwalk₂ : ∀ p : List Vpn, p.length ≤ 3 →
      walk (links (setEntry m₁ t₂ (vpn trampoline 0) 0)) root p =
        if p = entryPath trampoline then none else walk (links m₁) root p :=
    fun p hp => walk_cleared h₁.pageTables rfl hleaf₂ hp
  generalize setEntry m₁ t₂ (vpn trampoline 0) 0 = m₂ at *
  refine ⟨m₂, h₂, ?_, ?_⟩
  · intro p hp f
    rw [hwalk₂ p hp, hwalk₁ p hp]
    unfold Left
    by_cases htrampPath : p = entryPath trampoline
    · simp [htrampPath]
    · by_cases htfPath : p = entryPath trapframe
      · simp [htfPath]
      · simp [htrampPath, htfPath]
  · have hrest := destroyRest_eq_freeAll (s := s.setMem m₂) h.aligned h₂.onePath
    rw [uvmDestroyPgtbl, if_pos rfl, Exec.bind_of_ok hunmap, Exec.bind_of_ok hunmap₂]
    exact hrest

theorem freeAll_freed (hrun : freeAll l s = .ok (value, s')) :
    s'.freed = (l.map Prod.fst).reverse ++ s.freed := by
  induction l generalizing s with
  | nil =>
      cases hrun
      rfl
  | cons first rest ih =>
      obtain ⟨page, k⟩ := first
      rw [freeAll, Exec.bind_eq_ok] at hrun
      obtain ⟨_, s₁, hfree, hrest⟩ := hrun
      have hone : s₁.freed = page :: s.freed := by
        obtain ⟨_, rfl⟩ := pmemFree_eq_ok.mp hfree
        split
        · cases k with
          | false => rfl
          | true => rfl
        · rfl
      rw [ih hrest, hone, List.map_cons, List.reverse_cons, List.append_assoc]
      rfl

def LeafFrame (m : Memory) (root f : UInt64) : Prop :=
  ∃ p : List Vpn, p.length = 3 ∧ walk (links m) root p = some f

/-- `uvm_destroy_pgtbl` gives every leaf frame but two back to the region of the user and
every table to that of the kernel, once each, and a table after all that it links. -/
theorem destroy_frees_once {ptf ptramp : UInt64} (h : OneRoot s.mem root)
    (htf : MapsLeaf s.mem root trapframe ptf)
    (htramp : MapsLeaf s.mem root trampoline ptramp) :
    ∃ calls : List (UInt64 × Bool), ∃ cleared : Memory,
      uvmDestroyPgtbl 3 root s = freeAll calls (s.setMem cleared) ∧
      (calls.map Prod.fst).Nodup ∧
      (∀ f, (f, false) ∈ calls ↔
        LeafFrame s.mem root f ∧ f ≠ pteToPa ptf ∧ f ≠ pteToPa ptramp) ∧
      (∀ t, (t, true) ∈ calls ↔ IsTable s.mem {root} t) ∧
      (∀ before t after, calls = before ++ (t, true) :: after →
        ∀ idx t', links s.mem t idx = some t' → t' ≠ pteToPa ptf → t' ≠ pteToPa ptramp →
          ∃ b, (t', b) ∈ before) ∧
      ∀ value s', uvmDestroyPgtbl 3 root s = .ok (value, s') →
        s'.freed = (calls.map Prod.fst).reverse ++ s.freed := by
  obtain ⟨m', h', hwalk, hrun⟩ := uvmDestroyPgtbl_top h htf htramp
  have hall : ∀ idx : Vpn, idx ∈ List.finRange 512 := List.mem_finRange
  have htfWalk := walk_entryPath htf.1
  have htrampWalk := walk_entryPath htramp.1
  -- a path is left exactly if what it leads to is
  have hleft : ∀ p : List Vpn, p.length ≤ 3 → ∀ f, walk (links s.mem) root p = some f →
      (Left p ↔ f ≠ pteToPa ptf ∧ f ≠ pteToPa ptramp) := by
    intro p hp f hpath
    unfold Left
    refine and_congr (not_congr ?_) (not_congr ?_)
    · constructor
      · rintro rfl
        exact Option.some_inj.mp (hpath.symm.trans htfWalk)
      · rintro rfl
        exact h.onePath _ _ hp (length_entryPath _).le _ hpath htfWalk
    · constructor
      · rintro rfl
        exact Option.some_inj.mp (hpath.symm.trans htrampWalk)
      · rintro rfl
        exact h.onePath _ _ hp (length_entryPath _).le _ hpath htrampWalk
  have hshort : ∀ p : List Vpn, p.length < 3 → Left p := by
    intro p hp
    refine ⟨?_, ?_⟩
    · rintro rfl
      rw [length_entryPath] at hp
      omega
    · rintro rfl
      rw [length_entryPath] at hp
      omega
  refine ⟨pagesUnder m' 3 root, m', hrun,
    Radix.nodup_postorder h'.onePath (List.nodup_finRange 512), ?_, ?_, ?_, ?_⟩
  · intro f
    constructor
    · intro hmem
      obtain ⟨p, hpath, hp⟩ := Radix.walk_of_mem_postorder hmem
      have hlength : p.length = 3 := by
        rcases hp with ⟨htrue, _⟩ | ⟨_, hp⟩
        · cases htrue
        · exact hp
      obtain ⟨hp', hold⟩ := (hwalk p hlength.le f).mp hpath
      exact ⟨⟨p, hlength, hold⟩, (hleft p hlength.le f hold).mp hp'⟩
    · rintro ⟨⟨p, hlength, hold⟩, hne⟩
      exact Radix.mem_postorder_of_walk hall ((hwalk p hlength.le f).mpr
        ⟨(hleft p hlength.le f hold).mpr hne, hold⟩) (.inr ⟨rfl, hlength⟩)
  · intro t
    constructor
    · intro hmem
      obtain ⟨p, hpath, hp⟩ := Radix.walk_of_mem_postorder hmem
      have hlength : p.length < 3 := by
        rcases hp with ⟨_, hp⟩ | ⟨hfalse, _⟩
        · exact hp
        · cases hfalse
      exact ⟨root, rfl, p, Nat.le_of_lt_succ hlength, ((hwalk p hlength.le t).mp hpath).2⟩
    · rintro ⟨r, rfl, p, hp, hpath⟩
      have hlength : p.length < 3 := Nat.lt_succ_of_le hp
      exact Radix.mem_postorder_of_walk hall
        ((hwalk p hlength.le t).mpr ⟨hshort p hlength, hpath⟩) (.inl ⟨rfl, hlength⟩)
  · intro before t after hsplit idx t' hlink hne hne'
    have hmem : (t, true) ∈ pagesUnder m' 3 root := by
      rw [hsplit]
      exact List.mem_append_right _ List.mem_cons_self
    obtain ⟨p, hpath, hp⟩ := Radix.walk_of_mem_postorder hmem
    have hlength : p.length < 3 := by
      rcases hp with ⟨_, hp⟩ | ⟨hfalse, _⟩
      · exact hp
      · cases hfalse
    have hpath' := ((hwalk p hlength.le t).mp hpath).2
    have hlong : (p ++ [idx]).length ≤ 3 := by
      rw [List.length_append, List.length_singleton]
      omega
    have hchild : walk (links s.mem) root (p ++ [idx]) = some t' := by
      rw [Radix.walk_concat_of_some hpath']
      exact hlink
    have hchild' := (hwalk _ hlong t').mpr ⟨(hleft _ hlong t' hchild).mpr ⟨hne, hne'⟩, hchild⟩
    rw [Radix.walk_concat_of_some hpath] at hchild'
    exact Radix.postorder_before hsplit (hall idx) hchild'
  · intro value s' hok
    have hfreed := freeAll_freed (hrun.symm.trans hok)
    rw [hfreed]
    rfl

end

/-! A table with one page of a user below its two kernel pages. -/

def onePageTable : MemState where
  mem := setEntry (setEntry (setEntry (setEntry (setEntry (fun _ => 0)
    0x1000 255 (paToPte 0x2000 ||| pteV)) 0x2000 511 (paToPte 0x3000 ||| pteV))
    0x3000 0 (paToPte 0x4000 ||| pteV ||| pteR ||| pteU))
    0x3000 510 (paToPte 0x5000 ||| pteV ||| pteR))
    0x3000 511 (paToPte 0x6000 ||| pteV ||| pteX)
  kernRegion := { begin := 0x1000, end_ := 0x4000, allocable := 0, next := 0 }
  userRegion := { begin := 0x4000, end_ := 0x7000, allocable := 0, next := 0 }
  kernelPgtbl := 0x1000
  freed := []

theorem onePageTable_root : ∀ idx : Vpn, links onePageTable.mem 0x1000 idx =
    if idx = 255 then some 0x2000 else none := by
  decide +kernel

theorem onePageTable_middle : ∀ idx : Vpn, links onePageTable.mem 0x2000 idx =
    if idx = 511 then some 0x3000 else none := by
  decide +kernel

theorem onePageTable_last : ∀ idx : Vpn, links onePageTable.mem 0x3000 idx =
    if idx = 0 then some 0x4000 else if idx = 510 then some 0x5000
    else if idx = 511 then some 0x6000 else none := by
  decide +kernel

def onePageTablePaths : List (List Vpn × UInt64) :=
  [([], 0x1000), ([255], 0x2000), ([255, 511], 0x3000), ([255, 511, 0], 0x4000),
    ([255, 511, 510], 0x5000), ([255, 511, 511], 0x6000)]

theorem onePageTable_walk {p : List Vpn} {f : UInt64} (hp : p.length ≤ 3)
    (h : walk (links onePageTable.mem) 0x1000 p = some f) : (p, f) ∈ onePageTablePaths := by
  rcases p with _ | ⟨i, _ | ⟨j, _ | ⟨k, _ | ⟨_, _⟩⟩⟩⟩
  · cases h
    decide
  · rw [walk, onePageTable_root] at h
    split at h
    · next hi =>
      cases h
      subst hi
      decide
    · cases h
  · rw [walk, onePageTable_root] at h
    split at h
    · next hi =>
      rw [Option.bind_some, walk, onePageTable_middle] at h
      split at h
      · next hj =>
        cases h
        subst hi hj
        decide
      · cases h
    · cases h
  · rw [walk, onePageTable_root] at h
    split at h
    · next hi =>
      rw [Option.bind_some, walk, onePageTable_middle] at h
      split at h
      · next hj =>
        rw [Option.bind_some, walk, onePageTable_last] at h
        subst hi hj
        split at h
        · next hk =>
          cases h
          subst hk
          decide
        · split at h
          · next hk =>
            cases h
            subst hk
            decide
          · split at h
            · next hk =>
              cases h
              subst hk
              decide
            · cases h
      · cases h
    · cases h
  · simp only [List.length_cons] at hp
    omega

theorem onePageTable_oneRoot : OneRoot onePageTable.mem 0x1000 := by
  refine ⟨by decide, by decide, ?_⟩
  intro p p' hp hp' f hwalk hwalk'
  have hdistinct : ∀ q ∈ onePageTablePaths, ∀ q' ∈ onePageTablePaths,
      q.2 = q'.2 → q.1 = q'.1 := by
    decide
  exact hdistinct _ (onePageTable_walk hp hwalk) _ (onePageTable_walk hp' hwalk') rfl

theorem destroy_frees_once_page : ∃ calls : List (UInt64 × Bool), ∃ cleared : Memory,
    uvmDestroyPgtbl 3 0x1000 onePageTable = freeAll calls (onePageTable.setMem cleared) ∧
      (0x4000, false) ∈ calls ∧ (0x5000, false) ∉ calls := by
  have htf : MapsLeaf onePageTable.mem 0x1000 trapframe (paToPte 0x5000 ||| pteV ||| pteR) :=
    ⟨by decide +kernel, by decide⟩
  have htramp : MapsLeaf onePageTable.mem 0x1000 trampoline
      (paToPte 0x6000 ||| pteV ||| pteX) :=
    ⟨by decide +kernel, by decide⟩
  obtain ⟨calls, cleared, hrun, _, hleaf, _⟩ :=
    destroy_frees_once onePageTable_oneRoot htf htramp
  refine ⟨calls, cleared, hrun, ?_, ?_⟩
  · exact (hleaf 0x4000).mpr
      ⟨⟨[255, 511, 0], rfl, by decide +kernel⟩, by decide, by decide⟩
  · intro hmem
    exact ((hleaf 0x5000).mp hmem).2.1 (by decide)

end UnoOS.Uvm
