import UnoOS.Mem.PageTable

namespace UnoOS.Mem

open UnoOS.Lib
open UnoOS.Lib.Radix (walk walk_concat_of_some)

/-! What the functions of `kvm.c` do to the tables and the translations. -/

/-- The pages that `pmem_alloc` hands out for tables are in no table. -/
structure FreshFrames (s : MemState) (roots : Set UInt64) (l : List UInt64) :
    Prop where
  list : FreeList s true l
  fresh : ∀ page ∈ l, ¬ IsTable s.mem roots page

/-- Tables were added where there were none. -/
structure Grown (s s' : MemState) (roots : Set UInt64) (l l' : List UInt64) :
    Prop where
  tables : PageTables s'.mem roots
  frames : FreshFrames s' roots l'
  suffix : ∃ taken, l = taken ++ l'
  translate : ∀ root ∈ roots, ∀ va,
    translate s'.mem root va = translate s.mem root va
  keeps : ∀ root ∈ roots, ∀ p t, walk (links s.mem) root p = some t →
    p.length ≤ pgtableToplevel → walk (links s'.mem) root p = some t
  added : ∀ page, IsTable s'.mem roots page →
    IsTable s.mem roots page ∨ page ∈ l
  mem : ∀ page, page.toNat % 4096 = 0 → ¬ IsTable s.mem roots page →
    page ∉ l → SamePage page s.mem s'.mem
  userRegion : s'.userRegion = s.userRegion
  kernelPgtbl : s'.kernelPgtbl = s.kernelPgtbl
  freed : s'.freed = s.freed

variable {s s' s'' : MemState} {roots : Set UInt64} {l l' l'' : List UInt64}
  {root va t page : UInt64}

theorem Grown.refl (htables : PageTables s.mem roots)
    (hframes : FreshFrames s roots l) : Grown s s roots l l :=
  ⟨htables, hframes, ⟨[], rfl⟩, fun _ _ _ => rfl, fun _ _ _ _ h _ => h,
    fun _ h => .inl h, fun _ _ _ _ _ _ => rfl, rfl, rfl, rfl⟩

theorem Grown.trans (h : Grown s s' roots l l') (h' : Grown s' s'' roots l' l'') :
    Grown s s'' roots l l'' := by
  obtain ⟨taken, hl⟩ := h.suffix
  obtain ⟨taken', hl'⟩ := h'.suffix
  have hsub : ∀ page, page ∈ l' → page ∈ l := by
    intro page hpage
    rw [hl]
    exact List.mem_append_right _ hpage
  refine ⟨h'.tables, h'.frames, ⟨taken ++ taken', ?_⟩, ?_, ?_, ?_, ?_, ?_, ?_, ?_⟩
  · rw [hl, hl', List.append_assoc]
  · intro root hroot va
    rw [h'.translate root hroot, h.translate root hroot]
  · intro root hroot p t hwalk hp
    exact h'.keeps root hroot p t (h.keeps root hroot p t hwalk hp) hp
  · intro page hpage
    rcases h'.added page hpage with hpage | hpage
    · exact h.added page hpage
    · exact .inr (hsub page hpage)
  · intro page haligned htable hnot
    have htable' : ¬ IsTable s'.mem roots page := by
      intro hpage
      rcases h.added page hpage with hpage | hpage
      · exact htable hpage
      · exact hnot hpage
    exact (h.mem page haligned htable hnot).trans
      (h'.mem page haligned htable' fun hpage => hnot (hsub page hpage))
  · rw [h'.userRegion, h.userRegion]
  · rw [h'.kernelPgtbl, h.kernelPgtbl]
  · rw [h'.freed, h.freed]

/-! `vm_getpte`. -/

def MemState.linked (s : MemState) (t : UInt64) (idx : Vpn) : MemState :=
  let f := (s.region true).next
  let s := s.taken true
  s.setMem (setEntry (s.mem.memset f.toNat 0 4096) t idx (paToPte f ||| pteV))

theorem linked_entries (hpage : page = (s.region true).next)
    (hfaligned : page.toNat % 4096 = 0) (htaligned : t.toNat % 4096 = 0)
    (htne : t ≠ page) (idx : Vpn) :
    (∀ idx', entry (s.linked t idx).mem page idx' = 0) ∧
      entry (s.linked t idx).mem t idx = paToPte page ||| pteV ∧
      (∀ t' idx', t'.toNat % 4096 = 0 → t' ≠ page → t' ≠ t ∨ idx' ≠ idx →
        entry (s.linked t idx).mem t' idx' = entry s.mem t' idx') ∧
      ∀ other, other.toNat % 4096 = 0 → other ≠ page → other ≠ t →
        SamePage other s.mem (s.linked t idx).mem := by
  -- the memory with the frame cleared
  have hclear : OnlyPage page s.mem
      ((s.taken true).mem.memset page.toNat 0 4096) := by
    have honly := onlyPage_taken (s := s) (k := true)
    rw [← hpage] at honly
    exact honly.trans (onlyPage_memset _ _ 0)
  have hmem : (s.linked t idx).mem =
      setEntry ((s.taken true).mem.memset page.toNat 0 4096) t idx
        (paToPte page ||| pteV) := by
    unfold MemState.linked
    rw [← hpage]
    rfl
  rw [hmem]
  refine ⟨?_, entry_setEntry_self _ t idx _, ?_, ?_⟩
  · intro idx'
    rw [entry_setEntry _ htaligned hfaligned (.inl (Ne.symm htne))]
    apply Memory.load64_of_zero
    intro k hk
    unfold entryAddr
    exact Memory.write_of_mem (by omega) (by omega)
  · intro t' idx' haligned hnot hne
    rw [entry_setEntry _ htaligned haligned hne]
    exact entry_of_samePage (hclear.samePage hfaligned haligned hnot) idx'
  · intro other hother hpage' ht'
    exact (hclear.samePage hfaligned hother hpage').trans
      ((onlyPage_setEntry _ t idx _).samePage htaligned hother ht')

theorem grown_linked (htables : PageTables s.mem roots)
    (hframes : FreshFrames s roots l) (hroot : root ∈ roots) {p : List Vpn}
    (hp : p.length < pgtableToplevel) (hwalk : walk (links s.mem) root p = some t)
    {idx : Vpn} (hinvalid : pteValid (entry s.mem t idx) = false)
    (halloc : pmemAlloc true s = .ok (page, s')) :
    page = (s.region true).next ∧ s' = s.taken true ∧ ∃ l', l = page :: l' ∧
      Grown s (s.linked t idx) roots l l' ∧
      walk (links (s.linked t idx).mem) root (p ++ [idx]) = some page ∧
      ∀ q, q.length ≤ pgtableToplevel → q ≠ p ++ [idx] →
        walk (links (s.linked t idx).mem) root q = walk (links s.mem) root q := by
  obtain ⟨rest, rfl, hrest⟩ := hframes.list.alloc halloc
  obtain ⟨_, _, hpage, rfl⟩ := pmemAlloc_eq_ok.mp halloc
  refine ⟨hpage, rfl, rest, rfl, ?_⟩
  have hfaligned := (hframes.list.inRegion page (by simp)).aligned
  have hfresh := hframes.fresh page (by simp)
  have ht : IsTable s.mem roots t := ⟨root, hroot, p, le_of_lt hp, hwalk⟩
  have htaligned := IsTable.aligned htables ht
  have htne : t ≠ page := by
    rintro rfl
    exact hfresh ht
  obtain ⟨hentryFresh, hentryLinked, hentryOther, honly⟩ :=
    linked_entries hpage hfaligned htaligned htne idx
  have hentry : ∀ t' idx', IsTable s.mem roots t' → t' ≠ t ∨ idx' ≠ idx →
      entry (s.linked t idx).mem t' idx' = entry s.mem t' idx' := by
    intro t' idx' ht' hne
    refine hentryOther t' idx' (IsTable.aligned htables ht') ?_ hne
    rintro rfl
    exact hfresh ht'
  have hlinked : Radix.Linked (links s.mem) (links (s.linked t idx).mem) roots
      pgtableToplevel root p t idx page := by
    refine ⟨hroot, hp, hwalk, ?_, hfresh, ?_, ?_, ?_⟩
    · simp [links, hinvalid]
    · unfold links
      rw [hentryLinked, if_pos (pteValid_or _), pteToPa_entry hfaligned (by decide)]
    · intro idx'
      unfold links
      rw [hentryFresh idx']
      rfl
    · intro t' idx' ht' hne
      unfold links
      rw [hentry t' idx' ht' hne]
  refine ⟨⟨⟨hlinked.distinct htables.distinct, htables.aligned,
    htables.nonzero⟩, ⟨?_, ?_⟩, ⟨[page], rfl⟩, ?_, ?_, ?_, ?_, ?_, ?_, ?_⟩, ?_, ?_⟩
  · -- the other free frames keep their links
    refine hrest.congr ?_ ?_
    · simp [MemState.linked]
    · intro other hother
      have haligned := (hframes.list.inRegion other (by simp [hother])).aligned
      have hnot : other ≠ t := by
        rintro rfl
        exact hframes.fresh other (by simp [hother]) ht
      have hne : other ≠ page := by
        rintro rfl
        exact (List.nodup_cons.mp hframes.list.nodup).1 hother
      intro x hx
      have hfull := honly other haligned hne hnot x hx
      have htaken := onlyPage_taken (s := s) (k := true)
      rw [← hpage] at htaken
      rw [hfull, htaken.samePage hfaligned haligned hne x hx]
  · intro other hother htable
    rcases hlinked.reached htables.distinct htable with rfl | hold
    · exact (List.nodup_cons.mp hframes.list.nodup).1 hother
    · exact hframes.fresh other (by simp [hother]) hold
  · intro r hr x
    unfold translate leafTable
    rcases hlinked.walk_eq htables.distinct hr
      (show (vpns x pgtableToplevel).length ≤ _ by rw [length_vpns]; omega) with
      ⟨rfl, hpath, hnew⟩ | ⟨_, hold⟩
    · have hbefore : walk (links s.mem) r (vpns x pgtableToplevel) = none := by
        rw [hpath, walk_concat_of_some hwalk]
        exact hlinked.empty
      rw [hnew, hbefore, Option.bind_some, hentryFresh]
      rfl
    · rw [hold]
      cases hx : walk (links s.mem) r (vpns x pgtableToplevel) with
      | none => rfl
      | some t' =>
          have ht' : IsTable s.mem roots t' :=
            ⟨r, hr, _, by rw [length_vpns], hx⟩
          have hne : t' ≠ t := by
            rintro rfl
            obtain ⟨_, hpath⟩ := htables.distinct r hr root hroot _ p
              (by rw [length_vpns]) (le_of_lt hp) t' hx hwalk
            rw [← hpath, length_vpns] at hp
            omega
          simp only [Option.bind_some]
          rw [hentry t' _ ht' (.inl hne)]
  · intro r hr q t' hq hlength
    rcases hlinked.walk_eq htables.distinct hr (Nat.le_succ_of_le hlength) with
      ⟨rfl, rfl, _⟩ | ⟨_, hold⟩
    · rw [walk_concat_of_some hwalk, hlinked.empty] at hq
      cases hq
    · rw [hold]
      exact hq
  · intro other hother
    rcases hlinked.reached htables.distinct hother with rfl | hold
    · exact .inr (List.mem_cons_self ..)
    · exact .inl hold
  · intro other hother htable hnot
    refine honly other hother ?_ ?_
    · rintro rfl
      exact hnot (List.mem_cons_self ..)
    · rintro rfl
      exact htable ht
  · rfl
  · simp [MemState.linked, MemState.taken]
  · simp [MemState.linked, MemState.taken]
  · rcases hlinked.walk_eq htables.distinct hroot
      (show (p ++ [idx]).length ≤ _ by simp; omega) with
      ⟨_, _, hnew⟩ | ⟨hnot, _⟩
    · exact hnew
    · exact absurd ⟨rfl, rfl⟩ hnot
  · intro q hq hne
    rcases hlinked.walk_eq htables.distinct hroot (Nat.le_succ_of_le hq) with
      ⟨_, hpath, _⟩ | ⟨_, hold⟩
    · exact absurd hpath hne
    · exact hold

def pathsFrom (va : UInt64) : (level : Nat) → (p : List Vpn) → Finset (List Vpn)
  | 0, _ => ∅
  | level + 1, p =>
      insert (p ++ [vpn va (level + 1)]) (pathsFrom va level (p ++ [vpn va (level + 1)]))

def lacking (m : Memory) (root : UInt64) (paths : Finset (List Vpn)) : Nat :=
  (paths.filter fun q => walk (links m) root q = none).card

theorem length_of_pathsFrom {level : Nat} {p q : List Vpn}
    (hq : q ∈ pathsFrom va level p) :
    p.length < q.length ∧ q.length ≤ p.length + level := by
  induction level generalizing p with
  | zero => exact absurd hq (Finset.notMem_empty q)
  | succ level ih =>
      rcases Finset.mem_insert.mp hq with rfl | hrest
      · simp
      · have hlength := ih hrest
        rw [List.length_append, List.length_singleton] at hlength
        omega

theorem lacking_insert {m : Memory} {paths : Finset (List Vpn)} {q : List Vpn}
    (hq : q ∉ paths) :
    lacking m root (insert q paths) =
      lacking m root paths + if walk (links m) root q = none then 1 else 0 := by
  unfold lacking
  rw [Finset.filter_insert]
  split
  · exact Finset.card_insert_of_notMem fun hmem => hq (Finset.mem_filter.mp hmem).1
  · rfl

theorem lacking_congr {m m' : Memory} {paths : Finset (List Vpn)}
    (h : ∀ q ∈ paths, walk (links m') root q = none ↔ walk (links m) root q = none) :
    lacking m' root paths = lacking m root paths := by
  unfold lacking
  rw [Finset.filter_congr h]

/-- With `alloc` the loop ends with the last table for the address, unless there are
fewer pages than it needs tables. -/
theorem vmGetpteLoop_cases (va : UInt64) {level : Nat} {p : List Vpn}
    (htables : PageTables s.mem roots) (hframes : FreshFrames s roots l)
    (hroot : root ∈ roots) (hwalk : walk (links s.mem) root p = some t)
    (hp : p.length + level = pgtableToplevel) :
    (∃ t' s' l', vmGetpteLoop va true level t s = .ok (some t', s') ∧
      Grown s s' roots l l' ∧ walk (links s'.mem) root (p ++ vpns va level) = some t' ∧
      supply s' true l' + lacking s.mem root (pathsFrom va level p) = supply s true l ∧
      ∀ q, q.length ≤ pgtableToplevel → (walk (links s'.mem) root q = none ↔
        walk (links s.mem) root q = none ∧ q ∉ pathsFrom va level p)) ∨
    (supply s true l < lacking s.mem root (pathsFrom va level p) ∧
      ∃ message, vmGetpteLoop va true level t s = .error (.panic message)) := by
  induction level generalizing s t p l with
  | zero =>
      refine .inl ⟨t, s, l, rfl, Grown.refl htables hframes, ?_, rfl, ?_⟩
      · rw [vpns, List.append_nil]
        exact hwalk
      · intro q _
        exact ⟨fun h => ⟨h, Finset.notMem_empty q⟩, fun h => h.1⟩
  | succ level ih =>
      rw [vmGetpteLoop, readMem_bind]
      have hpath : p ++ vpns va (level + 1) =
          (p ++ [vpn va (level + 1)]) ++ vpns va level := by
        rw [vpns, List.append_assoc]
        rfl
      have hlength : (p ++ [vpn va (level + 1)]).length + level =
          pgtableToplevel := by
        rw [List.length_append, List.length_singleton]
        omega
      have hdeeper : p ++ [vpn va (level + 1)] ∉
          pathsFrom va level (p ++ [vpn va (level + 1)]) :=
        fun hmem => absurd (length_of_pathsFrom hmem).1 (lt_irrefl _)
      rw [hpath, pathsFrom, lacking_insert hdeeper]
      cases hvalid : pteValid (entry s.mem t (vpn va (level + 1))) with
      | true =>
          rw [if_pos rfl]
          have hnext : walk (links s.mem) root (p ++ [vpn va (level + 1)]) =
              some (pteToPa (entry s.mem t (vpn va (level + 1)))) := by
            rw [walk_concat_of_some hwalk, links, if_pos hvalid]
          rw [hnext, if_neg (Option.some_ne_none _), Nat.add_zero]
          rcases ih htables hframes hnext hlength with
            ⟨t', s', l', hrun, hgrown, hend, hsupply, hnone⟩ | hstops
          · refine .inl ⟨t', s', l', hrun, hgrown, hend, hsupply, ?_⟩
            intro q hq
            rw [hnone q hq, Finset.mem_insert, not_or]
            refine and_congr_right fun hlack => ⟨fun hnot => ⟨?_, hnot⟩, fun h => h.2⟩
            rintro rfl
            rw [hnext] at hlack
            cases hlack
          · exact .inr hstops
      | false =>
          rw [if_neg Bool.false_ne_true, if_pos rfl]
          have hnone : walk (links s.mem) root (p ++ [vpn va (level + 1)]) = none := by
            rw [walk_concat_of_some hwalk, links, hvalid, if_neg Bool.false_ne_true]
          rw [hnone, if_pos rfl]
          rcases hframes.list.alloc_cases with
            ⟨page, rest, rfl, halloc, hsupply⟩ | ⟨hempty, message, hpanic⟩
          · obtain ⟨hpage, _, _, hl, hgrown, hnext, hkeeps⟩ :=
              grown_linked htables hframes hroot (by omega) hwalk hvalid halloc
            obtain rfl := (List.cons.inj hl).2
            have hstate : ((s.taken true).setMem
                ((s.taken true).mem.memset page.toNat 0 4096)).setMem
                  (((s.taken true).setMem
                    ((s.taken true).mem.memset page.toNat 0 4096)).mem.store64
                      (entryAddr t (vpn va (level + 1))) (paToPte page ||| pteV)) =
                s.linked t (vpn va (level + 1)) := by
              rw [hpage]
              rfl
            rw [Exec.bind_of_ok halloc, updateMem_bind, updateMem_bind, hstate]
            have hlacking : lacking (s.linked t (vpn va (level + 1))).mem root
                (pathsFrom va level (p ++ [vpn va (level + 1)])) =
                lacking s.mem root (pathsFrom va level (p ++ [vpn va (level + 1)])) := by
              apply lacking_congr
              intro q hq
              have hbounds := length_of_pathsFrom hq
              rw [hkeeps q (by omega) fun heq => hdeeper (heq ▸ hq)]
            have hleft : supply (s.linked t (vpn va (level + 1))) true rest + 1 =
                supply s true (page :: rest) := hsupply
            rcases ih hgrown.tables hgrown.frames hnext hlength with
              ⟨t', s', l', hrun, hgrown', hend, hsupply', hnone'⟩ | ⟨hless, hpanic⟩
            · refine .inl ⟨t', s', l', hrun, hgrown.trans hgrown', hend, by omega, ?_⟩
              intro q hq
              rw [hnone' q hq, Finset.mem_insert, not_or]
              by_cases hnew : q = p ++ [vpn va (level + 1)]
              · subst hnew
                rw [hnext]
                exact ⟨fun h => absurd h.1 (Option.some_ne_none _), fun h => absurd rfl h.2.1⟩
              · rw [hkeeps q hq hnew]
                exact and_congr_right fun _ => ⟨fun h => ⟨hnew, h⟩, fun h => h.2⟩
            · exact .inr ⟨by omega, hpanic⟩
          · refine .inr ⟨by omega, message, ?_⟩
            exact Exec.bind_eq_error.mpr (.inl hpanic)

theorem vmGetpteLoop_grows {level : Nat} {p : List Vpn} {result : Option UInt64}
    (htables : PageTables s.mem roots) (hframes : FreshFrames s roots l)
    (hroot : root ∈ roots) (hwalk : walk (links s.mem) root p = some t)
    (hp : p.length + level = pgtableToplevel)
    (hrun : vmGetpteLoop va true level t s = .ok (result, s')) :
    ∃ t' l', result = some t' ∧ Grown s s' roots l l' ∧
      walk (links s'.mem) root (p ++ vpns va level) = some t' := by
  rcases vmGetpteLoop_cases va htables hframes hroot hwalk hp with
    ⟨t', s₁, l', hok, hgrown, hend, _⟩ | ⟨_, message, hpanic⟩
  · rw [hok] at hrun
    cases hrun
    exact ⟨t', l', rfl, hgrown, hend⟩
  · rw [hpanic] at hrun
    cases hrun

theorem vmGetpteLoop_reads (va : UInt64) (level : Nat) (t : UInt64)
    (s : MemState) :
    vmGetpteLoop va false level t s =
      .ok (walk (links s.mem) t (vpns va level), s) := by
  induction level generalizing t with
  | zero => rfl
  | succ level ih =>
      rw [vmGetpteLoop, readMem_bind]
      cases hvalid : pteValid (entry s.mem t (vpn va (level + 1))) with
      | true => simp [ih, vpns, walk, links, hvalid]
      | false => simp [vpns, walk, links, hvalid, Exec.pure_apply]

theorem vmGetpte_grows {result : Option Nat} (htables : PageTables s.mem roots)
    (hframes : FreshFrames s roots l) (hroot : root ∈ roots)
    (hrun : vmGetpte root va true s = .ok (result, s')) :
    ∃ t l', result = some (entryAddr t (vpn va 0)) ∧ Grown s s' roots l l' ∧
      leafTable s'.mem root va = some t := by
  unfold vmGetpte at hrun
  rw [massert_bind_eq_ok, massert_bind_eq_ok, Exec.bind_eq_ok] at hrun
  obtain ⟨_, _, table, s₁, hloop, hrun⟩ := hrun
  have hstart : walk (links s.mem) root [] = some root := rfl
  obtain ⟨t, l', rfl, hgrown, hwalk⟩ :=
    vmGetpteLoop_grows htables hframes hroot hstart rfl hloop
  cases hrun
  refine ⟨t, l', rfl, hgrown, ?_⟩
  rw [List.nil_append, vpns_pgrounddown va (le_refl 2)] at hwalk
  exact hwalk

theorem vmGetpte_reads (hva : va ≤ vaMax) (hroot : root ≠ 0) (s : MemState) :
    vmGetpte root va false s =
      .ok ((leafTable s.mem root va).map fun t => entryAddr t (vpn va 0), s) := by
  unfold vmGetpte massert
  rw [Exec.require_of_true hva, Exec.require_of_true hroot, pure_bind, pure_bind,
    Exec.bind_of_ok (vmGetpteLoop_reads _ _ _ _), vpns_pgrounddown va (le_refl 2)]
  unfold leafTable
  cases walk (links s.mem) root (vpns va pgtableToplevel) <;> rfl

theorem vmGetpte_reads_eq_ok {result : Option Nat} :
    vmGetpte root va false s = .ok (result, s') ↔
      (va ≤ vaMax ∧ root ≠ 0) ∧ s' = s ∧
        result = (leafTable s.mem root va).map fun t => entryAddr t (vpn va 0) := by
  constructor
  · intro hrun
    have hguard : va ≤ vaMax ∧ root ≠ 0 := by
      unfold vmGetpte at hrun
      rw [massert_bind_eq_ok, massert_bind_eq_ok] at hrun
      exact ⟨hrun.1, hrun.2.1⟩
    rw [vmGetpte_reads hguard.1 hguard.2] at hrun
    cases hrun
    exact ⟨hguard, rfl, rfl⟩
  · rintro ⟨hguard, rfl, rfl⟩
    exact vmGetpte_reads hguard.1 hguard.2 _

/-! `vm_mappages`. -/

structure Remapped (s s' : MemState) (roots : Set UInt64) (l l' : List UInt64)
    (root : UInt64) (map : UInt64 → Option UInt64) : Prop where
  tables : PageTables s'.mem roots
  frames : FreshFrames s' roots l'
  suffix : ∃ taken, l = taken ++ l'
  translate : ∀ va, va < vaMax → translate s'.mem root va = map va
  others : ∀ r ∈ roots, r ≠ root → ∀ va, va < vaMax →
    Mem.translate s'.mem r va = Mem.translate s.mem r va
  added : ∀ page, IsTable s'.mem roots page →
    IsTable s.mem roots page ∨ page ∈ l
  mem : ∀ page, page.toNat % 4096 = 0 → ¬ IsTable s.mem roots page →
    page ∉ l → SamePage page s.mem s'.mem
  userRegion : s'.userRegion = s.userRegion
  kernelPgtbl : s'.kernelPgtbl = s.kernelPgtbl
  freed : s'.freed = s.freed

variable {map map' : UInt64 → Option UInt64}

theorem Grown.remapped (h : Grown s s' roots l l') (hroot : root ∈ roots) :
    Remapped s s' roots l l' root (Mem.translate s.mem root) :=
  ⟨h.tables, h.frames, h.suffix, fun va _ => h.translate root hroot va,
    fun r hr _ va _ => h.translate r hr va, h.added, h.mem, h.userRegion,
    h.kernelPgtbl, h.freed⟩

theorem Remapped.congr (h : Remapped s s' roots l l' root map)
    (hmap : ∀ va, va < vaMax → map va = map' va) :
    Remapped s s' roots l l' root map' :=
  { h with translate := fun va hva => (h.translate va hva).trans (hmap va hva) }

theorem Remapped.trans (h : Remapped s s' roots l l' root map)
    (h' : Remapped s' s'' roots l' l'' root map') :
    Remapped s s'' roots l l'' root map' := by
  obtain ⟨taken, hl⟩ := h.suffix
  obtain ⟨taken', hl'⟩ := h'.suffix
  have hsub : ∀ page, page ∈ l' → page ∈ l := by
    intro page hpage
    rw [hl]
    exact List.mem_append_right _ hpage
  refine ⟨h'.tables, h'.frames, ⟨taken ++ taken', ?_⟩, h'.translate, ?_, ?_, ?_,
    ?_, ?_, ?_⟩
  · rw [hl, hl', List.append_assoc]
  · intro r hr hne va hva
    rw [h'.others r hr hne va hva, h.others r hr hne va hva]
  · intro page hpage
    rcases h'.added page hpage with hpage | hpage
    · exact h.added page hpage
    · exact .inr (hsub page hpage)
  · intro page haligned htable hnot
    have htable' : ¬ IsTable s'.mem roots page := by
      intro hpage
      rcases h.added page hpage with hpage | hpage
      · exact htable hpage
      · exact hnot hpage
    exact (h.mem page haligned htable hnot).trans
      (h'.mem page haligned htable' fun hpage => hnot (hsub page hpage))
  · rw [h'.userRegion, h.userRegion]
  · rw [h'.kernelPgtbl, h.kernelPgtbl]
  · rw [h'.freed, h.freed]

def setPage (map : UInt64 → Option UInt64) (va : UInt64) (value : Option UInt64) :
    UInt64 → Option UInt64 :=
  fun x => if x.toNat / 4096 = va.toNat / 4096 then value else map x

def setPages (map : UInt64 → Option UInt64) (beg : UInt64) (pages : Nat)
    (value : Nat → Option UInt64) : UInt64 → Option UInt64 :=
  fun x =>
    if beg.toNat / 4096 ≤ x.toNat / 4096 ∧
        x.toNat / 4096 < beg.toNat / 4096 + pages then
      value (x.toNat / 4096 - beg.toNat / 4096)
    else map x

theorem setPages_succ (map : UInt64 → Option UInt64) {beg : UInt64} (pages : Nat)
    (value : Nat → Option UInt64) (hbeg : beg.toNat + 4096 < 2 ^ 64) (x : UInt64) :
    setPages (setPage map beg (value 0)) (beg + pgsize) pages
      (fun i => value (i + 1)) x = setPages map beg (pages + 1) value x := by
  have hnext : (beg + pgsize).toNat / 4096 = beg.toNat / 4096 + 1 := by
    rw [add_pgsize_toNat hbeg]
    omega
  unfold setPages setPage
  rw [hnext]
  by_cases hhere : x.toNat / 4096 = beg.toNat / 4096
  · rw [if_neg (by omega), if_pos hhere, if_pos (by omega), hhere, Nat.sub_self]
  · by_cases hlater : beg.toNat / 4096 + 1 ≤ x.toNat / 4096 ∧
      x.toNat / 4096 < beg.toNat / 4096 + 1 + pages
    · have hshift : x.toNat / 4096 - (beg.toNat / 4096 + 1) + 1 =
          x.toNat / 4096 - beg.toNat / 4096 := by omega
      rw [if_pos hlater, if_pos (by omega)]
      dsimp only
      rw [hshift]
    · rw [if_neg hlater, if_neg hhere, if_neg (by omega)]

theorem setPages_congr {beg : UInt64} {pages : Nat} {value : Nat → Option UInt64}
    {x : UInt64} (h : map x = map' x) :
    setPages map beg pages value x = setPages map' beg pages value x := by
  unfold setPages
  rw [h]

theorem remapped_setEntry (htables : PageTables s.mem roots)
    (hframes : FreshFrames s roots l) (hroot : root ∈ roots) (hva : va ≤ vaMax)
    (hleaf : leafTable s.mem root va = some t) (pte : UInt64) :
    Remapped s (s.setMem (setEntry s.mem t (vpn va 0) pte)) roots l l root
      (setPage (translate s.mem root) va (validEntry pte)) := by
  have ht := leafTable_isTable hroot hleaf
  have htaligned := IsTable.aligned htables ht
  have honly := onlyPage_setEntry s.mem t (vpn va 0) pte
  have htable : ∀ page, IsTable (setEntry s.mem t (vpn va 0) pte) roots page ↔
      IsTable s.mem roots page :=
    fun page => isTable_setEntry_leaf htables hroot hleaf _ _
  refine ⟨htables.setEntry_leaf hroot hleaf _ _, ⟨?_, ?_⟩, ⟨[], rfl⟩, ?_, ?_, ?_,
    ?_, rfl, rfl, rfl⟩
  · refine hframes.list.congr rfl ?_
    intro page hpage
    refine honly.samePage htaligned (hframes.list.inRegion page hpage).aligned ?_
    rintro rfl
    exact hframes.fresh _ hpage ht
  · intro page hpage hold
    exact hframes.fresh page hpage ((htable page).mp hold)
  · intro x hx
    refine (translate_setEntry_leaf htables hroot hva hleaf pte hroot hx).trans ?_
    simp [setPage]
  · intro r hr hne x hx
    refine (translate_setEntry_leaf htables hroot hva hleaf pte hr hx).trans ?_
    simp [hne]
  · intro page hpage
    exact .inl ((htable page).mp hpage)
  · intro page haligned hnot _
    refine honly.samePage htaligned haligned ?_
    rintro rfl
    exact hnot ht

/-- The entry that `vm_mappages` writes for a page of the range. -/
def mappedEntry (pa perm : UInt64) (i : Nat) : Option UInt64 :=
  some (paToPte (pa + UInt64.ofNat i * pgsize) ||| perm ||| pteV)

theorem mappedEntry_succ (pa perm : UInt64) :
    (fun i => mappedEntry pa perm (i + 1)) = mappedEntry (pa + pgsize) perm := by
  funext i
  have hnext : pa + UInt64.ofNat (i + 1) * pgsize =
      pa + pgsize + UInt64.ofNat i * pgsize := by
    rw [UInt64.ofNat_add]
    grind
  rw [mappedEntry, mappedEntry, hnext]

theorem vmMappagesLoop_spec {pages : Nat} {beg dst pa perm : UInt64}
    {value : Unit} (htables : PageTables s.mem roots)
    (hframes : FreshFrames s roots l) (hroot : root ∈ roots)
    (hrange : beg.toNat + pages * 4096 ≤ 2 ^ 38)
    (hrun : vmMappagesLoop root pa perm pages beg dst s = .ok (value, s')) :
    ∃ l', Remapped s s' roots l l' root
      (setPages (translate s.mem root) beg pages (mappedEntry dst perm)) := by
  induction pages generalizing s beg dst l with
  | zero =>
      cases hrun
      refine ⟨l, ((Grown.refl htables hframes).remapped hroot).congr ?_⟩
      intro x _
      unfold setPages
      rw [if_neg (by omega)]
  | succ pages ih =>
      rw [vmMappagesLoop, Exec.bind_eq_ok] at hrun
      obtain ⟨result, s₁, hgetpte, hrun⟩ := hrun
      obtain ⟨t, l₁, rfl, hgrown, hleaf⟩ :=
        vmGetpte_grows htables hframes hroot hgetpte
      dsimp only at hrun
      rw [readMem_bind, massert_bind_eq_ok, updateMem_bind] at hrun
      obtain ⟨_, hrun⟩ := hrun
      have hbeg : beg < vaMax := by
        rw [UInt64.lt_iff_toNat_lt]
        change _ < 2 ^ 38
        omega
      have hnext : (beg + pgsize).toNat = beg.toNat + 4096 :=
        add_pgsize_toNat (by omega)
      have hset := remapped_setEntry hgrown.tables hgrown.frames hroot
        (UInt64.le_of_lt hbeg) hleaf (paToPte dst ||| perm ||| pteV)
      obtain ⟨l', hrest⟩ := ih hset.tables hset.frames (by omega) hrun
      refine ⟨l', (((hgrown.remapped hroot).trans hset).trans hrest).congr ?_⟩
      intro x hx
      have hentry : validEntry (paToPte dst ||| perm ||| pteV) =
          mappedEntry dst perm 0 := by
        unfold validEntry mappedEntry
        rw [if_pos (pteValid_or _)]
        simp
      rw [setPages_congr (hset.translate x hx), ← mappedEntry_succ, hentry,
        setPages_succ _ _ _ (by omega)]
      exact setPages_congr (hgrown.translate root hroot x)

theorem pageCount_spec {len : UInt64} (haligned : va % pgsize = 0)
    (hlen : 0 < len) (hwrap : va.toNat + len.toNat < 2 ^ 64) :
    pageCount va len = (len.toNat + 4095) / 4096 := by
  have hva := (aligned_iff va).mp haligned
  have hpos : 0 < len.toNat := UInt64.lt_iff_toNat_lt.mp hlen
  have hsum : (va + len).toNat = va.toNat + len.toNat := by
    rw [UInt64.toNat_add]
    exact Nat.mod_eq_of_lt hwrap
  have hlast : (va + len - 1).toNat = va.toNat + len.toNat - 1 := by
    rw [UInt64.toNat_sub_of_le, hsum]
    · rfl
    · rw [UInt64.le_iff_toNat_le, hsum]
      change 1 ≤ _
      omega
  unfold pageCount
  dsimp only
  rw [if_pos, pgrounddown_toNat, hlast]
  · omega
  · rw [UInt64.le_iff_toNat_le, pgrounddown_toNat, hlast]
    omega

theorem pageCount_room {len : UInt64} (haligned : va % pgsize = 0)
    (hlen : 0 < len) (hwrap : va.toNat + len.toNat < 2 ^ 64)
    (hmax : va + len - 1 < vaMax) :
    va.toNat + pageCount va len * 4096 ≤ 2 ^ 38 := by
  have hva := (aligned_iff va).mp haligned
  have hpos : 0 < len.toNat := UInt64.lt_iff_toNat_lt.mp hlen
  have hlast : (va + len - 1).toNat = va.toNat + len.toNat - 1 := by
    rw [UInt64.toNat_sub_of_le, UInt64.toNat_add, Nat.mod_eq_of_lt hwrap]
    · rfl
    · rw [UInt64.le_iff_toNat_le, UInt64.toNat_add, Nat.mod_eq_of_lt hwrap]
      change 1 ≤ _
      omega
  rw [UInt64.lt_iff_toNat_lt, hlast] at hmax
  change _ < 2 ^ 38 at hmax
  rw [pageCount_spec haligned hlen hwrap]
  omega

theorem vmMappages_spec {len pa perm : UInt64} {value : Unit}
    (htables : PageTables s.mem roots) (hframes : FreshFrames s roots l)
    (hroot : root ∈ roots) (hwrap : va.toNat + len.toNat < 2 ^ 64)
    (hrun : vmMappages root va pa len perm s = .ok (value, s')) :
    ∃ l', Remapped s s' roots l l' root
      (setPages (translate s.mem root) va ((len.toNat + 4095) / 4096)
        (mappedEntry pa perm)) := by
  unfold vmMappages at hrun
  rw [massert_bind_eq_ok, massert_bind_eq_ok, massert_bind_eq_ok] at hrun
  obtain ⟨⟨haligned, _⟩, hlen, hmax, hrun⟩ := hrun
  have hroom := pageCount_room haligned hlen hwrap hmax
  rw [← pageCount_spec haligned hlen hwrap]
  exact vmMappagesLoop_spec htables hframes hroot hroom hrun

/-! `vm_unmappages`. -/

theorem freeFrame_eq_ok {freeit : Bool} {value : Unit} :
    freeFrame freeit page root s = .ok (value, s') ↔
      if freeit then
        pmemFree page (decide (root = s.kernelPgtbl)) s = .ok (value, s')
      else s' = s := by
  cases freeit with
  | false =>
      constructor
      · intro h
        cases h
        rfl
      · intro h
        cases (show s' = s from h)
        rfl
  | true => exact Iff.rfl

theorem vmUnmappagesLoop_succ {pages : Nat} {beg : UInt64} {freeit : Bool}
    {value : Unit}
    (hrun : vmUnmappagesLoop root freeit (pages + 1) beg s = .ok (value, s')) :
    ∃ t s₁, leafTable s.mem root beg = some t ∧
      pteValid (entry s.mem t (vpn beg 0)) ∧
      pteFlags (entry s.mem t (vpn beg 0)) ≠ pteV ∧
      freeFrame freeit (pteToPa (entry s.mem t (vpn beg 0))) root s =
        .ok ((), s₁) ∧
      vmUnmappagesLoop root freeit pages (beg + pgsize)
        (s₁.setMem (setEntry s₁.mem t (vpn beg 0) 0)) = .ok (value, s') := by
  rw [vmUnmappagesLoop, Exec.bind_eq_ok] at hrun
  obtain ⟨result, s₀, hgetpte, hrun⟩ := hrun
  obtain ⟨_, rfl, rfl⟩ := vmGetpte_reads_eq_ok.mp hgetpte
  cases hleaf : leafTable s₀.mem root beg with
  | none =>
      rw [hleaf] at hrun
      cases hrun
  | some t =>
      rw [hleaf] at hrun
      dsimp only [Option.map_some] at hrun
      rw [readMem_bind, massert_bind_eq_ok, massert_bind_eq_ok,
        Exec.bind_eq_ok] at hrun
      obtain ⟨hvalid, hflags, value', s₁, hfree, hrun⟩ := hrun
      exact ⟨t, s₁, rfl, hvalid, hflags, hfree, hrun⟩

def framesOf (map : UInt64 → Option UInt64) : (beg : UInt64) → Nat → List UInt64
  | _, 0 => []
  | beg, pages + 1 =>
      ((map beg).map pteToPa).toList ++ framesOf map (beg + pgsize) pages

structure Unmapped (s s' : MemState) (roots : Set UInt64) (root : UInt64)
    (map : UInt64 → Option UInt64) (frames : List UInt64) : Prop where
  tables : PageTables s'.mem roots
  isTable : ∀ page, IsTable s'.mem roots page ↔ IsTable s.mem roots page
  translate : ∀ va, va < vaMax → translate s'.mem root va = map va
  others : ∀ r ∈ roots, r ≠ root → ∀ va, va < vaMax →
    Mem.translate s'.mem r va = Mem.translate s.mem r va
  freed : s'.freed = frames.reverse ++ s.freed
  kernelPgtbl : s'.kernelPgtbl = s.kernelPgtbl

theorem framesOf_congr {beg : UInt64} {pages : Nat}
    (hrange : beg.toNat + pages * 4096 ≤ 2 ^ 38)
    (h : ∀ va : UInt64, beg.toNat ≤ va.toNat →
      va.toNat < beg.toNat + pages * 4096 → map va = map' va) :
    framesOf map beg pages = framesOf map' beg pages := by
  induction pages generalizing beg with
  | zero => rfl
  | succ pages ih =>
      have hnext : (beg + pgsize).toNat = beg.toNat + 4096 :=
        add_pgsize_toNat (by omega)
      rw [framesOf, framesOf, h beg (le_refl _) (by omega), ih (by omega)]
      intro va hlow hhigh
      exact h va (by omega) (by omega)

/-- The state in which a frame was passed to `pmem_free`, if it was. -/
theorem freeFrame_frame {freeit : Bool} {value : Unit}
    (htables : PageTables s.mem roots)
    (hnot : freeit → ¬ IsTable s.mem roots page)
    (hrun : freeFrame freeit page root s = .ok (value, s')) :
    (∀ t, IsTable s.mem roots t → SamePage t s.mem s'.mem) ∧
      s'.freed = (if freeit then [page] else []) ++ s.freed ∧
      s'.kernelPgtbl = s.kernelPgtbl := by
  rw [freeFrame_eq_ok] at hrun
  cases freeit with
  | false =>
      cases (show s' = s from hrun)
      exact ⟨fun _ _ _ _ => rfl, rfl, rfl⟩
  | true =>
      have hfree : pmemFree page (decide (root = s.kernelPgtbl)) s =
        .ok (value, s') := hrun
      refine ⟨?_, ?_⟩
      · intro t ht
        obtain ⟨hcontains, _⟩ := pmemFree_eq_ok.mp hfree
        refine (pmemFree_onlyPage hfree).samePage hcontains.aligned
          (IsTable.aligned htables ht) ?_
        rintro rfl
        exact hnot rfl ht
      · obtain ⟨_, rfl⟩ := pmemFree_eq_ok.mp hfree
        split
        · simp [MemState.pushed, MemState.counted]
        · simp [MemState.counted]

theorem vmUnmappagesLoop_spec {pages : Nat} {beg : UInt64} {freeit : Bool}
    {value : Unit} (htables : PageTables s.mem roots) (hroot : root ∈ roots)
    (hrange : beg.toNat + pages * 4096 ≤ 2 ^ 38)
    (hframes : freeit → ∀ page ∈ framesOf (translate s.mem root) beg pages,
      ¬ IsTable s.mem roots page)
    (hrun : vmUnmappagesLoop root freeit pages beg s = .ok (value, s')) :
    (framesOf (translate s.mem root) beg pages).length = pages ∧
      Unmapped s s' roots root
        (setPages (translate s.mem root) beg pages fun _ => none)
        (if freeit then framesOf (translate s.mem root) beg pages else []) := by
  induction pages generalizing s beg with
  | zero =>
      cases hrun
      refine ⟨rfl, htables, fun _ => Iff.rfl, ?_, fun _ _ _ _ _ => rfl, ?_, rfl⟩
      · intro x _
        unfold setPages
        rw [if_neg (by omega)]
      · simp [framesOf]
  | succ pages ih =>
      obtain ⟨t, s₁, hleaf, hvalid, _, hfree, hrest⟩ := vmUnmappagesLoop_succ hrun
      have hnext : (beg + pgsize).toNat = beg.toNat + 4096 :=
        add_pgsize_toNat (by omega)
      have hbeg : beg < vaMax := by
        rw [UInt64.lt_iff_toNat_lt]
        change _ < 2 ^ 38
        omega
      have hmapped : translate s.mem root beg =
          some (entry s.mem t (vpn beg 0)) := by
        unfold translate validEntry
        rw [hleaf, Option.bind_some, if_pos hvalid]
      have hfirst : framesOf (translate s.mem root) beg (pages + 1) =
          pteToPa (entry s.mem t (vpn beg 0)) ::
            framesOf (translate s.mem root) (beg + pgsize) pages := by
        rw [framesOf, hmapped]
        rfl
      rw [hfirst] at hframes ⊢
      obtain ⟨hsame, hfreed, hkernel⟩ := freeFrame_frame htables
        (fun hfreeit => hframes hfreeit _ (by simp)) hfree
      -- the state before the entry is cleared has the same tables
      have htables₁ := htables.of_samePages hsame
      have hleaf₁ : leafTable s₁.mem root beg = some t :=
        (walk_of_samePages hroot hsame (by rw [length_vpns]; decide)).trans hleaf
      have htables₂ := htables₁.setEntry_leaf hroot hleaf₁ (vpn beg 0) 0
      have htable₂ : ∀ page, IsTable (setEntry s₁.mem t (vpn beg 0) 0) roots page ↔
          IsTable s.mem roots page := fun page =>
        (isTable_setEntry_leaf htables₁ hroot hleaf₁ _ _).trans
          (isTable_of_samePages hsame)
      have htranslate₂ : ∀ r ∈ roots, ∀ x, x < vaMax →
          translate (setEntry s₁.mem t (vpn beg 0) 0) r x =
            if r = root ∧ x.toNat / 4096 = beg.toNat / 4096 then none
            else translate s.mem r x := by
        intro r hr x hx
        rw [translate_setEntry_leaf htables₁ hroot (UInt64.le_of_lt hbeg) hleaf₁ 0 hr
            hx,
          translate_of_samePages hr hsame]
        rfl
      have hlater : framesOf (translate (setEntry s₁.mem t (vpn beg 0) 0) root)
          (beg + pgsize) pages =
          framesOf (translate s.mem root) (beg + pgsize) pages := by
        apply framesOf_congr (by omega)
        intro va hlow hhigh
        rw [htranslate₂ root hroot va (by
          rw [UInt64.lt_iff_toNat_lt]
          change _ < 2 ^ 38
          omega), if_neg (by omega)]
      obtain ⟨hlength, htables', hisTable, htranslate, hothers, hlog, hkernel'⟩ :=
        ih htables₂ (by omega) (by
          intro hfreeit page hpage htable
          change page ∈ framesOf (translate (setEntry s₁.mem t (vpn beg 0) 0) root)
            (beg + pgsize) pages at hpage
          rw [hlater] at hpage
          exact hframes hfreeit page (List.mem_cons_of_mem _ hpage)
            ((htable₂ page).mp htable)) hrest
      simp only [MemState.mem_setMem, hlater] at hlength htranslate hlog
      refine ⟨?_, htables', ?_, ?_, ?_, ?_, ?_⟩
      · rw [List.length_cons, hlength]
      · intro page
        exact (hisTable page).trans (htable₂ page)
      · intro x hx
        rw [htranslate x hx]
        rw [← setPages_succ _ pages (fun _ => none) (by omega)]
        apply setPages_congr
        rw [htranslate₂ root hroot x hx]
        simp [setPage]
      · intro r hr hne x hx
        rw [hothers r hr hne x hx]
        exact (htranslate₂ r hr x hx).trans (by simp [hne])
      · rw [hlog]
        cases freeit with
        | false => simpa using hfreed
        | true =>
            simp only [if_true, MemState.freed_setMem] at hfreed ⊢
            rw [hfreed]
            simp
      · rw [hkernel']
        exact hkernel

theorem vmUnmappages_spec {len : UInt64} {freeit : Bool} {value : Unit}
    (htables : PageTables s.mem roots) (hroot : root ∈ roots)
    (hwrap : va.toNat + len.toNat < 2 ^ 64)
    (hframes : freeit → ∀ page ∈ framesOf (translate s.mem root) va
      ((len.toNat + 4095) / 4096), ¬ IsTable s.mem roots page)
    (hrun : vmUnmappages root va len freeit s = .ok (value, s')) :
    (framesOf (translate s.mem root) va ((len.toNat + 4095) / 4096)).length =
        (len.toNat + 4095) / 4096 ∧
      Unmapped s s' roots root
        (setPages (translate s.mem root) va ((len.toNat + 4095) / 4096)
          fun _ => none)
        (if freeit then
          framesOf (translate s.mem root) va ((len.toNat + 4095) / 4096)
        else []) := by
  unfold vmUnmappages at hrun
  rw [massert_bind_eq_ok, massert_bind_eq_ok, massert_bind_eq_ok] at hrun
  obtain ⟨haligned, hlen, hmax, hrun⟩ := hrun
  have hroom := pageCount_room haligned hlen hwrap hmax
  rw [← pageCount_spec haligned hlen hwrap] at hframes ⊢
  exact vmUnmappagesLoop_spec htables hroot hroom hframes hrun

end UnoOS.Mem
