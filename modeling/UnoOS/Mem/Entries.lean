import UnoOS.Mem.Frames

namespace UnoOS.Mem

open UnoOS.Lib
open UnoOS.Lib.Radix (walk walk_concat_of_some)

/-! A table that was only ever mapped into: an entry that is not valid is 0. -/

def SoundEntries (m : Memory) (root : UInt64) : Prop :=
  ∀ t, IsTable m {root} t → ∀ idx : Vpn, entry m t idx = 0 ∨ pteValid (entry m t idx)

variable {s s' : MemState} {m m' : Memory} {roots : Set UInt64} {l : List UInt64}
  {root va t page : UInt64}

theorem SoundEntries.of_samePages (h : SoundEntries m root)
    (hsame : ∀ t, IsTable m {root} t → SamePage t m m') : SoundEntries m' root := by
  intro t ht idx
  rw [isTable_of_samePages hsame] at ht
  rw [entry_of_samePage (hsame t ht)]
  exact h t ht idx

theorem SoundEntries.setEntry_leaf (h : SoundEntries m root) (htables : PageTables m {root})
    (hleaf : leafTable m root va = some t) {idx : Vpn} {pte : UInt64}
    (hpte : pte = 0 ∨ pteValid pte) : SoundEntries (setEntry m t idx pte) root := by
  have hroot : root ∈ ({root} : Set UInt64) := rfl
  intro t' ht' idx'
  rw [isTable_setEntry_leaf htables hroot hleaf] at ht'
  by_cases hhere : t' = t ∧ idx' = idx
  · rw [hhere.1, hhere.2, entry_setEntry_self]
    exact hpte
  · rw [entry_setEntry _ (IsTable.aligned htables (leafTable_isTable hroot hleaf))
      (IsTable.aligned htables ht') (not_and_or.mp hhere)]
    exact h t' ht' idx'

theorem soundEntries_of_zero (hzero : ∀ idx : Vpn, entry m root idx = 0) :
    SoundEntries m root := by
  have hbare : ∀ idx, links m root idx = none := by
    intro idx
    unfold links
    rw [hzero idx]
    rfl
  rintro t ⟨r, rfl, p, _, hwalk⟩ idx
  cases p with
  | nil =>
      cases hwalk
      exact .inl (hzero idx)
  | cons i p =>
      rw [walk, hbare i] at hwalk
      cases hwalk

theorem vmGetpteLoop_soundEntries {level : Nat} {p : List Vpn} {result : Option UInt64}
    (htables : PageTables s.mem {root}) (hframes : FreshFrames s {root} l)
    (hwalk : walk (links s.mem) root p = some t)
    (hp : p.length + level = pgtableToplevel) (h : SoundEntries s.mem root)
    (hrun : vmGetpteLoop va true level t s = .ok (result, s')) :
    SoundEntries s'.mem root := by
  induction level generalizing s t p l with
  | zero =>
      cases hrun
      exact h
  | succ level ih =>
      have hlength : (p ++ [vpn va (level + 1)]).length + level = pgtableToplevel := by
        rw [List.length_append, List.length_singleton]
        omega
      rw [vmGetpteLoop, readMem_bind] at hrun
      cases hvalid : pteValid (entry s.mem t (vpn va (level + 1))) with
      | true =>
          rw [if_pos hvalid] at hrun
          have hnext : walk (links s.mem) root (p ++ [vpn va (level + 1)]) =
              some (pteToPa (entry s.mem t (vpn va (level + 1)))) := by
            rw [walk_concat_of_some hwalk, links, if_pos hvalid]
          exact ih htables hframes hnext hlength h hrun
      | false =>
          rw [if_neg (by rw [hvalid]; exact Bool.false_ne_true), if_pos rfl,
            Exec.bind_eq_ok] at hrun
          obtain ⟨page, s₁, halloc, hrun⟩ := hrun
          obtain ⟨hpage, rfl, rest, rfl, hgrown, hnext, hkeeps⟩ :=
            grown_linked htables hframes (Set.mem_singleton root) (by omega) hwalk hvalid halloc
          have hstate : ((s.taken true).setMem
              ((s.taken true).mem.memset page.toNat 0 4096)).setMem
                (((s.taken true).setMem
                  ((s.taken true).mem.memset page.toNat 0 4096)).mem.store64
                    (entryAddr t (vpn va (level + 1))) (paToPte page ||| pteV)) =
              s.linked t (vpn va (level + 1)) := by
            rw [hpage]
            rfl
          rw [updateMem_bind, updateMem_bind, hstate] at hrun
          refine ih hgrown.tables hgrown.frames hnext hlength ?_ hrun
          have ht : IsTable s.mem {root} t := ⟨root, rfl, p, by omega, hwalk⟩
          have htaligned := IsTable.aligned htables ht
          have hfresh := hframes.fresh page List.mem_cons_self
          obtain ⟨hblank, hlinked, hothers, _⟩ := linked_entries hpage
            (hframes.list.inRegion page List.mem_cons_self).aligned htaligned
            (fun heq => hfresh (heq ▸ ht)) (vpn va (level + 1))
          rintro t' ⟨r, rfl, q, hq, hwalk'⟩ idx
          by_cases hnew : q = p ++ [vpn va (level + 1)]
          · rw [hnew, hnext] at hwalk'
            cases hwalk'
            exact .inl (hblank idx)
          · rw [hkeeps q hq hnew] at hwalk'
            have ht' : IsTable s.mem {r} t' := ⟨r, rfl, q, hq, hwalk'⟩
            by_cases hhere : t' = t ∧ idx = vpn va (level + 1)
            · rw [hhere.1, hhere.2, hlinked]
              exact .inr (pteValid_or _)
            · rw [hothers t' idx (IsTable.aligned htables ht')
                (fun heq => hfresh (heq ▸ ht')) (not_and_or.mp hhere)]
              exact h t' ht' idx

theorem vmGetpte_soundEntries {result : Option Nat} (htables : PageTables s.mem {root})
    (hframes : FreshFrames s {root} l) (h : SoundEntries s.mem root)
    (hrun : vmGetpte root va true s = .ok (result, s')) : SoundEntries s'.mem root := by
  unfold vmGetpte at hrun
  rw [massert_bind_eq_ok, massert_bind_eq_ok, Exec.bind_eq_ok] at hrun
  obtain ⟨_, _, table, s₁, hloop, hrun⟩ := hrun
  have hsound := vmGetpteLoop_soundEntries htables hframes (p := []) rfl rfl h hloop
  cases table with
  | none =>
      cases hrun
      exact hsound
  | some t =>
      cases hrun
      exact hsound

theorem mapPage_soundEntries {perm : UInt64} {value : Unit}
    (htables : PageTables s.mem {root}) (hframes : FreshFrames s {root} l)
    (h : SoundEntries s.mem root)
    (hrun : vmMappages root va page pgsize perm s = .ok (value, s')) :
    SoundEntries s'.mem root := by
  obtain ⟨_, _, _, hloop⟩ := Frames.mapPage_guard hrun
  rw [vmMappagesLoop, Exec.bind_eq_ok] at hloop
  obtain ⟨result, s₁, hgetpte, hloop⟩ := hloop
  obtain ⟨t, l₁, rfl, hgrown, hleaf⟩ :=
    vmGetpte_grows htables hframes (Set.mem_singleton root) hgetpte
  dsimp only at hloop
  rw [readMem_bind, massert_bind_eq_ok, updateMem_bind] at hloop
  obtain ⟨_, hloop⟩ := hloop
  cases hloop
  exact (vmGetpte_soundEntries htables hframes h hgetpte).setEntry_leaf hgrown.tables
    hleaf (.inr (pteValid_or _))

end UnoOS.Mem
