import UnoOS.Fs.ReadFrame

namespace UnoOS.Fs

open UnoOS.Lib

/-! `inode_free_data`: which blocks of an index tree its recursion releases. The
loop over a table stops at the first zero entry. -/

/-! The calls of `bitmap_free_block`. -/

def usedEntries (table : Block) : List UInt32 :=
  ((List.range entryPerBlock).map fun k => table.word (4 * k)).takeWhile (· ≠ 0)

def freedBlocks (disk : Disk) : (level : Nat) → (blockNum : UInt32) → List UInt32
  | 0, n => [n]
  | level + 1, n => (usedEntries (disk n)).flatMap (freedBlocks disk level) ++ [n]

def InBitmap (n : UInt32) : Prop :=
  (n - sb.dataBitmapStart).toNat / 8 < blockSize

instance : DecidablePred InBitmap := fun _ => inferInstanceAs (Decidable (_ < _))

def Unset.call (u : Unset) : UInt32 × UInt32 := (u.bitmapBlock, u.num)

structure Frees (ns : List UInt32) (s s' : FsState) : Prop where
  disk : ∀ b, b ≠ sb.dataBitmapStart → s'.disk b = s.disk b
  unsets : s'.unsets.map Unset.call =
    (ns.map fun n => (sb.dataBitmapStart, n)).reverse ++ s.unsets.map Unset.call

structure FreesExactly (m : FsM Unit) (s : FsState) (ns : List UInt32) : Prop where
  of_ok : ∀ value s', m s = .ok (value, s') →
    (∀ n ∈ ns, InBitmap n) ∧ Frees ns s s'
  returns : (∀ n ∈ ns, InBitmap n) → ∃ s', m s = .ok ((), s')

section

variable {s s' s'' : FsState} {ns ns' : List UInt32} {m m' : FsM Unit}

theorem Frees.refl (s : FsState) : Frees [] s s := ⟨fun _ _ => rfl, rfl⟩

theorem Frees.trans (h : Frees ns s s') (h' : Frees ns' s' s'') :
    Frees (ns ++ ns') s s'' := by
  refine ⟨fun b hb => (h'.disk b hb).trans (h.disk b hb), ?_⟩
  rw [h'.unsets, h.unsets, List.map_append, List.reverse_append,
    List.append_assoc]

theorem FreesExactly.pure (s : FsState) : FreesExactly (pure ()) s [] := by
  refine ⟨?_, fun _ => ⟨s, rfl⟩⟩
  intro value s' hrun
  cases hrun
  exact ⟨by simp, .refl s⟩

theorem FreesExactly.bind (h : FreesExactly m s ns)
    (hnext : ∀ s', m s = .ok ((), s') → Frees ns s s' → FreesExactly m' s' ns') :
    FreesExactly (m >>= fun _ => m') s (ns ++ ns') := by
  constructor
  · intro value s'' hrun
    obtain ⟨⟨⟩, s', hfirst, hrest⟩ := Exec.bind_eq_ok.mp hrun
    obtain ⟨hin, hfrees⟩ := h.of_ok _ _ hfirst
    obtain ⟨hin', hfrees'⟩ := (hnext s' hfirst hfrees).of_ok _ _ hrest
    refine ⟨?_, hfrees.trans hfrees'⟩
    intro n hn
    exact (List.mem_append.mp hn).elim (hin n) (hin' n)
  · intro hin
    obtain ⟨s', hfirst⟩ := h.returns fun n hn => hin n (List.mem_append_left _ hn)
    obtain ⟨_, hfrees⟩ := h.of_ok _ _ hfirst
    obtain ⟨s'', hrest⟩ := (hnext s' hfirst hfrees).returns
      fun n hn => hin n (List.mem_append_right _ hn)
    exact ⟨s'', (Exec.bind_of_ok hfirst).trans hrest⟩

theorem FreesExactly.of_eq (h : m s = m' s) (hfree : FreesExactly m' s ns) :
    FreesExactly m s ns := by
  refine ⟨?_, ?_⟩
  · rw [h]
    exact hfree.of_ok
  · rw [h]
    exact hfree.returns

theorem bitmapFreeBlock_frees (n : UInt32) (s : FsState) :
    FreesExactly (bitmapFreeBlock n) s [n] := by
  have hunset := BitmapKind.block.unset_eq n s
  change bitmapFreeBlock n s = _ at hunset
  by_cases hin : InBitmap n
  · rw [if_pos (by exact hin)] at hunset
    refine ⟨?_, fun _ => ⟨_, hunset⟩⟩
    intro value s' hrun
    rw [hunset] at hrun
    cases hrun
    refine ⟨by simpa using hin, ?_, rfl⟩
    intro b hb
    exact Function.update_of_ne hb _ _
  · rw [if_neg (by exact hin)] at hunset
    refine ⟨?_, fun h => absurd (h n (by simp)) hin⟩
    intro value s' hrun
    rw [hunset] at hrun
    cases hrun

/-! The loop over a table. -/

def runAll (free : UInt32 → FsM Unit) : List UInt32 → FsM Unit
  | [] => pure ()
  | n :: ns => do
      free n
      runAll free ns

theorem freeEntries_eq (free : UInt32 → FsM Unit) (table : Block)
    (fuel index : Nat) :
    freeEntries free table fuel index = runAll free
      (((List.range' index fuel).map fun k => table.word (4 * k)).takeWhile
        (· ≠ 0)) := by
  induction fuel generalizing index with
  | zero => rfl
  | succ fuel ih =>
      rw [List.range'_succ, List.map_cons, freeEntries]
      by_cases hzero : table.word (4 * index) = 0
      · rw [if_pos hzero, List.takeWhile_cons_of_neg (by simpa using hzero)]
        rfl
      · rw [if_neg hzero, List.takeWhile_cons_of_pos (by simpa using hzero), ih]
        rfl

theorem usedEntries_ne_zero {table : Block} {n : UInt32}
    (h : n ∈ usedEntries table) : n ≠ 0 := by
  have hall := List.all_takeWhile
    (l := (List.range entryPerBlock).map fun k => table.word (4 * k))
    (p := (· ≠ 0))
  simpa using List.all_eq_true.mp hall n h

def AgreesOff (disk : Disk) (s : FsState) : Prop :=
  ∀ b, b ≠ sb.dataBitmapStart → s.disk b = disk b

theorem AgreesOff.of_frees {disk : Disk} (h : AgreesOff disk s)
    (hfrees : Frees ns s s') : AgreesOff disk s' :=
  fun b hb => (hfrees.disk b hb).trans (h b hb)

theorem runAll_frees {disk : Disk} {free : UInt32 → FsM Unit}
    {freed : UInt32 → List UInt32} (hns : ∀ n ∈ ns, ∀ s, AgreesOff disk s →
      FreesExactly (free n) s (freed n))
    (hs : AgreesOff disk s) :
    FreesExactly (runAll free ns) s (ns.flatMap freed) := by
  induction ns generalizing s with
  | nil => exact .pure s
  | cons n ns ih =>
      refine (hns n List.mem_cons_self s hs).bind fun s' _ hfrees => ?_
      exact ih (fun n' hn' => hns n' (List.mem_cons_of_mem _ hn'))
        (hs.of_frees hfrees)

theorem InBitmap.lt_nBlock {n : UInt32} (h : InBitmap n) : n.toNat < nBlock := by
  have hn := n.toNat_lt
  unfold InBitmap blockSize at h
  change n.toNat < 8323
  rw [UInt32.toNat_sub] at h
  change (4294967296 - 130 + n.toNat) % 4294967296 / 8 < 1024 at h
  omega

theorem dataFree_frees {disk : Disk} {level : Nat} {n : UInt32} (hne : n ≠ 0)
    (hclean : sb.dataBitmapStart ∉ freedBlocks disk level n)
    (hs : AgreesOff disk s) :
    FreesExactly (dataFree level n) s (freedBlocks disk level n) := by
  induction level generalizing n s with
  | zero =>
      refine .of_eq ?_ (bitmapFreeBlock_frees n s)
      exact Exec.bind_of_ok (assertThat_of_true hne s)
  | succ level ih =>
      have hself : n ∈ freedBlocks disk (level + 1) n := by simp [freedBlocks]
      by_cases hlt : n.toNat < nBlock
      · have htable : s.disk n = disk n := by
          refine hs n ?_
          rintro rfl
          exact hclean hself
        have hrun : dataFree (level + 1) n s =
            (runAll (dataFree level) (usedEntries (disk n)) >>=
              fun _ => bitmapFreeBlock n) s := by
          unfold dataFree
          rw [Exec.bind_of_ok (assertThat_of_true hne s),
            Exec.bind_of_ok (bufRead_of_lt hlt s), htable, freeEntries_eq,
            ← List.range_eq_range']
          rfl
        refine .of_eq hrun (.bind ?_ fun s' _ _ => bitmapFreeBlock_frees n s')
        refine runAll_frees ?_ hs
        intro entry hentry s' hs'
        refine ih (usedEntries_ne_zero hentry) ?_ hs'
        intro hmem
        exact hclean (List.mem_append_left _ (List.mem_flatMap.mpr ⟨entry, hentry, hmem⟩))
      · constructor
        · intro value s' hrun
          unfold dataFree at hrun
          rw [assertThat_bind_eq_ok, bufRead_bind_eq_ok] at hrun
          exact absurd hrun.2.1 hlt
        · intro hin
          exact absurd (hin n hself).lt_nBlock hlt

end

/-! The places that the recursion visits. -/

section

variable {disk : Disk} {d : InodeDisk}

def prefixOf (disk : Disk) (d : InodeDisk) (t : Table) :
    List (Fin entryPerBlock) :=
  (List.finRange entryPerBlock).takeWhile
    fun k => numberAt disk d (t.child k) ≠ 0

def Place.table : Place → Option Table
  | .top j => if h : nAddrs1 ≤ j.val then
      some (.index ⟨j.val - nAddrs1, Nat.sub_lt_left_of_lt_add h j.isLt⟩)
    else none
  | .entry j k => if j = 2 then some (.second k) else none
  | .leaf _ _ => none

theorem Table.table_place (t : Table) : t.place.table = some t := by
  cases t with
  | index j =>
      simp [Table.place, Place.table, tableAddr]
  | second k => simp [Table.place, Place.table]

def visitedFrom (disk : Disk) (d : InodeDisk) : (level : Nat) → Place → List Place
  | 0, p => [p]
  | level + 1, p =>
      match p.table with
      | none => [p]
      | some t => (prefixOf disk d t).flatMap
          (fun k => visitedFrom disk d level (t.child k)) ++ [p]

def visited (disk : Disk) (d : InodeDisk) : List Place :=
  (List.finRange nAddrs).flatMap fun j =>
    if d.addrs j = 0 then [] else visitedFrom disk d (addrLevel j) (.top j)

theorem visitedFrom_succ (level : Nat) (t : Table) :
    visitedFrom disk d (level + 1) t.place = (prefixOf disk d t).flatMap
      (fun k => visitedFrom disk d level (t.child k)) ++ [t.place] := by
  rw [visitedFrom, t.table_place]

def HasLevels : (level : Nat) → Place → Prop
  | 0, _ => True
  | level + 1, p => ∃ t : Table, p = t.place ∧ ∀ k, HasLevels level (t.child k)

theorem hasLevels_top (j : Fin nAddrs) : HasLevels (addrLevel j) (.top j) := by
  have hj : j.val < 13 := j.isLt
  unfold addrLevel
  split
  · trivial
  · next hdirect =>
    change ¬j.val < 10 at hdirect
    have htop : ∀ l (h : l < 3), j.val = 10 + l →
        Place.top j = Table.place (.index ⟨l, h⟩) := by
      intro l h hl
      exact congrArg Place.top (Fin.ext hl)
    split
    · exact ⟨_, htop (j.val - 10) (by omega) (by omega), fun _ => trivial⟩
    · next hsingle =>
      change ¬j.val < 12 at hsingle
      refine ⟨_, htop 2 (by omega) (by omega), fun k => ?_⟩
      exact ⟨.second k, rfl, fun _ => trivial⟩

theorem usedEntries_eq {t : Table} (hne : numberAt disk d t.place ≠ 0) :
    usedEntries (disk (numberAt disk d t.place)) =
      (prefixOf disk d t).map fun k => numberAt disk d (t.child k) := by
  have hword : ∀ k : Fin entryPerBlock, numberAt disk d (t.child k) =
      (disk (numberAt disk d t.place)).word (4 * k.val) := by
    intro k
    rw [numberAt_child]
    exact if_neg hne
  unfold usedEntries prefixOf
  rw [← List.map_coe_finRange_eq_range, List.map_map, List.takeWhile_map]
  simp only [hword]
  rfl

theorem freedBlocks_eq {level : Nat} {p : Place} (hlevels : HasLevels level p)
    (hne : numberAt disk d p ≠ 0) :
    freedBlocks disk level (numberAt disk d p) =
      (visitedFrom disk d level p).map (numberAt disk d) := by
  induction level generalizing p with
  | zero => rfl
  | succ level ih =>
      obtain ⟨t, rfl, hchildren⟩ := hlevels
      rw [freedBlocks, visitedFrom_succ, usedEntries_eq hne, List.map_append,
        List.map_flatMap, List.flatMap_map]
      congr 1
      refine List.flatMap_congr fun k hk => ?_
      exact ih (hchildren k) (by simpa using List.mem_takeWhile_imp hk)

/-! Every place is visited at most once. -/

def Place.ancestors : Place → List Place
  | .top j => [.top j]
  | .entry j k => [.entry j k, .top (tableAddr j)]
  | .leaf k l => [.leaf k l, .entry 2 k, .top (tableAddr 2)]

theorem Place.self_mem_ancestors (p : Place) : p ∈ p.ancestors := by
  cases p <;> simp [ancestors]

theorem tableAddr_inj {j j' : Fin 3} (h : tableAddr j = tableAddr j') : j = j' := by
  apply Fin.ext
  have hval := congrArg Fin.val h
  change 10 + j.val = 10 + j'.val at hval
  omega

/-- At most one entry of a table lies above a place. -/
theorem Place.child_unique {p : Place} {t : Table} {k k' : Fin entryPerBlock}
    (h : t.child k ∈ p.ancestors) (h' : t.child k' ∈ p.ancestors) : k = k' := by
  cases p <;> cases t <;> simp_all [ancestors, Table.child]

theorem Place.top_unique {p : Place} {j j' : Fin nAddrs}
    (h : .top j ∈ p.ancestors) (h' : .top j' ∈ p.ancestors) : j = j' := by
  cases p <;> simp_all [ancestors]

theorem Table.child_not_above (t : Table) (k : Fin entryPerBlock) :
    t.child k ∉ t.place.ancestors := by
  cases t <;> simp [Table.place, Table.child, Place.ancestors]

theorem Place.place_of_child {p : Place} {t : Table} {k : Fin entryPerBlock}
    (h : t.child k ∈ p.ancestors) : t.place ∈ p.ancestors := by
  cases p <;> cases t <;> simp_all [ancestors, Table.child, Table.place]

theorem self_mem_visitedFrom (level : Nat) (p : Place) :
    p ∈ visitedFrom disk d level p := by
  cases level with
  | zero => simp [visitedFrom]
  | succ level =>
      unfold visitedFrom
      split <;> simp

theorem ancestor_of_visitedFrom {level : Nat} {p q : Place}
    (hlevels : HasLevels level p) (h : q ∈ visitedFrom disk d level p) :
    p ∈ q.ancestors := by
  induction level generalizing p with
  | zero =>
      obtain rfl : q = p := by simpa [visitedFrom] using h
      exact q.self_mem_ancestors
  | succ level ih =>
      obtain ⟨t, rfl, hchildren⟩ := hlevels
      rw [visitedFrom_succ, List.mem_append, List.mem_flatMap,
        List.mem_singleton] at h
      rcases h with ⟨k, _, hq⟩ | rfl
      · exact Place.place_of_child (ih (hchildren k) hq)
      · exact Place.self_mem_ancestors _

theorem prefixOf_nodup (t : Table) : (prefixOf disk d t).Nodup :=
  (List.nodup_finRange _).sublist (List.takeWhile_sublist _)

theorem visitedFrom_nodup {level : Nat} {p : Place}
    (hlevels : HasLevels level p) : (visitedFrom disk d level p).Nodup := by
  induction level generalizing p with
  | zero => exact List.nodup_singleton p
  | succ level ih =>
      obtain ⟨t, rfl, hchildren⟩ := hlevels
      rw [visitedFrom_succ]
      refine List.Nodup.append ?_ (List.nodup_singleton _) ?_
      · refine List.nodup_flatMap.mpr ⟨fun k _ => ih (hchildren k), ?_⟩
        refine (prefixOf_nodup t).imp fun {k k'} hne q hq hq' => ?_
        exact hne (Place.child_unique (ancestor_of_visitedFrom (hchildren k) hq)
          (ancestor_of_visitedFrom (hchildren k') hq'))
      · intro q hq hself
        obtain rfl := List.mem_singleton.mp hself
        obtain ⟨k, _, hq⟩ := List.mem_flatMap.mp hq
        exact t.child_not_above k (ancestor_of_visitedFrom (hchildren k) hq)

theorem mem_visited {p : Place} : p ∈ visited disk d ↔
    ∃ j, d.addrs j ≠ 0 ∧ p ∈ visitedFrom disk d (addrLevel j) (.top j) := by
  unfold visited
  rw [List.mem_flatMap]
  constructor
  · rintro ⟨j, _, hp⟩
    split at hp
    · cases hp
    · next hne => exact ⟨j, hne, hp⟩
  · rintro ⟨j, hne, hp⟩
    refine ⟨j, List.mem_finRange j, ?_⟩
    rwa [if_neg hne]

theorem visited_nodup : (visited disk d).Nodup := by
  refine List.nodup_flatMap.mpr ⟨fun j _ => ?_, ?_⟩
  · split
    · exact List.nodup_nil
    · exact visitedFrom_nodup (hasLevels_top j)
  · refine (List.nodup_finRange nAddrs).imp fun {j j'} hne q hq hq' => ?_
    dsimp only at hq hq'
    split at hq
    · cases hq
    split at hq'
    · cases hq'
    exact hne (Place.top_unique (ancestor_of_visitedFrom (hasLevels_top j) hq)
      (ancestor_of_visitedFrom (hasLevels_top j') hq'))

/-! Which places are visited. -/

theorem mem_takeWhile_of_sorted {α : Type} [LinearOrder α] {l : List α}
    (hsorted : l.Pairwise (· < ·)) {test : α → Bool} {a : α} :
    a ∈ l.takeWhile test ↔ a ∈ l ∧ ∀ b ∈ l, b ≤ a → test b := by
  induction l with
  | nil => simp
  | cons x xs ih =>
      obtain ⟨hhead, htail⟩ := List.pairwise_cons.mp hsorted
      by_cases hx : test x
      · rw [List.takeWhile_cons_of_pos hx, List.mem_cons, List.mem_cons, ih htail]
        constructor
        · rintro (rfl | ⟨ha, hall⟩)
          · refine ⟨.inl rfl, fun b hb hle => ?_⟩
            rcases List.mem_cons.mp hb with rfl | hb
            · exact hx
            · exact absurd hle (not_le.mpr (hhead b hb))
          · refine ⟨.inr ha, fun b hb hle => ?_⟩
            rcases List.mem_cons.mp hb with rfl | hb
            · exact hx
            · exact hall b hb hle
        · rintro ⟨rfl | ha, hall⟩
          · exact .inl rfl
          · exact .inr ⟨ha, fun b hb => hall b (List.mem_cons_of_mem _ hb)⟩
      · rw [List.takeWhile_cons_of_neg hx]
        refine iff_of_false List.not_mem_nil ?_
        rintro ⟨ha, hall⟩
        refine hx (hall x List.mem_cons_self ?_)
        rcases List.mem_cons.mp ha with rfl | ha
        · exact le_rfl
        · exact (hhead a ha).le

theorem mem_prefixOf {t : Table} {k : Fin entryPerBlock} :
    k ∈ prefixOf disk d t ↔ ∀ k', k' ≤ k → numberAt disk d (t.child k') ≠ 0 := by
  unfold prefixOf
  rw [mem_takeWhile_of_sorted (List.pairwise_lt_finRange _)]
  simp

theorem numberAt_visitedFrom {level : Nat} {p q : Place}
    (hlevels : HasLevels level p) (hne : numberAt disk d p ≠ 0)
    (h : q ∈ visitedFrom disk d level p) : numberAt disk d q ≠ 0 := by
  induction level generalizing p with
  | zero =>
      obtain rfl : q = p := by simpa [visitedFrom] using h
      exact hne
  | succ level ih =>
      obtain ⟨t, rfl, hchildren⟩ := hlevels
      rw [visitedFrom_succ, List.mem_append, List.mem_flatMap,
        List.mem_singleton] at h
      rcases h with ⟨k, hk, hq⟩ | rfl
      · exact ih (hchildren k) (mem_prefixOf.mp hk k le_rfl) hq
      · exact hne

/-- An entry that is visited has none but used ones before it. -/
theorem prefix_of_visitedFrom {level : Nat} {p : Place} {t : Table}
    {k : Fin entryPerBlock} (hlevels : HasLevels level p) (hne : p ≠ t.child k)
    (h : t.child k ∈ visitedFrom disk d level p) : k ∈ prefixOf disk d t := by
  induction level generalizing p with
  | zero => exact absurd (by simpa [visitedFrom] using h) hne.symm
  | succ level ih =>
      obtain ⟨t', rfl, hchildren⟩ := hlevels
      rw [visitedFrom_succ, List.mem_append, List.mem_flatMap,
        List.mem_singleton] at h
      rcases h with ⟨k', hk', hq⟩ | heq
      · by_cases hself : t'.child k' = t.child k
        · obtain ⟨rfl, rfl⟩ := child_inj hself
          exact hk'
        · exact ih (hchildren k') hself hq
      · exact absurd heq.symm hne

/-- No table has a zero entry before a used one. -/
def Dense (disk : Disk) (d : InodeDisk) : Prop :=
  ∀ (t : Table) (k k' : Fin entryPerBlock), k ≤ k' →
    numberAt disk d (t.child k') ≠ 0 → numberAt disk d (t.child k) ≠ 0

theorem numberAt_place_of_child {t : Table} {k : Fin entryPerBlock}
    (h : numberAt disk d (t.child k) ≠ 0) : numberAt disk d t.place ≠ 0 := by
  intro hzero
  rw [numberAt_child, hzero, through_zero] at h
  exact h rfl

theorem Dense.mem_prefixOf (h : Dense disk d) {t : Table} {k : Fin entryPerBlock}
    (hne : numberAt disk d (t.child k) ≠ 0) : k ∈ prefixOf disk d t :=
  UnoOS.Fs.mem_prefixOf.mpr fun k' hle => h t k' k hle hne

theorem Dense.mem_visitedFrom (h : Dense disk d) {level : Nat} {t : Table}
    {k : Fin entryPerBlock} {q : Place} (hne : numberAt disk d (t.child k) ≠ 0)
    (hq : q ∈ visitedFrom disk d level (t.child k)) :
    q ∈ visitedFrom disk d (level + 1) t.place := by
  rw [visitedFrom_succ]
  exact List.mem_append_left _ (List.mem_flatMap.mpr ⟨k, h.mem_prefixOf hne, hq⟩)

theorem addrLevel_tableAddr (j : Fin 3) : addrLevel (tableAddr j) = 1 ∧ j ≠ 2 ∨
    addrLevel (tableAddr j) = 2 ∧ j = 2 := by
  revert j
  decide

theorem Dense.mem_visited (h : Dense disk d) {p : Place}
    (hne : numberAt disk d p ≠ 0) : p ∈ visited disk d := by
  rw [UnoOS.Fs.mem_visited]
  cases p with
  | top j => exact ⟨j, hne, self_mem_visitedFrom _ _⟩
  | entry j k =>
      have htop := numberAt_place_of_child (t := .index j) hne
      refine ⟨tableAddr j, htop, ?_⟩
      obtain ⟨level, hlevel⟩ : ∃ level, addrLevel (tableAddr j) = level + 1 := by
        rcases addrLevel_tableAddr j with ⟨h, _⟩ | ⟨h, _⟩
        · exact ⟨0, h⟩
        · exact ⟨1, h⟩
      rw [hlevel]
      exact h.mem_visitedFrom (t := .index j) hne (self_mem_visitedFrom _ _)
  | leaf k l =>
      have hentry := numberAt_place_of_child (t := .second k) hne
      have htop := numberAt_place_of_child (t := .index 2) hentry
      refine ⟨tableAddr 2, htop, ?_⟩
      exact h.mem_visitedFrom (t := .index 2) hentry
        (h.mem_visitedFrom (t := .second k) hne (self_mem_visitedFrom 0 _))

end

/-! The loops over `addrs[]`. -/

section

variable {i : Slot} {s s' : FsState} {disk : Disk} {j : Fin nAddrs}

theorem writeSlot_frees (i : Slot) (node : Inode) (s : FsState) :
    FreesExactly (writeSlot i node) s [] := by
  refine ⟨?_, fun _ => ⟨_, rfl⟩⟩
  intro value s' hrun
  cases hrun
  exact ⟨by simp, fun _ _ => rfl, rfl⟩

def freedBelow (disk : Disk) (d : InodeDisk) (j : Fin nAddrs) : List UInt32 :=
  if d.addrs j = 0 then [] else freedBlocks disk (addrLevel j) (d.addrs j)

theorem freeAddr_frees {d : InodeDisk} (hs : AgreesOff disk s)
    (haddr : (s.icache i).diskInode.addrs j = d.addrs j)
    (hclean : sb.dataBitmapStart ∉ freedBelow disk d j) :
    FreesExactly (freeAddr i j) s (freedBelow disk d j) := by
  unfold freedBelow at hclean ⊢
  by_cases hzero : d.addrs j = 0
  · rw [if_pos hzero]
    refine .of_eq ?_ (.pure s)
    unfold freeAddr
    rw [readSlot_bind, haddr, if_neg (not_not.mpr hzero)]
  · rw [if_neg hzero] at hclean ⊢
    have hfree := (dataFree_frees hzero hclean hs).bind
      fun s' _ _ => writeSlot_frees i { s.icache i with
        diskInode := { (s.icache i).diskInode with
          addrs := Function.update (s.icache i).diskInode.addrs j 0 } } s'
    rw [List.append_nil] at hfree
    refine .of_eq ?_ hfree
    unfold freeAddr
    rw [readSlot_bind, haddr, if_pos hzero]

theorem freeAddr_addrs {value : Unit} (hrun : freeAddr i j s = .ok (value, s')) :
    (s'.icache i).diskInode.addrs =
      Function.update (s.icache i).diskInode.addrs j 0 := by
  unfold freeAddr at hrun
  rw [readSlot_bind] at hrun
  split at hrun
  · obtain ⟨_, middle, _, hwrite⟩ := Exec.bind_eq_ok.mp hrun
    cases hwrite
    simp
  · next hzero =>
    cases hrun
    rw [← not_not.mp hzero, Function.update_eq_self]

theorem freeAddrs_frees {d : InodeDisk} {js : List (Fin nAddrs)}
    (hjs : js.Nodup) (hs : AgreesOff disk s)
    (haddrs : ∀ j ∈ js, (s.icache i).diskInode.addrs j = d.addrs j)
    (hclean : ∀ j ∈ js, sb.dataBitmapStart ∉ freedBelow disk d j) :
    FreesExactly (freeAddrs i js) s (js.flatMap (freedBelow disk d)) := by
  induction js generalizing s with
  | nil => exact .pure s
  | cons j js ih =>
      obtain ⟨hnot, hrest⟩ := List.nodup_cons.mp hjs
      refine (freeAddr_frees hs (haddrs j List.mem_cons_self)
        (hclean j List.mem_cons_self)).bind fun s' hrun hfrees => ?_
      refine ih hrest (hs.of_frees hfrees) ?_
        fun j' hj' => hclean j' (List.mem_cons_of_mem _ hj')
      intro j' hj'
      have hne : j' ≠ j := by
        rintro rfl
        exact hnot hj'
      rw [freeAddr_addrs hrun, Function.update_of_ne hne]
      exact haddrs j' (List.mem_cons_of_mem _ hj')

theorem freeAddrs_zero {js : List (Fin nAddrs)} {value : Unit}
    (hrun : freeAddrs i js s = .ok (value, s'))
    (h : j ∈ js ∨ (s.icache i).diskInode.addrs j = 0) :
    (s'.icache i).diskInode.addrs j = 0 := by
  induction js generalizing s with
  | nil =>
      cases hrun
      exact h.resolve_left List.not_mem_nil
  | cons j' js ih =>
      obtain ⟨_, middle, hfirst, hrest⟩ := Exec.bind_eq_ok.mp hrun
      refine ih hrest ?_
      rw [freeAddr_addrs hfirst]
      by_cases hj : j = j'
      · rw [hj, Function.update_self]
        exact .inr rfl
      · rw [Function.update_of_ne hj]
        exact h.imp_left fun hmem => List.mem_of_ne_of_mem hj hmem

def FsState.number (s : FsState) (i : Slot) (p : Place) : UInt32 :=
  numberAt s.disk (s.icache i).diskInode p

theorem freedBelow_eq (disk : Disk) (d : InodeDisk) (j : Fin nAddrs) :
    freedBelow disk d j = (if d.addrs j = 0 then []
      else visitedFrom disk d (addrLevel j) (.top j)).map (numberAt disk d) := by
  unfold freedBelow
  split
  · rfl
  · next hne => exact freedBlocks_eq (p := .top j) (hasLevels_top j) hne

theorem inodeFreeData_frees (hlocked : (s.icache i).locked)
    (hclean : ∀ p, s.number i p ≠ sb.dataBitmapStart) :
    FreesExactly (inodeFreeData i) s
      ((visited s.disk (s.icache i).diskInode).map (s.number i)) := by
  have hfree : FreesExactly (freeAddrs i (List.finRange nAddrs)) s _ :=
    freeAddrs_frees (List.nodup_finRange _) (fun _ _ => rfl) (fun _ _ => rfl) (by
      intro j _ hmem
      rw [freedBelow_eq, List.mem_map] at hmem
      obtain ⟨p, _, hp⟩ := hmem
      exact hclean p hp)
  have hlist : (List.finRange nAddrs).flatMap
      (freedBelow s.disk (s.icache i).diskInode) =
      (visited s.disk (s.icache i).diskInode).map (s.number i) := by
    unfold visited
    rw [List.map_flatMap]
    exact List.flatMap_congr fun j _ => freedBelow_eq _ _ j
  rw [hlist] at hfree
  refine .of_eq ?_ hfree
  unfold inodeFreeData
  rw [readSlot_bind, Exec.bind_of_ok (assertThat_of_true hlocked s)]

/-! The whole call. -/

/-- `inode_free_data` returns, `bitmap_free_block` was called once for each
block of the tree and for no other, and `addrs[]` is zero. -/
def FreesTree (i : Slot) (s : FsState) : Prop :=
  ∃ s', inodeFreeData i s = .ok ((), s') ∧
    (∀ j, (s'.icache i).diskInode.addrs j = 0) ∧
    ∃ log : List UInt32,
      s'.unsets.map Unset.call =
        log.map (fun n => (sb.dataBitmapStart, n)) ++ s.unsets.map Unset.call ∧
      log.Nodup ∧ ∀ n, n ∈ log ↔ n ≠ 0 ∧ ∃ p, s.number i p = n

theorem mem_visited_numbers_of_dense
    (h : Dense s.disk (s.icache i).diskInode) {n : UInt32} :
    n ∈ (visited s.disk (s.icache i).diskInode).map (s.number i) ↔
      n ≠ 0 ∧ ∃ p, s.number i p = n := by
  rw [List.mem_map]
  constructor
  · rintro ⟨p, hp, rfl⟩
    obtain ⟨j, hne, hp⟩ := mem_visited.mp hp
    exact ⟨numberAt_visitedFrom (p := .top j) (hasLevels_top j) hne hp, p, rfl⟩
  · rintro ⟨hne, p, rfl⟩
    exact ⟨p, h.mem_visited hne, rfl⟩

/-- The visited places are enough only when no table has a hole. -/
theorem dense_of_visits
    (hexcl : Exclusive (s.number i))
    (hall : ∀ n, n ≠ 0 → (∃ p, s.number i p = n) →
      n ∈ (visited s.disk (s.icache i).diskInode).map (s.number i)) :
    Dense s.disk (s.icache i).diskInode := by
  intro t k k' hle hne
  obtain ⟨q, hq, hsame⟩ := List.mem_map.mp (hall _ hne ⟨t.child k', rfl⟩)
  obtain rfl := hexcl _ _ hsame.symm hne
  obtain ⟨j, _, hq⟩ := mem_visited.mp hq
  have hchild : Place.top j ≠ t.child k' := by
    cases t <;> simp [Table.child]
  exact mem_prefixOf.mp (prefix_of_visitedFrom (hasLevels_top j) hchild hq) k hle

theorem SlotOwned.exclusive_number {ι : Type} [DecidableEq ι]
    {live : ι → Option InodeDisk} {x : ι} (h : SlotOwned live x i s) :
    Exclusive (s.number i) ∧ ∀ p, s.number i p ≠ sb.dataBitmapStart := by
  have hnumber : ∀ p, slotNumbers live x i s (x, p) = s.number i p :=
    slotNumbers_self
  refine ⟨?_, ?_⟩
  · intro p q heq hne
    have hsame := h.exclusive (x, p) (x, q)
      ((hnumber p).trans (heq.trans (hnumber q).symm)) (by
        change slotNumbers live x i s (x, p) ≠ 0
        rwa [hnumber])
    exact congrArg Prod.snd hsame
  · intro p heq
    have hdata := h.inData (x, p) (by
      change slotNumbers live x i s (x, p) ≠ 0
      rw [hnumber, heq]
      decide)
    exact hdata.ne_bitmap ((hnumber p).trans heq)

/-- The recursion leaves the tables at their first zero entry: everything behind
a hole stays marked for good. The last data block of the disk has no bit. -/
theorem frees_tree_iff (hlocked : (s.icache i).locked)
    (hexcl : Exclusive (s.number i))
    (hclean : ∀ p, s.number i p ≠ sb.dataBitmapStart) :
    FreesTree i s ↔ Dense s.disk (s.icache i).diskInode ∧
      ∀ p, s.number i p ≠ 0 → InBitmap (s.number i p) := by
  have hfree := inodeFreeData_frees hlocked hclean
  constructor
  · rintro ⟨s', hrun, _, log, hlog, _, hmem⟩
    obtain ⟨hin, hfrees⟩ := hfree.of_ok _ _ hrun
    have hsame : log = ((visited s.disk (s.icache i).diskInode).map
        (s.number i)).reverse := by
      have hunsets := hfrees.unsets.symm.trans hlog
      rw [← List.map_reverse] at hunsets
      refine (List.map_injective_iff.mpr ?_ (List.append_cancel_right hunsets)).symm
      intro n n' h
      exact congrArg Prod.snd h
    have hall : ∀ n, n ≠ 0 → (∃ p, s.number i p = n) →
        n ∈ (visited s.disk (s.icache i).diskInode).map (s.number i) := by
      intro n hne hp
      have hn := (hmem n).mpr ⟨hne, hp⟩
      rwa [hsame, List.mem_reverse] at hn
    refine ⟨dense_of_visits hexcl hall, ?_⟩
    intro p hne
    exact hin _ (hall _ hne ⟨p, rfl⟩)
  · rintro ⟨hdense, hbits⟩
    have hmem : ∀ n, _ ↔ _ := fun n => mem_visited_numbers_of_dense (n := n) hdense
    obtain ⟨s', hrun⟩ := hfree.returns (by
      intro n hn
      obtain ⟨hne, p, rfl⟩ := (hmem n).mp hn
      exact hbits p hne)
    obtain ⟨_, hfrees⟩ := hfree.of_ok _ _ hrun
    have hloop := hrun
    unfold inodeFreeData at hloop
    rw [readSlot_bind, assertThat_bind_eq_ok] at hloop
    refine ⟨s', hrun, fun j => freeAddrs_zero hloop.2 (.inl (List.mem_finRange j)),
      ((visited s.disk (s.icache i).diskInode).map (s.number i)).reverse, ?_,
      List.nodup_reverse.mpr ?_, ?_⟩
    · rw [List.map_reverse]
      exact hfrees.unsets
    · refine List.Nodup.map_on ?_ visited_nodup
      intro p hp q _ heq
      have hne := (hmem _).mp (List.mem_map_of_mem hp)
      exact hexcl p q heq hne.1
    · intro n
      rw [List.mem_reverse]
      exact hmem n

end

/-! Files of one byte. -/

theorem number_of_one_addr {s : FsState} {i : Slot} {j : Fin nAddrs}
    (hj : j.val < nAddrs1)
    (h : ∀ j', j' ≠ j → (s.icache i).diskInode.addrs j' = 0) {p : Place}
    (hne : s.number i p ≠ 0) : p = .top j := by
  have htable : ∀ t : Fin 3, (s.icache i).diskInode.addrs (tableAddr t) = 0 := by
    intro t
    refine h _ ?_
    rintro rfl
    change 10 + t.val < 10 at hj
    omega
  cases p with
  | top j' =>
      by_contra hcase
      exact hne (h j' fun heq => hcase (by rw [heq]))
  | entry t k =>
      refine absurd ?_ hne
      change through _ ((s.icache i).diskInode.addrs (tableAddr t)) k = 0
      rw [htable, through_zero]
  | leaf k l =>
      refine absurd ?_ hne
      change through _ (through _ ((s.icache i).diskInode.addrs (tableAddr 2)) k)
        l = 0
      rw [htable, through_zero, through_zero]

theorem frees_tree_gapped : FreesTree 0 gapped := by
  have haddrs : ∀ j : Fin nAddrs, j ≠ 1 →
      (gapped.icache 0).diskInode.addrs j = 0 := by decide +kernel
  have honly : ∀ p, gapped.number 0 p ≠ 0 → p = .top 1 := fun p hne =>
    number_of_one_addr (by decide) haddrs hne
  have hnumber : gapped.number 0 (.top 1) = 132 := by decide +kernel
  refine (frees_tree_iff (by decide +kernel) ?_ ?_).mpr ⟨?_, ?_⟩
  · intro p q heq hne
    rw [honly p hne, honly q (heq ▸ hne)]
  · intro p hp
    have heq := honly p (by rw [hp]; decide)
    rw [heq, hnumber] at hp
    exact absurd hp (by decide)
  · intro t k k' _ hne
    have heq := honly _ hne
    cases t <;> simp [Table.child] at heq
  · intro p hne
    rw [honly p hne, hnumber]
    decide

def holed : FsState := oneByteAt 11264

theorem number_of_one_entry {s : FsState} {i : Slot} {t : Fin 3}
    {k : Fin entryPerBlock} (ht : t ≠ 2)
    (haddrs : ∀ j, j ≠ tableAddr t → (s.icache i).diskInode.addrs j = 0)
    (hwords : ∀ k', k' ≠ k →
      through s.disk ((s.icache i).diskInode.addrs (tableAddr t)) k' = 0)
    {p : Place} (hne : s.number i p ≠ 0) :
    p = .top (tableAddr t) ∨ p = .entry t k := by
  have hother : ∀ t', t' ≠ t → (s.icache i).diskInode.addrs (tableAddr t') = 0 :=
    fun t' hne => haddrs _ fun h => hne (tableAddr_inj h)
  cases p with
  | top j =>
      left
      by_contra hcase
      exact hne (haddrs j fun heq => hcase (by rw [heq]))
  | entry t' k' =>
      right
      change through _ ((s.icache i).diskInode.addrs (tableAddr t')) k' ≠ 0 at hne
      by_cases hsame : t' = t
      · subst hsame
        by_contra hcase
        exact hne (hwords k' fun heq => hcase (by rw [heq]))
      · rw [hother t' hsame, through_zero] at hne
        exact absurd rfl hne
  | leaf k' l =>
      change through _ (through _ ((s.icache i).diskInode.addrs (tableAddr 2)) k')
        l ≠ 0 at hne
      rw [hother 2 ht.symm, through_zero, through_zero] at hne
      exact absurd rfl hne

/-- The block behind the hole stays marked. -/
theorem hole_leaks : (holed.icache 0).locked ∧
    Exclusive (holed.number 0) ∧ ¬FreesTree 0 holed := by
  have haddrs : ∀ j : Fin nAddrs, j ≠ tableAddr 0 →
      (holed.icache 0).diskInode.addrs j = 0 := by decide +kernel
  have hwords : ∀ k : Fin entryPerBlock, k ≠ entryIndex 1 →
      through holed.disk ((holed.icache 0).diskInode.addrs (tableAddr 0)) k = 0 := by
    decide +kernel
  have hcases : ∀ p, holed.number 0 p ≠ 0 →
      p = .top (tableAddr 0) ∨ p = .entry 0 (entryIndex 1) := fun p hne =>
    number_of_one_entry (by decide) haddrs hwords hne
  have htop : holed.number 0 (.top (tableAddr 0)) = 132 := by decide +kernel
  have hentry : holed.number 0 (.entry 0 (entryIndex 1)) = 133 := by decide +kernel
  refine ⟨by decide +kernel, ?_, ?_⟩
  · intro p q heq hne
    rcases hcases p hne with rfl | rfl <;>
      rcases hcases q (heq ▸ hne) with rfl | rfl
    · rfl
    · rw [htop, hentry] at heq
      exact absurd heq (by decide)
    · rw [htop, hentry] at heq
      exact absurd heq (by decide)
    · rfl
  · rintro ⟨s', hrun, _, log, hlog, _, hmem⟩
    have hcheck : ((inodeFreeData 0 holed).toOption.elim []
        fun r => r.2.unsets.map Unset.call) = [(130, 132)] := by decide +kernel
    rw [hrun] at hcheck
    change s'.unsets.map Unset.call = _ at hcheck
    have hlost := (hmem 133).mpr ⟨by decide, _, hentry⟩
    have hcalled : (sb.dataBitmapStart, (133 : UInt32)) ∈
        s'.unsets.map Unset.call := by
      rw [hlog]
      exact List.mem_append_left _ (List.mem_map_of_mem hlost)
    rw [hcheck] at hcalled
    exact absurd hcalled (by decide)

end UnoOS.Fs
