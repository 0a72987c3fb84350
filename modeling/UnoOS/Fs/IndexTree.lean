import UnoOS.Fs.BitmapLaws
import UnoOS.Fs.Inode
import UnoOS.Lib.Exclusive

namespace UnoOS.Fs

open UnoOS.Lib

/-! The block numbers reachable from inode records: the entries of `addrs[]`,
of the tables they name, and of the tables below `addrs[12]`. -/

inductive Place where
  | top (j : Fin nAddrs)
  | entry (j : Fin 3) (k : Fin entryPerBlock)
  | leaf (k l : Fin entryPerBlock)
  deriving DecidableEq

inductive Table where
  | index (j : Fin 3)
  | second (k : Fin entryPerBlock)
  deriving DecidableEq

def tableAddr (j : Fin 3) : Fin nAddrs := ⟨nAddrs1 + j.val, by
  have := j.isLt
  unfold nAddrs nAddrs1 nAddrs2 nAddrs3
  omega⟩

namespace Table

def place : Table → Place
  | .index j => .top (tableAddr j)
  | .second k => .entry 2 k

def child : Table → Fin entryPerBlock → Place
  | .index j, k => .entry j k
  | .second k, l => .leaf k l

end Table

/-- Entry `k` of a table, if there is a table. -/
def through (disk : Disk) (table : UInt32) (k : Fin entryPerBlock) : UInt32 :=
  if table = 0 then 0 else (disk table).word (4 * k.val)

def numberAt (disk : Disk) (d : InodeDisk) : Place → UInt32
  | .top j => d.addrs j
  | .entry j k => through disk (d.addrs (tableAddr j)) k
  | .leaf k l => through disk (through disk (d.addrs (tableAddr 2)) k) l

theorem numberAt_child (disk : Disk) (d : InodeDisk) (t : Table)
    (k : Fin entryPerBlock) :
    numberAt disk d (t.child k) = through disk (numberAt disk d t.place) k := by
  cases t <;> rfl

theorem child_inj {t t' : Table} {k k' : Fin entryPerBlock}
    (h : t.child k = t'.child k') : t = t' ∧ k = k' := by
  cases t <;> cases t' <;> cases h <;> exact ⟨rfl, rfl⟩

theorem through_zero (disk : Disk) (k : Fin entryPerBlock) :
    through disk 0 k = 0 := if_pos rfl

theorem through_congr {disk disk' : Disk} {table : UInt32}
    (h : table ≠ 0 → disk' table = disk table) (k : Fin entryPerBlock) :
    through disk' table k = through disk table k := by
  unfold through
  by_cases htable : table = 0
  · simp [htable]
  · rw [h htable]

/-- The numbers of a record depend on its tables only. -/
theorem numberAt_congr {disk disk' : Disk} {d : InodeDisk}
    (h : ∀ t : Table, numberAt disk d t.place ≠ 0 →
      disk' (numberAt disk d t.place) = disk (numberAt disk d t.place))
    (p : Place) : numberAt disk' d p = numberAt disk d p := by
  have hentry : ∀ (j : Fin 3) k,
      through disk' (d.addrs (tableAddr j)) k =
        through disk (d.addrs (tableAddr j)) k :=
    fun j k => through_congr (h (.index j)) k
  cases p with
  | top j => rfl
  | entry j k => exact hentry j k
  | leaf k l =>
      change through disk' (through disk' _ k) l = _
      rw [hentry]
      exact through_congr (h (.second k)) l

section

variable {ι : Type}

def numbering (disk : Disk) (live : ι → Option InodeDisk) :
    ι × Place → UInt32
  | (x, p) =>
      match live x with
      | none => 0
      | some d => numberAt disk d p

theorem numbering_of_live {disk : Disk} {live : ι → Option InodeDisk} {x : ι}
    {d : InodeDisk} (h : live x = some d) (p : Place) :
    numbering disk live (x, p) = numberAt disk d p := by
  simp only [numbering, h]

theorem numbering_child (disk : Disk) (live : ι → Option InodeDisk) (x : ι)
    (t : Table) (k : Fin entryPerBlock) :
    numbering disk live (x, t.child k) =
      through disk (numbering disk live (x, t.place)) k := by
  cases h : live x with
  | none => simp [numbering, h, through_zero]
  | some d => simp only [numbering, h, numberAt_child]

theorem numbering_congr {disk disk' : Disk} {live : ι → Option InodeDisk}
    (h : ∀ x (t : Table), numbering disk live (x, t.place) ≠ 0 →
      disk' (numbering disk live (x, t.place)) =
        disk (numbering disk live (x, t.place))) :
    numbering disk' live = numbering disk live := by
  funext ⟨x, p⟩
  cases hlive : live x with
  | none => simp [numbering, hlive]
  | some d =>
      rw [numbering_of_live hlive, numbering_of_live hlive]
      refine numberAt_congr ?_ p
      intro t ht
      have htable := h x t
      rw [numbering_of_live hlive] at htable
      exact htable ht

variable [DecidableEq ι]

theorem numbering_update_of_ne {disk : Disk} {live : ι → Option InodeDisk}
    {x y : ι} (hne : y ≠ x) (record : Option InodeDisk) (p : Place) :
    numbering disk (Function.update live x record) (y, p) =
      numbering disk live (y, p) := by
  simp only [numbering, Function.update_of_ne hne]

/-- A fresh block put into `addrs[]`; one that becomes a table is blank. -/
theorem numbering_attach_top (disk : Disk) (live : ι → Option InodeDisk)
    {x : ι} {d : InodeDisk} {j : Fin nAddrs} (fresh : UInt32)
    (hlive : live x = some d) (hzero : d.addrs j = 0)
    (hblank : nAddrs1 ≤ j.val → disk fresh = 0) :
    numbering disk (Function.update live x (some { d with
        addrs := Function.update d.addrs j fresh })) =
      Function.update (numbering disk live) (x, .top j) fresh := by
  have hentry : ∀ (j' : Fin 3) k,
      through disk (Function.update d.addrs j fresh (tableAddr j')) k =
        through disk (d.addrs (tableAddr j')) k := by
    intro j' k
    by_cases hj : tableAddr j' = j
    · rw [hj, Function.update_self, hzero, through_zero]
      unfold through
      split
      · rfl
      · rw [hblank (by rw [← hj]; exact Nat.le_add_right _ _)]
        simp
    · rw [Function.update_of_ne hj]
  funext ⟨y, p⟩
  by_cases hy : y = x
  · subst hy
    rw [numbering_of_live (Function.update_self ..)]
    cases p with
    | top j' =>
        by_cases hj : j' = j
        · subst hj
          simp [numberAt]
        · rw [Function.update_of_ne (by simpa using hj),
            numbering_of_live hlive]
          simp [numberAt, hj]
    | entry j' k =>
        rw [Function.update_of_ne (by simp), numbering_of_live hlive]
        exact hentry j' k
    | leaf k l =>
        rw [Function.update_of_ne (by simp), numbering_of_live hlive]
        change through disk (through disk _ k) l = _
        rw [hentry]
        rfl
  · rw [numbering_update_of_ne hy, Function.update_of_ne (by simp [hy])]

omit [DecidableEq ι] in
theorem through_set (disk : Disk) {table : UInt32} (k : Fin entryPerBlock)
    (fresh : UInt32) (htable : table ≠ 0) (table' : UInt32)
    (k' : Fin entryPerBlock) :
    through (Function.update disk table
        ((disk table).setWord (4 * k.val) fresh)) table' k' =
      if table' = table ∧ k' = k then fresh else through disk table' k' := by
  have hk := k.isLt
  have hk' := k'.isLt
  unfold entryPerBlock blockSize at hk hk'
  by_cases hsame : table' = table
  · subst hsame
    by_cases hindex : k' = k
    · subst hindex
      simp only [through, htable, if_false, Function.update_self, and_self,
        if_true]
      exact Bytes.word_setWord_same _ _ (by unfold blockSize; omega)
    · have hne : k'.val ≠ k.val := fun h => hindex (Fin.ext h)
      simp only [through, htable, if_false, Function.update_self, hindex,
        and_false]
      exact Bytes.word_patch_of_disjoint _ _ (by omega)
  · simp only [hsame, false_and, if_false]
    exact through_congr (fun _ => by rw [Function.update_of_ne hsame]) k'

omit [DecidableEq ι] in
/-- Only the table at its place has the table's number. -/
theorem Exclusive.table_eq {disk : Disk} {live : ι → Option InodeDisk}
    (h : Exclusive (numbering disk live)) {x y : ι} {t : Table} (t' : Table)
    (hne : numbering disk live (x, t.place) ≠ 0)
    (heq : numbering disk live (y, t'.place) =
      numbering disk live (x, t.place)) : y = x ∧ t' = t := by
  have hpair := h _ _ heq (heq ▸ hne)
  simp only [Prod.mk.injEq] at hpair
  refine ⟨hpair.1, ?_⟩
  have hplace := hpair.2
  cases t <;> cases t' <;> simp only [Table.place, Place.top.injEq,
    Place.entry.injEq, reduceCtorEq, true_and, tableAddr, Fin.mk.injEq,
    Nat.add_left_cancel_iff] at hplace
  · rw [Fin.ext hplace]
  · rw [hplace]

/-- A fresh block put into a table; one that becomes a table is blank. -/
theorem numbering_attach_child (disk : Disk) (live : ι → Option InodeDisk)
    (hexclusive : Exclusive (numbering disk live)) {x : ι} {t : Table}
    {k : Fin entryPerBlock} (fresh : UInt32)
    (htable : numbering disk live (x, t.place) ≠ 0)
    (hzero : numbering disk live (x, t.child k) = 0)
    (hother : fresh ≠ numbering disk live (x, t.place))
    (hblank : t = .index 2 → disk fresh = 0) :
    numbering (Function.update disk (numbering disk live (x, t.place))
        ((disk (numbering disk live (x, t.place))).setWord (4 * k.val) fresh))
        live =
      Function.update (numbering disk live) (x, t.child k) fresh := by
  generalize htab : numbering disk live (x, t.place) = table
  rw [htab] at htable hother
  have htop : ∀ y j, numbering (Function.update disk table
      ((disk table).setWord (4 * k.val) fresh)) live (y, .top j) =
      numbering disk live (y, .top j) := by
    intro y j
    cases h : live y with
    | none => simp [numbering, h]
    | some d => simp [numbering, h, numberAt]
  have hset := through_set disk k fresh htable
  -- entries of index tables
  have hentry : ∀ y j k', numbering (Function.update disk table
      ((disk table).setWord (4 * k.val) fresh)) live (y, .entry j k') =
      Function.update (numbering disk live) (x, t.child k) fresh
        (y, .entry j k') := by
    intro y j k'
    have hchild := numbering_child (Function.update disk table
      ((disk table).setWord (4 * k.val) fresh)) live y (.index j) k'
    have hold := numbering_child disk live y (.index j) k'
    simp only [Table.child, Table.place] at hchild hold
    rw [hchild, htop, hset]
    by_cases hcase : numbering disk live (y, .top (tableAddr j)) = table ∧
        k' = k
    · obtain ⟨hnumber, rfl⟩ := hcase
      obtain ⟨rfl, rfl⟩ := Exclusive.table_eq hexclusive (.index j)
        (by rwa [htab]) (by rw [htab]; exact hnumber)
      simp only [hnumber, and_self, if_true, Table.child,
        Function.update_self]
    · have hne : (y, Place.entry j k') ≠ (x, t.child k) := by
        intro heq
        simp only [Prod.mk.injEq] at heq
        obtain ⟨rfl, heq⟩ := heq
        obtain ⟨rfl, rfl⟩ := child_inj (t := .index j) heq
        exact hcase ⟨htab, rfl⟩
      rw [if_neg hcase, Function.update_of_ne hne, hold]
  funext ⟨y, p⟩
  cases p with
  | top j =>
      have hne : (y, Place.top j) ≠ (x, t.child k) := by
        intro heq
        simp only [Prod.mk.injEq] at heq
        cases t <;> cases heq.2
      rw [htop, Function.update_of_ne hne]
  | entry j k' => exact hentry y j k'
  | leaf k' l =>
      have hchild := numbering_child (Function.update disk table
        ((disk table).setWord (4 * k.val) fresh)) live y (.second k') l
      have hold := numbering_child disk live y (.second k') l
      simp only [Table.child, Table.place] at hchild hold
      by_cases hnew : (y, Place.entry 2 k') = (x, t.child k)
      · -- the table of this leaf is the fresh block
        have hparent := hentry y 2 k'
        rw [hnew, Function.update_self] at hparent
        rw [hchild, hnew, hparent, hset, if_neg (fun hcase => hother hcase.1)]
        simp only [Prod.mk.injEq] at hnew
        obtain ⟨rfl, hnew⟩ := hnew
        obtain ⟨rfl, rfl⟩ := child_inj (t := .index 2) hnew
        have hne : (y, Place.leaf k' l) ≠ (y, Table.child (.index 2) k') := by
          simp [Table.child]
        rw [Function.update_of_ne hne, hold]
        simp only [Table.child] at hzero
        rw [hzero, through_zero]
        unfold through
        split
        · rfl
        · rw [hblank rfl]
          simp
      · rw [hchild, hentry, Function.update_of_ne hnew, hset]
        by_cases hcase : numbering disk live (y, .entry 2 k') = table ∧ l = k
        · obtain ⟨hnumber, rfl⟩ := hcase
          obtain ⟨rfl, rfl⟩ := Exclusive.table_eq hexclusive
            (.second k') (by rwa [htab])
            (by rw [htab]; exact hnumber)
          simp only [hnumber, and_self, if_true, Table.child,
            Function.update_self]
        · have hne : (y, Place.leaf k' l) ≠ (x, t.child k) := by
            intro heq
            simp only [Prod.mk.injEq] at heq
            obtain ⟨rfl, heq⟩ := heq
            obtain ⟨rfl, rfl⟩ := child_inj (t := .second k') heq
            exact hcase ⟨htab, rfl⟩
          rw [if_neg hcase, Function.update_of_ne hne, hold]

end

/-! Blocks of the data area and their bits. -/

def InData (n : UInt32) : Prop := 131 ≤ n.toNat ∧ n.toNat < 8323

def dataBit (disk : Disk) (n : UInt32) : Bool :=
  (disk sb.dataBitmapStart).bit (n.toNat - 131)

def FreeZero (disk : Disk) : Prop :=
  ∀ n, InData n → dataBit disk n = false → disk n = 0

theorem InData.ne_zero {n : UInt32} (h : InData n) : n ≠ 0 := by
  rintro rfl
  exact absurd h.1 (by decide)

theorem InData.ne_bitmap {n : UInt32} (h : InData n) :
    n ≠ sb.dataBitmapStart := by
  rintro rfl
  exact absurd h.1 (by decide)

theorem bitmapAllocBlock_cases (s : FsState) :
    bitmapAllocBlock s = .ok (0xFFFFFFFF, s) ∨
      ∃ fresh, InData fresh ∧ dataBit s.disk fresh = false ∧
        bitmapAllocBlock s = .ok (fresh, s.setBlock sb.dataBitmapStart
          ((s.disk sb.dataBitmapStart).setBit (fresh.toNat - 131))) := by
  have halloc := BitmapKind.alloc_eq .block s
  change bitmapAllocBlock s = _ at halloc
  cases hfind : lowestClear (s.disk BitmapKind.block.bitmapBlock) with
  | none =>
      left
      rw [hfind] at halloc
      exact halloc
  | some bi =>
      right
      obtain ⟨hbi, hclear, _⟩ := lowestClear_spec hfind
      have hnumber := BitmapKind.block.number_toNat hbi
      change (BitmapKind.block.number bi).toNat = bi + 131 at hnumber
      refine ⟨BitmapKind.block.number bi, ?_, ?_, ?_⟩
      · constructor <;> omega
      · rw [dataBit, hnumber, Nat.add_sub_cancel]
        exact hclear
      · rw [hfind] at halloc
        rw [halloc, hnumber, Nat.add_sub_cancel]
        rfl

/-- Marking a block changes the bit of no other block. -/
theorem dataBit_mark {disk : Disk} {fresh : UInt32} (hfresh : InData fresh)
    {n : UInt32} (hn : InData n) :
    dataBit (Function.update disk sb.dataBitmapStart
      ((disk sb.dataBitmapStart).setBit (fresh.toNat - 131))) n =
      (dataBit disk n || decide (n = fresh)) := by
  obtain ⟨hlow, hhigh⟩ := hfresh
  obtain ⟨hlow', hhigh'⟩ := hn
  unfold dataBit
  rw [Function.update_self, Bytes.bit_setBit _ (by unfold blockSize; omega)]
  have hiff : fresh.toNat - 131 = n.toNat - 131 ↔ n = fresh := by
    constructor
    · intro h
      exact UInt32.toNat_inj.mp (by omega)
    · rintro rfl
      rfl
  rw [decide_eq_decide.mpr hiff]

end UnoOS.Fs
