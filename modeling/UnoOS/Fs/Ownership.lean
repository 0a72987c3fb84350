import UnoOS.Fs.IndexTree
import UnoOS.Fs.InodeLaws

namespace UnoOS.Fs

open UnoOS.Lib

/-! Block ownership: every number in the index trees of a family of records
stands at one place, is a data block, and is marked in the data bitmap. -/

section

variable {ι : Type}

structure Owned (disk : Disk) (live : ι → Option InodeDisk) : Prop where
  exclusive : Exclusive (numbering disk live)
  inData : ∀ a, numbering disk live a ≠ 0 → InData (numbering disk live a)
  marked : ∀ a, numbering disk live a ≠ 0 →
    dataBit disk (numbering disk live a) = true

variable {disk disk' : Disk} {live live' : ι → Option InodeDisk}

theorem Owned.not_fresh (h : Owned disk live) {fresh : UInt32}
    (hdata : InData fresh) (hclear : dataBit disk fresh = false) (a : ι × Place) :
    numbering disk live a ≠ fresh := by
  rintro rfl
  rw [h.marked a hdata.ne_zero] at hclear
  cases hclear

theorem Owned.of_within (h : Owned disk live)
    (hwithin : Within (numbering disk' live') (numbering disk live))
    (hbits : ∀ n, InData n → dataBit disk n = true → dataBit disk' n = true) :
    Owned disk' live' := by
  refine ⟨hwithin.exclusive h.exclusive, ?_, ?_⟩
  · intro a ha
    have hsame := hwithin a ha
    rw [← hsame]
    exact h.inData a (hsame ▸ ha)
  · intro a ha
    have hsame := hwithin a ha
    rw [← hsame] at ha ⊢
    exact hbits _ (h.inData a ha) (h.marked a ha)

theorem Owned.extend [DecidableEq ι] (h : Owned disk live) {a : ι × Place}
    {fresh : UInt32}
    (hnumbering : numbering disk' live' =
      Function.update (numbering disk live) a fresh)
    (hdata : InData fresh) (hclear : dataBit disk fresh = false)
    (hmark : dataBit disk' fresh = true)
    (hbits : ∀ n, InData n → dataBit disk n = true → dataBit disk' n = true) :
    Owned disk' live' := by
  refine ⟨?_, ?_, ?_⟩
  · rw [hnumbering]
    exact h.exclusive.update (h.not_fresh hdata hclear)
  · intro b hb
    rw [hnumbering] at hb ⊢
    by_cases hba : b = a
    · rw [hba, Function.update_self]
      exact hdata
    · rw [Function.update_of_ne hba] at hb ⊢
      exact h.inData b hb
  · intro b hb
    rw [hnumbering] at hb ⊢
    by_cases hba : b = a
    · rw [hba, Function.update_self]
      exact hmark
    · rw [Function.update_of_ne hba] at hb ⊢
      exact hbits _ (h.inData b hb) (h.marked b hb)

theorem Owned.numbering_eq (h : Owned disk live)
    (hsame : ∀ x (t : Table), InData (numbering disk live (x, t.place)) →
      disk' (numbering disk live (x, t.place)) =
        disk (numbering disk live (x, t.place))) :
    numbering disk' live = numbering disk live :=
  numbering_congr fun x t ht => hsame x t (h.inData _ ht)

def markBlock (disk : Disk) (fresh : UInt32) : Disk :=
  Function.update disk sb.dataBitmapStart
    ((disk sb.dataBitmapStart).setBit (fresh.toNat - 131))

theorem markBlock_of_ne {n fresh : UInt32} (h : n ≠ sb.dataBitmapStart) :
    markBlock disk fresh n = disk n :=
  Function.update_of_ne h _ _

theorem Owned.numbering_mark (h : Owned disk live) (fresh : UInt32) :
    numbering (markBlock disk fresh) live = numbering disk live :=
  h.numbering_eq fun _ _ ht => markBlock_of_ne ht.ne_bitmap

theorem dataBit_markBlock {fresh n : UInt32} (hfresh : InData fresh)
    (hn : InData n) :
    dataBit (markBlock disk fresh) n = (dataBit disk n || decide (n = fresh)) :=
  dataBit_mark hfresh hn

theorem dataBit_congr (h : disk' sb.dataBitmapStart = disk sb.dataBitmapStart)
    (n : UInt32) : dataBit disk' n = dataBit disk n := by
  unfold dataBit
  rw [h]

end

/-! What following and extending the index tree of one inode does.  The record
of `x` is the one in memory, in slot `i`. -/

section

variable {ι : Type} [DecidableEq ι]

def slotNumbers (live : ι → Option InodeDisk) (x : ι) (i : Slot)
    (s : FsState) : ι × Place → UInt32 :=
  numbering s.disk (Function.update live x (some (s.icache i).diskInode))

def SlotOwned (live : ι → Option InodeDisk) (x : ι) (i : Slot)
    (s : FsState) : Prop :=
  Owned s.disk (Function.update live x (some (s.icache i).diskInode))

/-- Places may have got fresh blocks and nothing else happened. -/
structure Grows (live : ι → Option InodeDisk) (x : ι) (i : Slot)
    (s s' : FsState) : Prop where
  slot : ∃ addrs, s'.icache = Function.update s.icache i { s.icache i with
    diskInode := { (s.icache i).diskInode with addrs := addrs } }
  unsets : s'.unsets = s.unsets
  within : Within (slotNumbers live x i s) (slotNumbers live x i s')
  owned : SlotOwned live x i s'
  outside : ∀ n, ¬InData n → n ≠ sb.dataBitmapStart → s'.disk n = s.disk n
  inside : ∀ n, InData n →
    (∀ t : Table, slotNumbers live x i s' (x, t.place) ≠ n) →
    s'.disk n = s.disk n
  bits : ∀ n, InData n → dataBit s.disk n = true → dataBit s'.disk n = true

variable {live : ι → Option InodeDisk} {x : ι} {i : Slot} {s s' s'' : FsState}

theorem Grows.refl (h : SlotOwned live x i s) : Grows live x i s s := by
  refine ⟨⟨(s.icache i).diskInode.addrs, ?_⟩, rfl, Within.refl _, h,
    fun _ _ _ => rfl, fun _ _ _ => rfl, fun _ _ h => h⟩
  exact (Function.update_eq_self i s.icache).symm

theorem Grows.trans (h : Grows live x i s s') (h' : Grows live x i s' s'') :
    Grows live x i s s'' := by
  obtain ⟨addrs, hslot⟩ := h.slot
  obtain ⟨addrs', hslot'⟩ := h'.slot
  refine ⟨⟨addrs', ?_⟩, h'.unsets.trans h.unsets, h.within.trans h'.within,
    h'.owned, ?_, ?_, fun n hn hbit => h'.bits n hn (h.bits n hn hbit)⟩
  · rw [hslot', hslot]
    simp
  · intro n hn hne
    rw [h'.outside n hn hne, h.outside n hn hne]
  · intro n hn htables
    rw [h'.inside n hn htables, h.inside n hn]
    intro t heq
    refine htables t ?_
    rw [h'.within _ (heq ▸ hn.ne_zero), heq]

theorem Grows.freeZero (h : Grows live x i s s') (hzero : FreeZero s.disk) :
    FreeZero s'.disk := by
  intro n hn hclear
  have hold : dataBit s.disk n = false := by
    cases hbit : dataBit s.disk n with
    | false => rfl
    | true =>
        rw [h.bits n hn hbit] at hclear
        cases hclear
  rw [h.inside n hn]
  · exact hzero n hn hold
  · intro t
    exact h.owned.not_fresh hn hclear (x, t.place)

theorem Grows.disk_eq (h : Grows live x i s s') {y : ι} {p : Place}
    (hp : ∀ t : Table, p ≠ t.place)
    (hne : slotNumbers live x i s (y, p) ≠ 0) :
    s'.disk (slotNumbers live x i s (y, p)) =
      s.disk (slotNumbers live x i s (y, p)) := by
  have hsame := h.within _ hne
  have hdata := h.owned.inData (y, p) (by
    change slotNumbers live x i s' (y, p) ≠ 0
    rwa [hsame])
  change InData (slotNumbers live x i s' (y, p)) at hdata
  rw [hsame] at hdata
  refine h.inside _ hdata ?_
  intro t heq
  have hpair := h.owned.exclusive (y, p) (x, t.place) (by
    change slotNumbers live x i s' (y, p) = slotNumbers live x i s' (x, t.place)
    rw [hsame, heq]) (by
    change slotNumbers live x i s' (y, p) ≠ 0
    rwa [hsame])
  exact hp t (Prod.mk.inj hpair).2

theorem Grows.of_mark {fresh : UInt32} {node : Inode}
    (h : SlotOwned live x i s) (hdata : InData fresh)
    (hclear : dataBit s.disk fresh = false)
    {j : Fin nAddrs} (hzero : (s.icache i).diskInode.addrs j = 0)
    (hblank : nAddrs1 ≤ j.val → s.disk fresh = 0)
    (hnode : node = { s.icache i with
      diskInode := { (s.icache i).diskInode with
        addrs := Function.update (s.icache i).diskInode.addrs j fresh } })
    (hs' : s' = ({ s with disk := markBlock s.disk fresh }).setSlot i node) :
    Grows live x i s s' ∧ slotNumbers live x i s' (x, .top j) = fresh := by
  subst hs'
  have hnumbers : slotNumbers live x i
      (({ s with disk := markBlock s.disk fresh }).setSlot i node) =
      Function.update (slotNumbers live x i s) (x, .top j) fresh := by
    unfold slotNumbers
    rw [← Owned.numbering_mark h fresh]
    simp only [FsState.setSlot_disk, FsState.setSlot_icache,
      Function.update_self]
    have hattach := numbering_attach_top (markBlock s.disk fresh)
      (Function.update live x (some (s.icache i).diskInode)) (x := x) fresh
      (Function.update_self ..) hzero
      (fun hj => (markBlock_of_ne hdata.ne_bitmap).trans (hblank hj))
    rw [Function.update_idem] at hattach
    rw [hnode]
    exact hattach
  have hbits : ∀ n, InData n → dataBit s.disk n = true →
      dataBit (markBlock s.disk fresh) n = true := by
    intro n hn hbit
    rw [dataBit_markBlock hdata hn, hbit, Bool.true_or]
  have hmark : dataBit (markBlock s.disk fresh) fresh = true := by
    rw [dataBit_markBlock hdata hdata, decide_eq_true rfl, Bool.or_true]
  have hplace : slotNumbers live x i s (x, .top j) = 0 := by
    unfold slotNumbers
    rw [numbering_of_live (Function.update_self ..)]
    exact hzero
  refine ⟨⟨⟨_, by rw [hnode]; rfl⟩, rfl, ?_, ?_, ?_, ?_, hbits⟩, ?_⟩
  · rw [hnumbers]
    exact Within.update hplace fresh
  · exact Owned.extend h hnumbers hdata hclear hmark hbits
  · intro n _ hne
    exact markBlock_of_ne hne
  · intro n hn _
    exact markBlock_of_ne hn.ne_bitmap
  · rw [hnumbers, Function.update_self]

theorem Grows.of_child {fresh : UInt32} {t : Table} {k : Fin entryPerBlock}
    (h : SlotOwned live x i s) (hdata : InData fresh)
    (hclear : dataBit s.disk fresh = false)
    (htable : slotNumbers live x i s (x, t.place) ≠ 0)
    (hzero : slotNumbers live x i s (x, t.child k) = 0)
    (hblank : t = .index 2 → s.disk fresh = 0)
    {table : UInt32} (htab : slotNumbers live x i s (x, t.place) = table)
    (hs' : s' = { s with
      disk := Function.update (markBlock s.disk fresh) table
        ((s.disk table).setWord (4 * k.val) fresh) }) :
    Grows live x i s s' ∧ slotNumbers live x i s' (x, t.child k) = fresh := by
  subst hs'
  have hmarked := Owned.numbering_mark h fresh
  have hin : InData table := htab ▸ h.inData _ htable
  have hfresh : fresh ≠ table := by
    rintro rfl
    exact h.not_fresh hdata hclear _ htab
  have hkept : markBlock s.disk fresh table = s.disk table :=
    markBlock_of_ne hin.ne_bitmap
  have hnumbers : slotNumbers live x i { s with
      disk := Function.update (markBlock s.disk fresh) table
        ((s.disk table).setWord (4 * k.val) fresh) } =
      Function.update (slotNumbers live x i s) (x, t.child k) fresh := by
    unfold slotNumbers at htab hzero htable ⊢
    have hattach := numbering_attach_child (k := k) (t := t) (x := x)
      (markBlock s.disk fresh)
      (Function.update live x (some (s.icache i).diskInode))
      (by rw [hmarked]; exact h.exclusive) fresh (by rwa [hmarked])
      (by rwa [hmarked]) (by rwa [hmarked, htab])
      (fun ht => (markBlock_of_ne hdata.ne_bitmap).trans (hblank ht))
    rw [hmarked, htab, hkept] at hattach
    exact hattach
  have hbits : ∀ n, InData n → dataBit s.disk n = true →
      dataBit (Function.update (markBlock s.disk fresh) table
        ((s.disk table).setWord (4 * k.val) fresh)) n = true := by
    intro n hn hbit
    rw [dataBit_congr (Function.update_of_ne hin.ne_bitmap.symm _ _),
      dataBit_markBlock hdata hn, hbit, Bool.true_or]
  have hmark : dataBit (Function.update (markBlock s.disk fresh) table
      ((s.disk table).setWord (4 * k.val) fresh)) fresh = true := by
    rw [dataBit_congr (Function.update_of_ne hin.ne_bitmap.symm _ _),
      dataBit_markBlock hdata hdata, decide_eq_true rfl, Bool.or_true]
  refine ⟨⟨⟨(s.icache i).diskInode.addrs, ?_⟩, rfl, ?_, ?_, ?_, ?_, hbits⟩, ?_⟩
  · exact (Function.update_eq_self i s.icache).symm
  · rw [hnumbers]
    exact Within.update hzero fresh
  · exact Owned.extend h hnumbers hdata hclear hmark hbits
  · intro n hn hne
    have hnt : n ≠ table := fun heq => hn (heq ▸ hin)
    change Function.update (markBlock s.disk fresh) table _ n = _
    rw [Function.update_of_ne hnt, markBlock_of_ne hne]
  · intro n hn htables
    have hnt : n ≠ table := by
      rintro rfl
      refine htables t ?_
      rw [hnumbers, Function.update_of_ne]
      · exact htab
      · intro heq
        rw [← (Prod.mk.inj heq).2] at hzero
        exact htable hzero
    change Function.update (markBlock s.disk fresh) table _ n = _
    rw [Function.update_of_ne hnt, markBlock_of_ne hn.ne_bitmap]
  · rw [hnumbers, Function.update_self]

/-! The steps of `inode_locate_block`.  A result that names a disk block is not
the failure value of the allocator. -/

theorem failed_not_lt : ¬ (0xFFFFFFFF : UInt32).toNat < nBlock := by decide

theorem locateAddr_grows {index : Nat} (hindex : index < nAddrs)
    {check : UInt32 → Prop} [DecidablePred check] {result : UInt32}
    (h : SlotOwned live x i s)
    (hblank : nAddrs1 ≤ index →
      (s.icache i).diskInode.addrs ⟨index, hindex⟩ = 0 → FreeZero s.disk)
    (hresult : result.toNat < nBlock)
    (hrun : locateAddr i index check s = .ok (result, s')) :
    Grows live x i s s' ∧ result ≠ 0 ∧
      slotNumbers live x i s' (x, .top ⟨index, hindex⟩) = result := by
  unfold locateAddr at hrun
  rw [dif_pos hindex, readSlot_bind] at hrun
  split at hrun
  · next hzero =>
    rcases bitmapAllocBlock_cases s with hfail | ⟨fresh, hdata, hclear, halloc⟩
    · rw [Exec.bind_of_ok hfail, assertThat_bind_eq_ok] at hrun
      cases hrun.2
      exact absurd hresult failed_not_lt
    · rw [Exec.bind_of_ok halloc, assertThat_bind_eq_ok] at hrun
      have hend := hrun.2
      rw [writeSlot_bind] at hend
      cases hend
      obtain ⟨hgrows, hnumber⟩ := Grows.of_mark (x := x)
        (j := ⟨index, hindex⟩) h hdata hclear hzero
        (fun hj => hblank hj hzero result hdata hclear) rfl rfl
      exact ⟨hgrows, hdata.ne_zero, hnumber⟩
  · next hne =>
    cases hrun
    refine ⟨.refl h, hne, ?_⟩
    unfold slotNumbers
    rw [numbering_of_live (Function.update_self ..)]
    rfl

theorem locateEntry_grows {t : Table} {k : Fin entryPerBlock}
    {table result : UInt32} (h : SlotOwned live x i s)
    (htable : table ≠ 0) (htab : slotNumbers live x i s (x, t.place) = table)
    (hblank : t = .index 2 → FreeZero s.disk)
    (hresult : result.toNat < nBlock)
    (hrun : locateEntry table k.val s = .ok (result, s')) :
    Grows live x i s s' ∧ result ≠ 0 ∧
      slotNumbers live x i s' (x, t.child k) = result := by
  unfold locateEntry at hrun
  rw [bufRead_bind_eq_ok] at hrun
  obtain ⟨_, hrun⟩ := hrun
  have hentry : slotNumbers live x i s (x, t.child k) =
      (s.disk table).word (4 * k.val) := by
    unfold slotNumbers at htab ⊢
    rw [numbering_child, htab, through, if_neg htable]
  split at hrun
  · next hzero =>
    rcases bitmapAllocBlock_cases s with hfail | ⟨fresh, hdata, hclear, halloc⟩
    · rw [Exec.bind_of_ok hfail, Exec.require_bind_eq_ok,
        assertThat_bind_eq_ok] at hrun
      cases hrun.2.2
      exact absurd hresult failed_not_lt
    · rw [Exec.bind_of_ok halloc, Exec.require_bind_eq_ok,
        assertThat_bind_eq_ok] at hrun
      have hend := hrun.2.2
      rw [bufWrite_bind] at hend
      cases hend
      obtain ⟨hgrows, hnumber⟩ := Grows.of_child (t := t)
        (k := k) h hdata hclear (by rwa [htab]) (by rwa [hentry])
        (fun ht => hblank ht result hdata hclear) htab rfl
      exact ⟨hgrows, hdata.ne_zero, hnumber⟩
  · next hne =>
    rw [bufWrite_bind] at hrun
    cases hrun
    have hsame : s.setBlock table (s.disk table) = s := by
      unfold FsState.setBlock
      rw [Function.update_eq_self]
    rw [hsame]
    exact ⟨.refl h, hne, hentry⟩

/-! The place of a file block. -/

/-- Blocks below this one are reached without the double-indirect table, and
the kernel reaches no block from the other bound on. -/
abbrev singleBlocks : Nat := nAddrs1 + nAddrs2 * entryPerBlock

abbrev reachedBlocks : Nat := 778

theorem single_index_lt {bn : Nat} (h : bn < singleBlocks) :
    (bn - nAddrs1) / entryPerBlock < 3 := by
  change bn < 522 at h
  change (bn - 10) / 256 < 3
  omega

def entryIndex (n : Nat) : Fin entryPerBlock :=
  ⟨n % entryPerBlock, Nat.mod_lt _ (by decide)⟩

def placeOf (bn : Nat) : Place :=
  if h : bn < nAddrs1 then
    .top ⟨bn, Nat.lt_of_lt_of_le h (by decide)⟩
  else if h : bn < singleBlocks then
    .entry ⟨(bn - nAddrs1) / entryPerBlock, single_index_lt h⟩
      (entryIndex (bn - nAddrs1))
  else
    .leaf (entryIndex ((bn - singleBlocks) / entryPerBlock))
      (entryIndex (bn - singleBlocks))

theorem placeOf_direct {bn : Nat} (h : bn < nAddrs1) :
    placeOf bn = .top ⟨bn, Nat.lt_of_lt_of_le h (by decide)⟩ := by
  unfold placeOf
  rw [dif_pos h]

theorem placeOf_single {bn : Nat} (hdirect : ¬bn < nAddrs1)
    (h : bn < singleBlocks) :
    placeOf bn = Table.child
      (.index ⟨(bn - nAddrs1) / entryPerBlock, single_index_lt h⟩)
      (entryIndex (bn - nAddrs1)) := by
  unfold placeOf
  rw [dif_neg hdirect, dif_pos h]
  rfl

theorem placeOf_double {bn : Nat} (h : ¬bn < singleBlocks) :
    placeOf bn = Table.child
      (.second (entryIndex ((bn - singleBlocks) / entryPerBlock)))
      (entryIndex (bn - singleBlocks)) := by
  have hdirect : ¬bn < nAddrs1 := by
    change ¬bn < 522 at h
    change ¬bn < 10
    omega
  unfold placeOf
  rw [dif_neg hdirect, dif_neg h]
  rfl

/-- File blocks are direct, below an index table, or below the second level. -/
theorem block_cases (bn : Nat) : bn < nAddrs1 ∨
    ¬bn < nAddrs1 ∧ bn < singleBlocks ∨ ¬bn < singleBlocks := by
  by_cases hdirect : bn < nAddrs1
  · exact .inl hdirect
  · by_cases hsingle : bn < singleBlocks
    · exact .inr (.inl ⟨hdirect, hsingle⟩)
    · exact .inr (.inr hsingle)

theorem placeOf_ne_table (bn : Nat) (t : Table) : placeOf bn ≠ t.place := by
  rcases block_cases bn with h | ⟨hdirect, h⟩ | h
  · rw [placeOf_direct h]
    cases t with
    | index j =>
        simp only [Table.place, tableAddr, ne_eq, Place.top.injEq,
          Fin.mk.injEq]
        omega
    | second k => simp [Table.place]
  · rw [placeOf_single hdirect h]
    cases t with
    | index j => simp [Table.place, Table.child]
    | second k =>
        simp only [Table.place, Table.child, ne_eq, Place.entry.injEq, not_and]
        intro heq
        have hval := congrArg Fin.val heq
        change (bn - 10) / 256 = 2 at hval
        change bn < 522 at h
        omega
  · rw [placeOf_double h]
    cases t <;> simp [Table.place, Table.child]

theorem placeOf_inj {bn bn' : Nat} (h : bn < reachedBlocks)
    (h' : bn' < reachedBlocks) (heq : placeOf bn = placeOf bn') : bn = bn' := by
  change bn < 778 at h
  change bn' < 778 at h'
  rcases block_cases bn with hb | ⟨hb, hs⟩ | hb <;>
    rcases block_cases bn' with hb' | ⟨hb', hs'⟩ | hb'
  · rw [placeOf_direct hb, placeOf_direct hb'] at heq
    simpa using heq
  · rw [placeOf_direct hb, placeOf_single hb' hs'] at heq
    cases heq
  · rw [placeOf_direct hb, placeOf_double hb'] at heq
    cases heq
  · rw [placeOf_single hb hs, placeOf_direct hb'] at heq
    cases heq
  · rw [placeOf_single hb hs, placeOf_single hb' hs'] at heq
    obtain ⟨htable, hindex⟩ := child_inj heq
    have hquotient : (bn - 10) / 256 = (bn' - 10) / 256 :=
      congrArg Fin.val (Table.index.inj htable)
    have hremainder : (bn - 10) % 256 = (bn' - 10) % 256 :=
      congrArg Fin.val hindex
    change ¬bn < 10 at hb
    change ¬bn' < 10 at hb'
    omega
  · rw [placeOf_single hb hs, placeOf_double hb'] at heq
    cases heq
  · rw [placeOf_double hb, placeOf_direct hb'] at heq
    cases heq
  · rw [placeOf_double hb, placeOf_single hb' hs'] at heq
    cases heq
  · rw [placeOf_double hb, placeOf_double hb'] at heq
    obtain ⟨_, hindex⟩ := child_inj heq
    have hremainder := congrArg Fin.val hindex
    simp only [entryIndex] at hremainder
    rw [show singleBlocks = 522 from rfl, show entryPerBlock = 256 from rfl]
      at hremainder
    change ¬bn < 522 at hb
    change ¬bn' < 522 at hb'
    omega

def topIndex (bn : Nat) : Fin nAddrs :=
  if h : bn < nAddrs1 then ⟨bn, Nat.lt_of_lt_of_le h (by decide)⟩
  else if h : bn < singleBlocks then
    tableAddr ⟨(bn - nAddrs1) / entryPerBlock, single_index_lt h⟩
  else tableAddr 2

def NeedsTable (d : InodeDisk) (bn : Nat) : Prop :=
  nAddrs1 ≤ bn ∧ (d.addrs (topIndex bn) = 0 ∨ singleBlocks ≤ bn)

theorem locateEntry_lt {table result : UInt32} {k : Nat}
    (hrun : locateEntry table k s = .ok (result, s')) :
    table.toNat < nBlock := by
  unfold locateEntry at hrun
  rw [bufRead_bind_eq_ok] at hrun
  exact hrun.1

theorem inodeLocateBlock_grows {bn : Nat} (hbn : bn < reachedBlocks)
    {result : UInt32} (h : SlotOwned live x i s)
    (hblank : NeedsTable (s.icache i).diskInode bn → FreeZero s.disk)
    (hresult : result.toNat < nBlock)
    (hrun : inodeLocateBlock i bn s = .ok (result, s')) :
    Grows live x i s s' ∧ result ≠ 0 ∧
      slotNumbers live x i s' (x, placeOf bn) = result := by
  unfold inodeLocateBlock at hrun
  rw [readSlot_bind, assertThat_bind_eq_ok] at hrun
  obtain ⟨_, hrun⟩ := hrun
  rcases block_cases bn with hdirect | ⟨hdirect, hsingle⟩ | hdouble
  · rw [if_pos hdirect] at hrun
    rw [placeOf_direct hdirect]
    exact locateAddr_grows (Nat.lt_of_lt_of_le hdirect (by decide)) h
      (fun hle => absurd hdirect (by omega)) hresult hrun
  · rw [if_neg hdirect, if_pos hsingle, Exec.bind_eq_ok] at hrun
    obtain ⟨subBlock1, middle, haddr, hentry⟩ := hrun
    have hbound : (bn - nAddrs1) / entryPerBlock + nAddrs1 < nAddrs := by
      change (bn - 10) / 256 + 10 < 13
      change bn < 522 at hsingle
      omega
    have htop : topIndex bn =
        tableAddr ⟨(bn - nAddrs1) / entryPerBlock, single_index_lt hsingle⟩ := by
      unfold topIndex
      rw [dif_neg hdirect, dif_pos hsingle]
    have hindex : (⟨_, hbound⟩ : Fin nAddrs) = topIndex bn := by
      rw [htop]
      exact Fin.ext (Nat.add_comm _ _)
    obtain ⟨hfirst, hne, htable⟩ := locateAddr_grows (x := x)
      hbound h (fun _ hzero => hblank ⟨by omega, .inl (by rwa [← hindex])⟩)
      (locateEntry_lt hentry) haddr
    rw [hindex, htop] at htable
    obtain ⟨hsecond, hne', hnumber⟩ := locateEntry_grows
      (t := .index ⟨_, single_index_lt hsingle⟩)
      (k := entryIndex (bn - nAddrs1)) hfirst.owned hne htable (by
        intro heq
        have hval := congrArg Fin.val (Table.index.inj heq)
        change (bn - 10) / 256 = 2 at hval
        change bn < 522 at hsingle
        omega) hresult hentry
    rw [placeOf_single hdirect hsingle]
    exact ⟨hfirst.trans hsecond, hne', hnumber⟩
  · -- only the first table below the double-indirect one is reached
    have hlow : ¬bn < 522 := hdouble
    change bn < 778 at hbn
    have hdirect : ¬bn < nAddrs1 := by
      change ¬bn < 10
      omega
    have hzero : FreeZero s.disk := hblank ⟨by omega, .inr (by
      change 522 ≤ bn
      omega)⟩
    have hlarge : bn < nAddrs1 + nAddrs2 * entryPerBlock +
        nAddrs3 * entryPerBlock * entryPerBlock := by
      change bn < 66058
      omega
    rw [if_neg hdirect, if_neg hdouble, if_pos hlarge, Exec.bind_eq_ok] at hrun
    obtain ⟨subBlock1, first, haddr, hrun⟩ := hrun
    rw [Exec.bind_eq_ok] at hrun
    obtain ⟨subBlock2, second, hentry, hleaf⟩ := hrun
    have hbound : (bn - nAddrs1 - entryPerBlock * nAddrs2) / entryPerBlock *
        entryPerBlock + nAddrs1 + nAddrs2 = 12 := by
      change (bn - 10 - 512) / 256 * 256 + 10 + 2 = 12
      omega
    rw [hbound] at haddr
    obtain ⟨hfirst, hne, htable⟩ := locateAddr_grows (x := x)
      (by decide) h (fun _ _ => hzero) (locateEntry_lt hentry) haddr
    have hk : (bn - nAddrs1 - entryPerBlock * nAddrs2) / entryPerBlock =
        (entryIndex ((bn - singleBlocks) / entryPerBlock)).val := by
      change _ = (bn - singleBlocks) / entryPerBlock % entryPerBlock
      rw [show singleBlocks = 522 from rfl, show entryPerBlock = 256 from rfl,
        show nAddrs1 = 10 from rfl, show nAddrs2 = 2 from rfl]
      omega
    rw [hk] at hentry
    obtain ⟨hsecond, hne', htable'⟩ := locateEntry_grows (t := .index 2)
      hfirst.owned hne htable (fun _ => hfirst.freeZero hzero)
      (locateEntry_lt hleaf) hentry
    have hl : (bn - nAddrs1 - entryPerBlock * nAddrs2) % entryPerBlock =
        (entryIndex (bn - singleBlocks)).val := by
      change _ = (bn - singleBlocks) % entryPerBlock
      rw [show singleBlocks = 522 from rfl, show entryPerBlock = 256 from rfl,
        show nAddrs1 = 10 from rfl, show nAddrs2 = 2 from rfl]
      omega
    rw [hl] at hleaf
    obtain ⟨hthird, hne'', hnumber⟩ := locateEntry_grows
      (t := .second (entryIndex ((bn - singleBlocks) / entryPerBlock)))
      hsecond.owned hne' htable' (fun heq => by cases heq) hresult hleaf
    rw [placeOf_double hdouble]
    exact ⟨(hfirst.trans hsecond).trans hthird, hne'', hnumber⟩

end

end UnoOS.Fs
