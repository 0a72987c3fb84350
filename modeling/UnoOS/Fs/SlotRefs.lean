import UnoOS.Fs.InodeLaws
import UnoOS.Lib.Census

namespace UnoOS.Fs

open UnoOS.Lib

/-! References taken and dropped while a path is followed.  A slot that is taken
keeps its number when its last reference is dropped, so the state in between is
compared with the one before, slot by slot. -/

namespace FsState

def record (s : FsState) (num : UInt16) : InodeDisk :=
  match (List.finRange iNodeCacheSize).find? fun i => s.Holds i num with
  | some i => (s.icache i).loaded s.disk
  | none => recordOf s.disk num

def refCount (s : FsState) (num : UInt16) : Nat :=
  census (fun ip => if ip.inodeNum = num then ip.ref.toNat else 0) s.icache

def emptySlots (s : FsState) : Finset Slot :=
  Finset.univ.filter fun i => (s.icache i).inodeNum = inodeNumUnused

@[simp] theorem mem_emptySlots {s : FsState} {i : Slot} :
    i ∈ s.emptySlots ↔ (s.icache i).inodeNum = inodeNumUnused := by
  simp [emptySlots]

def Held (s : FsState) (num : UInt16) : Prop := ∃ i, s.Holds i num

instance (s : FsState) (num : UInt16) : Decidable (s.Held num) :=
  inferInstanceAs (Decidable (∃ _, _))

end FsState

/-- Between two calls of one process: nothing is locked, no inode is in two
slots, and no count is about to wrap. -/
structure Idle (s : FsState) : Prop where
  unlocked : ∀ i, (s.icache i).locked = false
  single : ∀ i j num, num ≠ inodeNumUnused → s.Holds i num → s.Holds j num → i = j
  counted : ∀ i, (s.icache i).ref.toNat + 2 < 2 ^ 32

/-- A slot before and after, with `extra` references taken and not dropped.  An
empty slot may have been taken for an inode that no slot counted. -/
inductive Visited (s : FsState) (old new : Inode) (extra : Nat) : Prop
  | kept (num : new.inodeNum = old.inodeNum)
      (ref : new.ref.toNat = old.ref.toNat + extra)
      (counted : extra ≠ 0 → 0 < old.ref ∧ old.inodeNum ≠ inodeNumUnused)
      (loaded : new.loaded s.disk = old.loaded s.disk)
  | taken (empty : old.inodeNum = inodeNumUnused)
      (num : new.inodeNum ≠ inodeNumUnused)
      (unheld : ¬s.Held new.inodeNum)
      (ref : new.ref.toNat = extra)
      (loaded : new.loaded s.disk = recordOf s.disk new.inodeNum)

section

variable {s : FsState} {old new : Inode} {extra : Nat}

theorem Visited.same (h : Visited s old new extra) (new' : Inode)
    (hnum : new'.inodeNum = new.inodeNum) (href : new'.ref = new.ref)
    (hloaded : new'.loaded s.disk = new.loaded s.disk) :
    Visited s old new' extra := by
  cases h with
  | kept num ref counted loaded =>
      exact .kept (hnum.trans num) (by rw [href, ref]) counted
        (hloaded.trans loaded)
  | taken empty num unheld ref loaded =>
      refine .taken empty ?_ ?_ (by rw [href, ref]) ?_
      · rwa [hnum]
      · rwa [hnum]
      · rw [hloaded, loaded, hnum]

theorem Visited.count (h : Visited s old new extra) (hpos : 0 < new.ref)
    (hused : new.inodeNum ≠ inodeNumUnused)
    (hbound : new.ref.toNat + 1 < 2 ^ 32) :
    Visited s old { new with ref := new.ref + 1 } (extra + 1) := by
  have hnext : (new.ref + 1).toNat = new.ref.toNat + 1 := by
    rw [UInt32.toNat_add]
    exact Nat.mod_eq_of_lt hbound
  cases h with
  | kept num ref counted loaded =>
      refine .kept num (by rw [hnext, ref]; omega) (fun _ => ?_) loaded
      by_cases hextra : extra = 0
      · rw [hextra] at ref
        exact ⟨(UInt32.toNat_inj.mp ref) ▸ hpos, num ▸ hused⟩
      · exact counted hextra
  | taken empty num unheld ref loaded =>
      exact .taken empty num unheld (by rw [hnext, ref]) loaded

theorem Visited.drop (h : Visited s old new (extra + 1)) :
    Visited s old { new with ref := new.ref - 1 } extra := by
  have hprevious : 1 ≤ new.ref.toNat → (new.ref - 1).toNat = new.ref.toNat - 1 :=
    fun hpos => UInt32.toNat_sub_of_le _ _ (UInt32.le_iff_toNat_le.mpr hpos)
  cases h with
  | kept num ref counted loaded =>
      refine .kept num ?_ (fun _ => counted (Nat.succ_ne_zero _)) loaded
      rw [hprevious (by omega), ref]
      omega
  | taken empty num unheld ref loaded =>
      refine .taken empty num unheld ?_ loaded
      rw [hprevious (by omega), ref]
      omega

theorem Visited.extra_of_empty (h : Visited s old new extra)
    (hempty : new.inodeNum = inodeNumUnused) :
    old.inodeNum = inodeNumUnused ∧ extra = 0 := by
  cases h with
  | kept num ref counted loaded =>
      rw [hempty] at num
      refine ⟨num.symm, ?_⟩
      by_contra hextra
      exact (counted hextra).2 num.symm
  | taken empty num unheld ref loaded => exact absurd hempty num

theorem Visited.extra_le (h : Visited s old new extra) : extra ≤ new.ref.toNat := by
  cases h with
  | kept num ref counted loaded => omega
  | taken empty num unheld ref loaded => omega

theorem Visited.ref_le (h : Visited s old new extra) :
    new.ref.toNat ≤ old.ref.toNat + extra := by
  cases h with
  | kept num ref counted loaded => omega
  | taken empty num unheld ref loaded => omega

end

structure Walked (s t : FsState) (extra : Slot → Nat) : Prop where
  disk : t.disk = s.disk
  slot : ∀ j, Visited s (s.icache j) (t.icache j) (extra j)

section

variable {s t t' : FsState} {extra : Slot → Nat} {i j : Slot} {num : UInt16}

theorem Walked.refl (s : FsState) : Walked s s 0 :=
  ⟨rfl, fun _ => .kept rfl rfl (fun h => absurd rfl h) rfl⟩

theorem Walked.setSlot (h : Walked s t extra) {node : Inode} {e : Nat}
    (hnode : Visited s (s.icache i) node e) :
    Walked s (t.setSlot i node) (Function.update extra i e) := by
  refine ⟨h.disk, fun j => ?_⟩
  by_cases hj : j = i
  · subst hj
    simpa using hnode
  · simpa [hj] using h.slot j

theorem add_single (extra : Slot → Nat) (i : Slot) :
    extra + Pi.single i 1 = Function.update extra i (extra i + 1) := by
  funext j
  by_cases hj : j = i
  · subst hj
    simp
  · simp [hj]

/-! Which inodes are counted. -/

theorem record_of_holds (hs : Idle s) (hused : num ≠ inodeNumUnused)
    (hholds : s.Holds i num) : s.record num = (s.icache i).loaded s.disk := by
  unfold FsState.record
  cases hfound : (List.finRange iNodeCacheSize).find? fun i => s.Holds i num with
  | none =>
      have hnone := List.find?_eq_none.mp hfound i (List.mem_finRange i)
      exact absurd hholds (by simpa using hnone)
  | some j =>
      have hj : s.Holds j num := by simpa using List.find?_some hfound
      rw [hs.single j i num hused hj hholds]

theorem record_of_not_held (hheld : ¬s.Held num) :
    s.record num = recordOf s.disk num := by
  have hnone : (List.finRange iNodeCacheSize).find? (fun i => s.Holds i num) =
      none := by
    refine List.find?_eq_none.mpr fun i _ => ?_
    simpa using fun h => hheld ⟨i, h⟩
  unfold FsState.record
  rw [hnone]

theorem Walked.loaded_eq (h : Walked s t extra) (hs : Idle s)
    (hused : num ≠ inodeNumUnused) (hholds : t.Holds i num) :
    (t.icache i).loaded t.disk = s.record num := by
  rw [h.disk]
  cases h.slot i with
  | kept hnum href hcounted hloaded =>
      have hbefore : s.Holds i num := by
        refine ⟨hnum.symm.trans hholds.1, ?_⟩
        by_cases hextra : extra i = 0
        · rw [hextra] at href
          exact (UInt32.toNat_inj.mp href) ▸ hholds.2
        · exact (hcounted hextra).1
      rw [hloaded, record_of_holds hs hused hbefore]
  | taken hempty hnum hunheld href hloaded =>
      rw [hloaded, hholds.1]
      rw [hholds.1] at hunheld
      exact (record_of_not_held hunheld).symm

theorem Walked.holds_of_holds (h : Walked s t extra) (hused : num ≠ inodeNumUnused)
    (hholds : s.Holds i num) : t.Holds i num := by
  cases h.slot i with
  | kept hnum href hcounted hloaded =>
      refine ⟨hnum.trans hholds.1, UInt32.lt_iff_toNat_lt.mpr ?_⟩
      have hpos := UInt32.lt_iff_toNat_lt.mp hholds.2
      omega
  | taken hempty hnum hunheld href hloaded =>
      exact absurd (hholds.1.symm.trans hempty) hused

theorem Walked.holds_of_extra (h : Walked s t extra) (hextra : extra i ≠ 0) :
    t.Holds i (t.icache i).inodeNum := by
  refine ⟨rfl, UInt32.lt_iff_toNat_lt.mpr ?_⟩
  have hle := (h.slot i).extra_le
  change 0 < _
  omega

theorem Walked.held_cases (h : Walked s t extra) (hheld : t.Holds i num) :
    s.Holds i num ∨ extra i ≠ 0 := by
  by_cases hextra : extra i = 0
  · left
    cases h.slot i with
    | kept hnum href hcounted hloaded =>
        rw [hextra] at href
        exact ⟨hnum.symm.trans hheld.1, (UInt32.toNat_inj.mp href) ▸ hheld.2⟩
    | taken hempty hnum hunheld href hloaded =>
        rw [hextra] at href
        have hpos := UInt32.lt_iff_toNat_lt.mp hheld.2
        rw [href] at hpos
        exact absurd hpos (Nat.lt_irrefl 0)
  · exact .inr hextra

/-! Counts of references. -/

theorem Visited.weight_eq {old new : Inode} {e : Nat} (h : Visited s old new e)
    (hused : num ≠ inodeNumUnused) :
    (if new.inodeNum = num then new.ref.toNat else 0) =
      (if old.inodeNum = num then old.ref.toNat else 0) +
        if new.inodeNum = num then e else 0 := by
  cases h with
  | kept hnum href hcounted hloaded =>
      rw [hnum, href]
      split <;> rfl
  | taken hempty hnum hunheld href hloaded =>
      rw [href, hempty, if_neg (Ne.symm hused), Nat.zero_add]

theorem Walked.refCount_eq_add (h : Walked s t extra)
    (hused : num ≠ inodeNumUnused) :
    t.refCount num = s.refCount num +
      ∑ j, if (t.icache j).inodeNum = num then extra j else 0 := by
  unfold FsState.refCount census
  rw [← Finset.sum_add_distrib]
  exact Finset.sum_congr rfl fun j _ => (h.slot j).weight_eq hused

theorem Walked.refCount_of_one (h : Walked s t (Pi.single i 1))
    (hused : num ≠ inodeNumUnused) :
    t.refCount num =
      s.refCount num + if num = (t.icache i).inodeNum then 1 else 0 := by
  rw [h.refCount_eq_add hused, Finset.sum_eq_single i]
  · simp [eq_comm]
  · intro j _ hj
    simp [hj]
  · simp

/-! One more reference. -/

theorem slotField_setSlot {τ : Type} (field : Inode → τ) (node : Inode)
    (hfield : field node = field (t.icache i)) (j : Slot) :
    field ((t.setSlot i node).icache j) = field (t.icache j) := by
  rw [FsState.setSlot_icache]
  by_cases hj : j = i
  · subst hj
    rw [Function.update_self, hfield]
  · rw [Function.update_of_ne hj]

theorem emptySlots_congr (h : ∀ j, (t'.icache j).inodeNum = (t.icache j).inodeNum) :
    t'.emptySlots = t.emptySlots := by
  unfold FsState.emptySlots
  simp only [h]

/-- Slot `i` has one reference to an inode more, and nothing else has changed. -/
structure Gets (t : FsState) (num : UInt16) (i : Slot) (t' : FsState) : Prop where
  number : (t'.icache i).inodeNum = num
  others : ∀ j, (t.icache j).inodeNum ≠ inodeNumUnused →
    (t'.icache j).inodeNum = (t.icache j).inodeNum
  locked : ∀ j, (t'.icache j).locked = (t.icache j).locked
  empty : t'.emptySlots.card + (if t.Held num then 0 else 1) = t.emptySlots.card

theorem Walked.increment (h : Walked s t extra) (hs : Idle s) (hone : extra i ≤ 1)
    (hused : num ≠ inodeNumUnused) (hholds : t.Holds i num) :
    let t' := t.setSlot i { t.icache i with ref := (t.icache i).ref + 1 }
    Walked s t' (extra + Pi.single i 1) ∧ Gets t num i t' := by
  have hle := (h.slot i).ref_le
  have hcounted := hs.counted i
  have hnumbers := slotField_setSlot Inode.inodeNum
    { t.icache i with ref := (t.icache i).ref + 1 } rfl
  refine ⟨?_, ?_, fun j _ => hnumbers j, slotField_setSlot Inode.locked _ rfl, ?_⟩
  · rw [add_single]
    refine h.setSlot ((h.slot i).count hholds.2 ?_ (by omega))
    rwa [hholds.1]
  · rw [hnumbers, hholds.1]
  · rw [if_pos ⟨i, hholds⟩, Nat.add_zero, emptySlots_congr hnumbers]

theorem Walked.take (h : Walked s t extra) (hused : num ≠ inodeNumUnused)
    (hunheld : ¬t.Held num) (hempty : (t.icache i).inodeNum = inodeNumUnused) :
    let t' := t.setSlot i { t.icache i with
      inodeNum := num, ref := 1, valid := false }
    Walked s t' (extra + Pi.single i 1) ∧ Gets t num i t' := by
  obtain ⟨hbefore, hextra⟩ := (h.slot i).extra_of_empty hempty
  refine ⟨?_, by simp, ?_, slotField_setSlot Inode.locked _ rfl, ?_⟩
  · rw [add_single, hextra]
    refine h.setSlot (.taken hbefore hused ?_ rfl rfl)
    rintro ⟨j, hj⟩
    exact hunheld ⟨j, h.holds_of_holds hused hj⟩
  · intro j hj
    have hji : j ≠ i := by
      rintro rfl
      exact hj hempty
    simp [hji]
  · have herase : (t.setSlot i { t.icache i with
        inodeNum := num, ref := 1, valid := false }).emptySlots =
        t.emptySlots.erase i := by
      ext j
      by_cases hj : j = i
      · subst hj
        simp [hused]
      · simp [hj]
    rw [if_neg hunheld, herase]
    exact Finset.card_erase_add_one (FsState.mem_emptySlots.mpr hempty)

theorem Walked.get (h : Walked s t extra) (hs : Idle s) (hone : ∀ j, extra j ≤ 1)
    (hused : num ≠ inodeNumUnused)
    (hroom : t.Held num ∨ t.emptySlots.Nonempty) :
    ∃ i t', inodeGet num t = .ok (i, t') ∧ Walked s t' (extra + Pi.single i 1) ∧
      Gets t num i t' := by
  rcases inodeGet_cases num t with ⟨i, hholds, heq⟩ |
    ⟨hunheld, ⟨i, hempty, heq⟩ | ⟨hfull, _⟩⟩
  · exact ⟨i, _, heq, h.increment hs (hone i) hused hholds⟩
  · exact ⟨i, _, heq, h.take hused (fun ⟨j, hj⟩ => hunheld j hj) hempty⟩
  · rcases hroom with ⟨j, hj⟩ | ⟨j, hj⟩
    · exact absurd hj (hunheld j)
    · exact absurd (FsState.mem_emptySlots.mp hj) (hfull j)

theorem Walked.dup (h : Walked s t extra) (hs : Idle s) (hone : extra i ≤ 1)
    (hused : num ≠ inodeNumUnused) (hholds : t.Holds i num) :
    ∃ t', inodeDup i t = .ok (i, t') ∧ Walked s t' (extra + Pi.single i 1) ∧
      Gets t num i t' :=
  ⟨_, rfl, h.increment hs hone hused hholds⟩

/-! From one inode to the next. -/

/-- Nothing is locked, and slot `i` has a reference to an inode. -/
structure Standing (s t : FsState) (i : Slot) (num : UInt16) : Prop where
  walked : Walked s t (Pi.single i 1)
  number : (t.icache i).inodeNum = num
  unlocked : ∀ j, (t.icache j).locked = false

structure Inside (s t : FsState) (extra : Slot → Nat) (i : Slot) (num : UInt16) :
    Prop where
  walked : Walked s t (extra + Pi.single i 1)
  number : (t.icache i).inodeNum = num
  locked : ∀ j, (t.icache j).locked = decide (j = i)

theorem Inside.extra_ne_zero : (extra + Pi.single i 1 : Slot → Nat) i ≠ 0 := by
  simp

theorem Inside.holds (h : Inside s t extra i num) : t.Holds i num := by
  rw [← h.number]
  exact h.walked.holds_of_extra Inside.extra_ne_zero

theorem one_le_ref {i : Slot} {num : UInt16} (h : t.Holds i num) :
    1 ≤ (t.icache i).ref :=
  UInt32.le_iff_toNat_le.mpr (UInt32.lt_iff_toNat_lt.mp h.2)

theorem Standing.holds (h : Standing s t i num) : t.Holds i num := by
  rw [← h.number]
  exact h.walked.holds_of_extra (by simp)

theorem Standing.lock (h : Standing s t i num) (hs : Idle s)
    (hused : num ≠ inodeNumUnused) (htype : validType (s.record num).type) :
    ∃ t', inodeLock i t = .ok ((), t') ∧ Inside s t' 0 i num ∧
      (t'.icache i).diskInode = s.record num ∧
      ∀ j, (t'.icache j).inodeNum = (t.icache j).inodeNum := by
  have hloaded := h.walked.loaded_eq hs hused h.holds
  have hnumbers := slotField_setSlot (t := t) (i := i) Inode.inodeNum
    { t.icache i with
      diskInode := (t.icache i).loaded t.disk, valid := true, locked := true } rfl
  refine ⟨_, inodeLock_apply (one_le_ref h.holds) (h.unlocked i) ?_,
    ⟨?_, ?_, ?_⟩, ?_, hnumbers⟩
  · intro hvalid
    rw [← hloaded] at htype
    unfold Inode.loaded at htype
    rwa [hvalid] at htype
  · rw [zero_add]
    have hwalked := h.walked.setSlot ((h.walked.slot i).same { t.icache i with
      diskInode := (t.icache i).loaded t.disk, valid := true, locked := true }
      rfl rfl (by rw [h.walked.disk]; rfl))
    rwa [Function.update_eq_self] at hwalked
  · rw [hnumbers, h.number]
  · intro j
    by_cases hj : j = i
    · subst hj
      simp
    · simp [hj, h.unlocked j]
  · simpa using hloaded

theorem Inside.unlock (h : Inside s t extra i num) :
    ∃ t', inodeUnlock i t = .ok ((), t') ∧ Walked s t' (extra + Pi.single i 1) ∧
      (∀ j, (t'.icache j).locked = false) ∧
      ∀ j, (t'.icache j).inodeNum = (t.icache j).inodeNum := by
  refine ⟨_, inodeUnlock_apply (one_le_ref h.holds) (by simp [h.locked]), ?_, ?_,
    slotField_setSlot Inode.inodeNum _ rfl⟩
  · have hwalked := h.walked.setSlot ((h.walked.slot i).same
      { t.icache i with locked := false } rfl rfl rfl)
    rwa [Function.update_eq_self] at hwalked
  · intro j
    by_cases hj : j = i
    · subst hj
      simp
    · simp [hj, h.locked j]

/-- A reference to an inode with links is dropped, and the inode stays. -/
theorem Walked.free (h : Walked s t (extra + Pi.single i 1)) (hs : Idle s)
    (hused : (t.icache i).inodeNum ≠ inodeNumUnused)
    (hlinked : (s.record (t.icache i).inodeNum).nlink ≠ 0)
    (hunlocked : (t.icache i).locked = false) :
    ∃ t', inodeFree i t = .ok ((), t') ∧ Walked s t' extra ∧
      (∀ j, (t'.icache j).locked = (t.icache j).locked) ∧
      ∀ j, (t'.icache j).inodeNum = (t.icache j).inodeNum := by
  have hloaded := h.loaded_eq hs hused (h.holds_of_extra Inside.extra_ne_zero)
  refine ⟨_, inodeFree_apply hunlocked ?_, ?_, slotField_setSlot Inode.locked _ rfl,
    slotField_setSlot Inode.inodeNum _ rfl⟩
  · rintro ⟨_, hvalid, hnlink⟩
    rw [← hloaded] at hlinked
    unfold Inode.loaded at hlinked
    rw [if_pos hvalid] at hlinked
    exact hlinked hnlink
  · have hslot := h.slot i
    rw [add_single, Function.update_self] at hslot
    have hwalked := h.setSlot hslot.drop
    rwa [add_single, Function.update_idem, Function.update_eq_self] at hwalked

theorem Inside.unlockFree (h : Inside s t extra i num) (hs : Idle s)
    (hused : num ≠ inodeNumUnused) (hlinked : (s.record num).nlink ≠ 0) :
    ∃ t', inodeUnlockFree i t = .ok ((), t') ∧ Walked s t' extra ∧
      (∀ j, (t'.icache j).locked = false) ∧
      ∀ j, (t'.icache j).inodeNum = (t.icache j).inodeNum := by
  obtain ⟨t₁, hunlock, hwalked, hunlocked, hnumbers⟩ := h.unlock
  have hnum : (t₁.icache i).inodeNum = num := (hnumbers i).trans h.number
  obtain ⟨t₂, hfree, hwalked', hlocks, hnumbers'⟩ :=
    hwalked.free hs (by rwa [hnum]) (by rwa [hnum]) (hunlocked i)
  refine ⟨t₂, (Exec.bind_of_ok hunlock).trans hfree, hwalked', ?_, ?_⟩
  · intro j
    rw [hlocks, hunlocked]
  · intro j
    rw [hnumbers', hnumbers]

end

end UnoOS.Fs
