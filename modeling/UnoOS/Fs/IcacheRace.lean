import UnoOS.Fs.InodeLaws
import UnoOS.Lib.Census
import UnoOS.Lib.First
import UnoOS.Lib.Transition

namespace UnoOS.Fs

open UnoOS.Lib

/-! `inode_get`, `inode_dup` and `inode_free` under any interleaving.
`lk_icache` makes a call one step, but `inode_free` gives it up while it deletes
a file. -/

inductive FreePhase where
  | idle
  /-- `lk_icache` is released, `slk` is held. -/
  | destroying (i : Slot)
  /-- The record is written back. -/
  | destroyed (i : Slot)
  /-- The slot is marked empty, `slk` is released. -/
  | marked (i : Slot)
  deriving DecidableEq

namespace FreePhase

def pending (i : Slot) : FreePhase → Nat
  | .idle => 0
  | .destroying j => if j = i then 1 else 0
  | .destroyed j => if j = i then 1 else 0
  | .marked j => if j = i then 1 else 0

def Locks (i : Slot) (phase : FreePhase) : Prop :=
  phase = .destroying i ∨ phase = .destroyed i

instance (i : Slot) (phase : FreePhase) : Decidable (phase.Locks i) :=
  inferInstanceAs (Decidable (_ ∨ _))

end FreePhase

structure IcacheSystem (P : Type) where
  fs : FsState
  phase : P → FreePhase
  /-- The references to each slot that no `inode_free` is dropping. -/
  held : Slot → Nat

inductive IcacheStep (P : Type) where
  | get (p : P) (inodeNum : UInt16)
  | dup (p : P) (i : Slot)
  /-- `inode_free` up to the first release of `lk_icache`. -/
  | free (p : P) (i : Slot)
  | destroy (p : P)
  | mark (p : P)
  | decrement (p : P)
  /-- What else happens: records are loaded and changed, locks are taken and
  released, blocks are written. -/
  | work (disk : Disk) (diskInode : Slot → InodeDisk) (valid locked : Slot → Bool)

def inodeDestroyWriteBack (i : Slot) : FsM Unit := do
  inodeDestroy i
  let ip ← readSlot i
  writeSlot i { ip with diskInode := { ip.diskInode with type := ftUnused } }
  inodeRw i true

theorem inodeGet_eq_ok {inodeNum : UInt16} {i : Slot} {s s' : FsState}
    (hrun : inodeGet inodeNum s = .ok (i, s')) :
    (First (s.Holds · inodeNum) i ∧
        s' = s.setSlot i { s.icache i with ref := (s.icache i).ref + 1 }) ∨
      ((∀ j, ¬ s.Holds j inodeNum) ∧
        First (fun i => (s.icache i).inodeNum = inodeNumUnused) i ∧
        s' = s.setSlot i { s.icache i with
          inodeNum := inodeNum, ref := 1, valid := false }) := by
  unfold inodeGet at hrun
  rw [Exec.bind_of_ok (m := get) rfl] at hrun
  cases hfound : (List.finRange iNodeCacheSize).find? fun i =>
      (s.icache i).inodeNum = inodeNum ∧ 0 < (s.icache i).ref with
  | some j =>
      rw [hfound] at hrun
      cases hrun
      exact .inl ⟨find?_eq_some_iff_first.mp hfound, rfl⟩
  | none =>
      rw [hfound] at hrun
      right
      refine ⟨?_, ?_⟩
      · intro j hholds
        have hnone := List.find?_eq_none.mp hfound j (List.mem_finRange j)
        exact hnone (by simpa [FsState.Holds] using hholds)
      · cases hempty : (List.finRange iNodeCacheSize).find? fun i =>
            (s.icache i).inodeNum = inodeNumUnused with
        | some j =>
            rw [hempty] at hrun
            cases hrun
            exact ⟨find?_eq_some_iff_first.mp hempty, rfl⟩
        | none =>
            rw [hempty] at hrun
            cases hrun

namespace IcacheSystem

variable {P : Type}

def init (disk : Disk) : IcacheSystem P where
  fs := .booted disk
  phase := fun _ => .idle
  held := fun _ => 0

variable [Fintype P]

/-- A process waits in `sleeplock_acquire` while somebody holds `slk`. -/
def step [DecidableEq P] (s : IcacheSystem P) : IcacheStep P → Option (IcacheSystem P)
  | .get p inodeNum =>
      if s.phase p = .idle then
        match inodeGet inodeNum s.fs with
        | .ok (i, fs) =>
            some { s with
              fs := fs, held := Function.update s.held i (s.held i + 1) }
        | .error _ => none
      else none
  | .dup p i =>
      if s.phase p = .idle ∧ 0 < s.held i then
        match inodeDup i s.fs with
        | .ok (_, fs) =>
            some { s with
              fs := fs, held := Function.update s.held i (s.held i + 1) }
        | .error _ => none
      else none
  | .free p i =>
      if s.phase p = .idle ∧ 0 < s.held i then
        let ip := s.fs.icache i
        let held := Function.update s.held i (s.held i - 1)
        if ip.ref = 1 ∧ ip.valid ∧ ip.diskInode.nlink = 0 then
          if ip.locked then none
          else
            some ⟨s.fs.setSlot i { ip with locked := true },
              Function.update s.phase p (.destroying i), held⟩
        else
          some { s with
            fs := s.fs.setSlot i { ip with ref := ip.ref - 1 }, held := held }
      else none
  | .destroy p =>
      match s.phase p with
      | .destroying i =>
          match inodeDestroyWriteBack i s.fs with
          | .ok (_, fs) =>
              some { s with
                fs := fs, phase := Function.update s.phase p (.destroyed i) }
          | .error _ => none
      | _ => none
  | .mark p =>
      match s.phase p with
      | .destroyed i =>
          some { s with
            fs := s.fs.setSlot i { s.fs.icache i with
              inodeNum := inodeNumUnused, valid := false, locked := false }
            phase := Function.update s.phase p (.marked i) }
      | _ => none
  | .decrement p =>
      match s.phase p with
      | .marked i =>
          some { s with
            fs := s.fs.setSlot i { s.fs.icache i with
              ref := (s.fs.icache i).ref - 1 }
            phase := Function.update s.phase p .idle }
      | _ => none
  | .work disk diskInode valid locked =>
      some { s with
        fs := { s.fs with
          disk := disk
          icache := fun i =>
            if ∃ p, (s.phase p).Locks i then s.fs.icache i
            else { s.fs.icache i with
              diskInode := diskInode i, valid := valid i, locked := locked i } } }

/-- References that were taken and not given back.  `inode_free` gives its
reference back where it decrements `ref`. -/
def outstanding (s : IcacheSystem P) (i : Slot) : Nat :=
  s.held i + census (FreePhase.pending i) s.phase

/-- `INODE_NUM_UNUSED` marks a slot that holds no inode. -/
structure RefsExact (s : IcacheSystem P) : Prop where
  counted : ∀ i, (s.fs.icache i).ref.toNat = s.outstanding i
  distinct : ∀ i j, 0 < s.outstanding i → 0 < s.outstanding j →
    (s.fs.icache i).inodeNum = (s.fs.icache j).inodeNum →
    (s.fs.icache i).inodeNum ≠ inodeNumUnused → i = j

/-- `inode_get` takes an empty slot only if that has no references, and `ref`
does not overflow. -/
def RecyclesFree (s : IcacheSystem P) : IcacheStep P → Prop
  | .get _ inodeNum =>
      (∀ i, First (s.fs.Holds · inodeNum) i →
        (s.fs.icache i).ref ≠ 0xFFFFFFFF) ∧
      ((∀ i, ¬ s.fs.Holds i inodeNum) →
        ∀ i, First (fun i => (s.fs.icache i).inodeNum = inodeNumUnused) i →
          (s.fs.icache i).ref = 0)
  | .dup _ i => (s.fs.icache i).ref ≠ 0xFFFFFFFF
  | _ => True

/-! What the steps do to the counts. -/

variable {s s' : IcacheSystem P} {p : P} {i : Slot} {op : IcacheStep P}

theorem pending_idle (i : Slot) : FreePhase.pending i .idle = 0 := rfl

theorem outstanding_update [DecidableEq P] (s : IcacheSystem P) (p : P) (phase : FreePhase)
    (fs : FsState) (held : Slot → Nat) (i : Slot) :
    (IcacheSystem.mk fs (Function.update s.phase p phase) held).outstanding i +
        (s.phase p).pending i + s.held i =
      s.outstanding i + phase.pending i + held i := by
  have hcensus := census_update (FreePhase.pending i) s.phase p phase
  simp only [outstanding]
  omega

/-- A step that gives no slot another number keeps the numbers apart. -/
theorem RefsExact.of_counted (h : s.RefsExact)
    (hcounted : ∀ i, (s'.fs.icache i).ref.toNat = s'.outstanding i)
    (hnum : ∀ i, (s'.fs.icache i).inodeNum ≠ inodeNumUnused →
      0 < s'.outstanding i → 0 < s.outstanding i ∧
        (s'.fs.icache i).inodeNum = (s.fs.icache i).inodeNum) :
    s'.RefsExact := by
  refine ⟨hcounted, ?_⟩
  intro i j hi hj heq hused
  obtain ⟨hpos, hsame⟩ := hnum i hused hi
  obtain ⟨hpos', hsame'⟩ := hnum j (heq ▸ hused) hj
  apply h.distinct i j hpos hpos'
  · rw [← hsame, ← hsame', heq]
  · rwa [← hsame]

theorem init_refsExact (disk : Disk) :
    (init disk : IcacheSystem P).RefsExact := by
  have hzero : ∀ i, (init disk : IcacheSystem P).outstanding i = 0 := by
    intro i
    simp [outstanding, init, census, pending_idle]
  refine ⟨?_, ?_⟩
  · intro i
    rw [hzero]
    rfl
  · intro i j hi
    rw [hzero] at hi
    exact absurd hi (lt_irrefl 0)

def given (s : IcacheSystem P) (i : Slot) (node : Inode) : IcacheSystem P :=
  { s with
    fs := s.fs.setSlot i node
    held := Function.update s.held i (s.held i + 1) }

theorem outstanding_given (s : IcacheSystem P) (i j : Slot) (node : Inode) :
    (s.given i node).outstanding j =
      s.outstanding j + if j = i then 1 else 0 := by
  simp only [given, outstanding, Function.update_apply]
  split
  · next h =>
    rw [h]
    omega
  · omega

theorem taken_exact_iff (h : s.RefsExact) (hpos : 0 < s.outstanding i) :
    (s.fs.icache i).ref ≠ 0xFFFFFFFF ↔
      (s.given i { s.fs.icache i with
        ref := (s.fs.icache i).ref + 1 }).RefsExact := by
  have hcount := h.counted i
  have hlt := (s.fs.icache i).ref.toNat_lt
  have hsum : ((s.fs.icache i).ref + 1).toNat =
      ((s.fs.icache i).ref.toNat + 1) % 2 ^ 32 := UInt32.toNat_add _ _
  have hmax : (s.fs.icache i).ref ≠ 0xFFFFFFFF ↔
      (s.fs.icache i).ref.toNat + 1 < 2 ^ 32 := by
    rw [ne_eq, ← UInt32.toNat_inj]
    change ¬ _ = 2 ^ 32 - 1 ↔ _
    omega
  rw [hmax]
  constructor
  · intro hroom
    apply h.of_counted
    · intro j
      rw [outstanding_given, ← h.counted j]
      simp only [given, FsState.setSlot_icache, Function.update_apply]
      split
      · next hj =>
        rw [hj, hsum, Nat.mod_eq_of_lt hroom]
      · rfl
    · intro j _ hj
      rw [outstanding_given] at hj
      simp only [given, FsState.setSlot_icache, Function.update_apply]
      split at hj
      · next hji =>
        subst hji
        simp [hpos]
      · next hji =>
        rw [if_neg hji]
        exact ⟨hj, rfl⟩
  · intro h'
    have hcount' := h'.counted i
    rw [outstanding_given, if_pos rfl] at hcount'
    simp only [given, FsState.setSlot_icache, Function.update_self, hsum]
      at hcount'
    omega

theorem recycled_exact_iff {inodeNum : UInt16} (h : s.RefsExact)
    (hnone : ∀ j, ¬ s.fs.Holds j inodeNum) :
    (s.fs.icache i).ref = 0 ↔
      (s.given i { s.fs.icache i with
        inodeNum := inodeNum, ref := 1, valid := false }).RefsExact := by
  have hcount := h.counted i
  rw [← UInt32.toNat_inj]
  change _ = 0 ↔ _
  constructor
  · intro hzero
    -- nobody else holds the number
    have hapart : ∀ j, 0 < s.outstanding j →
        (s.fs.icache j).inodeNum ≠ inodeNum := by
      intro j hpos hnum
      rw [← h.counted j] at hpos
      exact hnone j ⟨hnum, UInt32.lt_iff_toNat_lt.mpr hpos⟩
    refine ⟨?_, ?_⟩
    · intro j
      rw [outstanding_given]
      simp only [given, FsState.setSlot_icache, Function.update_apply]
      split
      · next hj =>
        rw [hj, ← hcount, hzero]
        rfl
      · exact h.counted j
    · intro j k hj hk heq hused
      rw [outstanding_given] at hj hk
      simp only [given, FsState.setSlot_icache, Function.update_apply]
        at heq hused
      split at hj <;> split at hk
      · next hji hki => rw [hji, hki]
      · next hji hki =>
        rw [if_pos hji, if_neg hki] at heq
        exact absurd heq.symm (hapart k hk)
      · next hji hki =>
        rw [if_neg hji, if_pos hki] at heq
        exact absurd heq (hapart j hj)
      · next hji hki =>
        rw [if_neg hji, if_neg hki] at heq
        rw [if_neg hji] at hused
        exact h.distinct j k hj hk heq hused
  · intro h'
    have hcount' := h'.counted i
    rw [outstanding_given, if_pos rfl] at hcount'
    simp only [given, FsState.setSlot_icache, Function.update_self] at hcount'
    change 1 = _ at hcount'
    omega

theorem RefsExact.of_same (h : s.RefsExact)
    (hout : ∀ j, s'.outstanding j = s.outstanding j)
    (href : ∀ j, (s'.fs.icache j).ref = (s.fs.icache j).ref)
    (hnum : ∀ j, (s'.fs.icache j).inodeNum ≠ inodeNumUnused →
      (s'.fs.icache j).inodeNum = (s.fs.icache j).inodeNum) :
    s'.RefsExact := by
  apply h.of_counted
  · intro j
    rw [href, hout, h.counted]
  · intro j hused hpos
    rw [hout] at hpos
    exact ⟨hpos, hnum j hused⟩

theorem RefsExact.dropped (h : s.RefsExact)
    (hout : ∀ j, s'.outstanding j + (if j = i then 1 else 0) = s.outstanding j)
    (hfs : s'.fs = s.fs.setSlot i { s.fs.icache i with
      ref := (s.fs.icache i).ref - 1 }) : s'.RefsExact := by
  have hcount := h.counted i
  have hself := hout i
  rw [if_pos rfl] at hself
  have hpos : (1 : UInt32) ≤ (s.fs.icache i).ref := by
    rw [UInt32.le_iff_toNat_le]
    change 1 ≤ _
    omega
  have hsub : ((s.fs.icache i).ref - 1).toNat = (s.fs.icache i).ref.toNat - 1 :=
    UInt32.toNat_sub_of_le _ _ hpos
  apply h.of_counted
  · intro j
    have hj := hout j
    rw [hfs, FsState.setSlot_icache, Function.update_apply]
    split at hj
    · next hji =>
      rw [if_pos hji, hji, hsub]
      omega
    · next hji =>
      rw [if_neg hji, h.counted]
      exact hj.symm
  · intro j _ hpos'
    have hj := hout j
    refine ⟨by omega, ?_⟩
    rw [hfs, FsState.setSlot_icache, Function.update_apply]
    split
    · next hji => rw [hji]
    · rfl

theorem inodeDestroyWriteBack_sameSlots {s s' : FsState} {value : Unit}
    (hrun : inodeDestroyWriteBack i s = .ok (value, s')) : SameSlots i s s' := by
  unfold inodeDestroyWriteBack at hrun
  rw [Exec.bind_eq_ok] at hrun
  obtain ⟨_, dead, hdestroy, hrun⟩ := hrun
  rw [readSlot_bind, writeSlot_bind, inodeRw_true_eq_ok] at hrun
  have hunused : SameSlots i dead (dead.setSlot i { dead.icache i with
      diskInode := { (dead.icache i).diskInode with type := ftUnused } }) :=
    .setSlot rfl rfl
  rw [hrun.2]
  exact (inodeDestroy_sameSlots hdestroy).trans
    (hunused.trans (.of_icache (FsState.flush_icache _ _)))

variable [DecidableEq P]

theorem step_get_exact_iff {inodeNum : UInt16} (h : s.RefsExact)
    (hstep : s.step (.get p inodeNum) = some s') :
    s.RecyclesFree (.get p inodeNum) ↔ s'.RefsExact := by
  simp only [step] at hstep
  split at hstep
  · cases hget : inodeGet inodeNum s.fs with
    | error reason =>
        rw [hget] at hstep
        cases hstep
    | ok result =>
        obtain ⟨i, fs⟩ := result
        rw [hget] at hstep
        cases hstep
        rcases inodeGet_eq_ok hget with ⟨hfirst, hfs⟩ | ⟨hnone, hfirst, hfs⟩
        · have hpos : 0 < s.outstanding i := by
            rw [← h.counted i]
            exact UInt32.lt_iff_toNat_lt.mp hfirst.1.2
          rw [hfs]
          refine Iff.trans ?_ (taken_exact_iff h hpos)
          constructor
          · intro hsafe
            exact hsafe.1 i hfirst
          · intro hmax
            refine ⟨?_, fun hnone => absurd hfirst.1 (hnone i)⟩
            intro j hj
            rwa [hj.unique hfirst]
        · rw [hfs]
          refine Iff.trans ?_ (recycled_exact_iff h hnone)
          constructor
          · intro hsafe
            exact hsafe.2 hnone i hfirst
          · intro hzero
            refine ⟨fun j hj => absurd hj.1 (hnone j), ?_⟩
            intro _ j hj
            rwa [hj.unique hfirst]
  · cases hstep

theorem step_dup_exact_iff (h : s.RefsExact)
    (hstep : s.step (.dup p i) = some s') :
    s.RecyclesFree (.dup p i) ↔ s'.RefsExact := by
  simp only [step] at hstep
  split at hstep
  · next hheld =>
    have hpos : 0 < s.outstanding i := by
      unfold outstanding
      omega
    cases hstep
    exact taken_exact_iff h hpos
  · cases hstep

theorem step_free_exact (h : s.RefsExact)
    (hstep : s.step (.free p i) = some s') :
    s'.RefsExact := by
  simp only [step] at hstep
  split at hstep
  · next hheld =>
    obtain ⟨hidle, hheld⟩ := hheld
    split at hstep
    · split at hstep
      · cases hstep
      · cases hstep
        apply h.of_same
        · intro j
          have hout := outstanding_update s p (.destroying i)
            (s.fs.setSlot i { s.fs.icache i with locked := true })
            (Function.update s.held i (s.held i - 1)) j
          rw [hidle, pending_idle, Function.update_apply] at hout
          simp only [FreePhase.pending] at hout
          by_cases hj : j = i
          · rw [if_pos hj.symm, if_pos hj, hj] at hout
            rw [hj]
            omega
          · rw [if_neg (Ne.symm hj), if_neg hj] at hout
            omega
        · intro j
          rw [FsState.setSlot_icache, Function.update_apply]
          split
          · next hj => rw [hj]
          · rfl
        · intro j _
          rw [FsState.setSlot_icache, Function.update_apply]
          split
          · next hj => rw [hj]
          · rfl
    · cases hstep
      apply h.dropped (i := i) ?_ rfl
      intro j
      simp only [outstanding, Function.update_apply]
      split
      · next hj =>
        rw [hj]
        omega
      · rfl
  · cases hstep

theorem step_destroy_exact (h : s.RefsExact)
    (hstep : s.step (.destroy p) = some s') :
    s'.RefsExact := by
  simp only [step] at hstep
  split at hstep
  · next i hphase =>
    cases hrun : inodeDestroyWriteBack i s.fs with
    | error reason =>
        rw [hrun] at hstep
        cases hstep
    | ok result =>
        rw [hrun] at hstep
        cases hstep
        have hsame := inodeDestroyWriteBack_sameSlots hrun
        apply h.of_same
        · intro j
          have hout := outstanding_update s p (.destroyed i) result.2 s.held j
          rw [hphase] at hout
          simp only [FreePhase.pending] at hout
          omega
        · intro j
          by_cases hj : j = i
          · rw [hj]
            exact hsame.ref
          · exact congrArg Inode.ref (hsame.others j hj)
        · intro j _
          by_cases hj : j = i
          · rw [hj]
            exact hsame.inodeNum
          · exact congrArg Inode.inodeNum (hsame.others j hj)
  · cases hstep

theorem step_mark_exact (h : s.RefsExact)
    (hstep : s.step (.mark p) = some s') :
    s'.RefsExact := by
  simp only [step] at hstep
  split at hstep
  · next i hphase =>
    cases hstep
    apply h.of_same
    · intro j
      have hout := outstanding_update s p (.marked i)
        (s.fs.setSlot i { s.fs.icache i with
          inodeNum := inodeNumUnused, valid := false, locked := false })
        s.held j
      rw [hphase] at hout
      simp only [FreePhase.pending] at hout
      omega
    · intro j
      rw [FsState.setSlot_icache, Function.update_apply]
      split
      · next hj => rw [hj]
      · rfl
    · intro j hused
      rw [FsState.setSlot_icache, Function.update_apply] at hused ⊢
      split at hused
      · exact absurd rfl hused
      · next hj => rw [if_neg hj]
  · cases hstep

theorem step_decrement_exact (h : s.RefsExact)
    (hstep : s.step (.decrement p) = some s') :
    s'.RefsExact := by
  simp only [step] at hstep
  split at hstep
  · next i hphase =>
    cases hstep
    apply h.dropped (i := i) ?_ rfl
    intro j
    have hout := outstanding_update s p .idle
      (s.fs.setSlot i { s.fs.icache i with
        ref := (s.fs.icache i).ref - 1 }) s.held j
    rw [hphase, pending_idle] at hout
    simp only [FreePhase.pending, eq_comm (a := i)] at hout
    omega
  · cases hstep

/-- A step keeps the counts exactly when it recycles only free slots. -/
theorem step_exact_iff (h : s.RefsExact) (hstep : s.step op = some s') :
    s.RecyclesFree op ↔ s'.RefsExact := by
  cases op with
  | get p inodeNum => exact step_get_exact_iff h hstep
  | dup p i => exact step_dup_exact_iff h hstep
  | free p i => exact iff_of_true trivial (step_free_exact h hstep)
  | destroy p => exact iff_of_true trivial (step_destroy_exact h hstep)
  | mark p => exact iff_of_true trivial (step_mark_exact h hstep)
  | decrement p => exact iff_of_true trivial (step_decrement_exact h hstep)
  | work disk diskInode valid locked =>
      refine iff_of_true trivial ?_
      cases hstep
      apply h.of_same
      · intro j
        rfl
      · intro j
        dsimp only
        split <;> rfl
      · intro j _
        dsimp only
        split <;> rfl

/-! A call of `inode_free` that nobody interrupts. -/

theorem step_destroy_of (hphase : s.phase p = .destroying i) {fs : FsState}
    (hrun : inodeDestroyWriteBack i s.fs = .ok ((), fs)) :
    s.step (.destroy p) = some { s with
      fs := fs, phase := Function.update s.phase p (.destroyed i) } := by
  simp only [step, hphase, hrun]

theorem step_mark_of (hphase : s.phase p = .destroyed i) :
    s.step (.mark p) = some { s with
      fs := s.fs.setSlot i { s.fs.icache i with
        inodeNum := inodeNumUnused, valid := false, locked := false }
      phase := Function.update s.phase p (.marked i) } := by
  simp only [step, hphase]

theorem step_decrement_of (hphase : s.phase p = .marked i) :
    s.step (.decrement p) = some { s with
      fs := s.fs.setSlot i { s.fs.icache i with ref := (s.fs.icache i).ref - 1 }
      phase := Function.update s.phase p .idle } := by
  simp only [step, hphase]

theorem uninterrupted_free {fs : FsState} (hidle : s.phase p = .idle)
    (hheld : 0 < s.held i) (hrun : inodeFree i s.fs = .ok ((), fs)) :
    ∃ s', run step s (if (s.fs.icache i).Dies then
        [.free p i, .destroy p, .mark p, .decrement p] else [.free p i]) = some s' ∧
      s'.fs = fs ∧ s'.phase = s.phase := by
  have hready : s.phase p = .idle ∧ 0 < s.held i := ⟨hidle, hheld⟩
  by_cases hdies : (s.fs.icache i).Dies
  · have hlocked : (s.fs.icache i).locked = false := by
      unfold inodeFree at hrun
      rw [readSlot_bind, assertThat_bind_eq_ok] at hrun
      exact hrun.1
    obtain ⟨dead, hdestroy, hblock, hfs⟩ := inodeFree_of_dies_eq hdies hrun
    have hwrite : inodeDestroyWriteBack i
        (s.fs.setSlot i { s.fs.icache i with locked := true }) =
          .ok ((), (dead.setSlot i { dead.icache i with
            diskInode := { (dead.icache i).diskInode with
              type := ftUnused } }).flush i) := by
      unfold inodeDestroyWriteBack
      rw [Exec.bind_of_ok hdestroy, readSlot_bind, writeSlot_bind,
        inodeRw_true_eq_ok]
      exact ⟨by simpa using hblock, rfl⟩
    have hcheck : s.step (.free p i) = some
        ⟨s.fs.setSlot i { s.fs.icache i with locked := true },
          Function.update s.phase p (.destroying i),
          Function.update s.held i (s.held i - 1)⟩ := by
      simp only [step]
      rw [if_pos hready, if_pos (by exact hdies), hlocked]
      rfl
    rw [if_pos hdies]
    refine ⟨_, run_cons.mpr ⟨_, hcheck, run_cons.mpr ⟨_,
      step_destroy_of (Function.update_self ..) hwrite, run_cons.mpr ⟨_,
      step_mark_of (Function.update_self ..), run_cons.mpr ⟨_,
      step_decrement_of (Function.update_self ..), rfl⟩⟩⟩⟩, ?_, ?_⟩
    · rw [hfs]
      simp [FsState.setSlot, FsState.setBlock, FsState.flush, putRecord]
    · simp [← hidle]
  · obtain ⟨_, hfs⟩ := inodeFree_of_not_dies hdies hrun
    rw [if_neg hdies]
    have hcheck : s.step (.free p i) = some { s with
        fs := s.fs.setSlot i { s.fs.icache i with
          ref := (s.fs.icache i).ref - 1 }
        held := Function.update s.held i (s.held i - 1) } := by
      simp only [step]
      rw [if_pos hready, if_neg (by exact hdies)]
    exact ⟨_, run_cons.mpr ⟨_, hcheck, rfl⟩, hfs.symm, rfl⟩

/-- At every point of a run the counts are exact, if and only if no step of it
recycles a slot that has references. -/
theorem refs_exact_iff {disk : Disk} {ops : List (IcacheStep P)}
    (hrun : run step (init disk) ops = some s) :
    (∀ before after middle, ops = before ++ after →
        run step (init disk) before = some middle → middle.RefsExact) ↔
      Along step RecyclesFree (init disk) ops :=
  (along_iff_invariant (fun _ _ _ => step_exact_iff) (init_refsExact disk)
    hrun).symm

instance (s : IcacheSystem P) (op : IcacheStep P) : Decidable (s.RecyclesFree op) :=
  match op with
  | .get _ _ => inferInstanceAs (Decidable (_ ∧ _))
  | .dup _ _ => inferInstanceAs (Decidable (_ ≠ _))
  | .free _ _ | .destroy _ | .mark _ | .decrement _ | .work _ _ _ _ =>
      inferInstanceAs (Decidable True)

def deleteThenReuse : List (IcacheStep (Fin 2)) :=
  [.get 0 5, .work (fun _ => 0) (fun _ => .zero) (fun _ => true) (fun _ => false),
    .free 0 0, .destroy 0, .mark 0, .decrement 0, .get 1 7]

theorem refs_exact_iff_reuse :
    ∃ s : IcacheSystem (Fin 2),
      run step (init fun _ => 0) deleteThenReuse = some s ∧ s.RefsExact := by
  have hdone : (run step (init fun _ => 0) deleteThenReuse).isSome := by
    decide +kernel
  obtain ⟨s, hrun⟩ := Option.isSome_iff_exists.mp hdone
  have hrecycles : Along step RecyclesFree (init fun _ => 0) deleteThenReuse := by
    decide +kernel
  exact ⟨s, hrun, (refs_exact_iff hrun).mpr hrecycles _ [] s
    (List.append_nil _).symm hrun⟩

/-- A file is deleted while the other process asks twice for an inode. -/
def deleteAndReuse : List (IcacheStep (Fin 2)) :=
  [.get 0 5, .work (fun _ => 0) (fun _ => .zero) (fun _ => true) (fun _ => false),
    .free 0 0, .destroy 0, .mark 0, .get 1 7, .decrement 0, .get 1 7]

/-- A reference is not counted, and its inode comes to stand in two slots. -/
theorem reused_slot_loses_count :
    ∃ s, run step (init fun _ => 0) deleteAndReuse = some s ∧
      (s.fs.icache 0).ref.toNat ≠ s.outstanding 0 ∧
      0 < s.outstanding 0 ∧ 0 < s.outstanding 1 ∧
      (s.fs.icache 0).inodeNum = (s.fs.icache 1).inodeNum ∧
      (s.fs.icache 0).inodeNum ≠ inodeNumUnused := by
  have hend : (run step (init fun _ => 0) deleteAndReuse).map
      (fun s => ((s.fs.icache 0).ref, s.outstanding 0, s.outstanding 1,
        (s.fs.icache 0).inodeNum, (s.fs.icache 1).inodeNum)) =
        some (0, 1, 1, 7, 7) := by
    decide +kernel
  obtain ⟨s, hrun, hvalues⟩ := Option.map_eq_some_iff.mp hend
  simp only [Prod.mk.injEq] at hvalues
  obtain ⟨href, hout, hout', hnum, hnum'⟩ := hvalues
  refine ⟨s, hrun, ?_⟩
  rw [href, hout, hout', hnum, hnum']
  decide

end IcacheSystem

end UnoOS.Fs
