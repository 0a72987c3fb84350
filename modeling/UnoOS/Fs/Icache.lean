import UnoOS.Fs.InodeLaws
import UnoOS.Lib.Census
import UnoOS.Lib.Transition

namespace UnoOS.Fs

open UnoOS.Lib

/-! The fate of icache slots over runs of `inode_get`, `inode_dup` and
`inode_free`. -/

structure IcacheRun where
  fs : FsState
  /-- Calls of `inode_free` that dropped a last reference and kept the file. -/
  drops : Nat

inductive IcacheOp where
  | get (inodeNum : UInt16)
  | dup (i : Slot)
  | free (i : Slot)
  /-- What else happens between the calls: records are loaded and changed,
  blocks are written. -/
  | work (disk : Disk) (diskInode : Slot → InodeDisk) (valid : Slot → Bool)

namespace IcacheRun

def init (disk : Disk) : IcacheRun := ⟨.booted disk, 0⟩

/-- One call.  References are duplicated and dropped by those who hold them,
and there are fewer than `ref` can count. -/
def step (st : IcacheRun) : IcacheOp → Option IcacheRun
  | .get inodeNum =>
      if inodeNum ≠ inodeNumUnused ∧
          ∀ i, st.fs.Holds i inodeNum → (st.fs.icache i).ref ≠ 0xFFFFFFFF then
        match inodeGet inodeNum st.fs with
        | .ok (_, fs) => some { st with fs := fs }
        | .error _ => none
      else none
  | .dup i =>
      if 0 < (st.fs.icache i).ref ∧ (st.fs.icache i).ref ≠ 0xFFFFFFFF then
        match inodeDup i st.fs with
        | .ok (_, fs) => some { st with fs := fs }
        | .error _ => none
      else none
  | .free i =>
      if 0 < (st.fs.icache i).ref then
        match inodeFree i st.fs with
        | .ok (_, fs) =>
            some ⟨fs, if (st.fs.icache i).ref = 1 ∧ ¬ (st.fs.icache i).Dies
              then st.drops + 1 else st.drops⟩
        | .error _ => none
      else none
  | .work disk diskInode valid =>
      some { st with fs := { st.fs with
        disk := disk
        icache := fun i => { st.fs.icache i with
          diskInode := diskInode i, valid := valid i } } }

def inUse (st : IcacheRun) : Finset UInt16 :=
  (Finset.univ.filter fun i => 0 < (st.fs.icache i).ref).image fun i =>
    (st.fs.icache i).inodeNum

/-- `inode_get` does not reach its assertion. -/
def GetReturns (st : IcacheRun) (op : IcacheOp) : Prop :=
  ∀ inodeNum, op = .get inodeNum → inodeNum ≠ inodeNumUnused →
    ∃ i fs, inodeGet inodeNum st.fs = .ok (i, fs)

/-- An inode that has no references is asked for only while the files dropped
so far and the inodes in use leave a slot. -/
def HasRoom (st : IcacheRun) (op : IcacheOp) : Prop :=
  ∀ inodeNum, op = .get inodeNum → inodeNum ≠ inodeNumUnused →
    inodeNum ∈ st.inUse ∨ st.drops + st.inUse.card < iNodeCacheSize

/-! Every slot is in use, empty, or lost: it keeps the number of an inode
without references and is neither found nor reused. -/

def inUseWeight (ip : Inode) : Nat := if 0 < ip.ref then 1 else 0

def emptyWeight (ip : Inode) : Nat :=
  if ip.ref = 0 ∧ ip.inodeNum = inodeNumUnused then 1 else 0

def lostWeight (ip : Inode) : Nat :=
  if ip.ref = 0 ∧ ip.inodeNum ≠ inodeNumUnused then 1 else 0

structure Tracks (st : IcacheRun) : Prop where
  empty : ∀ i, (st.fs.icache i).inodeNum = inodeNumUnused →
    (st.fs.icache i).ref = 0
  distinct : ∀ i j, 0 < (st.fs.icache i).ref → 0 < (st.fs.icache j).ref →
    (st.fs.icache i).inodeNum = (st.fs.icache j).inodeNum → i = j
  lost : st.drops = census lostWeight st.fs.icache

theorem weights_sum (ip : Inode) :
    inUseWeight ip + emptyWeight ip + lostWeight ip = 1 := by
  unfold inUseWeight emptyWeight lostWeight
  rcases Nat.eq_zero_or_pos ip.ref.toNat with href | href
  · have hzero : ip.ref = 0 := UInt32.toNat_inj.mp href
    by_cases hnum : ip.inodeNum = inodeNumUnused <;> simp [hzero, hnum]
  · have hpos : 0 < ip.ref := UInt32.lt_iff_toNat_lt.mpr href
    have hne : ip.ref ≠ 0 := by
      rintro hzero
      rw [hzero] at href
      exact absurd href (by decide)
    simp [hpos, hne]

theorem census_slots (icache : Slot → Inode) :
    census inUseWeight icache + census emptyWeight icache +
      census lostWeight icache = iNodeCacheSize := by
  unfold census
  rw [← Finset.sum_add_distrib, ← Finset.sum_add_distrib]
  simp [weights_sum]

variable {st : IcacheRun}

theorem Tracks.card_inUse (h : st.Tracks) :
    st.inUse.card = census inUseWeight st.fs.icache := by
  unfold inUse census inUseWeight
  rw [Finset.card_image_of_injOn, Finset.card_filter]
  intro i hi j hj heq
  simp only [Finset.coe_filter, Finset.mem_univ, true_and, Set.mem_ofPred_eq]
    at hi hj
  exact h.distinct i j hi hj heq

theorem mem_inUse {inodeNum : UInt16} :
    inodeNum ∈ st.inUse ↔ ∃ i, st.fs.Holds i inodeNum := by
  simp [inUse, FsState.Holds, and_comm]

/-- `inode_get` finds an empty slot exactly when the slots in use and the lost
ones are not all. -/
theorem Tracks.getReturns_iff (h : st.Tracks) (op : IcacheOp) :
    st.GetReturns op ↔ st.HasRoom op := by
  refine forall_congr' fun inodeNum => forall_congr' fun _ =>
    forall_congr' fun _ => ?_
  have hslots := census_slots st.fs.icache
  rw [mem_inUse, h.card_inUse, h.lost]
  rcases inodeGet_cases inodeNum st.fs with
    ⟨i, hholds, hget⟩ | ⟨hnone, ⟨i, hempty, hget⟩ | ⟨hfull, hget⟩⟩
  · exact ⟨fun _ => .inl ⟨i, hholds⟩, fun _ => ⟨_, _, hget⟩⟩
  · refine ⟨fun _ => .inr ?_, fun _ => ⟨_, _, hget⟩⟩
    have hweight := weight_le_census emptyWeight st.fs.icache i
    rw [emptyWeight, if_pos ⟨h.empty i hempty, hempty⟩] at hweight
    omega
  · constructor
    · rintro ⟨i, fs, hok⟩
      rw [hget] at hok
      cases hok
    · rintro (⟨i, hholds⟩ | hroom)
      · exact absurd hholds (hnone i)
      · have hzero : census emptyWeight st.fs.icache = 0 :=
          Finset.sum_eq_zero fun i _ => if_neg fun hi => hfull i hi.2
        omega

/-! One call keeps track of the slots. -/

theorem tracks_init (disk : Disk) : (init disk).Tracks := by
  refine ⟨fun _ _ => rfl, ?_, ?_⟩
  · intro i j hi
    exact absurd hi (UInt32.lt_irrefl 0)
  · simp [init, FsState.booted, census, lostWeight]

/-- Another count on a slot in use changes no slot's fate. -/
theorem Tracks.setRef (h : st.Tracks) {i : Slot} {ref : UInt32}
    (hold : 0 < (st.fs.icache i).ref) (hnew : 0 < ref) :
    Tracks { st with fs := st.fs.setSlot i { st.fs.icache i with ref := ref } } := by
  have href : ∀ j, 0 < ((st.fs.setSlot i { st.fs.icache i with
      ref := ref }).icache j).ref → 0 < (st.fs.icache j).ref := by
    intro j hj
    by_cases hji : j = i
    · rwa [hji]
    · simpa [hji] using hj
  have hnum : ∀ j, ((st.fs.setSlot i { st.fs.icache i with
      ref := ref }).icache j).inodeNum = (st.fs.icache j).inodeNum := by
    intro j
    by_cases hji : j = i
    · simp [hji]
    · simp [hji]
  refine ⟨?_, ?_, ?_⟩
  · intro j hj
    rw [hnum] at hj
    by_cases hji : j = i
    · have hzero := h.empty j hj
      rw [hji] at hzero
      rw [hzero] at hold
      exact absurd hold (by decide)
    · simpa [hji] using h.empty j hj
  · intro j k hj hk heq
    rw [hnum, hnum] at heq
    exact h.distinct j k (href j hj) (href k hk) heq
  · have hcensus := census_update lostWeight st.fs.icache i
      { st.fs.icache i with ref := ref }
    have hne : ∀ r : UInt32, 0 < r → r ≠ 0 := by
      rintro r hr rfl
      exact absurd hr (by decide)
    simp [lostWeight, hne _ hold, hne _ hnew] at hcensus
    simpa [hcensus] using h.lost

theorem Tracks.take (h : st.Tracks) {i : Slot} {inodeNum : UInt16}
    (hnone : ∀ j, ¬ st.fs.Holds j inodeNum)
    (hnum : inodeNum ≠ inodeNumUnused)
    (hempty : (st.fs.icache i).inodeNum = inodeNumUnused) :
    Tracks { st with fs := st.fs.setSlot i { st.fs.icache i with
      inodeNum := inodeNum, ref := 1, valid := false } } := by
  refine ⟨?_, ?_, ?_⟩
  · intro j hj
    by_cases hji : j = i
    · simp [hji, hnum] at hj
    · simp only [FsState.setSlot_icache, Function.update_of_ne hji] at hj ⊢
      exact h.empty j hj
  · intro j k hj hk heq
    by_cases hji : j = i <;> by_cases hki : k = i
    · rw [hji, hki]
    · simp [hji, hki] at hk heq
      exact absurd ⟨heq.symm, hk⟩ (hnone k)
    · simp [hji, hki] at hj heq
      exact absurd ⟨heq, hj⟩ (hnone j)
    · simp [hji, hki] at hj hk heq
      exact h.distinct j k hj hk heq
  · have hcensus := census_update lostWeight st.fs.icache i
      { st.fs.icache i with inodeNum := inodeNum, ref := 1, valid := false }
    simp [lostWeight, hempty] at hcensus
    simpa [hcensus] using h.lost

theorem Tracks.drop (h : st.Tracks) {i : Slot} {fs : FsState}
    (hothers : ∀ j, j ≠ i → fs.icache j = st.fs.icache j)
    (hone : (st.fs.icache i).ref = 1) (hzero : (fs.icache i).ref = 0)
    {drops : Nat}
    (hdrops : drops = st.drops + lostWeight (fs.icache i)) :
    Tracks ⟨fs, drops⟩ := by
  have hupdate : fs.icache = Function.update st.fs.icache i (fs.icache i) := by
    funext j
    by_cases hji : j = i
    · simp [hji]
    · simp [hji, hothers j hji]
  have hpos : ∀ j, 0 < (fs.icache j).ref → j ≠ i := by
    rintro j hj rfl
    rw [hzero] at hj
    exact absurd hj (by decide)
  refine ⟨?_, ?_, ?_⟩
  · intro j hj
    by_cases hji : j = i
    · rw [hji]
      exact hzero
    · rw [hothers j hji] at hj ⊢
      exact h.empty j hj
  · intro j k hj hk heq
    have hji := hpos j hj
    have hki := hpos k hk
    rw [hothers j hji] at hj heq
    rw [hothers k hki] at hk heq
    exact h.distinct j k hj hk heq
  · have hcensus := census_update lostWeight st.fs.icache i (fs.icache i)
    rw [← hupdate] at hcensus
    have hweight : lostWeight (st.fs.icache i) = 0 := by
      simp [lostWeight, hone]
    have hlost := h.lost
    simp only
    omega

theorem Tracks.free (h : st.Tracks) {i : Slot} {fs : FsState} {value : Unit}
    (hpos : 0 < (st.fs.icache i).ref)
    (hfree : inodeFree i st.fs = .ok (value, fs)) :
    Tracks ⟨fs, if (st.fs.icache i).ref = 1 ∧ ¬ (st.fs.icache i).Dies
      then st.drops + 1 else st.drops⟩ := by
  by_cases hdies : (st.fs.icache i).Dies
  · obtain ⟨hothers, hzero, hnum⟩ := inodeFree_of_dies hdies hfree
    refine h.drop hothers hdies.1 hzero ?_
    simp [hdies, lostWeight, hnum]
  · obtain ⟨_, rfl⟩ := inodeFree_of_not_dies hdies hfree
    by_cases hone : (st.fs.icache i).ref = 1
    · refine h.drop (i := i) ?_ hone (by simp [hone]) ?_
      · intro j hj
        simp [hj]
      · -- a slot in use carries a number, so it is lost now
        have hnum : (st.fs.icache i).inodeNum ≠ inodeNumUnused := by
          intro hnum
          rw [h.empty i hnum] at hpos
          exact absurd hpos (by decide)
        simp [hone, hdies, lostWeight, hnum]
    · have hnew : 0 < (st.fs.icache i).ref - 1 := by
        rw [UInt32.lt_iff_toNat_lt] at hpos ⊢
        have hne : (st.fs.icache i).ref.toNat ≠ 1 := fun heq =>
          hone (UInt32.toNat_inj.mp heq)
        have hle : (1 : UInt32) ≤ (st.fs.icache i).ref :=
          UInt32.le_iff_toNat_le.mpr hpos
        rw [UInt32.toNat_sub_of_le _ _ hle]
        simp only [UInt32.reduceToNat] at hpos ⊢
        omega
      have hkept := h.setRef hpos hnew
      simpa [hone] using hkept

theorem succ_pos_of_ne {r : UInt32} (h : r ≠ 0xFFFFFFFF) : 0 < r + 1 := by
  have hne : r.toNat ≠ 4294967295 := fun heq => h (UInt32.toNat_inj.mp heq)
  have hlt := r.toNat_lt
  rw [UInt32.lt_iff_toNat_lt, UInt32.toNat_add]
  simp only [UInt32.reduceToNat]
  omega

theorem Tracks.step (h : st.Tracks) {op : IcacheOp} {st' : IcacheRun}
    (hstep : st.step op = some st') : st'.Tracks := by
  cases op with
  | get inodeNum =>
      simp only [IcacheRun.step] at hstep
      split at hstep
      · next hguard =>
        rcases inodeGet_cases inodeNum st.fs with
          ⟨i, hholds, hget⟩ | ⟨hnone, ⟨i, hempty, hget⟩ | ⟨_, hget⟩⟩
        · rw [hget] at hstep
          cases hstep
          exact h.setRef hholds.2 (succ_pos_of_ne (hguard.2 i hholds))
        · rw [hget] at hstep
          cases hstep
          exact h.take hnone hguard.1 hempty
        · rw [hget] at hstep
          cases hstep
      · cases hstep
  | dup i =>
      simp only [IcacheRun.step] at hstep
      split at hstep
      · next hguard =>
        cases hstep
        exact h.setRef hguard.1 (succ_pos_of_ne hguard.2)
      · cases hstep
  | free i =>
      simp only [IcacheRun.step] at hstep
      split at hstep
      · next hpos =>
        cases hfree : inodeFree i st.fs with
        | error reason =>
            rw [hfree] at hstep
            cases hstep
        | ok result =>
            rw [hfree] at hstep
            cases hstep
            exact h.free hpos hfree
      · cases hstep
  | work disk diskInode valid =>
      cases hstep
      exact ⟨h.empty, h.distinct, h.lost⟩

/-- The runs in which `inode_get` never reaches its assertion are those in
which the dropped files and the inodes in use always leave a slot. -/
theorem get_returns_iff_room (disk : Disk) (ops : List IcacheOp) :
    Along step GetReturns (init disk) ops ↔
      Along step HasRoom (init disk) ops := by
  constructor
  · exact along_of_along (I := Tracks) (fun _ _ _ h _ hstep => h.step hstep)
      (fun _ op h => (h.getReturns_iff op).mp) (tracks_init disk)
  · exact along_of_along (I := Tracks) (fun _ _ _ h _ hstep => h.step hstep)
      (fun _ op h => (h.getReturns_iff op).mpr) (tracks_init disk)

/-- Get the root directory and drop it again, as every walk of `/` does. -/
def walkRoot (i : Slot) : List IcacheOp := [.get 0, .free i]

/-- After 32 such cycles, with never more than one inode in use, `inode_get`
stops at its assertion. -/
theorem get_stops_after_walks :
    ((List.range 65).all fun k =>
        ((run step (init 0) (((List.finRange 32).flatMap walkRoot).take k)).map
          fun st => decide (st.inUse.card ≤ 1)) = some true) = true ∧
      ¬ Along step GetReturns (init 0)
        ((List.finRange 32).flatMap walkRoot ++ [.get 0]) := by
  refine ⟨by decide +kernel, ?_⟩
  intro halong
  have hcheck : ((run step (init 0) ((List.finRange 32).flatMap walkRoot)).map
      fun st => (inodeGet 0 st.fs).toOption.isSome) = some false := by
    decide +kernel
  obtain ⟨st, hrun, hget⟩ := Option.map_eq_some_iff.mp hcheck
  have htail : Along step GetReturns st [.get 0] := along_append halong hrun
  obtain ⟨i, fs, hok⟩ := htail.1 0 rfl (by decide)
  rw [hok] at hget
  cases hget

end IcacheRun

end UnoOS.Fs
