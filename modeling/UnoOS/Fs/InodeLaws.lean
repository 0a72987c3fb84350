import UnoOS.Fs.Inode
import UnoOS.Fs.Records

namespace UnoOS.Fs

open UnoOS.Lib
open UnoOS.Lib.Exec (Keeps)

/-! What the operations on inodes leave alone. -/

section

variable {τ : Type} {view : FsState → τ}

theorem keeps_bufRead (blockNum : UInt32) : Keeps view (bufRead blockNum) := by
  intro s b s' hrun
  rw [(bufRead_eq_ok.mp hrun).2.2]

theorem keeps_readSlot (i : Slot) : Keeps view (readSlot i) := by
  intro s ip s' hrun
  cases hrun
  rfl

theorem keeps_assertThat (condition : Prop) [Decidable condition]
    (message : String) : Keeps view (assertThat condition message) :=
  Keeps.require_intro condition _

end

abbrev KeepsIcache {α : Type} (m : FsM α) : Prop := Keeps FsState.icache m

theorem keepsIcache_bufWrite (blockNum : UInt32) (b : Block) :
    KeepsIcache (bufWrite blockNum b) :=
  Keeps.modify_intro fun _ => rfl

theorem keepsIcache_bitmapUnset (bitmapBlock num : UInt32) :
    KeepsIcache (bitmapUnset bitmapBlock num) := by
  refine .bind (keeps_bufRead _) fun buf => ?_
  refine .bind (Keeps.require_intro _ _) fun _ => ?_
  exact .bind (Keeps.modify_intro (fun _ => rfl)) fun _ =>
    keepsIcache_bufWrite _ _

theorem keepsIcache_freeEntries {free : UInt32 → FsM Unit}
    (hfree : ∀ entry, KeepsIcache (free entry)) (table : Block)
    (fuel index : Nat) : KeepsIcache (freeEntries free table fuel index) := by
  induction fuel generalizing index with
  | zero => exact Keeps.pure_intro ()
  | succ fuel ih =>
      unfold freeEntries
      exact .ite (Keeps.pure_intro ()) ((hfree _).bind fun _ => ih (index + 1))

theorem keepsIcache_dataFree (level : Nat) (blockNum : UInt32) :
    KeepsIcache (dataFree level blockNum) := by
  induction level generalizing blockNum with
  | zero =>
      exact (keeps_assertThat _ _).bind fun _ => keepsIcache_bitmapUnset _ _
  | succ level ih =>
      exact (keeps_assertThat _ _).bind fun _ => (keeps_bufRead _).bind
        fun table => (keepsIcache_freeEntries ih table _ _).bind
          fun _ => keepsIcache_bitmapUnset _ _

/-- Nothing but the contents of one slot's record differs. -/
structure SameSlots (i : Slot) (s s' : FsState) : Prop where
  others : ∀ j, j ≠ i → s'.icache j = s.icache j
  ref : (s'.icache i).ref = (s.icache i).ref
  inodeNum : (s'.icache i).inodeNum = (s.icache i).inodeNum

theorem SameSlots.refl (i : Slot) (s : FsState) : SameSlots i s s :=
  ⟨fun _ _ => rfl, rfl, rfl⟩

theorem SameSlots.trans {i : Slot} {s s' s'' : FsState}
    (h : SameSlots i s s') (h' : SameSlots i s' s'') : SameSlots i s s'' :=
  ⟨fun j hj => (h'.others j hj).trans (h.others j hj),
    h'.ref.trans h.ref, h'.inodeNum.trans h.inodeNum⟩

theorem SameSlots.of_icache {i : Slot} {s s' : FsState}
    (h : s'.icache = s.icache) : SameSlots i s s' := by
  refine ⟨?_, ?_, ?_⟩ <;> simp [h]

theorem SameSlots.setSlot {i : Slot} {s : FsState} {node : Inode}
    (href : node.ref = (s.icache i).ref)
    (hnum : node.inodeNum = (s.icache i).inodeNum) :
    SameSlots i s (s.setSlot i node) := by
  refine ⟨?_, by simpa using href, by simpa using hnum⟩
  intro j hj
  simp [hj]

theorem freeAddr_sameSlots {i : Slot} {j : Fin nAddrs} {s s' : FsState}
    {value : Unit} (hrun : freeAddr i j s = .ok (value, s')) :
    SameSlots i s s' := by
  unfold freeAddr at hrun
  rw [readSlot_bind] at hrun
  split at hrun
  · rw [Exec.bind_eq_ok] at hrun
    obtain ⟨_, middle, hfree, hwrite⟩ := hrun
    cases hwrite
    have hicache := keepsIcache_dataFree _ _ _ _ _ hfree
    refine (SameSlots.of_icache hicache).trans (SameSlots.setSlot ?_ ?_)
    · rw [hicache]
    · rw [hicache]
  · cases hrun
    exact .refl i _

theorem freeAddrs_sameSlots {i : Slot} {js : List (Fin nAddrs)}
    {s s' : FsState} {value : Unit}
    (hrun : freeAddrs i js s = .ok (value, s')) : SameSlots i s s' := by
  induction js generalizing s with
  | nil =>
      cases hrun
      exact .refl i _
  | cons j js ih =>
      obtain ⟨_, middle, hfirst, hrest⟩ := Exec.bind_eq_ok.mp hrun
      exact (freeAddr_sameSlots hfirst).trans (ih hrest)

theorem inodeDestroy_sameSlots {i : Slot} {s s' : FsState} {value : Unit}
    (hrun : inodeDestroy i s = .ok (value, s')) : SameSlots i s s' := by
  unfold inodeDestroy at hrun
  rw [Exec.bind_eq_ok] at hrun
  obtain ⟨_, middle, hfree, hbitmap⟩ := hrun
  unfold inodeFreeData at hfree
  rw [readSlot_bind, assertThat_bind_eq_ok] at hfree
  rw [readSlot_bind] at hbitmap
  exact (freeAddrs_sameSlots hfree.2).trans
    (.of_icache (keepsIcache_bitmapUnset _ _ _ _ _ hbitmap))

/-- The last reference to a loaded inode without links is being dropped. -/
def Inode.Dies (ip : Inode) : Prop :=
  ip.ref = 1 ∧ ip.valid ∧ ip.diskInode.nlink = 0

instance (ip : Inode) : Decidable ip.Dies :=
  inferInstanceAs (Decidable (_ ∧ _ ∧ _))

theorem inodeFree_of_not_dies {i : Slot} {s s' : FsState} {value : Unit}
    (hdies : ¬ (s.icache i).Dies) (hrun : inodeFree i s = .ok (value, s')) :
    (s.icache i).locked = false ∧
      s' = s.setSlot i { s.icache i with ref := (s.icache i).ref - 1 } := by
  unfold inodeFree at hrun
  rw [readSlot_bind, assertThat_bind_eq_ok] at hrun
  obtain ⟨hlocked, hrun⟩ := hrun
  rw [if_neg (by exact hdies)] at hrun
  cases hrun
  exact ⟨hlocked, rfl⟩

theorem inodeFree_of_dies_eq {i : Slot} {s s' : FsState} {value : Unit}
    (hdies : (s.icache i).Dies) (hrun : inodeFree i s = .ok (value, s')) :
    ∃ dead : FsState, inodeDestroy i
        (s.setSlot i { s.icache i with locked := true }) = .ok ((), dead) ∧
      (inodeLocateBlockNum (dead.icache i).inodeNum).toNat < nBlock ∧
      let node := { dead.icache i with
        diskInode := { (dead.icache i).diskInode with type := ftUnused } }
      let blockNum := inodeLocateBlockNum node.inodeNum
      s' = (dead.setBlock blockNum (node.diskInode.store (dead.disk blockNum)
        (inodeOffset node.inodeNum))).setSlot i { node with
          inodeNum := inodeNumUnused, valid := false, locked := false,
          ref := node.ref - 1 } := by
  unfold inodeFree at hrun
  rw [readSlot_bind, assertThat_bind_eq_ok, if_pos (by exact hdies)] at hrun
  obtain ⟨_, hrun⟩ := hrun
  rw [Exec.bind_eq_ok] at hrun
  obtain ⟨_, gone, hlast, hdrop⟩ := hrun
  unfold inodeFreeLast inodeRw at hlast
  rw [readSlot_bind, writeSlot_bind, Exec.bind_eq_ok] at hlast
  obtain ⟨_, dead, hdestroy, hlast⟩ := hlast
  rw [readSlot_bind, writeSlot_bind, Exec.bind_eq_ok] at hlast
  obtain ⟨_, flushed, hflush, hlast⟩ := hlast
  rw [readSlot_bind, bufRead_bind_eq_ok] at hflush
  obtain ⟨hlt, hflush⟩ := hflush
  cases hflush
  cases hlast
  cases hdrop
  refine ⟨dead, hdestroy, by simpa using hlt, ?_⟩
  simp [FsState.setSlot, FsState.setBlock]

/-- The slot of a deleted inode is empty and the other slots are as before. -/
theorem inodeFree_of_dies {i : Slot} {s s' : FsState} {value : Unit}
    (hdies : (s.icache i).Dies) (hrun : inodeFree i s = .ok (value, s')) :
    (∀ j, j ≠ i → s'.icache j = s.icache j) ∧ (s'.icache i).ref = 0 ∧
      (s'.icache i).inodeNum = inodeNumUnused := by
  obtain ⟨dead, hdestroy, _, rfl⟩ := inodeFree_of_dies_eq hdies hrun
  have hsame := inodeDestroy_sameSlots hdestroy
  refine ⟨?_, ?_, ?_⟩
  · intro j hj
    simpa [hj] using hsame.others j hj
  · have href := hsame.ref
    simp only [FsState.setSlot_icache, Function.update_self] at href
    simp [href, hdies.1]
  · simp

namespace FsState

def flush (s : FsState) (i : Slot) : FsState :=
  { s with
    disk := putRecord s.disk (s.icache i).inodeNum (s.icache i).diskInode }

def reload (s : FsState) (i : Slot) : FsState :=
  s.setSlot i { s.icache i with
    diskInode := recordOf s.disk (s.icache i).inodeNum }

@[simp] theorem flush_icache (s : FsState) (i : Slot) :
    (s.flush i).icache = s.icache := rfl

@[simp] theorem reload_disk (s : FsState) (i : Slot) :
    (s.reload i).disk = s.disk := rfl

@[simp] theorem reload_self (s : FsState) (i : Slot) :
    (s.reload i).icache i = { s.icache i with
      diskInode := recordOf s.disk (s.icache i).inodeNum } :=
  Function.update_self ..

end FsState

theorem inodeRw_true_eq_ok {i : Slot} {s s' : FsState} {value : Unit} :
    inodeRw i true s = .ok (value, s') ↔
      (inodeLocateBlockNum (s.icache i).inodeNum).toNat < nBlock ∧
        s' = s.flush i := by
  unfold inodeRw
  rw [readSlot_bind, bufRead_bind_eq_ok]
  refine and_congr_right fun _ => ?_
  constructor
  · intro h
    cases h
    rfl
  · rintro rfl
    rfl

theorem inodeRw_false_eq_ok {i : Slot} {s s' : FsState} {value : Unit} :
    inodeRw i false s = .ok (value, s') ↔
      (inodeLocateBlockNum (s.icache i).inodeNum).toNat < nBlock ∧
        s' = s.reload i := by
  unfold inodeRw
  rw [readSlot_bind, bufRead_bind_eq_ok]
  refine and_congr_right fun _ => ?_
  constructor
  · intro h
    cases h
    rfl
  · rintro rfl
    rfl

theorem recordBlock_lt_nBlock (n : UInt16) :
    (inodeLocateBlockNum n).toNat < nBlock := by
  have hn := n.toNat_lt
  unfold inodeLocateBlockNum
  rw [UInt32.toNat_add, UInt32.toNat_ofNat']
  change (n.toNat / 16 % 4294967296 + 2) % 4294967296 < 8323
  omega

theorem inodeRw_false_apply (i : Slot) (s : FsState) :
    inodeRw i false s = .ok ((), s.reload i) :=
  inodeRw_false_eq_ok.mpr ⟨recordBlock_lt_nBlock _, rfl⟩

theorem inodeRw_true_apply (i : Slot) (s : FsState) :
    inodeRw i true s = .ok ((), s.flush i) :=
  inodeRw_true_eq_ok.mpr ⟨recordBlock_lt_nBlock _, rfl⟩

theorem inodeLock_eq_ok {i : Slot} {s s' : FsState} {value : Unit}
    (hrun : inodeLock i s = .ok (value, s')) :
    1 ≤ (s.icache i).ref ∧ (s.icache i).locked = false ∧
      s' = s.setSlot i { s.icache i with
        diskInode := if (s.icache i).valid then (s.icache i).diskInode
          else recordOf s.disk (s.icache i).inodeNum
        valid := true
        locked := true } ∧
      ((s.icache i).valid = false →
        validType (recordOf s.disk (s.icache i).inodeNum).type) := by
  unfold inodeLock at hrun
  rw [readSlot_bind, assertThat_bind_eq_ok] at hrun
  obtain ⟨href, hrun⟩ := hrun
  rw [Exec.require_bind_eq_ok] at hrun
  obtain ⟨hlocked, hrun⟩ := hrun
  rw [writeSlot_bind] at hrun
  refine ⟨href, hlocked, ?_⟩
  cases hvalid : (s.icache i).valid with
  | true =>
      rw [hvalid, if_neg (by decide)] at hrun
      cases hrun
      refine ⟨?_, fun h => by cases h⟩
      rw [if_pos rfl, ← hvalid]
  | false =>
      rw [hvalid, if_pos rfl] at hrun
      unfold inodeRw at hrun
      rw [Exec.bind_eq_ok] at hrun
      obtain ⟨_, loaded, hload, hrun⟩ := hrun
      rw [readSlot_bind, bufRead_bind_eq_ok] at hload
      obtain ⟨_, hload⟩ := hload
      cases hload
      rw [readSlot_bind, writeSlot_bind] at hrun
      obtain ⟨htype, hend⟩ := assertThat_eq_ok.mp hrun
      simp only [FsState.setSlot_icache, Function.update_self,
        FsState.setSlot_disk] at htype hend
      refine ⟨?_, fun _ => htype⟩
      rw [hend, if_neg (by decide)]
      simp [FsState.setSlot, recordOf]

theorem inodeUnlock_eq_ok {i : Slot} {s s' : FsState} {value : Unit}
    (hrun : inodeUnlock i s = .ok (value, s')) :
    (s.icache i).locked = true ∧ 1 ≤ (s.icache i).ref ∧
      s' = s.setSlot i { s.icache i with locked := false } := by
  unfold inodeUnlock at hrun
  rw [readSlot_bind, assertThat_bind_eq_ok] at hrun
  obtain ⟨⟨hlocked, href⟩, hrun⟩ := hrun
  cases hrun
  exact ⟨hlocked, href, rfl⟩

def FsState.Holds (s : FsState) (i : Slot) (inodeNum : UInt16) : Prop :=
  (s.icache i).inodeNum = inodeNum ∧ 0 < (s.icache i).ref

instance (s : FsState) (i : Slot) (inodeNum : UInt16) :
    Decidable (s.Holds i inodeNum) :=
  inferInstanceAs (Decidable (_ ∧ _))

theorem inodeGet_cases (inodeNum : UInt16) (s : FsState) :
    (∃ i, s.Holds i inodeNum ∧ inodeGet inodeNum s = .ok (i,
        s.setSlot i { s.icache i with ref := (s.icache i).ref + 1 })) ∨
      (∀ i, ¬ s.Holds i inodeNum) ∧
        ((∃ i, (s.icache i).inodeNum = inodeNumUnused ∧
            inodeGet inodeNum s = .ok (i, s.setSlot i { s.icache i with
              inodeNum := inodeNum, ref := 1, valid := false })) ∨
          (∀ i, (s.icache i).inodeNum ≠ inodeNumUnused) ∧
            inodeGet inodeNum s =
              .error (.panic "inode_get: no empty inode")) := by
  unfold inodeGet
  rw [Exec.bind_of_ok (m := get) rfl]
  cases hfound : (List.finRange iNodeCacheSize).find? fun i =>
      (s.icache i).inodeNum = inodeNum ∧ 0 < (s.icache i).ref with
  | some i =>
      left
      exact ⟨i, by simpa [FsState.Holds] using List.find?_some hfound, rfl⟩
  | none =>
      right
      refine ⟨?_, ?_⟩
      · intro i hholds
        have hnone := List.find?_eq_none.mp hfound i (List.mem_finRange i)
        exact hnone (by simpa [FsState.Holds] using hholds)
      · cases hempty : (List.finRange iNodeCacheSize).find? fun i =>
            (s.icache i).inodeNum = inodeNumUnused with
        | some i =>
            left
            exact ⟨i, by simpa using List.find?_some hempty, rfl⟩
        | none =>
            right
            refine ⟨?_, rfl⟩
            intro i
            simpa using List.find?_eq_none.mp hempty i (List.mem_finRange i)

theorem inodeGet_inodeNum {inodeNum : UInt16} {i : Slot} {s s' : FsState}
    (hrun : inodeGet inodeNum s = .ok (i, s')) :
    (s'.icache i).inodeNum = inodeNum := by
  rcases inodeGet_cases inodeNum s with ⟨j, hholds, heq⟩ |
    ⟨_, ⟨j, _, heq⟩ | ⟨_, heq⟩⟩
  · rw [heq] at hrun
    cases hrun
    rw [FsState.setSlot_icache, Function.update_self]
    exact hholds.1
  · rw [heq] at hrun
    cases hrun
    rw [FsState.setSlot_icache, Function.update_self]
  · rw [heq] at hrun
    cases hrun

/-- `inode_get` of a number that no slot counts takes an empty slot. -/
theorem inodeGet_fresh {inodeNum : UInt16} {i : Slot} {s s' : FsState}
    (hnone : ∀ j, ¬s.Holds j inodeNum)
    (hrun : inodeGet inodeNum s = .ok (i, s')) :
    (s.icache i).inodeNum = inodeNumUnused ∧
      s' = s.setSlot i { s.icache i with
        inodeNum := inodeNum, ref := 1, valid := false } := by
  rcases inodeGet_cases inodeNum s with ⟨j, hholds, _⟩ |
    ⟨_, ⟨j, hunused, heq⟩ | ⟨_, heq⟩⟩
  · exact absurd hholds (hnone j)
  · rw [heq] at hrun
    cases hrun
    exact ⟨hunused, rfl⟩
  · rw [heq] at hrun
    cases hrun

/-! The same calls where they return. -/

def Inode.loaded (disk : Disk) (ip : Inode) : InodeDisk :=
  if ip.valid then ip.diskInode else recordOf disk ip.inodeNum

section

variable {i : Slot} {s : FsState}

theorem inodeLock_apply (href : 1 ≤ (s.icache i).ref)
    (hlocked : (s.icache i).locked = false)
    (htype : (s.icache i).valid = false →
      validType (recordOf s.disk (s.icache i).inodeNum).type) :
    inodeLock i s = .ok ((), s.setSlot i { s.icache i with
      diskInode := (s.icache i).loaded s.disk, valid := true, locked := true }) := by
  unfold inodeLock Inode.loaded
  rw [readSlot_bind, Exec.bind_of_ok (assertThat_of_true href s),
    Exec.require_of_true hlocked, pure_bind, writeSlot_bind]
  cases hvalid : (s.icache i).valid with
  | true =>
      rw [if_neg (by decide), if_pos rfl, ← hvalid]
      rfl
  | false =>
      rw [if_pos rfl, if_neg (by decide),
        Exec.bind_of_ok (inodeRw_false_apply i _), readSlot_bind, writeSlot_bind,
        assertThat_of_true]
      · simp [FsState.setSlot, FsState.reload]
      · simpa using htype hvalid

theorem inodeUnlock_apply (href : 1 ≤ (s.icache i).ref)
    (hlocked : (s.icache i).locked) :
    inodeUnlock i s =
      .ok ((), s.setSlot i { s.icache i with locked := false }) := by
  unfold inodeUnlock
  rw [readSlot_bind, Exec.bind_of_ok (assertThat_of_true ⟨hlocked, href⟩ s)]
  rfl

theorem inodeFree_apply (hlocked : (s.icache i).locked = false)
    (hdies : ¬(s.icache i).Dies) :
    inodeFree i s = .ok ((), s.setSlot i { s.icache i with
      ref := (s.icache i).ref - 1 }) := by
  unfold inodeFree
  rw [readSlot_bind, Exec.bind_of_ok (assertThat_of_true hlocked s),
    if_neg (by exact hdies)]
  rfl

end

end UnoOS.Fs
