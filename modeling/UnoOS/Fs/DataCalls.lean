import UnoOS.Fs.FileData
import UnoOS.Fs.Records

namespace UnoOS.Fs

open UnoOS.Lib

/-! `inode_read_data` and `inode_write_data` as whole calls: the record in the
slot and the record on the disk are two versions of one block map. -/

theorem recordBlock_bounds {n : UInt16} (h : n.toNat < 2048) :
    2 ≤ (inodeLocateBlockNum n).toNat ∧
      (inodeLocateBlockNum n).toNat < 130 := by
  unfold inodeLocateBlockNum
  rw [UInt32.toNat_add, UInt32.toNat_ofNat']
  change 2 ≤ (n.toNat / 16 % 4294967296 + 2) % 4294967296 ∧
    (n.toNat / 16 % 4294967296 + 2) % 4294967296 < 130
  omega

theorem recordBlock_not_inData {n : UInt16} (h : n.toNat < 2048) :
    ¬InData (inodeLocateBlockNum n) := by
  intro hdata
  have hbounds := recordBlock_bounds h
  have hlow := hdata.1
  omega

theorem recordBlock_ne_bitmap {n : UInt16} (h : n.toNat < 2048) :
    inodeLocateBlockNum n ≠ sb.dataBitmapStart := by
  intro heq
  have hbounds := recordBlock_bounds h
  rw [heq] at hbounds
  exact absurd hbounds.2 (by decide)

theorem recordOf_congr {disk disk' : Disk} {n : UInt16} (h : n.toNat < 2048)
    (hsame : ∀ b, ¬InData b → b ≠ sb.dataBitmapStart → disk' b = disk b) :
    recordOf disk' n = recordOf disk n := by
  unfold recordOf
  rw [hsame _ (recordBlock_not_inData h) (recordBlock_ne_bitmap h)]

theorem putRecord_inData {disk : Disk} {n : UInt16} (h : n.toNat < 2048)
    (d : InodeDisk) {b : UInt32} (hb : InData b ∨ b = sb.dataBitmapStart) :
    putRecord disk n d b = disk b := by
  refine Function.update_of_ne ?_ _ _
  rintro rfl
  rcases hb with hb | hb
  · exact recordBlock_not_inData h hb
  · exact recordBlock_ne_bitmap h hb

/-! Two records of one inode. -/

/-- The `addrs[]` entries in use of the first are those of the second. -/
def InodeDisk.Beneath (d d' : InodeDisk) : Prop :=
  ∀ j, d.addrs j ≠ 0 → d'.addrs j = d.addrs j

theorem InodeDisk.Beneath.refl (d : InodeDisk) : d.Beneath d := fun _ _ => rfl

theorem InodeDisk.Beneath.trans {d d' d'' : InodeDisk} (h : d.Beneath d')
    (h' : d'.Beneath d'') : d.Beneath d'' := by
  intro j hj
  have hsame := h j hj
  rw [h' j (hsame ▸ hj), hsame]

theorem InodeDisk.Beneath.through_eq {disk : Disk} {d d' : InodeDisk}
    (h : d.Beneath d') {j : Fin nAddrs} {k : Fin entryPerBlock}
    (hne : through disk (d.addrs j) k ≠ 0) :
    through disk (d'.addrs j) k = through disk (d.addrs j) k := by
  rw [h j]
  intro hzero
  rw [hzero, through_zero] at hne
  exact hne rfl

theorem InodeDisk.Beneath.numberAt_eq {disk : Disk} {d d' : InodeDisk}
    (h : d.Beneath d') {p : Place} (hne : numberAt disk d p ≠ 0) :
    numberAt disk d' p = numberAt disk d p := by
  cases p with
  | top j => exact h j hne
  | entry j k => exact h.through_eq hne
  | leaf k l =>
      have hparent : through disk (d.addrs (tableAddr 2)) k ≠ 0 := by
        intro hzero
        refine hne ?_
        change through disk (through disk (d.addrs (tableAddr 2)) k) l = 0
        rw [hzero, through_zero]
      change through disk (through disk (d'.addrs (tableAddr 2)) k) l = _
      rw [h.through_eq hparent]
      rfl

theorem numberAt_placeOf {disk : Disk} {d d' : InodeDisk} {bn : Nat}
    (h : d.addrs (topIndex bn) = d'.addrs (topIndex bn)) :
    numberAt disk d (placeOf bn) = numberAt disk d' (placeOf bn) := by
  rcases block_cases bn with hdirect | ⟨hdirect, hsingle⟩ | hdouble
  · unfold topIndex at h
    rw [dif_pos hdirect] at h
    rw [placeOf_direct hdirect]
    exact h
  · unfold topIndex at h
    rw [dif_neg hdirect, dif_pos hsingle] at h
    rw [placeOf_single hdirect hsingle]
    simp only [Table.child, numberAt, h]
  · have hdirect : ¬bn < nAddrs1 := by
      change ¬bn < 522 at hdouble
      change ¬bn < 10
      omega
    unfold topIndex at h
    rw [dif_neg hdirect, dif_neg hdouble] at h
    rw [placeOf_double hdouble]
    simp only [Table.child, numberAt, h]

section

variable {ι : Type} [DecidableEq ι] {live : ι → Option InodeDisk} {x : ι}
  {i : Slot} {s s' : FsState}

theorem slotNumbers_self (p : Place) :
    slotNumbers live x i s (x, p) =
      numberAt s.disk (s.icache i).diskInode p := by
  unfold slotNumbers
  exact numbering_of_live (Function.update_self ..) p

theorem Touches.beneath (h : Touches live x i s s') :
    (s.icache i).diskInode.Beneath (s'.icache i).diskInode := by
  intro j hj
  have hsame := h.within (x, .top j) (by rw [slotNumbers_self]; exact hj)
  rwa [slotNumbers_self, slotNumbers_self] at hsame

theorem Touches.inodeNum (h : Touches live x i s s') :
    (s'.icache i).inodeNum = (s.icache i).inodeNum := by
  obtain ⟨addrs, size, hslot⟩ := h.slot
  rw [hslot, Function.update_self]

/-- The tree depends on the disk outside the inode blocks and on the record. -/
theorem slotNumbers_congr {i' : Slot} (h : SlotOwned live x i s)
    (hdisk : ∀ b, InData b → s'.disk b = s.disk b)
    (hrecord : (s'.icache i').diskInode = (s.icache i).diskInode) :
    slotNumbers live x i' s' = slotNumbers live x i s := by
  unfold slotNumbers
  rw [hrecord]
  exact Owned.numbering_eq h fun y t ht => hdisk _ ht

/-- Writing the record back changes no byte of the file. -/
theorem fileByte_flush (h : SlotOwned live x i s)
    (hnumber : (s.icache i).inodeNum.toNat < 2048) {o : Nat}
    (hmapped : fileBlock live x i s (o / blockSize) ≠ 0) :
    fileBlock live x i (s.flush i) (o / blockSize) =
        fileBlock live x i s (o / blockSize) ∧
      fileByte live x i (s.flush i) o = fileByte live x i s o := by
  have hdisk : ∀ b, InData b → (s.flush i).disk b = s.disk b :=
    fun b hb => putRecord_inData hnumber _ (.inl hb)
  have hblock : fileBlock live x i (s.flush i) (o / blockSize) =
      fileBlock live x i s (o / blockSize) :=
    congrFun (slotNumbers_congr h hdisk rfl) _
  have hdata : InData (fileBlock live x i s (o / blockSize)) := h.inData _ hmapped
  refine ⟨hblock, ?_⟩
  unfold fileByte
  rw [hblock, hdisk _ hdata]

/-! The calls. -/

theorem inodeWriteData_cases {offset len count : UInt32} {src : Nat → UInt8}
    (hrun : inodeWriteData i offset len src s = .ok (count, s')) :
    (count = 0xFFFFFFFF ∧ s' = s) ∨
      count = len ∧ ∃ modified touched,
        writeLoop i offset.toNat len.toNat src len.toNat 0 false s =
          .ok (modified, touched) ∧
        s' = if modified then touched.flush i else touched := by
  unfold inodeWriteData at hrun
  rw [readSlot_bind, assertThat_bind_eq_ok] at hrun
  obtain ⟨_, hrun⟩ := hrun
  split at hrun
  · cases hrun
    exact .inl ⟨rfl, rfl⟩
  · split at hrun
    · cases hrun
      exact .inl ⟨rfl, rfl⟩
    · rw [Exec.bind_eq_ok] at hrun
      obtain ⟨modified, touched, hloop, hrun⟩ := hrun
      right
      cases modified with
      | false =>
          cases hrun
          exact ⟨rfl, false, _, hloop, rfl⟩
      | true =>
          rw [if_pos rfl, Exec.bind_eq_ok] at hrun
          obtain ⟨_, flushed, hflush, hend⟩ := hrun
          obtain ⟨_, rfl⟩ := inodeRw_true_eq_ok.mp hflush
          cases hend
          exact ⟨rfl, true, _, hloop, rfl⟩

/-- How many bytes a read of `len` bytes at `offset` gets. -/
def readTotal (size offset len : UInt32) : UInt32 :=
  if size < len + offset then size - offset else len

theorem readTotal_le {size offset len : UInt32} (hsize : ¬size < offset)
    (hwrap : ¬offset + len < offset) :
    offset.toNat + (readTotal size offset len).toNat ≤ size.toNat ∧
      (readTotal size offset len).toNat ≤ len.toNat := by
  have hlen := len.toNat_lt
  rw [UInt32.lt_iff_toNat_lt] at hsize hwrap
  rw [UInt32.toNat_add] at hwrap
  have hoffset := offset.toNat_lt
  unfold readTotal
  split
  · next hlt =>
    rw [UInt32.lt_iff_toNat_lt, UInt32.toNat_add] at hlt
    rw [UInt32.toNat_sub_of_le _ _ (UInt32.le_iff_toNat_le.mpr (by omega))]
    omega
  · next hlt =>
    rw [UInt32.lt_iff_toNat_lt, UInt32.toNat_add] at hlt
    omega

theorem inodeReadData_cases {offset len count : UInt32} {bytes : List UInt8}
    (hrun : inodeReadData i offset len s = .ok ((count, bytes), s')) :
    (count = 0xFFFFFFFF ∧ s' = s.reload i) ∨
      let size := (recordOf s.disk (s.icache i).inodeNum).size
      ¬size < offset ∧ ¬offset + len < offset ∧
        count = readTotal size offset len ∧
        readLoop i count.toNat offset.toNat count.toNat (s.reload i) =
          .ok (bytes, s') := by
  unfold inodeReadData at hrun
  rw [readSlot_bind, assertThat_bind_eq_ok] at hrun
  obtain ⟨_, hrun⟩ := hrun
  rw [Exec.bind_eq_ok] at hrun
  obtain ⟨_, reloaded, hreload, hrun⟩ := hrun
  obtain ⟨_, rfl⟩ := inodeRw_false_eq_ok.mp hreload
  rw [readSlot_bind, FsState.reload_self] at hrun
  split at hrun
  · cases hrun
    exact .inl ⟨rfl, rfl⟩
  · next hcase =>
    rw [Exec.bind_eq_ok] at hrun
    obtain ⟨_, final, hloop, hend⟩ := hrun
    cases hend
    right
    exact ⟨fun h => hcase (.inl h), fun h => hcase (.inr h), rfl, hloop⟩

end

end UnoOS.Fs
