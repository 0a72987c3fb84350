import UnoOS.Fs.DirMap

namespace UnoOS.Fs

open UnoOS.Lib

/-! What `dir_add_entry` writes behind the terminator of a name.  It copies the whole
buffer, and the searches stop at the NUL. -/

/-- The block that a new entry goes into, a fresh one if the directory has none. -/
def entryBlock (pip : Slot) (s : FsState) : UInt32 :=
  if (s.icache pip).diskInode.addrs 0 = 0 then
    (lowestClear (s.disk sb.dataBitmapStart)).elim 0xFFFFFFFF BitmapKind.block.number
  else (s.icache pip).diskInode.addrs 0

def withEntryBlock (pip : Slot) (s : FsState) : FsState :=
  if (s.icache pip).diskInode.addrs 0 = 0 then
    FsState.setSlot
      ((lowestClear (s.disk sb.dataBitmapStart)).elim s fun bi =>
        s.setBlock sb.dataBitmapStart ((s.disk sb.dataBitmapStart).setBit bi)) pip
      { s.icache pip with diskInode := { (s.icache pip).diskInode with
        addrs := Function.update (s.icache pip).diskInode.addrs 0 (entryBlock pip s) } }
  else s

/-- The number that a search finds, whatever else the directory holds. -/
def foundNumber (pip : Slot) (name : Name) (s : FsState) : UInt16 :=
  if (s.icache pip).diskInode.addrs 0 = 0 then inodeNumUnused
  else (findDirent (Dirent.matches name) (dirBlock pip s) direntPerBlock 0).elim
    inodeNumUnused fun index => (direntAt (dirBlock pip s) index).inodeNum

def freeEntry (b : Block) : Option Nat :=
  findDirent (fun de => de.name.get 0 == 0) b direntPerBlock 0

/-- The name is missing, there is a block, and one of its entries is free. -/
def EntersName (pip : Slot) (name : Name) (s : FsState) : Prop :=
  foundNumber pip name s = inodeNumUnused ∧ (entryBlock pip s).toNat < nBlock ∧
    ∃ index, freeEntry (s.disk (entryBlock pip s)) = some index

section

variable {pip : Slot} {s s' : FsState} {name name' : Name} {inodeNum : UInt16}

theorem matches_congr (h : nameText name = nameText name') :
    Dirent.matches name = Dirent.matches name' := by
  funext de
  unfold Dirent.matches
  have hsame : sameName de.name name = sameName de.name name' := by
    rw [Bool.eq_iff_iff, sameName_iff, sameName_iff, h]
  rw [hsame]

theorem foundNumber_congr (h : nameText name = nameText name') :
    foundNumber pip name s = foundNumber pip name' s := by
  unfold foundNumber
  rw [matches_congr h]

theorem entersName_congr (h : nameText name = nameText name') :
    EntersName pip name s ↔ EntersName pip name' s := by
  unfold EntersName
  rw [foundNumber_congr h]

theorem entryBlock_ne_zero : entryBlock pip s ≠ 0 := by
  unfold entryBlock
  split
  · cases hfind : lowestClear (s.disk sb.dataBitmapStart) with
    | none => decide
    | some bi =>
        have hnumber := BitmapKind.block.number_toNat (lowestClear_spec hfind).1
        have hstart : BitmapKind.block.start.toNat = 131 := rfl
        intro hzero
        rw [show BitmapKind.block.number bi = 0 from hzero] at hnumber
        change 0 = _ at hnumber
        omega
  · next hne => exact hne

theorem addrs_withEntryBlock :
    ((withEntryBlock pip s).icache pip).diskInode.addrs 0 = entryBlock pip s := by
  unfold withEntryBlock
  split
  · simp
  · next hne =>
    unfold entryBlock
    rw [if_neg hne]

theorem inodeNum_withEntryBlock :
    ((withEntryBlock pip s).icache pip).inodeNum = (s.icache pip).inodeNum := by
  unfold withEntryBlock
  split
  · simp
  · rfl

theorem disk_withEntryBlock :
    (withEntryBlock pip s).disk (entryBlock pip s) = s.disk (entryBlock pip s) := by
  unfold withEntryBlock
  split
  · next hzero =>
    rw [FsState.setSlot_disk]
    cases hfind : lowestClear (s.disk sb.dataBitmapStart) with
    | none => rfl
    | some bi =>
        have hnumber := BitmapKind.block.number_toNat (lowestClear_spec hfind).1
        have hblock : entryBlock pip s = BitmapKind.block.number bi := by
          unfold entryBlock
          rw [if_pos hzero, hfind]
          rfl
        rw [hblock, Option.elim_some, FsState.setBlock_disk]
        refine Function.update_of_ne ?_ _ _
        intro heq
        rw [heq] at hnumber
        change 130 = bi + 131 at hnumber
        omega
  · rfl

def entered (pip : Slot) (inodeNum : UInt16) (name : Name) (s : FsState) (index : Nat) :
    FsState :=
  ((withEntryBlock pip s).putDir pip
    (Dirent.store ⟨inodeNum, name⟩ (s.disk (entryBlock pip s)) (direntSize * index))
    (((withEntryBlock pip s).icache pip).diskInode.size + UInt32.ofNat direntSize)).flush pip

theorem dirSearchEntry_of_locked (hlocked : (s.icache pip).locked)
    (hreal : (s.icache pip).diskInode.addrs 0 ≠ 0 →
      ((s.icache pip).diskInode.addrs 0).toNat < nBlock) (name : Name) :
    dirSearchEntry pip name s = .ok (foundNumber pip name s, s) := by
  unfold dirSearchEntry foundNumber
  rw [readSlot_bind, Exec.bind_of_ok (assertThat_of_true hlocked s)]
  by_cases hzero : (s.icache pip).diskInode.addrs 0 = 0
  · rw [if_pos hzero, if_pos hzero]
    rfl
  · rw [if_neg hzero, if_neg hzero, Exec.bind_of_ok (bufRead_of_lt (hreal hzero) s)]
    unfold dirBlock
    cases findDirent (Dirent.matches name) (s.disk ((s.icache pip).diskInode.addrs 0))
      direntPerBlock 0 with
    | none => rfl
    | some index => rfl

/-- `dir_add_entry` once the directory has a block. -/
def enterInto (pip : Slot) (inodeNum : UInt16) (name : Name) : FsM Nat := do
  let dp ← readSlot pip
  assertThat (dp.diskInode.addrs 0 ≠ 0) "dir_add_entry: no free block"
  let buf ← bufRead (dp.diskInode.addrs 0)
  match findDirent (fun de => de.name.get 0 == 0) buf direntPerBlock 0 with
  | none => return blockSize
  | some index =>
      writeSlot pip { dp with diskInode := { dp.diskInode with
        size := dp.diskInode.size + UInt32.ofNat direntSize } }
      bufWrite (dp.diskInode.addrs 0)
        (Dirent.store ⟨inodeNum, name⟩ buf (direntSize * index))
      inodeRw pip true
      return direntSize * index

theorem enterInto_eq (inodeNum : UInt16) (name : Name) :
    enterInto pip inodeNum name (withEntryBlock pip s) =
      if (entryBlock pip s).toNat < nBlock then
        (freeEntry (s.disk (entryBlock pip s))).elim
          (.ok (blockSize, withEntryBlock pip s)) fun index =>
            .ok (direntSize * index, entered pip inodeNum name s index)
      else .error .ioError := by
  have haddrs := @addrs_withEntryBlock pip s
  unfold enterInto
  rw [readSlot_bind, haddrs, Exec.bind_of_ok (assertThat_of_true entryBlock_ne_zero _),
    Exec.bind_apply, bufRead_eq]
  by_cases hreal : (entryBlock pip s).toNat < nBlock
  · rw [if_pos hreal, if_pos hreal]
    dsimp only
    rw [disk_withEntryBlock]
    unfold freeEntry
    cases findDirent (fun de => de.name.get 0 == 0) (s.disk (entryBlock pip s))
      direntPerBlock 0 with
    | none => rfl
    | some index =>
        dsimp only [Option.elim_some]
        rw [writeSlot_bind, bufWrite_bind, Exec.bind_of_ok (inodeRw_true_apply pip _)]
        unfold entered FsState.putDir
        rw [haddrs]
        rfl
  · rw [if_neg hreal, if_neg hreal]

theorem dirAddEntry_of_locked (hlocked : (s.icache pip).locked)
    (hreal : (s.icache pip).diskInode.addrs 0 ≠ 0 →
      ((s.icache pip).diskInode.addrs 0).toNat < nBlock) (inodeNum : UInt16)
    (name : Name) :
    dirAddEntry pip inodeNum name s =
      if foundNumber pip name s ≠ inodeNumUnused then .ok (blockSize, s)
      else enterInto pip inodeNum name (withEntryBlock pip s) := by
  unfold dirAddEntry
  rw [readSlot_bind, Exec.bind_of_ok (assertThat_of_true hlocked s),
    Exec.bind_of_ok (dirSearchEntry_of_locked hlocked hreal name)]
  by_cases hfound : foundNumber pip name s ≠ inodeNumUnused
  · rw [if_pos hfound, if_pos hfound]
    rfl
  · rw [if_neg hfound, if_neg hfound, readSlot_bind]
    by_cases hzero : (s.icache pip).diskInode.addrs 0 = 0
    · rw [if_pos hzero]
      have halloc : bitmapAllocBlock s = .ok (entryBlock pip s,
          (lowestClear (s.disk sb.dataBitmapStart)).elim s fun bi =>
            s.setBlock sb.dataBitmapStart ((s.disk sb.dataBitmapStart).setBit bi)) := by
        rw [bitmapAllocBlock_eq]
        unfold entryBlock
        rw [if_pos hzero]
        cases lowestClear (s.disk sb.dataBitmapStart) with
        | none => rfl
        | some bi => rfl
      rw [Exec.bind_of_ok halloc, writeSlot_bind]
      unfold withEntryBlock
      rw [if_pos hzero]
      rfl
    · rw [if_neg hzero]
      unfold withEntryBlock
      rw [if_neg hzero]
      rfl

/-- The same block is left, and so is the same listing. -/
def SameEntries (pip : Slot) (inodeNum : UInt16) (name name' : Name) (s : FsState) : Prop :=
  ∀ offset offset' t t', dirAddEntry pip inodeNum name s = .ok (offset, t) →
    dirAddEntry pip inodeNum name' s = .ok (offset', t') →
    dirBlock pip t' = dirBlock pip t ∧
      ∀ len, (dirGetEntries pip len t').map Prod.fst = (dirGetEntries pip len t).map Prod.fst

theorem dirBlock_entered
    (hapart : entryBlock pip s ≠ inodeLocateBlockNum (s.icache pip).inodeNum)
    (index : Nat) : dirBlock pip (entered pip inodeNum name s index) =
      Dirent.store ⟨inodeNum, name⟩ (s.disk (entryBlock pip s)) (direntSize * index) := by
  unfold entered dirBlock
  have haddrs : ((((withEntryBlock pip s).putDir pip
      (Dirent.store ⟨inodeNum, name⟩ (s.disk (entryBlock pip s)) (direntSize * index))
      (((withEntryBlock pip s).icache pip).diskInode.size + UInt32.ofNat direntSize)).flush
        pip).icache pip).diskInode.addrs 0 = entryBlock pip s := by
    rw [← @addrs_withEntryBlock pip s]
    simp [FsState.flush, FsState.putDir]
  rw [haddrs]
  unfold FsState.flush putRecord
  dsimp only
  rw [Function.update_of_ne, FsState.putDir, addrs_withEntryBlock, FsState.setBlock_disk,
    Function.update_self]
  have hnum : (((withEntryBlock pip s).putDir pip
      (Dirent.store ⟨inodeNum, name⟩ (s.disk (entryBlock pip s)) (direntSize * index))
      (((withEntryBlock pip s).icache pip).diskInode.size +
        UInt32.ofNat direntSize)).icache pip).inodeNum = (s.icache pip).inodeNum := by
    rw [← @inodeNum_withEntryBlock pip s]
    simp [FsState.putDir]
  rw [hnum]
  exact hapart

theorem dirAddEntry_of_enters (hlocked : (s.icache pip).locked)
    (henters : EntersName pip name s) (inodeNum : UInt16) :
    ∃ index, freeEntry (s.disk (entryBlock pip s)) = some index ∧
      dirAddEntry pip inodeNum name s =
        .ok (direntSize * index, entered pip inodeNum name s index) := by
  obtain ⟨hfound, hreal, index, hfree⟩ := henters
  refine ⟨index, hfree, ?_⟩
  have howned : (s.icache pip).diskInode.addrs 0 ≠ 0 →
      ((s.icache pip).diskInode.addrs 0).toNat < nBlock := by
    intro hne
    unfold entryBlock at hreal
    rwa [if_neg hne] at hreal
  rw [dirAddEntry_of_locked hlocked howned, if_neg (not_not.mpr hfound), enterInto_eq,
    if_pos hreal, hfree]
  rfl

theorem dirAddEntry_of_not_enters (hlocked : (s.icache pip).locked)
    (henters : ¬ EntersName pip name s) {offset : Nat} {inodeNum : UInt16}
    (hrun : dirAddEntry pip inodeNum name s = .ok (offset, s')) :
    s' = if foundNumber pip name s = inodeNumUnused then withEntryBlock pip s else s := by
  have hreal : (s.icache pip).diskInode.addrs 0 ≠ 0 →
      ((s.icache pip).diskInode.addrs 0).toNat < nBlock := by
    intro hne
    by_contra hnot
    unfold dirAddEntry dirSearchEntry at hrun
    rw [readSlot_bind, Exec.bind_of_ok (assertThat_of_true hlocked s), Exec.bind_apply,
      readSlot_bind, Exec.bind_of_ok (assertThat_of_true hlocked s), if_neg hne,
      Exec.bind_apply, bufRead_eq, if_neg hnot] at hrun
    cases hrun
  rw [dirAddEntry_of_locked hlocked hreal] at hrun
  by_cases hfound : foundNumber pip name s = inodeNumUnused
  · rw [if_neg (not_not.mpr hfound), enterInto_eq] at hrun
    rw [if_pos hfound]
    split at hrun
    · next hblock =>
      cases hfree : freeEntry (s.disk (entryBlock pip s)) with
      | none =>
          rw [hfree] at hrun
          cases hrun
          rfl
      | some index => exact absurd ⟨hfound, hblock, index, hfree⟩ henters
    · cases hrun
  · rw [if_pos hfound] at hrun
    cases hrun
    rw [if_neg hfound]

theorem not_sameEntries (hlocked : (s.icache pip).locked)
    (hapart : entryBlock pip s ≠ inodeLocateBlockNum (s.icache pip).inodeNum)
    (htext : nameText name = nameText name') (henters : EntersName pip name s)
    (hne : name ≠ name') (inodeNum : UInt16) :
    ¬ SameEntries pip inodeNum name name' s := by
  intro hsame
  obtain ⟨index, hfree, hrun⟩ := dirAddEntry_of_enters hlocked henters inodeNum
  obtain ⟨index', hfree', hrun'⟩ :=
    dirAddEntry_of_enters hlocked ((entersName_congr htext).mp henters) inodeNum
  rw [hfree] at hfree'
  cases hfree'
  have hblock := (hsame _ _ _ _ hrun hrun').1
  rw [dirBlock_entered hapart, dirBlock_entered hapart] at hblock
  obtain ⟨_, hindex, _⟩ := findDirent_eq_some hfree
  have hroom : direntSize * index + direntSize ≤ blockSize := by
    have hcount : direntPerBlock = 32 := rfl
    unfold direntSize blockSize
    omega
  have hload := congrArg (fun b => Dirent.name (Dirent.load b (direntSize * index))) hblock
  rw [Dirent.load_store _ _ hroom, Dirent.load_store _ _ hroom] at hload
  exact hne hload.symm

/-- Names that are equal up to the NUL leave the same directory exactly if nothing is
entered or the buffers agree in every byte. -/
theorem same_entries_iff (hlocked : (s.icache pip).locked)
    (hapart : entryBlock pip s ≠ inodeLocateBlockNum (s.icache pip).inodeNum)
    (htext : nameText name = nameText name') :
    SameEntries pip inodeNum name name' s ↔ (EntersName pip name s → name = name') := by
  constructor
  · intro hsame henters
    by_contra hne
    exact not_sameEntries hlocked hapart htext henters hne inodeNum hsame
  · intro hcond offset offset' t t' hrun hrun'
    by_cases henters : EntersName pip name s
    · rw [hcond henters, hrun'] at hrun
      cases hrun
      exact ⟨rfl, fun _ => rfl⟩
    · have ht := dirAddEntry_of_not_enters hlocked henters hrun
      have ht' := dirAddEntry_of_not_enters hlocked ((entersName_congr htext).not.mp henters) hrun'
      rw [← foundNumber_congr htext, ← ht] at ht'
      rw [ht']
      exact ⟨rfl, fun _ => rfl⟩

end

def emptyDirectory : FsState :=
  (FsState.booted 0).setSlot 0 { (FsState.booted 0).icache 0 with locked := true }

def letterName (junk : UInt8) : Name := copyString [97] fun _ => junk

theorem same_entries_iff_letter :
    SameEntries 0 5 (letterName 1) (letterName 2) emptyDirectory ↔
      (EntersName 0 (letterName 1) emptyDirectory → letterName 1 = letterName 2) :=
  same_entries_iff (by decide) (by decide +kernel) (by decide)

/-- Two buffers with the name "a" leave different entries. -/
theorem entry_has_stack_bytes :
    nameText (letterName 1) = nameText (letterName 2) ∧
      ¬ SameEntries 0 5 (letterName 1) (letterName 2) emptyDirectory := by
  have hne : letterName 1 ≠ letterName 2 := by
    intro heq
    have hbyte := congrArg (fun name : Name => name.get 2) heq
    revert hbyte
    decide
  have htext : nameText (letterName 1) = nameText (letterName 2) := by decide
  refine ⟨htext, not_sameEntries ?_ ?_ htext ?_ hne 5⟩
  · decide
  · decide +kernel
  · exact ⟨by decide +kernel, by decide +kernel, 0, by decide +kernel⟩

end UnoOS.Fs
