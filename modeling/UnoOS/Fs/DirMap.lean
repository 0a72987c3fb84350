import UnoOS.Fs.Dir
import UnoOS.Fs.ReadFrame
import UnoOS.Lib.SlotTable
import UnoOS.Lib.Transition

namespace UnoOS.Fs

open UnoOS.Lib

/-! A directory block as a finite map from names to inode numbers. -/

/-! Names. -/

def textFrom (name : Name) : (fuel i : Nat) → List UInt8
  | 0, _ => []
  | fuel + 1, i =>
      if name.get i = 0 then [] else name.get i :: textFrom name fuel (i + 1)

def nameText (name : Name) : List UInt8 := textFrom name dirNameLen 0

theorem strncmp_eq_zero_iff (p q : Name) (fuel i : Nat) :
    strncmp p q fuel i = 0 ↔ textFrom p fuel i = textFrom q fuel i := by
  induction fuel generalizing i with
  | zero => exact iff_of_true rfl rfl
  | succ fuel ih =>
      unfold strncmp textFrom
      by_cases hsame : p.get i = q.get i
      · rw [← hsame]
        by_cases hzero : p.get i = 0
        · simp [hzero]
        · rw [if_pos ⟨hzero, rfl⟩, if_neg hzero, if_neg hzero, ih]
          simp
      · rw [if_neg fun h => hsame h.2]
        have hnat : (p.get i).toNat ≠ (q.get i).toNat :=
          fun h => hsame (UInt8.toNat.inj h)
        refine iff_of_false (by omega) ?_
        by_cases hp : p.get i = 0
        · have hq : q.get i ≠ 0 := fun h => hsame (hp.trans h.symm)
          simp [hp, hq]
        · by_cases hq : q.get i = 0
          · simp [hp, hq]
          · simp [hp, hq, hsame]

/-- The kernel compares the bytes before the NUL, and no others. -/
theorem sameName_iff (p q : Name) :
    sameName p q = true ↔ nameText p = nameText q := by
  unfold sameName nameText
  rw [beq_iff_eq, strncmp_eq_zero_iff]

/-! The slots of a block. -/

def slotOf (de : Dirent) : Option (List UInt8 × UInt16) :=
  if de.name.get 0 = 0 then none else some (nameText de.name, de.inodeNum)

def dirTable (b : Block) : SlotTable direntPerBlock (List UInt8) UInt16 :=
  fun k => slotOf (direntAt b k.val)

def dirMap (b : Block) : Finmap fun _ : List UInt8 => UInt16 := (dirTable b).toMap

theorem matches_iff {name : Name} {de : Dirent} :
    Dirent.matches name de = true ↔
      slotOf de = some (nameText name, de.inodeNum) := by
  unfold Dirent.matches slotOf
  rw [Bool.and_eq_true, bne_iff_ne, sameName_iff]
  by_cases hused : de.name.get 0 = 0 <;> simp [hused]

theorem matches_of_slotOf {name : Name} {de : Dirent} {num : UInt16}
    (h : slotOf de = some (nameText name, num)) :
    Dirent.matches name de = true ∧ de.inodeNum = num := by
  rw [matches_iff]
  unfold slotOf at h ⊢
  split at h
  · cases h
  · next hused =>
    simp only [Option.some.injEq, Prod.mk.injEq] at h
    simp [hused, h.1, h.2]

/-! The search of a block. -/

section

variable {test : Dirent → Bool} {b : Block} {fuel index k : Nat}

theorem findDirent_eq_some (h : findDirent test b fuel index = some k) :
    index ≤ k ∧ k < index + fuel ∧ test (direntAt b k) = true := by
  induction fuel generalizing index with
  | zero => cases h
  | succ fuel ih =>
      unfold findDirent at h
      split at h
      · next htest =>
        cases h
        exact ⟨le_rfl, by omega, htest⟩
      · obtain ⟨hlow, hhigh, htest⟩ := ih h
        exact ⟨by omega, by omega, htest⟩

theorem findDirent_eq_none :
    findDirent test b fuel index = none ↔
      ∀ k, index ≤ k → k < index + fuel → test (direntAt b k) = false := by
  induction fuel generalizing index with
  | zero => exact iff_of_true rfl fun k hlow hhigh => by omega
  | succ fuel ih =>
      unfold findDirent
      by_cases htest : test (direntAt b index)
      · rw [if_pos htest]
        refine iff_of_false (by simp) fun h => ?_
        rw [h index le_rfl (by omega)] at htest
        cases htest
      · rw [if_neg htest, ih]
        constructor
        · intro h k hlow hhigh
          by_cases heq : k = index
          · rw [heq]
            exact Bool.eq_false_iff.mpr htest
          · exact h k (by omega) (by omega)
        · intro h k hlow hhigh
          exact h k (by omega) (by omega)

end

/-! A store of an entry. -/

theorem Dirent.load_store (de : Dirent) (b : Block) {off : Nat}
    (hoff : off + direntSize ≤ blockSize) : load (de.store b off) off = de := by
  have hbyte : ∀ k, k < direntSize → (de.store b off).get (off + k) = de.byte k := by
    intro k hk
    unfold store
    rw [Bytes.get_patch_of_mem _ _ (by omega) (by omega) (by omega),
      Nat.add_sub_cancel_left]
  have hnum : (de.store b off).half off = de.inodeNum := by
    refine Bytes.half_of_bytes _ fun k hk => ?_
    rw [hbyte k (by unfold direntSize; omega), byte, if_pos hk]
  have hname : (fun i : Fin dirNameLen =>
      (de.store b off).get (off + 2 + i.val)) = de.name := by
    funext i
    have hi : i.val < 30 := i.isLt
    rw [Nat.add_assoc, hbyte _ (by change 2 + i.val < 32; omega), byte,
      if_neg (by omega), Nat.add_sub_cancel_left, Bytes.get_of_lt _ i.isLt]
  unfold load
  rw [hnum, hname]

theorem Dirent.load_store_of_ne (de : Dirent) (b : Block) {off off' : Nat}
    (h : off' + direntSize ≤ off ∨ off + direntSize ≤ off') :
    load (de.store b off) off' = load b off' := by
  unfold store load
  have hname : (fun i : Fin dirNameLen =>
      Bytes.get (b.patch off direntSize de.byte) (off' + 2 + i.val)) =
      fun i => b.get (off' + 2 + i.val) := by
    funext i
    have hi : i.val < 30 := i.isLt
    change off' + 32 ≤ off ∨ off + 32 ≤ off' at h
    exact Bytes.get_patch_of_not_mem _ _ (by change _ ∨ off + 32 ≤ _; omega)
  rw [hname, Bytes.half_patch_of_disjoint]
  change off' + 32 ≤ off ∨ off + 32 ≤ off' at h
  change _ ∨ off + 32 ≤ _
  omega

theorem dirTable_store (de : Dirent) (b : Block) (k : Fin direntPerBlock) :
    dirTable (de.store b (direntSize * k.val)) =
      Function.update (dirTable b) k (slotOf de) := by
  have hk : k.val < 32 := k.isLt
  funext j
  by_cases hj : j = k
  · subst hj
    rw [Function.update_self]
    unfold dirTable direntAt
    rw [Dirent.load_store]
    change 32 * j.val + 32 ≤ 1024
    omega
  · rw [Function.update_of_ne hj]
    unfold dirTable direntAt
    rw [Dirent.load_store_of_ne]
    have hne : j.val ≠ k.val := fun h => hj (Fin.ext h)
    change 32 * j.val + 32 ≤ 32 * k.val ∨ 32 * k.val + 32 ≤ 32 * j.val
    omega

/-! Directories in slots. -/

def dirBlock (pip : Slot) (s : FsState) : Block :=
  s.disk ((s.icache pip).diskInode.addrs 0)

/-- A directory that is locked and owns a block, in which no name stands twice
and no entry has the number that marks a failure. -/
structure Directory (pip : Slot) (s : FsState) : Prop where
  locked : (s.icache pip).locked
  owns : (s.icache pip).diskInode.addrs 0 ≠ 0
  real : ((s.icache pip).diskInode.addrs 0).toNat < nBlock
  apart : (s.icache pip).diskInode.addrs 0 ≠
    inodeLocateBlockNum (s.icache pip).inodeNum
  distinct : (dirTable (dirBlock pip s)).Distinct
  numbers : ∀ k key num, dirTable (dirBlock pip s) k = some (key, num) →
    num ≠ inodeNumUnused

section

variable {pip : Slot} {s : FsState} {name : Name}

def searched (b : Block) (name : Name) : UInt16 :=
  ((dirMap b).lookup (nameText name)).getD inodeNumUnused

theorem lookup_of_found {b : Block} (hdistinct : (dirTable b).Distinct) {index : Nat}
    (hfind : findDirent (Dirent.matches name) b direntPerBlock 0 = some index) :
    ∃ k : Fin direntPerBlock, k.val = index ∧
      dirTable b k = some (nameText name, (direntAt b index).inodeNum) ∧
      (dirMap b).lookup (nameText name) = some (direntAt b index).inodeNum := by
  obtain ⟨_, hhigh, hmatch⟩ := findDirent_eq_some hfind
  rw [Nat.zero_add] at hhigh
  have hslot : dirTable b ⟨index, hhigh⟩ = _ := matches_iff.mp hmatch
  exact ⟨⟨index, hhigh⟩, rfl, hslot,
    (SlotTable.lookup_toMap hdistinct).mpr ⟨_, hslot⟩⟩

theorem lookup_of_missing {b : Block} (hdistinct : (dirTable b).Distinct)
    (hfind : findDirent (Dirent.matches name) b direntPerBlock 0 = none) :
    (dirMap b).lookup (nameText name) = none := by
  refine (SlotTable.lookup_toMap_eq_none hdistinct).mpr fun k num hslot => ?_
  have hmiss := findDirent_eq_none.mp hfind k.val (Nat.zero_le _) (by omega)
  rw [(matches_of_slotOf hslot).1] at hmiss
  cases hmiss

/-- The search of a directory whose block lists no name twice. -/
theorem dirSearchEntry_of_distinct (hlocked : (s.icache pip).locked)
    (howns : (s.icache pip).diskInode.addrs 0 ≠ 0)
    (hreal : ((s.icache pip).diskInode.addrs 0).toNat < nBlock)
    (hdistinct : (dirTable (dirBlock pip s)).Distinct) (name : Name) :
    dirSearchEntry pip name s = .ok (searched (dirBlock pip s) name, s) := by
  unfold dirSearchEntry searched
  rw [readSlot_bind, Exec.bind_of_ok (assertThat_of_true hlocked s),
    if_neg howns, Exec.bind_of_ok (bufRead_of_lt hreal s)]
  cases hfind : findDirent (Dirent.matches name)
    (s.disk ((s.icache pip).diskInode.addrs 0)) direntPerBlock 0 with
  | some index =>
      obtain ⟨_, _, _, hlookup⟩ := lookup_of_found hdistinct hfind
      rw [hlookup]
      rfl
  | none =>
      rw [lookup_of_missing hdistinct hfind]
      rfl

theorem dirSearchEntry_eq (h : Directory pip s) (name : Name) :
    dirSearchEntry pip name s = .ok (searched (dirBlock pip s) name, s) :=
  dirSearchEntry_of_distinct h.locked h.owns h.real h.distinct name

theorem Directory.lookup_ne_unused (h : Directory pip s) {key : List UInt8}
    {num : UInt16} (hlookup : (dirMap (dirBlock pip s)).lookup key = some num) :
    num ≠ inodeNumUnused := by
  obtain ⟨k, hk⟩ := (SlotTable.lookup_toMap h.distinct).mp hlookup
  exact h.numbers k key num hk

theorem Directory.searched_eq_unused_iff (h : Directory pip s) (name : Name) :
    searched (dirBlock pip s) name = inodeNumUnused ↔
      nameText name ∉ dirMap (dirBlock pip s) := by
  unfold searched
  rw [← Finmap.lookup_eq_none]
  cases hlookup : (dirMap (dirBlock pip s)).lookup (nameText name) with
  | none => exact iff_of_true rfl rfl
  | some num => exact iff_of_false (h.lookup_ne_unused hlookup) (by simp)

def FsState.putDir (s : FsState) (pip : Slot) (b : Block) (size : UInt32) :
    FsState :=
  (s.setSlot pip { s.icache pip with diskInode := { (s.icache pip).diskInode with
    size := size } }).setBlock ((s.icache pip).diskInode.addrs 0) b

theorem dirBlock_putDir (b : Block) (size : UInt32) :
    dirBlock pip (s.putDir pip b size) = b := by
  simp [dirBlock, FsState.putDir]

theorem Directory.putDir (h : Directory pip s) (size : UInt32) {b : Block}
    (hdistinct : (dirTable b).Distinct)
    (hnumbers : ∀ k key num, dirTable b k = some (key, num) →
      num ≠ inodeNumUnused) : Directory pip (s.putDir pip b size) := by
  refine ⟨?_, ?_, ?_, ?_, ?_, ?_⟩
  · simpa [FsState.putDir] using h.locked
  · simpa [FsState.putDir] using h.owns
  · simpa [FsState.putDir] using h.real
  · simpa [FsState.putDir] using h.apart
  · rwa [dirBlock_putDir]
  · rwa [dirBlock_putDir]

theorem dirBlock_flush (h : Directory pip s) :
    dirBlock pip (s.flush pip) = dirBlock pip s :=
  Function.update_of_ne h.apart _ _

theorem Directory.flush (h : Directory pip s) : Directory pip (s.flush pip) := by
  refine ⟨h.locked, h.owns, h.real, h.apart, ?_, ?_⟩
  · rw [dirBlock_flush h]
    exact h.distinct
  · rw [dirBlock_flush h]
    exact h.numbers

/-! The operations. -/

theorem dirAddEntry_eq (h : Directory pip s) (inodeNum : UInt16) (name : Name) :
    dirAddEntry pip inodeNum name s =
      if nameText name ∈ dirMap (dirBlock pip s) then .ok (blockSize, s)
      else
        match findDirent (fun de => de.name.get 0 == 0) (dirBlock pip s)
          direntPerBlock 0 with
        | none => .ok (blockSize, s)
        | some index => .ok (direntSize * index,
            (s.putDir pip
              (Dirent.store ⟨inodeNum, name⟩ (dirBlock pip s) (direntSize * index))
              ((s.icache pip).diskInode.size + UInt32.ofNat direntSize)).flush
              pip) := by
  have hsearched := h.searched_eq_unused_iff name
  unfold dirAddEntry
  rw [readSlot_bind, Exec.bind_of_ok (assertThat_of_true h.locked s),
    Exec.bind_of_ok (dirSearchEntry_eq h name)]
  by_cases hmem : nameText name ∈ dirMap (dirBlock pip s)
  · rw [if_pos fun heq => hsearched.mp heq hmem, if_pos hmem]
    rfl
  · rw [if_neg (not_not.mpr (hsearched.mpr hmem)), if_neg hmem, readSlot_bind,
      if_neg h.owns]
    dsimp only
    rw [readSlot_bind,
      Exec.bind_of_ok (assertThat_of_true h.owns s),
      Exec.bind_of_ok (bufRead_of_lt h.real s)]
    change (match findDirent (fun de => de.name.get 0 == 0) (dirBlock pip s)
        direntPerBlock 0 with
      | none => _
      | some index => _ : FsM Nat) s = _
    cases findDirent (fun de => de.name.get 0 == 0) (dirBlock pip s)
      direntPerBlock 0 with
    | none => rfl
    | some index =>
        dsimp only
        rw [writeSlot_bind, bufWrite_bind, Exec.bind_of_ok (inodeRw_true_apply pip _)]
        rfl

theorem dirDeleteEntry_eq (h : Directory pip s) (name : Name) :
    dirDeleteEntry pip name s =
      match findDirent (Dirent.matches name) (dirBlock pip s) direntPerBlock 0 with
      | none => .ok (inodeNumUnused, s)
      | some index =>
          let de := direntAt (dirBlock pip s) index
          .ok (de.inodeNum, s.putDir pip
            (Dirent.store ⟨inodeNumUnused, de.name.patch 0 1 fun _ => 0⟩
              (dirBlock pip s) (direntSize * index))
            ((s.icache pip).diskInode.size - UInt32.ofNat direntSize)) := by
  unfold dirDeleteEntry
  rw [readSlot_bind, Exec.bind_of_ok (assertThat_of_true h.locked s),
    Exec.bind_of_ok (bufRead_of_lt h.real s)]
  change (match findDirent (Dirent.matches name) (dirBlock pip s)
      direntPerBlock 0 with
    | none => _
    | some index => _ : FsM UInt16) s = _
  cases findDirent (Dirent.matches name) (dirBlock pip s) direntPerBlock 0 with
  | none => rfl
  | some index =>
      dsimp only
      rw [writeSlot_bind, bufWrite_bind]
      rfl

/-- A name that is missing goes into the first hole, if there is one. -/
theorem dirAddEntry_spec (h : Directory pip s) {inodeNum : UInt16}
    (hnum : inodeNum ≠ inodeNumUnused) (hname : name.get 0 ≠ 0) :
    ∃ offset s', dirAddEntry pip inodeNum name s = .ok (offset, s') ∧
      Directory pip s' ∧
      if nameText name ∈ dirMap (dirBlock pip s) ∨
          (dirMap (dirBlock pip s)).keys.card = direntPerBlock then
        offset = blockSize ∧ s' = s
      else
        offset < blockSize ∧ dirMap (dirBlock pip s') =
          (dirMap (dirBlock pip s)).insert (nameText name) inodeNum := by
  have hcard : (dirMap (dirBlock pip s)).keys.card = direntPerBlock ↔
      ∀ k, dirTable (dirBlock pip s) k ≠ none := by
    unfold dirMap
    rw [SlotTable.card_keys h.distinct, SlotTable.length_entries_eq_iff]
  rw [dirAddEntry_eq h]
  by_cases hmem : nameText name ∈ dirMap (dirBlock pip s)
  · rw [if_pos hmem]
    exact ⟨_, _, rfl, h, by rw [if_pos (.inl hmem)]; exact ⟨rfl, rfl⟩⟩
  · rw [if_neg hmem]
    cases hfind : findDirent (fun de => de.name.get 0 == 0) (dirBlock pip s)
      direntPerBlock 0 with
    | none =>
        have hfull : ∀ k, dirTable (dirBlock pip s) k ≠ none := by
          intro k
          have hused := findDirent_eq_none.mp hfind k.val (Nat.zero_le _) (by omega)
          unfold dirTable slotOf
          rw [if_neg (by simpa using hused)]
          simp
        exact ⟨_, _, rfl, h, by rw [if_pos (.inr (hcard.mpr hfull))]; exact ⟨rfl, rfl⟩⟩
    | some index =>
        obtain ⟨_, hhigh, hhole⟩ := findDirent_eq_some hfind
        rw [Nat.zero_add] at hhigh
        have hempty : dirTable (dirBlock pip s) ⟨index, hhigh⟩ = none := by
          unfold dirTable slotOf
          exact if_pos (by simpa using hhole)
        have htable : dirTable (Dirent.store ⟨inodeNum, name⟩ (dirBlock pip s)
            (direntSize * index)) = Function.update (dirTable (dirBlock pip s))
              ⟨index, hhigh⟩ (some (nameText name, inodeNum)) := by
          have hstore := dirTable_store ⟨inodeNum, name⟩ (dirBlock pip s)
            ⟨index, hhigh⟩
          unfold slotOf at hstore
          rwa [if_neg hname] at hstore
        have hnew : ∀ k num, dirTable (dirBlock pip s) k ≠
            some (nameText name, num) :=
          (SlotTable.lookup_toMap_eq_none h.distinct).mp
            (Finmap.lookup_eq_none.mpr hmem)
        have hafter := h.putDir
          ((s.icache pip).diskInode.size + UInt32.ofNat direntSize)
          (by rw [htable]; exact h.distinct.fill hnew) (by
            intro k key num hk
            rw [htable, Function.update_apply] at hk
            split at hk
            · cases hk
              exact hnum
            · exact h.numbers k key num hk)
        refine ⟨_, _, rfl, hafter.flush, ?_⟩
        rw [if_neg (not_or.mpr ⟨hmem, fun hfull => hcard.mp hfull _ hempty⟩),
          dirBlock_flush hafter, dirBlock_putDir]
        refine ⟨?_, ?_⟩
        · change index < 32 at hhigh
          change 32 * index < 1024
          omega
        · unfold dirMap
          rw [htable]
          exact SlotTable.toMap_fill h.distinct hempty hnew

theorem dirDeleteEntry_spec (h : Directory pip s) (name : Name) :
    ∃ s', dirDeleteEntry pip name s = .ok (searched (dirBlock pip s) name, s') ∧
      Directory pip s' ∧
      if nameText name ∈ dirMap (dirBlock pip s) then
        dirMap (dirBlock pip s') = (dirMap (dirBlock pip s)).erase (nameText name)
      else s' = s := by
  rw [dirDeleteEntry_eq h]
  unfold searched
  cases hfind : findDirent (Dirent.matches name) (dirBlock pip s) direntPerBlock 0
    with
  | none =>
      have hlookup := lookup_of_missing h.distinct hfind
      rw [hlookup]
      refine ⟨s, rfl, h, ?_⟩
      rw [if_neg (Finmap.lookup_eq_none.mp hlookup)]
  | some index =>
      obtain ⟨k, rfl, hslot, hlookup⟩ := lookup_of_found h.distinct hfind
      have htable : dirTable (Dirent.store ⟨inodeNumUnused,
          (direntAt (dirBlock pip s) k.val).name.patch 0 1 fun _ => 0⟩
          (dirBlock pip s) (direntSize * k.val)) =
          Function.update (dirTable (dirBlock pip s)) k none := by
        rw [dirTable_store]
        congr 1
      have hafter := h.putDir
        ((s.icache pip).diskInode.size - UInt32.ofNat direntSize)
        (by rw [htable]; exact h.distinct.clear) (by
          intro j key num hj
          rw [htable, Function.update_apply] at hj
          split at hj
          · cases hj
          · exact h.numbers j key num hj)
      rw [hlookup]
      refine ⟨_, rfl, hafter, ?_⟩
      have hmem : nameText name ∈ dirMap (dirBlock pip s) := by
        rw [← Finmap.lookup_isSome, hlookup, Option.isSome_some]
      rw [if_pos hmem, dirBlock_putDir]
      unfold dirMap
      rw [htable]
      exact SlotTable.toMap_clear h.distinct hslot

/-! Listing. -/

def usedDirents (b : Block) (fuel index : Nat) : List Dirent :=
  ((List.range' index fuel).map (direntAt b)).filter fun de => de.name.get 0 != 0

theorem entriesLoop_eq (b : Block) (len : Nat) {fuel index bytesRead : Nat} :
    entriesLoop b len fuel index bytesRead =
      let listed := (usedDirents b fuel index).take ((len - bytesRead) / direntSize)
      (bytesRead + direntSize * listed.length, listed) := by
  induction fuel generalizing index bytesRead with
  | zero => simp [entriesLoop, usedDirents]
  | succ fuel ih =>
      unfold entriesLoop usedDirents
      rw [List.range'_succ, List.map_cons]
      by_cases hlen : len ≤ bytesRead
      · rw [if_pos hlen, Nat.sub_eq_zero_of_le hlen]
        simp
      · rw [if_neg hlen]
        by_cases hhole : (direntAt b index).name.get 0 = 0
        · rw [List.filter_cons_of_neg (by simpa using hhole)]
          dsimp only
          rw [if_pos hhole, ih]
          rfl
        · rw [List.filter_cons_of_pos (by simpa using hhole)]
          dsimp only
          rw [if_neg hhole]
          by_cases hroom : len < bytesRead + direntSize
          · have hnone : (len - bytesRead) / direntSize = 0 :=
              Nat.div_eq_of_lt (by omega)
            rw [if_pos hroom, hnone]
            simp
          · have hsome : (len - bytesRead) / direntSize =
                (len - (bytesRead + direntSize)) / direntSize + 1 := by
              rw [← Nat.sub_sub]
              exact Nat.div_eq_sub_div (by decide) (by omega)
            rw [if_neg hroom, ih, hsome, List.take_succ_cons]
            simp only [List.length_cons, Prod.mk.injEq]
            refine ⟨?_, rfl⟩
            unfold usedDirents
            rw [Nat.mul_succ]
            omega

theorem dirGetEntriesLoop_eq (pip : Slot) (len : Nat) :
    dirGetEntriesLoop pip len = (fun des => (direntSize * des.length, des)) <$>
      dirGetEntries pip len := by
  unfold dirGetEntriesLoop dirGetEntries
  simp only [map_eq_pure_bind, bind_assoc]
  congr 1
  funext dp
  congr 1
  funext _
  split
  · simp
  · simp only [bind_assoc, pure_bind, entriesLoop_eq, usedDirents,
      List.range_eq_range']
    simp

/-- The first entries in use, as many as fit into `len` bytes. -/
def listing (b : Block) (len : Nat) : List Dirent :=
  (usedDirents b direntPerBlock 0).take (len / direntSize)

theorem dirGetEntriesLoop_spec (h : Directory pip s) (len : Nat) :
    dirGetEntriesLoop pip len s =
      .ok ((direntSize * (listing (dirBlock pip s) len).length,
        listing (dirBlock pip s) len), s) := by
  unfold dirGetEntriesLoop
  rw [readSlot_bind, Exec.bind_of_ok (assertThat_of_true h.locked s),
    if_neg h.owns, Exec.bind_of_ok (bufRead_of_lt h.real s), entriesLoop_eq]
  simp only [Nat.zero_add, Nat.sub_zero]
  rfl

end

/-! Sequences of operations. -/

namespace DirRun

inductive Op where
  | search (name : Name)
  | add (inodeNum : UInt16) (name : Name)
  | delete (name : Name)
  | list (len : Nat)

inductive Answer where
  | number (inodeNum : UInt16)
  | offset (bytes : Nat)
  | listed (count : Nat) (entries : List Dirent)

def execute (pip : Slot) : Op → FsM Answer
  | .search name => return .number (← dirSearchEntry pip name)
  | .add inodeNum name => return .offset (← dirAddEntry pip inodeNum name)
  | .delete name => return .number (← dirDeleteEntry pip name)
  | .list len => do
      let (count, entries) ← dirGetEntriesLoop pip len
      return .listed count entries

/-- Names are not empty, and a new entry does not get the number that marks a
failure. -/
def Op.Valid : Op → Prop
  | .search name => name.get 0 ≠ 0
  | .add inodeNum name => name.get 0 ≠ 0 ∧ inodeNum ≠ inodeNumUnused
  | .delete name => name.get 0 ≠ 0
  | .list _ => True

def step (pip : Slot) (s : FsState) (op : Op) : Option FsState :=
  match execute pip op s with
  | .ok (_, s') => some s'
  | .error _ => none

/-- What an operation answers and does to the map, from one state of the block
to another. -/
def MapStep (b b' : Block) : Op → Answer → Prop
  | .search name, answer => answer = .number (searched b name) ∧ b' = b
  | .add inodeNum name, answer =>
      if nameText name ∈ dirMap b ∨ (dirMap b).keys.card = direntPerBlock then
        answer = .offset blockSize ∧ b' = b
      else
        (∃ bytes, bytes < blockSize ∧ answer = .offset bytes) ∧
          dirMap b' = (dirMap b).insert (nameText name) inodeNum
  | .delete name, answer =>
      answer = .number (searched b name) ∧
        if nameText name ∈ dirMap b then
          dirMap b' = (dirMap b).erase (nameText name)
        else b' = b
  | .list len, answer =>
      answer = .listed (direntSize * (listing b len).length) (listing b len) ∧
        b' = b

/-- The directory is a map of at most 32 names, and the operation acts on it. -/
def ActsOnMap (pip : Slot) (s : FsState) (op : Op) : Prop :=
  (dirTable (dirBlock pip s)).Distinct ∧
    (dirMap (dirBlock pip s)).keys.card ≤ direntPerBlock ∧
    ∃ answer s', execute pip op s = .ok (answer, s') ∧
      MapStep (dirBlock pip s) (dirBlock pip s') op answer

section

variable {pip : Slot} {s : FsState} {op : Op}

theorem card_le (h : Directory pip s) :
    (dirMap (dirBlock pip s)).keys.card ≤ direntPerBlock := by
  unfold dirMap
  rw [SlotTable.card_keys h.distinct]
  exact SlotTable.length_entries_le _

theorem execute_spec (h : Directory pip s) (hop : op.Valid) :
    ∃ answer s', execute pip op s = .ok (answer, s') ∧ Directory pip s' ∧
      MapStep (dirBlock pip s) (dirBlock pip s') op answer := by
  cases op with
  | search name =>
      exact ⟨_, _, Exec.bind_of_ok (dirSearchEntry_eq h name), h, rfl, rfl⟩
  | add inodeNum name =>
      obtain ⟨bytes, s', hrun, h', hcase⟩ := dirAddEntry_spec h hop.2 hop.1
      refine ⟨_, _, Exec.bind_of_ok hrun, h', ?_⟩
      dsimp only [MapStep]
      split at hcase
      · next htaken =>
        obtain ⟨rfl, rfl⟩ := hcase
        rw [if_pos htaken]
        exact ⟨rfl, rfl⟩
      · next hfree =>
        rw [if_neg hfree]
        exact ⟨⟨bytes, hcase.1, rfl⟩, hcase.2⟩
  | delete name =>
      obtain ⟨s', hrun, h', hcase⟩ := dirDeleteEntry_spec h name
      refine ⟨_, _, Exec.bind_of_ok hrun, h', rfl, ?_⟩
      split at hcase
      · next hmem =>
        rw [if_pos hmem]
        exact hcase
      · next hmem =>
        rw [if_neg hmem, hcase]
  | list len =>
      exact ⟨_, _, Exec.bind_of_ok (dirGetEntriesLoop_spec h len), h, rfl, rfl⟩

theorem step_directory (h : Directory pip s) (hop : op.Valid) :
    ∃ s', step pip s op = some s' ∧ Directory pip s' ∧ ActsOnMap pip s op := by
  obtain ⟨answer, s', hrun, h', hstep⟩ := execute_spec h hop
  refine ⟨s', ?_, h', h.distinct, card_le h, answer, s', hrun, hstep⟩
  unfold step
  rw [hrun]

/-- Every sequence of operations acts on the map that the block stands for. -/
theorem directory_is_map (ops : List Op) (h : Directory pip s)
    (hops : ∀ op ∈ ops, op.Valid) :
    (∃ s', run (step pip) s ops = some s' ∧ Directory pip s') ∧
      Along (step pip) (ActsOnMap pip) s ops := by
  induction ops generalizing s with
  | nil => exact ⟨⟨s, rfl, h⟩, trivial⟩
  | cons op ops ih =>
      obtain ⟨middle, hstep, hmiddle, hacts⟩ :=
        step_directory h (hops op List.mem_cons_self)
      obtain ⟨⟨s', hrun, hs'⟩, halong⟩ := ih hmiddle
        fun op' hop' => hops op' (List.mem_cons_of_mem _ hop')
      exact ⟨⟨s', run_cons.mpr ⟨middle, hstep, hrun⟩, hs'⟩,
        along_cons hacts hstep halong⟩

end

def openRoot : FsState :=
  match (do
      let i ← inodeGet 0
      inodeLock i) (.booted Mkfs.freshImage) with
  | .ok (_, s) => s
  | .error _ => .booted 0

theorem distinct_of_keys {n : Nat} {κ ν : Type} {t : SlotTable n κ ν}
    (h : ∀ i j, i ≠ j → (t i).map Prod.fst = (t j).map Prod.fst → t i = none) :
    t.Distinct := by
  intro i j k v w hi hj
  by_contra hne
  have hnone := h i j hne (by rw [hi, hj]; rfl)
  rw [hi] at hnone
  cases hnone

theorem openRoot_directory : Directory 0 openRoot := by
  refine ⟨by decide +kernel, by decide +kernel, by decide +kernel,
    by decide +kernel, distinct_of_keys (by decide +kernel), ?_⟩
  have hnumbers : ∀ k, (dirTable (dirBlock 0 openRoot) k).all
      (fun e => decide (e.2 ≠ inodeNumUnused)) = true := by decide +kernel
  intro k key num hk
  have hall := hnumbers k
  rw [hk] at hall
  exact of_decide_eq_true hall

def nameA : Name := copyString [97] 0

theorem directory_is_map_openRoot :
    (∃ s', run (step 0) openRoot
        [.add 5 nameA, .search nameA, .delete nameA, .list 64] = some s' ∧
      Directory 0 s') ∧
    Along (step 0) (ActsOnMap 0) openRoot
      [.add 5 nameA, .search nameA, .delete nameA, .list 64] := by
  have hname : nameA.get 0 ≠ 0 := by decide
  refine directory_is_map _ openRoot_directory fun op hop => ?_
  simp only [List.mem_cons, List.not_mem_nil, or_false] at hop
  rcases hop with rfl | rfl | rfl | rfl
  · exact ⟨hname, by decide⟩
  · exact hname
  · exact hname
  · trivial

end DirRun

end UnoOS.Fs
