import UnoOS.Fs.Path
import UnoOS.Fs.SlotRefs

namespace UnoOS.Fs

open UnoOS.Lib

/-! Paths that exist.  A walk goes from directory to directory by the names in
their blocks; `search_inode` follows it with one reference at a time. -/

/-- Directory `n` has a link, and its block names `m` once with `c`. -/
structure Enters (s : FsState) (n : UInt16) (c : List UInt8) (m : UInt16) :
    Prop where
  type : (s.record n).type = ftDir
  linked : (s.record n).nlink ≠ 0
  owns : (s.record n).addrs 0 ≠ 0
  real : ((s.record n).addrs 0).toNat < nBlock
  distinct : (dirTable (s.disk ((s.record n).addrs 0))).Distinct
  found : (dirMap (s.disk ((s.record n).addrs 0))).lookup c = some m
  used : m ≠ inodeNumUnused

/-- The components lead from one inode over `later` to the target. -/
inductive Walk (s : FsState) :
    UInt16 → List (List UInt8) → List UInt16 → UInt16 → Prop
  | here (n : UInt16) : Walk s n [] [] n
  | enter {n m target : UInt16} {c : List UInt8} {cs : List (List UInt8)}
      {later : List UInt16} : Enters s n c m → Walk s m cs later target →
      Walk s n (c :: cs) (m :: later) target

def startOf (s : FsState) (cwd : Slot) (path : List UInt8) : UInt16 :=
  if path.head? = some slash then inodeRoot else (s.icache cwd).inodeNum

/-- The empty slots that a walk takes from `n` on.  The walk counts `n` itself. -/
def slotsTaken (s : FsState) (n : UInt16) : List UInt16 → Nat
  | [] => 0
  | m :: later => (if m = n ∨ s.Held m then 0 else 1) + slotsTaken s m later

def slotsNeeded (s : FsState) (n : UInt16) (later : List UInt16) : Nat :=
  (if s.Held n then 0 else 1) + slotsTaken s n later

def AreNames (cs : List (List UInt8)) : Prop :=
  ∀ c ∈ cs, ∀ name : Name, nameText (copyString c name) = c

section

variable {s t : FsState} {i cwd : Slot} {n m : UInt16} {c : List UInt8}
  {cs tail : List (List UInt8)} {later : List UInt16} {path : List UInt8}
  {findParent : Bool}

theorem Inside.search (h : Inside s t 0 i n)
    (hrecord : (t.icache i).diskInode = s.record n) (henter : Enters s n c m)
    {name : Name} (hname : nameText name = c) : dirSearchEntry i name t = .ok (m, t) := by
  have hblock : dirBlock i t = s.disk ((s.record n).addrs 0) := by
    unfold dirBlock
    rw [hrecord, h.walked.disk]
  rw [dirSearchEntry_of_distinct]
  · unfold searched
    rw [hblock, hname, henter.found]
    rfl
  · simp [h.locked]
  · rw [hrecord]
    exact henter.owns
  · rw [hrecord]
    exact henter.real
  · rw [hblock]
    exact henter.distinct

theorem Inside.held_iff (h : Inside s t 0 i n) (hused : m ≠ inodeNumUnused) :
    t.Held m ↔ m = n ∨ s.Held m := by
  constructor
  · rintro ⟨j, hj⟩
    rcases h.walked.held_cases hj with hbefore | hextra
    · exact .inr ⟨j, hbefore⟩
    · have hji : j = i := by
        by_contra hne
        simp [hne] at hextra
      rw [hji] at hj
      exact .inl (hj.1.symm.trans h.number)
  · rintro (rfl | ⟨j, hj⟩)
    · exact ⟨i, h.holds⟩
    · exact ⟨j, h.walked.holds_of_holds hused hj⟩

/-- One round: the directory is locked, the next inode is counted, and the
directory is unlocked and dropped. -/
theorem searchLoop_enter (h : Standing s t i n) (hs : Idle s)
    (hn : n ≠ inodeNumUnused) (henter : Enters s n c m)
    (hname : ∀ name : Name, nameText (copyString c name) = c)
    (hcomponents : components path = c :: cs)
    (hparent : findParent = true → cs ≠ [])
    (hroom : (if m = n ∨ s.Held m then 0 else 1) ≤ t.emptySlots.card)
    (fuel : Nat) (name : Name) :
    ∃ i' t' rest, searchLoop findParent (fuel + 1) i path name t =
        searchLoop findParent fuel i' rest (copyString c name) t' ∧
      Standing s t' i' m ∧ components rest = cs ∧ rest.length < path.length ∧
      t'.emptySlots.card + (if m = n ∨ s.Held m then 0 else 1) =
        t.emptySlots.card := by
  obtain ⟨rest, hskip, hrest, hlast, hshorter⟩ :=
    skipElement_of_cons hcomponents name
  obtain ⟨t₁, hlock, hinside, hrecord, hnumbers₁⟩ :=
    h.lock hs hn (by rw [henter.type]; exact .inl rfl)
  have hheld := hinside.held_iff henter.used
  have hempty₁ := emptySlots_congr hnumbers₁
  obtain ⟨i', t₂, hget, hwalked₂, hgets⟩ :=
    hinside.walked.get hs (fun j => by
      by_cases hj : j = i <;> simp [hj]) henter.used (by
      rw [hheld, hempty₁, ← Finset.card_pos]
      by_cases hcounted : m = n ∨ s.Held m
      · exact .inl hcounted
      · rw [if_neg hcounted] at hroom
        exact .inr hroom)
  have hinside₂ : Inside s t₂ (Pi.single i' 1) i n := by
    refine ⟨?_, ?_, ?_⟩
    · rwa [zero_add, add_comm] at hwalked₂
    · rw [hgets.others i (by rwa [hinside.number]), hinside.number]
    · intro j
      rw [hgets.locked, hinside.locked]
  obtain ⟨t₃, hfree, hwalked₃, hunlocked, hnumbers₃⟩ :=
    hinside₂.unlockFree hs hn henter.linked
  refine ⟨i', t₃, rest, ?_, ⟨hwalked₃, ?_, hunlocked⟩, hrest, hshorter, ?_⟩
  · have hmore : ¬(findParent = true ∧ rest = []) :=
      fun hend => hparent hend.1 (hlast.mp hend.2)
    rw [searchLoop, hskip]
    dsimp only
    rw [Exec.bind_of_ok hlock, readSlot_bind,
      if_neg (by rw [hrecord, henter.type]; exact not_not.mpr rfl), if_neg hmore,
      Exec.bind_of_ok (hinside.search hrecord henter (hname name)),
      Exec.bind_of_ok hget, Exec.bind_of_ok hfree]
  · rw [hnumbers₃, hgets.number]
  · have hempty := hgets.empty
    rw [hempty₁] at hempty
    simp only [hheld] at hempty
    rw [emptySlots_congr hnumbers₃, hempty]

/-- The loop follows a walk and is left with the components behind it. -/
theorem searchLoop_walk (hwalk : Walk s n cs later m) (hs : Idle s)
    (hn : n ≠ inodeNumUnused) (h : Standing s t i n)
    (hcomponents : components path = cs ++ tail) (hnames : AreNames cs)
    (hparent : findParent = true → tail ≠ [])
    {fuel : Nat} (hfuel : path.length < fuel)
    (hroom : slotsTaken s n later ≤ t.emptySlots.card) (name : Name) :
    ∃ fuel' i' t' rest name', searchLoop findParent fuel i path name t =
        searchLoop findParent fuel' i' rest name' t' ∧
      Standing s t' i' m ∧ m ≠ inodeNumUnused ∧ components rest = tail ∧
      rest.length < fuel' ∧
      t'.emptySlots.card + slotsTaken s n later = t.emptySlots.card := by
  induction hwalk generalizing fuel i path name t with
  | here n =>
      exact ⟨fuel, i, t, path, name, rfl, h, hn, hcomponents, hfuel, rfl⟩
  | @enter n m' m c cs later henter _ ih =>
      cases fuel with
      | zero => cases hfuel
      | succ fuel =>
          unfold slotsTaken at hroom
          obtain ⟨i₁, t₁, rest, hround, hstand, hrest, hshorter, hempty⟩ :=
            searchLoop_enter h hs hn henter (hnames c List.mem_cons_self)
              hcomponents (fun hp hnil =>
                hparent hp (List.append_eq_nil_iff.mp hnil).2) (by omega) fuel name
          obtain ⟨fuel', i', t', rest', name', hloop, hend, hm, hrest', hlt, hcard⟩ :=
            ih henter.used hstand hrest
              (fun c' hc' => hnames c' (List.mem_cons_of_mem _ hc'))
              (Nat.lt_of_lt_of_le hshorter (Nat.lt_succ_iff.mp hfuel)) (by omega)
              (copyString c name)
          refine ⟨fuel', i', t', rest', name', hround.trans hloop, hend, hm, hrest',
            hlt, ?_⟩
          unfold slotsTaken
          omega

/-! The calls. -/

/-- The first reference: to the root, or once more to the working directory. -/
theorem searchInode_start (hs : Idle s)
    (hcwd : path.head? ≠ some slash →
      0 < (s.icache cwd).ref ∧ (s.icache cwd).inodeNum ≠ inodeNumUnused)
    (hroom : (if s.Held (startOf s cwd path) then 0 else 1) ≤ s.emptySlots.card)
    (name : Name) (findParent : Bool) :
    startOf s cwd path ≠ inodeNumUnused ∧
      ∃ i t, searchInode cwd path name findParent s =
          searchLoop findParent (path.length + 1) i path name t ∧
        Standing s t i (startOf s cwd path) ∧
        t.emptySlots.card + (if s.Held (startOf s cwd path) then 0 else 1) =
          s.emptySlots.card := by
  have hfirst : startOf s cwd path ≠ inodeNumUnused ∧
      ∃ i t, (if path.head? = some slash then inodeGet inodeRoot
          else inodeDup cwd : FsM Slot) s = .ok (i, t) ∧
        Walked s t (0 + Pi.single i 1) ∧ Gets s (startOf s cwd path) i t := by
    unfold startOf at hroom ⊢
    by_cases hhead : path.head? = some slash
    · rw [if_pos hhead] at hroom ⊢
      rw [if_pos hhead]
      have hused : inodeRoot ≠ inodeNumUnused := by decide
      refine ⟨hused, (Walked.refl s).get hs (fun _ => Nat.zero_le _) hused ?_⟩
      by_cases hheld : s.Held inodeRoot
      · exact .inl hheld
      · rw [if_neg hheld] at hroom
        exact .inr (Finset.card_pos.mp hroom)
    · obtain ⟨hpos, hused⟩ := hcwd hhead
      rw [if_neg hhead, if_neg hhead]
      exact ⟨hused, cwd, (Walked.refl s).dup hs (Nat.zero_le _) hused ⟨rfl, hpos⟩⟩
  obtain ⟨hused, i, t, hrun, hwalked, hgets⟩ := hfirst
  have hbind : searchInode cwd path name findParent =
      (if path.head? = some slash then inodeGet inodeRoot else inodeDup cwd) >>=
        fun ip => searchLoop findParent (path.length + 1) ip path name := by
    unfold searchInode
    split <;> rfl
  refine ⟨hused, i, t, ?_, ⟨?_, hgets.number, ?_⟩, hgets.empty⟩
  · rw [hbind]
    exact Exec.bind_of_ok hrun
  · rwa [zero_add] at hwalked
  · intro j
    rw [hgets.locked, hs.unlocked]

theorem areNames_components (hpath : 0 ∉ path) : AreNames (components path) :=
  fun _ hc => nameText_component hpath hc

theorem searchInode_walk (hs : Idle s)
    (hcwd : path.head? ≠ some slash →
      0 < (s.icache cwd).ref ∧ (s.icache cwd).inodeNum ≠ inodeNumUnused)
    (hpath : 0 ∉ path) (hcomponents : components path = cs ++ tail)
    (hwalk : Walk s (startOf s cwd path) cs later m)
    {findParent : Bool} (hparent : findParent = true → tail ≠ [])
    (hroom : slotsNeeded s (startOf s cwd path) later ≤ s.emptySlots.card)
    (name : Name) :
    ∃ fuel i t rest name', searchInode cwd path name findParent s =
        searchLoop findParent fuel i rest name' t ∧
      Standing s t i m ∧ m ≠ inodeNumUnused ∧ components rest = tail ∧
      rest.length < fuel ∧
      t.emptySlots.card + slotsNeeded s (startOf s cwd path) later =
        s.emptySlots.card := by
  unfold slotsNeeded at hroom ⊢
  obtain ⟨hused, i₁, t₁, hstart, hstand, hcard₁⟩ :=
    searchInode_start hs hcwd (by omega) name findParent
  have hnames : AreNames cs := by
    intro c hc
    refine areNames_components hpath c ?_
    rw [hcomponents]
    exact List.mem_append_left _ hc
  obtain ⟨fuel, i, t, rest, name', hloop, hend, hm, hrest, hlt, hcard⟩ :=
    searchLoop_walk hwalk hs hused hstand hcomponents hnames hparent
      (Nat.lt_succ_self _) (by omega) name
  exact ⟨fuel, i, t, rest, name', hstart.trans hloop, hend, hm, hrest, hlt, by omega⟩

theorem pathToInode_walk (hs : Idle s)
    (hcwd : path.head? ≠ some slash →
      0 < (s.icache cwd).ref ∧ (s.icache cwd).inodeNum ≠ inodeNumUnused)
    (hpath : 0 ∉ path)
    (hwalk : Walk s (startOf s cwd path) (components path) later m)
    (hroom : slotsNeeded s (startOf s cwd path) later ≤ s.emptySlots.card)
    (junk : Junk) :
    ∃ i t, pathToInode cwd junk path s = .ok (some i, t) ∧ Standing s t i m := by
  obtain ⟨fuel, i, t, rest, name, hloop, hstand, _, hrest, hlt, _⟩ :=
    searchInode_walk hs hcwd hpath (List.append_nil _).symm hwalk
      (fun h => (Bool.false_ne_true h).elim) hroom junk.name
  refine ⟨i, t, ?_, hstand⟩
  have hend : searchInode cwd path junk.name false s = .ok ((some i, name), t) := by
    rw [hloop]
    cases fuel with
    | zero => cases hlt
    | succ fuel =>
        rw [searchLoop, skipElement_of_nil hrest]
        rfl
  exact Exec.bind_of_ok hend

theorem pathToPinode_walk (hs : Idle s)
    (hcwd : path.head? ≠ some slash →
      0 < (s.icache cwd).ref ∧ (s.icache cwd).inodeNum ≠ inodeNumUnused)
    (hpath : 0 ∉ path) (hcomponents : components path = cs ++ [c])
    (hwalk : Walk s (startOf s cwd path) cs later m)
    (hdirectory : (s.record m).type = ftDir)
    (hroom : slotsNeeded s (startOf s cwd path) later ≤ s.emptySlots.card)
    (junk : Junk) :
    ∃ i name t, pathToPinode cwd junk path s = .ok ((some i, name), t) ∧
      nameText name = c ∧ Standing s t i m := by
  obtain ⟨fuel, i, t, rest, name, hloop, hstand, hm, hrest, hlt, _⟩ :=
    searchInode_walk hs hcwd hpath hcomponents hwalk
      (fun (_ : true = true) => List.cons_ne_nil _ _) hroom junk.name
  obtain ⟨empty, hskip, _, hlast, _⟩ := skipElement_of_cons hrest name
  obtain ⟨t₁, hlock, hinside, hrecord, _⟩ :=
    hstand.lock hs hm (by rw [hdirectory]; exact .inl rfl)
  obtain ⟨t₂, hunlock, hwalked, hunlocked, hnumbers⟩ := hinside.unlock
  refine ⟨i, copyString c name, t₂, ?_, ?_, ?_, ?_, hunlocked⟩
  · unfold pathToPinode
    rw [hloop]
    cases fuel with
    | zero => cases hlt
    | succ fuel =>
        rw [searchLoop, hskip]
        dsimp only
        rw [Exec.bind_of_ok hlock, readSlot_bind,
          if_neg (by rw [hrecord, hdirectory]; exact not_not.mpr rfl),
          if_pos ⟨rfl, hlast.mpr rfl⟩, Exec.bind_of_ok hunlock]
        rfl
  · refine areNames_components hpath c ?_ name
    rw [hcomponents]
    exact List.mem_append_right _ List.mem_cons_self
  · rwa [zero_add] at hwalked
  · rw [hnumbers, hinside.number]

/-- Slot `i` holds the inode, which has one reference more; all else that counts
is as it was. -/
structure Returned (s t : FsState) (i : Slot) (num : UInt16) : Prop where
  number : (t.icache i).inodeNum = num
  refs : ∀ other, other ≠ inodeNumUnused →
    t.refCount other = s.refCount other + if other = num then 1 else 0
  disk : t.disk = s.disk
  unlocked : ∀ j, (t.icache j).locked = false

theorem Standing.returned (h : Standing s t i m) : Returned s t i m := by
  refine ⟨h.number, fun other hused => ?_, h.walked.disk, h.unlocked⟩
  rw [h.walked.refCount_of_one hused, h.number]

/-- Both lookups end where the names of the path lead. -/
theorem lookups_follow_tree (hs : Idle s) (junk : Junk) (hpath : 0 ∉ path)
    (hcwd : path.head? ≠ some slash →
      0 < (s.icache cwd).ref ∧ (s.icache cwd).inodeNum ≠ inodeNumUnused) :
    (∀ later target, Walk s (startOf s cwd path) (components path) later target →
      slotsNeeded s (startOf s cwd path) later ≤ s.emptySlots.card →
      ∃ i t, pathToInode cwd junk path s = .ok (some i, t) ∧
        Returned s t i target) ∧
    ∀ before last later parent, components path = before ++ [last] →
      Walk s (startOf s cwd path) before later parent →
      (s.record parent).type = ftDir →
      slotsNeeded s (startOf s cwd path) later ≤ s.emptySlots.card →
      ∃ i name t, pathToPinode cwd junk path s = .ok ((some i, name), t) ∧
        nameText name = last ∧ Returned s t i parent := by
  refine ⟨?_, ?_⟩
  · intro later target hwalk hroom
    obtain ⟨i, t, hrun, hstand⟩ := pathToInode_walk hs hcwd hpath hwalk hroom junk
    exact ⟨i, t, hrun, hstand.returned⟩
  · intro before last later parent hcomponents hwalk hdirectory hroom
    obtain ⟨i, name, t, hrun, hname, hstand⟩ :=
      pathToPinode_walk hs hcwd hpath hcomponents hwalk hdirectory hroom junk
    exact ⟨i, name, t, hrun, hname, hstand.returned⟩

end

/-! The path `//.//..` on a fresh image. -/

theorem booted_idle (disk : Disk) : Idle (.booted disk) := by
  refine ⟨fun _ => rfl, ?_, fun _ => (by decide : 0 + 2 < 2 ^ 32)⟩
  intro i j num _ hi _
  exact absurd hi.2 (by simp [FsState.booted])

theorem enters_freshRoot {c : List UInt8} (k : Fin direntPerBlock)
    (hk : dirTable (Mkfs.freshImage ((recordOf Mkfs.freshImage inodeRoot).addrs 0))
      k = some (c, inodeRoot)) :
    Enters (.booted Mkfs.freshImage) inodeRoot c inodeRoot := by
  have hrecord : FsState.record (.booted Mkfs.freshImage) inodeRoot =
      recordOf Mkfs.freshImage inodeRoot :=
    record_of_not_held (by decide +kernel)
  have hdistinct : (dirTable (Mkfs.freshImage
      ((recordOf Mkfs.freshImage inodeRoot).addrs 0))).Distinct :=
    DirRun.distinct_of_keys (by decide +kernel)
  refine ⟨?_, ?_, ?_, ?_, ?_, ?_, by decide⟩ <;> rw [hrecord]
  · decide +kernel
  · decide +kernel
  · decide +kernel
  · decide +kernel
  · exact hdistinct
  · exact (SlotTable.lookup_toMap hdistinct).mpr ⟨k, hk⟩

theorem lookups_follow_tree_fresh :
    (∃ i t, pathToInode 0 ⟨0, 0, 0⟩ [47, 47, 46, 47, 47, 46, 46]
        (.booted Mkfs.freshImage) = .ok (some i, t) ∧
      Returned (.booted Mkfs.freshImage) t i inodeRoot) ∧
    ∃ i name t, pathToPinode 0 ⟨0, 0, 0⟩ [47, 47, 46, 47, 47, 46, 46]
        (.booted Mkfs.freshImage) = .ok ((some i, name), t) ∧
      nameText name = [46, 46] ∧
      Returned (.booted Mkfs.freshImage) t i inodeRoot := by
  have hdot := enters_freshRoot (c := [46]) ⟨0, by decide⟩ (by decide +kernel)
  have hdotDot := enters_freshRoot (c := [46, 46]) ⟨1, by decide⟩ (by decide +kernel)
  have hlookups := @lookups_follow_tree (.booted Mkfs.freshImage) 0
    [47, 47, 46, 47, 47, 46, 46] (booted_idle _) ⟨0, 0, 0⟩ (by decide)
    (fun h => absurd rfl h)
  refine ⟨hlookups.1 _ _ (.enter hdot (.enter hdotDot (.here _))) (by decide +kernel),
    hlookups.2 [[46]] [46, 46] _ _ (by decide) (.enter hdot (.here _)) ?_
      (by decide +kernel)⟩
  exact hdot.type

end UnoOS.Fs
