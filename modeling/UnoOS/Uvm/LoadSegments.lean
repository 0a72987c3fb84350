import UnoOS.Uvm.Segments

namespace UnoOS.Uvm

open UnoOS.Lib
open UnoOS.Lib.Exec (Returns)
open UnoOS.Mem

/-! Segments that are joined are loaded, as long as there is memory. -/

variable {s s' : MemState} {m m' : Memory} {roots : Set UInt64} {lk lu : List UInt64}
  {tfs : Set UInt64} {root va : UInt64} {file : ExecFile} {ph : ProgramHeader}
  {heapTop newHeapTop : UInt64} {phs : List ProgramHeader}

/-! `load_segment` -/

theorem readData_turn {offset size off readLen : UInt32} (hlt : off.toNat < size.toNat)
    (hreadLen : readLen.toNat = min (size.toNat - off.toNat) 4096)
    (hinside : offset.toNat + size.toNat ≤ file.bytes.length)
    (hreach : offset.toNat + size.toNat ≤ reachedSize) :
    file.readData (offset + off) readLen =
      .ok (readLen, (file.bytes.drop (offset + off).toNat).take readLen.toNat) := by
  have hfile := file.length_lt
  have hsum : (offset + off).toNat = offset.toNat + off.toNat := by
    rw [UInt32.toNat_add]
    exact Nat.mod_eq_of_lt (by omega)
  exact readData_of_le (by omega) fun _ => by omega

theorem loadSegmentLoop_total {offset size off : UInt32} {turns done : Nat}
    (h : Spaces s roots lk lu tfs ∅) (hroot : root ∈ roots)
    (hroom : va.toNat + size.toNat ≤ trapframe.toNat)
    (hturns : turns = (size.toNat - done + 4095) / 4096)
    (hoff : turns ≠ 0 → off.toNat = done)
    (hinside : turns ≠ 0 → offset.toNat + size.toNat ≤ file.bytes.length)
    (hreach : turns ≠ 0 → offset.toNat + size.toNat ≤ reachedSize)
    (hmapped : ∀ x : UInt64, va.toNat ≤ x.toNat → x.toNat < va.toNat + size.toNat →
      (userByte s.mem root x).isSome) :
    ∃ s', loadSegmentLoop file offset root va size turns off s = .ok (0, s') := by
  induction turns generalizing s off done with
  | zero => exact ⟨s, rfl⟩
  | succ turns ih =>
      obtain rfl := hoff (Nat.succ_ne_zero turns)
      have hroom' := hinside (Nat.succ_ne_zero turns)
      have hreach' := hreach (Nat.succ_ne_zero turns)
      have hlt : off.toNat < size.toNat := by omega
      have hfile := file.length_lt
      have htf := trapframe_toNat
      have hvaOff : (va + off.toUInt64).toNat = va.toNat + off.toNat := by
        rw [UInt64.toNat_add, UInt32.toNat_toUInt64]
        exact Nat.mod_eq_of_lt (by omega)
      have hmax : va + off.toUInt64 < vaMax := by
        rw [UInt64.lt_iff_toNat_lt, hvaOff, vaMax_toNat]
        omega
      have hsome := hmapped (va + off.toUInt64) (by omega) (by omega)
      unfold userByte at hsome
      rw [Option.isSome_map] at hsome
      obtain ⟨page, hframe⟩ := Option.isSome_iff_exists.mp hsome
      obtain ⟨t, hleaf, _, _, hpa⟩ := leaf_of_userFrame hframe
      have hin := h.frames.userFrame_in hroot hmax hframe
      have hload : s.mem.load64 (entryAddr t (vpn (va + off.toUInt64) 0)) =
          entry s.mem t (vpn (va + off.toUInt64) 0) := rfl
      have hreadLen := readLen_toNat hlt
      have hget := vmGetpte_reads (UInt64.le_of_lt hmax) (h.frames.tables.nonzero root hroot) s
      rw [hleaf] at hget
      have hnonzero : pteToPa (entry s.mem t (vpn (va + off.toUInt64) 0)) ≠ 0 := by
        rw [hpa]
        exact h.frames.nonzero page hin
      rw [loadSegmentLoop, Exec.bind_of_ok hget]
      dsimp only [Option.map_some]
      rw [readMem_bind, hload]
      unfold massert
      rw [Exec.require_of_true hnonzero, pure_bind, hpa]
      generalize (if size - off < 4096 then size - off else 4096) = readLen at hreadLen ⊢
      rw [Exec.bind_of_ok (inodeReadData_of_ok (readData_turn hlt hreadLen hroom' hreach') s),
        updateMem_bind, if_neg (not_not.mpr rfl)]
      have hlength : ((file.bytes.drop (offset + off).toNat).take readLen.toNat).length ≤ 4096 :=
        (List.length_take_le _ _).trans (by omega)
      have honly := onlyPage_write page s.mem 0 _
        (buffer ((file.bytes.drop (offset + off).toNat).take readLen.toNat))
        (show 0 + _ ≤ 4096 from (Nat.zero_add _).le.trans hlength)
      obtain ⟨h₁, _⟩ := h.write_user hroot hmax hframe honly
      have hrest : turns = (size.toNat - (off.toNat + 4096) + 4095) / 4096 := by omega
      refine ih h₁ hrest ?_ (fun _ => hroom') (fun _ => hreach') ?_
      · intro hne
        rw [UInt32.toNat_add]
        exact Nat.mod_eq_of_lt (show off.toNat + 4096 < 2 ^ 32 by omega)
      · intro x hlow hhigh
        have hx : x < vaMax := by
          rw [UInt64.lt_iff_toNat_lt, vaMax_toNat]
          omega
        have hbyte := write_user_bytes h hroot hmax hframe honly hx
        rw [MemState.mem_setMem]
        refine (congrArg Option.isSome hbyte).trans ?_
        split
        · rfl
        · exact hmapped x hlow hhigh

theorem loadSegment_total {offset size : UInt32} (h : Spaces s roots lk lu tfs ∅)
    (hroot : root ∈ roots) (haligned : va % pgsize = 0)
    (hroom : va.toNat + size.toNat ≤ trapframe.toNat)
    (hinside : size.toNat ≠ 0 → offset.toNat + size.toNat ≤ file.bytes.length)
    (hreach : size.toNat ≠ 0 → offset.toNat + size.toNat ≤ reachedSize)
    (hmapped : ∀ x : UInt64, va.toNat ≤ x.toNat → x.toNat < va.toNat + size.toNat →
      (userByte s.mem root x).isSome) :
    ∃ s', loadSegment file offset root va size s = .ok (0, s') := by
  have hturns : (size.toNat + 4095) / 4096 = (size.toNat - 0 + 4095) / 4096 := rfl
  obtain ⟨s', hloop⟩ : ∃ s', loadSegmentLoop file offset root va size
      ((size.toNat + 4095) / 4096) 0 s = .ok (0, s') :=
    loadSegmentLoop_total h hroot hroom hturns (fun _ => rfl) (fun hne => hinside (by omega))
      (fun hne => hreach (by omega)) hmapped
  refine ⟨s', ?_⟩
  unfold loadSegment massert
  rw [Exec.require_of_true haligned, pure_bind]
  exact hloop

/-! The heap. -/

theorem pageEnd_mono {a b : Nat} (h : a ≤ b) : pageEnd a ≤ pageEnd b :=
  Nat.mul_le_mul_right 4096 (Nat.div_le_div_right (Nat.add_le_add_right h 4095))

/-- The pages of a growth that begins at the end of a page. -/
theorem HeapAt.grow {top len : Nat} (h : HeapAt m root heapTop.toNat)
    (hsame : len ≠ 0 → heapTop.toNat % 4096 = 0) (htop : top = heapTop.toNat + len)
    (hbelow : top ≤ trapframe.toNat)
    (hbytes : ∀ x, x < vaMax → userByte m' root x =
      if InTurns heapTop ((len + 4095) / 4096) x then some 0 else userByte m root x) :
    HeapAt m' root top := by
  have htf := trapframe_toNat
  have hmax := vaMax_toNat
  refine ⟨?_, ?_⟩
  · intro x hlow hhigh
    rw [hbytes x (by rw [UInt64.lt_iff_toNat_lt]; omega)]
    by_cases hin : InTurns heapTop ((len + 4095) / 4096) x
    · rw [if_pos hin]
      rfl
    · rw [if_neg hin]
      refine h.mapped x hlow ?_
      unfold InTurns at hin
      omega
  · intro x hlow hhigh
    rw [hbytes x (lt_vaMax_of_lt hhigh), if_neg]
    · exact h.free x ((pageEnd_mono (by omega)).trans hlow) hhigh
    · unfold pageEnd at hlow
      unfold InTurns
      omega

theorem uvmHeapGrow_returns {flags : UInt64} {len : UInt32}
    (h : Spaces s roots lk lu tfs ∅) (hroot : root ∈ roots)
    (hflags : (flags ||| pteU).toNat < 1024) (hend : s.userRegion.end_ ≤ allocEnd)
    (hva : heapTop.toNat % 4096 = 0) (hheap : HeapAt s.mem root heapTop.toNat) :
    Returns OutOfMemory (uvmHeapGrow root heapTop len flags) s fun newHeapTop s' =>
      newHeapTop.toNat = heapTop.toNat + len.toNat ∧ newHeapTop.toNat ≤ trapframe.toNat ∧
        Builds roots root tfs s s' ∧ HeapAt s'.mem root newHeapTop.toNat := by
  have htop := hheap.top_le h hroot hend
  have hstart : userVmemStart.toNat = 4096 := rfl
  have htf := trapframe_toNat
  have hle : heapTop.toNat ≤ trapframe.toNat := by
    rw [htf]
    omega
  refine .intro ?_ ?_
  · intro reason hrun
    unfold uvmHeapGrow at hrun
    rcases Exec.bind_eq_error.mp hrun with hloop | ⟨_, _, _, hrun⟩
    · exact heapGrowLoop_stops h hroot hflags hend hva hheap hloop
    · cases hrun
  · intro new s' hrun
    obtain ⟨hbuilds, hnew, hgrown, hbytes⟩ := uvmHeapGrow_spec h hroot hflags hle hrun
    have hbelow : new.toNat ≤ trapframe.toNat := by
      by_cases hzero : len.toNat = 0
      · omega
      · have hroom := (hgrown hzero).2
        omega
    exact ⟨hnew, hbelow, hbuilds, hheap.grow (fun _ => hva) hnew hbelow hbytes⟩

/-! What is behind the addresses of a segment. -/

theorem Loadable.sizes_toNat (h : Loadable file ph) :
    ph.fileSize.toUInt32.toNat = ph.fileSize.toNat ∧
      (ph.fileSize.toNat ≠ 0 → ph.off.toUInt32.toNat = ph.off.toNat) := by
  have hsizes := h.sizes
  have hlength := h.length
  have hfile := file.length_lt
  refine ⟨?_, fun hne => ?_⟩
  · rw [UInt64.toNat_toUInt32]
    exact Nat.mod_eq_of_lt (by omega)
  · have hinside := h.inside hne
    rw [UInt64.toNat_toUInt32]
    exact Nat.mod_eq_of_lt (by omega)

theorem Loadable.segmentReached_iff (h : Loadable file ph) :
    SegmentReached ph ↔
      (ph.fileSize.toNat ≠ 0 → ph.off.toNat + ph.fileSize.toNat ≤ reachedSize) := by
  obtain ⟨hsize, hoff⟩ := h.sizes_toNat
  unfold SegmentReached
  rw [hsize]
  constructor
  · intro hreach hne
    rw [← hoff hne]
    exact hreach (Nat.pos_of_ne_zero hne)
  · intro hreach hpos
    rw [hoff (Nat.ne_of_gt hpos)]
    exact hreach (Nat.ne_of_gt hpos)

/-- Addresses below a segment are as before, from the end of a page on. -/
theorem segmentByte_below {before : Option UInt8} {x : UInt64}
    (hbehind : heapTop.toNat ≤ ph.va.toNat) (haligned : heapTop.toNat % 4096 = 0)
    (hx : x.toNat < heapTop.toNat) :
    SegmentByte file ph heapTop newHeapTop before x = before := by
  have hturns : ¬ InTurns heapTop ((newHeapTop.toNat - heapTop.toNat + 4095) / 4096) x := by
    unfold InTurns
    omega
  unfold SegmentByte LoadedByte
  rw [if_neg (by omega), if_neg hturns]

theorem segmentByte_isSome {before : Option UInt8} {x : UInt64}
    (haligned : heapTop.toNat % 4096 = 0) (hx : heapTop.toNat ≤ x.toNat)
    (hnew : x.toNat < newHeapTop.toNat) :
    (SegmentByte file ph heapTop newHeapTop before x).isSome := by
  have hturns : InTurns heapTop ((newHeapTop.toNat - heapTop.toNat + 4095) / 4096) x := by
    unfold InTurns
    omega
  unfold SegmentByte LoadedByte
  rw [if_pos hturns]
  split
  · rfl
  · rfl

theorem segment_address {i : Nat} (hroom : ph.end_ ≤ trapframe.toNat)
    (hi : i < ph.memSize.toNat) :
    (ph.va + UInt64.ofNat i).toNat = ph.va.toNat + i ∧ ph.va + UInt64.ofNat i < vaMax := by
  have htf := trapframe_toNat
  have haddr : (ph.va + UInt64.ofNat i).toNat = ph.va.toNat + i := by
    unfold ProgramHeader.end_ at hroom
    rw [UInt64.toNat_add, UInt64.toNat_ofNat_of_lt' (show i < 2 ^ 64 by omega)]
    exact Nat.mod_eq_of_lt (by omega)
  refine ⟨haddr, ?_⟩
  unfold ProgramHeader.end_ at hroom
  rw [UInt64.lt_iff_toNat_lt, haddr, vaMax_toNat]
  omega

theorem Loadable.loaded (h : Loadable file ph) {before read : UInt64 → Option UInt8}
    (hbehind : heapTop.toNat ≤ ph.va.toNat) (haligned : heapTop.toNat % 4096 = 0)
    (hends : newHeapTop.toNat = ph.end_) (hbelow : newHeapTop.toNat ≤ trapframe.toNat)
    (hbytes : ∀ x, x < vaMax →
      read x = SegmentByte file ph heapTop newHeapTop (before x) x) :
    SegmentLoaded file ph read := by
  obtain ⟨hsize, hoff⟩ := h.sizes_toNat
  have hsizes := h.sizes
  have hend : ph.end_ = ph.va.toNat + ph.memSize.toNat := rfl
  have hroom : ph.end_ ≤ trapframe.toNat := hends ▸ hbelow
  refine ⟨?_, ?_⟩
  · intro i hi
    obtain ⟨hva, hmax⟩ := segment_address hroom (show i < ph.memSize.toNat by omega)
    have hinside := h.inside (by omega)
    rw [hbytes _ hmax]
    unfold SegmentByte LoadedByte
    rw [hva, hsize, hoff (by omega), if_pos (by omega), Nat.add_sub_cancel_left,
      List.getD_eq_getElem?_getD, List.getElem?_eq_getElem (by omega)]
    rfl
  · intro i hi hi'
    obtain ⟨hva, hmax⟩ := segment_address hroom hi'
    have hturns : InTurns heapTop ((newHeapTop.toNat - heapTop.toNat + 4095) / 4096)
        (ph.va + UInt64.ofNat i) := by
      unfold InTurns
      omega
    rw [hbytes _ hmax]
    unfold SegmentByte LoadedByte
    rw [hva, hsize, if_neg (by omega), if_pos hturns]

theorem SegmentLoaded.congr {read read' : UInt64 → Option UInt8}
    (h : SegmentLoaded file ph read) (hload : Loadable file ph)
    (hroom : ph.end_ ≤ trapframe.toNat)
    (hread : ∀ x, x < vaMax → x.toNat < ph.end_ → read' x = read x) :
    SegmentLoaded file ph read' := by
  have hsizes := hload.sizes
  have hend : ph.end_ = ph.va.toNat + ph.memSize.toNat := rfl
  have heq : ∀ i, i < ph.memSize.toNat →
      read' (ph.va + UInt64.ofNat i) = read (ph.va + UInt64.ofNat i) := by
    intro i hi
    obtain ⟨hva, hmax⟩ := segment_address hroom hi
    exact hread _ hmax (by omega)
  refine ⟨?_, ?_⟩
  · intro i hi
    rw [heq i (by omega)]
    exact h.data i hi
  · intro i hi hi'
    rw [heq i hi']
    exact h.zeros i hi hi'

theorem HeapAt.segment (h : HeapAt m root heapTop.toNat) (hload : Loadable file ph)
    (hbehind : heapTop.toNat ≤ ph.va.toNat) (haligned : heapTop.toNat % 4096 = 0)
    (hends : newHeapTop.toNat = ph.end_) (hbelow : newHeapTop.toNat ≤ trapframe.toNat)
    (hbytes : ∀ x, x < vaMax → userByte m' root x =
      SegmentByte file ph heapTop newHeapTop (userByte m root x) x) :
    HeapAt m' root newHeapTop.toNat := by
  have hsize := hload.sizes_toNat.1
  have hsizes := hload.sizes
  have hend : ph.end_ = ph.va.toNat + ph.memSize.toNat := rfl
  have htf := trapframe_toNat
  refine ⟨?_, ?_⟩
  · intro x hlow hhigh
    rw [hbytes x (by rw [UInt64.lt_iff_toNat_lt, vaMax_toNat]; omega)]
    by_cases hx : x.toNat < heapTop.toNat
    · rw [segmentByte_below hbehind haligned hx]
      exact h.mapped x hlow hx
    · exact segmentByte_isSome haligned (not_lt.mp hx) hhigh
  · intro x hlow hhigh
    have hpage := (pageEnd_mono (show heapTop.toNat ≤ newHeapTop.toNat by omega)).trans hlow
    unfold pageEnd at hlow
    have hturns : ¬ InTurns heapTop ((newHeapTop.toNat - heapTop.toNat + 4095) / 4096) x := by
      unfold InTurns
      omega
    rw [hbytes x (lt_vaMax_of_lt hhigh)]
    unfold SegmentByte LoadedByte
    rw [hsize, if_neg (by omega), if_neg hturns]
    exact h.free x hpage hhigh

/-! The loop over the headers. -/

theorem loadProgram_returns (h : Spaces s roots lk lu tfs ∅) (hroot : root ∈ roots)
    (hentries : SoundEntries s.mem root) (hend : s.userRegion.end_ ≤ allocEnd)
    (hheap : HeapAt s.mem root heapTop.toNat) (hload : Loadable file ph)
    (hreach : SegmentReached ph) (htype : ph.type = elfProgLoad)
    (hbehind : heapTop.toNat ≤ ph.va.toNat) (haligned : heapTop.toNat % 4096 = 0)
    (hlength : ph.end_ < heapTop.toNat + 2 ^ 32) :
    Returns OutOfMemory (loadProgram file root ph heapTop) s fun result s' =>
      ∃ newHeapTop, result = some newHeapTop ∧ newHeapTop.toNat = ph.end_ ∧
        newHeapTop.toNat ≤ trapframe.toNat ∧ Builds roots root tfs s s' ∧
        ∀ x, x < vaMax → userByte s'.mem root x =
          SegmentByte file ph heapTop newHeapTop (userByte s.mem root x) x := by
  have htop := hheap.top_le h hroot hend
  have hstart : userVmemStart.toNat = 4096 := rfl
  have htf := trapframe_toNat
  obtain ⟨hsize, hoff⟩ := hload.sizes_toNat
  have hsizes := hload.sizes
  have hendNat : ph.end_ = ph.va.toNat + ph.memSize.toNat := rfl
  have hfileEnd : (ph.va + ph.memSize).toNat = ph.end_ := by
    rw [UInt64.toNat_add, hendNat]
    exact Nat.mod_eq_of_lt (by omega)
  have hva : ph.va % pgsize = 0 := by
    apply UInt64.toNat_inj.mp
    rw [UInt64.toNat_mod]
    exact hload.aligned
  have hlen : (ph.va + ph.memSize - heapTop).toUInt32.toNat = ph.end_ - heapTop.toNat := by
    rw [UInt64.toNat_toUInt32, UInt64.toNat_sub_of_le _ _
      (UInt64.le_iff_toNat_le.mpr (by omega)), hfileEnd]
    exact Nat.mod_eq_of_lt (by omega)
  have hreturns : Returns OutOfMemory (loadProgram file root ph heapTop) s fun result _ =>
      ∃ newHeapTop, result = some newHeapTop ∧ newHeapTop.toNat = ph.end_ := by
    unfold loadProgram
    rw [if_neg (not_not.mpr htype), if_neg (by rw [UInt64.lt_iff_toNat_lt]; omega),
      if_neg (by rw [UInt64.lt_iff_toNat_lt, hfileEnd]; omega), if_neg (not_not.mpr hva)]
    refine (uvmHeapGrow_returns h hroot (by decide) hend haligned hheap).bind ?_
    rintro new s₁ ⟨hnew, hbelow, hbuilds, hheap₁⟩
    rw [hlen] at hnew
    have hnewEnd : new.toNat = ph.end_ := by omega
    have hsame : new = ph.va + ph.memSize := UInt64.toNat_inj.mp (by rw [hfileEnd, hnewEnd])
    obtain ⟨lk₁, lu₁, h₁⟩ := hbuilds.spaces
    have hinside : ph.fileSize.toUInt32.toNat ≠ 0 →
        ph.off.toUInt32.toNat + ph.fileSize.toUInt32.toNat ≤ file.bytes.length := by
      intro hne
      rw [hsize] at hne ⊢
      rw [hoff hne]
      exact hload.inside hne
    obtain ⟨s₂, hsegment⟩ := loadSegment_total h₁ hroot hva (by omega) hinside
      (fun hne => hreach (Nat.pos_of_ne_zero hne))
      fun x hlow hhigh => hheap₁.mapped x (hload.start.trans hlow) (by omega)
    rw [if_neg (not_not.mpr hsame)]
    exact .bind_of_ok hsegment (.of_ok rfl ⟨new, rfl, hnewEnd⟩)
  refine hreturns.run.mono ?_
  rintro result s' ⟨hrun, new, rfl, hnew⟩
  obtain ⟨hbuilds, hfits, hbytes⟩ := loadProgram_spec h hroot hentries
    (show heapTop.toNat ≤ trapframe.toNat by rw [htf]; omega) htype hrun
  exact ⟨new, rfl, hnew, hfits.below, hbuilds, hbytes hreach⟩

theorem loadHeaders_returns (h : Spaces s roots lk lu tfs ∅) (hroot : root ∈ roots)
    (hentries : SoundEntries s.mem root) (hend : s.userRegion.end_ ≤ allocEnd)
    (hheap : HeapAt s.mem root heapTop.toNat) (hload : ∀ ph ∈ phs, Loadable file ph)
    (hreach : ∀ ph ∈ phs, SegmentReached ph)
    (htypes : ∀ ph ∈ phs, ph.type = elfProgLoad) (horder : InOrder phs)
    (hbehind : ∀ ph ∈ phs, heapTop.toNat ≤ ph.va.toNat) (hjoined : Joined heapTop.toNat phs) :
    Returns OutOfMemory (loadHeaders file root phs heapTop) s fun result s' =>
      ∃ newHeapTop, result = some newHeapTop ∧
        newHeapTop.toNat = lastEnd heapTop.toNat phs ∧ Builds roots root tfs s s' ∧
        HeapAt s'.mem root newHeapTop.toNat ∧
        (∀ x, x < vaMax → x.toNat < heapTop.toNat →
          userByte s'.mem root x = userByte s.mem root x) ∧
        ∀ ph ∈ phs, SegmentLoaded file ph (userByte s'.mem root) := by
  induction phs generalizing heapTop s lk lu with
  | nil =>
      exact .of_ok rfl ⟨heapTop, rfl, rfl, .refl h, hheap, fun _ _ _ => rfl,
        fun ph hmem => absurd hmem List.not_mem_nil⟩
  | cons ph rest ih =>
      obtain ⟨haligned, hlength, hjoined'⟩ := hjoined
      obtain ⟨hfirst, horder'⟩ := List.pairwise_cons.mp horder
      have hself : ph ∈ ph :: rest := List.mem_cons_self
      have hlow := hbehind ph hself
      have hloadable := hload ph hself
      rw [loadHeaders]
      refine (loadProgram_returns h hroot hentries hend hheap hloadable (hreach ph hself)
        (htypes ph hself) hlow haligned hlength).bind ?_
      rintro _ s₁ ⟨next, rfl, hends, hbelow, hbuilds, hbytes⟩
      obtain ⟨lk₁, lu₁, h₁⟩ := hbuilds.spaces
      have hheap₁ := hheap.segment hloadable hlow haligned hends hbelow hbytes
      have hloaded := hloadable.loaded hlow haligned hends hbelow hbytes
      rw [← hends] at hjoined'
      refine (ih h₁ (hbuilds.entries hentries) (end_of_setting hend hbuilds.setting) hheap₁
        (fun ph' hmem => hload ph' (List.mem_cons_of_mem _ hmem))
        (fun ph' hmem => hreach ph' (List.mem_cons_of_mem _ hmem))
        (fun ph' hmem => htypes ph' (List.mem_cons_of_mem _ hmem)) horder'
        (fun ph' hmem => hends ▸ (hfirst ph' hmem).2) hjoined').mono ?_
      rintro _ s₂ ⟨top, rfl, htop, hbuilds', hheap₂, hkept, hrest⟩
      have hgrows : ph.end_ = ph.va.toNat + ph.memSize.toNat := rfl
      refine ⟨top, rfl, ?_, hbuilds.trans hbuilds', hheap₂, ?_, ?_⟩
      · rw [htop, hends]
        rfl
      · intro x hx hbelow'
        rw [hkept x hx (by omega), hbytes x hx, segmentByte_below hlow haligned hbelow']
      · intro ph' hmem
        rcases List.mem_cons.mp hmem with rfl | hmem
        · exact hloaded.congr hloadable (hends ▸ hbelow) (hends ▸ hkept)
        · exact hrest ph' hmem

theorem loadImage_returns (h : Spaces s roots lk lu tfs ∅) (hroot : root ∈ roots)
    (hentries : SoundEntries s.mem root) (hend : s.userRegion.end_ ≤ allocEnd)
    (hnone : ∀ x, x < vaMax → userByte s.mem root x = none) (hfile : WellFormed file)
    (hreach : InReach file) (hjoined : Joined userVmemStart.toNat file.segments) :
    Returns OutOfMemory (loadImage file root) s fun result s' =>
      ∃ top, result = some (file.header.entry, top) ∧
        top.toNat = lastEnd userVmemStart.toNat file.segments ∧
        Builds roots root tfs s s' ∧ HeapAt s'.mem root top.toNat ∧
        ∀ ph ∈ file.segments, SegmentLoaded file ph (userByte s'.mem root) := by
  have hheap : HeapAt s.mem root userVmemStart.toNat :=
    ⟨fun x hlow hhigh => absurd hhigh (not_lt.mpr hlow),
      fun x _ hhigh => hnone x (lt_vaMax_of_lt hhigh)⟩
  refine .congr (loadImage_eq hfile hreach.table s) ?_
  refine (loadHeaders_returns h hroot hentries hend hheap hfile.loadable
    (fun ph hmem => (hfile.loadable ph hmem).segmentReached_iff.mpr (hreach.data ph hmem))
    (fun ph hmem => of_decide_eq_true (List.mem_filter.mp hmem).2) hfile.order
    (fun ph hmem => (hfile.loadable ph hmem).start) hjoined).bind ?_
  rintro _ s' ⟨top, rfl, htop, hbuilds, hheap', _, hloaded⟩
  exact .of_ok rfl ⟨top, rfl, htop, hbuilds, hheap', hloaded⟩

/-! What is behind `addrs[]` does not matter to a file in reach. -/

section

variable {behind : (offset len : Nat) → Except String (Nat → UInt8)}

theorem loadSegmentLoop_over {offset size off : UInt32} {turns done : Nat}
    (hturns : turns = (size.toNat - done + 4095) / 4096) (hoff : turns ≠ 0 → off.toNat = done)
    (hinside : turns ≠ 0 → offset.toNat + size.toNat ≤ file.bytes.length)
    (hreach : turns ≠ 0 → offset.toNat + size.toNat ≤ reachedSize) :
    loadSegmentLoop (file.over behind) offset root va size turns off =
      loadSegmentLoop file offset root va size turns off := by
  induction turns generalizing off done with
  | zero => rfl
  | succ turns ih =>
      obtain rfl := hoff (Nat.succ_ne_zero turns)
      have hroom := hinside (Nat.succ_ne_zero turns)
      have hreach' := hreach (Nat.succ_ne_zero turns)
      have hlt : off.toNat < size.toNat := by omega
      have hfile := file.length_lt
      have hnext : turns ≠ 0 → (off + 4096).toNat = off.toNat + 4096 := by
        intro hne
        rw [UInt32.toNat_add]
        exact Nat.mod_eq_of_lt (show off.toNat + 4096 < 2 ^ 32 by omega)
      have hreadLen := readLen_toNat hlt
      have hread : inodeReadData (file.over behind) (offset + off)
          (if size - off < 4096 then size - off else 4096) =
            inodeReadData file (offset + off)
              (if size - off < 4096 then size - off else 4096) := by
        unfold inodeReadData
        rw [readData_turn hlt hreadLen hroom hreach',
          @readData_turn (file.over behind) _ _ _ _ hlt hreadLen hroom hreach']
        rfl
      rw [loadSegmentLoop, loadSegmentLoop]
      dsimp only
      rw [hread, ih (by omega) hnext (fun _ => hroom) fun _ => hreach']

theorem loadProgram_over (hload : Loadable file ph) (hreach : SegmentReached ph) :
    loadProgram (file.over behind) root ph heapTop = loadProgram file root ph heapTop := by
  obtain ⟨hsize, hoff⟩ := hload.sizes_toNat
  have hinside := hload.inside
  have hturns : (ph.fileSize.toUInt32.toNat + 4095) / 4096 =
      (ph.fileSize.toUInt32.toNat - 0 + 4095) / 4096 := rfl
  unfold loadProgram loadSegment
  rw [loadSegmentLoop_over hturns (fun _ => rfl)]
  · intro hne
    rw [hsize, hoff (by omega)]
    exact hinside (by omega)
  · intro hne
    exact hreach (by omega)

theorem loadHeaders_over (hload : ∀ ph ∈ phs, Loadable file ph)
    (hreach : ∀ ph ∈ phs, SegmentReached ph) :
    loadHeaders (file.over behind) root phs heapTop = loadHeaders file root phs heapTop := by
  induction phs generalizing heapTop with
  | nil => rfl
  | cons ph rest ih =>
      rw [loadHeaders, loadHeaders,
        loadProgram_over (hload ph List.mem_cons_self) (hreach ph List.mem_cons_self)]
      refine bind_congr fun next => ?_
      cases next with
      | none => rfl
      | some next =>
          exact ih (fun ph' hmem => hload ph' (List.mem_cons_of_mem _ hmem))
            fun ph' hmem => hreach ph' (List.mem_cons_of_mem _ hmem)

theorem loadImage_over (hfile : WellFormed file) (hreach : InReach file) :
    loadImage (file.over behind) root = loadImage file root := by
  have hsegments : ∀ ph ∈ file.segments, SegmentReached ph := fun ph hmem =>
    (hfile.loadable ph hmem).segmentReached_iff.mpr (hreach.data ph hmem)
  funext s
  rw [loadImage_eq hfile hreach.table s]
  refine (loadImage_eq (hfile.over behind) hreach.table s).trans ?_
  exact Exec.bind_congr (congrFun (loadHeaders_over hfile.loadable hsegments) s)

end

theorem le_lastEnd {top : Nat} (horder : InOrder phs)
    (hbehind : ∀ ph ∈ phs, top ≤ ph.va.toNat) :
    top ≤ lastEnd top phs ∧ ∀ ph ∈ phs, ph.end_ ≤ lastEnd top phs := by
  induction phs generalizing top with
  | nil => exact ⟨le_refl _, fun ph hmem => absurd hmem List.not_mem_nil⟩
  | cons first rest ih =>
      obtain ⟨hfirst, horder'⟩ := List.pairwise_cons.mp horder
      obtain ⟨hself, hrest⟩ := ih horder' fun ph hmem => (hfirst ph hmem).2
      have hlow := hbehind first List.mem_cons_self
      have hgrows : first.end_ = first.va.toNat + first.memSize.toNat := rfl
      refine ⟨Nat.le_trans (by omega) hself, ?_⟩
      intro ph hmem
      rcases List.mem_cons.mp hmem with rfl | hmem
      · exact hself
      · exact hrest ph hmem

end UnoOS.Uvm
