import UnoOS.Uvm.NewImage

namespace UnoOS.Uvm

open UnoOS.Lib
open UnoOS.Fs (Stop)
open UnoOS.Mem

/-! What the segments of a file leave behind the addresses of a table. -/

variable {s s' : MemState} {roots : Set UInt64} {lk lu : List UInt64}
  {tfs : Set UInt64} {root va : UInt64} {file : ExecFile}

/-! `inode_read_data` -/

theorem ExecFile.length_lt (file : ExecFile) : file.bytes.length < 2 ^ 32 :=
  lt_of_le_of_lt file.fits (by decide)

theorem ExecFile.size_toNat (file : ExecFile) :
    (UInt32.ofNat file.bytes.length).toNat = file.bytes.length :=
  UInt32.toNat_ofNat_of_lt' file.length_lt

theorem inodeReadData_of_ok {offset len : UInt32} {data : UInt32 × List UInt8}
    (h : file.readData offset len = .ok data) (s : MemState) :
    inodeReadData file offset len s = .ok (data, s) := by
  unfold inodeReadData
  rw [h]
  rfl

theorem inodeReadData_eq_ok {offset len : UInt32} {data : UInt32 × List UInt8} :
    inodeReadData file offset len s = .ok (data, s') ↔
      file.readData offset len = .ok data ∧ s' = s := by
  unfold inodeReadData
  cases file.readData offset len with
  | error message => exact iff_of_false (fun h => nomatch h) fun h => nomatch h.1
  | ok found =>
      rw [Except.ok.injEq]
      exact ⟨fun h => ⟨congrArg Prod.fst (Except.ok.inj h), (congrArg Prod.snd
        (Except.ok.inj h)).symm⟩, fun ⟨hdata, hs⟩ => by rw [hdata, hs]; rfl⟩

theorem inodeReadData_bind_eq_ok {α : Type} {offset len : UInt32}
    {f : UInt32 × List UInt8 → MemM α} {result : α × MemState} :
    (inodeReadData file offset len >>= f) s = .ok result ↔
      ∃ data, file.readData offset len = .ok data ∧ f data s = .ok result := by
  constructor
  · intro h
    obtain ⟨data, s₁, hread, hrest⟩ := Exec.bind_eq_ok.mp h
    obtain ⟨hdata, rfl⟩ := inodeReadData_eq_ok.mp hread
    exact ⟨data, hdata, hrest⟩
  · rintro ⟨data, hdata, hrest⟩
    rw [Exec.bind_of_ok (inodeReadData_of_ok hdata s)]
    exact hrest

/-- No read behind `addrs[]` returns. -/
def ExecFile.Blind (file : ExecFile) : Prop :=
  ∀ offset len, ∃ message, file.behind offset len = .error message

section

variable {offset len : UInt32} {data : UInt32 × List UInt8}

theorem readData_eq_ok (h : file.readData offset len = .ok data) :
    data = (0xFFFFFFFF, []) ∨
      (¬(UInt32.ofNat file.bytes.length < offset ∨ offset + len < offset) ∧
        data.1 = (if UInt32.ofNat file.bytes.length < len + offset then
          UInt32.ofNat file.bytes.length - offset else len) ∧
        offset.toNat + data.1.toNat ≤ file.bytes.length ∧
        data.2.length = data.1.toNat ∧
        (data.1.toNat = 0 ∨ offset.toNat + data.1.toNat ≤ reachedSize →
          data.2 = (file.bytes.drop offset.toNat).take data.1.toNat) ∧
        (file.Blind → data.1.toNat = 0 ∨ offset.toNat + data.1.toNat ≤ reachedSize)) := by
  have hsize := file.size_toNat
  unfold ExecFile.readData at h
  dsimp only at h
  split at h
  · exact .inl (Except.ok.inj h).symm
  next hguard =>
  right
  refine ⟨hguard, ?_⟩
  rw [not_or, UInt32.not_lt, UInt32.not_lt, UInt32.le_iff_toNat_le,
    UInt32.le_iff_toNat_le, UInt32.toNat_add] at hguard
  have htotal : offset.toNat + (if UInt32.ofNat file.bytes.length < len + offset then
      UInt32.ofNat file.bytes.length - offset else len).toNat ≤ file.bytes.length := by
    have hlen := len.toNat_lt
    have hoff := offset.toNat_lt
    split
    · rw [UInt32.toNat_sub]
      omega
    · next hge =>
      rw [UInt32.not_lt, UInt32.le_iff_toNat_le, UInt32.toNat_add] at hge
      omega
  generalize (if UInt32.ofNat file.bytes.length < len + offset then
    UInt32.ofNat file.bytes.length - offset else len) = total at *
  have hzero : total = 0 ↔ total.toNat = 0 := UInt32.toNat_inj.symm
  split at h
  · next hreach =>
    rw [hzero] at hreach
    cases h
    refine ⟨rfl, htotal, ?_, fun _ => rfl, fun _ => hreach⟩
    have hroom : total.toNat ≤ file.bytes.length - offset.toNat := Nat.le_sub_of_add_le' htotal
    rw [List.length_take, List.length_drop]
    exact Nat.min_eq_left hroom
  · next hreach =>
    rw [hzero] at hreach
    cases hbehind : file.behind offset.toNat total.toNat with
    | error message =>
        rw [hbehind] at h
        cases h
    | ok found =>
        rw [hbehind] at h
        cases h
        refine ⟨rfl, htotal, ?_, fun h => absurd h hreach, fun hblind => ?_⟩
        · rw [List.length_map, List.length_range]
        · obtain ⟨message, hmessage⟩ := hblind offset.toNat total.toNat
          rw [hmessage] at hbehind
          cases hbehind

/-- No more bytes are stored than there is room for. -/
theorem readData_length_le (h : file.readData offset len = .ok data) :
    data.2.length ≤ len.toNat := by
  have hsize := file.size_toNat
  have hlen := len.toNat_lt
  have hoff := offset.toNat_lt
  rcases readData_eq_ok h with rfl | ⟨hguard, hcount, hinside, hlength, _⟩
  · exact Nat.zero_le _
  rw [not_or, UInt32.not_lt, UInt32.not_lt, UInt32.le_iff_toNat_le,
    UInt32.le_iff_toNat_le, UInt32.toNat_add] at hguard
  rw [hlength]
  split at hcount
  · next hlt =>
    rw [UInt32.lt_iff_toNat_lt, UInt32.toNat_add] at hlt
    omega
  · rw [hcount]

theorem readData_full (hlen : len.toNat ≤ 4096) (h : file.readData offset len = .ok data)
    (hfull : data.1 = len) :
    offset.toNat + len.toNat ≤ file.bytes.length ∧ data.2.length = len.toNat ∧
      (offset.toNat + len.toNat ≤ reachedSize →
        data.2 = (file.bytes.drop offset.toNat).take len.toNat) ∧
      (file.Blind → 0 < len.toNat → offset.toNat + len.toNat ≤ reachedSize) := by
  rcases readData_eq_ok h with rfl | ⟨_, _, hinside, hlength, hbytes, hblind⟩
  · rw [← hfull] at hlen
    exact absurd hlen (by decide)
  · rw [hfull] at hinside hlength hbytes hblind
    exact ⟨hinside, hlength, fun hreach => hbytes (.inr hreach),
      fun hb hpos => (hblind hb).resolve_left (Nat.ne_of_gt hpos)⟩

/-- A read of blocks that `addrs[]` leads to gets all it asks for. -/
theorem readData_of_le (hroom : offset.toNat + len.toNat ≤ file.bytes.length)
    (hreach : 0 < len.toNat → offset.toNat + len.toNat ≤ reachedSize) :
    file.readData offset len =
      .ok (len, (file.bytes.drop offset.toNat).take len.toNat) := by
  have hsize := file.size_toNat
  have hlt := file.length_lt
  have hsum : (offset + len).toNat = offset.toNat + len.toNat := by
    rw [UInt32.toNat_add]
    exact Nat.mod_eq_of_lt (by omega)
  have hsum' : (len + offset).toNat = offset.toNat + len.toNat := by
    rw [UInt32.add_comm, hsum]
  have hguard : ¬(UInt32.ofNat file.bytes.length < offset ∨ offset + len < offset) := by
    rw [not_or, UInt32.not_lt, UInt32.not_lt, UInt32.le_iff_toNat_le, UInt32.le_iff_toNat_le,
      hsum]
    omega
  have hwhole : ¬UInt32.ofNat file.bytes.length < len + offset := by
    rw [UInt32.lt_iff_toNat_lt, hsum']
    omega
  have hfound : len = 0 ∨ offset.toNat + len.toNat ≤ reachedSize :=
    (Nat.eq_zero_or_pos len.toNat).imp (fun h => UInt32.toNat_inj.mp h) hreach
  unfold ExecFile.readData
  dsimp only
  rw [if_neg hguard, if_neg hwhole, if_pos hfound]

end

/-! `load_segment` -/

theorem readLen_toNat {size off : UInt32} (hoff : off.toNat < size.toNat) :
    (if size - off < 4096 then size - off else 4096).toNat =
      min (size.toNat - off.toNat) 4096 := by
  have hsub : (size - off).toNat = size.toNat - off.toNat :=
    UInt32.toNat_sub_of_le _ _ (UInt32.le_iff_toNat_le.mpr (by omega))
  have hpage : (4096 : UInt32).toNat = 4096 := rfl
  split
  · next hlt =>
    rw [UInt32.lt_iff_toNat_lt, hsub, hpage] at hlt
    omega
  · next hge =>
    rw [UInt32.lt_iff_toNat_lt, hsub, hpage] at hge
    omega

theorem loadSegment_page {off : UInt32} {t : UInt64}
    (h : Spaces s roots lk lu tfs ∅) (hroot : root ∈ roots)
    (hentries : SoundEntries s.mem root) (hva : va + off.toUInt64 < trapframe)
    (hleaf : leafTable s.mem root (va + off.toUInt64) = some t)
    (hnonzero : pteToPa (s.mem.load64 (entryAddr t (vpn (va + off.toUInt64) 0))) ≠ 0) :
    userFrame s.mem root (va + off.toUInt64) =
      some (pteToPa (s.mem.load64 (entryAddr t (vpn (va + off.toUInt64) 0)))) := by
  have hvalid : pteValid (entry s.mem t (vpn (va + off.toUInt64) 0)) := by
    rcases hentries t (leafTable_isTable rfl hleaf) (vpn (va + off.toUInt64) 0) with hzero | hvalid
    · rw [show s.mem.load64 (entryAddr t (vpn (va + off.toUInt64) 0)) = 0 from hzero] at hnonzero
      exact absurd (by decide) hnonzero
    · exact hvalid
  exact h.userFrame_of_entry hroot hva hleaf hvalid

theorem loadSegmentLoop_succ {offset size off readLen : UInt32} {turns : Nat} {result : Int}
    (h : Spaces s roots lk lu tfs ∅) (hroot : root ∈ roots)
    (hentries : SoundEntries s.mem root) (hva : va + off.toUInt64 < trapframe)
    (hreadLen : readLen = if size - off < 4096 then size - off else 4096)
    (hrun : loadSegmentLoop file offset root va size (turns + 1) off s = .ok (result, s')) :
    ∃ page data s₁, userFrame s.mem root (va + off.toUInt64) = some page ∧
      file.readData (offset + off) readLen = .ok data ∧
      s₁ = s.setMem (s.mem.write page.toNat data.2.length (buffer data.2)) ∧
      ((data.1 ≠ readLen ∧ result = -1 ∧ s' = s₁) ∨
        (data.1 = readLen ∧
          loadSegmentLoop file offset root va size turns (off + 4096) s₁ =
            .ok (result, s'))) := by
  rw [loadSegmentLoop, Exec.bind_eq_ok] at hrun
  obtain ⟨pte, s₀, hgetpte, hrun⟩ := hrun
  obtain ⟨_, rfl, rfl⟩ := vmGetpte_reads_eq_ok.mp hgetpte
  cases hleaf : leafTable s₀.mem root (va + off.toUInt64) with
  | none =>
      rw [hleaf] at hrun
      cases hrun
  | some t =>
      rw [hleaf] at hrun
      dsimp only [Option.map_some] at hrun
      rw [readMem_bind, massert_bind_eq_ok, ← hreadLen, inodeReadData_bind_eq_ok] at hrun
      obtain ⟨hnonzero, data, hdata, hrun⟩ := hrun
      rw [updateMem_bind] at hrun
      refine ⟨_, data, _, loadSegment_page h hroot hentries hva hleaf hnonzero, hdata, rfl, ?_⟩
      split at hrun
      · next hshort =>
        obtain ⟨hresult, hs'⟩ := Prod.mk.inj (Except.ok.inj hrun)
        exact .inl ⟨hshort, hresult.symm, hs'.symm⟩
      · next hfull => exact .inr ⟨not_not.mp hfull, hrun⟩

/-- What is behind an address when the bytes of `[va + done, va + size)` are loaded. -/
def LoadedByte (file : ExecFile) (offset : UInt32) (va : UInt64) (size : UInt32) (done : Nat)
    (before : Option UInt8) (x : UInt64) : Option UInt8 :=
  if va.toNat + done ≤ x.toNat ∧ x.toNat < va.toNat + size.toNat then
    some (file.bytes.getD (offset.toNat + (x.toNat - va.toNat)) 0)
  else before

theorem write_buffer_byte (m : Memory) (a : Nat) (data : List UInt8) (i : Nat) :
    m.write a data.length (buffer data) (a + i) =
      if i < data.length then data.getD i 0 else m (a + i) := by
  split
  · next hi =>
    rw [Memory.write_of_mem (Nat.le_add_right a i) (Nat.add_lt_add_left hi a),
      Nat.add_sub_cancel_left]
    rfl
  · next hi => exact Memory.write_of_not_mem (.inr (by omega))

theorem loadedByte_step {offset size : UInt32} {done n : Nat} {before : Option UInt8}
    {data : List UInt8} {b : UInt8} {x : UInt64} (haligned : va.toNat % 4096 = 0)
    (hdone : done % 4096 = 0) (hn : n = min (size.toNat - done) 4096)
    (hdata : data = (file.bytes.drop (offset.toNat + done)).take n)
    (hbefore : x.toNat / 4096 = (va.toNat + done) / 4096 → before = some b) :
    LoadedByte file offset va size (done + 4096)
        (if x.toNat / 4096 = (va.toNat + done) / 4096 then
          some (if x.toNat % 4096 < n then data.getD (x.toNat % 4096) 0 else b)
        else before) x =
      LoadedByte file offset va size done before x := by
  unfold LoadedByte
  by_cases hpage : x.toNat / 4096 = (va.toNat + done) / 4096
  · rw [if_pos hpage, if_neg (by omega), hbefore hpage]
    by_cases hx : x.toNat % 4096 < n
    · rw [if_pos hx, if_pos (by omega), hdata]
      have hidx : offset.toNat + (x.toNat - va.toNat) =
          offset.toNat + done + x.toNat % 4096 := by omega
      rw [hidx, List.getD_eq_getElem?_getD, List.getD_eq_getElem?_getD,
        List.getElem?_take_of_lt hx, List.getElem?_drop]
    · rw [if_neg hx, if_neg (by omega)]
  · rw [if_neg hpage]
    by_cases hx : va.toNat + (done + 4096) ≤ x.toNat ∧ x.toNat < va.toNat + size.toNat
    · rw [if_pos hx, if_pos ⟨by omega, hx.2⟩]
    · rw [if_neg hx, if_neg (by omega)]

/-- What the file has to the bytes of `[offset + done, offset + size)`, if there are any. -/
structure LoadedFrom (file : ExecFile) (offset size : UInt32) (done : Nat) : Prop where
  inside : done < size.toNat → offset.toNat + size.toNat ≤ file.bytes.length
  reached : file.Blind → done < size.toNat → offset.toNat + size.toNat ≤ reachedSize

theorem loadSegmentLoop_spec {offset size off : UInt32} {turns done : Nat} {result : Int}
    (h : Spaces s roots lk lu tfs ∅) (hroot : root ∈ roots)
    (hentries : SoundEntries s.mem root) (haligned : va.toNat % 4096 = 0)
    (hroom : va.toNat + size.toNat ≤ trapframe.toNat)
    (hturns : turns = (size.toNat - done + 4095) / 4096)
    (hoff : turns ≠ 0 → off.toNat = done ∧ done % 4096 = 0 ∧
      (offset + off).toNat = offset.toNat + done)
    (hrun : loadSegmentLoop file offset root va size turns off s = .ok (result, s')) :
    Builds roots root tfs s s' ∧ (result < 0 ∨
      (LoadedFrom file offset size done ∧
        ((done < size.toNat → offset.toNat + size.toNat ≤ reachedSize) →
          ∀ x, x < vaMax → userByte s'.mem root x =
            LoadedByte file offset va size done (userByte s.mem root x) x))) := by
  induction turns generalizing s off done lk lu with
  | zero =>
      cases hrun
      refine ⟨.refl h, .inr ⟨⟨by omega, by omega⟩, ?_⟩⟩
      intro _ x _
      unfold LoadedByte
      rw [if_neg (by omega)]
  | succ turns ih =>
      obtain ⟨rfl, hpage, hnowrap⟩ := hoff (Nat.succ_ne_zero turns)
      have hlt : off.toNat < size.toNat := by omega
      have hsize := size.toNat_lt
      have hvaOff : (va + off.toUInt64).toNat = va.toNat + off.toNat := by
        rw [trapframe_toNat] at hroom
        rw [UInt64.toNat_add, UInt32.toNat_toUInt64]
        exact Nat.mod_eq_of_lt (by omega)
      have hva : va + off.toUInt64 < trapframe := by
        rw [UInt64.lt_iff_toNat_lt, hvaOff]
        omega
      obtain ⟨page, data, s₁, hframe, hread, hs₁, hcases⟩ :=
        loadSegmentLoop_succ h hroot hentries hva rfl hrun
      have hreadLen := readLen_toNat hlt
      generalize (if size - off < 4096 then size - off else 4096) = readLen
        at hread hcases hreadLen
      have hlength : data.2.length ≤ 4096 := (readData_length_le hread).trans (by omega)
      have honly : OnlyPage page s.mem s₁.mem := by
        rw [hs₁]
        exact onlyPage_write page s.mem 0 _ _ (by omega)
      have hbuilds : Builds roots root tfs s s₁ := by
        rw [hs₁] at honly ⊢
        exact write_user_builds h hroot (lt_vaMax_of_lt hva) hframe honly
      rcases hcases with ⟨_, hresult, rfl⟩ | ⟨hfull, hrest⟩
      · exact ⟨hbuilds, .inl (by omega)⟩
      · obtain ⟨hinside, hdata, hstored, hblind⟩ := readData_full (by omega) hread hfull
        rw [hnowrap] at hinside hstored hblind
        have hfile := file.length_lt
        obtain ⟨lk₁, lu₁, h₁⟩ := hbuilds.spaces
        have hnext : turns ≠ 0 → (off + 4096).toNat = off.toNat + 4096 ∧
            (off.toNat + 4096) % 4096 = 0 ∧
            (offset + (off + 4096)).toNat = offset.toNat + (off.toNat + 4096) := by
          intro hne
          have hoff' : (off + 4096).toNat = off.toNat + 4096 := by
            rw [UInt32.toNat_add]
            exact Nat.mod_eq_of_lt (show off.toNat + 4096 < 2 ^ 32 by omega)
          refine ⟨hoff', by omega, ?_⟩
          rw [UInt32.toNat_add, hoff']
          exact Nat.mod_eq_of_lt (by omega)
        obtain ⟨hbuilds', hresult⟩ :=
          ih h₁ (hbuilds.entries hentries) (by omega) hnext hrest
        refine ⟨hbuilds.trans hbuilds', hresult.imp_right ?_⟩
        rintro ⟨hend, hbytes⟩
        refine ⟨⟨fun _ => ?_, fun hb _ => ?_⟩, ?_⟩
        · by_cases hlast : off.toNat + 4096 < size.toNat
          · exact hend.inside hlast
          · omega
        · by_cases hlast : off.toNat + 4096 < size.toNat
          · exact hend.reached hb hlast
          · have hreached := hblind hb (by omega)
            omega
        · intro hreach x hx
          have hreached := hreach hlt
          have hmax := lt_vaMax_of_lt hva
          rw [hs₁, MemState.mem_setMem] at honly
          have hbyte := write_user_bytes h hroot hmax hframe honly hx
          have hsamePage : x.toNat / 4096 = (va.toNat + off.toNat) / 4096 →
              userByte s.mem root x = some (s.mem (page.toNat + x.toNat % 4096)) := by
            intro hsame
            rw [← hvaOff] at hsame
            exact userByte_of_frame ((userFrame_same_page hx hmax hsame).trans hframe)
          rw [hbytes (fun _ => hreached) x hx, hs₁, MemState.mem_setMem, hbyte, hvaOff,
            ← loadedByte_step haligned hpage hreadLen (hstored (by omega)) hsamePage,
            write_buffer_byte, hdata]

theorem loadSegment_spec {offset size : UInt32} {result : Int}
    (h : Spaces s roots lk lu tfs ∅) (hroot : root ∈ roots)
    (hentries : SoundEntries s.mem root) (haligned : va.toNat % 4096 = 0)
    (hroom : va.toNat + size.toNat ≤ trapframe.toNat)
    (hrun : loadSegment file offset root va size s = .ok (result, s')) :
    Builds roots root tfs s s' ∧ (result < 0 ∨
      (LoadedFrom file offset size 0 ∧
        ((0 < size.toNat → offset.toNat + size.toNat ≤ reachedSize) →
          ∀ x, x < vaMax → userByte s'.mem root x =
            LoadedByte file offset va size 0 (userByte s.mem root x) x))) := by
  unfold loadSegment at hrun
  rw [massert_bind_eq_ok] at hrun
  have hturns : (size.toNat + 4095) / 4096 = (size.toNat - 0 + 4095) / 4096 := rfl
  exact loadSegmentLoop_spec h hroot hentries haligned hroom hturns
    (fun _ => ⟨rfl, rfl, by rw [UInt32.add_zero]; rfl⟩) hrun.2

/-! `uvm_heap_grow` -/

theorem uvmHeapGrow_spec {heapTop newHeapTop flags : UInt64} {len : UInt32}
    (h : Spaces s roots lk lu tfs ∅) (hroot : root ∈ roots)
    (hflags : (flags ||| pteU).toNat < 1024) (hheap : heapTop.toNat ≤ trapframe.toNat)
    (hrun : uvmHeapGrow root heapTop len flags s = .ok (newHeapTop, s')) :
    Builds roots root tfs s s' ∧ newHeapTop.toNat = heapTop.toNat + len.toNat ∧
      (len.toNat ≠ 0 → heapTop.toNat % 4096 = 0 ∧
        heapTop.toNat + (len.toNat + 4095) / 4096 * 4096 ≤ trapframe.toNat) ∧
      ∀ x, x < vaMax → userByte s'.mem root x =
        if InTurns heapTop ((len.toNat + 4095) / 4096) x then some 0
        else userByte s.mem root x := by
  have hlen := len.toNat_lt
  have htop : (heapTop + len.toUInt64).toNat = heapTop.toNat + len.toNat := by
    rw [trapframe_toNat] at hheap
    rw [UInt64.toNat_add, UInt32.toNat_toUInt64]
    exact Nat.mod_eq_of_lt (by omega)
  unfold uvmHeapGrow at hrun
  rw [htop, Nat.add_sub_cancel_left, Exec.bind_eq_ok] at hrun
  obtain ⟨_, s₁, hloop, hrun⟩ := hrun
  obtain ⟨rfl, rfl⟩ := Prod.mk.inj (Except.ok.inj hrun)
  obtain ⟨hbuilds, hgrown, hbytes⟩ := heapGrowLoop_spec h hroot hflags hloop
  exact ⟨hbuilds, htop, fun hne => hgrown (by omega), hbytes⟩

/-! The program headers. -/

/-- What `proc_exec` has checked when it has loaded a segment. -/
structure SegmentFits (file : ExecFile) (ph : ProgramHeader) (heapTop newHeapTop : UInt64) :
    Prop where
  sizes : ph.fileSize.toNat ≤ ph.memSize.toNat
  aligned : ph.va.toNat % 4096 = 0
  ends : newHeapTop.toNat = ph.va.toNat + ph.memSize.toNat
  grows : heapTop.toNat ≤ newHeapTop.toNat
  length : newHeapTop.toNat - heapTop.toNat < 2 ^ 32
  start : heapTop.toNat < newHeapTop.toNat → heapTop.toNat % 4096 = 0
  below : newHeapTop.toNat ≤ trapframe.toNat
  loaded : LoadedFrom file ph.off.toUInt32 ph.fileSize.toUInt32 0

/-- The lookups of the bytes of a segment stay inside `addrs[]`. -/
def SegmentReached (ph : ProgramHeader) : Prop :=
  0 < ph.fileSize.toUInt32.toNat →
    ph.off.toUInt32.toNat + ph.fileSize.toUInt32.toNat ≤ reachedSize

def SegmentByte (file : ExecFile) (ph : ProgramHeader) (heapTop newHeapTop : UInt64)
    (before : Option UInt8) (x : UInt64) : Option UInt8 :=
  LoadedByte file ph.off.toUInt32 ph.va ph.fileSize.toUInt32 0
    (if InTurns heapTop ((newHeapTop.toNat - heapTop.toNat + 4095) / 4096) x then some 0
    else before) x

theorem toUInt32_toNat_le (v : UInt64) : v.toUInt32.toNat ≤ v.toNat := by
  rw [UInt64.toNat_toUInt32]
  exact Nat.mod_le _ _

theorem segment_ends {heapTop newHeapTop fileEnd : UInt64}
    (htop : newHeapTop.toNat = heapTop.toNat + (fileEnd - heapTop).toUInt32.toNat)
    (hends : newHeapTop = fileEnd) :
    heapTop.toNat ≤ fileEnd.toNat ∧ fileEnd.toNat - heapTop.toNat < 2 ^ 32 ∧
      (fileEnd - heapTop).toUInt32.toNat = fileEnd.toNat - heapTop.toNat := by
  have hlen := (fileEnd - heapTop).toUInt32.toNat_lt
  subst hends
  omega

theorem loadProgram_spec {ph : ProgramHeader} {heapTop newHeapTop : UInt64}
    (h : Spaces s roots lk lu tfs ∅) (hroot : root ∈ roots)
    (hentries : SoundEntries s.mem root) (hheap : heapTop.toNat ≤ trapframe.toNat)
    (htype : ph.type = elfProgLoad)
    (hrun : loadProgram file root ph heapTop s = .ok (some newHeapTop, s')) :
    Builds roots root tfs s s' ∧ SegmentFits file ph heapTop newHeapTop ∧
      (SegmentReached ph → ∀ x, x < vaMax → userByte s'.mem root x =
        SegmentByte file ph heapTop newHeapTop (userByte s.mem root x) x) := by
  unfold loadProgram at hrun
  rw [if_neg (not_not.mpr htype)] at hrun
  split at hrun
  · cases hrun
  next hsizes =>
  split at hrun
  · cases hrun
  next hwrap =>
  split at hrun
  · cases hrun
  next haligned =>
  rw [Exec.bind_eq_ok] at hrun
  obtain ⟨grown, s₁, hgrow, hrun⟩ := hrun
  split at hrun
  · cases hrun
  next hends =>
  rw [Exec.bind_eq_ok] at hrun
  obtain ⟨loaded, s₂, hload, hrun⟩ := hrun
  split at hrun
  · cases hrun
  next hloaded =>
  obtain ⟨hresult, rfl⟩ := Prod.mk.inj (Except.ok.inj hrun)
  obtain rfl := Option.some_inj.mp hresult
  have hends := not_not.mp hends
  have hva : ph.va.toNat % 4096 = 0 := by
    have hmod := congrArg UInt64.toNat (not_not.mp haligned)
    rwa [UInt64.toNat_mod] at hmod
  have hfileEnd : (ph.va + ph.memSize).toNat = ph.va.toNat + ph.memSize.toNat := by
    rw [UInt64.lt_iff_toNat_lt, UInt64.toNat_add] at hwrap
    rw [UInt64.toNat_add]
    have hva := ph.va.toNat_lt
    have hmem := ph.memSize.toNat_lt
    omega
  obtain ⟨hbuilds, htop, hgrown, hbytes⟩ := uvmHeapGrow_spec h hroot (by decide) hheap hgrow
  obtain ⟨hle, hlen, hlength⟩ := segment_ends htop hends
  rw [← hends] at hle hlen hlength
  rw [UInt64.lt_iff_toNat_lt, not_lt] at hsizes
  have hsize := toUInt32_toNat_le ph.fileSize
  have hbelow : grown.toNat ≤ trapframe.toNat := by
    by_cases hzero : grown.toNat - heapTop.toNat = 0
    · omega
    · have hroom := (hgrown (by omega)).2
      omega
  rw [hends] at hgrow
  obtain ⟨lk₁, lu₁, h₁⟩ := hbuilds.spaces
  obtain ⟨hbuilds', hsegment⟩ := loadSegment_spec h₁ hroot (hbuilds.entries hentries) hva
    (by rw [← hends] at hfileEnd; omega) hload
  obtain ⟨hfrom, hbytes'⟩ := hsegment.resolve_left hloaded
  refine ⟨hbuilds.trans hbuilds', ⟨hsizes, hva, by rw [hends, hfileEnd], hle, hlen,
    fun hlt => (hgrown (by omega)).1, hbelow, hfrom⟩, ?_⟩
  intro hreach x hx
  unfold SegmentByte
  rw [hbytes' hreach x hx, hbytes x hx, ← hends, hlength]

theorem loadProgram_skip {ph : ProgramHeader} {heapTop : UInt64}
    (htype : ph.type ≠ elfProgLoad) (s : MemState) :
    loadProgram file root ph heapTop s = .ok (some heapTop, s) := by
  unfold loadProgram
  rw [if_pos htype]
  rfl

theorem loadProgram_builds {ph : ProgramHeader} {heapTop newHeapTop : UInt64}
    (h : Spaces s roots lk lu tfs ∅) (hroot : root ∈ roots)
    (hentries : SoundEntries s.mem root) (hheap : heapTop.toNat ≤ trapframe.toNat)
    (hrun : loadProgram file root ph heapTop s = .ok (some newHeapTop, s')) :
    Builds roots root tfs s s' ∧ newHeapTop.toNat ≤ trapframe.toNat := by
  by_cases htype : ph.type = elfProgLoad
  · obtain ⟨hbuilds, hfits, _⟩ := loadProgram_spec h hroot hentries hheap htype hrun
    exact ⟨hbuilds, hfits.below⟩
  · rw [loadProgram_skip htype] at hrun
    cases hrun
    exact ⟨.refl h, hheap⟩

theorem loadPrograms_builds {eh : ElfHeader} {turns : Nat} {off : UInt32}
    {heapTop newHeapTop : UInt64} (h : Spaces s roots lk lu tfs ∅) (hroot : root ∈ roots)
    (hentries : SoundEntries s.mem root) (hheap : heapTop.toNat ≤ trapframe.toNat)
    (hrun : loadPrograms file eh root turns off heapTop s = .ok (some newHeapTop, s')) :
    Builds roots root tfs s s' ∧ newHeapTop.toNat ≤ trapframe.toNat := by
  induction turns generalizing s off heapTop lk lu with
  | zero => cases hrun
  | succ turns ih =>
      rw [loadPrograms] at hrun
      split at hrun
      · obtain ⟨data, _, hrun⟩ := inodeReadData_bind_eq_ok.mp hrun
        split at hrun
        · cases hrun
        · rw [Exec.bind_eq_ok] at hrun
          obtain ⟨loaded, s₁, hload, hrun⟩ := hrun
          cases loaded with
          | none => cases hrun
          | some next =>
              obtain ⟨hbuilds, hnext⟩ := loadProgram_builds h hroot hentries hheap hload
              obtain ⟨lk₁, lu₁, h₁⟩ := hbuilds.spaces
              obtain ⟨hbuilds', htop⟩ := ih h₁ (hbuilds.entries hentries) hnext hrun
              exact ⟨hbuilds.trans hbuilds', htop⟩
      · cases hrun
        exact ⟨.refl h, hheap⟩

theorem loadImage_builds {entry heapTop : UInt64} (h : Spaces s roots lk lu tfs ∅)
    (hroot : root ∈ roots) (hentries : SoundEntries s.mem root)
    (hrun : loadImage file root s = .ok (some (entry, heapTop), s')) :
    Builds roots root tfs s s' ∧ heapTop.toNat ≤ trapframe.toNat := by
  unfold loadImage at hrun
  obtain ⟨data, _, hrun⟩ := inodeReadData_bind_eq_ok.mp hrun
  dsimp only at hrun
  split at hrun
  · cases hrun
  split at hrun
  · cases hrun
  rw [Exec.bind_eq_ok] at hrun
  obtain ⟨loaded, s₁, hload, hrun⟩ := hrun
  cases loaded with
  | none => cases hrun
  | some top =>
      obtain ⟨hbuilds, htop⟩ := loadPrograms_builds h hroot hentries (by decide) hload
      cases hrun
      exact ⟨hbuilds, htop⟩

end UnoOS.Uvm
