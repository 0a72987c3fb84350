import UnoOS.Lib.Loop
import UnoOS.Uvm.EnoughMemory

namespace UnoOS.Uvm

open UnoOS.Lib
open UnoOS.Lib.Exec (StopsWith Turn Turns Last loop)
open UnoOS.Fs (Stop)
open UnoOS.Mem

/-! The loops by which `proc_exec` loads a file end, whatever the file says. -/

variable {file : ExecFile} {eh : ElfHeader} {pgtbl va heapTop : UInt64} {off : UInt32}

/-! The loop over the program headers. -/

def ElfHeader.phEnd (eh : ElfHeader) : UInt64 :=
  eh.phOff + eh.phEntNum.toUInt64 * programHeaderSize.toUInt64

def headerTurn (file : ExecFile) (eh : ElfHeader) (pgtbl : UInt64) :
    UInt32 × UInt64 → MemM (Turn (UInt32 × UInt64) (Option UInt64))
  | (off, heapTop) => do
      if off.toUInt64 < eh.phEnd then
        let data ← inodeReadData file off programHeaderSize
        if data.1 ≠ programHeaderSize then
          return .ends none
        else
          match ← loadProgram file pgtbl (programHeader (buffer data.2)) heapTop with
          | none => return .ends none
          | some newHeapTop => return .next (off + programHeaderSize, newHeapTop)
      else
        return .ends (some heapTop)

theorem loadPrograms_eq_loop (turns : Nat) (off : UInt32) (heapTop : UInt64) :
    loadPrograms file eh pgtbl turns off heapTop =
      loop (headerTurn file eh pgtbl) .loops turns (off, heapTop) := by
  induction turns generalizing off heapTop with
  | zero => rfl
  | succ turns ih =>
      rw [loadPrograms, loop, headerTurn]
      unfold ElfHeader.phEnd
      split
      · rw [bind_assoc]
        refine bind_congr fun data => ?_
        split
        · rfl
        · rw [bind_assoc]
          refine bind_congr fun loaded => ?_
          cases loaded with
          | none => rfl
          | some newHeapTop => exact ih _ _
      · rfl

/-- After a read of a whole header there are 56 bytes behind the cursor. -/
theorem cursor_next {data : UInt32 × List UInt8}
    (hread : file.readData off programHeaderSize = .ok data)
    (hfull : data.1 = programHeaderSize) :
    off.toNat + 56 ≤ file.bytes.length ∧ (off + programHeaderSize).toNat = off.toNat + 56 := by
  obtain ⟨hroom, _⟩ := readData_full (by decide) hread hfull
  have hlt := file.length_lt
  refine ⟨hroom, ?_⟩
  rw [UInt32.toNat_add]
  exact Nat.mod_eq_of_lt (lt_of_le_of_lt hroom hlt)

theorem headerTurn_next {a a' : UInt32 × UInt64} {s s' : MemState}
    (h : headerTurn file eh pgtbl a s = .ok (.next a', s')) :
    a.1.toNat + 56 ≤ file.bytes.length ∧ a'.1.toNat = a.1.toNat + 56 := by
  obtain ⟨off, heapTop⟩ := a
  rw [headerTurn] at h
  split at h
  · obtain ⟨data, hread, h⟩ := inodeReadData_bind_eq_ok.mp h
    split at h
    · cases h
    · next hfull =>
      obtain ⟨loaded, s₁, _, h⟩ := Exec.bind_eq_ok.mp h
      cases loaded with
      | none => cases h
      | some newHeapTop =>
          cases h
          exact cursor_next hread (not_not.mp hfull)
  · cases h

theorem headerTurns_cursor {n : Nat} {a a' : UInt32 × UInt64} {s s' : MemState}
    (h : Turns (headerTurn file eh pgtbl) n a s a' s') : a'.1.toNat = a.1.toNat + 56 * n := by
  induction h with
  | here a s => rfl
  | more hturn _ ih =>
      have hnext := (headerTurn_next hturn).2
      omega

def headersLeft (file : ExecFile) (a : UInt32 × UInt64) : Nat :=
  (file.bytes.length - a.1.toNat) / 56

theorem headersLeft_next (a : UInt32 × UInt64) (s : MemState) (a' : UInt32 × UInt64)
    (s' : MemState) (_ : True) (h : headerTurn file eh pgtbl a s = .ok (.next a', s')) :
    True ∧ headersLeft file a' < headersLeft file a := by
  obtain ⟨hroom, hnext⟩ := headerTurn_next h
  refine ⟨trivial, ?_⟩
  unfold headersLeft
  rw [hnext]
  omega

/-! What a turn stops with. -/

/-- A failed assertion; a fault of the kernel fails one of `trap_kernel_handler`. -/
def Asserts (reason : Stop) : Prop := reason = .nullPointer ∨ ∃ message, reason = .panic message

theorem Asserts.panic (message : String) : Asserts (.panic message) := .inr ⟨message, rfl⟩

theorem massert_asserts (condition : Prop) [Decidable condition] (message : String) :
    StopsWith Asserts (massert condition message) :=
  .require_intro (.panic message)

theorem pmemAlloc_asserts (k : Bool) : StopsWith Asserts (pmemAlloc k) :=
  (pmemAlloc_stops k).mono fun reason h => by
    rcases h with rfl | rfl | rfl
    · exact .panic _
    · exact .panic _
    · exact .panic _

theorem vmGetpteLoop_asserts (va : UInt64) (alloc : Bool) (level : Nat) (t : UInt64) :
    StopsWith Asserts (vmGetpteLoop va alloc level t) :=
  (vmGetpteLoop_stops va alloc level t).mono fun reason h => by
    rcases h with rfl | rfl | rfl
    · exact .panic _
    · exact .panic _
    · exact .panic _

theorem vmGetpte_asserts (root va : UInt64) (alloc : Bool) :
    StopsWith Asserts (vmGetpte root va alloc) := by
  refine StopsWith.bind (massert_asserts _ _) fun _ => ?_
  refine StopsWith.bind (massert_asserts _ _) fun _ => ?_
  refine StopsWith.bind (vmGetpteLoop_asserts _ _ _ _) fun table => ?_
  cases table with
  | none => exact .pure_intro _
  | some t => exact .pure_intro _

theorem readMem_asserts : StopsWith Asserts (readMem) := .bind .get_intro fun _ => .pure_intro _

theorem vmMappagesLoop_asserts (root pa perm : UInt64) (pages : Nat) (beg dst : UInt64) :
    StopsWith Asserts (vmMappagesLoop root pa perm pages beg dst) := by
  induction pages generalizing beg dst with
  | zero => exact .pure_intro _
  | succ pages ih =>
      refine StopsWith.bind (vmGetpte_asserts _ _ _) fun pte => ?_
      cases pte with
      | none => exact .stop_intro (.panic _)
      | some pte =>
          refine StopsWith.bind readMem_asserts fun _ => ?_
          refine StopsWith.bind (massert_asserts _ _) fun _ => ?_
          exact .bind (.modify_intro _) fun _ => ih _ _

theorem vmMappages_asserts (root va pa len perm : UInt64) :
    StopsWith Asserts (vmMappages root va pa len perm) := by
  refine StopsWith.bind (massert_asserts _ _) fun _ => ?_
  refine StopsWith.bind (massert_asserts _ _) fun _ => ?_
  exact .bind (massert_asserts _ _) fun _ => vmMappagesLoop_asserts _ _ _ _ _ _

theorem heapGrowLoop_asserts (flags : UInt64) (turns : Nat) (ptr : UInt64) :
    StopsWith Asserts (heapGrowLoop pgtbl flags turns ptr) := by
  induction turns generalizing ptr with
  | zero => exact .pure_intro _
  | succ turns ih =>
      refine StopsWith.bind (pmemAlloc_asserts false) fun pg => ?_
      refine StopsWith.bind (massert_asserts _ _) fun _ => ?_
      refine StopsWith.bind (vmMappages_asserts _ _ _ _ _) fun _ => ?_
      exact .bind (.modify_intro _) fun _ => ih _

theorem inodeReadData_asserts (offset len : UInt32) :
    StopsWith Asserts (inodeReadData file offset len) := by
  unfold inodeReadData
  cases file.readData offset len with
  | error message => exact .stop_intro (.panic message)
  | ok data => exact .pure_intro _

theorem loadSegmentLoop_asserts (offset size : UInt32) (turns : Nat) (off : UInt32) :
    StopsWith Asserts (loadSegmentLoop file offset pgtbl va size turns off) := by
  induction turns generalizing off with
  | zero => exact .pure_intro _
  | succ turns ih =>
      refine StopsWith.bind (vmGetpte_asserts _ _ _) fun pte => ?_
      cases pte with
      | none => exact .stop_intro (.inl rfl)
      | some pte =>
          refine StopsWith.bind readMem_asserts fun _ => ?_
          refine StopsWith.bind (massert_asserts _ _) fun _ => ?_
          refine StopsWith.bind (inodeReadData_asserts _ _) fun data => ?_
          refine StopsWith.bind (.modify_intro _) fun _ => ?_
          exact .ite (.pure_intro _) (ih _)

theorem loadProgram_asserts (ph : ProgramHeader) (heapTop : UInt64) :
    StopsWith Asserts (loadProgram file pgtbl ph heapTop) := by
  refine StopsWith.ite (.pure_intro _) (.ite (.pure_intro _) (.ite (.pure_intro _)
    (.ite (.pure_intro _) ?_)))
  refine StopsWith.bind (.bind (heapGrowLoop_asserts _ _ _) fun _ => .pure_intro _) fun _ => ?_
  refine StopsWith.ite (.pure_intro _) ?_
  refine StopsWith.bind (.bind (massert_asserts _ _) fun _ =>
    loadSegmentLoop_asserts _ _ _ _) fun loaded => ?_
  exact .ite (.pure_intro _) (.pure_intro _)

theorem headerTurn_asserts (a : UInt32 × UInt64) :
    StopsWith Asserts (headerTurn file eh pgtbl a) := by
  obtain ⟨off, heapTop⟩ := a
  refine StopsWith.ite ?_ (.pure_intro _)
  refine StopsWith.bind (inodeReadData_asserts _ _) fun data => ?_
  refine StopsWith.ite (.pure_intro _) ?_
  refine StopsWith.bind (loadProgram_asserts _ _) fun loaded => ?_
  cases loaded with
  | none => exact .pure_intro _
  | some newHeapTop => exact .pure_intro _

/-- How the loop is left at a cursor: by its condition, for `goto bad`, or in an
assertion. -/
def Leaves (eh : ElfHeader) (off : UInt32) :
    Except Stop (Option UInt64 × MemState) → Prop
  | .ok (some _, _) => ¬ off.toUInt64 < eh.phEnd
  | .ok (none, _) => True
  | .error reason => Asserts reason

theorem leaves_of_last {s : MemState}
    (hlast : Last (headerTurn file eh pgtbl) (off, heapTop) s) :
    Leaves eh off (loop (headerTurn file eh pgtbl) .loops 1 (off, heapTop) s) := by
  rw [loop, Exec.bind_apply]
  cases hturn : headerTurn file eh pgtbl (off, heapTop) s with
  | error reason => exact headerTurn_asserts _ s reason hturn
  | ok result =>
      obtain ⟨turned, s'⟩ := result
      cases turned with
      | next a' => exact absurd hturn (hlast a' s')
      | ends loaded =>
          cases loaded with
          | none => trivial
          | some top =>
              rw [headerTurn] at hturn
              split at hturn
              · obtain ⟨data, _, hturn⟩ := inodeReadData_bind_eq_ok.mp hturn
                split at hturn
                · cases hturn
                · obtain ⟨loaded, s₁, _, hturn⟩ := Exec.bind_eq_ok.mp hturn
                  cases loaded with
                  | none => cases hturn
                  | some newHeapTop => cases hturn
              · next hend => exact hend

theorem loadPrograms_leaves (file : ExecFile) (eh : ElfHeader) (pgtbl heapTop : UInt64)
    (off : UInt32) (s : MemState) : ∃ n off' heapTop' s' result,
      Turns (headerTurn file eh pgtbl) n (off, heapTop) s (off', heapTop') s' ∧
      Leaves eh off' result ∧
      ∀ turns, n < turns → loadPrograms file eh pgtbl turns off heapTop s = result := by
  obtain ⟨n, ⟨off', heapTop'⟩, s', hturns, hlast⟩ :=
    Exec.exists_last headersLeft_next trivial s
  refine ⟨n, off', heapTop', s', _, hturns, leaves_of_last hlast, ?_⟩
  intro turns hmore
  rw [loadPrograms_eq_loop]
  exact Exec.loop_eq_last hturns hlast hmore

/-- There are no more turns than the file has room for headers. -/
theorem headerTurns_le {n : Nat} {a a' : UInt32 × UInt64} {s s' : MemState}
    (h : Turns (headerTurn file eh pgtbl) n a s a' s') : n ≤ file.bytes.length / 56 := by
  have hle := (h.le headersLeft_next trivial).2
  have hleft : headersLeft file a ≤ file.bytes.length / 56 :=
    Nat.div_le_div_right (Nat.sub_le _ _)
  omega

theorem loadPrograms_asserts {turns : Nat} (hmore : file.bytes.length / 56 < turns) :
    StopsWith Asserts (loadPrograms file eh pgtbl turns off heapTop) := by
  intro s reason hrun
  obtain ⟨n, _, _, _, result, hturns, hleaves, hresult⟩ :=
    loadPrograms_leaves file eh pgtbl heapTop off s
  rw [hresult turns (lt_of_le_of_lt (headerTurns_le hturns) hmore)] at hrun
  rwa [hrun] at hleaves

theorem loadImage_asserts : StopsWith Asserts (loadImage file pgtbl) := by
  refine StopsWith.bind (inodeReadData_asserts _ _) fun data => ?_
  refine StopsWith.ite (.pure_intro _) (StopsWith.ite (.pure_intro _) ?_)
  refine StopsWith.bind (loadPrograms_asserts (by omega)) fun loaded => ?_
  cases loaded with
  | none => exact .pure_intro _
  | some top => exact .pure_intro _

/-- From every cursor the loop over the program headers is left after at most as many
turns as the file has room for headers, and in these turns the cursor does not wrap. -/
theorem exec_headers_end (file : ExecFile) (eh : ElfHeader) (pgtbl heapTop : UInt64)
    (off : UInt32) (s : MemState) :
    (∀ n a' s', Turns (headerTurn file eh pgtbl) n (off, heapTop) s a' s' →
      n ≤ file.bytes.length / 56 ∧ a'.1.toNat = off.toNat + 56 * n) ∧
    ∃ n off' heapTop' s' result,
      Turns (headerTurn file eh pgtbl) n (off, heapTop) s (off', heapTop') s' ∧
      Leaves eh off' result ∧
      ∀ turns, n < turns → loadPrograms file eh pgtbl turns off heapTop s = result :=
  ⟨fun _ _ _ hturns => ⟨headerTurns_le hturns, headerTurns_cursor hturns⟩,
    loadPrograms_leaves file eh pgtbl heapTop off s⟩

/-! The loops in a turn, with the tests of the source. -/

def segmentTurn (file : ExecFile) (offset : UInt32) (pgtbl va : UInt64) (size off : UInt32) :
    MemM (Turn UInt32 Int) := do
  if off < size then
    match ← vmGetpte pgtbl (va + off.toUInt64) false with
    | none => Exec.stop .nullPointer
    | some pte => do
        let pa := pteToPa ((← readMem).load64 pte)
        massert (pa ≠ 0) "load_segment: addr should exist"
        let readLen := if size - off < 4096 then size - off else 4096
        let data ← inodeReadData file (offset + off) readLen
        updateMem fun m => m.write pa.toNat data.2.length (buffer data.2)
        if data.1 ≠ readLen then
          return .ends (-1)
        else
          return .next (off + 4096)
  else
    return .ends 0

/-- The cursor does not wrap: a file has less than 2^32 - 4096 bytes. -/
theorem segment_next {offset size readLen : UInt32} {data : UInt32 × List UInt8}
    (hlt : off.toNat < size.toNat)
    (hstart : off.toNat = 0 ∨ offset.toNat + off.toNat ≤ file.bytes.length)
    (hlen : readLen.toNat = min (size.toNat - off.toNat) 4096)
    (hread : file.readData (offset + off) readLen = .ok data) (hfull : data.1 = readLen) :
    (off + 4096).toNat = off.toNat + 4096 ∧
      (off.toNat + 4096 < size.toNat →
        offset.toNat + (off.toNat + 4096) ≤ file.bytes.length) := by
  have hfits : file.bytes.length ≤ 2 ^ 27 := file.fits.trans (by decide)
  have hoffset := offset.toNat_lt
  have hsum : (offset + off).toNat = offset.toNat + off.toNat := by
    rw [UInt32.toNat_add]
    exact Nat.mod_eq_of_lt (by omega)
  obtain ⟨hroom, _⟩ := readData_full (by omega) hread hfull
  rw [hsum] at hroom
  refine ⟨?_, by omega⟩
  rw [UInt32.toNat_add]
  exact Nat.mod_eq_of_lt (show off.toNat + 4096 < 2 ^ 32 by omega)

theorem loadSegmentLoop_eq_loop {offset size : UInt32} {count turns : Nat}
    (hcount : count = (size.toNat - off.toNat + 4095) / 4096) (hmore : count < turns)
    (hstart : off.toNat < size.toNat → off.toNat = 0 ∨
      offset.toNat + off.toNat ≤ file.bytes.length) :
    loadSegmentLoop file offset pgtbl va size count off =
      loop (segmentTurn file offset pgtbl va size) .loops turns off := by
  induction count generalizing off turns with
  | zero =>
      obtain ⟨turns, rfl⟩ := Nat.exists_eq_succ_of_ne_zero (Nat.ne_of_gt hmore)
      have hge : ¬ off < size := by
        rw [UInt32.lt_iff_toNat_lt]
        omega
      rw [loop, segmentTurn, if_neg hge]
      rfl
  | succ count ih =>
      obtain ⟨turns, rfl⟩ := Nat.exists_eq_succ_of_ne_zero (Nat.ne_of_gt (Nat.zero_lt_of_lt hmore))
      have hlt : off.toNat < size.toNat := by omega
      have hreadLen := readLen_toNat hlt
      rw [loadSegmentLoop, loop, segmentTurn, if_pos (UInt32.lt_iff_toNat_lt.mpr hlt), bind_assoc]
      refine bind_congr fun pte => ?_
      cases pte with
      | none => rfl
      | some pte =>
          dsimp only
          generalize (if size - off < 4096 then size - off else 4096) = readLen at hreadLen ⊢
          rw [bind_assoc]
          refine bind_congr fun m => ?_
          rw [bind_assoc]
          refine bind_congr fun _ => ?_
          rw [bind_assoc]
          funext s
          refine Exec.bind_congr_of_ok fun data s' hdata => ?_
          obtain ⟨hread, rfl⟩ := inodeReadData_eq_ok.mp hdata
          rw [bind_assoc, updateMem_bind, updateMem_bind]
          by_cases hfull : data.1 = readLen
          · rw [if_neg (not_not.mpr hfull), if_neg (not_not.mpr hfull), pure_bind]
            obtain ⟨hnext, hroom⟩ := segment_next hlt (hstart hlt) hreadLen hread hfull
            have hmiddle : (off + 4096).toNat < size.toNat → (off + 4096).toNat = 0 ∨
                offset.toNat + (off + 4096).toNat ≤ file.bytes.length := by
              rw [hnext]
              exact fun hless => .inr (hroom hless)
            exact congrFun (ih (by omega) (by omega) hmiddle) _
          · rw [if_pos hfull, if_pos hfull]
            rfl

theorem loadSegment_eq_loop (file : ExecFile) (offset : UInt32) (pgtbl va : UInt64)
    (size : UInt32) {turns : Nat} (hmore : (size.toNat + 4095) / 4096 < turns) :
    loadSegment file offset pgtbl va size = (do
      massert (va % pgsize = 0) "load_segment: va must be page aligned"
      loop (segmentTurn file offset pgtbl va size) .loops turns 0) := by
  have hloop : loadSegmentLoop file offset pgtbl va size ((size.toNat + 4095) / 4096) 0 =
      loop (segmentTurn file offset pgtbl va size) .loops turns 0 :=
    loadSegmentLoop_eq_loop rfl hmore fun _ => .inl rfl
  unfold loadSegment
  rw [hloop]

def growTurn (pgtbl flags newHeapTop ptr : UInt64) : MemM (Turn UInt64 Unit) := do
  if ptr < newHeapTop then
    let pg ← pmemAlloc false
    massert (pg ≠ 0) "uvm_heap_grow failed"
    vmMappages pgtbl ptr pg pgsize (flags ||| pteU)
    updateMem fun m => m.memset pg.toNat 0 4096
    return .next (ptr + pgsize)
  else
    return .ends ()

theorem grow_next {ptr pg perm : UInt64} {value : Unit} {s s' : MemState}
    (h : vmMappages pgtbl ptr pg pgsize perm s = .ok (value, s')) :
    (ptr + pgsize).toNat = ptr.toNat + 4096 := by
  unfold vmMappages massert at h
  obtain ⟨⟨haligned, _⟩, h⟩ := Exec.require_bind_eq_ok.mp h
  obtain ⟨_, h⟩ := Exec.require_bind_eq_ok.mp h
  obtain ⟨hmax, _⟩ := Exec.require_bind_eq_ok.mp h
  rw [aligned_iff] at haligned
  refine add_pgsize_toNat ?_
  by_contra hlast
  have hlt := ptr.toNat_lt
  obtain rfl : ptr = 0xFFFFFFFFFFFFF000 :=
    UInt64.toNat_inj.mp (show ptr.toNat = 0xFFFFFFFFFFFFF000 by omega)
  exact absurd hmax (by decide)

theorem heapGrowLoop_eq_loop {flags newHeapTop ptr : UInt64} {count turns : Nat}
    (hcount : count = (newHeapTop.toNat - ptr.toNat + 4095) / 4096) (hmore : count < turns) :
    heapGrowLoop pgtbl flags count ptr =
      loop (growTurn pgtbl flags newHeapTop) .loops turns ptr := by
  induction count generalizing ptr turns with
  | zero =>
      obtain ⟨turns, rfl⟩ := Nat.exists_eq_succ_of_ne_zero (Nat.ne_of_gt hmore)
      have hge : ¬ ptr < newHeapTop := by
        rw [UInt64.lt_iff_toNat_lt]
        omega
      rw [loop, growTurn, if_neg hge]
      rfl
  | succ count ih =>
      obtain ⟨turns, rfl⟩ := Nat.exists_eq_succ_of_ne_zero (Nat.ne_of_gt (Nat.zero_lt_of_lt hmore))
      have hlt : ptr < newHeapTop := by
        rw [UInt64.lt_iff_toNat_lt]
        omega
      rw [heapGrowLoop, loop, growTurn, if_pos hlt, bind_assoc]
      refine bind_congr fun pg => ?_
      rw [bind_assoc]
      refine bind_congr fun _ => ?_
      rw [bind_assoc]
      funext s
      refine Exec.bind_congr_of_ok fun _ s' hmap => ?_
      have hnext := grow_next hmap
      rw [bind_assoc, updateMem_bind, updateMem_bind, pure_bind]
      exact congrFun (ih (by omega) (by omega)) _

theorem uvmHeapGrow_eq_loop (pgtbl heapTop flags : UInt64) (len : UInt32) {turns : Nat}
    (hmore : ((heapTop + len.toUInt64).toNat - heapTop.toNat + 4095) / 4096 < turns) :
    uvmHeapGrow pgtbl heapTop len flags = (do
      loop (growTurn pgtbl flags (heapTop + len.toUInt64)) .loops turns heapTop
      return heapTop + len.toUInt64) := by
  unfold uvmHeapGrow
  dsimp only
  rw [heapGrowLoop_eq_loop rfl hmore]

end UnoOS.Uvm
