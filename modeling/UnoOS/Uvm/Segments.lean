import UnoOS.Uvm.EnoughMemory
import UnoOS.Lib.Outcome

namespace UnoOS.Uvm

open UnoOS.Lib
open UnoOS.Kernel (ProcId)
open UnoOS.Mem

/-! The segments of an executable file, and when `proc_exec` loads all of them. -/

/-! What a file describes. -/

namespace ExecFile

variable (file : ExecFile)

def header : ElfHeader := elfHeader (buffer (file.bytes.take 64))

def headerAt (i : Nat) : ProgramHeader :=
  programHeader (buffer ((file.bytes.drop (file.header.phOff.toNat + 56 * i)).take 56))

def headers : List ProgramHeader :=
  (List.range file.header.phEntNum.toNat).map file.headerAt

def segments : List ProgramHeader :=
  file.headers.filter fun ph => ph.type = elfProgLoad

end ExecFile

def ProgramHeader.end_ (ph : ProgramHeader) : Nat := ph.va.toNat + ph.memSize.toNat

structure Loadable (file : ExecFile) (ph : ProgramHeader) : Prop where
  aligned : ph.va.toNat % 4096 = 0
  start : userVmemStart.toNat ≤ ph.va.toNat
  sizes : ph.fileSize.toNat ≤ ph.memSize.toNat
  length : ph.memSize.toNat < 2 ^ 32
  inside : ph.fileSize.toNat ≠ 0 → ph.off.toNat + ph.fileSize.toNat ≤ file.bytes.length

def InOrder : List ProgramHeader → Prop :=
  List.Pairwise fun ph ph' => ph.va < ph'.va ∧ ph.end_ ≤ ph'.va.toNat

structure WellFormed (file : ExecFile) : Prop where
  header : 64 ≤ file.bytes.length
  magic : file.header.magic = elfMagic
  table : file.header.phOff.toNat + 56 * file.header.phEntNum.toNat ≤ file.bytes.length
  loadable : ∀ ph ∈ file.segments, Loadable file ph
  order : InOrder file.segments

def TableReached (file : ExecFile) : Prop :=
  file.header.phEntNum.toNat ≠ 0 →
    file.header.phOff.toNat + 56 * file.header.phEntNum.toNat ≤ reachedSize

/-- All that `proc_exec` reads of a file lies in blocks that `inode_locate_block` looks up in
`addrs[]`. -/
structure InReach (file : ExecFile) : Prop where
  table : TableReached file
  data : ∀ ph ∈ file.segments, ph.fileSize.toNat ≠ 0 →
    ph.off.toNat + ph.fileSize.toNat ≤ reachedSize

def ExecFile.over (file : ExecFile)
    (behind : (offset len : Nat) → Except String (Nat → UInt8)) : ExecFile :=
  { file with behind := behind }

theorem WellFormed.over {file : ExecFile} (h : WellFormed file)
    (behind : (offset len : Nat) → Except String (Nat → UInt8)) :
    WellFormed (file.over behind) :=
  ⟨h.header, h.magic, h.table,
    fun ph hmem => ⟨(h.loadable ph hmem).aligned, (h.loadable ph hmem).start,
      (h.loadable ph hmem).sizes, (h.loadable ph hmem).length, (h.loadable ph hmem).inside⟩,
    h.order⟩

/-- Each segment ends less than 2^32 bytes behind `top`, the end of the one before, which
is the end of a page. -/
def Joined : (top : Nat) → List ProgramHeader → Prop
  | _, [] => True
  | top, ph :: rest => top % 4096 = 0 ∧ ph.end_ < top + 2 ^ 32 ∧ Joined ph.end_ rest

instance decidableJoined : (top : Nat) → (phs : List ProgramHeader) → Decidable (Joined top phs)
  | _, [] => inferInstanceAs (Decidable True)
  | _, ph :: rest =>
      have := decidableJoined ph.end_ rest
      inferInstanceAs (Decidable (_ ∧ _ ∧ _))

def lastEnd : (top : Nat) → List ProgramHeader → Nat
  | top, [] => top
  | _, ph :: rest => lastEnd ph.end_ rest

structure SegmentLoaded (file : ExecFile) (ph : ProgramHeader) (read : UInt64 → Option UInt8) :
    Prop where
  data : ∀ i, i < ph.fileSize.toNat →
    read (ph.va + UInt64.ofNat i) = file.bytes[ph.off.toNat + i]?
  zeros : ∀ i, ph.fileSize.toNat ≤ i → i < ph.memSize.toNat →
    read (ph.va + UInt64.ofNat i) = some 0

/-- `proc_exec` succeeds, all segments are in the new address space, and the heap begins
with the page behind the last one. -/
def LoadsAll (p : ProcId) (file : ExecFile) (argv : List (List UInt8)) (st : UvmState) :
    Prop :=
  ∃ st', procExec p (some file) argv st = .ok ((argv.length : Int), st') ∧
    (∀ ph ∈ file.segments, SegmentLoaded file ph (st'.readByte p)) ∧
    (st'.procs p).heapTop.toNat = pageEnd (lastEnd userVmemStart.toNat file.segments)

/-! The loop over the program headers as one over a list. -/

def loadHeaders (file : ExecFile) (pgtbl : UInt64) :
    List ProgramHeader → (heapTop : UInt64) → MemM (Option UInt64)
  | [], heapTop => return some heapTop
  | ph :: rest, heapTop => do
      match ← loadProgram file pgtbl ph heapTop with
      | none => return none
      | some newHeapTop => loadHeaders file pgtbl rest newHeapTop

variable {s s' : MemState} {roots : Set UInt64} {lk lu : List UInt64}
  {tfs : Set UInt64} {root : UInt64} {file : ExecFile} {heapTop newHeapTop : UInt64}
  {phs : List ProgramHeader}

theorem loadHeaders_filter (phs : List ProgramHeader) (heapTop : UInt64) (s : MemState) :
    loadHeaders file root phs heapTop s =
      loadHeaders file root (phs.filter fun ph => ph.type = elfProgLoad) heapTop s := by
  induction phs generalizing heapTop s with
  | nil => rfl
  | cons ph rest ih =>
      by_cases htype : ph.type = elfProgLoad
      · rw [List.filter_cons, if_pos (decide_eq_true htype), loadHeaders, loadHeaders,
          Exec.bind_apply, Exec.bind_apply]
        cases loadProgram file root ph heapTop s with
        | error reason => rfl
        | ok result =>
            obtain ⟨next, s₁⟩ := result
            cases next with
            | none => rfl
            | some next => exact ih next s₁
      · rw [List.filter_cons, if_neg (by simpa using htype), loadHeaders,
          Exec.bind_of_ok (loadProgram_skip htype s)]
        exact ih heapTop s

theorem ExecFile.phEnd_toNat
    (htable : file.header.phOff.toNat + 56 * file.header.phEntNum.toNat ≤ file.bytes.length) :
    (file.header.phOff + file.header.phEntNum.toUInt64 *
      programHeaderSize.toUInt64).toNat =
        file.header.phOff.toNat + 56 * file.header.phEntNum.toNat := by
  have hlt := file.length_lt
  have hentries := file.header.phEntNum.toNat_lt
  have hsize : programHeaderSize.toUInt64.toNat = 56 := rfl
  rw [UInt64.toNat_add, UInt64.toNat_mul, UInt16.toNat_toUInt64, hsize]
  omega

theorem loadPrograms_eq {turns i n : Nat} {off : UInt32}
    (hlast : i + n = file.header.phEntNum.toNat)
    (htable : file.header.phOff.toNat + 56 * file.header.phEntNum.toNat ≤ file.bytes.length)
    (hreach : TableReached file) (hoff : off.toNat = file.header.phOff.toNat + 56 * i)
    (hturns : n < turns) :
    loadPrograms file file.header root turns off heapTop s =
      loadHeaders file root ((List.range' i n).map file.headerAt) heapTop s := by
  have hlt := file.length_lt
  have hsize32 : programHeaderSize.toNat = 56 := rfl
  have hend := ExecFile.phEnd_toNat htable
  induction n generalizing i turns off heapTop s with
  | zero =>
      obtain ⟨turns, rfl⟩ := Nat.exists_eq_succ_of_ne_zero (Nat.ne_of_gt hturns)
      rw [loadPrograms, if_neg]
      · rfl
      · rw [UInt64.lt_iff_toNat_lt, UInt32.toNat_toUInt64, hend]
        omega
  | succ n ih =>
      obtain ⟨turns, rfl⟩ := Nat.exists_eq_succ_of_ne_zero (Nat.ne_of_gt
        (Nat.lt_of_le_of_lt (Nat.zero_le _) hturns))
      have hreach' := hreach (by omega)
      have hread : file.readData off programHeaderSize =
          .ok (programHeaderSize, (file.bytes.drop off.toNat).take programHeaderSize.toNat) :=
        readData_of_le (by omega) (by omega)
      have hnext : (off + programHeaderSize).toNat =
          file.header.phOff.toNat + 56 * (i + 1) := by
        rw [UInt32.toNat_add, hsize32]
        exact (Nat.mod_eq_of_lt (by omega)).trans (by omega)
      have hhead : programHeader
          (buffer ((file.bytes.drop off.toNat).take programHeaderSize.toNat)) =
            file.headerAt i := by
        rw [hoff]
        rfl
      rw [loadPrograms, if_pos, List.range'_succ, List.map_cons, loadHeaders]
      · rw [Exec.bind_of_ok (inodeReadData_of_ok hread s), if_neg (not_not.mpr rfl), hhead,
          Exec.bind_apply, Exec.bind_apply]
        cases loadProgram file root (file.headerAt i) heapTop s with
        | error reason => rfl
        | ok result =>
            obtain ⟨next, s₁⟩ := result
            cases next with
            | none => rfl
            | some next => exact ih (by omega) hnext (by omega)
      · rw [UInt64.lt_iff_toNat_lt, UInt32.toNat_toUInt64, hend]
        omega

theorem readData_elfHeader (h : WellFormed file) :
    file.readData 0 elfHeaderSize = .ok (elfHeaderSize, file.bytes.take 64) := by
  have hsize32 : elfHeaderSize.toNat = 64 := rfl
  have hroom := h.header
  exact readData_of_le (show 0 + elfHeaderSize.toNat ≤ _ by omega) fun _ => by decide

theorem ExecFile.phOff_toNat (h : WellFormed file) :
    file.header.phOff.toUInt32.toNat = file.header.phOff.toNat + 56 * 0 := by
  have htable := h.table
  have hlt := file.length_lt
  rw [UInt64.toNat_toUInt32]
  exact Nat.mod_eq_of_lt (by omega)

theorem loadImage_eq_loadPrograms (h : WellFormed file) (s : MemState) :
    loadImage file root s = (do
      match ← loadPrograms file file.header root (file.bytes.length / 56 + 2)
          file.header.phOff.toUInt32 userVmemStart with
      | none => return none
      | some heapTop => return some (file.header.entry, heapTop) : MemM _) s := by
  have hheader : elfHeader (buffer (file.bytes.take 64)) = file.header := rfl
  unfold loadImage
  rw [Exec.bind_of_ok (inodeReadData_of_ok (readData_elfHeader h) s)]
  dsimp only
  rw [hheader, if_neg (not_not.mpr rfl)]
  exact (congrFun (if_neg (not_not.mpr h.magic)) s).trans (Exec.bind_congr rfl)

theorem loadImage_eq (h : WellFormed file) (hreach : TableReached file) (s : MemState) :
    loadImage file root s = (do
      match ← loadHeaders file root file.segments userVmemStart with
      | none => return none
      | some heapTop => return some (file.header.entry, heapTop) : MemM _) s := by
  have htable := h.table
  have hloop : loadPrograms file file.header root (file.bytes.length / 56 + 2)
      file.header.phOff.toUInt32 userVmemStart s =
        loadHeaders file root ((List.range' 0 file.header.phEntNum.toNat).map file.headerAt)
          userVmemStart s :=
    loadPrograms_eq (Nat.zero_add _) htable hreach (ExecFile.phOff_toNat h) (by omega)
  have hsegments : loadHeaders file root
      ((List.range' 0 file.header.phEntNum.toNat).map file.headerAt) userVmemStart s =
        loadHeaders file root file.segments userVmemStart s := by
    rw [← List.range_eq_range']
    exact loadHeaders_filter _ _ _
  rw [loadImage_eq_loadPrograms h]
  exact Exec.bind_congr (hloop.trans hsegments)

/-! What was loaded from a file that cannot be read behind `addrs[]`. -/

theorem loadPrograms_reached {turns i n : Nat} {off : UInt32} (hblind : file.Blind)
    (hlast : i + n = file.header.phEntNum.toNat)
    (htable : file.header.phOff.toNat + 56 * file.header.phEntNum.toNat ≤ file.bytes.length)
    (hoff : off.toNat = file.header.phOff.toNat + 56 * i)
    (hrun : loadPrograms file file.header root turns off heapTop s =
      .ok (some newHeapTop, s')) :
    n ≠ 0 → file.header.phOff.toNat + 56 * file.header.phEntNum.toNat ≤ reachedSize := by
  have hlt := file.length_lt
  have hsize32 : programHeaderSize.toNat = 56 := rfl
  have hend := ExecFile.phEnd_toNat htable
  induction n generalizing i turns off heapTop s with
  | zero => exact fun hne => absurd rfl hne
  | succ n ih =>
      intro _
      cases turns with
      | zero => cases hrun
      | succ turns =>
          rw [loadPrograms, if_pos (by
            rw [UInt64.lt_iff_toNat_lt, UInt32.toNat_toUInt64, hend]
            omega)] at hrun
          obtain ⟨data, hread, hrun⟩ := inodeReadData_bind_eq_ok.mp hrun
          split at hrun
          · cases hrun
          next hfull =>
          have hreached := (readData_full (by decide) hread (not_not.mp hfull)).2.2.2 hblind
            (by decide)
          obtain ⟨loaded, s₁, _, hrun⟩ := Exec.bind_eq_ok.mp hrun
          cases loaded with
          | none => cases hrun
          | some next =>
              have hnext : (off + programHeaderSize).toNat =
                  file.header.phOff.toNat + 56 * (i + 1) := by
                rw [UInt32.toNat_add, hsize32]
                exact (Nat.mod_eq_of_lt (by omega)).trans (by omega)
              by_cases hmore : n = 0
              · omega
              · exact ih (by omega) hnext hrun hmore

theorem loadImage_reached {image : UInt64 × UInt64} (hblind : file.Blind)
    (h : WellFormed file) (hrun : loadImage file root s = .ok (some image, s')) :
    TableReached file := by
  rw [loadImage_eq_loadPrograms h] at hrun
  obtain ⟨loaded, s₁, hload, hrun⟩ := Exec.bind_eq_ok.mp hrun
  cases loaded with
  | none => cases hrun
  | some top =>
      exact loadPrograms_reached hblind (Nat.zero_add _) h.table (ExecFile.phOff_toNat h) hload

/-! Segments that were loaded are joined. -/

theorem joined_of_loadHeaders (h : Spaces s roots lk lu tfs ∅) (hroot : root ∈ roots)
    (hentries : SoundEntries s.mem root) (hheap : heapTop.toNat ≤ trapframe.toNat)
    (htypes : ∀ ph ∈ phs, ph.type = elfProgLoad) (horder : InOrder phs)
    (hbehind : ∀ ph ∈ phs, heapTop.toNat ≤ ph.va.toNat)
    (hrun : loadHeaders file root phs heapTop s = .ok (some newHeapTop, s')) :
    Joined heapTop.toNat phs ∧ (file.Blind → ∀ ph ∈ phs, SegmentReached ph) := by
  induction phs generalizing heapTop s lk lu with
  | nil => exact ⟨trivial, fun _ ph hmem => absurd hmem List.not_mem_nil⟩
  | cons ph rest ih =>
      rw [loadHeaders, Exec.bind_eq_ok] at hrun
      obtain ⟨next, s₁, hload, hrun⟩ := hrun
      cases next with
      | none => cases hrun
      | some next =>
          obtain ⟨hbuilds, hfits, _⟩ := loadProgram_spec h hroot hentries hheap
            (htypes ph List.mem_cons_self) hload
          obtain ⟨lk₁, lu₁, h₁⟩ := hbuilds.spaces
          obtain ⟨hfirst, horder'⟩ := List.pairwise_cons.mp horder
          have hends : next.toNat = ph.end_ := hfits.ends
          obtain ⟨hrest, hreached⟩ := ih h₁ (hbuilds.entries hentries) hfits.below
            (fun ph' hmem => htypes ph' (List.mem_cons_of_mem _ hmem)) horder'
            (fun ph' hmem => hends ▸ (hfirst ph' hmem).2) hrun
          rw [hends] at hrest
          have hlow := hbehind ph List.mem_cons_self
          have hva := hfits.aligned
          have hlength := hfits.length
          have hstart := hfits.start
          unfold ProgramHeader.end_ at hends
          refine ⟨⟨?_, ?_, hrest⟩, ?_⟩
          · by_cases hgrown : heapTop.toNat < next.toNat
            · exact hstart hgrown
            · have hsame : heapTop.toNat = ph.va.toNat := by omega
              rw [hsame]
              exact hva
          · unfold ProgramHeader.end_
            omega
          · intro hblind ph' hmem
            rcases List.mem_cons.mp hmem with rfl | hmem
            · exact hfits.loaded.reached hblind
            · exact hreached hblind ph' hmem

end UnoOS.Uvm
