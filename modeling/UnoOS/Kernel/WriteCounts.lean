import UnoOS.Dev.Console
import UnoOS.Fs.DataCalls
import UnoOS.Kernel.File
import UnoOS.Kernel.Pipe

namespace UnoOS.Kernel

open UnoOS.Lib
open UnoOS.Fs
open UnoOS.Dev

/-! What `file_write` returns, and how many bytes it has moved by then. -/

structure WriteOutcome where
  value : UInt32
  /-- The call came back on a path for errors. -/
  failed : Bool
  /-- The bytes that went to the file, the console or the pipe, in this order. -/
  moved : List UInt8
  deriving DecidableEq

variable {len : UInt32} {src : Nat → UInt8}

theorem range_split (src : Nat → UInt8) (done n more : Nat) :
    (List.range' done n).map src ++ (List.range' (done + n) more).map src =
      (List.range' done (n + more)).map src := by
  rw [← List.map_append, List.range'_append_1]

/-! Regular files. -/

/-- The loop of `inode_write_data`, with the bytes that it stores. -/
def writeLoopMoved (i : Slot) (offset len : Nat) (src : Nat → UInt8) :
    (fuel count : Nat) → (sizeModified : Bool) → FsM (Bool × List UInt8)
  | 0, _, sizeModified => pure (sizeModified, [])
  | fuel + 1, count, sizeModified => do
      if len ≤ count then
        pure (sizeModified, [])
      else
        let beg := offset + count
        let blockNum ← inodeLocateBlock i (beg / blockSize)
        let b ← bufRead blockNum
        let writesize := min (blockSize - beg % blockSize) (len - count)
        bufWrite blockNum
          (b.patch (beg % blockSize) writesize fun k => src (count + k))
        let stored := (List.range' count writesize).map src
        let ip ← readSlot i
        if ip.diskInode.size.toNat < offset + count + writesize then
          writeSlot i { ip with diskInode := { ip.diskInode with
            size := UInt32.ofNat (offset + len) } }
          let rest ← writeLoopMoved i offset len src fuel (count + writesize) true
          return (rest.1, stored ++ rest.2)
        else
          let rest ← writeLoopMoved i offset len src fuel (count + writesize) sizeModified
          return (rest.1, stored ++ rest.2)

def inodeWriteMoved (i : Slot) (offset len : UInt32) (src : Nat → UInt8) :
    FsM WriteOutcome := do
  let ip ← readSlot i
  assertThat ip.locked "inode_write_data: not holding slk"
  if offset + len < offset then
    return ⟨0xFFFFFFFF, true, []⟩
  else if maxFileSize < (offset + len).toNat then
    return ⟨0xFFFFFFFF, true, []⟩
  else
    let stored ← writeLoopMoved i offset.toNat len.toNat src len.toNat 0 false
    if stored.1 then
      inodeRw i true
    return ⟨len, false, stored.2⟩

theorem writeLoop_eq_moved (i : Slot) (offset len : Nat) (src : Nat → UInt8)
    (fuel count : Nat) (modified : Bool) :
    writeLoop i offset len src fuel count modified = (do
      let stored ← writeLoopMoved i offset len src fuel count modified
      return stored.1) := by
  induction fuel generalizing count modified with
  | zero => rfl
  | succ fuel ih =>
      unfold writeLoop writeLoopMoved
      split
      · rfl
      · simp only [ih, bind_assoc]
        apply bind_congr
        intro blockNum
        apply bind_congr
        intro b
        apply bind_congr
        intro _
        apply bind_congr
        intro ip
        split
        · simp only [bind_assoc]
          rfl
        · simp only [bind_assoc]
          rfl

theorem inodeWriteData_eq_moved (i : Slot) (offset len : UInt32) (src : Nat → UInt8) :
    inodeWriteData i offset len src = (do
      let outcome ← inodeWriteMoved i offset len src
      return outcome.value) := by
  unfold inodeWriteData inodeWriteMoved
  rw [bind_assoc]
  apply bind_congr
  intro ip
  rw [bind_assoc]
  apply bind_congr
  intro _
  split
  · rfl
  · split
    · rfl
    · rw [writeLoop_eq_moved, bind_assoc, bind_assoc]
      apply bind_congr
      intro stored
      rw [pure_bind]
      split
      · simp only [bind_assoc, pure_bind]
      · simp only [pure_bind]

/-- A loop that comes to its end has stored the bytes in order. -/
theorem writeLoopMoved_spec {i : Slot} {offset len fuel count : Nat} {modified : Bool}
    {stored : Bool × List UInt8} {s s' : FsState} (hcount : count ≤ len)
    (hfuel : len ≤ count + fuel)
    (hrun : writeLoopMoved i offset len src fuel count modified s = .ok (stored, s')) :
    stored.2 = (List.range' count (len - count)).map src := by
  induction fuel generalizing count modified stored s with
  | zero =>
      cases hrun
      rw [show len - count = 0 by omega]
      rfl
  | succ fuel ih =>
      unfold writeLoopMoved at hrun
      by_cases hdone : len ≤ count
      · rw [if_pos hdone] at hrun
        cases hrun
        rw [show len - count = 0 by omega]
        rfl
      · rw [if_neg hdone] at hrun
        obtain ⟨blockNum, s₁, _, hrun⟩ := Exec.bind_eq_ok.mp hrun
        obtain ⟨b, s₂, _, hrun⟩ := Exec.bind_eq_ok.mp hrun
        obtain ⟨_, s₃, _, hrun⟩ := Exec.bind_eq_ok.mp hrun
        obtain ⟨ip, s₄, _, hrun⟩ := Exec.bind_eq_ok.mp hrun
        have hpos : 0 < blockSize - (offset + count) % blockSize := by
          change 0 < 1024 - _ % 1024
          omega
        generalize hsize : min (blockSize - (offset + count) % blockSize)
          (len - count) = writesize at hrun
        have hrest : ∀ {modified : Bool} {rest : Bool × List UInt8} {s : FsState},
            writeLoopMoved i offset len src fuel (count + writesize) modified s =
              .ok (rest, s') →
            (List.range' count writesize).map src ++ rest.2 =
              (List.range' count (len - count)).map src := by
          intro modified rest s hrun
          have hle : count + writesize ≤ len := by omega
          have hleft : len ≤ count + writesize + fuel := by omega
          rw [ih hle hleft hrun, range_split]
          congr 2
          omega
        split at hrun
        · obtain ⟨_, s₅, _, hrun⟩ := Exec.bind_eq_ok.mp hrun
          obtain ⟨rest, s₆, hloop, hrun⟩ := Exec.bind_eq_ok.mp hrun
          cases hrun
          exact hrest hloop
        · obtain ⟨rest, s₆, hloop, hrun⟩ := Exec.bind_eq_ok.mp hrun
          cases hrun
          exact hrest hloop

theorem inodeWriteMoved_cases {i : Slot} {offset : UInt32} {outcome : WriteOutcome}
    {s s' : FsState} (hrun : inodeWriteMoved i offset len src s = .ok (outcome, s')) :
    outcome = ⟨0xFFFFFFFF, true, []⟩ ∨
      len ≠ 0xFFFFFFFF ∧ outcome = ⟨len, false, (List.range len.toNat).map src⟩ := by
  unfold inodeWriteMoved at hrun
  rw [readSlot_bind, assertThat_bind_eq_ok] at hrun
  obtain ⟨_, hrun⟩ := hrun
  split at hrun
  · cases hrun
    exact .inl rfl
  · next hwrap =>
    split at hrun
    · cases hrun
      exact .inl rfl
    · next hmax =>
      obtain ⟨stored, touched, hloop, hrun⟩ := Exec.bind_eq_ok.mp hrun
      have hstored := writeLoopMoved_spec (Nat.zero_le _) (by omega) hloop
      rw [Nat.sub_zero, ← List.range_eq_range'] at hstored
      have hlen : len ≠ 0xFFFFFFFF := by
        rintro rfl
        rw [UInt32.lt_iff_toNat_lt, UInt32.toNat_add] at hwrap
        change ¬ 67643392 < _ at hmax
        rw [UInt32.toNat_add] at hmax
        change ¬ (offset.toNat + 4294967295) % 4294967296 < _ at hwrap
        change ¬ 67643392 < (offset.toNat + 4294967295) % 4294967296 at hmax
        omega
      rw [← hstored]
      refine .inr ⟨hlen, ?_⟩
      split at hrun
      · obtain ⟨_, flushed, _, hend⟩ := Exec.bind_eq_ok.mp hrun
        cases hend
        rfl
      · cases hrun
        rfl

/-- The bytes that a write has moved stand in the file, from its offset on. -/
theorem inodeWriteMoved_stands {ι : Type} [DecidableEq ι] {live : ι → Option InodeDisk}
    {x : ι} {i : Slot} {offset : UInt32} {outcome : WriteOutcome} {s s' : FsState}
    (h : SlotOwned live x i s) (hnumber : (s.icache i).inodeNum.toNat < 2048)
    (hend : offset.toNat + len.toNat ≤ reachedBlocks * blockSize)
    (hblank : BlankFor s.disk (s.icache i).diskInode offset.toNat
      (offset.toNat + len.toNat))
    (hrun : inodeWriteMoved i offset len src s = .ok (outcome, s'))
    (hfine : outcome.failed = false) :
    outcome.moved =
      (List.range len.toNat).map fun n => fileByte live x i s' (offset.toNat + n) := by
  rcases inodeWriteMoved_cases hrun with rfl | ⟨hlen, rfl⟩
  · cases hfine
  have hdata : inodeWriteData i offset len src s = .ok (len, s') := by
    rw [inodeWriteData_eq_moved, Exec.bind_of_ok hrun]
    rfl
  rcases inodeWriteData_cases hdata with ⟨herror, _⟩ | ⟨_, modified, touched, hloop, hflush⟩
  · exact absurd herror hlen
  obtain ⟨htouch, _, hhere, _⟩ := writeLoop_spec h hend (by exact hblank)
    (Nat.zero_le _) (by omega) hloop
  refine List.map_congr_left fun n hn => ?_
  rw [List.mem_range] at hn
  obtain ⟨hmapped, hbyte⟩ := hhere (offset.toNat + n) (by omega) (by omega)
  rw [Nat.add_sub_cancel_left] at hbyte
  rw [← hbyte, hflush]
  split
  · have hnumber' : (touched.icache i).inodeNum.toNat < 2048 := by
      rw [htouch.inodeNum]
      exact hnumber
    exact (fileByte_flush htouch.owned hnumber' hmapped).2.symm
  · rfl

end UnoOS.Kernel
