import UnoOS.Uvm.CopyStr

namespace UnoOS.Uvm

open UnoOS.Lib
open UnoOS.Mem

/-! The strings that system calls take from user memory, and whether the copies have
an end. -/

abbrev dirPathLen : UInt32 := 128

abbrev elfMaxargLen : UInt32 := 4096

/-- The registers `a0` to `a5` of the trapframe. -/
abbrev Args := Fin 6 → UInt64

def argStr (pgtbl : UInt64) (args : Args) (n : Fin 6) (buf : UInt64)
    (maxlen : UInt32) : MemM Unit :=
  uvmCopyinStr pgtbl buf (args n) maxlen

/-- A path of a system call, or an argument of `sys_exec`, whose address is in the
array of the arguments. -/
inductive UserText where
  | openPath
  | mkdirPath
  | chdirPath
  | linkOldPath
  | linkNewPath
  | unlinkPath
  | execPath
  | execArg (strAddr : UInt64)

namespace UserText

/-- The size of the array on the stack or of the page that the copy goes to. -/
def limit : UserText → UInt32
  | execArg _ => elfMaxargLen
  | _ => dirPathLen

def address (args : Args) : UserText → UInt64
  | linkNewPath => args 1
  | execArg strAddr => strAddr
  | _ => args 0

def copyin (pgtbl : UInt64) (args : Args) (dst : UInt64) : UserText → MemM Unit
  | openPath => argStr pgtbl args 0 dst dirPathLen
  | mkdirPath => argStr pgtbl args 0 dst dirPathLen
  | chdirPath => argStr pgtbl args 0 dst dirPathLen
  | linkOldPath => argStr pgtbl args 0 dst dirPathLen
  | linkNewPath => argStr pgtbl args 1 dst dirPathLen
  | unlinkPath => argStr pgtbl args 0 dst dirPathLen
  | execPath => argStr pgtbl args 0 dst dirPathLen
  | execArg strAddr => uvmCopyinStr pgtbl dst strAddr elfMaxargLen

theorem copyin_eq (text : UserText) (pgtbl : UInt64) (args : Args) (dst : UInt64) :
    text.copyin pgtbl args dst =
      uvmCopyinStr pgtbl dst (text.address args) text.limit := by
  cases text <;> rfl

end UserText

def Terminated (m : Memory) (dst : UInt64) (limit : UInt32) : Prop :=
  ∃ i, i < limit.toNat ∧ m (dst.toNat + i) = 0

/-- A NUL is among as many bytes from the address on as the buffer has, where
`uvm_copyin_str` reads them. -/
def NulInReach (m : Memory) (pgtbl src : UInt64) (limit : UInt32) : Prop :=
  ∃ i, i < limit.toNat ∧ m (strPlace m pgtbl src i) = 0

/-- None of the places that the copy may read is in the buffer. -/
def ReadsApart (m : Memory) (pgtbl src dst : UInt64) (limit : UInt32) : Prop :=
  ∀ i, i < limit.toNat → ∀ j, j < limit.toNat →
    strPlace m pgtbl src i ≠ dst.toNat + j

variable {s s' : MemState} {pgtbl dst : UInt64} {args : Args} {text : UserText}

/-- Nothing but a NUL of the user's ends a copy: a full buffer has none. -/
theorem text_terminated_iff (hframed : Framed s.mem pgtbl)
    (hbuffer : TextBuffer s.mem pgtbl dst text.limit)
    (hapart : ReadsApart s.mem pgtbl (text.address args) dst text.limit)
    (hrun : text.copyin pgtbl args dst s = .ok ((), s')) :
    Terminated s'.mem dst text.limit ↔
      NulInReach s.mem pgtbl (text.address args) text.limit := by
  rw [text.copyin_eq, uvmCopyinStr_eq] at hrun
  obtain ⟨places, s₁, hreads, hend⟩ := Exec.bind_eq_ok.mp hrun
  cases hend
  obtain ⟨hdst, hoffset⟩ := copyinStr_start dst (text.address args)
  rw [hdst, hoffset] at hreads
  obtain ⟨done, _, hdone, htaken, _, _, hstop⟩ :=
    copyinStr_stops hbuffer hframed AtByte.start (Nat.zero_add _) Taken.start hreads
      fun j hj _ => hapart j hj
  constructor
  · rintro ⟨i, hi, hnul⟩
    by_cases hread : i < done
    · rw [htaken.copied i hread] at hnul
      exact ⟨i, hi, hnul⟩
    · exact ⟨done - 1, by omega, (hstop (by omega)).2⟩
  · rintro ⟨i, hi, hnul⟩
    by_cases hfull : done < text.limit.toNat
    · obtain ⟨hpos, hlast⟩ := hstop hfull
      refine ⟨done - 1, by omega, ?_⟩
      rw [htaken.copied (done - 1) (by omega), hlast]
    · refine ⟨i, hi, ?_⟩
      rw [htaken.copied i (by omega), hnul]

/-- A page of letters, with a NUL behind them if `n` are not the whole page. -/
def letters (n : Nat) : MemState where
  mem := (((Memory.store64 (fun _ => 0) 0x1000 (paToPte 0x2000 ||| pteV)).store64
    0x2000 (paToPte 0x3000 ||| pteV)).store64 0x3028 (paToPte 0x9000 ||| 0x17)).memset
    0x9000 65 n
  kernRegion := ⟨0, 0, 0, 0⟩
  userRegion := ⟨0, 0, 0, 0⟩
  kernelPgtbl := 0
  freed := []

theorem letters_fits {n : Nat} (hn : n = 3 ∨ n = 128) :
    Framed (letters n).mem 0x1000 ∧
      TextBuffer (letters n).mem 0x1000 0xb000 dirPathLen ∧
      ReadsApart (letters n).mem 0x1000 0x5000 0xb000 dirPathLen := by
  have hlinks : OneBranch (letters n).mem := by
    rcases hn with rfl | rfl
    · decide +kernel
    · decide +kernel
  have hplaces : ∀ i, i < 128 →
      strPlace (letters n).mem 0x1000 0x5000 i < 0xb000 := by
    rcases hn with rfl | rfl
    · decide +kernel
    · decide +kernel
  refine ⟨hlinks.framed ?_, ⟨by decide, ?_⟩, ?_⟩
  · rcases hn with rfl | rfl
    · decide +kernel
    · decide +kernel
  · intro j hj t ht
    exact hlinks.apart ht (show 0x4000 ≤ 0xb000 + j by omega)
  · intro i hi j hj heq
    have hlt := hplaces i hi
    change _ = 0xb000 + j at heq
    omega

theorem text_terminated_short : ∃ s', UserText.mkdirPath.copyin 0x1000
    (fun _ => 0x5000) 0xb000 (letters 3) = .ok ((), s') ∧
      Terminated s'.mem 0xb000 dirPathLen := by
  have hok : (UserText.mkdirPath.copyin 0x1000 (fun _ => 0x5000) 0xb000
      (letters 3)).isOk := by
    decide +kernel
  obtain ⟨hframed, hbuffer, hapart⟩ := letters_fits (.inl rfl)
  have hnul : NulInReach (letters 3).mem 0x1000 0x5000 dirPathLen :=
    ⟨3, by decide, by decide +kernel⟩
  cases hrun : UserText.mkdirPath.copyin 0x1000 (fun _ => 0x5000) 0xb000 (letters 3) with
  | error reason =>
      rw [hrun] at hok
      cases hok
  | ok result =>
      obtain ⟨_, s'⟩ := result
      exact ⟨s', rfl, (@text_terminated_iff (letters 3) s' 0x1000 0xb000 (fun _ => 0x5000)
        .mkdirPath hframed hbuffer hapart hrun).mpr hnul⟩

/-- A path that fills the buffer. -/
theorem text_unterminated :
    ¬ ∀ (s s' : MemState) (pgtbl dst : UInt64) (args : Args) (text : UserText),
      Framed s.mem pgtbl → TextBuffer s.mem pgtbl dst text.limit →
      ReadsApart s.mem pgtbl (text.address args) dst text.limit →
      text.copyin pgtbl args dst s = .ok ((), s') →
      Terminated s'.mem dst text.limit := by
  intro h
  obtain ⟨hframed, hbuffer, hapart⟩ := letters_fits (.inr rfl)
  have hletters : ((UserText.mkdirPath.copyin 0x1000 (fun _ => 0x5000) 0xb000
      (letters 128)).map fun result =>
        (List.range 128).all fun i => result.2.mem (0xb000 + i) != 0).toOption =
          some true := by
    decide +kernel
  cases hrun : UserText.mkdirPath.copyin 0x1000 (fun _ => 0x5000) 0xb000
      (letters 128) with
  | error reason =>
      rw [hrun] at hletters
      cases hletters
  | ok result =>
      obtain ⟨_, s'⟩ := result
      rw [hrun] at hletters
      obtain ⟨i, hi, hnul⟩ := h (letters 128) s' 0x1000 0xb000 (fun _ => 0x5000) .mkdirPath
        hframed hbuffer hapart hrun
      have hchar := List.all_eq_true.mp (Option.some.inj hletters) i (List.mem_range.mpr hi)
      rw [bne_iff_ne] at hchar
      exact hchar hnul

end UnoOS.Uvm
