import UnoOS.Kernel.State
import UnoOS.Lib.Transition
import UnoOS.Lib.Window

namespace UnoOS.Kernel

open UnoOS.Lib

/-! `pipe.c` among several processes.  What a call does while it holds the lock
of the pipe is one step; between two such sections it sleeps or waits for the
lock, and others may run. -/

def Pipe.contents (pipe : Pipe) : List UInt8 :=
  window pipeSize pipe.data.get pipe.nread.toNat (pipe.nwrite - pipe.nread).toNat

/-- A pipe with the bytes put in and taken out so far, in this order. -/
structure PipeLog where
  pipe : Pipe
  written : List UInt8
  taken : List UInt8

namespace PipeLog

def put (s : PipeLog) (ch : UInt8) : PipeLog :=
  { s with
    pipe := { s.pipe with
      data := s.pipe.data.patch (s.pipe.nwrite.toNat % pipeSize) 1 fun _ => ch
      nwrite := s.pipe.nwrite + 1 }
    written := s.written ++ [ch] }

def take (s : PipeLog) : PipeLog :=
  { s with
    pipe := { s.pipe with nread := s.pipe.nread + 1 }
    taken := s.taken ++ [s.pipe.data.get (s.pipe.nread.toNat % pipeSize)] }

end PipeLog

/-- The loop of `pipe_write` over user memory, from the turn `i` on until it
sleeps or returns.  The counter is an `int`. -/
def pipeWriteFrom (mem : UInt64 → UInt8) (addr : UInt64) :
    (turns : Nat) → (i : UInt32) → PipeLog → SectionEnd × PipeLog
  | 0, i, s => (.returns i, s)
  | turns + 1, i, s =>
      if (s.pipe.nwrite - s.pipe.nread).toNat = pipeSize then
        if s.pipe.readopen then (.sleeps i, s) else (.returns pipeError, s)
      else
        pipeWriteFrom mem addr turns (i + 1)
          (s.put (mem (addr + i.toInt32.toInt64.toUInt64)))

def pipeReadFrom : (turns : Nat) → (i : UInt32) → PipeLog → UInt32 × PipeLog
  | 0, i, s => (i, s)
  | turns + 1, i, s =>
      if s.pipe.nread = s.pipe.nwrite then (i, s)
      else pipeReadFrom turns (i + 1) s.take

/-- `pipe_read` under the lock. -/
def pipeReadSection (len : UInt32) (s : PipeLog) : SectionEnd × PipeLog :=
  if s.pipe.nread = s.pipe.nwrite ∧ s.pipe.writeopen then (.sleeps 0, s)
  else
    let (i, s) := pipeReadFrom len.toNat 0 s
    (.returns i, s)

/-- `pipe_close` under the lock. -/
def pipeCloseSection (writable : Bool) (s : PipeLog) : PipeLog :=
  { s with
    pipe := if writable then { s.pipe with writeopen := false }
      else { s.pipe with readopen := false } }

/-! The system: any number of processes around one pipe. -/

/-- A process in a call waits for the lock, at first or after it slept. -/
inductive PipeCall where
  | idle
  | writing (addr : UInt64) (len i : UInt32)
  | reading (len : UInt32)
  | returned (value : UInt32)

structure PipeSystem (τ : Type) where
  log : PipeLog
  calls : τ → PipeCall

inductive PipeOp (τ : Type) where
  | write (t : τ) (addr : UInt64) (len : UInt32)
  | read (t : τ) (len : UInt32)
  /-- A process gets the lock.  It may have been woken up without need. -/
  | turn (t : τ) (mem : UInt64 → UInt8)
  | close (writable : Bool)

namespace PipeSystem

variable {τ : Type} [DecidableEq τ]

def init (data : Bytes pipeSize) : PipeSystem τ where
  log := {
    pipe := ⟨data, 0, 0, true, true, false⟩
    written := []
    taken := [] }
  calls := fun _ => .idle

def left (st : PipeSystem τ) (log : PipeLog) (t : τ) (call : PipeCall) :
    PipeSystem τ where
  log := log
  calls := Function.update st.calls t call

/-- A call that does not hold the lock yet. -/
def start (st : PipeSystem τ) (t : τ) (call : PipeCall) :
    Option (PipeSystem τ) :=
  match st.calls t with
  | .idle => some (st.left st.log t call)
  | .returned _ => some (st.left st.log t call)
  | _ => none

def step (st : PipeSystem τ) : PipeOp τ → Option (PipeSystem τ)
  | .write t addr len =>
      st.start t (if len = 0 then .returned 0 else .writing addr len 0)
  | .read t len => st.start t (if len = 0 then .returned 0 else .reading len)
  | .turn t mem =>
      match st.calls t with
      | .writing addr len i =>
          match pipeWriteFrom mem addr (len.toNat - i.toNat) i st.log with
          | (.sleeps i, log) =>
              some (st.left log t (.writing addr len i))
          | (.returns value, log) =>
              some (st.left log t (.returned value))
      | .reading len =>
          match pipeReadSection len st.log with
          | (.sleeps _, log) => some (st.left log t (.reading len))
          | (.returns value, log) =>
              some (st.left log t (.returned value))
      | _ => none
  | .close writable => some { st with log := pipeCloseSection writable st.log }

end PipeSystem

/-! The counters and the buffer are the queue of what was written and not yet
taken. -/

namespace PipeLog

variable {s : PipeLog}

structure Fifo (s : PipeLog) : Prop where
  nwrite : s.pipe.nwrite.toNat = s.written.length
  nread : s.pipe.nread.toNat = s.taken.length
  contents : s.written = s.taken ++ s.pipe.contents
  room : s.pipe.contents.length ≤ pipeSize

/-- As long as the counters have not wrapped. -/
def Sound (s : PipeLog) : Prop := s.written.length < 2 ^ 32 → s.Fifo

theorem length_contents (pipe : Pipe) :
    pipe.contents.length = (pipe.nwrite - pipe.nread).toNat :=
  length_window

theorem contents_of_empty {pipe : Pipe} (h : pipe.nread = pipe.nwrite) :
    pipe.contents = [] := by
  apply List.eq_nil_of_length_eq_zero
  rw [length_contents, h, UInt32.sub_self]
  rfl

theorem Fifo.length_eq (h : s.Fifo) :
    s.written.length = s.taken.length + (s.pipe.nwrite - s.pipe.nread).toNat := by
  have hlength := congrArg List.length h.contents
  rwa [List.length_append, length_contents] at hlength

theorem toNat_succ {x : UInt32} (h : x.toNat + 1 < 2 ^ 32) :
    (x + 1).toNat = x.toNat + 1 := by
  rw [UInt32.toNat_add]
  exact Nat.mod_eq_of_lt h

theorem toNat_sub_of_eq {x y : UInt32} {n : Nat} (h : x.toNat = y.toNat + n) :
    (x - y).toNat = n := by
  rw [UInt32.toNat_sub_of_le _ _ (UInt32.le_iff_toNat_le.mpr (by omega))]
  omega

theorem put_get_self (s : PipeLog) (ch : UInt8) :
    (s.put ch).pipe.data.get (s.pipe.nwrite.toNat % pipeSize) = ch :=
  Bytes.get_patch_of_mem s.pipe.data (fun _ => ch) (Nat.mod_lt _ (by decide))
    (le_refl _) (by omega)

theorem put_get_of_ne (s : PipeLog) (ch : UInt8) {i : Nat}
    (h : i ≠ s.pipe.nwrite.toNat % pipeSize) :
    (s.put ch).pipe.data.get i = s.pipe.data.get i :=
  Bytes.get_patch_of_not_mem s.pipe.data (fun _ => ch) (by omega)

theorem Sound.put (h : s.Sound)
    (hroom : (s.pipe.nwrite - s.pipe.nread).toNat ≠ pipeSize) (ch : UInt8) :
    (s.put ch).Sound := by
  intro hfew
  have hlen : (s.put ch).written.length = s.written.length + 1 := by
    simp [PipeLog.put]
  have hfifo := h (by omega)
  have hsum := hfifo.length_eq
  have hbound := hfifo.room
  rw [length_contents] at hbound
  have hnwrite : (s.put ch).pipe.nwrite.toNat = s.written.length + 1 := by
    rw [← hfifo.nwrite]
    exact toNat_succ (by rw [hfifo.nwrite]; omega)
  have hcount : ((s.put ch).pipe.nwrite - (s.put ch).pipe.nread).toNat =
      (s.pipe.nwrite - s.pipe.nread).toNat + 1 := by
    apply toNat_sub_of_eq
    rw [hnwrite]
    change _ = s.pipe.nread.toNat + _
    rw [hfifo.nread]
    omega
  have hplace : s.pipe.nread.toNat + (s.pipe.nwrite - s.pipe.nread).toNat =
      s.pipe.nwrite.toNat := by
    rw [hfifo.nread, hfifo.nwrite]
    omega
  have hcontents : (s.put ch).pipe.contents = s.pipe.contents ++ [ch] := by
    have hcell : ∀ i, i < pipeSize → i ≠
        (s.pipe.nread.toNat + (s.pipe.nwrite - s.pipe.nread).toNat) % pipeSize →
        (s.put ch).pipe.data.get i = s.pipe.data.get i := by
      intro i _ hne
      rw [hplace] at hne
      exact put_get_of_ne s ch hne
    unfold Pipe.contents
    rw [hcount]
    refine (window_push (by omega) hcell).trans ?_
    rw [hplace, put_get_self]
  refine ⟨hnwrite.trans hlen.symm, hfifo.nread, ?_, ?_⟩
  · rw [hcontents, ← List.append_assoc]
    exact congrArg (· ++ [ch]) hfifo.contents
  · rw [length_contents, hcount]
    omega

theorem Sound.take (h : s.Sound) (hsome : s.pipe.nread ≠ s.pipe.nwrite) :
    s.take.Sound := by
  intro hfew
  have hfifo := h hfew
  have hsum := hfifo.length_eq
  have hpos : (s.pipe.nwrite - s.pipe.nread).toNat ≠ 0 := by
    intro hzero
    apply hsome
    apply UInt32.toNat_inj.mp
    rw [hfifo.nread, hfifo.nwrite]
    omega
  obtain ⟨n, hn⟩ := Nat.exists_eq_succ_of_ne_zero hpos
  change s.written.length < 2 ^ 32 at hfew
  have hnread : s.take.pipe.nread.toNat = s.pipe.nread.toNat + 1 :=
    toNat_succ (by rw [hfifo.nread]; omega)
  have hcount : (s.take.pipe.nwrite - s.take.pipe.nread).toNat = n := by
    apply toNat_sub_of_eq
    rw [hnread, hfifo.nread]
    change s.pipe.nwrite.toNat = _
    rw [hfifo.nwrite]
    omega
  have hcontents : s.pipe.contents =
      s.pipe.data.get (s.pipe.nread.toNat % pipeSize) :: s.take.pipe.contents := by
    unfold Pipe.contents
    rw [hcount, hn, hnread]
    exact window_succ
  refine ⟨hfifo.nwrite, ?_, ?_, ?_⟩
  · rw [hnread, hfifo.nread]
    simp [PipeLog.take]
  · rw [PipeLog.take, List.append_assoc, List.singleton_append]
    exact hfifo.contents.trans (congrArg (s.taken ++ ·) hcontents)
  · have hbound := hfifo.room
    rw [hcontents, List.length_cons] at hbound
    omega

theorem Sound.writeFrom (h : s.Sound) (mem : UInt64 → UInt8) (addr : UInt64)
    (turns : Nat) (i : UInt32) : (pipeWriteFrom mem addr turns i s).2.Sound := by
  induction turns generalizing s i with
  | zero => exact h
  | succ turns ih =>
      rw [pipeWriteFrom]
      split
      · split
        · exact h
        · exact h
      · next hroom => exact ih (h.put hroom _) (i + 1)

theorem Sound.readFrom (h : s.Sound) (turns : Nat) (i : UInt32) :
    (pipeReadFrom turns i s).2.Sound := by
  induction turns generalizing s i with
  | zero => exact h
  | succ turns ih =>
      rw [pipeReadFrom]
      split
      · exact h
      · next hsome => exact ih (h.take hsome) (i + 1)

theorem Sound.readSection (h : s.Sound) (len : UInt32) :
    (pipeReadSection len s).2.Sound := by
  unfold pipeReadSection
  split
  · exact h
  · exact h.readFrom len.toNat 0

theorem Sound.closeSection (h : s.Sound) (writable : Bool) :
    (pipeCloseSection writable s).Sound := by
  intro hfew
  obtain ⟨hnwrite, hnread, hcontents, hroom⟩ := h hfew
  unfold pipeCloseSection
  cases writable with
  | true => exact ⟨hnwrite, hnread, hcontents, hroom⟩
  | false => exact ⟨hnwrite, hnread, hcontents, hroom⟩

theorem le_pipeReadFrom {turns : Nat} {i : UInt32} (h : i.toNat + turns < 2 ^ 32) :
    i.toNat ≤ (pipeReadFrom turns i s).1.toNat := by
  induction turns generalizing s i with
  | zero => exact le_refl _
  | succ turns ih =>
      have hi := toNat_succ (x := i) (by omega)
      rw [pipeReadFrom]
      split
      · exact le_refl _
      · exact (by omega : i.toNat ≤ (i + 1).toNat).trans (ih (by omega))

theorem empty_of_readFrom_zero {turns : Nat} (hturns : turns < 2 ^ 32)
    (hpos : turns ≠ 0) (hzero : (pipeReadFrom turns 0 s).1 = 0) :
    s.pipe.nread = s.pipe.nwrite := by
  obtain ⟨turns, rfl⟩ := Nat.exists_eq_succ_of_ne_zero hpos
  rw [pipeReadFrom] at hzero
  split at hzero
  · assumption
  · have hone : (0 + 1 : UInt32).toNat = 1 := rfl
    have hle : (0 + 1 : UInt32).toNat ≤ (pipeReadFrom turns (0 + 1) s.take).1.toNat :=
      le_pipeReadFrom (by omega)
    rw [hzero] at hle
    exact absurd hle (by decide)

theorem readSection_returns_zero {len : UInt32} (hlen : len ≠ 0)
    (h : (pipeReadSection len s).1 = .returns 0) :
    s.pipe.contents = [] ∧ s.pipe.writeopen = false := by
  have hpos : len.toNat ≠ 0 := fun hzero => hlen (UInt32.toNat_inj.mp hzero)
  unfold pipeReadSection at h
  split at h
  · cases h
  · next hgo =>
    have hzero : (pipeReadFrom len.toNat 0 s).1 = 0 := SectionEnd.returns.inj h
    have hempty := empty_of_readFrom_zero len.toNat_lt hpos hzero
    refine ⟨contents_of_empty hempty, ?_⟩
    by_contra hopen
    exact hgo ⟨hempty, by simpa using hopen⟩

end PipeLog

namespace PipeSystem

variable {τ : Type} [DecidableEq τ] {st st' : PipeSystem τ}

theorem left_self (log : PipeLog) (t : τ) (call : PipeCall) :
    (st.left log t call).calls t = call :=
  Function.update_self ..

theorem left_of_ne {t t' : τ} (h : t' ≠ t) (log : PipeLog) (call : PipeCall) :
    (st.left log t call).calls t' = st.calls t' :=
  Function.update_of_ne h ..

structure Inv (st : PipeSystem τ) : Prop where
  log : st.log.Sound
  /-- Calls that read nothing return before they take the lock. -/
  reading : ∀ t len, st.calls t = .reading len → len ≠ 0

omit [DecidableEq τ] in
theorem inv_init (data : Bytes pipeSize) : (init data : PipeSystem τ).Inv := by
  refine ⟨?_, ?_⟩
  · intro _
    have hempty : (init data : PipeSystem τ).log.pipe.contents = [] :=
      PipeLog.contents_of_empty rfl
    refine ⟨rfl, rfl, ?_, ?_⟩
    · rw [hempty]
      rfl
    · rw [hempty]
      exact Nat.zero_le pipeSize
  · intro t len h
    cases h

theorem Inv.left (h : st.Inv) {log : PipeLog} (hlog : log.Sound) {t : τ}
    {call : PipeCall} (hcall : ∀ len, call = .reading len → len ≠ 0) :
    (st.left log t call).Inv := by
  refine ⟨hlog, ?_⟩
  intro t' len hread
  by_cases ht : t' = t
  · subst ht
    rw [left_self] at hread
    exact hcall len hread
  · rw [left_of_ne ht] at hread
    exact h.reading t' len hread

theorem start_eq_some {t : τ} {call : PipeCall} (h : st.start t call = some st') :
    st' = st.left st.log t call ∧ ∀ len, st.calls t ≠ .reading len := by
  unfold PipeSystem.start at h
  split at h
  · next hidle =>
    cases h
    exact ⟨rfl, fun len hread => by rw [hidle] at hread; cases hread⟩
  · next value hdone =>
    cases h
    exact ⟨rfl, fun len hread => by rw [hdone] at hread; cases hread⟩
  · cases h

theorem Inv.start (h : st.Inv) {t : τ} {call : PipeCall}
    (hcall : ∀ len, call = .reading len → len ≠ 0)
    (hstart : st.start t call = some st') : st'.Inv := by
  rw [(start_eq_some hstart).1]
  exact h.left h.log hcall

theorem turn_cases {t : τ} {mem : UInt64 → UInt8}
    (hstep : st.step (.turn t mem) = some st') :
    (∃ addr len i, st.calls t = .writing addr len i ∧ ∃ call,
      st' = st.left (pipeWriteFrom mem addr (len.toNat - i.toNat) i st.log).2 t call ∧
      ∀ len, call ≠ .reading len) ∨
    (∃ len, st.calls t = .reading len ∧
      st' = st.left (pipeReadSection len st.log).2 t (.reading len)) ∨
    ∃ len value, st.calls t = .reading len ∧
      (pipeReadSection len st.log).1 = .returns value ∧
      st' = st.left (pipeReadSection len st.log).2 t (.returned value) := by
  unfold PipeSystem.step at hstep
  dsimp only at hstep
  split at hstep
  · next addr len i hcall =>
    refine .inl ⟨addr, len, i, hcall, ?_⟩
    split at hstep
    · next i' log heq =>
      cases hstep
      exact ⟨_, by rw [heq], fun _ hread => by cases hread⟩
    · next value log heq =>
      cases hstep
      exact ⟨_, by rw [heq], fun _ hread => by cases hread⟩
  · next len hcall =>
    split at hstep
    · next i log heq =>
      cases hstep
      exact .inr (.inl ⟨len, hcall, by rw [heq]⟩)
    · next value log heq =>
      cases hstep
      exact .inr (.inr ⟨len, value, hcall, by rw [heq], by rw [heq]⟩)
  · cases hstep

theorem Inv.step {op : PipeOp τ} (h : st.Inv) (hstep : st.step op = some st') :
    st'.Inv := by
  cases op with
  | write t addr len =>
      refine h.start ?_ hstep
      intro len' hread
      split at hread
      · cases hread
      · cases hread
  | read t len =>
      refine h.start ?_ hstep
      intro len' hread
      split at hread
      · cases hread
      · next hpos =>
        cases hread
        exact hpos
  | turn t mem =>
      rcases turn_cases hstep with
        ⟨addr, len, i, _, call, rfl, hnot⟩ | ⟨len, hread, rfl⟩ | ⟨len, value, _, _, rfl⟩
      · exact h.left (h.log.writeFrom _ _ _ _) fun len' hcall => absurd hcall (hnot len')
      · refine h.left (h.log.readSection len) ?_
        intro len' hcall
        cases hcall
        exact h.reading t len hread
      · exact h.left (h.log.readSection len) fun _ hcall => by cases hcall
  | close writable =>
      cases hstep
      exact ⟨h.log.closeSection writable, h.reading⟩

theorem returned_of_reading {op : PipeOp τ} {t : τ} {len value : UInt32}
    (hstep : st.step op = some st') (hread : st.calls t = .reading len)
    (hreturn : st'.calls t = .returned value) :
    (pipeReadSection len st.log).1 = .returns value := by
  -- what another process leaves is no return of this one
  have hother : ∀ log t' call, t ≠ t' → st' ≠ st.left log t' call := by
    rintro log t' call hne rfl
    rw [left_of_ne hne, hread] at hreturn
    cases hreturn
  have hstart : ∀ t' call, st.start t' call ≠ some st' := by
    intro t' call hstart
    obtain ⟨heq, hnot⟩ := start_eq_some hstart
    by_cases ht : t = t'
    · subst ht
      exact hnot len hread
    · exact hother _ t' call ht heq
  cases op with
  | write t' addr len' => exact absurd hstep (hstart _ _)
  | read t' len' => exact absurd hstep (hstart _ _)
  | turn t' mem =>
      by_cases ht : t = t'
      · subst ht
        rcases turn_cases hstep with
          ⟨_, _, _, hwrite, _⟩ | ⟨_, _, rfl⟩ | ⟨len', value', hread', hend, rfl⟩
        · rw [hread] at hwrite
          cases hwrite
        · rw [left_self] at hreturn
          cases hreturn
        · rw [left_self] at hreturn
          rw [hread] at hread'
          cases hread'
          cases hreturn
          exact hend
      · rcases turn_cases hstep with ⟨_, _, _, _, _, heq, _⟩ | ⟨_, _, heq⟩ | ⟨_, _, _, _, heq⟩
        · exact absurd heq (hother _ t' _ ht)
        · exact absurd heq (hother _ t' _ ht)
        · exact absurd heq (hother _ t' _ ht)
  | close writable =>
      cases hstep
      rw [hread] at hreturn
      cases hreturn

/-- After any run the bytes taken are the first of those written, the others
are in the buffer, and a read returns nothing only from an empty pipe that is
closed for writing. -/
theorem pipe_is_fifo {data : Bytes pipeSize} {ops : List (PipeOp τ)}
    (hrun : run step (init data) ops = some st)
    (hfew : st.log.written.length < 2 ^ 32) :
    st.log.written = st.log.taken ++ st.log.pipe.contents ∧
      st.log.pipe.contents.length ≤ pipeSize ∧
      ∀ op st' t len, st.step op = some st' → st.calls t = .reading len →
        st'.calls t = .returned 0 →
        st.log.pipe.contents = [] ∧ st.log.pipe.writeopen = false := by
  have h : st.Inv :=
    run_invariant_of_step (fun _ _ _ hi hop => hi.step hop) (inv_init data) hrun
  have hfifo := h.log hfew
  refine ⟨hfifo.contents, hfifo.room, ?_⟩
  intro op st' t len hstep hread hreturn
  exact PipeLog.readSection_returns_zero (h.reading t len hread)
    (returned_of_reading hstep hread hreturn)

/-- One process writes three bytes, another reads two. -/
theorem pipe_is_fifo_short_read :
    ∃ st : PipeSystem Bool,
      run step (init 0) [.write true 5 3, .turn true UInt64.toUInt8, .read false 2,
        .turn false UInt64.toUInt8] = some st ∧
      st.log.taken = [5, 6] ∧ st.log.pipe.contents = [7] := by
  have hlogs : (run step (init 0 : PipeSystem Bool) [.write true 5 3,
      .turn true UInt64.toUInt8, .read false 2, .turn false UInt64.toUInt8]).map
        (fun st => (st.log.written, st.log.taken)) = some ([5, 6, 7], [5, 6]) := by
    decide +kernel
  obtain ⟨st, hrun, hlog⟩ := Option.map_eq_some_iff.mp hlogs
  obtain ⟨hwritten, htaken⟩ := Prod.mk.inj hlog
  have hfifo := (pipe_is_fifo hrun (by rw [hwritten]; decide)).1
  rw [hwritten, htaken] at hfifo
  refine ⟨st, hrun, htaken, ?_⟩
  simpa using hfifo.symm

end PipeSystem

end UnoOS.Kernel
