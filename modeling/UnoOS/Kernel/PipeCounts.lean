import UnoOS.Kernel.FailedCalls
import UnoOS.Kernel.FileOpen
import UnoOS.Kernel.WriteCounts

namespace UnoOS.Kernel

open UnoOS.Lib
open UnoOS.Fs
open UnoOS.Dev

/-! What `pipe_write` returns, among other writers and readers, and how many bytes it
has moved by then. -/

/-- A call of `pipe_write`, with the user memory of its process. -/
structure WriteCall where
  mem : UInt64 → UInt8
  addr : UInt64
  len : UInt32

namespace WriteCall

def byte (call : WriteCall) (k : Nat) : UInt8 := call.mem (call.addr + UInt64.ofNat k)

/-- The byte that the loop takes when its counter, an `int`, is `k`. -/
def taken (call : WriteCall) (k : Nat) : UInt8 :=
  call.mem (call.addr + (UInt32.ofNat k).toInt32.toInt64.toUInt64)

end WriteCall

def Pipe.used (pipe : Pipe) : Nat := (pipe.nwrite - pipe.nread).toNat

variable {s : PipeLog} {call : WriteCall} {i : UInt32} {turns : Nat}

theorem used_put (ch : UInt8) (hroom : s.pipe.used < pipeSize) :
    (s.put ch).pipe.used = s.pipe.used + 1 := by
  have hmore : s.pipe.nwrite + 1 - s.pipe.nread = s.pipe.nwrite - s.pipe.nread + 1 := by
    grind
  change _ < 500 at hroom
  unfold Pipe.used at hroom ⊢
  change (s.pipe.nwrite + 1 - s.pipe.nread).toNat = _
  rw [hmore]
  exact PipeLog.toNat_succ (by omega)

theorem used_take (hsome : s.pipe.nread ≠ s.pipe.nwrite) :
    s.take.pipe.used + 1 = s.pipe.used := by
  have hless : s.pipe.nwrite - (s.pipe.nread + 1) = s.pipe.nwrite - s.pipe.nread - 1 := by
    grind
  have hone : (1 : UInt32) ≤ s.pipe.nwrite - s.pipe.nread := by
    rw [UInt32.le_iff_toNat_le]
    have hne : (s.pipe.nwrite - s.pipe.nread).toNat ≠ 0 := by
      intro hzero
      have hsub : s.pipe.nwrite - s.pipe.nread = 0 := UInt32.toNat_inj.mp hzero
      refine hsome ?_
      grind
    change 1 ≤ _
    omega
  have hpos := UInt32.le_iff_toNat_le.mp hone
  change 1 ≤ _ at hpos
  unfold Pipe.used
  change (s.pipe.nwrite - (s.pipe.nread + 1)).toNat + 1 = _
  rw [hless, UInt32.toNat_sub_of_le _ _ hone]
  change _ - 1 + 1 = _
  omega

theorem pipeWriteFrom_succ (call : WriteCall) (turns : Nat) (i : UInt32)
    (s : PipeLog) :
    pipeWriteFrom call.mem call.addr (turns + 1) i s =
      if s.pipe.used = pipeSize then
        if s.pipe.readopen then (.sleeps i, s) else (.returns pipeError, s)
      else
        pipeWriteFrom call.mem call.addr turns (i + 1) (s.put (call.taken i.toNat)) := by
  unfold WriteCall.taken
  rw [UInt32.ofNat_toNat]
  rfl

/-- A turn of a writer puts bytes into the pipe as long as there is room. -/
theorem pipeWriteFrom_spec (call : WriteCall) (hroom : s.pipe.used ≤ pipeSize)
    (hcount : i.toNat + turns < 2 ^ 32) :
    (pipeWriteFrom call.mem call.addr turns i s).2.written = s.written ++
        (List.range' i.toNat (min turns (pipeSize - s.pipe.used))).map call.taken ∧
      (pipeWriteFrom call.mem call.addr turns i s).2.pipe.used ≤ pipeSize ∧
      (pipeWriteFrom call.mem call.addr turns i s).1 =
        if turns ≤ pipeSize - s.pipe.used then .returns (i + UInt32.ofNat turns)
        else if s.pipe.readopen then
          .sleeps (i + UInt32.ofNat (pipeSize - s.pipe.used))
        else .returns pipeError := by
  induction turns generalizing i s with
  | zero =>
      refine ⟨?_, hroom, ?_⟩
      · rw [Nat.zero_min]
        exact (List.append_nil _).symm
      · rw [if_pos (Nat.zero_le _)]
        exact congrArg SectionEnd.returns (UInt32.add_zero i).symm
  | succ turns ih =>
      rw [pipeWriteFrom_succ]
      by_cases hfull : s.pipe.used = pipeSize
      · rw [if_pos hfull, hfull, Nat.sub_self, Nat.min_zero, if_neg (Nat.not_succ_le_zero _)]
        split
        · refine ⟨(List.append_nil _).symm, hroom, ?_⟩
          exact congrArg SectionEnd.sleeps (UInt32.add_zero i).symm
        · exact ⟨(List.append_nil _).symm, hroom, rfl⟩
      · have hless : s.pipe.used < pipeSize := by omega
        have hput := used_put (call.taken i.toNat) hless
        have hnext : (i + 1).toNat = i.toNat + 1 := PipeLog.toNat_succ (by omega)
        obtain ⟨free, hfree⟩ := Nat.exists_eq_add_of_lt hless
        have hbefore : pipeSize - s.pipe.used = free + 1 := by omega
        have hafter : pipeSize - (s.put (call.taken i.toNat)).pipe.used = free := by omega
        obtain ⟨hwritten, hused, hend⟩ := ih (i := i + 1)
          (s := s.put (call.taken i.toNat)) (by omega) (by omega)
        rw [hafter, hnext] at hwritten
        rw [hafter] at hend
        have hindex : ∀ n, i + 1 + UInt32.ofNat n = i + UInt32.ofNat (n + 1) := by
          intro n
          rw [UInt32.ofNat_add]
          grind
        rw [if_neg hfull, hbefore]
        refine ⟨?_, hused, ?_⟩
        · rw [hwritten, Nat.add_min_add_right, List.range'_succ, List.map_cons]
          exact List.append_assoc _ _ _
        · rw [hend, hindex, hindex]
          simp only [Nat.add_le_add_iff_right]
          rfl

theorem used_readFrom (hroom : s.pipe.used ≤ pipeSize) (turns : Nat) (i : UInt32) :
    (pipeReadFrom turns i s).2.pipe.used ≤ pipeSize := by
  induction turns generalizing i s with
  | zero => exact hroom
  | succ turns ih =>
      rw [pipeReadFrom]
      split
      · exact hroom
      · next hsome =>
        have htake := used_take hsome
        exact ih (by omega) (i + 1)

theorem used_readSection (hroom : s.pipe.used ≤ pipeSize) (len : UInt32) :
    (pipeReadSection len s).2.pipe.used ≤ pipeSize := by
  unfold pipeReadSection
  split
  · exact hroom
  · exact used_readFrom hroom len.toNat 0

/-! The system, with what every writer has moved. -/

structure WriteSystem (τ : Type) where
  pipes : PipeSystem τ
  /-- The last call of each process. -/
  args : τ → WriteCall
  /-- The bytes that it put into the pipe. -/
  moved : τ → List UInt8

inductive WriteOp (τ : Type) where
  | write (t : τ) (call : WriteCall)
  | read (t : τ) (len : UInt32)
  | turn (t : τ)
  | close (writable : Bool)

namespace WriteSystem

variable {τ : Type} [DecidableEq τ]

def init (data : Bytes pipeSize) : WriteSystem τ where
  pipes := .init data
  args := fun _ => ⟨fun _ => 0, 0, 0⟩
  moved := fun _ => []

/-- The steps of the pipe, where a turn adds to what its process has moved. -/
def step (st : WriteSystem τ) : WriteOp τ → Option (WriteSystem τ)
  | .write t call => (st.pipes.step (.write t call.addr call.len)).map fun pipes => {
      pipes := pipes
      args := Function.update st.args t call
      moved := Function.update st.moved t [] }
  | .read t len => (st.pipes.step (.read t len)).map fun pipes =>
      { st with pipes := pipes }
  | .turn t => (st.pipes.step (.turn t (st.args t).mem)).map fun pipes => { st with
      pipes := pipes
      moved := Function.update st.moved t
        (st.moved t ++ pipes.log.written.drop st.pipes.log.written.length) }
  | .close writable => (st.pipes.step (.close writable)).map fun pipes =>
      { st with pipes := pipes }

structure Inv (st : WriteSystem τ) : Prop where
  room : st.pipes.log.pipe.used ≤ pipeSize
  writing : ∀ t addr len i, st.pipes.calls t = .writing addr len i →
    addr = (st.args t).addr ∧ len = (st.args t).len ∧ i.toNat < len.toNat ∧
      st.moved t = (List.range i.toNat).map (st.args t).taken

def afterWrite (call : WriteCall) : SectionEnd → PipeCall
  | .sleeps i => .writing call.addr call.len i
  | .returns value => .returned value

theorem turn_of_writing {pipes : PipeSystem τ} {t : τ} {i : UInt32}
    (call : WriteCall) (hcall : pipes.calls t = .writing call.addr call.len i) :
    pipes.step (.turn t call.mem) = some (pipes.left
      (pipeWriteFrom call.mem call.addr (call.len.toNat - i.toNat) i pipes.log).2 t
      (afterWrite call
        (pipeWriteFrom call.mem call.addr (call.len.toNat - i.toNat) i pipes.log).1)) := by
  unfold PipeSystem.step
  dsimp only
  rw [hcall]
  dsimp only
  cases pipeWriteFrom call.mem call.addr (call.len.toNat - i.toNat) i pipes.log with
  | mk ending log =>
      cases ending <;> rfl

variable {st st' : WriteSystem τ}

omit [DecidableEq τ] in
theorem inv_init (data : Bytes pipeSize) : (init data : WriteSystem τ).Inv := by
  refine ⟨?_, fun t addr len i hcall => by cases hcall⟩
  change (0 - 0 : UInt32).toNat ≤ 500
  decide

omit [DecidableEq τ] in
/-- A call that is no writer's leaves the writers as they were. -/
theorem Inv.other (h : st.Inv) {pipes : PipeSystem τ}
    (hroom : pipes.log.pipe.used ≤ pipeSize)
    (hcalls : ∀ t addr len i, pipes.calls t = .writing addr len i →
      st.pipes.calls t = .writing addr len i) :
    ({ st with pipes := pipes } : WriteSystem τ).Inv :=
  ⟨hroom, fun t addr len i hcall => h.writing t addr len i (hcalls t addr len i hcall)⟩

theorem left_writing {pipes : PipeSystem τ} {log : PipeLog} {t t' : τ}
    {call : PipeCall} {addr : UInt64} {len i : UInt32}
    (hcall : (pipes.left log t call).calls t' = .writing addr len i) :
    t' = t ∧ call = .writing addr len i ∨
      t' ≠ t ∧ pipes.calls t' = .writing addr len i := by
  by_cases ht : t' = t
  · subst ht
    rw [PipeSystem.left_self] at hcall
    exact .inl ⟨rfl, hcall⟩
  · rw [PipeSystem.left_of_ne ht] at hcall
    exact .inr ⟨ht, hcall⟩

theorem Inv.turn_writing (h : st.Inv) {t : τ} {i : UInt32}
    (hcall : st.pipes.calls t = .writing (st.args t).addr (st.args t).len i)
    (hstep : st.step (.turn t) = some st') :
    let call := st.args t
    let moved := min (call.len.toNat - i.toNat) (pipeSize - st.pipes.log.pipe.used)
    st'.args = st.args ∧ st'.pipes.log.pipe.used ≤ pipeSize ∧
      st'.moved = Function.update st.moved t
        ((List.range (i.toNat + moved)).map call.taken) ∧
      st'.pipes.calls = Function.update st.pipes.calls t (afterWrite call
        (if call.len.toNat - i.toNat ≤ pipeSize - st.pipes.log.pipe.used then
          .returns call.len
        else if st.pipes.log.pipe.readopen then .sleeps (i + UInt32.ofNat moved)
        else .returns pipeError)) := by
  intro call moved
  obtain ⟨_, _, hless, hbefore⟩ := h.writing t _ _ i hcall
  have hlen := call.len.toNat_lt
  have hcount : i.toNat + (call.len.toNat - i.toNat) < 2 ^ 32 := by
    change i.toNat < call.len.toNat at hless
    omega
  obtain ⟨hwritten, hused, hend⟩ := pipeWriteFrom_spec call h.room hcount
  unfold WriteSystem.step at hstep
  dsimp only at hstep
  rw [turn_of_writing call hcall, Option.map_some, Option.some_inj] at hstep
  subst hstep
  refine ⟨rfl, hused, ?_, ?_⟩
  · have hmore : (pipeWriteFrom call.mem call.addr (call.len.toNat - i.toNat) i
        st.pipes.log).2.written.drop st.pipes.log.written.length =
        (List.range' i.toNat moved).map call.taken := by
      rw [hwritten, List.drop_left]
    change Function.update st.moved t (st.moved t ++ (pipeWriteFrom call.mem call.addr
      (call.len.toNat - i.toNat) i st.pipes.log).2.written.drop
        st.pipes.log.written.length) = _
    rw [hmore, hbefore, List.range_eq_range', List.range_eq_range']
    have hsplit := range_split call.taken 0 i.toNat moved
    rw [Nat.zero_add] at hsplit
    rw [hsplit]
  · change Function.update st.pipes.calls t (afterWrite call _) = _
    rw [hend]
    congr 2
    split
    · have hsum : i + UInt32.ofNat (call.len.toNat - i.toNat) = call.len := by
        apply UInt32.toNat_inj.mp
        change i.toNat < call.len.toNat at hless
        rw [UInt32.toNat_add, UInt32.toNat_ofNat_of_lt' (show _ < 2 ^ 32 by omega)]
        omega
      rw [hsum]
    · next hmore =>
      have hmoved : moved = pipeSize - st.pipes.log.pipe.used := by
        unfold moved
        omega
      rw [hmoved]

theorem Inv.write (h : st.Inv) {t : τ} {call : WriteCall}
    (hstep : st.step (.write t call) = some st') : st'.Inv := by
  obtain ⟨pipes, hpipes, heq⟩ := Option.map_eq_some_iff.mp hstep
  subst heq
  obtain ⟨rfl, _⟩ := PipeSystem.start_eq_some hpipes
  refine ⟨h.room, fun t' addr len i hcall => ?_⟩
  rcases left_writing hcall with ⟨rfl, hnew⟩ | ⟨hother, hold⟩
  · split at hnew
    · cases hnew
    · next hlen =>
      cases hnew
      dsimp only
      rw [Function.update_self, Function.update_self]
      refine ⟨rfl, rfl, Nat.pos_of_ne_zero fun hzero => hlen ?_, rfl⟩
      exact UInt32.toNat_inj.mp hzero
  · dsimp only
    rw [Function.update_of_ne hother, Function.update_of_ne hother]
    exact h.writing t' addr len i hold

theorem Inv.read (h : st.Inv) {t : τ} {len : UInt32}
    (hstep : st.step (.read t len) = some st') : st'.Inv := by
  obtain ⟨pipes, hpipes, heq⟩ := Option.map_eq_some_iff.mp hstep
  subst heq
  obtain ⟨rfl, _⟩ := PipeSystem.start_eq_some hpipes
  refine h.other h.room fun t' addr len' i hcall => ?_
  rcases left_writing hcall with ⟨_, hnew⟩ | ⟨_, hold⟩
  · split at hnew
    · cases hnew
    · cases hnew
  · exact hold

theorem Inv.turn_reading (h : st.Inv) {t : τ} {len : UInt32}
    (hcall : st.pipes.calls t = .reading len)
    (hstep : st.step (.turn t) = some st') : st'.Inv := by
  obtain ⟨pipes, hpipes, heq⟩ := Option.map_eq_some_iff.mp hstep
  unfold PipeSystem.step at hpipes
  dsimp only at hpipes
  rw [hcall] at hpipes
  dsimp only at hpipes
  have hroom := used_readSection h.room len
  have hleft : ∃ call, (∀ addr len i, call ≠ .writing addr len i) ∧
      pipes = st.pipes.left (pipeReadSection len st.pipes.log).2 t call := by
    split at hpipes
    · next log hsection =>
      cases hpipes
      exact ⟨.reading len, fun _ _ _ => (nomatch ·), by rw [hsection]⟩
    · next value log hsection =>
      cases hpipes
      exact ⟨.returned value, fun _ _ _ => (nomatch ·), by rw [hsection]⟩
  obtain ⟨call, hcall', rfl⟩ := hleft
  subst heq
  refine ⟨hroom, fun t' addr len' i hwriting => ?_⟩
  rcases left_writing hwriting with ⟨_, hnew⟩ | ⟨hother, hold⟩
  · exact absurd hnew (hcall' addr len' i)
  · dsimp only
    rw [Function.update_of_ne hother]
    exact h.writing t' addr len' i hold

theorem Inv.turn (h : st.Inv) {t : τ} (hstep : st.step (.turn t) = some st') :
    st'.Inv := by
  cases hcall : st.pipes.calls t with
  | idle =>
      simp [WriteSystem.step, PipeSystem.step, hcall] at hstep
  | returned value =>
      simp [WriteSystem.step, PipeSystem.step, hcall] at hstep
  | reading len => exact h.turn_reading hcall hstep
  | writing addr len i =>
      obtain ⟨rfl, rfl, hless, _⟩ := h.writing t addr len i hcall
      obtain ⟨hargs, hroom, hmoved, hcalls⟩ := h.turn_writing hcall hstep
      refine ⟨hroom, fun t' addr len' i' hwriting => ?_⟩
      rw [hcalls] at hwriting
      rw [hargs, hmoved]
      by_cases ht : t' = t
      · subst ht
        rw [Function.update_self] at hwriting
        rw [Function.update_self]
        split at hwriting
        · cases hwriting
        · next hmore =>
          split at hwriting
          · cases hwriting
            have hlen := (st.args t').len.toNat_lt
            have hnext : (i + UInt32.ofNat (min ((st.args t').len.toNat - i.toNat)
                (pipeSize - st.pipes.log.pipe.used))).toNat =
                i.toNat + min ((st.args t').len.toNat - i.toNat)
                  (pipeSize - st.pipes.log.pipe.used) := by
              rw [UInt32.toNat_add, UInt32.toNat_ofNat_of_lt' (show _ < 2 ^ 32 by omega)]
              omega
            rw [hnext]
            exact ⟨rfl, rfl, by omega, rfl⟩
          · cases hwriting
      · rw [Function.update_of_ne ht] at hwriting
        rw [Function.update_of_ne ht]
        exact h.writing t' addr len' i' hwriting

theorem Inv.step {op : WriteOp τ} (h : st.Inv) (hstep : st.step op = some st') :
    st'.Inv := by
  cases op with
  | write t call => exact h.write hstep
  | read t len => exact h.read hstep
  | turn t => exact h.turn hstep
  | close writable =>
      cases hstep
      refine h.other ?_ fun t addr len i hcall => hcall
      cases writable
      · exact h.room
      · exact h.room

/-- The value of a turn is a count, or an error that is none, and the counter of
the loop is no larger than an `int`. -/
def Meets (st : WriteSystem τ) (t : τ) (i : UInt32) : Prop :=
  ((st.args t).len < pipeError ∨ st.pipes.log.pipe.readopen = true ∨
    (st.args t).len.toNat - i.toNat ≤ pipeSize - st.pipes.log.pipe.used) ∧
  ∀ k < min (st.args t).len.toNat (i.toNat + (pipeSize - st.pipes.log.pipe.used)),
    (st.args t).taken k = (st.args t).byte k

/-- The outcome of a call that a turn has ended.  A call that has not moved all
of its bytes was ended by `PIPE_ERROR`. -/
def outcome (st' : WriteSystem τ) (t : τ) (value : UInt32) : WriteOutcome where
  value := value
  failed := (st'.moved t).length < (st'.args t).len.toNat
  moved := st'.moved t

end WriteSystem

def noDevices : Devices := ⟨fun _ _ => pure (0, []), fun _ _ _ => pure 0⟩

end UnoOS.Kernel
