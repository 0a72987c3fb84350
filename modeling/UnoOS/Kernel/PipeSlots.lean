import UnoOS.Kernel.PipeCounts

namespace UnoOS.Kernel

open UnoOS.Lib

/-! The slots of the counters of a pipe.  The counters wrap at 2^32, which is no multiple
of the size. -/

def pipeSlot (i : UInt32) : Nat := i.toNat % pipeSize

def Pipe.unread (pipe : Pipe) : List UInt32 :=
  (List.range pipe.used).map fun k => pipe.nread + UInt32.ofNat k

structure SlotsApart (pipe : Pipe) : Prop where
  distinct : (pipe.unread.map pipeSlot).Nodup
  next : pipe.used ≠ pipeSize → ∀ i ∈ pipe.unread, pipeSlot pipe.nwrite ≠ pipeSlot i

/-- No byte that is put in lands on one that has not been taken. -/
def KeepsUnread (s : PipeLog) : Prop :=
  s.pipe.used ≠ pipeSize → ∀ ch, ∀ i ∈ s.pipe.unread,
    (s.put ch).pipe.data.get (pipeSlot i) = s.pipe.data.get (pipeSlot i)

/-- The counters that have a slot: those of the unread bytes, and the next one unless the
pipe is full. -/
def Pipe.claimed (pipe : Pipe) : Nat := min (pipe.used + 1) pipeSize

variable {pipe : Pipe} {s : PipeLog}

theorem pipeSlot_add (i : UInt32) (k : Nat) :
    pipeSlot (i + UInt32.ofNat k) = wrapped (2 ^ 32) pipeSize i.toNat k := by
  unfold pipeSlot wrapped
  rw [UInt32.toNat_add, UInt32.toNat_ofNat', Nat.add_mod_mod]

theorem mem_unread {i : UInt32} :
    i ∈ pipe.unread ↔ ∃ k < pipe.used, pipe.nread + UInt32.ofNat k = i := by
  simp [Pipe.unread]

theorem nwrite_eq (pipe : Pipe) : pipe.nwrite = pipe.nread + UInt32.ofNat pipe.used := by
  unfold Pipe.used
  rw [UInt32.ofNat_toNat]
  grind

theorem distinct_iff : (pipe.unread.map pipeSlot).Nodup ↔
    Set.InjOn (wrapped (2 ^ 32) pipeSize pipe.nread.toNat) {k | k < pipe.used} := by
  unfold Pipe.unread
  rw [List.map_map, List.nodup_map_iff_inj_on List.nodup_range]
  simp only [List.mem_range, Function.comp_apply, pipeSlot_add]
  exact ⟨fun h k hk k' hk' => h k hk k' hk', fun h k hk k' hk' => h hk hk'⟩

theorem slotsApart_iff (hused : pipe.used ≤ pipeSize) : SlotsApart pipe ↔
    Set.InjOn (wrapped (2 ^ 32) pipeSize pipe.nread.toNat) {k | k < pipe.claimed} := by
  have hnext : pipeSlot pipe.nwrite =
      wrapped (2 ^ 32) pipeSize pipe.nread.toNat pipe.used := by
    rw [nwrite_eq pipe, pipeSlot_add]
  constructor
  · rintro ⟨hdistinct, hfree⟩
    have hinj := distinct_iff.mp hdistinct
    have hlast : ∀ k < pipe.used, pipe.used < pipe.claimed →
        wrapped (2 ^ 32) pipeSize pipe.nread.toNat k ≠
          wrapped (2 ^ 32) pipeSize pipe.nread.toNat pipe.used := by
      intro k hk hroom hsame
      unfold Pipe.claimed at hroom
      refine hfree (by omega) _ (mem_unread.mpr ⟨k, hk, rfl⟩) ?_
      rw [hnext, pipeSlot_add, hsame]
    intro k hk k' hk' hsame
    change k < pipe.claimed at hk
    change k' < pipe.claimed at hk'
    have hle : pipe.claimed ≤ pipe.used + 1 := Nat.min_le_left ..
    rcases Nat.lt_or_ge k pipe.used with hless | hge
    · rcases Nat.lt_or_ge k' pipe.used with hless' | hge'
      · exact hinj hless hless' hsame
      · obtain rfl : k' = pipe.used := by omega
        exact (hlast k hless hk' hsame).elim
    · obtain rfl : k = pipe.used := by omega
      rcases Nat.lt_or_ge k' pipe.used with hless' | hge'
      · exact (hlast k' hless' hk hsame.symm).elim
      · omega
  · intro hinj
    have hle : pipe.used ≤ pipe.claimed := Nat.le_min.mpr ⟨Nat.le_succ _, hused⟩
    refine ⟨distinct_iff.mpr (hinj.mono fun k hk => hk.trans_le hle), ?_⟩
    intro hroom i hi hsame
    obtain ⟨k, hk, rfl⟩ := mem_unread.mp hi
    have hmore : pipe.used < pipe.claimed := Nat.lt_min.mpr ⟨Nat.lt_succ_self _, by omega⟩
    rw [hnext, pipeSlot_add] at hsame
    have heq : pipe.used = k := hinj hmore (hk.trans_le hle) hsame
    omega

theorem SlotsApart.keepsUnread (h : SlotsApart s.pipe) : KeepsUnread s := by
  intro hroom ch i hi
  exact PipeLog.put_get_of_ne s ch (h.next hroom i hi).symm

/-- Storing a byte overwrites no unread one, and all slots are different, unless the
counters that have a slot wrap and are more than 2^32 modulo the size. -/
theorem pipe_slots_apart_iff (s : PipeLog) (hused : s.pipe.used ≤ pipeSize) :
    SlotsApart s.pipe ∧ KeepsUnread s ↔
      s.pipe.nread.toNat + min (s.pipe.used + 1) pipeSize ≤ 2 ^ 32 ∨
        s.pipe.used < 2 ^ 32 % pipeSize := by
  have hiff := (slotsApart_iff hused).trans (wrapped_injOn_iff (UInt32.toNat_lt _)
    (by decide) (Nat.min_le_right ..))
  unfold Pipe.claimed at hiff
  constructor
  · rintro ⟨hapart, _⟩
    rcases hiff.mp hapart with hbelow | hdivides | hfew
    · exact .inl hbelow
    · exact absurd hdivides (by decide)
    · refine .inr ?_
      change _ ≤ 296 at hfew
      change _ < 296
      change min _ 500 ≤ 296 at hfew
      omega
  · intro hcases
    have hapart : SlotsApart s.pipe := by
      refine hiff.mpr (hcases.imp id fun hfew => .inr ?_)
      change _ < 296 at hfew
      change min _ 500 ≤ 296
      omega
    exact ⟨hapart, hapart.keepsUnread⟩

/-- 295 bytes are unread when the counter wraps. -/
def wrappingLog : PipeLog := ⟨⟨0, 0xFFFFFF38, 95, true, true, false⟩, [], []⟩

theorem pipe_slots_apart_wrapping : SlotsApart wrappingLog.pipe ∧ KeepsUnread wrappingLog :=
  (pipe_slots_apart_iff wrappingLog (by decide)).mpr (.inr (by decide))

/-! A run after which they collide. -/

theorem pipeWriteFrom_counters (call : WriteCall) (turns : Nat) (i : UInt32)
    (hroom : s.pipe.used + turns ≤ pipeSize) :
    (pipeWriteFrom call.mem call.addr turns i s).2.pipe.nread = s.pipe.nread ∧
      (pipeWriteFrom call.mem call.addr turns i s).2.pipe.used = s.pipe.used + turns ∧
      (pipeWriteFrom call.mem call.addr turns i s).1 = .returns (i + UInt32.ofNat turns) := by
  induction turns generalizing s i with
  | zero => exact ⟨rfl, rfl, congrArg SectionEnd.returns (UInt32.add_zero i).symm⟩
  | succ turns ih =>
      have hput := used_put (call.taken i.toNat) (show s.pipe.used < pipeSize by omega)
      obtain ⟨hread, hused, hend⟩ := ih (i + 1)
        (show (s.put (call.taken i.toNat)).pipe.used + turns ≤ _ by omega)
      rw [pipeWriteFrom_succ, if_neg (show ¬ s.pipe.used = pipeSize by omega)]
      refine ⟨hread, by rw [hused]; omega, ?_⟩
      rw [hend, UInt32.ofNat_add]
      congr 1
      grind

/-- The process is in no call, and `n` bytes have passed through. -/
structure Rests (st : PipeSystem Unit) (n : Nat) : Prop where
  calls : ∀ call, st.start () call = some (st.left st.log () call)
  nread : st.log.pipe.nread = UInt32.ofNat n
  used : st.log.pipe.used = 0

def letters (len : UInt32) : WriteCall := ⟨fun _ => 97, 0, len⟩

theorem start_returned {st : PipeSystem Unit} {value : UInt32}
    (h : st.calls () = .returned value) (call : PipeCall) :
    st.start () call = some (st.left st.log () call) := by
  unfold PipeSystem.start
  rw [h]

theorem Rests.write {st : PipeSystem Unit} {n : Nat} {len : UInt32} (h : Rests st n)
    (hlen : len ≠ 0) (hroom : len.toNat ≤ pipeSize) :
    ∃ st', run PipeSystem.step st [.write () 0 len, .turn () (letters len).mem] = some st' ∧
      st'.log.pipe.nread = UInt32.ofNat n ∧ st'.log.pipe.used = len.toNat ∧
      st'.calls () = .returned len := by
  have hempty := h.used
  obtain ⟨hread, hused, hend⟩ := pipeWriteFrom_counters (letters len) len.toNat 0
    (show st.log.pipe.used + _ ≤ _ by rw [hempty, Nat.zero_add]; exact hroom)
  rw [hempty, Nat.zero_add] at hused
  rw [UInt32.ofNat_toNat, UInt32.zero_add] at hend
  have hstart : st.step (.write () 0 len) =
      some (st.left st.log () (.writing 0 len 0)) := by
    unfold PipeSystem.step
    dsimp only
    rw [if_neg hlen]
    exact h.calls _
  have hcalls : (st.left st.log () (.writing 0 len 0)).calls () = .writing 0 len 0 :=
    PipeSystem.left_self ..
  have hturn := WriteSystem.turn_of_writing (letters len) hcalls
  refine ⟨_, run_cons.mpr ⟨_, hstart, run_cons.mpr ⟨_, hturn, rfl⟩⟩, ?_, hused, ?_⟩
  · exact hread.trans h.nread
  · rw [PipeSystem.left_self]
    exact congrArg (WriteSystem.afterWrite (letters len)) hend

theorem Rests.pass {st : PipeSystem Unit} {n : Nat} (h : Rests st n) :
    ∃ ops st', run PipeSystem.step st ops = some st' ∧ Rests st' (n + 1) := by
  obtain ⟨st₁, hwrite, hread, hused, hcalls⟩ := h.write (show (1 : UInt32) ≠ 0 by decide)
    (by decide)
  have hsome : st₁.log.pipe.nread ≠ st₁.log.pipe.nwrite := by
    intro heq
    unfold Pipe.used at hused
    rw [heq, UInt32.sub_self] at hused
    exact absurd hused (by decide)
  have hstart : st₁.step (.read () 1) = some (st₁.left st₁.log () (.reading 1)) :=
    start_returned hcalls _
  have hsection : pipeReadSection 1 st₁.log = (.returns 1, st₁.log.take) := by
    unfold pipeReadSection
    rw [if_neg fun hempty => hsome hempty.1]
    change (SectionEnd.returns (pipeReadFrom 1 0 st₁.log).1,
      (pipeReadFrom 1 0 st₁.log).2) = _
    rw [pipeReadFrom, if_neg hsome]
    rfl
  have hturn : (st₁.left st₁.log () (.reading 1)).step (.turn () (letters 1).mem) =
      some ((st₁.left st₁.log () (.reading 1)).left st₁.log.take () (.returned 1)) := by
    unfold PipeSystem.step
    dsimp only
    rw [PipeSystem.left_self]
    dsimp only
    have hlog : (st₁.left st₁.log () (.reading 1)).log = st₁.log := rfl
    rw [hlog, hsection]
  have hreads : run PipeSystem.step st₁ [.read () 1, .turn () (letters 1).mem] =
      some ((st₁.left st₁.log () (.reading 1)).left st₁.log.take () (.returned 1)) :=
    run_cons.mpr ⟨_, hstart, run_cons.mpr ⟨_, hturn, rfl⟩⟩
  refine ⟨_, _, run_append.mpr ⟨st₁, hwrite, hreads⟩,
    start_returned (PipeSystem.left_self ..), ?_, ?_⟩
  · change st₁.log.pipe.nread + 1 = _
    rw [hread, UInt32.ofNat_add]
    rfl
  · have htake := used_take hsome
    rw [hused] at htake
    exact Nat.succ.inj htake

theorem rests_after (n : Nat) : ∃ ops st,
    run PipeSystem.step (.init 0 : PipeSystem Unit) ops = some st ∧ Rests st n := by
  induction n with
  | zero => exact ⟨[], _, rfl, fun _ => rfl, rfl, rfl⟩
  | succ n ih =>
      obtain ⟨ops, st, hrun, hrests⟩ := ih
      obtain ⟨ops', st', hrun', hrests'⟩ := hrests.pass
      exact ⟨ops ++ ops', st', run_append.mpr ⟨st, hrun, hrun'⟩, hrests'⟩

/-- 200 bytes before the counters wrap 296 are written: the next one lands on the first of
them. -/
theorem pipe_slots_collide : ∃ ops st,
    run PipeSystem.step (.init 0 : PipeSystem Unit) ops = some st ∧
    st.log.pipe.used = 296 ∧ st.log.pipe.nread ∈ st.log.pipe.unread ∧
    pipeSlot st.log.pipe.nwrite = pipeSlot st.log.pipe.nread ∧
    ¬ SlotsApart st.log.pipe ∧ ¬ KeepsUnread st.log := by
  obtain ⟨ops, st, hrun, hrests⟩ := rests_after (2 ^ 32 - 200)
  obtain ⟨st', hrun', hread, hused, _⟩ := hrests.write (show (296 : UInt32) ≠ 0 by decide)
    (by decide)
  change _ = 296 at hused
  have hroom : st'.log.pipe.used ≠ pipeSize := by
    rw [hused]
    decide
  have hfirst : st'.log.pipe.nread ∈ st'.log.pipe.unread :=
    mem_unread.mpr ⟨0, by omega, UInt32.add_zero _⟩
  have hslot : pipeSlot st'.log.pipe.nwrite = pipeSlot st'.log.pipe.nread := by
    rw [nwrite_eq, hused, hread]
    decide
  refine ⟨_, st', run_append.mpr ⟨st, hrun, hrun'⟩, hused, hfirst, hslot, ?_, ?_⟩
  · intro hapart
    exact hapart.next hroom _ hfirst hslot
  · intro hkeeps
    have hsame := fun ch => hkeeps hroom ch _ hfirst
    have hput := fun ch => PipeLog.put_get_self st'.log ch
    change ∀ ch, (st'.log.put ch).pipe.data.get (pipeSlot st'.log.pipe.nwrite) = ch at hput
    rw [hslot] at hput
    have heq : (0 : UInt8) = 1 := (hput 0).symm.trans ((hsame 0).trans
      ((hsame 1).symm.trans (hput 1)))
    exact absurd heq (by decide)

end UnoOS.Kernel
