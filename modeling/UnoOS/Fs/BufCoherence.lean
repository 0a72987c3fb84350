import UnoOS.Fs.BufCacheLaws
import UnoOS.Lib.Census
import UnoOS.Lib.Transition

namespace UnoOS.Fs

open UnoOS.Lib

/-! The steps of `buf_read`, `buf_write` and `buf_release` under any
interleaving: `lk_buf_cache` makes the lookup one step, the sleeplock of the
buffer is taken in another, and the disk is read in a third. -/

inductive BufPhase where
  | idle
  /-- `sleeplock_acquire`, after a miss if `fill` is set. -/
  | waiting (b : BufId) (n : UInt32) (fill : Bool)
  /-- `virtio_disk_rw(target, 0)` -/
  | filling (b : BufId) (n : UInt32)
  /-- `buf_release` behind `sleeplock_release`. -/
  | dropping (b : BufId)
  deriving DecidableEq

namespace BufPhase

/-- References to a buffer other than the one of its lock's owner. -/
def pending (b : BufId) : BufPhase → Nat
  | .waiting b' _ _ => if b' = b then 1 else 0
  | .dropping b' => if b' = b then 1 else 0
  | _ => 0

/-- The process has claimed the buffer and not read it yet. -/
def Claims (b : BufId) : BufPhase → Prop
  | .waiting b' _ fill => b' = b ∧ fill = true
  | .filling b' _ => b' = b
  | _ => False

end BufPhase

structure BufSystem (P : Type) where
  cache : BufCache
  disk : Disk
  phase : P → BufPhase
  /-- The owner of the sleeplock of each buffer. -/
  slk : BufId → Option P

inductive BufStep (P : Type) where
  | lookup (p : P) (n : UInt32)
  | acquire (p : P)
  | diskRead (p : P)
  /-- The holder fills `data` and calls `buf_write`. -/
  | write (p : P) (b : BufId) (block : Block)
  /-- `sleeplock_release` in `buf_release`. -/
  | unlock (p : P) (b : BufId)
  | drop (p : P)

namespace BufSystem

variable {P : Type} [DecidableEq P]

def init (disk : Disk) : BufSystem P where
  cache := BufCache.bufInit
  disk := disk
  phase := fun _ => .idle
  slk := fun _ => none

def claim (s : BufSystem P) (p : P) (n : UInt32) :
    Option (BufCache.Lookup × BufCache) → Option (BufSystem P)
  | some (.hit (.buf b), c) =>
      some { s with
        cache := c, phase := Function.update s.phase p (.waiting b n false) }
  | some (.miss (.buf b), c) =>
      some { s with
        cache := c, phase := Function.update s.phase p (.waiting b n true) }
  | _ => none

def step (s : BufSystem P) : BufStep P → Option (BufSystem P)
  | .lookup p n =>
      if s.phase p = .idle ∧ n ≠ blockNumUnused then
        s.claim p n (s.cache.lookup (s.cache.links.prev .head) n)
      else none
  | .acquire p =>
      match s.phase p with
      | .waiting b n fill =>
          if s.slk b = none then
            some { s with
              phase := Function.update s.phase p
                (if fill then .filling b n else .idle)
              slk := Function.update s.slk b (some p) }
          else none
      | _ => none
  | .diskRead p =>
      match s.phase p with
      | .filling b _ =>
          some { s with
            cache := { s.cache with
              data := Function.update s.cache.data (.buf b)
                (s.disk (s.cache.blockNum (.buf b))) }
            phase := Function.update s.phase p .idle }
      | _ => none
  | .write p b block =>
      if s.phase p = .idle ∧ s.slk b = some p then
        some { s with
          cache := { s.cache with
            data := Function.update s.cache.data (.buf b) block }
          disk := Function.update s.disk (s.cache.blockNum (.buf b)) block }
      else none
  | .unlock p b =>
      if s.phase p = .idle ∧ s.slk b = some p then
        some { s with
          phase := Function.update s.phase p (.dropping b)
          slk := Function.update s.slk b none }
      else none
  | .drop p =>
      match s.phase p with
      | .dropping b =>
          some { s with
            cache := s.cache.releaseRef (.buf b)
            phase := Function.update s.phase p .idle }
      | _ => none

/-- The buffer and the block number with which the step returns from
`buf_read`. -/
def returned (s : BufSystem P) : BufStep P → Option (BufId × UInt32)
  | .acquire p =>
      match s.phase p with
      | .waiting b n false => some (b, n)
      | _ => none
  | .diskRead p =>
      match s.phase p with
      | .filling b n => some (b, n)
      | _ => none
  | _ => none

/-- A `buf_read` that returns with this step returns the block's contents. -/
def ReturnsCurrent (s : BufSystem P) (op : BufStep P) : Prop :=
  ∀ s' b n, s.step op = some s' → s.returned op = some (b, n) →
    s'.cache.blockNum (.buf b) = n ∧ s'.cache.data (.buf b) = s'.disk n

/-- A process that found the block takes the sleeplock only when nobody who
claimed the buffer still has to read it. -/
def FillFirst (s : BufSystem P) : BufStep P → Prop
  | .acquire p => ∀ b n, s.phase p = .waiting b n false →
      ∀ q, ¬ (s.phase q).Claims b
  | _ => True

/-! The invariant: `buf_ref` counts the processes that wait, hold or let go,
the labels are those they asked for, and unclaimed buffers agree with the
disk. -/

def owners : Option P → Nat
  | none => 0
  | some _ => 1

structure Coherent [Fintype P] (s : BufSystem P) : Prop where
  wf : ∃ used free, s.cache.Wf used free
  count : ∀ b, s.cache.bufRef (.buf b) =
    census (BufPhase.pending b) s.phase + owners (s.slk b)
  waits : ∀ p b n fill, s.phase p = .waiting b n fill →
    s.cache.blockNum (.buf b) = n ∧ n ≠ blockNumUnused
  fills : ∀ p b n, s.phase p = .filling b n →
    s.cache.blockNum (.buf b) = n ∧ s.slk b = some p
  clean : ∀ b, s.cache.blockNum (.buf b) ≠ blockNumUnused →
    (∀ p, ¬ (s.phase p).Claims b) →
    s.cache.data (.buf b) = s.disk (s.cache.blockNum (.buf b))

section

variable [Fintype P] {s : BufSystem P} {p : P}

omit [DecidableEq P] in
theorem coherent_init (disk : Disk) : (init disk : BufSystem P).Coherent := by
  have hlabel : ∀ b : BufId, BufCache.bufInit.blockNum (.buf b) =
      blockNumUnused := by decide +kernel
  refine ⟨⟨_, _, BufCache.wf_bufInit⟩, ?_, ?_, ?_, ?_⟩
  · intro b
    have href := BufCache.wf_bufInit.free_ref b (by simp)
    simpa [init, census, BufPhase.pending, owners] using href
  · intro p b n fill hphase
    cases hphase
  · intro p b n hphase
    cases hphase
  · intro b hused
    exact absurd (hlabel b) hused

omit [Fintype P] in
theorem not_claims_of_update {b : BufId} {phase : BufPhase}
    (hold : ¬ (s.phase p).Claims b)
    (h : ∀ q, ¬ (Function.update s.phase p phase q).Claims b) (q : P) :
    ¬ (s.phase q).Claims b := by
  by_cases hq : q = p
  · rw [hq]
    exact hold
  · have hother := h q
    rwa [Function.update_of_ne hq] at hother

omit [DecidableEq P] in
theorem Coherent.pending_eq_zero (h : s.Coherent) {b : BufId}
    (href : s.cache.bufRef (.buf b) = 0) (q : P) :
    (s.phase q).pending b = 0 ∧ s.slk b = none := by
  have hcount := h.count b
  rw [href] at hcount
  refine ⟨census_eq_zero (by omega) q, ?_⟩
  cases hslk : s.slk b with
  | none => rfl
  | some owner =>
      rw [hslk] at hcount
      simp [owners] at hcount

omit [DecidableEq P] in
theorem Coherent.phase_ne (h : s.Coherent) {b : BufId}
    (href : s.cache.bufRef (.buf b) = 0) (q : P) :
    (∀ n fill, s.phase q ≠ .waiting b n fill) ∧
      (∀ n, s.phase q ≠ .filling b n) ∧ s.phase q ≠ .dropping b := by
  obtain ⟨hpending, hslk⟩ := h.pending_eq_zero href q
  refine ⟨?_, ?_, ?_⟩
  · intro n fill hphase
    simp [hphase, BufPhase.pending] at hpending
  · intro n hphase
    rw [(h.fills q b n hphase).2] at hslk
    cases hslk
  · intro hphase
    simp [hphase, BufPhase.pending] at hpending

theorem Coherent.hit (h : s.Coherent) {b : BufId} {n : UInt32}
    (hidle : s.phase p = .idle) (hn : n ≠ blockNumUnused)
    (hlabel : s.cache.blockNum (.buf b) = n) :
    Coherent { s with
      cache := s.cache.takeHit (.buf b)
      phase := Function.update s.phase p (.waiting b n false) } := by
  obtain ⟨used, free, hwf⟩ := h.wf
  refine ⟨⟨_, _, hwf.takeHit b⟩, ?_, ?_, ?_, ?_⟩
  · intro a
    have hcount := h.count a
    have hcensus := census_update (BufPhase.pending a) s.phase p
      (.waiting b n false)
    rw [hidle] at hcensus
    by_cases hab : a = b
    · subst hab
      simp [BufCache.takeHit, BufCache.insertHead,
        BufPhase.pending] at hcensus ⊢
      omega
    · have hba : b ≠ a := Ne.symm hab
      simp [BufCache.takeHit, BufCache.insertHead,
        BufPhase.pending, hab, hba] at hcensus ⊢
      omega
  · intro q a m fill hphase
    by_cases hq : q = p
    · subst hq
      simp only [Function.update_self, BufPhase.waiting.injEq]
        at hphase
      obtain ⟨rfl, rfl, rfl⟩ := hphase
      exact ⟨hlabel, hn⟩
    · simp only [Function.update_of_ne hq] at hphase
      exact h.waits q a m fill hphase
  · intro q a m hphase
    by_cases hq : q = p
    · subst hq
      simp at hphase
    · simp only [Function.update_of_ne hq] at hphase
      exact h.fills q a m hphase
  · intro a hused hfree
    refine h.clean a hused (not_claims_of_update ?_ hfree)
    rw [hidle]
    exact not_false

theorem Coherent.miss (h : s.Coherent) {used free : List BufId} {b : BufId}
    {n : UInt32} (hwf : s.cache.Wf used (b :: free))
    (hidle : s.phase p = .idle) (hn : n ≠ blockNumUnused)
    (hfresh : ∀ a, s.cache.blockNum (.buf a) ≠ n) :
    Coherent { s with
      cache := s.cache.takeMiss n (.buf b)
      phase := Function.update s.phase p (.waiting b n true) } := by
  have href := hwf.free_ref b (by simp)
  refine ⟨⟨_, _, hwf.takeMiss fun a _ => hfresh a⟩, ?_, ?_, ?_, ?_⟩
  · intro a
    have hcount := h.count a
    have hcensus := census_update (BufPhase.pending a) s.phase p
      (.waiting b n true)
    rw [hidle] at hcensus
    by_cases hab : a = b
    · subst hab
      have hslk := (h.pending_eq_zero href p).2
      simp [BufCache.takeMiss, BufPhase.pending, owners, hslk]
        at hcensus hcount ⊢
      omega
    · have hba : b ≠ a := Ne.symm hab
      simp [BufCache.takeMiss, BufPhase.pending, hab, hba]
        at hcensus ⊢
      omega
  · intro q a m fill hphase
    by_cases hq : q = p
    · subst hq
      simp only [Function.update_self, BufPhase.waiting.injEq]
        at hphase
      obtain ⟨rfl, rfl, rfl⟩ := hphase
      exact ⟨by simp [BufCache.takeMiss], hn⟩
    · simp only [Function.update_of_ne hq] at hphase
      have hab : a ≠ b := by
        rintro rfl
        exact (h.phase_ne href q).1 m fill hphase
      simpa [BufCache.takeMiss, hab] using h.waits q a m fill hphase
  · intro q a m hphase
    by_cases hq : q = p
    · subst hq
      simp at hphase
    · simp only [Function.update_of_ne hq] at hphase
      have hab : a ≠ b := by
        rintro rfl
        exact (h.phase_ne href q).2.1 m hphase
      simpa [BufCache.takeMiss, hab] using h.fills q a m hphase
  · intro a hused hfree
    have hab : a ≠ b := by
      rintro rfl
      refine hfree p ?_
      simp [BufPhase.Claims]
    simp only [BufCache.takeMiss, ne_eq, BufPtr.buf.injEq, hab,
      not_false_eq_true, Function.update_of_ne] at hused ⊢
    refine h.clean a hused (not_claims_of_update ?_ hfree)
    rw [hidle]
    exact not_false

theorem Coherent.acquire (h : s.Coherent) {b : BufId} {n : UInt32}
    {fill : Bool} (hphase : s.phase p = .waiting b n fill)
    (hslk : s.slk b = none) :
    Coherent { s with
      phase := Function.update s.phase p (if fill then .filling b n else .idle)
      slk := Function.update s.slk b (some p) } := by
  refine ⟨h.wf, ?_, ?_, ?_, ?_⟩
  · intro a
    have hcount := h.count a
    have hcensus := census_update (BufPhase.pending a) s.phase p
      (if fill then .filling b n else .idle)
    have hzero : BufPhase.pending a (if fill then .filling b n else .idle) = 0 := by
      cases fill <;> rfl
    rw [hphase, hzero] at hcensus
    by_cases hab : a = b
    · subst hab
      simp [BufPhase.pending, owners, hslk] at hcensus hcount ⊢
      omega
    · have hba : b ≠ a := Ne.symm hab
      simp [BufPhase.pending, hab, hba] at hcensus ⊢
      omega
  · intro q a m fill' hphase'
    by_cases hq : q = p
    · subst hq
      cases fill <;> simp at hphase'
    · simp only [Function.update_of_ne hq] at hphase'
      exact h.waits q a m fill' hphase'
  · intro q a m hphase'
    by_cases hq : q = p
    · subst hq
      cases fill with
      | false => simp at hphase'
      | true =>
          simp only [if_true, Function.update_self,
            BufPhase.filling.injEq] at hphase'
          obtain ⟨rfl, rfl⟩ := hphase'
          exact ⟨(h.waits q _ _ _ hphase).1, by simp⟩
    · simp only [Function.update_of_ne hq] at hphase'
      obtain ⟨hlabel, howner⟩ := h.fills q a m hphase'
      have hab : a ≠ b := by
        rintro rfl
        rw [hslk] at howner
        cases howner
      exact ⟨hlabel, by simpa [hab] using howner⟩
  · intro a hused hfree
    refine h.clean a hused ?_
    intro q hclaims
    refine hfree q ?_
    by_cases hq : q = p
    · subst hq
      -- the claim of a waiting process becomes the claim of a filling one
      rw [hphase] at hclaims
      obtain ⟨rfl, rfl⟩ := hclaims
      simp [BufPhase.Claims]
    · simpa only [Function.update_of_ne hq] using hclaims

theorem Coherent.diskRead (h : s.Coherent) {b : BufId} {n : UInt32}
    (hphase : s.phase p = .filling b n) :
    Coherent { s with
      cache := { s.cache with
        data := Function.update s.cache.data (.buf b)
          (s.disk (s.cache.blockNum (.buf b))) }
      phase := Function.update s.phase p .idle } := by
  obtain ⟨used, free, hwf⟩ := h.wf
  refine ⟨⟨used, free, hwf.ring, hwf.all, hwf.used_ref, hwf.free_ref,
    hwf.labels⟩, ?_, ?_, ?_, ?_⟩
  · intro a
    have hcount := h.count a
    have hcensus := census_update (BufPhase.pending a) s.phase p .idle
    rw [hphase] at hcensus
    simp only [BufPhase.pending, Nat.add_zero] at hcensus
    simp only
    omega
  · intro q a m fill hphase'
    by_cases hq : q = p
    · subst hq
      simp at hphase'
    · simp only [Function.update_of_ne hq] at hphase'
      exact h.waits q a m fill hphase'
  · intro q a m hphase'
    by_cases hq : q = p
    · subst hq
      simp at hphase'
    · simp only [Function.update_of_ne hq] at hphase'
      exact h.fills q a m hphase'
  · intro a hused hfree
    by_cases hab : a = b
    · simp [hab]
    · have hclean := h.clean a hused (not_claims_of_update
        (by rw [hphase]; exact Ne.symm hab) hfree)
      simpa [hab] using hclean

omit [DecidableEq P] in
theorem Coherent.write (h : s.Coherent) (b : BufId) (block : Block) :
    Coherent { s with
      cache := { s.cache with
        data := Function.update s.cache.data (.buf b) block }
      disk := Function.update s.disk (s.cache.blockNum (.buf b)) block } := by
  obtain ⟨used, free, hwf⟩ := h.wf
  refine ⟨⟨used, free, hwf.ring, hwf.all, hwf.used_ref, hwf.free_ref,
    hwf.labels⟩, h.count, h.waits, h.fills, ?_⟩
  intro a hused hfree
  by_cases hab : a = b
  · simp [hab]
  · have hne : s.cache.blockNum (.buf a) ≠ s.cache.blockNum (.buf b) := by
      intro heq
      exact hab (hwf.labels a b heq hused)
    simpa [hab, hne] using h.clean a hused hfree

theorem Coherent.unlock (h : s.Coherent) {b : BufId}
    (hidle : s.phase p = .idle) (hslk : s.slk b = some p) :
    Coherent { s with
      phase := Function.update s.phase p (.dropping b)
      slk := Function.update s.slk b none } := by
  refine ⟨h.wf, ?_, ?_, ?_, ?_⟩
  · intro a
    have hcount := h.count a
    have hcensus := census_update (BufPhase.pending a) s.phase p (.dropping b)
    rw [hidle] at hcensus
    by_cases hab : a = b
    · subst hab
      simp [BufPhase.pending, owners, hslk] at hcensus hcount ⊢
      omega
    · have hba : b ≠ a := Ne.symm hab
      simp [BufPhase.pending, hab, hba] at hcensus ⊢
      omega
  · intro q a m fill hphase
    by_cases hq : q = p
    · subst hq
      simp at hphase
    · simp only [Function.update_of_ne hq] at hphase
      exact h.waits q a m fill hphase
  · intro q a m hphase
    by_cases hq : q = p
    · subst hq
      simp at hphase
    · simp only [Function.update_of_ne hq] at hphase
      obtain ⟨hlabel, howner⟩ := h.fills q a m hphase
      have hab : a ≠ b := by
        rintro rfl
        rw [hslk] at howner
        exact hq (Option.some.inj howner).symm
      exact ⟨hlabel, by simpa [hab] using howner⟩
  · intro a hused hfree
    refine h.clean a hused (not_claims_of_update ?_ hfree)
    rw [hidle]
    exact not_false

theorem Coherent.drop (h : s.Coherent) {b : BufId}
    (hphase : s.phase p = .dropping b) :
    Coherent { s with
      cache := s.cache.releaseRef (.buf b)
      phase := Function.update s.phase p .idle } := by
  obtain ⟨used, free, hwf⟩ := h.wf
  obtain ⟨hblockNum, hdata⟩ := s.cache.releaseRef_frame (.buf b)
  have hpos : 0 < s.cache.bufRef (.buf b) := by
    have hle := weight_le_census (BufPhase.pending b) s.phase p
    have hcount := h.count b
    rw [hphase] at hle
    simp only [BufPhase.pending, if_true] at hle
    omega
  refine ⟨hwf.releaseRef hpos, ?_, ?_, ?_, ?_⟩
  · intro a
    have hcount := h.count a
    have hcensus := census_update (BufPhase.pending a) s.phase p .idle
    rw [hphase] at hcensus
    rw [BufCache.releaseRef_bufRef]
    by_cases hab : a = b
    · subst hab
      simp [BufPhase.pending] at hcensus ⊢
      omega
    · have hba : b ≠ a := Ne.symm hab
      simp [BufPhase.pending, hab, hba] at hcensus ⊢
      omega
  · intro q a m fill hphase'
    by_cases hq : q = p
    · subst hq
      simp at hphase'
    · simp only [Function.update_of_ne hq] at hphase'
      rw [hblockNum]
      exact h.waits q a m fill hphase'
  · intro q a m hphase'
    by_cases hq : q = p
    · subst hq
      simp at hphase'
    · simp only [Function.update_of_ne hq] at hphase'
      rw [hblockNum]
      exact h.fills q a m hphase'
  · intro a hused hfree
    rw [hblockNum] at hused ⊢
    rw [hdata]
    refine h.clean a hused (not_claims_of_update ?_ hfree)
    rw [hphase]
    exact not_false

theorem Coherent.step (h : s.Coherent) {op : BufStep P} {s' : BufSystem P}
    (hstep : s.step op = some s') : s'.Coherent := by
  cases op with
  | lookup p n =>
      simp only [BufSystem.step] at hstep
      split at hstep
      · next hguard =>
        obtain ⟨used, free, hwf⟩ := h.wf
        rcases hwf.lookup_fresh n with
          ⟨b, hlabel, hhit⟩ | ⟨hnone, ⟨b, rest, rfl, hmiss⟩ | ⟨_, hfull⟩⟩
        · rw [hhit] at hstep
          cases hstep
          exact h.hit hguard.1 hguard.2 hlabel
        · rw [hmiss] at hstep
          cases hstep
          exact h.miss hwf hguard.1 hguard.2 hnone
        · rw [hfull] at hstep
          cases hstep
      · cases hstep
  | acquire p =>
      simp only [BufSystem.step] at hstep
      split at hstep
      · next b n fill hphase =>
        split at hstep
        · next hslk =>
          cases hstep
          exact h.acquire hphase hslk
        · cases hstep
      · cases hstep
  | diskRead p =>
      simp only [BufSystem.step] at hstep
      split at hstep
      · next b n hphase =>
        cases hstep
        exact h.diskRead hphase
      · cases hstep
  | write p b block =>
      simp only [BufSystem.step] at hstep
      split at hstep
      · cases hstep
        exact h.write b block
      · cases hstep
  | unlock p b =>
      simp only [BufSystem.step] at hstep
      split at hstep
      · next hguard =>
        cases hstep
        exact h.unlock hguard.1 hguard.2
      · cases hstep
  | drop p =>
      simp only [BufSystem.step] at hstep
      split at hstep
      · next b hphase =>
        cases hstep
        exact h.drop hphase
      · cases hstep

theorem Coherent.returnsCurrent (h : s.Coherent) {op : BufStep P}
    (hfirst : s.FillFirst op) : s.ReturnsCurrent op := by
  intro s' b n hstep hreturned
  cases op with
  | acquire p =>
      simp only [returned] at hreturned
      split at hreturned
      · next b' n' hphase =>
        cases hreturned
        obtain ⟨hlabel, hused⟩ := h.waits p b n false hphase
        have hdata := h.clean b (by rwa [hlabel]) (hfirst b n hphase)
        simp only [BufSystem.step, hphase] at hstep
        split at hstep
        · cases hstep
          rw [hlabel] at hdata
          exact ⟨hlabel, hdata⟩
        · cases hstep
      · cases hreturned
  | diskRead p =>
      simp only [returned] at hreturned
      split at hreturned
      · next b' n' hphase =>
        cases hreturned
        have hlabel := (h.fills p b n hphase).1
        simp only [BufSystem.step, hphase, Option.some.injEq] at hstep
        subst hstep
        simp [hlabel]
      · cases hreturned
  | lookup p n => cases hreturned
  | write p b block => cases hreturned
  | unlock p b => cases hreturned
  | drop p => cases hreturned

/-- With every claimed buffer filled before anyone else takes its sleeplock,
every `buf_read` of every interleaving returns the contents of its block. -/
theorem reads_current_when_filled_first (disk : Disk)
    (ops : List (BufStep P)) (hfirst : Along step FillFirst (init disk) ops) :
    Along step ReturnsCurrent (init disk : BufSystem P) ops :=
  along_of_along (I := Coherent) (fun _ _ _ h _ hstep => h.step hstep)
    (fun _ _ h hfirst => h.returnsCurrent hfirst) (coherent_init disk) hfirst

theorem reads_current_when_filled_first_two :
    Along step FillFirst (init (fun _ => 1))
        [.lookup false 5, .acquire false, .diskRead false, .lookup true 5] ∧
      Along step ReturnsCurrent (init (fun _ => 1) : BufSystem Bool)
        [.lookup false 5, .acquire false, .diskRead false, .lookup true 5] := by
  have hfirst : Along step FillFirst (init (fun _ => 1) : BufSystem Bool)
      [.lookup false 5, .acquire false, .diskRead false, .lookup true 5] := by
    refine ⟨trivial, fun s hs => ⟨?_, fun s' _ => ⟨trivial, fun s'' _ =>
      ⟨trivial, fun _ _ => trivial⟩⟩⟩⟩
    intro b n hphase
    have hfill : ((init (fun _ => 1) : BufSystem Bool).step
        (.lookup false 5)).map (·.phase false) =
        some (.waiting 63 5 true) := by decide +kernel
    rw [hs, Option.map_some, hphase] at hfill
    cases hfill
  exact ⟨hfirst, reads_current_when_filled_first _ _ hfirst⟩

/-- One process claims a buffer for block 5, a second finds it and takes its
sleeplock before the first has read the disk. -/
theorem hit_before_fill_returns_stale_data :
    ¬ Along step ReturnsCurrent (init (fun _ => 1) : BufSystem Bool)
      [.lookup false 5, .lookup true 5, .acquire true] := by
  intro halong
  have hsplit : ([.lookup false 5, .lookup true 5, .acquire true] :
      List (BufStep Bool)) =
      [.lookup false 5, .lookup true 5] ++ [.acquire true] := rfl
  rw [hsplit] at halong
  have hcheck : ((run step (init (fun _ => 1) : BufSystem Bool)
      [.lookup false 5, .lookup true 5]).bind fun s =>
        (s.step (.acquire true)).map fun s' => (s.returned (.acquire true),
          s'.cache.data (.buf 63) 0, s'.disk 5 0)) =
      some (some (63, 5), 0, 1) := by decide +kernel
  obtain ⟨s, hrun, hstep⟩ := Option.bind_eq_some_iff.mp hcheck
  obtain ⟨s', hs', hvalues⟩ := Option.map_eq_some_iff.mp hstep
  simp only [Prod.mk.injEq] at hvalues
  obtain ⟨hreturned, hdata, hdisk⟩ := hvalues
  have htail : Along step ReturnsCurrent s [.acquire true] :=
    along_append halong hrun
  have hcurrent := (htail.1 s' 63 5 hs' hreturned).2
  have hbyte : (0 : UInt8) = 1 := calc
    0 = s'.cache.data (.buf 63) 0 := hdata.symm
    _ = s'.disk 5 0 := congrFun hcurrent 0
    _ = 1 := hdisk
  exact absurd hbyte (by decide)

end

end BufSystem

end UnoOS.Fs
