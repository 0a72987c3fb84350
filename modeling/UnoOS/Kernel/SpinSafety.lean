import UnoOS.Kernel.SpinRuns

namespace UnoOS.Kernel

open UnoOS.Lib

/-! Spinlocks exclude each other, and no CPU waits for itself. -/

variable {κ τ ℓ : Type}

/-! What the two words of a lock say about who has it. -/

/-- A CPU has its number in a lock that it owns but while it takes it or gives it back. -/
structure Guards (lock : ℓ → SpinLock κ) (owns : κ → ℓ → Prop) (unnamed : κ → Option ℓ) :
    Prop where
  locked : ∀ l, (lock l).locked = true ↔ ∃ c, owns c l
  one : ∀ c d l, owns c l → owns d l → c = d
  cpuid : ∀ c l, (lock l).cpuid = some c ↔ owns c l ∧ unnamed c ≠ some l

namespace Guards

variable {lock : ℓ → SpinLock κ} {owns owns' : κ → ℓ → Prop} {unnamed unnamed' : κ → Option ℓ}
  {c : κ} {l : ℓ}

theorem congr (h : Guards lock owns unnamed) (howns : ∀ c l, owns' c l ↔ owns c l)
    (hunnamed : ∀ c, unnamed' c = unnamed c) : Guards lock owns' unnamed' := by
  refine ⟨fun l => ?_, fun c d l => ?_, fun c l => ?_⟩
  · simp only [howns]
    exact h.locked l
  · rw [howns, howns]
    exact h.one c d l
  · rw [howns, hunnamed]
    exact h.cpuid c l

theorem holding (h : Guards lock owns unnamed) :
    ((lock l).cpuid = some c ∧ (lock l).locked = true) ↔ owns c l ∧ unnamed c ≠ some l := by
  rw [h.cpuid]
  constructor
  · exact fun hand => hand.1
  · exact fun hand => ⟨hand, (h.locked l).mpr ⟨c, hand.1⟩⟩

variable [DecidableEq ℓ]

theorem take (h : Guards lock owns unnamed) (hfree : (lock l).locked = false)
    (howns : ∀ d k, owns' d k ↔ owns d k ∨ d = c ∧ k = l)
    (hc : unnamed' c = some l) (hc' : unnamed c = none)
    (hunnamed : ∀ d, d ≠ c → unnamed' d = unnamed d) :
    Guards (Function.update lock l { lock l with locked := true }) owns' unnamed' := by
  have hnone : ∀ d, ¬ owns d l := by
    intro d hd
    rw [(h.locked l).mpr ⟨d, hd⟩] at hfree
    cases hfree
  refine ⟨fun k => ?_, fun d e k => ?_, fun d k => ?_⟩
  · by_cases hk : k = l
    · subst hk
      rw [Function.update_self]
      exact iff_of_true rfl ⟨c, (howns c k).mpr (.inr ⟨rfl, rfl⟩)⟩
    · rw [Function.update_of_ne hk, h.locked]
      simp only [howns, hk, and_false, or_false]
  · rw [howns, howns]
    rintro (hd | ⟨rfl, rfl⟩) (he | ⟨rfl, hk⟩)
    · exact h.one d e k hd he
    · exact absurd hd (hk ▸ hnone d)
    · exact absurd he (hnone e)
    · rfl
  · by_cases hk : k = l
    · subst hk
      rw [Function.update_self]
      change (lock k).cpuid = some d ↔ _
      rw [h.cpuid, howns]
      refine iff_of_false (fun hand => hnone d hand.1) ?_
      rintro ⟨hd | ⟨rfl, _⟩, hne⟩
      · exact hnone d hd
      · exact hne hc
    · rw [Function.update_of_ne hk, h.cpuid, howns]
      have hk' : unnamed' d ≠ some k ↔ unnamed d ≠ some k := by
        by_cases hd : d = c
        · subst hd
          rw [hc, hc']
          refine iff_of_true (fun heq => hk (Option.some.inj heq).symm) nofun
        · rw [hunnamed d hd]
      simp only [hk, and_false, or_false, hk']

theorem name (h : Guards lock owns unnamed) (hown : owns c l)
    (howns : ∀ d k, owns' d k ↔ owns d k) (hc : unnamed' c = none)
    (hc' : unnamed c = some l) (hunnamed : ∀ d, d ≠ c → unnamed' d = unnamed d) :
    Guards (Function.update lock l { lock l with cpuid := some c }) owns' unnamed' := by
  refine ⟨fun k => ?_, fun d e k => ?_, fun d k => ?_⟩
  · by_cases hk : k = l
    · subst hk
      rw [Function.update_self]
      exact iff_of_true ((h.locked k).mpr ⟨c, hown⟩) ⟨c, (howns c k).mpr hown⟩
    · rw [Function.update_of_ne hk, h.locked]
      simp only [howns]
  · rw [howns, howns]
    exact h.one d e k
  · by_cases hd : d = c
    · subst hd
      by_cases hk : k = l
      · subst hk
        rw [Function.update_self]
        exact iff_of_true rfl ⟨(howns d k).mpr hown, hc ▸ nofun⟩
      · rw [Function.update_of_ne hk, h.cpuid, howns, hc, hc']
        refine and_congr_right fun _ => iff_of_true ?_ nofun
        exact fun heq => hk (Option.some.inj heq).symm
    · rw [howns, hunnamed d hd]
      by_cases hk : k = l
      · subst hk
        rw [Function.update_self]
        refine iff_of_false (fun heq => hd (Option.some.inj heq).symm) ?_
        exact fun hand => hd (h.one d c k hand.1 hown)
      · rw [Function.update_of_ne hk, h.cpuid]

theorem unname (h : Guards lock owns unnamed) (hown : owns c l)
    (howns : ∀ d k, owns' d k ↔ owns d k) (hc : unnamed' c = some l)
    (hc' : unnamed c = none) (hunnamed : ∀ d, d ≠ c → unnamed' d = unnamed d) :
    Guards (Function.update lock l { lock l with cpuid := none }) owns' unnamed' := by
  refine ⟨fun k => ?_, fun d e k => ?_, fun d k => ?_⟩
  · by_cases hk : k = l
    · subst hk
      rw [Function.update_self]
      exact iff_of_true ((h.locked k).mpr ⟨c, hown⟩) ⟨c, (howns c k).mpr hown⟩
    · rw [Function.update_of_ne hk, h.locked]
      simp only [howns]
  · rw [howns, howns]
    exact h.one d e k
  · rw [howns]
    by_cases hk : k = l
    · subst hk
      rw [Function.update_self]
      refine iff_of_false nofun ?_
      rintro ⟨hd, hne⟩
      obtain rfl := h.one d c k hd hown
      exact hne hc
    · rw [Function.update_of_ne hk, h.cpuid]
      refine and_congr_right fun _ => ?_
      by_cases hd : d = c
      · subst hd
        rw [hc, hc']
        exact iff_of_true nofun fun heq => hk (Option.some.inj heq).symm
      · rw [hunnamed d hd]

theorem drop (h : Guards lock owns unnamed) (hown : owns c l)
    (howns : ∀ d k, owns' d k ↔ owns d k ∧ ¬ (d = c ∧ k = l)) (hc : unnamed' c = none)
    (hc' : unnamed c = some l) (hunnamed : ∀ d, d ≠ c → unnamed' d = unnamed d) :
    Guards (Function.update lock l { lock l with locked := false }) owns' unnamed' := by
  have hnone : ∀ d, ¬ owns' d l := by
    intro d hd
    rw [howns] at hd
    exact hd.2 ⟨h.one d c l hd.1 hown, rfl⟩
  refine ⟨fun k => ?_, fun d e k hd he => ?_, fun d k => ?_⟩
  · by_cases hk : k = l
    · subst hk
      rw [Function.update_self]
      refine iff_of_false nofun ?_
      rintro ⟨d, hd⟩
      exact hnone d hd
    · rw [Function.update_of_ne hk, h.locked]
      simp only [howns, hk, and_false, not_false_eq_true, and_true]
  · exact h.one d e k ((howns d k).mp hd).1 ((howns e k).mp he).1
  · by_cases hk : k = l
    · subst hk
      rw [Function.update_self]
      change (lock k).cpuid = some d ↔ _
      rw [h.cpuid]
      refine iff_of_false ?_ fun hand => hnone d hand.1
      rintro ⟨hd, hne⟩
      obtain rfl := h.one d c k hd hown
      exact hne hc'
    · rw [Function.update_of_ne hk, h.cpuid, howns]
      simp only [hk, and_false, not_false_eq_true, and_true]
      refine and_congr_right fun _ => ?_
      by_cases hd : d = c
      · subst hd
        rw [hc, hc']
        exact iff_of_true (fun heq => hk (Option.some.inj heq).symm) nofun
      · rw [hunnamed d hd]

end Guards

/-! Statements by what they need and what they change. -/

namespace SpinPc

/-- `push_off` has been called for a lock that is not in `taken`, or `pop_off` will be. -/
def pending : SpinPc ℓ → Nat
  | .out | .getIntr _ | .intrOff _ | .saveOrigin _ | .countUp _ | .restore => 0
  | _ => 1

def target : SpinPc ℓ → Option ℓ
  | .getIntr next | .intrOff next | .saveOrigin next | .countUp next => next
  | .testOwner l | .testFree l | .swap l | .setCpuid l => some l
  | .checkOwner l | .checkLocked l | .clearCpuid l | .clearLocked l => some l
  | _ => none

/-- Interrupts are off, whether or not a `push_off` is in force. -/
def masked : SpinPc ℓ → Bool
  | .saveOrigin _ | .countUp _ | .restore => true
  | _ => false

/-- `origin` is in use, whether or not a `push_off` is in force. -/
def keepsOrigin : SpinPc ℓ → Bool
  | .countUp _ | .restore => true
  | _ => false

/-- The lock that the CPU has, other than those in `taken`. -/
def grip : SpinPc ℓ → Option ℓ
  | .setCpuid l | .checkOwner l | .checkLocked l | .clearCpuid l | .clearLocked l => some l
  | _ => none

/-- The lock that the CPU has and that does not have its number. -/
def unnamed : SpinPc ℓ → Option ℓ
  | .setCpuid l | .clearLocked l => some l
  | _ => none

def expects : SpinPc ℓ → Option Bool
  | .testFree _ => some false
  | .checkLocked _ => some true
  | _ => none

theorem grip_of_pending (pc : SpinPc ℓ) (h : pc.pending = 0) :
    pc.grip = none ∧ pc.unnamed = none := by
  cases pc with
  | setCpuid l => cases h
  | checkOwner l => cases h
  | checkLocked l => cases h
  | clearCpuid l => cases h
  | clearLocked l => cases h
  | _ => exact ⟨rfl, rfl⟩

end SpinPc

structure CpuFits (s : SpinCpu ℓ) (f : SpinFrame ℓ) : Prop where
  noff : s.noff = f.depth
  count : s.taken.length + f.pc.pending ≤ f.depth
  nodup : s.taken.Nodup
  apart : ∀ l, f.pc.target = some l → l ∉ s.taken
  off : 0 < f.depth ∨ f.pc.masked = true → s.intr = false
  intr : f.depth = 0 → f.pc.masked = false → ∀ w, f.wants = some w → s.intr = w
  status : ∀ next, f.pc = .intrOff next → f.status = s.intr
  carried : ∀ next, f.pc = .saveOrigin next → f.depth = 0 → ∀ w, f.wants = some w →
    f.status = w
  origin : 0 < f.depth ∨ f.pc.keepsOrigin = true → ∀ w, f.wants = some w → s.origin = w
  own : ∀ b, f.pc.expects = some b → f.own = b

structure Early (f : SpinFrame ℓ) : Prop where
  depth : f.depth = 0
  pending : f.pc.pending = 0
  masked : f.pc.masked = false
  wants : ∀ w, f.wants = some w → w = true
  status : ∀ next, f.pc = .intrOff next → f.status = true

structure Waiting (f : SpinFrame ℓ) (saved : Option Bool) : Prop where
  pc : f.pc = .out
  depth : f.depth = 1
  wants : ∀ w, f.wants = some w → saved = some w

variable {s s' : SpinCpu ℓ} {f f' : SpinFrame ℓ}

theorem CpuFits.early (h : CpuFits s f) (hintr : s.intr = true) : Early f := by
  have hdepth : f.depth = 0 := by
    by_contra hne
    have hoff := h.off (.inl (by omega))
    rw [hintr] at hoff
    cases hoff
  have hmasked : f.pc.masked = false := by
    by_contra hne
    have hoff := h.off (.inr (by simpa using hne))
    rw [hintr] at hoff
    cases hoff
  have hcount := h.count
  refine ⟨hdepth, by omega, hmasked, fun w hw => ?_, fun next hpc => ?_⟩
  · rw [← h.intr hdepth hmasked w hw, hintr]
  · rw [h.status next hpc, hintr]

theorem CpuFits.handler (h : CpuFits s f) (hintr : s.intr = true) :
    CpuFits { s with intr := false } SpinFrame.handler := by
  have hearly := h.early hintr
  have hcount := h.count
  rw [hearly.depth] at hcount
  refine ⟨h.noff.trans hearly.depth, ?_, h.nodup, nofun, fun _ => rfl, fun _ _ w hw => ?_, nofun,
    nofun, ?_, nofun⟩
  · change s.taken.length + 0 ≤ 0
    omega
  · exact Option.some.inj hw
  · rintro (hpos | hkeeps)
    · exact absurd hpos (Nat.lt_irrefl 0)
    · cases hkeeps

theorem Early.resume (hearly : Early f') (h : CpuFits s f) (hnoff : s.noff = 0) :
    CpuFits { s with intr := true } f' := by
  have hcount := h.count
  have htaken : s.taken = [] := by
    rw [← List.length_eq_zero_iff]
    have := h.noff
    omega
  refine ⟨hnoff.trans hearly.depth.symm, ?_, h.nodup, fun l _ => ?_, ?_, ?_, ?_, ?_, ?_, ?_⟩
  · change s.taken.length + f'.pc.pending ≤ f'.depth
    rw [htaken, hearly.pending]
    exact Nat.zero_le _
  · change l ∉ s.taken
    rw [htaken]
    exact List.not_mem_nil
  · rw [hearly.depth, hearly.masked]
    rintro (hpos | hmasked)
    · exact absurd hpos (Nat.lt_irrefl 0)
    · cases hmasked
  · exact fun _ _ w hw => (hearly.wants w hw).symm
  · exact fun next hpc => hearly.status next hpc
  · intro next hpc
    have hmasked := hearly.masked
    rw [hpc] at hmasked
    cases hmasked
  · rintro (hpos | hkeeps)
    · rw [hearly.depth] at hpos
      exact absurd hpos (Nat.lt_irrefl 0)
    · have hmasked := hearly.masked
      revert hkeeps hmasked
      cases f'.pc <;> exact nofun
  · intro b hb
    have hpending := hearly.pending
    revert hb hpending
    cases f'.pc <;> exact nofun

section

variable [DecidableEq κ] [DecidableEq ℓ] {c : κ} {lock lock' : ℓ → SpinLock κ}

theorem CpuFits.advance (h : CpuFits s f)
    (htest : ∀ l, f.pc = .testOwner l → (lock l).cpuid ≠ some c)
    (hcheck : ∀ l, f.pc = .checkOwner l → (lock l).cpuid = some c)
    (hrun : f.advance c s lock = some (s', lock', f')) : CpuFits s' f' := by
  obtain ⟨pc, status, own, depth, wants⟩ := f
  have hpos : pc.pending = 1 → 0 < depth := fun hpending => by
    have hcount := h.count
    rw [show SpinFrame.pc _ = pc from rfl, hpending] at hcount
    exact Nat.lt_of_lt_of_le (Nat.succ_pos _) hcount
  have hzero : ∀ {P : Prop}, 0 < depth → depth = 0 → P := fun hlt heq =>
    absurd heq (Nat.pos_iff_ne_zero.mp hlt)
  cases pc with
  | out =>
      cases hrun
      exact h
  | getIntr next =>
      cases hrun
      exact ⟨h.noff, h.count, h.nodup, h.apart, h.off, h.intr, fun _ _ => rfl, nofun, h.origin,
        nofun⟩
  | intrOff next =>
      cases hrun
      refine ⟨h.noff, h.count, h.nodup, h.apart, fun _ => rfl, nofun, nofun, ?_, h.origin, nofun⟩
      exact fun _ _ hdepth w hw => (h.status next rfl).trans (h.intr hdepth rfl w hw)
  | saveOrigin next =>
      cases hrun
      refine ⟨h.noff, h.count, h.nodup, h.apart, fun _ => h.off (.inr rfl), nofun, nofun, nofun,
        fun _ w hw => ?_, nofun⟩
      change (if s.noff = 0 then status else s.origin) = w
      split
      · next hnoff => exact h.carried next rfl (h.noff.symm.trans hnoff) w hw
      · next hnoff =>
        refine h.origin (.inl ?_) w hw
        rw [← h.noff]
        exact Nat.pos_of_ne_zero hnoff
  | countUp next =>
      cases hrun
      have hcount : s.taken.length ≤ depth := h.count
      refine ⟨congrArg (· + 1) h.noff, ?_, h.nodup, ?_, fun _ => h.off (.inr rfl), nofun, ?_, ?_,
        fun _ => h.origin (.inr rfl), ?_⟩
      · cases next with
        | none => exact Nat.le_succ_of_le hcount
        | some l => exact Nat.succ_le_succ hcount
      · cases next with
        | none => exact nofun
        | some l => exact h.apart
      · cases next <;> exact nofun
      · cases next <;> exact nofun
      · cases next <;> exact nofun
  | testOwner l =>
      cases hrun
      refine ⟨h.noff, h.count, h.nodup, h.apart, h.off, h.intr, nofun, nofun, h.origin, ?_⟩
      exact fun b hb => (decide_eq_false (htest l rfl)).trans (Option.some.inj hb)
  | testFree l =>
      obtain ⟨_, hrun⟩ := Option.ite_none_left_eq_some.mp hrun
      cases hrun
      exact ⟨h.noff, h.count, h.nodup, h.apart, h.off, h.intr, nofun, nofun, h.origin, nofun⟩
  | swap l =>
      unfold SpinFrame.advance at hrun
      dsimp only at hrun
      split at hrun
      · cases hrun
        exact h
      · cases hrun
        exact ⟨h.noff, h.count, h.nodup, h.apart, h.off, h.intr, nofun, nofun, h.origin, nofun⟩
  | setCpuid l =>
      cases hrun
      refine ⟨h.noff, h.count, ?_, nofun, h.off, h.intr, nofun, nofun, h.origin, nofun⟩
      exact List.nodup_cons.mpr ⟨h.apart l rfl, h.nodup⟩
  | checkOwner l =>
      cases hrun
      refine ⟨h.noff, h.count, h.nodup, h.apart, h.off, h.intr, nofun, nofun, h.origin, ?_⟩
      exact fun b hb => (decide_eq_true (hcheck l rfl)).trans (Option.some.inj hb)
  | checkLocked l =>
      obtain ⟨_, hrun⟩ := Option.ite_none_right_eq_some.mp hrun
      cases hrun
      exact ⟨h.noff, h.count, h.nodup, h.apart, h.off, h.intr, nofun, nofun, h.origin, nofun⟩
  | clearCpuid l =>
      cases hrun
      exact ⟨h.noff, h.count, h.nodup, h.apart, h.off, h.intr, nofun, nofun, h.origin, nofun⟩
  | clearLocked l =>
      cases hrun
      exact ⟨h.noff, h.count, h.nodup, nofun, h.off, h.intr, nofun, nofun, h.origin, nofun⟩
  | checkOff =>
      obtain ⟨_, hrun⟩ := Option.ite_none_left_eq_some.mp hrun
      cases hrun
      exact ⟨h.noff, h.count, h.nodup, nofun, h.off, h.intr, nofun, nofun, h.origin, nofun⟩
  | checkCount =>
      obtain ⟨_, hrun⟩ := Option.ite_none_right_eq_some.mp hrun
      cases hrun
      exact ⟨h.noff, h.count, h.nodup, nofun, h.off, h.intr, nofun, nofun, h.origin, nofun⟩
  | countDown =>
      cases hrun
      refine ⟨congrArg (· - 1) h.noff, Nat.le_sub_of_add_le h.count, h.nodup, nofun,
        fun _ => h.off (.inl (hpos rfl)), nofun, nofun, nofun, fun _ => ?_, nofun⟩
      exact h.origin (.inl (hpos rfl))
  | restore =>
      cases hrun
      have hintr : s.intr = false := h.off (.inr rfl)
      refine ⟨h.noff, h.count, h.nodup, nofun, ?_, fun hdepth _ w hw => ?_, nofun, nofun,
        fun hor => ?_, nofun⟩
      · rintro (hlt | hmasked)
        · have hne : (s.noff == 0) = false := by
            rw [h.noff]
            exact beq_false_of_ne fun heq => hzero hlt heq
          change (s.intr || (s.noff == 0 && s.origin)) = false
          rw [hintr, hne]
          rfl
        · cases hmasked
      · have hnoff : s.noff = 0 := h.noff.trans hdepth
        change (s.intr || (s.noff == 0 && s.origin)) = w
        rw [hintr, hnoff]
        exact h.origin (.inr rfl) w hw
      · exact h.origin (.inr rfl)

theorem advance_locks (hrun : f.advance c s lock = some (s', lock', f')) :
    (lock' = lock ∧ s'.taken = s.taken ∧ f'.pc.grip = f.pc.grip ∧
      f'.pc.unnamed = f.pc.unnamed) ∨
    (∃ l, f.pc = .swap l ∧ f'.pc = .setCpuid l ∧ s'.taken = s.taken ∧
      (lock l).locked = false ∧
      lock' = Function.update lock l { lock l with locked := true }) ∨
    (∃ l, f.pc = .setCpuid l ∧ f'.pc = .out ∧ s'.taken = l :: s.taken ∧
      lock' = Function.update lock l { lock l with cpuid := some c }) ∨
    (∃ l, f.pc = .clearCpuid l ∧ f'.pc = .clearLocked l ∧ s'.taken = s.taken ∧
      lock' = Function.update lock l { lock l with cpuid := none }) ∨
    (∃ l, f.pc = .clearLocked l ∧ f'.pc = .checkOff ∧ s'.taken = s.taken ∧
      lock' = Function.update lock l { lock l with locked := false }) := by
  obtain ⟨pc, status, own, depth, wants⟩ := f
  cases pc with
  | countUp next =>
      cases hrun
      cases next <;> exact .inl ⟨rfl, rfl, rfl, rfl⟩
  | testFree l =>
      obtain ⟨_, hrun⟩ := Option.ite_none_left_eq_some.mp hrun
      cases hrun
      exact .inl ⟨rfl, rfl, rfl, rfl⟩
  | swap l =>
      unfold SpinFrame.advance at hrun
      dsimp only at hrun
      split at hrun
      · cases hrun
        exact .inl ⟨rfl, rfl, rfl, rfl⟩
      · next hfree =>
        cases hrun
        exact .inr (.inl ⟨l, rfl, rfl, rfl, Bool.eq_false_of_not_eq_true hfree, rfl⟩)
  | setCpuid l =>
      cases hrun
      exact .inr (.inr (.inl ⟨l, rfl, rfl, rfl, rfl⟩))
  | checkLocked l =>
      obtain ⟨_, hrun⟩ := Option.ite_none_right_eq_some.mp hrun
      cases hrun
      exact .inl ⟨rfl, rfl, rfl, rfl⟩
  | clearCpuid l =>
      cases hrun
      exact .inr (.inr (.inr (.inl ⟨l, rfl, rfl, rfl, rfl⟩)))
  | clearLocked l =>
      cases hrun
      exact .inr (.inr (.inr (.inr ⟨l, rfl, rfl, rfl, rfl⟩)))
  | checkOff =>
      obtain ⟨_, hrun⟩ := Option.ite_none_left_eq_some.mp hrun
      cases hrun
      exact .inl ⟨rfl, rfl, rfl, rfl⟩
  | checkCount =>
      obtain ⟨_, hrun⟩ := Option.ite_none_right_eq_some.mp hrun
      cases hrun
      exact .inl ⟨rfl, rfl, rfl, rfl⟩
  | _ =>
      cases hrun
      exact .inl ⟨rfl, rfl, rfl, rfl⟩

theorem CpuFits.advances (h : CpuFits s f)
    (hheld : ∀ l, f.pc = .checkLocked l → (lock l).locked = true) :
    ∃ next, f.advance c s lock = some next := by
  obtain ⟨pc, status, own, depth, wants⟩ := f
  have hpos : pc.pending = 1 → 0 < depth := fun hpending => by
    have hcount := h.count
    rw [show SpinFrame.pc _ = pc from rfl, hpending] at hcount
    exact Nat.lt_of_lt_of_le (Nat.succ_pos _) hcount
  cases pc with
  | testFree l =>
      have hown : own = false := h.own false rfl
      rw [hown]
      exact ⟨_, rfl⟩
  | swap l =>
      unfold SpinFrame.advance
      dsimp only
      split
      · exact ⟨_, rfl⟩
      · exact ⟨_, rfl⟩
  | checkLocked l =>
      have hown : own = true := h.own true rfl
      refine ⟨_, if_pos ?_⟩
      rw [hown, hheld l rfl]
      rfl
  | checkOff =>
      have hintr : s.intr = false := h.off (.inl (hpos rfl))
      refine ⟨_, if_neg ?_⟩
      rw [hintr]
      exact Bool.false_ne_true
  | checkCount =>
      refine ⟨_, if_pos ?_⟩
      rw [h.noff]
      exact hpos rfl
  | _ => exact ⟨_, rfl⟩

end

/-! The system. -/

namespace SpinSystem

/-- The CPU has the lock, or is about to get it or to give it back. -/
def Owns (st : SpinSystem κ τ ℓ) (c : κ) (l : ℓ) : Prop :=
  l ∈ (st.cpu c).taken ∨ ∃ f ∈ st.top c, f.pc.grip = some l

def unnamed (st : SpinSystem κ τ ℓ) (c : κ) : Option ℓ :=
  (st.top c).bind fun f => f.pc.unnamed

structure Sound (st : SpinSystem κ τ ℓ) : Prop where
  once : ∀ c c', st.on c = st.on c' → c = c'
  running : ∀ c, ∃ f rest, st.frames (st.on c) = f :: rest ∧ CpuFits (st.cpu c) f ∧
    ∀ g ∈ rest, Early g
  waiting : ∀ t, (∀ c, st.on c ≠ t) → ∀ f rest, st.frames t = f :: rest →
    Waiting f (st.saved t) ∧ ∀ g ∈ rest, Early g
  guards : Guards st.lock st.Owns st.unnamed

variable {st st' : SpinSystem κ τ ℓ} {c d : κ} {t : τ} {l : ℓ} {rest : List (SpinFrame ℓ)}

theorem top_eq (h : st.frames (st.on c) = f :: rest) : st.top c = some f := by
  unfold top
  rw [h]
  rfl

theorem owns_of_top (h : st.frames (st.on c) = f :: rest) :
    st.Owns c l ↔ l ∈ (st.cpu c).taken ∨ f.pc.grip = some l := by
  unfold Owns
  rw [top_eq h]
  simp only [Option.mem_some_iff, exists_eq_left']

theorem unnamed_of_top (h : st.frames (st.on c) = f :: rest) :
    st.unnamed c = f.pc.unnamed := by
  unfold unnamed
  rw [top_eq h]
  rfl

section

variable [DecidableEq κ] [DecidableEq τ]

theorem Sound.put (hs : st.Sound) {lock : ℓ → SpinLock κ} (hfits : CpuFits s f)
    (hearly : ∀ g ∈ rest, Early g)
    (hguards : ∀ owns unnamed, (∀ l, owns c l ↔ l ∈ s.taken ∨ f.pc.grip = some l) →
      (∀ d, d ≠ c → ∀ l, owns d l ↔ st.Owns d l) → unnamed c = f.pc.unnamed →
      (∀ d, d ≠ c → unnamed d = st.unnamed d) → Guards lock owns unnamed) :
    Sound { st.put c s (f :: rest) with lock := lock } := by
  let st' : SpinSystem κ τ ℓ := { st.put c s (f :: rest) with lock := lock }
  have hself : st'.frames (st'.on c) = f :: rest := Function.update_self _ _ _
  have hcpu : st'.cpu c = s := Function.update_self _ _ _
  have hframes : ∀ t, t ≠ st.on c → st'.frames t = st.frames t :=
    fun t ht => Function.update_of_ne ht _ _
  have hother : ∀ d, d ≠ c → st'.cpu d = st.cpu d := fun d hd => Function.update_of_ne hd _ _
  have hon : ∀ d, d ≠ c → st.on d ≠ st.on c := fun d hd heq => hd (hs.once d c heq)
  have htop : ∀ d, d ≠ c → st'.top d = st.top d :=
    fun d hd => congrArg List.head? (hframes (st.on d) (hon d hd))
  refine ⟨hs.once, fun d => ?_, fun t ht g rest' hg => ?_, ?_⟩
  · by_cases hd : d = c
    · subst hd
      exact ⟨f, rest, hself, hcpu.symm ▸ hfits, hearly⟩
    · obtain ⟨g, rest', hg, hfits', hearly'⟩ := hs.running d
      exact ⟨g, rest', (hframes _ (hon d hd)).trans hg, (hother d hd).symm ▸ hfits', hearly'⟩
  · rw [hframes t fun heq => ht c heq.symm] at hg
    exact hs.waiting t ht g rest' hg
  · refine hguards st'.Owns st'.unnamed (fun l => ?_) (fun d hd l => ?_) ?_ fun d hd => ?_
    · rw [owns_of_top hself, hcpu]
    · unfold Owns
      rw [hother d hd, htop d hd]
    · exact unnamed_of_top hself
    · unfold unnamed
      rw [htop d hd]

theorem Sound.putSame (hs : st.Sound) {f₀ : SpinFrame ℓ} {rest₀ : List (SpinFrame ℓ)}
    (htop : st.frames (st.on c) = f₀ :: rest₀) (hfits : CpuFits s f)
    (hearly : ∀ g ∈ rest, Early g)
    (howns : ∀ l, l ∈ s.taken ∨ f.pc.grip = some l ↔
      l ∈ (st.cpu c).taken ∨ f₀.pc.grip = some l)
    (hunnamed : f.pc.unnamed = f₀.pc.unnamed) : Sound (st.put c s (f :: rest)) := by
  refine hs.put hfits hearly fun owns unnamed hown hown' hun hun' => ?_
  refine hs.guards.congr (fun d l => ?_) fun d => ?_
  · by_cases hd : d = c
    · subst hd
      rw [hown, owns_of_top htop, howns]
    · exact hown' d hd l
  · by_cases hd : d = c
    · subst hd
      rw [hun, unnamed_of_top htop, hunnamed]
    · exact hun' d hd

theorem Sound.switchTo (hs : st.Sound) (htop : st.frames (st.on c) = f :: rest)
    (hleft : Waiting f (st.saved (st.on c))) (hnew : st.frames t ≠ [])
    (hoff : ∀ c', st.on c' ≠ t) : (st.switchTo c t).Sound := by
  let st' := st.switchTo c t
  have hself : st'.on c = t := Function.update_self _ _ _
  have hon : ∀ d, d ≠ c → st'.on d = st.on d := fun d hd => Function.update_of_ne hd _ _
  have hcpu : st'.cpu c = { st.cpu c with
      origin := (st.saved t).getD (st.cpu c).origin } := Function.update_self _ _ _
  have hother : ∀ d, d ≠ c → st'.cpu d = st.cpu d := fun d hd => Function.update_of_ne hd _ _
  have hsaved : ∀ t', t' ≠ t → st'.saved t' = st.saved t' :=
    fun t' ht => Function.update_of_ne ht _ _
  obtain ⟨f₀, rest₀, htop₀, hfits, hearly⟩ := hs.running c
  obtain ⟨rfl, rfl⟩ := List.cons.inj (htop.symm.trans htop₀)
  obtain ⟨g, rest', hg⟩ := List.exists_cons_of_ne_nil hnew
  obtain ⟨hwaiting, hearly'⟩ := hs.waiting t hoff g rest' hg
  have htop' : st'.frames (st'.on c) = g :: rest' := (congrArg st.frames hself).trans hg
  refine ⟨fun c₁ c₂ heq => ?_, fun d => ?_, fun t' ht' g' rest'' hg' => ?_, ?_⟩
  · by_cases h₁ : c₁ = c
    · by_cases h₂ : c₂ = c
      · rw [h₁, h₂]
      · rw [h₁, hself, hon c₂ h₂] at heq
        exact absurd heq.symm (hoff c₂)
    · by_cases h₂ : c₂ = c
      · rw [h₂, hself, hon c₁ h₁] at heq
        exact absurd heq (hoff c₁)
      · rw [hon c₁ h₁, hon c₂ h₂] at heq
        exact hs.once c₁ c₂ heq
  · by_cases hd : d = c
    · subst hd
      refine ⟨g, rest', htop', ?_, hearly'⟩
      have hpos : 0 < f.depth := by
        rw [hleft.depth]
        exact Nat.one_pos
      have hcount := hfits.count
      rw [hleft.depth, hleft.pc] at hcount
      rw [hcpu]
      refine ⟨hfits.noff.trans (hleft.depth.trans hwaiting.depth.symm), ?_, hfits.nodup, ?_,
        fun _ => hfits.off (.inl hpos), ?_, ?_, ?_, fun _ w hw => ?_, ?_⟩
      · rw [hwaiting.pc, hwaiting.depth]
        exact hcount
      · rw [hwaiting.pc]
        exact nofun
      · rw [hwaiting.depth]
        exact fun hzero => absurd hzero Nat.one_ne_zero
      · rw [hwaiting.pc]
        exact nofun
      · rw [hwaiting.pc]
        exact nofun
      · change (st.saved t).getD (st.cpu d).origin = w
        rw [hwaiting.wants w hw]
        rfl
      · rw [hwaiting.pc]
        exact nofun
    · rw [hon d hd, hother d hd]
      exact hs.running d
  · have ht : t' ≠ t := fun heq => ht' c (hself.trans heq.symm)
    rw [hsaved t' ht]
    by_cases hold : t' = st.on c
    · subst hold
      obtain ⟨rfl, rfl⟩ := List.cons.inj (htop.symm.trans hg')
      exact ⟨hleft, hearly⟩
    · refine hs.waiting t' (fun d heq => ?_) g' rest'' hg'
      by_cases hd : d = c
      · exact hold (hd ▸ heq.symm)
      · exact ht' d ((hon d hd).trans heq)
  · refine hs.guards.congr (fun d l => ?_) fun d => ?_
    · by_cases hd : d = c
      · subst hd
        rw [owns_of_top htop', owns_of_top htop, hleft.pc, hwaiting.pc, hcpu]
      · unfold Owns top
        rw [hother d hd, hon d hd]
        rfl
    · by_cases hd : d = c
      · subst hd
        rw [unnamed_of_top htop', unnamed_of_top htop, hleft.pc, hwaiting.pc]
      · unfold unnamed top
        rw [hon d hd]
        rfl

variable [DecidableEq ℓ]

theorem Sound.tick (hs : st.Sound) :
    ∃ st', st.step (.tick c) = some st' ∧ st'.Sound := by
  obtain ⟨f, rest, htop, hfits, hearly⟩ := hs.running c
  have hgrip : ∀ l, f.pc.grip = some l → st.Owns c l := fun l hl =>
    (owns_of_top htop).mpr (.inr hl)
  have hlocked : ∀ l, f.pc = .checkLocked l → (st.lock l).locked = true := by
    intro l hpc
    exact (hs.guards.locked l).mpr ⟨c, hgrip l (by rw [hpc]; rfl)⟩
  have htest : ∀ l, f.pc = .testOwner l → (st.lock l).cpuid ≠ some c := by
    intro l hpc heq
    rcases (owns_of_top htop).mp ((hs.guards.cpuid c l).mp heq).1 with htaken | hgrip
    · exact hfits.apart l (by rw [hpc]; rfl) htaken
    · rw [hpc] at hgrip
      cases hgrip
  have hcheck : ∀ l, f.pc = .checkOwner l → (st.lock l).cpuid = some c := by
    intro l hpc
    refine (hs.guards.cpuid c l).mpr ⟨hgrip l (by rw [hpc]; rfl), ?_⟩
    rw [unnamed_of_top htop, hpc]
    exact nofun
  obtain ⟨⟨s', lock', f'⟩, hrun⟩ := hfits.advances (c := c) hlocked
  refine ⟨{ st.put c s' (f' :: rest) with lock := lock' }, ?_, ?_⟩
  · unfold step
    dsimp only
    rw [htop]
    dsimp only
    rw [hrun]
    rfl
  · refine hs.put (hfits.advance htest hcheck hrun) hearly
      fun owns unnamed hown hown' hun hun' => ?_
    have howns : (∀ l, owns c l ↔ st.Owns c l) → ∀ d l, owns d l ↔ st.Owns d l := by
      intro hsame d l
      by_cases hd : d = c
      · subst hd
        exact hsame l
      · exact hown' d hd l
    rcases advance_locks hrun with ⟨rfl, htaken, hgrips, hnames⟩ |
      ⟨l, hpc, hpc', htaken, hfree, rfl⟩ | ⟨l, hpc, hpc', htaken, rfl⟩ |
      ⟨l, hpc, hpc', htaken, rfl⟩ | ⟨l, hpc, hpc', htaken, rfl⟩
    · refine hs.guards.congr (howns fun l => ?_) fun d => ?_
      · rw [hown, owns_of_top htop, htaken, hgrips]
      · by_cases hd : d = c
        · subst hd
          rw [hun, unnamed_of_top htop, hnames]
        · exact hun' d hd
    · refine hs.guards.take (c := c) hfree (fun d k => ?_) (by rw [hun, hpc']; rfl)
        (by rw [unnamed_of_top htop, hpc]; rfl) hun'
      by_cases hd : d = c
      · subst hd
        rw [hown, owns_of_top htop, htaken, hpc, hpc']
        simp [SpinPc.grip, eq_comm]
      · rw [hown' d hd]
        simp only [hd, false_and, or_false]
    · refine hs.guards.name (hgrip l (by rw [hpc]; rfl)) (howns fun k => ?_)
        (by rw [hun, hpc']; rfl) (by rw [unnamed_of_top htop, hpc]; rfl) hun'
      rw [hown, owns_of_top htop, htaken, hpc, hpc']
      simp [SpinPc.grip, or_comm, eq_comm]
    · refine hs.guards.unname (c := c) (hgrip l (by rw [hpc]; rfl)) (howns fun k => ?_)
        (by rw [hun, hpc']; rfl) (by rw [unnamed_of_top htop, hpc]; rfl) hun'
      rw [hown, owns_of_top htop, htaken, hpc, hpc']
      simp [SpinPc.grip]
    · refine hs.guards.drop (c := c) (hgrip l (by rw [hpc]; rfl)) (fun d k => ?_)
        (by rw [hun, hpc']; rfl) (by rw [unnamed_of_top htop, hpc]; rfl) hun'
      by_cases hd : d = c
      · subst hd
        have hapart := hfits.apart l (by rw [hpc]; rfl)
        rw [hown, owns_of_top htop, htaken, hpc, hpc']
        simp only [SpinPc.grip, reduceCtorEq, or_false, Option.some.injEq, true_and]
        constructor
        · rintro hk
          refine ⟨.inl hk, ?_⟩
          rintro rfl
          exact hapart hk
        · rintro ⟨hk | rfl, hne⟩
          · exact hk
          · exact absurd rfl hne
      · rw [hown' d hd]
        simp only [hd, false_and, not_false_eq_true, and_true]

theorem step_call {call : SpinCall ℓ} (htop : st.frames (st.on c) = f :: rest)
    (hcall : ∀ l, call ≠ .release l) :
    st.step (.call c call) = some (st.put c (st.cpu c) (f.call call :: rest)) := by
  unfold step
  dsimp only
  rw [htop]
  cases call with
  | release l => exact absurd rfl (hcall l)
  | pushOff => rfl
  | popOff => rfl
  | acquire l => rfl

theorem step_release (htop : st.frames (st.on c) = f :: rest) :
    st.step (.call c (.release l)) = some (st.put c
      { st.cpu c with taken := (st.cpu c).taken.erase l } (f.call (.release l) :: rest)) := by
  unfold step
  dsimp only
  rw [htop]

theorem Sound.call (hs : st.Sound) {call : SpinCall ℓ}
    (hallowed : st.Allowed (.call c call)) :
    ∃ st', st.step (.call c call) = some st' ∧ st'.Sound := by
  obtain ⟨f, rest, htop, hfits, hearly⟩ := hs.running c
  obtain ⟨hout, hcall⟩ := hallowed
  obtain ⟨pc, status, own, depth, wants⟩ := f
  obtain rfl : pc = .out := hout _ (top_eq htop)
  cases call with
  | pushOff =>
      refine ⟨_, step_call htop nofun, ?_⟩
      refine hs.putSame htop ?_ hearly (fun _ => Iff.rfl) rfl
      exact ⟨hfits.noff, hfits.count, hfits.nodup, nofun, hfits.off, hfits.intr, nofun, nofun,
        hfits.origin, nofun⟩
  | popOff =>
      refine ⟨_, step_call htop nofun, ?_⟩
      refine hs.putSame htop ?_ hearly (fun _ => Iff.rfl) rfl
      refine ⟨hfits.noff, ?_, hfits.nodup, nofun, hfits.off, hfits.intr, nofun, nofun,
        hfits.origin, nofun⟩
      have hcount : (st.cpu c).taken.length < (st.cpu c).noff := hcall
      rw [hfits.noff] at hcount
      exact hcount
  | acquire l =>
      refine ⟨_, step_call htop nofun, ?_⟩
      refine hs.putSame htop ?_ hearly (fun _ => Iff.rfl) rfl
      refine ⟨hfits.noff, hfits.count, hfits.nodup, ?_, hfits.off, hfits.intr, nofun, nofun,
        hfits.origin, nofun⟩
      rintro k ⟨⟩
      exact hcall
  | release l =>
      have hmem : l ∈ (st.cpu c).taken := hcall
      refine ⟨_, step_release htop, ?_⟩
      refine hs.putSame htop ?_ hearly (fun k => ?_) rfl
      · refine ⟨hfits.noff, ?_, hfits.nodup.erase l, ?_, hfits.off, hfits.intr, nofun, nofun,
          hfits.origin, nofun⟩
        · have hcount : (st.cpu c).taken.length ≤ depth := hfits.count
          have hlength := List.length_erase_add_one hmem
          exact hlength.trans_le hcount
        · rintro k ⟨⟩
          exact fun hk => (hfits.nodup.mem_erase_iff.mp hk).1 rfl
      · change k ∈ (st.cpu c).taken.erase l ∨ some l = some k ↔ k ∈ (st.cpu c).taken ∨ none = some k
        rw [hfits.nodup.mem_erase_iff]
        constructor
        · rintro (⟨_, hk⟩ | heq)
          · exact .inl hk
          · exact .inl (Option.some.inj heq ▸ hmem)
        · rintro (hk | hk)
          · by_cases hkl : k = l
            · exact .inr (congrArg some hkl.symm)
            · exact .inl ⟨hkl, hk⟩
          · cases hk

theorem Sound.setIntr (hs : st.Sound) {enabled : Bool}
    (hallowed : st.Allowed (.setIntr c enabled)) :
    ∃ st', st.step (.setIntr c enabled) = some st' ∧ st'.Sound := by
  obtain ⟨f, rest, htop, hfits, hearly⟩ := hs.running c
  obtain ⟨hout, hnoff⟩ := hallowed
  obtain ⟨pc, status, own, depth, wants⟩ := f
  obtain rfl : pc = .out := hout _ (top_eq htop)
  obtain rfl : depth = 0 := hfits.noff.symm.trans hnoff
  refine ⟨st.put c { st.cpu c with intr := enabled }
    (⟨.out, status, own, 0, some enabled⟩ :: rest), ?_, ?_⟩
  · unfold step
    dsimp only
    rw [htop]
  · refine hs.putSame htop ?_ hearly (fun _ => Iff.rfl) rfl
    have hzero : ¬ (0 < 0 ∨ false = true) := by decide
    exact ⟨hnoff, hfits.count, hfits.nodup, nofun, fun hor => absurd hor hzero,
      fun _ _ w hw => Option.some.inj hw, nofun, nofun, fun hor => absurd hor hzero, nofun⟩

theorem Sound.interrupt (hs : st.Sound) (hintr : (st.cpu c).intr = true) :
    ∃ st', st.step (.interrupt c) = some st' ∧ st'.Sound := by
  obtain ⟨f, rest, htop, hfits, hearly⟩ := hs.running c
  have hf := hfits.early hintr
  have hgrip := f.pc.grip_of_pending hf.pending
  refine ⟨_, if_pos hintr, ?_⟩
  rw [htop]
  refine hs.putSame htop (hfits.handler hintr) (fun g hg => ?_) (fun l => ?_) hgrip.2.symm
  · rcases List.mem_cons.mp hg with rfl | hg
    · exact hf
    · exact hearly g hg
  · rw [hgrip.1]
    rfl

theorem Sound.iret (hs : st.Sound) (hallowed : st.Allowed (.iret c)) :
    ∃ st', st.step (.iret c) = some st' ∧ st'.Sound := by
  obtain ⟨f, rest, htop, hfits, hearly⟩ := hs.running c
  obtain ⟨hout, hnoff, hlength⟩ := hallowed
  rw [htop] at hlength
  cases rest with
  | nil => exact absurd hlength (Nat.lt_irrefl 1)
  | cons g rest =>
      have hg := hearly g (.head _)
      have hgrip := g.pc.grip_of_pending hg.pending
      have hpc : f.pc = .out := hout f (top_eq htop)
      refine ⟨st.put c { st.cpu c with intr := true } (g :: rest), ?_, ?_⟩
      · unfold step
        dsimp only
        rw [htop]
      · refine hs.putSame htop (hg.resume hfits hnoff) (fun x hx => hearly x (.tail _ hx))
          (fun l => ?_) ?_
        · rw [hgrip.1, hpc]
          rfl
        · rw [hgrip.2, hpc]
          rfl

theorem Sound.sched (hs : st.Sound) {own : ℓ} (hallowed : st.Allowed (.sched c own t)) :
    ∃ st', st.step (.sched c own t) = some st' ∧ st'.Sound := by
  obtain ⟨f, rest, htop, hfits, hearly⟩ := hs.running c
  obtain ⟨hout, hnoff, hown, hnew, hoff⟩ := hallowed
  have hpc : f.pc = .out := hout f (top_eq htop)
  have hdepth : f.depth = 1 := hfits.noff.symm.trans hnoff
  have hpos : 0 < f.depth := hdepth.symm ▸ Nat.one_pos
  have hholding : (st.lock own).cpuid = some c ∧ (st.lock own).locked = true := by
    refine hs.guards.holding.mpr ⟨.inl hown, ?_⟩
    rw [unnamed_of_top htop, hpc]
    exact nofun
  refine ⟨_, if_pos ⟨hholding.1, hholding.2, hnoff, hfits.off (.inl hpos)⟩, ?_⟩
  refine Sound.switchTo ⟨hs.once, hs.running, fun t' ht' g rest' hg => ?_, hs.guards⟩ htop
    ⟨hpc, hdepth, fun w hw => ?_⟩ hnew hoff
  · dsimp only
    rw [Function.update_of_ne fun heq => ht' c heq.symm]
    exact hs.waiting t' ht' g rest' hg
  · dsimp only
    rw [Function.update_self, hfits.origin (.inl hpos) w hw]

theorem Sound.dispatch (hs : st.Sound) (hallowed : st.Allowed (.dispatch c t)) :
    ∃ st', st.step (.dispatch c t) = some st' ∧ st'.Sound := by
  obtain ⟨f, rest, htop, hfits, hearly⟩ := hs.running c
  obtain ⟨hout, hnoff, hnew, hoff⟩ := hallowed
  have hpc : f.pc = .out := hout f (top_eq htop)
  have hdepth : f.depth = 1 := hfits.noff.symm.trans hnoff
  have hfits' : CpuFits (st.cpu c) { f with wants := none } :=
    ⟨hfits.noff, hfits.count, hfits.nodup, hfits.apart, hfits.off, nofun, hfits.status, nofun,
      nofun, hfits.own⟩
  have hs' := hs.putSame htop hfits' hearly (fun _ => Iff.rfl) rfl
  have hframes : ∀ t', t' ≠ st.on c → (st.put c (st.cpu c)
      ({ f with wants := none } :: rest)).frames t' = st.frames t' :=
    fun t' ht' => Function.update_of_ne ht' _ _
  refine ⟨(st.put c (st.cpu c) ({ f with wants := none } :: rest)).switchTo c t, ?_, ?_⟩
  · unfold step
    dsimp only
    rw [htop]
  · have htop' : (st.put c (st.cpu c) ({ f with wants := none } :: rest)).frames (st.on c) =
        { f with wants := none } :: rest := Function.update_self _ _ _
    refine hs'.switchTo htop' ⟨hpc, hdepth, nofun⟩ ?_ hoff
    rw [hframes t (hoff c).symm]
    exact hnew

theorem Sound.create (hs : st.Sound) (hoff : ∀ c, st.on c ≠ t) :
    ∃ st', st.step (.create t) = some st' ∧ st'.Sound := by
  have hframes : ∀ t', t' ≠ t →
      Function.update st.frames t [SpinFrame.fresh] t' = st.frames t' :=
    fun t' ht' => Function.update_of_ne ht' _ _
  refine ⟨_, rfl, hs.once, fun c => ?_, fun t' ht' g rest' hg => ?_, ?_⟩
  · obtain ⟨f, rest, htop, hfits, hearly⟩ := hs.running c
    exact ⟨f, rest, (hframes _ (hoff c)).trans htop, hfits, hearly⟩
  · dsimp only at hg ⊢
    by_cases ht : t' = t
    · subst ht
      rw [Function.update_self] at hg
      obtain ⟨rfl, rfl⟩ := List.cons.inj hg
      exact ⟨⟨rfl, rfl, nofun⟩, fun _ hx => absurd hx List.not_mem_nil⟩
    · rw [hframes t' ht] at hg
      rw [Function.update_of_ne ht]
      exact hs.waiting t' ht' g rest' hg
  · refine hs.guards.congr (fun c l => ?_) fun c => ?_
    · unfold Owns top
      dsimp only
      rw [hframes _ (hoff c)]
    · unfold unnamed top
      dsimp only
      rw [hframes _ (hoff c)]

theorem Sound.step (hs : st.Sound) {op : SpinOp κ τ ℓ} (hallowed : st.Allowed op) :
    ∃ st', st.step op = some st' ∧ st'.Sound := by
  cases op with
  | call c call => exact hs.call hallowed
  | tick c => exact hs.tick
  | setIntr c enabled => exact hs.setIntr hallowed
  | interrupt c => exact hs.interrupt hallowed
  | iret c => exact hs.iret hallowed
  | sched c own t => exact hs.sched hallowed
  | dispatch c t => exact hs.dispatch hallowed
  | create t => exact hs.create hallowed

theorem Sound.run {ops : List (SpinOp κ τ ℓ)} (hs : st.Sound)
    (hallowed : Along SpinSystem.step Allowed st ops)
    (hrun : Lib.run SpinSystem.step st ops = some st') : st'.Sound := by
  refine run_invariant (fun st op st' hs hop hstep => ?_) hs hallowed hrun
  obtain ⟨st₁, hstep₁, hs₁⟩ := Sound.step hs hop
  obtain rfl := Option.some.inj (hstep.symm.trans hstep₁)
  exact hs₁

end

/-- All locks are free, and each CPU has a thread of its own that is in none of the
functions. -/
structure Booted (boot : SpinSystem κ τ ℓ) : Prop where
  once : ∀ c c', boot.on c = boot.on c' → c = c'
  lock : ∀ l, boot.lock l = ⟨false, none⟩
  cpu : ∀ c, (boot.cpu c).noff = 0 ∧ (boot.cpu c).taken = []
  running : ∀ c, boot.frames (boot.on c) = [⟨.out, false, false, 0, none⟩]
  others : ∀ t, (∀ c, boot.on c ≠ t) → boot.frames t = []

theorem Booted.sound {boot : SpinSystem κ τ ℓ} (hboot : Booted boot) : boot.Sound := by
  refine ⟨hboot.once, fun c => ⟨_, [], hboot.running c, ?_, fun _ => nofun⟩,
    fun t ht f rest hf => ?_, ?_⟩
  · obtain ⟨hnoff, htaken⟩ := hboot.cpu c
    have hzero : ¬ (0 < 0 ∨ false = true) := by decide
    refine ⟨hnoff, ?_, ?_, nofun, fun hor => absurd hor hzero, nofun, nofun, nofun,
      fun hor => absurd hor hzero, nofun⟩
    · rw [htaken]
      exact Nat.le_refl 0
    · rw [htaken]
      exact List.nodup_nil
  · rw [hboot.others t ht] at hf
    cases hf
  · have hnone : ∀ c l, ¬ boot.Owns c l := by
      intro c l
      rw [owns_of_top (hboot.running c), (hboot.cpu c).2]
      rintro (hmem | hgrip)
      · exact List.not_mem_nil hmem
      · cases hgrip
    refine ⟨fun l => ?_, fun c d l hc => absurd hc (hnone c l), fun c l => ?_⟩
    · rw [hboot.lock]
      exact iff_of_false nofun fun ⟨c, hc⟩ => hnone c l hc
    · rw [hboot.lock]
      exact iff_of_false nofun fun hand => hnone c l hand.1

section

variable [DecidableEq κ] [DecidableEq τ] [DecidableEq ℓ]

/-- Spinlocks, whatever the CPUs, the threads and the interrupts do: no assertion of
`spinlock.c` and `proc_sched` fails; two CPUs are never inside the same lock; a CPU that has
one, or has interrupts switched off, takes none, and has them again as they were when it
has given back all; a lock that a CPU waits for is another CPU's; and `spinlock_holding`
tells whether the CPU has it. -/
theorem spinlocks_exclude {boot : SpinSystem κ τ ℓ} {ops : List (SpinOp κ τ ℓ)}
    (hboot : Booted boot) (hallowed : Along SpinSystem.step Allowed boot ops)
    (hrun : Lib.run SpinSystem.step boot ops = some st) :
    (∀ op, st.Allowed op → ∃ st', st.step op = some st') ∧
    (∀ c d l, l ∈ (st.cpu c).taken → l ∈ (st.cpu d).taken → c = d) ∧
    (∀ c, (st.cpu c).taken.length ≤ (st.cpu c).noff ∧
      (0 < (st.cpu c).noff → (st.cpu c).intr = false)) ∧
    (∀ c f w, st.top c = some f → f.pc = .out → (st.cpu c).noff = 0 → f.wants = some w →
      (st.cpu c).intr = w) ∧
    (∀ c f l, st.top c = some f → f.pc = .swap l → (st.lock l).locked = true →
      ∃ d, d ≠ c ∧ st.Owns d l) ∧
    (∀ c f l, st.top c = some f → f.pc = .out →
      ((st.lock l).cpuid = some c ∧ (st.lock l).locked = true ↔ l ∈ (st.cpu c).taken)) := by
  have hs := hboot.sound.run hallowed hrun
  refine ⟨fun op hop => ?_, fun c d l hc hd => hs.guards.one c d l (.inl hc) (.inl hd),
    fun c => ?_, fun c f w htop hpc hnoff hw => ?_, fun c f l htop hpc hlocked => ?_,
    fun c f l htop hpc => ?_⟩
  · obtain ⟨st', hstep, _⟩ := hs.step hop
    exact ⟨st', hstep⟩
  · obtain ⟨f, rest, _, hfits, _⟩ := hs.running c
    have hcount := hfits.count
    refine ⟨by rw [hfits.noff]; omega, fun hpos => hfits.off (.inl ?_)⟩
    rw [← hfits.noff]
    exact hpos
  · obtain ⟨g, rest, hg, hfits, _⟩ := hs.running c
    obtain rfl := Option.some.inj (htop.symm.trans (top_eq hg))
    exact hfits.intr (hfits.noff.symm.trans hnoff) (by rw [hpc]; rfl) w hw
  · obtain ⟨g, rest, hg, hfits, _⟩ := hs.running c
    obtain rfl := Option.some.inj (htop.symm.trans (top_eq hg))
    obtain ⟨d, hd⟩ := (hs.guards.locked l).mp hlocked
    refine ⟨d, ?_, hd⟩
    rintro rfl
    rcases (owns_of_top hg).mp hd with htaken | hgrip
    · exact hfits.apart l (by rw [hpc]; rfl) htaken
    · rw [hpc] at hgrip
      cases hgrip
  · obtain ⟨g, rest, hg, hfits, _⟩ := hs.running c
    obtain rfl := Option.some.inj (htop.symm.trans (top_eq hg))
    rw [hs.guards.holding, owns_of_top hg, unnamed_of_top hg, hpc]
    constructor
    · rintro ⟨htaken | hgrip, _⟩
      · exact htaken
      · cases hgrip
    · exact fun htaken => ⟨.inl htaken, nofun⟩

theorem along_ticks (st : SpinSystem κ τ ℓ) (cs : List κ) :
    Along SpinSystem.step Allowed st (cs.map .tick) := by
  induction cs generalizing st with
  | nil => trivial
  | cons c cs ih => exact ⟨trivial, fun st' _ => ih st'⟩

end

/-! Two CPUs that want the same lock. -/

def pairBoot : SpinSystem Bool Bool Unit where
  cpu _ := ⟨true, 0, false, []⟩
  lock _ := ⟨false, none⟩
  on := id
  frames _ := [⟨.out, false, false, 0, none⟩]
  saved _ := none

/-- The first one has it before the second one gets there. -/
def pairCalls : List (SpinOp Bool Bool Unit) :=
  [.call true (.acquire ()), .call false (.acquire ())] ++
    (List.replicate 8 true ++ List.replicate 6 false).map .tick

theorem spinlocks_exclude_pair : ∃ st, Lib.run SpinSystem.step pairBoot pairCalls = some st ∧
    () ∈ (st.cpu true).taken ∧ (st.cpu true).intr = false ∧ ∃ d, d ≠ false ∧ st.Owns d () := by
  have hboot : Booted pairBoot := by
    refine ⟨fun _ _ => id, fun _ => rfl, fun _ => ⟨rfl, rfl⟩, fun _ => rfl, fun t ht => ?_⟩
    exact absurd rfl (ht t)
  have hallowed : Along SpinSystem.step Allowed pairBoot pairCalls := by
    refine along_cons ⟨?_, List.not_mem_nil⟩ rfl (along_cons ⟨?_, List.not_mem_nil⟩ rfl
      (along_ticks _ _))
    · rintro f ⟨⟩
      rfl
    · rintro f ⟨⟩
      rfl
  obtain ⟨_, _, hoff, _, hwaits, _⟩ := spinlocks_exclude hboot hallowed rfl
  exact ⟨_, rfl, .head _, (hoff true).2 Nat.one_pos, hwaits false _ () rfl rfl rfl⟩

end SpinSystem

end UnoOS.Kernel
