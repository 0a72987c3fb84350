import UnoOS.Kernel.Sleep

namespace UnoOS.Kernel

open UnoOS.Lib

/-! No wake-up is lost: a process that gives goes through all processes with the
lock, and a process that found itself blocked keeps the lock until it has its
own. -/

namespace SleepPc

variable {n : Nat} {ω : Type}

@[grind =]
def hasLk : SleepPc n ω → Bool
  | .parking | .handing | .leaving | .waking _ | .wakingAt _ | .answered _ _ => true
  | _ => false

@[grind =]
def hasOwn : SleepPc n ω → Bool
  | .handing | .switching | .switched | .resumed => true
  | _ => false

def inGive : SleepPc n ω → Bool
  | .signalling | .waking _ | .wakingAt _ => true
  | _ => false

/-- In `proc_wakeup`, not past process `p`. -/
@[grind =]
def wakes (p : Fin n) : SleepPc n ω → Bool
  | .waking i => decide (i ≤ p)
  | .wakingAt i => decide (i ≤ p)
  | _ => false

def sleeps (state : ProcState) : SleepPc n ω → Bool
  | .switching | .switched => true
  | .asleep => decide (state = .sleeping)
  | _ => false

@[grind =]
theorem sleeps_iff {state : ProcState} {pc : SleepPc n ω} :
    pc.sleeps state ↔
      pc = .switching ∨ pc = .switched ∨ pc = .asleep ∧ state = .sleeping := by
  cases pc <;> simp [sleeps]

end SleepPc

structure Monitor.Lawful {n : Nat} {ρ ω : Type} (m : Monitor n ρ ω) (J : ρ → Prop) :
    Prop where
  take : ∀ p r, J r → m.blocked r = false → J (m.take p r)
  give : ∀ p r, J r → m.mayGive p r → J (m.give p r)
  mayGive_take : ∀ p q r, q ≠ p → m.mayGive p r → m.mayGive p (m.take q r)
  mayGive_give : ∀ p q r, q ≠ p → m.mayGive p r → m.mayGive p (m.give q r)

namespace SleepSystem

variable {n : Nat} {ρ ω : Type} {m : Monitor n ρ ω} {J : ρ → Prop}
  {st st' : SleepSystem n ρ ω} {p i : Fin n} {w : ω}

def Woken (pc : Fin n → SleepPc n ω) (p : Fin n) : Prop :=
  ∃ r, (pc r).wakes p

attribute [grind =] setPc_res setPc_lk setPc_plk setPc_state setPc_sleepsHere setPc_pc
  setPlk_res setPlk_lk setPlk_plk setPlk_state setPlk_sleepsHere setPlk_pc setState_res
  setState_lk setState_plk setState_state setState_sleepsHere setState_pc setSleeps_res
  setSleeps_lk setSleeps_plk setSleeps_state setSleeps_sleepsHere setSleeps_pc

@[grind =]
theorem woken_setPlk {holder : Option (Holder n)} :
    Woken (st.setPlk i holder).pc p ↔ Woken st.pc p := Iff.rfl

@[grind =]
theorem woken_setState {state : ProcState} :
    Woken (st.setState i state).pc p ↔ Woken st.pc p := Iff.rfl

@[grind =]
theorem woken_setSleeps {here : Bool} :
    Woken (st.setSleeps i here).pc p ↔ Woken st.pc p := Iff.rfl

@[grind ←]
theorem Woken.setPc {pc : SleepPc n ω} (h : Woken st.pc p)
    (hi : (st.pc i).wakes p → pc.wakes p) : Woken (st.setPc i pc).pc p := by
  obtain ⟨q, hq⟩ := h
  refine ⟨q, ?_⟩
  rw [setPc_pc]
  rcases eq_or_ne q i with heq | hne
  · rw [heq, Function.update_self]
    exact hi (heq ▸ hq)
  · rw [Function.update_of_ne hne]
    exact hq

@[grind ←]
theorem woken_setPc_waking : Woken (st.setPc i (.waking 0)).pc p := by
  refine ⟨i, ?_⟩
  simp [setPc_pc, SleepPc.wakes]

structure Inv (m : Monitor n ρ ω) (J : ρ → Prop) (st : SleepSystem n ρ ω) :
    Prop where
  lk : ∀ p, (st.pc p).hasLk → st.lk = some p
  own : ∀ p, (st.pc p).hasOwn → st.plk p = some (.proc p)
  other : ∀ p i, st.pc p = .wakingAt i → st.plk i = some (.proc p)
  blocked : ∀ p, st.pc p = .parking ∨ st.pc p = .handing → m.blocked st.res
  sleepers : ∀ p, (st.pc p).sleeps (st.state p) →
    m.blocked st.res ∨ Woken st.pc p
  sleeping : ∀ p, st.state p = .sleeping →
    st.pc p = .idle ∨ st.pc p = .switched ∨ st.pc p = .asleep
  here : ∀ p, st.sleepsHere p →
    st.pc p = .switched ∨ st.pc p = .asleep ∨ st.pc p = .resumed
  away : ∀ p, st.pc p = .switched ∨ st.pc p = .asleep → st.sleepsHere p
  good : J st.res
  may : ∀ p, st.pc p = .signalling → m.mayGive p st.res
  answer : ∀ p w b, st.pc p = .answered w b → b = m.ask w p st.res

attribute [local grind =] Function.update_apply
attribute [local grind cases eager] Inv

theorem Inv.hasLk_of_free (h : st.Inv m J) (hfree : st.lk = none) (p : Fin n) :
    (st.pc p).hasLk = false := by
  cases hhas : (st.pc p).hasLk with
  | false => rfl
  | true =>
      have hlk := h.lk p hhas
      rw [hfree] at hlk
      cases hlk

theorem Inv.call {pc : SleepPc n ω} (h : st.Inv m J) (hcall : st.call p pc = some st')
    (hpc : pc = .entering ∨ pc = .signalling ∧ m.mayGive p st.res ∨
      ∃ w, pc = .asking w) : st'.Inv m J := by
  unfold SleepSystem.call at hcall
  split at hcall
  case h_2 => cases hcall
  rename_i hidle
  split at hcall
  case isFalse => cases hcall
  cases hcall
  constructor <;> grind -linarith

theorem Inv.enter (hlaws : m.Lawful J) (h : st.Inv m J) (hp : st.pc p = .entering)
    (hfree : st.lk = none) : (st.enter m p).Inv m J := by
  have hnone : ∀ q, (st.pc q).hasLk = false := h.hasLk_of_free hfree
  obtain ⟨htake, hgive, hmayTake, hmayGive⟩ := hlaws
  unfold SleepSystem.enter
  split
  · constructor <;> grind -linarith
  -- nobody sleeps: a process in `proc_wakeup` would have the lock
  · constructor <;> grind -linarith

theorem Inv.park (h : st.Inv m J) (hp : st.pc p = .parking) :
    Inv m J ((st.setPlk p (some (.proc p))).setPc p .handing) := by
  constructor <;> grind -linarith

theorem Inv.hand (h : st.Inv m J) (hp : st.pc p = .handing) :
    Inv m J { st.setPc p .switching with lk := none } := by
  constructor <;> grind -linarith

theorem Inv.switch (h : st.Inv m J) (hp : st.pc p = .switching) :
    Inv m J (((st.setSleeps p true).setState p .sleeping).setPc p .switched) := by
  constructor <;> grind -linarith

theorem Inv.unpark (h : st.Inv m J) (hp : st.pc p = .resumed) :
    Inv m J (((st.setSleeps p false).setPlk p none).setPc p .entering) := by
  constructor <;> grind -linarith

theorem Inv.leave (h : st.Inv m J)
    (hp : st.pc p = .leaving ∨ ∃ w b, st.pc p = .answered w b) :
    Inv m J { st.setPc p .idle with lk := none } := by
  constructor <;> grind -linarith

theorem Inv.give (hlaws : m.Lawful J) (h : st.Inv m J) (hp : st.pc p = .signalling)
    (hfree : st.lk = none) :
    Inv m J { st.setPc p (.waking 0) with lk := some p, res := m.give p st.res } := by
  obtain ⟨htake, hgive, hmayTake, hmayGive⟩ := hlaws
  constructor <;> grind -linarith

theorem Inv.look (h : st.Inv m J) (hp : st.pc p = .asking w) (hfree : st.lk = none) :
    Inv m J { st.setPc p (.answered w (m.ask w p st.res)) with lk := some p } := by
  constructor <;> grind -linarith

theorem Inv.wakeNext {k : Nat} (h : st.Inv m J) (hp : st.pc p = .waking k)
    (hstep : st.wakeNext p k = some st') : st'.Inv m J := by
  unfold SleepSystem.wakeNext at hstep
  split at hstep
  · split at hstep
    case isFalse => cases hstep
    cases hstep
    constructor <;> grind -linarith
  -- it has passed every process
  · cases hstep
    constructor <;> grind -linarith

/-- With the lock of another process, that process is not on its way to sleep. -/
theorem Inv.hasOwn_of_wakingAt (h : st.Inv m J) (hp : st.pc p = .wakingAt i) :
    (st.pc i).hasOwn = false := by
  have hother := h.other p i hp
  cases hhas : (st.pc i).hasOwn with
  | false => rfl
  | true =>
      have hown := h.own i hhas
      rw [hother] at hown
      cases hown
      rw [hp] at hhas
      cases hhas

theorem Inv.wakeOne (h : st.Inv m J) (hp : st.pc p = .wakingAt i) :
    (st.wakeOne p i).Inv m J := by
  have hawake := h.hasOwn_of_wakingAt hp
  unfold SleepSystem.wakeOne
  split
  · constructor <;> grind -linarith
  · constructor <;> grind -linarith

theorem Inv.release (h : st.Inv m J) (hp : st.pc p = .switched) :
    Inv m J ((st.setPlk p none).setPc p .asleep) := by
  constructor <;> grind -linarith

theorem Inv.peek (h : st.Inv m J) (hfree : st.plk p = none) :
    Inv m J (st.setPlk p (some .scheduler)) :=
  { h with
    own := by grind -linarith
    other := by grind -linarith }

theorem Inv.drop (h : st.Inv m J) (hlock : st.plk p = some .scheduler) :
    Inv m J (st.setPlk p none) :=
  { h with
    own := by grind -linarith
    other := by grind -linarith }

theorem Inv.resume (h : st.Inv m J) (hlock : st.plk p = some .scheduler) :
    (st.resume p).Inv m J := by
  unfold SleepSystem.resume
  split
  · constructor <;> grind -linarith
  · exact { h with
      own := by grind -linarith
      other := by grind -linarith
      sleepers := by grind -linarith
      sleeping := by grind -linarith }

theorem Inv.preempt (h : st.Inv m J) (hp : st.preemptible p) :
    Inv m J (st.setState p .runnable) := by
  unfold preemptible at hp
  exact { h with
    sleepers := by grind -linarith
    sleeping := by grind -linarith }

theorem Inv.elsewhere {state : ProcState} (h : st.Inv m J) (hp : st.pc p = .idle) :
    Inv m J (st.setState p state) :=
  { h with
    sleepers := by grind -linarith
    sleeping := by grind -linarith }

theorem Inv.advance (hlaws : m.Lawful J) (h : st.Inv m J)
    (hstep : st.advance m p = some st') : st'.Inv m J := by
  unfold SleepSystem.advance at hstep
  split at hstep
  case h_1 => cases hstep
  case h_2 hp =>
    split at hstep
    case isFalse => cases hstep
    case isTrue hfree =>
      cases hstep
      exact h.enter hlaws hp hfree
  case h_3 hp =>
    split at hstep
    case isFalse => cases hstep
    case isTrue =>
      cases hstep
      exact h.park hp
  case h_4 hp =>
    cases hstep
    exact h.hand hp
  case h_5 hp =>
    cases hstep
    exact h.switch hp
  case h_6 => cases hstep
  case h_7 => cases hstep
  case h_8 hp =>
    cases hstep
    exact h.unpark hp
  case h_9 hp =>
    cases hstep
    exact h.leave (Or.inl hp)
  case h_10 hp =>
    split at hstep
    case isFalse => cases hstep
    case isTrue hfree =>
      cases hstep
      exact h.give hlaws hp hfree
  case h_11 hp => exact h.wakeNext hp hstep
  case h_12 hp =>
    cases hstep
    exact h.wakeOne hp
  case h_13 hp =>
    split at hstep
    case isFalse => cases hstep
    case isTrue hfree =>
      cases hstep
      exact h.look hp hfree
  case h_14 hp =>
    cases hstep
    exact h.leave (Or.inr ⟨_, _, hp⟩)

theorem Inv.step {op : SleepOp n ω} (hlaws : m.Lawful J) (h : st.Inv m J)
    (hstep : st.step m op = some st') : st'.Inv m J := by
  cases op with
  | wait p => exact h.call hstep (Or.inl rfl)
  | signal p =>
      simp only [SleepSystem.step] at hstep
      split at hstep
      case isFalse => cases hstep
      case isTrue hmay => exact h.call hstep (Or.inr (Or.inl ⟨rfl, hmay⟩))
  | ask p w => exact h.call hstep (Or.inr (Or.inr ⟨w, rfl⟩))
  | run p =>
      simp only [SleepSystem.step] at hstep
      split at hstep
      case isFalse => cases hstep
      case isTrue => exact h.advance hlaws hstep
  | release p =>
      simp only [SleepSystem.step] at hstep
      split at hstep
      case h_2 => cases hstep
      case h_1 hp =>
        cases hstep
        exact h.release hp
  | peek p =>
      simp only [SleepSystem.step] at hstep
      split at hstep
      case isFalse => cases hstep
      case isTrue hfree =>
        cases hstep
        exact h.peek hfree
  | drop p =>
      simp only [SleepSystem.step] at hstep
      split at hstep
      case isFalse => cases hstep
      case isTrue hlock =>
        cases hstep
        exact h.drop hlock
  | dispatch p =>
      simp only [SleepSystem.step] at hstep
      split at hstep
      case isFalse => cases hstep
      case isTrue hlock =>
        cases hstep
        exact h.resume hlock.1
  | preempt p =>
      simp only [SleepSystem.step] at hstep
      split at hstep
      case isFalse => cases hstep
      case isTrue hp =>
        cases hstep
        exact h.preempt hp.1
  | elsewhere p state =>
      simp only [SleepSystem.step] at hstep
      split at hstep
      case h_2 => cases hstep
      case h_1 hp =>
        split at hstep
        case isFalse => cases hstep
        case isTrue =>
          cases hstep
          exact h.elsewhere hp

/-- What a step does to what is behind the lock, and what an observer sees of it. -/
inductive Moved (m : Monitor n ρ ω) (st : SleepSystem n ρ ω) (op : SleepOp n ω)
    (st' : SleepSystem n ρ ω) : Prop
  | keeps (htakes : st.takes op st' = false) (hgives : st.gives op st' = false)
      (hres : st'.res = st.res)
  | take (p : Fin n) (htakes : st.takes op st' = true) (hgives : st.gives op st' = false)
      (hfree : m.blocked st.res = false) (hres : st'.res = m.take p st.res)
  | give (p : Fin n) (htakes : st.takes op st' = false) (hgives : st.gives op st' = true)
      (hres : st'.res = m.give p st.res)

theorem Moved.of_same (hop : ∀ p, op ≠ .run p) (hres : st'.res = st.res) :
    Moved m st op st' := by
  cases op with
  | run p => exact absurd rfl (hop p)
  | _ => exact .keeps rfl rfl hres

theorem res_of_call {pc : SleepPc n ω} (hcall : st.call p pc = some st') :
    st'.res = st.res := by
  unfold SleepSystem.call at hcall
  split at hcall
  case h_2 => cases hcall
  split at hcall
  case isFalse => cases hcall
  cases hcall
  rfl

theorem Moved.of_pc (hentering : st.pc p ≠ .entering) (hsignalling : st.pc p ≠ .signalling)
    (hres : st'.res = st.res) : Moved m st (.run p) st' := by
  refine .keeps ?_ ?_ hres
  · dsimp only [takes]
    split
    case h_1 hpc _ => exact absurd hpc hentering
    case h_2 => rfl
  · dsimp only [gives]
    split
    case h_1 hpc _ => exact absurd hpc hsignalling
    case h_2 => rfl

theorem moved_of_enter (hp : st.pc p = .entering) : Moved m st (.run p) (st.enter m p) := by
  unfold SleepSystem.enter
  split
  case isTrue => exact .keeps (by simp [takes, hp, setPc]) (by simp [gives, hp]) rfl
  case isFalse hfree =>
    exact .take p (by simp [takes, hp, setPc]) (by simp [gives, hp])
      (Bool.not_eq_true _ ▸ hfree) rfl

theorem moved_of_advance (hstep : st.advance m p = some st') :
    Moved m st (.run p) st' := by
  unfold SleepSystem.advance at hstep
  split at hstep
  case h_2 hp =>
    split at hstep
    case isFalse => cases hstep
    case isTrue =>
      cases hstep
      exact moved_of_enter hp
  case h_10 hp =>
    split at hstep
    case isFalse => cases hstep
    case isTrue =>
      cases hstep
      exact .give p (by simp [takes, hp]) (by simp [gives, hp, setPc]) rfl
  case h_11 hp =>
    refine .of_pc (by simp [hp]) (by simp [hp]) ?_
    unfold SleepSystem.wakeNext at hstep
    split at hstep
    · split at hstep
      case isFalse => cases hstep
      cases hstep
      rfl
    · cases hstep
      rfl
  case h_12 hp =>
    cases hstep
    refine .of_pc (by simp [hp]) (by simp [hp]) ?_
    unfold SleepSystem.wakeOne
    split <;> rfl
  case h_3 hp | h_13 hp =>
    split at hstep
    case isFalse => cases hstep
    case isTrue =>
      cases hstep
      exact .of_pc (by simp [hp]) (by simp [hp]) rfl
  case h_4 hp | h_5 hp | h_8 hp | h_9 hp | h_14 hp =>
    cases hstep
    exact .of_pc (by simp [hp]) (by simp [hp]) rfl
  case h_1 | h_6 | h_7 => cases hstep

theorem moved_of_step {op : SleepOp n ω} (hstep : st.step m op = some st') :
    Moved m st op st' := by
  cases op with
  | wait p => exact .of_same (by simp) (res_of_call hstep)
  | ask p w => exact .of_same (by simp) (res_of_call hstep)
  | signal p =>
      simp only [SleepSystem.step] at hstep
      split at hstep
      case isFalse => cases hstep
      case isTrue => exact .of_same (by simp) (res_of_call hstep)
  | run p =>
      simp only [SleepSystem.step] at hstep
      split at hstep
      case isFalse => cases hstep
      case isTrue => exact moved_of_advance hstep
  | release p =>
      simp only [SleepSystem.step] at hstep
      split at hstep
      case h_2 => cases hstep
      case h_1 =>
        cases hstep
        exact .of_same (by simp) rfl
  | elsewhere p state =>
      simp only [SleepSystem.step] at hstep
      split at hstep
      case h_2 => cases hstep
      case h_1 =>
        split at hstep
        case isFalse => cases hstep
        case isTrue =>
          cases hstep
          exact .of_same (by simp) rfl
  | dispatch p =>
      simp only [SleepSystem.step] at hstep
      split at hstep
      case isFalse => cases hstep
      case isTrue =>
        cases hstep
        refine .of_same (by simp) ?_
        unfold SleepSystem.resume
        split <;> rfl
  | peek p | drop p | preempt p =>
      simp only [SleepSystem.step] at hstep
      split at hstep
      case isFalse => cases hstep
      case isTrue =>
        cases hstep
        exact .of_same (by simp) rfl

theorem Inv.start {res : ρ} (hres : J res) :
    (SleepSystem.start res : SleepSystem n ρ ω).Inv m J where
  lk := fun _ h => by cases h
  own := fun _ h => by cases h
  other := fun _ _ h => by cases h
  blocked := fun _ h => by rcases h with h | h <;> cases h
  sleepers := fun _ h => by cases h
  sleeping := fun _ h => by cases h
  here := fun _ h => by cases h
  away := fun _ h => by rcases h with h | h <;> cases h
  good := hres
  may := fun _ h => by cases h
  answer := fun _ _ _ h => by cases h

theorem inv_of_run {res : ρ} {ops : List (SleepOp n ω)} (hlaws : m.Lawful J)
    (hres : J res) (hrun : run (step m) (start res) ops = some st) : st.Inv m J :=
  run_invariant_of_step (fun _ _ _ h hop => h.step hlaws hop) (Inv.start hres) hrun

/-- While nobody gives, a process sleeps here only if it is blocked. -/
theorem Inv.not_sleeping (h : st.Inv m J) (hgive : ∀ q, (st.pc q).inGive = false)
    (hfree : m.blocked st.res = false) (p : Fin n) :
    ¬(st.state p = .sleeping ∧ st.sleepsHere p) := by
  intro ⟨hsleeping, hhere⟩
  have hsleeps : (st.pc p).sleeps (st.state p) := by
    rw [SleepPc.sleeps_iff]
    rcases h.here p hhere with hpc | hpc | hpc
    · exact Or.inr (Or.inl hpc)
    · exact Or.inr (Or.inr ⟨hpc, hsleeping⟩)
    · rcases h.sleeping p hsleeping with hpc' | hpc' | hpc' <;>
        rw [hpc] at hpc' <;> cases hpc'
  rcases h.sleepers p hsleeps with hblocked | ⟨r, hr⟩
  · rw [hfree] at hblocked
    cases hblocked
  · have hr' := hgive r
    cases hpc : st.pc r <;> rw [hpc] at hr hr' <;> first | cases hr | cases hr'

end SleepSystem

end UnoOS.Kernel
