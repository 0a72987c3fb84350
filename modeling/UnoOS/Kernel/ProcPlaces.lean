import UnoOS.Kernel.ProcMoves

namespace UnoOS.Kernel

open UnoOS.Lib

/-! Which CPU executes a process and has its lock.  A process that is not
`RUNNING` is executed only until its CPU has released its lock. -/

namespace TaskPc

variable {n : Nat}

@[grind =]
def Has (p i : Fin n) : TaskPc n → Prop
  | .building _ j => i = j
  | .lockingItself _ q => i = q
  | .reparenting _ q _ => i = q ∨ i = p
  | .reparentingAt _ q _ => i = q ∨ i = p
  | .dying => i = p
  | .scanning _ _ => i = p
  | .scanningAt _ => i = p
  | .freeing j => i = j
  | .drowsy => i = p
  | _ => False

def plain : TaskPc n → Bool
  | .outside | .forking | .allocating _ _ | .exiting _ | .orphaning _ | .waiting => true
  | .lockingParent _ _ => true
  | _ => false

end TaskPc

namespace ProcTable

variable {n : Nat} {κ : Type}

def OnCpu (cpu : κ → CpuPc n) (p : Fin n) : Prop :=
  ∃ c, cpu c = .executing p

@[grind →]
theorem OnCpu.elim {cpu : κ → CpuPc n} {p : Fin n} (h : OnCpu cpu p) :
    ∃ c, cpu c = .executing p := h

/-! What the updates keep. -/

attribute [grind =] setPc_pid setPc_state setPc_parent setPc_sleepSpace setPc_lk
  setPc_pc setPc_cpu setState_pid setState_state setState_parent setState_sleepSpace
  setState_lk setState_pc setState_cpu setParent_pid setParent_state setParent_parent
  setParent_sleepSpace setParent_lk setParent_pc setParent_cpu setLk_pid setLk_state
  setLk_parent setLk_sleepSpace setLk_lk setLk_pc setLk_cpu setSleep_pid
  setSleep_state setSleep_parent setSleep_sleepSpace setSleep_lk setSleep_pc
  setSleep_cpu setCpu_pid setCpu_state setCpu_parent setCpu_sleepSpace setCpu_lk
  setCpu_pc setCpu_cpu procFree_pid procFree_state procFree_parent procFree_sleepSpace
  procFree_lk procFree_pc procFree_cpu

attribute [local grind =] procSched Function.update_apply

section

variable {st : ProcTable n κ} {p q : Fin n}

@[grind =]
theorem onCpu_setPc {pc : TaskPc n} : OnCpu (st.setPc q pc).cpu p ↔ OnCpu st.cpu p :=
  Iff.rfl

@[grind =]
theorem onCpu_setState {state : ProcState} :
    OnCpu (st.setState q state).cpu p ↔ OnCpu st.cpu p := Iff.rfl

@[grind =]
theorem onCpu_setParent {parent : Option (Fin n)} :
    OnCpu (st.setParent q parent).cpu p ↔ OnCpu st.cpu p := Iff.rfl

@[grind =]
theorem onCpu_setLk {holder : Option κ} :
    OnCpu (st.setLk q holder).cpu p ↔ OnCpu st.cpu p := Iff.rfl

@[grind =]
theorem onCpu_setSleep {space : SleepSpace} :
    OnCpu (st.setSleep q space).cpu p ↔ OnCpu st.cpu p := Iff.rfl

@[grind =]
theorem onCpu_procFree : OnCpu (st.procFree q).cpu p ↔ OnCpu st.cpu p := Iff.rfl

variable [DecidableEq κ] {c : κ}

@[grind ←]
theorem OnCpu.setCpu {new : CpuPc n} (h : OnCpu st.cpu p) (hc : st.cpu c ≠ .executing p) :
    OnCpu (st.setCpu c new).cpu p := by
  obtain ⟨c', hc'⟩ := h
  refine ⟨c', ?_⟩
  rw [setCpu_cpu, Function.update_of_ne]
  · exact hc'
  · intro heq
    exact hc (heq ▸ hc')

@[grind ←]
theorem onCpu_setCpu_self : OnCpu (st.setCpu c (.executing p)).cpu p :=
  ⟨c, Function.update_self ..⟩

end

section

variable {st : ProcTable n κ} {p i q : Fin n}

@[grind =]
theorem endFork_pid : (st.endFork p i).pid q = st.pid q := rfl

@[grind =]
theorem endFork_state :
    (st.endFork p i).state q = if q = i then .runnable else st.state q := by
  grind [ProcTable.endFork]

@[grind =]
theorem endFork_parent :
    (st.endFork p i).parent q = if q = i then some p else st.parent q := by
  grind [ProcTable.endFork]

@[grind =]
theorem endFork_lk : (st.endFork p i).lk q = if q = i then none else st.lk q := by
  grind [ProcTable.endFork]

@[grind =]
theorem endFork_pc : (st.endFork p i).pc q =
    if q = p then .outside else if q = i then .fresh else st.pc q := by
  grind [ProcTable.endFork]

@[grind =]
theorem endFork_cpu {c : κ} : (st.endFork p i).cpu c = st.cpu c := rfl

@[grind =]
theorem onCpu_endFork : OnCpu (st.endFork p i).cpu q ↔ OnCpu st.cpu q := Iff.rfl

end

structure Placed (st : ProcTable n κ) : Prop where
  unused : ∀ p, st.state p = .unused → st.pc p = .dead
  runnable : ∀ p, st.state p = .runnable →
    st.pc p = .waitAsleep ∨ st.pc p = .asleep ∨ st.pc p = .fresh
  sleeping : ∀ p, st.state p = .sleeping → st.pc p = .waitAsleep ∨ st.pc p = .asleep
  zombie : ∀ p, st.state p = .zombie → st.pc p = .dying ∨ st.pc p = .dead
  running : ∀ p, st.state p = .running → st.pc p ≠ .waitAsleep ∧ st.pc p ≠ .asleep ∧
    st.pc p ≠ .fresh ∧ st.pc p ≠ .dying ∧ st.pc p ≠ .dead
  alone : ∀ c c' p, st.cpu c = .executing p → st.cpu c' = .executing p → c = c'
  executing : ∀ c p, st.cpu c = .executing p → st.state p = .running ∨ st.pc p = .dying
  executed : ∀ p, st.pc p = .dead ∨ st.pc p = .waitAsleep ∨ st.pc p = .asleep ∨
    st.pc p = .fresh ∨ OnCpu st.cpu p
  dying : ∀ p, st.pc p = .dying → st.state p = .zombie
  locked : ∀ c p i, st.cpu c = .executing p → (st.pc p).Has p i → st.lk i = some c
  switched : ∀ c p, st.cpu c = .switched p →
    st.lk p = some c ∧ (st.state p = .sleeping ∨ st.state p = .zombie)
  chosen : ∀ c k q, st.cpu c = .choosing k (some q) →
    st.lk q = some c ∧ st.state q = .runnable
  built : ∀ p pid i, st.pc p = .building pid i →
    st.state i = .unused ∧ st.pid i = pid
  orphan : ∀ i, st.state i = .unused → st.parent i = none
  scanned : ∀ p i, st.pc p = .scanningAt i → st.parent i = some p
  reparented : ∀ p s q i, st.pc p = .reparentingAt s q i → st.parent i = some p
  apart : ∀ p s q k, st.pc p = .reparenting s q k → q ≠ p
  apart' : ∀ p s q i, st.pc p = .reparentingAt s q i → q ≠ p

attribute [local grind cases eager] Placed

variable {proczero p q i : Fin n} {st st' : ProcTable n κ} {c : κ} {pc : TaskPc n}

/-- A process on CPU `c` may go on to `pc`. -/
structure Admits (st : ProcTable n κ) (c : κ) (p : Fin n) (pc : TaskPc n) : Prop where
  active : pc ≠ .dead ∧ pc ≠ .waitAsleep ∧ pc ≠ .asleep ∧ pc ≠ .fresh ∧ pc ≠ .dying
  locked : ∀ i, pc.Has p i → st.lk i = some c
  built : ∀ pid i, pc = .building pid i → st.state i = .unused ∧ st.pid i = pid
  scanned : ∀ i, pc = .scanningAt i → st.parent i = some p
  reparented : ∀ s q i, pc = .reparentingAt s q i → st.parent i = some p
  apart : ∀ s q k, pc = .reparenting s q k → q ≠ p
  apart' : ∀ s q i, pc = .reparentingAt s q i → q ≠ p

theorem Admits.of_plain (hpc : pc.plain) : st.Admits c p pc := by
  cases pc <;> simp [TaskPc.plain] at hpc <;>
    exact ⟨by simp, by simp [TaskPc.Has], by simp, by simp, by simp, by simp, by simp⟩

theorem Placed.setPc (h : st.Placed) (hcpu : st.cpu c = .executing p)
    (hpc : st.pc p ≠ .dying) (hto : st.Admits c p pc) : (st.setPc p pc).Placed := by
  obtain ⟨hactive, hhas, hbuild, hscan, hreparent, haway, haway'⟩ := hto
  constructor <;> grind -linarith

theorem Placed.acquire (h : st.Placed) (hlk : st.lk i = none) (c : κ) :
    (st.setLk i (some c)).Placed :=
  { h with
    locked := by grind -linarith
    switched := by grind -linarith
    chosen := by grind -linarith }

@[simp]
theorem wakeupOne_pc (st : ProcTable n κ) (p : Fin n) : (st.wakeupOne p).pc = st.pc := by
  unfold ProcTable.wakeupOne
  split <;> rfl

@[simp]
theorem wakeupOne_cpu (st : ProcTable n κ) (p : Fin n) :
    (st.wakeupOne p).cpu = st.cpu := by
  unfold ProcTable.wakeupOne
  split <;> rfl

/-- A sleeping process is woken up when no CPU is on its way from it. -/
theorem Placed.wakeupOne (h : st.Placed) (hoff : ∀ c, st.cpu c ≠ .switched p) :
    (st.wakeupOne p).Placed := by
  unfold ProcTable.wakeupOne
  split
  case isFalse => exact h
  case isTrue hsleep =>
    constructor <;> grind -linarith

theorem Placed.fork (h : st.Placed) (hmove : ForkMoves st st') : st'.Placed := by
  cases hmove with
  | takePid hcpu hpc hpid =>
      exact { h.setPc hcpu (by simp [hpc]) (Admits.of_plain rfl) with }
  | passSlot hcpu hpc => exact h.setPc hcpu (by simp [hpc]) (Admits.of_plain rfl)
  | @takeSlot c p i pid k hcpu hpc hlk hstate => constructor <;> grind -linarith
  | @endFork c p i pid hcpu hpc => constructor <;> grind -linarith

theorem Placed.reparent {s : Int} (h : st.Placed) (hcpu : st.cpu c = .executing p)
    (hpc : st.pc p = .reparentingAt s q i) :
    ((st.setParent i (some proczero)).setPc p (.reparenting s q (i + 1))).Placed := by
  constructor <;> grind -linarith

theorem Placed.endExit {s : Int} {k : Nat} (h : st.Placed)
    (hcpu : st.cpu c = .executing p) (hpc : st.pc p = .reparenting s q k) :
    (((st.setState p .zombie).setLk q none).setPc p .dying).Placed := by
  constructor <;> grind -linarith

theorem Placed.collect (h : st.Placed) (hcpu : st.cpu c = .executing p)
    (hpc : st.pc p = .scanningAt i) (hlk : st.lk i = none) (hstate : st.state i = .zombie) :
    (st.collect c p i).Placed := by
  have hfreed : ((((st.procFree i).setLk p none).setLk i (some c)).setPc p
      (.freeing i)).Placed := by
    constructor <;> grind -linarith
  exact { hfreed with }

theorem Placed.not_executing {k : Nat} (h : st.Placed)
    (hcpu : st.cpu c = .choosing k (some q)) (c' : κ) : st.cpu c' ≠ .executing q := by
  have hstate := (h.chosen c k q hcpu).2
  intro hc'
  rcases h.executing c' q hc' with hrun | hdying
  · rw [hstate] at hrun
    cases hrun
  · have hdead := h.dying q hdying
    rw [hstate] at hdead
    cases hdead

theorem placed_boot (proczero : Fin n) : (boot proczero : ProcTable n κ).Placed := by
  constructor <;> simp only [boot] <;>
    grind -linarith

variable [DecidableEq κ]

theorem Placed.die (h : st.Placed) (hcpu : st.cpu c = .executing p)
    (hpc : st.pc p = .dying) : (st.procSched c p .dead).Placed := by
  constructor <;> grind -linarith

theorem Placed.exit (h : st.Placed) (hmove : ExitMoves proczero st c st') :
    st'.Placed := by
  cases hmove with
  | @wakeZero p s hcpu hpc hlk =>
      have hoff : ∀ c, st.cpu c ≠ .switched proczero := by
        intro c' hc'
        have hlk' := (h.switched c' proczero hc').1
        rw [hlk] at hlk'
        cases hlk'
      have hpc' : (st.wakeupOne proczero).pc p = .exiting s := by
        rw [wakeupOne_pc, hpc]
      refine (h.wakeupOne hoff).setPc (c := c) ?_ (by simp [hpc']) (Admits.of_plain rfl)
      rw [wakeupOne_cpu, hcpu]
  | readParent hcpu hpc _ => exact h.setPc hcpu (by simp [hpc]) (Admits.of_plain rfl)
  | @lockParent p q s hcpu hpc hlk =>
      refine (h.acquire hlk c).setPc hcpu (by simp [setLk, hpc]) ?_
      exact ⟨by simp, by simp [TaskPc.Has, setLk], by simp, by simp, by simp, by simp,
        by simp⟩
  | @lockItself p q s hcpu hpc hlk =>
      have hq : st.lk q = some c := h.locked c p q hcpu (by rw [hpc]; rfl)
      have hne : q ≠ p := by
        intro heq
        rw [heq, hlk] at hq
        cases hq
      refine (h.acquire hlk c).setPc hcpu (by simp [setLk, hpc]) ?_
      refine ⟨by simp, ?_, by simp, by simp, by simp, ?_, by simp⟩
      · intro j hj
        rcases hj with hj | hj
        · rw [hj]
          exact (Function.update_of_ne hne _ _).trans hq
        · rw [hj]
          exact Function.update_self ..
      · intro s' q' k heq
        cases heq
        exact hne
  | @findChild p q i s hcpu hpc hparent =>
      refine h.setPc hcpu (by simp [hpc]) ⟨by simp, ?_, by simp, by simp, ?_, by simp, ?_⟩
      · intro j hj
        exact h.locked c p j hcpu (by rw [hpc]; exact hj)
      · intro s' q' j heq
        cases heq
        exact hparent
      · intro s' q' j heq
        cases heq
        exact h.apart p s q i hpc
  | @passChild p q i s hcpu hpc hparent =>
      refine h.setPc hcpu (by simp [hpc]) ⟨by simp, ?_, by simp, by simp, by simp, ?_, by simp⟩
      · intro j hj
        exact h.locked c p j hcpu (by rw [hpc]; exact hj)
      · intro s' q' j heq
        cases heq
        exact h.apart p s q i hpc
  | reparent hcpu hpc hlk => exact h.reparent hcpu hpc
  | @endExit p q s k hcpu hpc hall =>
      have hlk : st.lk q = some c := h.locked c p q hcpu (by rw [hpc]; exact Or.inl rfl)
      have hoff : ∀ c, st.cpu c ≠ .switched q := by
        intro c' hc'
        have hlk' := (h.switched c' q hc').1
        rw [hlk] at hlk'
        cases hlk'
        rw [hcpu] at hc'
        cases hc'
      have hpc' : (st.wakeupOne q).pc p = .reparenting s q k := by
        rw [wakeupOne_pc, hpc]
      have hcpu' : (st.wakeupOne q).cpu c = .executing p := by
        rw [wakeupOne_cpu, hcpu]
      exact { (h.wakeupOne hoff).endExit hcpu' hpc' with }
  | die hcpu hpc => exact h.die hcpu hpc

theorem Placed.scanSleep {k : Nat} (h : st.Placed) (hcpu : st.cpu c = .executing p)
    (hpc : st.pc p = .scanning k true) :
    (((st.setSleep p .itself).setState p .sleeping).procSched c p
      .waitAsleep).Placed := by
  constructor <;> grind -linarith

theorem Placed.wait (h : st.Placed) (hmove : WaitMoves st st') : st'.Placed := by
  cases hmove with
  | @lockWait c p hcpu hpc hlk =>
      refine (h.acquire hlk c).setPc hcpu (by simp [setLk, hpc]) ?_
      exact ⟨by simp, by simp [TaskPc.Has, setLk], by simp, by simp, by simp, by simp,
        by simp⟩
  | @scanFind c p i kids hcpu hpc hparent =>
      refine h.setPc hcpu (by simp [hpc])
        ⟨by simp, ?_, by simp, ?_, by simp, by simp, by simp⟩
      · intro j hj
        exact h.locked c p j hcpu (by rw [hpc]; exact hj)
      · intro j heq
        cases heq
        exact hparent
  | @scanPass c p i kids hcpu hpc hparent =>
      refine h.setPc hcpu (by simp [hpc])
        ⟨by simp, ?_, by simp, by simp, by simp, by simp, by simp⟩
      intro j hj
      exact h.locked c p j hcpu (by rw [hpc]; exact hj)
  | scanSleep hcpu hpc _ => exact h.scanSleep hcpu hpc
  | scanFail hcpu hpc => exact h.setPc hcpu (by simp [hpc]) (Admits.of_plain rfl)
  | collect hcpu hpc hlk hstate => exact h.collect hcpu hpc hlk hstate
  | @scanNext c p i hcpu hpc hlk hstate =>
      refine h.setPc hcpu (by simp [hpc])
        ⟨by simp, ?_, by simp, by simp, by simp, by simp, by simp⟩
      intro j hj
      exact h.locked c p j hcpu (by rw [hpc]; exact hj)
  | @endFree c p i hcpu hpc => constructor <;> grind -linarith

theorem Placed.sleep (h : st.Placed) (hcpu : st.cpu c = .executing p)
    (hpc : st.pc p = .drowsy) :
    (((st.setSleep p .other).setState p .sleeping).procSched c p .asleep).Placed := by
  constructor <;> grind -linarith

theorem Placed.chooseFirst {k : Nat} (h : st.Placed) (hcpu : st.cpu c = .choosing k none)
    (hlk : st.lk i = none) (hstate : st.state i = .runnable) :
    ((st.setLk i (some c)).setCpu c (.choosing (k + 1) (some i))).Placed := by
  constructor <;> grind -linarith

theorem Placed.chooseBetter {k : Nat} (h : st.Placed)
    (hcpu : st.cpu c = .choosing k (some q)) (hlk : st.lk i = none)
    (hstate : st.state i = .runnable) :
    (((st.setLk q none).setLk i (some c)).setCpu c
      (.choosing (k + 1) (some i))).Placed := by
  constructor <;> grind -linarith

theorem Placed.resumeWait {k : Nat} (h : st.Placed)
    (hcpu : st.cpu c = .choosing k (some q)) :
    (((st.setState q .running).setCpu c (.executing q)).setPc q
      (.scanning 0 false)).Placed := by
  have hidle := h.not_executing hcpu
  constructor
  case alone =>
    intro c₁ c₂ p' h₁ h₂
    have hold := h.alone c₁ c₂ p'
    clear h
    grind -linarith
  all_goals grind -linarith

theorem Placed.resume {k : Nat} (h : st.Placed)
    (hcpu : st.cpu c = .choosing k (some q)) :
    ((((st.setState q .running).setCpu c (.executing q)).setLk q none).setPc q
      .outside).Placed := by
  have hidle := h.not_executing hcpu
  constructor
  case alone =>
    intro c₁ c₂ p' h₁ h₂
    have hold := h.alone c₁ c₂ p'
    clear h
    grind -linarith
  all_goals grind -linarith

theorem Placed.releaseSwitched (h : st.Placed) (hcpu : st.cpu c = .switched p) :
    ((st.setLk p none).setCpu c (.choosing 0 none)).Placed := by
  constructor <;> grind -linarith

theorem Placed.switch (h : st.Placed) (hmove : SwitchMoves st st') : st'.Placed := by
  cases hmove with
  | call hcpu hpc hcall =>
      refine h.setPc hcpu (by simp [hpc]) (Admits.of_plain ?_)
      rcases hcall with hfork | hwait | ⟨s, hexit, _⟩
      · rw [hfork]
        rfl
      · rw [hwait]
        rfl
      · rw [hexit]
        rfl
  | @doze c p hcpu hpc hlk =>
      refine (h.acquire hlk c).setPc hcpu (by simp [setLk, hpc]) ?_
      exact ⟨by simp, by simp [TaskPc.Has, setLk], by simp, by simp, by simp, by simp,
        by simp⟩
  | sleep hcpu hpc => exact h.sleep hcpu hpc
  | chooseFirst hcpu hlk hstate => exact h.chooseFirst hcpu hlk hstate
  | chooseBetter hcpu hlk hstate => exact h.chooseBetter hcpu hlk hstate
  | @choosePass c k k' next hcpu => constructor <;> grind -linarith
  | resumeWait hcpu hpc => exact { h.resumeWait hcpu with }
  | resumeSleep hcpu hpc => exact { h.resume hcpu with }
  | resumeFresh hcpu hpc => exact h.resume hcpu
  | release hcpu => exact h.releaseSwitched hcpu
  | @wake p hlk hstate hspace => constructor <;> grind -linarith

theorem Placed.step {op : TableOp n κ} (h : st.Placed)
    (hstep : st.step proczero op = some st') : st'.Placed := by
  cases moves_of_step hstep with
  | fork hmove => exact h.fork hmove
  | exit _ hmove => exact h.exit hmove
  | wait hmove => exact h.wait hmove
  | switch hmove => exact h.switch hmove

end ProcTable

end UnoOS.Kernel
