import UnoOS.Kernel.ProcPlaces

namespace UnoOS.Kernel

open UnoOS.Lib

/-! Pids are given out once, so the exits and the processes returned by
`proc_wait` can be told apart by them. -/

/-- The pid that a process in `proc_fork` has taken for its child. -/
@[grind =]
def TaskPc.pending {n : Nat} : TaskPc n → Option Int
  | .allocating pid _ => some pid
  | .building pid _ => some pid
  | _ => none

namespace ProcTable

variable {n : Nat} {κ : Type}

/-- `alloc_pid` has given out this pid. -/
def Issued (st : ProcTable n κ) (pid : Int) : Prop :=
  0 < pid ∧ (0 ≤ st.globalPid → pid < st.globalPid)

structure Numbered (st : ProcTable n κ) : Prop where
  live : ∀ i, st.state i ≠ .unused → st.Issued (st.pid i)
  pending : ∀ p k, (st.pc p).pending = some k → st.Issued k
  exited : ∀ e ∈ st.exits, st.Issued e.1
  positive : 0 ≤ st.globalPid → 0 < st.globalPid
  range : st.globalPid < 2 ^ 31
  distinct : ∀ i j, st.state i ≠ .unused → st.state j ≠ .unused →
    st.pid i = st.pid j → i = j
  unborn : ∀ i p k, st.state i ≠ .unused → (st.pc p).pending = some k → st.pid i ≠ k
  pendingOnce : ∀ p q k, (st.pc p).pending = some k → (st.pc q).pending = some k → p = q
  alive : ∀ i, st.state i ≠ .unused → st.state i ≠ .zombie → ∀ e ∈ st.exits,
    e.1 ≠ st.pid i
  fresh : ∀ p k, (st.pc p).pending = some k → ∀ e ∈ st.exits, e.1 ≠ k
  zombie : ∀ i, st.state i = .zombie → (st.pid i, st.exitState i) ∈ st.exits
  uncollected : ∀ i, st.state i = .zombie → ∀ r ∈ st.collected, r.pid ≠ st.pid i
  collected : ∀ r ∈ st.collected, (r.pid, r.status) ∈ st.exits
  exitsOnce : (st.exits.map Prod.fst).Nodup
  collectedOnce : (st.collected.map Collected.pid).Nodup

attribute [local grind =] setPc_exitState setPc_globalPid setPc_exits setPc_collected
  setState_exitState setState_globalPid setState_exits setState_collected
  setParent_exitState setParent_globalPid setParent_exits setParent_collected
  setLk_exitState setLk_globalPid setLk_exits setLk_collected procFree_exitState
  procFree_globalPid procFree_exits procFree_collected
attribute [local grind =] ProcTable.endFork Issued Function.update_apply
attribute [local grind cases eager] Numbered

variable {proczero p q i : Fin n} {st st' : ProcTable n κ} {c : κ}

theorem nextPid_cases {g : Int} (hg : 0 ≤ g) (hrange : g < 2 ^ 31) :
    nextPid g < 2 ^ 31 ∧ (nextPid g = g + 1 ∨ nextPid g < 0) := by
  unfold nextPid
  rcases eq_or_ne g (2 ^ 31 - 1) with heq | hne
  · rw [heq]
    decide
  · rw [Int.bmod_eq_of_le (by omega) (by omega)]
    omega

theorem Numbered.frame (h : st.Numbered) (hpid : st'.pid = st.pid)
    (hexitState : st'.exitState = st.exitState) (hglobal : st'.globalPid = st.globalPid)
    (hexits : st'.exits = st.exits) (hcollected : st'.collected = st.collected)
    (hunused : ∀ i, st'.state i = .unused ↔ st.state i = .unused)
    (hzombie : ∀ i, st'.state i = .zombie ↔ st.state i = .zombie)
    (hpending : ∀ p, (st'.pc p).pending = (st.pc p).pending) : st'.Numbered := by
  obtain ⟨h1, h2, h3, h4, h5, h6, h7, h8, h9, h10, h11, h12, h13, h14, h15⟩ := h
  constructor <;> simp only [Issued, hpid, hexitState, hglobal, hexits, hcollected, ne_eq,
    hunused, hzombie, hpending] <;> assumption

theorem Numbered.takePid (h : st.Numbered) (hpid : 0 ≤ st.globalPid) :
    Numbered { st.setPc p (.allocating st.globalPid 0) with
      globalPid := nextPid st.globalPid } := by
  obtain ⟨hnext, hcases⟩ := nextPid_cases hpid h.range
  constructor <;> grind -linarith

theorem Numbered.takeSlot {pid : Int} {k : Nat} (h : st.Numbered)
    (hpc : st.pc p = .allocating pid k) (hstate : st.state i = .unused) :
    Numbered { (st.setLk i (some c)).setPc p (.building pid i) with
      pid := Function.update st.pid i pid } := by
  constructor <;> grind -linarith

theorem Numbered.endFork {pid : Int} (hplaced : st.Placed) (h : st.Numbered)
    (hpc : st.pc p = .building pid i) : (st.endFork p i).Numbered := by
  obtain ⟨hstate, hpid⟩ := hplaced.built p pid i hpc
  have hdead := hplaced.unused i hstate
  constructor <;> grind -linarith

/-- Steps of a process that is not at its beginning or end. -/
theorem Numbered.goOn {pc : TaskPc n} {state : ProcState} (h : st.Numbered)
    (hpid : st'.pid = st.pid) (hexitState : st'.exitState = st.exitState)
    (hglobal : st'.globalPid = st.globalPid) (hexits : st'.exits = st.exits)
    (hcollected : st'.collected = st.collected)
    (hpc : st'.pc = Function.update st.pc p pc)
    (hpending : pc.pending = (st.pc p).pending)
    (hstate : st'.state = Function.update st.state p state)
    (hsame : state = st.state p ∨ state ≠ .unused ∧ state ≠ .zombie ∧
      st.state p ≠ .unused ∧ st.state p ≠ .zombie) : st'.Numbered := by
  refine h.frame hpid hexitState hglobal hexits hcollected ?_ ?_ ?_
  · intro i
    rw [hstate]
    grind
  · intro i
    rw [hstate]
    grind
  · intro q
    rw [hpc]
    grind

theorem Numbered.setPc {pc : TaskPc n} (h : st.Numbered)
    (hpid : st'.pid = st.pid) (hexitState : st'.exitState = st.exitState)
    (hglobal : st'.globalPid = st.globalPid) (hexits : st'.exits = st.exits)
    (hcollected : st'.collected = st.collected) (hstate : st'.state = st.state)
    (hpc : st'.pc = Function.update st.pc p pc)
    (hpending : pc.pending = (st.pc p).pending) : st'.Numbered := by
  refine h.goOn (p := p) hpid hexitState hglobal hexits hcollected hpc hpending ?_
    (Or.inl rfl)
  rw [hstate, Function.update_eq_self]

theorem Numbered.awaken (h : st.Numbered) (hstate : st.state q = .sleeping) :
    (st.setState q .runnable).Numbered := by
  refine h.frame rfl rfl rfl rfl rfl ?_ ?_ (fun _ => rfl)
  · intro i
    grind
  · intro i
    grind

theorem Numbered.die {s : Int} (h : st.Numbered) (hstate : st.state p = .running) :
    Numbered { ((st.setState p .zombie).setLk q none).setPc p .dying with
      exitState := Function.update st.exitState p s
      exits := (st.pid p, s) :: st.exits } := by
  constructor <;> grind -linarith

theorem Numbered.endExit {s : Int} (h : st.Numbered) (hstate : st.state p = .running) :
    (st.endExit p s q).Numbered := by
  unfold ProcTable.endExit wakeupOne
  split
  · rename_i hsleeping
    refine (h.awaken hsleeping.1).die ?_
    grind
  · exact h.die hstate

theorem Numbered.collect (h : st.Numbered) (hstate : st.state i = .zombie) :
    (st.collect c p i).Numbered := by
  simp only [ProcTable.collect]
  constructor <;> grind -linarith

theorem Numbered.fork (hplaced : st.Placed) (h : st.Numbered)
    (hmove : ForkMoves st st') : st'.Numbered := by
  cases hmove with
  | takePid hcpu hpc hpid => exact h.takePid hpid
  | passSlot hcpu hpc => exact h.setPc rfl rfl rfl rfl rfl rfl rfl (by rw [hpc]; rfl)
  | takeSlot hcpu hpc hlk hstate => exact h.takeSlot hpc hstate
  | endFork hcpu hpc => exact h.endFork hplaced hpc

theorem Placed.running_of_executing (hplaced : st.Placed)
    (hcpu : st.cpu c = .executing p) (hpc : st.pc p ≠ .dying) :
    st.state p = .running := by
  rcases hplaced.executing c p hcpu with hrunning | hdying
  · exact hrunning
  · exact absurd hdying hpc

theorem numbered_boot (proczero : Fin n) : (boot proczero : ProcTable n κ).Numbered := by
  constructor <;> simp only [boot, Issued] <;> grind -linarith

/-- No process is freed, and none returned by `proc_wait`. -/
def Keeps (st st' : ProcTable n κ) : Prop :=
  st'.collected = st.collected ∧ ∀ i, st'.state i = .unused → st.state i = .unused

theorem keeps_wakeupOne (st : ProcTable n κ) (p : Fin n) : st.Keeps (st.wakeupOne p) := by
  unfold wakeupOne
  split
  · refine ⟨rfl, ?_⟩
    intro i
    grind
  · exact ⟨rfl, fun _ hi => hi⟩

theorem Keeps.of_state (hcollected : st'.collected = st.collected)
    {state : ProcState} (hstate : st'.state = Function.update st.state p state)
    (hused : state ≠ .unused) : st.Keeps st' := by
  refine ⟨hcollected, ?_⟩
  intro i hi
  rw [hstate] at hi
  grind

theorem keeps_of_fork (hmove : ForkMoves st st') : st.Keeps st' := by
  cases hmove with
  | takePid | passSlot | takeSlot => exact ⟨rfl, fun _ hi => hi⟩
  | endFork => exact .of_state rfl rfl (by simp)

/-- `proc_wait` returns a child that has exited, with its state, and frees it when
no CPU is on its kernel stack. -/
structure Collects (st st' : ProcTable n κ) (r : Collected n) : Prop where
  logged : st'.collected = r :: st.collected
  caller : ∃ c, st.cpu c = .executing r.waiter ∧ st.pc r.waiter = .scanningAt r.slot
  parent : st.parent r.slot = some r.waiter
  zombie : st.state r.slot = .zombie
  pid : st.pid r.slot = r.pid
  status : (r.pid, r.status) ∈ st.exits
  switched : ∀ c, st.cpu c ≠ .executing r.slot ∧ st.cpu c ≠ .switched r.slot
  freed : ∀ i, st'.state i = .unused → st.state i = .unused ∨ i = r.slot

theorem collects (hplaced : st.Placed) (h : st.Numbered)
    (hcpu : st.cpu c = .executing p) (hpc : st.pc p = .scanningAt i)
    (hlk : st.lk i = none) (hstate : st.state i = .zombie) :
    st.Collects (st.collect c p i) ⟨p, i, st.pid i, st.exitState i⟩ where
  logged := rfl
  caller := ⟨c, hcpu, hpc⟩
  parent := hplaced.scanned p i hpc
  zombie := hstate
  pid := rfl
  status := h.zombie i hstate
  switched := by
    intro c'
    refine ⟨?_, ?_⟩
    · intro hexecuting
      have hdying : st.pc i = .dying := by
        rcases hplaced.executing c' i hexecuting with hrunning | hdying
        · rw [hstate] at hrunning
          cases hrunning
        · exact hdying
      have hlk' := hplaced.locked c' i i hexecuting (by rw [hdying]; rfl)
      rw [hlk] at hlk'
      cases hlk'
    · intro hswitched
      have hlk' := (hplaced.switched c' i hswitched).1
      rw [hlk] at hlk'
      cases hlk'
  freed := by
    intro j hj
    simp only [collect, procFree, setPc, setLk] at hj
    grind

variable [DecidableEq κ]

theorem Numbered.exit (hplaced : st.Placed) (h : st.Numbered)
    (hmove : ExitMoves proczero st c st') : st'.Numbered := by
  cases hmove with
  | wakeZero hcpu hpc hlk =>
      unfold wakeupOne
      split
      · rename_i hsleeping
        exact (h.awaken hsleeping.1).setPc rfl rfl rfl rfl rfl rfl rfl
          (by simp [setState, hpc, TaskPc.pending])
      · exact h.setPc rfl rfl rfl rfl rfl rfl rfl (by rw [hpc]; rfl)
  | readParent hcpu hpc _ => exact h.setPc rfl rfl rfl rfl rfl rfl rfl (by rw [hpc]; rfl)
  | lockParent hcpu hpc _ => exact h.setPc rfl rfl rfl rfl rfl rfl rfl (by rw [hpc]; rfl)
  | lockItself hcpu hpc _ => exact h.setPc rfl rfl rfl rfl rfl rfl rfl (by rw [hpc]; rfl)
  | findChild hcpu hpc _ => exact h.setPc rfl rfl rfl rfl rfl rfl rfl (by rw [hpc]; rfl)
  | passChild hcpu hpc _ => exact h.setPc rfl rfl rfl rfl rfl rfl rfl (by rw [hpc]; rfl)
  | reparent hcpu hpc _ => exact h.setPc rfl rfl rfl rfl rfl rfl rfl (by rw [hpc]; rfl)
  | endExit hcpu hpc _ =>
      exact h.endExit (hplaced.running_of_executing hcpu (by simp [hpc]))
  | die hcpu hpc => exact h.setPc rfl rfl rfl rfl rfl rfl rfl (by rw [hpc]; rfl)

theorem Numbered.wait (hplaced : st.Placed) (h : st.Numbered)
    (hmove : WaitMoves st st') : st'.Numbered := by
  cases hmove with
  | lockWait hcpu hpc _ => exact h.setPc rfl rfl rfl rfl rfl rfl rfl (by rw [hpc]; rfl)
  | scanFind hcpu hpc _ => exact h.setPc rfl rfl rfl rfl rfl rfl rfl (by rw [hpc]; rfl)
  | scanPass hcpu hpc _ => exact h.setPc rfl rfl rfl rfl rfl rfl rfl (by rw [hpc]; rfl)
  | scanSleep hcpu hpc _ =>
      have hrunning := hplaced.running_of_executing hcpu (by simp [hpc])
      exact h.goOn rfl rfl rfl rfl rfl rfl (by rw [hpc]; rfl) rfl (by simp [hrunning])
  | scanFail hcpu hpc => exact h.setPc rfl rfl rfl rfl rfl rfl rfl (by rw [hpc]; rfl)
  | collect hcpu hpc hlk hstate => exact h.collect hstate
  | scanNext hcpu hpc _ _ => exact h.setPc rfl rfl rfl rfl rfl rfl rfl (by rw [hpc]; rfl)
  | endFree hcpu hpc => exact h.setPc rfl rfl rfl rfl rfl rfl rfl (by rw [hpc]; rfl)

theorem Numbered.switch (hplaced : st.Placed) (h : st.Numbered)
    (hmove : SwitchMoves st st') : st'.Numbered := by
  cases hmove with
  | call hcpu hpc hcall =>
      refine h.setPc rfl rfl rfl rfl rfl rfl rfl ?_
      rcases hcall with hfork | hwait | ⟨s, hexit, _⟩
      · rw [hfork, hpc]
        rfl
      · rw [hwait, hpc]
        rfl
      · rw [hexit, hpc]
        rfl
  | doze hcpu hpc _ => exact h.setPc rfl rfl rfl rfl rfl rfl rfl (by rw [hpc]; rfl)
  | sleep hcpu hpc =>
      have hrunning := hplaced.running_of_executing hcpu (by simp [hpc])
      exact h.goOn rfl rfl rfl rfl rfl rfl (by rw [hpc]; rfl) rfl (by simp [hrunning])
  | chooseFirst | chooseBetter | choosePass | release => exact { h with }
  | resumeWait hcpu hpc =>
      have hrunnable := (hplaced.chosen _ _ _ hcpu).2
      exact h.goOn rfl rfl rfl rfl rfl rfl (by rw [hpc]; rfl) rfl (by simp [hrunnable])
  | resumeSleep hcpu hpc =>
      have hrunnable := (hplaced.chosen _ _ _ hcpu).2
      exact h.goOn rfl rfl rfl rfl rfl rfl (by rw [hpc]; rfl) rfl (by simp [hrunnable])
  | resumeFresh hcpu hpc =>
      have hrunnable := (hplaced.chosen _ _ _ hcpu).2
      exact h.goOn rfl rfl rfl rfl rfl rfl (by rw [hpc]; rfl) rfl (by simp [hrunnable])
  | wake _ hstate _ => exact h.awaken hstate

theorem Numbered.step {op : TableOp n κ} (hplaced : st.Placed) (h : st.Numbered)
    (hstep : st.step proczero op = some st') : st'.Numbered := by
  cases moves_of_step hstep with
  | fork hmove => exact h.fork hplaced hmove
  | exit _ hmove => exact h.exit hplaced hmove
  | wait hmove => exact h.wait hplaced hmove
  | switch hmove => exact h.switch hplaced hmove

theorem keeps_of_exit (hmove : ExitMoves proczero st c st') : st.Keeps st' := by
  cases hmove with
  | wakeZero => exact keeps_wakeupOne st proczero
  | @endExit p q s k =>
      have hwake := keeps_wakeupOne st q
      refine ⟨hwake.1, ?_⟩
      intro i hi
      apply hwake.2
      simp only [ProcTable.endExit, setPc, setLk, setState] at hi
      grind
  | _ => exact ⟨rfl, fun _ hi => hi⟩

theorem keeps_of_switch (hmove : SwitchMoves st st') : st.Keeps st' := by
  cases hmove with
  | sleep => exact .of_state rfl rfl (by simp)
  | resumeWait => exact .of_state rfl rfl (by simp)
  | resumeSleep => exact .of_state rfl rfl (by simp)
  | resumeFresh => exact .of_state rfl rfl (by simp)
  | wake => exact .of_state rfl rfl (by simp)
  | _ => exact ⟨rfl, fun _ hi => hi⟩

theorem keeps_or_collects (hplaced : st.Placed) (h : st.Numbered)
    {op : TableOp n κ} (hmove : Moves proczero st st' op) :
    st.Keeps st' ∨ ∃ r, st.Collects st' r := by
  cases hmove with
  | fork hmove => exact Or.inl (keeps_of_fork hmove)
  | exit _ hmove => exact Or.inl (keeps_of_exit hmove)
  | switch hmove => exact Or.inl (keeps_of_switch hmove)
  | wait hmove =>
      cases hmove with
      | scanSleep => exact Or.inl (.of_state rfl rfl (by simp))
      | collect hcpu hpc hlk hstate =>
          exact Or.inr ⟨_, collects hplaced h hcpu hpc hlk hstate⟩
      | _ => exact Or.inl ⟨rfl, fun _ hi => hi⟩

/-- Over every run of any number of processes on any number of CPUs: pids are
distinct, every process exits once and is returned once, by its parent, and is freed
only when no CPU executes it. -/
theorem exits_collected_once {ops : List (TableOp n κ)}
    (hrun : run (step proczero) (boot proczero) ops = some st) :
    (∀ i j, st.state i ≠ .unused → st.state j ≠ .unused → st.pid i = st.pid j → i = j) ∧
      (st.exits.map Prod.fst).Nodup ∧ (st.collected.map Collected.pid).Nodup ∧
      ∀ op st', st.step proczero op = some st' →
        st.Keeps st' ∨ ∃ r, st.Collects st' r := by
  have h : st.Placed ∧ st.Numbered := by
    refine run_invariant_of_step (I := fun st => st.Placed ∧ st.Numbered) ?_
      ⟨placed_boot proczero, numbered_boot proczero⟩ hrun
    intro st op st' hi hop
    exact ⟨hi.1.step hop, hi.2.step hi.1 hop⟩
  refine ⟨h.2.distinct, h.2.exitsOnce, h.2.collectedOnce, ?_⟩
  intro op st' hstep
  exact keeps_or_collects h.1 h.2 (moves_of_step hstep)

/-- The first process forks on one CPU; its child exits on the other and is found by
`proc_wait`. -/
def forkAndWait : List (TableOp 2 Bool) :=
  [.turn false true, .turn false false, .turn false false, .fork false,
    .turn false false, .turn false false, .turn false false, .turn false false,
    .turn true false, .turn true true, .turn true false, .exit true 7,
    .turn true false, .turn true false, .turn true false, .turn true false,
    .turn true false, .turn true false, .turn true false, .turn true false,
    .turn true false, .wait false, .turn false false, .turn false false,
    .turn false false]

theorem exits_collected_once_forked :
    ∃ st st' : ProcTable 2 Bool, run (step 0) (boot 0) forkAndWait = some st ∧
      st.step 0 (.turn false false) = some st' ∧ st.Collects st' ⟨0, 1, 2, 7⟩ := by
  have hlast : (run (step 0) (boot 0) (forkAndWait ++ [.turn false false])).map
      (fun st => st.collected) = some [⟨0, 1, 2, 7⟩] := by
    decide +kernel
  have hbefore : (run (step 0) (boot 0) forkAndWait).map (fun st => st.collected) =
      some [] := by
    decide +kernel
  obtain ⟨st', hrun', hcollected'⟩ := Option.map_eq_some_iff.mp hlast
  obtain ⟨st, hrun, hcollected⟩ := Option.map_eq_some_iff.mp hbefore
  obtain ⟨middle, hmiddle, hturn⟩ := run_append.mp hrun'
  rw [hrun] at hmiddle
  cases hmiddle
  obtain ⟨next, hstep, hnext⟩ := run_cons.mp hturn
  cases hnext
  refine ⟨st, st', hrun, hstep, ?_⟩
  obtain ⟨_, _, _, hcases⟩ := exits_collected_once hrun
  rcases hcases _ _ hstep with hkeeps | ⟨r, hr⟩
  · have hsame := hkeeps.1
    rw [hcollected, hcollected'] at hsame
    cases hsame
  · have hlogged := hr.logged
    rw [hcollected, hcollected'] at hlogged
    cases hlogged
    exact hr

end ProcTable

end UnoOS.Kernel
