import UnoOS.Kernel.ProcTable

namespace UnoOS.Kernel

namespace ProcTable

variable {n : Nat} {κ : Type} [DecidableEq κ]

/-! Everything that a step can do. -/

/-- `proc_fork` -/
inductive ForkMoves (st : ProcTable n κ) : ProcTable n κ → Prop where
  | takePid {c : κ} {p : Fin n} (hcpu : st.cpu c = .executing p)
      (hpc : st.pc p = .forking) (hpid : 0 ≤ st.globalPid) :
      ForkMoves st { st.setPc p (.allocating st.globalPid 0) with
        globalPid := nextPid st.globalPid }
  | passSlot {c : κ} {p : Fin n} {pid : Int} {k : Nat}
      (hcpu : st.cpu c = .executing p) (hpc : st.pc p = .allocating pid k) :
      ForkMoves st (st.setPc p (.allocating pid (k + 1)))
  | takeSlot {c : κ} {p i : Fin n} {pid : Int} {k : Nat}
      (hcpu : st.cpu c = .executing p) (hpc : st.pc p = .allocating pid k)
      (hlk : st.lk i = none) (hstate : st.state i = .unused) :
      ForkMoves st { (st.setLk i (some c)).setPc p (.building pid i) with
        pid := Function.update st.pid i pid }
  | endFork {c : κ} {p i : Fin n} {pid : Int} (hcpu : st.cpu c = .executing p)
      (hpc : st.pc p = .building pid i) : ForkMoves st (st.endFork p i)

/-- `proc_exit` on CPU `c` -/
inductive ExitMoves (proczero : Fin n) (st : ProcTable n κ) (c : κ) :
    ProcTable n κ → Prop where
  | wakeZero {p : Fin n} {s : Int} (hcpu : st.cpu c = .executing p)
      (hpc : st.pc p = .exiting s) (hlk : st.lk proczero = none) :
      ExitMoves proczero st c ((st.wakeupOne proczero).setPc p (.orphaning s))
  | readParent {p q : Fin n} {s : Int} (hcpu : st.cpu c = .executing p)
      (hpc : st.pc p = .orphaning s) (hparent : st.parent p = some q) :
      ExitMoves proczero st c (st.setPc p (.lockingParent s q))
  | lockParent {p q : Fin n} {s : Int} (hcpu : st.cpu c = .executing p)
      (hpc : st.pc p = .lockingParent s q) (hlk : st.lk q = none) :
      ExitMoves proczero st c ((st.setLk q (some c)).setPc p (.lockingItself s q))
  | lockItself {p q : Fin n} {s : Int} (hcpu : st.cpu c = .executing p)
      (hpc : st.pc p = .lockingItself s q) (hlk : st.lk p = none) :
      ExitMoves proczero st c ((st.setLk p (some c)).setPc p (.reparenting s q 0))
  | findChild {p q i : Fin n} {s : Int} (hcpu : st.cpu c = .executing p)
      (hpc : st.pc p = .reparenting s q i) (hparent : st.parent i = some p) :
      ExitMoves proczero st c (st.setPc p (.reparentingAt s q i))
  | passChild {p q i : Fin n} {s : Int} (hcpu : st.cpu c = .executing p)
      (hpc : st.pc p = .reparenting s q i) (hparent : st.parent i ≠ some p) :
      ExitMoves proczero st c (st.setPc p (.reparenting s q (i + 1)))
  | reparent {p q i : Fin n} {s : Int} (hcpu : st.cpu c = .executing p)
      (hpc : st.pc p = .reparentingAt s q i) (hlk : st.lk i = none) :
      ExitMoves proczero st c
        ((st.setParent i (some proczero)).setPc p (.reparenting s q (i + 1)))
  | endExit {p q : Fin n} {s : Int} {k : Nat} (hcpu : st.cpu c = .executing p)
      (hpc : st.pc p = .reparenting s q k) (hall : n ≤ k) :
      ExitMoves proczero st c (st.endExit p s q)
  | die {p : Fin n} (hcpu : st.cpu c = .executing p) (hpc : st.pc p = .dying) :
      ExitMoves proczero st c (st.procSched c p .dead)

/-- `proc_wait` -/
inductive WaitMoves (st : ProcTable n κ) : ProcTable n κ → Prop where
  | lockWait {c : κ} {p : Fin n} (hcpu : st.cpu c = .executing p)
      (hpc : st.pc p = .waiting) (hlk : st.lk p = none) :
      WaitMoves st ((st.setLk p (some c)).setPc p (.scanning 0 false))
  | scanFind {c : κ} {p i : Fin n} {kids : Bool} (hcpu : st.cpu c = .executing p)
      (hpc : st.pc p = .scanning i kids) (hparent : st.parent i = some p) :
      WaitMoves st (st.setPc p (.scanningAt i))
  | scanPass {c : κ} {p i : Fin n} {kids : Bool} (hcpu : st.cpu c = .executing p)
      (hpc : st.pc p = .scanning i kids) (hparent : st.parent i ≠ some p) :
      WaitMoves st (st.setPc p (.scanning (i + 1) kids))
  | scanSleep {c : κ} {p : Fin n} {k : Nat} (hcpu : st.cpu c = .executing p)
      (hpc : st.pc p = .scanning k true) (hall : n ≤ k) :
      WaitMoves st
        (((st.setSleep p .itself).setState p .sleeping).procSched c p .waitAsleep)
  | scanFail {c : κ} {p : Fin n} {k : Nat} (hcpu : st.cpu c = .executing p)
      (hpc : st.pc p = .scanning k false) : WaitMoves st (st.setPc p .outside)
  | collect {c : κ} {p i : Fin n} (hcpu : st.cpu c = .executing p)
      (hpc : st.pc p = .scanningAt i) (hlk : st.lk i = none)
      (hstate : st.state i = .zombie) : WaitMoves st (st.collect c p i)
  | scanNext {c : κ} {p i : Fin n} (hcpu : st.cpu c = .executing p)
      (hpc : st.pc p = .scanningAt i) (hlk : st.lk i = none)
      (hstate : st.state i ≠ .zombie) :
      WaitMoves st (st.setPc p (.scanning (i + 1) true))
  | endFree {c : κ} {p i : Fin n} (hcpu : st.cpu c = .executing p)
      (hpc : st.pc p = .freeing i) :
      WaitMoves st ((st.setLk i none).setPc p .outside)

inductive SwitchMoves (st : ProcTable n κ) : ProcTable n κ → Prop where
  | call {c : κ} {p : Fin n} {pc : TaskPc n} (hcpu : st.cpu c = .executing p)
      (hpc : st.pc p = .outside)
      (hcall : pc = .forking ∨ pc = .waiting ∨ ∃ s, pc = .exiting s ∧ st.pid p ≠ 1) :
      SwitchMoves st (st.setPc p pc)
  | doze {c : κ} {p : Fin n} (hcpu : st.cpu c = .executing p)
      (hpc : st.pc p = .outside) (hlk : st.lk p = none) :
      SwitchMoves st ((st.setLk p (some c)).setPc p .drowsy)
  | sleep {c : κ} {p : Fin n} (hcpu : st.cpu c = .executing p)
      (hpc : st.pc p = .drowsy) :
      SwitchMoves st
        (((st.setSleep p .other).setState p .sleeping).procSched c p .asleep)
  | chooseFirst {c : κ} {i : Fin n} {k : Nat} (hcpu : st.cpu c = .choosing k none)
      (hlk : st.lk i = none) (hstate : st.state i = .runnable) :
      SwitchMoves st
        ((st.setLk i (some c)).setCpu c (.choosing (k + 1) (some i)))
  | chooseBetter {c : κ} {i q : Fin n} {k : Nat}
      (hcpu : st.cpu c = .choosing k (some q)) (hlk : st.lk i = none)
      (hstate : st.state i = .runnable) :
      SwitchMoves st
        (((st.setLk q none).setLk i (some c)).setCpu c (.choosing (k + 1) (some i)))
  | choosePass {c : κ} {k k' : Nat} {next : Option (Fin n)}
      (hcpu : st.cpu c = .choosing k next) :
      SwitchMoves st (st.setCpu c (.choosing k' next))
  | resumeWait {c : κ} {q : Fin n} {k : Nat} (hcpu : st.cpu c = .choosing k (some q))
      (hpc : st.pc q = .waitAsleep) :
      SwitchMoves st ((((st.setState q .running).setCpu c (.executing q)).setSleep q
        .null).setPc q (.scanning 0 false))
  | resumeSleep {c : κ} {q : Fin n} {k : Nat} (hcpu : st.cpu c = .choosing k (some q))
      (hpc : st.pc q = .asleep) :
      SwitchMoves st (((((st.setState q .running).setCpu c (.executing q)).setSleep q
        .null).setLk q none).setPc q .outside)
  | resumeFresh {c : κ} {q : Fin n} {k : Nat} (hcpu : st.cpu c = .choosing k (some q))
      (hpc : st.pc q = .fresh) :
      SwitchMoves st ((((st.setState q .running).setCpu c (.executing q)).setLk q
        none).setPc q .outside)
  | release {c : κ} {p : Fin n} (hcpu : st.cpu c = .switched p) :
      SwitchMoves st ((st.setLk p none).setCpu c (.choosing 0 none))
  | wake {p : Fin n} (hlk : st.lk p = none) (hstate : st.state p = .sleeping)
      (hspace : st.sleepSpace p = .other) :
      SwitchMoves st (st.setState p .runnable)

inductive Moves (proczero : Fin n) (st st' : ProcTable n κ) (op : TableOp n κ) :
    Prop where
  | fork (h : ForkMoves st st')
  | exit {c : κ} {better : Bool} (hop : op = .turn c better)
      (h : ExitMoves proczero st c st')
  | wait (h : WaitMoves st st')
  | switch (h : SwitchMoves st st')

variable {proczero p : Fin n} {st st' : ProcTable n κ} {c : κ} {op : TableOp n κ}
  {better : Bool}

theorem moves_of_call {pc : TaskPc n} (h : st.call c pc = some st')
    (hpc : pc = .forking ∨ pc = .waiting ∨
      ∃ s p, pc = .exiting s ∧ st.cpu c = .executing p ∧ st.pid p ≠ 1) :
    Moves proczero st st' op := by
  unfold call at h
  split at h
  case h_2 => cases h
  case h_1 p hcpu =>
    split at h
    case isFalse => cases h
    case isTrue houtside =>
      cases h
      refine .switch (.call hcpu houtside ?_)
      rcases hpc with hfork | hwait | ⟨s, p', hexit, hcpu', hpid⟩
      · exact Or.inl hfork
      · exact Or.inr (Or.inl hwait)
      · rw [hcpu] at hcpu'
        cases hcpu'
        exact Or.inr (Or.inr ⟨s, hexit, hpid⟩)

theorem moves_of_allocStep {pid : Int} {i : Nat} (hcpu : st.cpu c = .executing p)
    (hpc : st.pc p = .allocating pid i) (h : st.allocStep c p pid i = some st') :
    Moves proczero st st' op := by
  unfold allocStep at h
  split at h
  case isFalse => cases h
  case isTrue hi =>
    split at h
    case isFalse => cases h
    case isTrue hlk =>
      split at h
      case isTrue hstate =>
        cases h
        exact .fork (.takeSlot hcpu hpc hlk hstate)
      case isFalse =>
        cases h
        exact .fork (.passSlot hcpu hpc)

theorem moves_reparentStep {s : Int} {q : Fin n} {i : Nat}
    (hcpu : st.cpu c = .executing p) (hpc : st.pc p = .reparenting s q i) :
    Moves proczero st (st.reparentStep p s q i) (.turn c better) := by
  unfold reparentStep
  split
  case isFalse hi => exact .exit rfl (.endExit hcpu hpc (Nat.le_of_not_lt hi))
  case isTrue hi =>
    split
    case isTrue hparent => exact .exit rfl (.findChild (i := ⟨i, hi⟩) hcpu hpc hparent)
    case isFalse hparent => exact .exit rfl (.passChild (i := ⟨i, hi⟩) hcpu hpc hparent)

theorem moves_scanStep {i : Nat} {kids : Bool} (hcpu : st.cpu c = .executing p)
    (hpc : st.pc p = .scanning i kids) : Moves proczero st (st.scanStep c p i kids) op := by
  unfold scanStep
  split
  case isTrue hi =>
    split
    case isTrue hparent => exact .wait (.scanFind (i := ⟨i, hi⟩) hcpu hpc hparent)
    case isFalse hparent => exact .wait (.scanPass (i := ⟨i, hi⟩) hcpu hpc hparent)
  case isFalse hi =>
    cases kids with
    | true => exact .wait (.scanSleep hcpu hpc (Nat.le_of_not_lt hi))
    | false => exact .wait (.scanFail hcpu hpc)

theorem moves_of_proceed (hcpu : st.cpu c = .executing p)
    (h : st.proceed proczero c p = some st') : Moves proczero st st' (.turn c better) := by
  unfold proceed at h
  split at h
  case h_1 hpc =>
    split at h
    case isFalse => cases h
    case isTrue hpid =>
      cases h
      exact .fork (.takePid hcpu hpc hpid)
  case h_2 hpc => exact moves_of_allocStep hcpu hpc h
  case h_3 hpc =>
    cases h
    exact .fork (.endFork hcpu hpc)
  case h_4 hpc =>
    split at h
    case isFalse => cases h
    case isTrue hlk =>
      cases h
      exact .exit rfl (.wakeZero hcpu hpc hlk)
  case h_5 hpc =>
    split at h
    case isFalse => cases h
    case isTrue =>
      obtain ⟨q, hparent, heq⟩ := Option.map_eq_some_iff.mp h
      rw [← heq]
      exact .exit rfl (.readParent hcpu hpc hparent)
  case h_6 hpc =>
    split at h
    case isFalse => cases h
    case isTrue hlk =>
      cases h
      exact .exit rfl (.lockParent hcpu hpc hlk)
  case h_7 hpc =>
    split at h
    case isFalse => cases h
    case isTrue hlk =>
      cases h
      exact .exit rfl (.lockItself hcpu hpc hlk)
  case h_8 hpc =>
    cases h
    exact moves_reparentStep hcpu hpc
  case h_9 hpc =>
    split at h
    case isFalse => cases h
    case isTrue hlk =>
      cases h
      exact .exit rfl (.reparent hcpu hpc hlk)
  case h_10 hpc =>
    cases h
    exact .exit rfl (.die hcpu hpc)
  case h_11 hpc =>
    split at h
    case isFalse => cases h
    case isTrue hlk =>
      cases h
      exact .wait (.lockWait hcpu hpc hlk)
  case h_12 hpc =>
    cases h
    exact moves_scanStep hcpu hpc
  case h_13 hpc =>
    split at h
    case isFalse => cases h
    case isTrue hlk =>
      split at h
      case isTrue hstate =>
        cases h
        exact .wait (.collect hcpu hpc hlk hstate)
      case isFalse hstate =>
        cases h
        exact .wait (.scanNext hcpu hpc hlk hstate)
  case h_14 hpc =>
    cases h
    exact .wait (.endFree hcpu hpc)
  case h_15 hpc =>
    cases h
    exact .switch (.sleep hcpu hpc)
  all_goals cases h

theorem moves_of_chooseStep {i : Nat} {next : Option (Fin n)}
    (hcpu : st.cpu c = .choosing i next)
    (h : st.chooseStep c i next better = some st') : Moves proczero st st' op := by
  unfold chooseStep at h
  split at h
  case isTrue hi =>
    split at h
    case isFalse => cases h
    case isTrue hlk =>
      split at h
      case isFalse =>
        cases h
        exact .switch (.choosePass hcpu)
      case isTrue hbetter =>
        cases next with
        | none =>
            cases h
            exact .switch (.chooseFirst hcpu hlk hbetter.1)
        | some q =>
            cases h
            exact .switch (.chooseBetter hcpu hlk hbetter.1)
  case isFalse =>
    cases next with
    | none =>
        cases h
        exact .switch (.choosePass hcpu)
    | some q =>
        simp only [dispatch] at h
        split at h
        case h_1 hpc =>
          cases h
          exact .switch (.resumeWait hcpu hpc)
        case h_2 hpc =>
          cases h
          exact .switch (.resumeSleep hcpu hpc)
        case h_3 hpc =>
          cases h
          exact .switch (.resumeFresh hcpu hpc)
        case h_4 => cases h

theorem moves_of_step (h : st.step proczero op = some st') :
    Moves proczero st st' op := by
  cases op with
  | fork c => exact moves_of_call h (Or.inl rfl)
  | wait c => exact moves_of_call h (Or.inr (Or.inl rfl))
  | exit c s =>
      simp only [step] at h
      split at h
      case h_2 => cases h
      case h_1 p hcpu =>
        split at h
        case isFalse => cases h
        case isTrue hpid =>
          exact moves_of_call h (Or.inr (Or.inr ⟨s, p, rfl, hcpu, hpid⟩))
  | sleep c =>
      simp only [step] at h
      split at h
      case h_2 => cases h
      case h_1 p hcpu =>
        split at h
        case isFalse => cases h
        case isTrue hpc =>
          cases h
          exact .switch (.doze hcpu hpc.1 hpc.2)
  | turn c better =>
      simp only [step] at h
      split at h
      case h_1 hcpu => exact moves_of_chooseStep hcpu h
      case h_2 hcpu => exact moves_of_proceed hcpu h
      case h_3 hcpu =>
        cases h
        exact .switch (.release hcpu)
  | wake p =>
      simp only [step] at h
      split at h
      case isFalse => cases h
      case isTrue hp =>
        cases h
        exact .switch (.wake hp.1 hp.2.1 hp.2.2)

end ProcTable

end UnoOS.Kernel
