import UnoOS.Kernel.ProcLocks

namespace UnoOS.Kernel

open UnoOS.Lib

/-! As long as every child is in a later slot than its parent, the CPUs take the locks
of the processes in ascending order. -/

/-- The slots that process `p` keeps in its variables lie on the right side of it. -/
@[grind =]
def TaskPc.Rising {n : Nat} (p : Fin n) : TaskPc n → Prop
  | .building _ i => p < i
  | .lockingParent _ q => q < p
  | .lockingItself _ q => q < p
  | .reparenting _ q _ => q < p
  | .reparentingAt _ q _ => q < p
  | _ => True

namespace ProcTable

variable {n : Nat} {κ : Type}

def Explains (st : ProcTable n κ) (c : κ) (q : Fin n) : Prop :=
  match st.cpu c with
  | .choosing _ next => next = some q
  | .executing p => (st.pc p).Has p q
  | .switched p => q = p

attribute [local grind =] Explains ProcTable.endFork Function.update_apply

structure Ordered (st : ProcTable n κ) : Prop where
  explained : ∀ q c, st.lk q = some c → st.Explains c q
  chosen : ∀ c k q, st.cpu c = .choosing k (some q) → q.val < k
  children : ∀ i p, st.parent i = some p → p < i
  rising : ∀ p, (st.pc p).Rising p

theorem ordered_boot (proczero : Fin n) : (boot proczero : ProcTable n κ).Ordered := by
  constructor
  · intro q c hlk
    cases hlk
  · intro c k q hcpu
    cases hcpu
  · intro i p hparent
    cases hparent
  · intro p
    simp only [boot, Function.update_apply]
    split <;> trivial

variable {proczero p q i : Fin n} {st st' : ProcTable n κ} {c : κ} {pc : TaskPc n}

structure Advances (st : ProcTable n κ) (c : κ) (st' : ProcTable n κ) : Prop where
  ordered : st'.Ordered
  others : ∀ q d, d ≠ c → st'.lk q = some d → st.lk q = some d

theorem Ordered.advances (h : st.Ordered) (hcpus : ∀ d, d ≠ c → st'.cpu d = st.cpu d)
    (hpcs : ∀ d q, d ≠ c → st.cpu d = .executing q → st'.pc q = st.pc q)
    (hown : ∀ q, st'.lk q = some c → st'.Explains c q)
    (hothers : ∀ q d, d ≠ c → st'.lk q = some d → st.lk q = some d)
    (hchosen : ∀ k q, st'.cpu c = .choosing k (some q) → q.val < k)
    (hchildren : ∀ i p, st'.parent i = some p → p < i)
    (hrising : ∀ p, (st'.pc p).Rising p) : Advances st c st' := by
  refine ⟨⟨?_, ?_, hchildren, hrising⟩, hothers⟩
  · intro q d hlk
    rcases eq_or_ne d c with rfl | hne
    · exact hown q hlk
    · have hold := h.explained q d (hothers q d hne hlk)
      simp only [Explains, hcpus d hne] at hold ⊢
      rcases hcpu : st.cpu d with _ | r | _ <;> simp only [hcpu] at hold ⊢
      · exact hold
      · rwa [hpcs d r hne hcpu]
      · exact hold
  · intro d k q hcpu
    rcases eq_or_ne d c with rfl | hne
    · exact hchosen k q hcpu
    · rw [hcpus d hne] at hcpu
      exact h.chosen d k q hcpu

/-- A process goes on, and its locks are as its new place says. -/
theorem Ordered.goOn (h : st.Ordered) (hp : st.Placed) (hcpu : st.cpu c = .executing p)
    (hcpus : st'.cpu = st.cpu) (hpcs : st'.pc = Function.update st.pc p pc)
    (hown : ∀ q, st'.lk q = some c → pc.Has p q)
    (hothers : ∀ q d, d ≠ c → st'.lk q = some d → st.lk q = some d)
    (hchildren : ∀ i p, st'.parent i = some p → p < i) (hrising : pc.Rising p) :
    Advances st c st' := by
  have hself : st'.pc p = pc := by rw [hpcs, Function.update_self]
  refine h.advances (fun _ _ => by rw [hcpus]) ?_ ?_ hothers ?_ hchildren ?_
  · intro d q hne hd
    rw [hpcs, Function.update_of_ne]
    intro heq
    rw [heq] at hd
    exact hne (hp.alone d c p hd hcpu)
  · intro q hlk
    simp only [Explains, hcpus, hcpu, hself]
    exact hown q hlk
  · intro k q hchoosing
    rw [hcpus, hcpu] at hchoosing
    cases hchoosing
  · intro q
    rw [hpcs, Function.update_apply]
    split
    · rename_i heq
      rw [heq]
      exact hrising
    · exact h.rising q

theorem Ordered.has (h : st.Ordered) (hcpu : st.cpu c = .executing p)
    (hlk : st.lk q = some c) : (st.pc p).Has p q := by
  have hexplains := h.explained q c hlk
  simpa only [Explains, hcpu] using hexplains

theorem Ordered.holds_next {k : Nat} {next : Option (Fin n)} (h : st.Ordered)
    (hcpu : st.cpu c = .choosing k next) (hlk : st.lk q = some c) : next = some q := by
  have hexplains := h.explained q c hlk
  simpa only [Explains, hcpu] using hexplains

theorem Ordered.setPc (h : st.Ordered) (hp : st.Placed) (hcpu : st.cpu c = .executing p)
    (hcpus : st'.cpu = st.cpu) (hpcs : st'.pc = Function.update st.pc p pc)
    (hlk : st'.lk = st.lk) (hparent : st'.parent = st.parent)
    (hhas : ∀ q, (st.pc p).Has p q → pc.Has p q) (hrising : pc.Rising p) :
    Advances st c st' := by
  apply h.goOn hp hcpu hcpus hpcs
  · intro q hq
    rw [hlk] at hq
    exact hhas q (h.has hcpu hq)
  · intro q d _ hd
    rwa [hlk] at hd
  · rw [hparent]
    exact h.children
  · exact hrising

theorem Ordered.acquire (h : st.Ordered) (hp : st.Placed) (hcpu : st.cpu c = .executing p)
    (hcpus : st'.cpu = st.cpu) (hpcs : st'.pc = Function.update st.pc p pc)
    (hlk : st'.lk = Function.update st.lk i (some c)) (hparent : st'.parent = st.parent)
    (hhas : ∀ q, (st.pc p).Has p q → pc.Has p q) (hnew : pc.Has p i)
    (hrising : pc.Rising p) : Advances st c st' := by
  apply h.goOn hp hcpu hcpus hpcs
  · intro q hq
    rw [hlk, Function.update_apply] at hq
    split at hq
    · rename_i heq
      rw [heq]
      exact hnew
    · exact hhas q (h.has hcpu hq)
  · intro q d hne hd
    rw [hlk, Function.update_apply] at hd
    split at hd
    · cases hd
      exact absurd rfl hne
    · exact hd
  · rw [hparent]
    exact h.children
  · exact hrising

theorem Ordered.endFork {pid : Int} (h : st.Ordered) (hp : st.Placed)
    (hcpu : st.cpu c = .executing p) (hpc : st.pc p = .building pid i) :
    Advances st c (st.endFork p i) := by
  obtain ⟨hunused, _⟩ := hp.built p pid i hpc
  have hdead := hp.unused i hunused
  have hrising : p < i := by
    have hrising := h.rising p
    rwa [hpc] at hrising
  have hhas : ∀ q, st.lk q = some c → q = i := by
    intro q hlk
    have hhas := h.has hcpu hlk
    rwa [hpc] at hhas
  have hsingle := hp.alone
  have hexecuting := hp.executing
  have hchildren := h.children
  have hrisings := h.rising
  refine h.advances ?_ ?_ ?_ ?_ ?_ ?_ ?_ <;>
    grind -linarith

theorem Ordered.release (h : st.Ordered) (hp : st.Placed) (hcpu : st.cpu c = .executing p)
    (hcpus : st'.cpu = st.cpu) (hpcs : st'.pc = Function.update st.pc p pc)
    (hlk : st'.lk = Function.update st.lk i none) (hparent : st'.parent = st.parent)
    (hhas : ∀ q, (st.pc p).Has p q → q ≠ i → pc.Has p q) (hrising : pc.Rising p) :
    Advances st c st' := by
  apply h.goOn hp hcpu hcpus hpcs
  · intro q hq
    rw [hlk, Function.update_apply] at hq
    split at hq
    · cases hq
    · exact hhas q (h.has hcpu hq) ‹_›
  · intro q d _ hd
    rw [hlk, Function.update_apply] at hd
    split at hd
    · cases hd
    · exact hd
  · rw [hparent]
    exact h.children
  · exact hrising

@[simp]
theorem wakeupOne_lk (st : ProcTable n κ) (p : Fin n) : (st.wakeupOne p).lk = st.lk := by
  unfold ProcTable.wakeupOne
  split <;> rfl

@[simp]
theorem wakeupOne_parent (st : ProcTable n κ) (p : Fin n) :
    (st.wakeupOne p).parent = st.parent := by
  unfold ProcTable.wakeupOne
  split <;> rfl

theorem Ordered.endExit {s : Int} {k : Nat} (h : st.Ordered) (hp : st.Placed)
    (hcpu : st.cpu c = .executing p) (hpc : st.pc p = .reparenting s q k) :
    Advances st c (st.endExit p s q) := by
  have hpcs : (st.endExit p s q).pc = Function.update st.pc p .dying := by
    simp [ProcTable.endExit, ProcTable.setPc, setLk, setState]
  have hlk : (st.endExit p s q).lk = Function.update st.lk q none := by
    simp [ProcTable.endExit, ProcTable.setPc, setLk, setState]
  refine h.release hp hcpu ?_ hpcs hlk ?_ ?_ trivial
  · simp [ProcTable.endExit, ProcTable.setPc, setLk, setState]
  · simp [ProcTable.endExit, ProcTable.setPc, setLk, setState]
  · rw [hpc]
    intro r hr hne
    exact hr.resolve_left hne

theorem Ordered.collect (h : st.Ordered) (hp : st.Placed) (hcpu : st.cpu c = .executing p)
    (hpc : st.pc p = .scanningAt i) : Advances st c (st.collect c p i) := by
  have hhas : ∀ q, st.lk q = some c → q = p := by
    intro q hlk
    have hhas := h.has hcpu hlk
    rwa [hpc] at hhas
  have hchildren := h.children
  simp only [ProcTable.collect]
  refine h.goOn hp hcpu rfl rfl ?_ ?_ ?_ trivial <;> grind -linarith

def takes (st : ProcTable n κ) (c : κ) : Option (Fin n × Fin n) :=
  match st.cpu c with
  | .executing p =>
      match st.pc p with
      | .allocating _ i =>
          if h : i < n then
            if st.lk ⟨i, h⟩ = none ∧ st.state ⟨i, h⟩ = .unused then some (p, ⟨i, h⟩)
            else none
          else none
      | _ => none
  | _ => none

/-- `proc_wait` has found no child. -/
def childless (st : ProcTable n κ) (c : κ) : Bool :=
  match st.cpu c with
  | .executing p =>
      match st.pc p with
      | .scanning i kids => decide (n ≤ i) && !kids
      | _ => false
  | _ => false

theorem Ordered.allocStep {pid : Int} {k : Nat} (h : st.Ordered) (hp : st.Placed)
    (hcpu : st.cpu c = .executing p) (hpc : st.pc p = .allocating pid k)
    (habove : ∀ pair ∈ st.takes c, pair.1 < pair.2)
    (hstep : st.allocStep c p pid k = some st') : Advances st c st' := by
  simp only [ProcTable.allocStep, Option.dite_none_right_eq_some,
    Option.ite_none_right_eq_some] at hstep
  obtain ⟨hk, hlk, hstep⟩ := hstep
  split at hstep
  · rename_i hstate
    cases hstep
    refine h.acquire hp hcpu rfl rfl rfl rfl ?_ rfl ?_
    · rw [hpc]
      intro q hq
      exact absurd hq (by simp [TaskPc.Has])
    · apply habove (p, ⟨k, hk⟩)
      simp [takes, hcpu, hpc, hk, hlk, hstate]
  · cases hstep
    refine h.setPc hp hcpu rfl rfl rfl rfl ?_ trivial
    rw [hpc]
    exact fun q hq => hq

theorem Ordered.reparentStep {s : Int} {k : Nat} (h : st.Ordered) (hp : st.Placed)
    (hcpu : st.cpu c = .executing p) (hpc : st.pc p = .reparenting s q k) :
    Advances st c (st.reparentStep p s q k) := by
  have hrising : q < p := by
    have hrising := h.rising p
    rwa [hpc] at hrising
  simp only [ProcTable.reparentStep]
  split
  · split
    · refine h.setPc hp hcpu rfl rfl rfl rfl ?_ hrising
      rw [hpc]
      exact fun r hr => hr
    · refine h.setPc hp hcpu rfl rfl rfl rfl ?_ hrising
      rw [hpc]
      exact fun r hr => hr
  · exact h.endExit hp hcpu hpc

theorem Ordered.call (h : st.Ordered) (hp : st.Placed) (hrising : ∀ p, pc.Rising p)
    (hstep : st.call c pc = some st') : Advances st c st' := by
  simp only [ProcTable.call] at hstep
  split at hstep
  · rename_i p hcpu
    simp only [Option.ite_none_right_eq_some, Option.some.injEq] at hstep
    obtain ⟨hpc, rfl⟩ := hstep
    refine h.setPc hp hcpu rfl rfl rfl rfl ?_ (hrising p)
    rw [hpc]
    exact fun r hr => absurd hr (by simp [TaskPc.Has])
  · cases hstep

theorem Ordered.wakeZero {s : Int} (h : st.Ordered) (hp : st.Placed)
    (hcpu : st.cpu c = .executing p) (hpc : st.pc p = .exiting s) :
    Advances st c ((st.wakeupOne proczero).setPc p (.orphaning s)) := by
  have hpcs : ((st.wakeupOne proczero).setPc p (.orphaning s)).pc =
      Function.update st.pc p (.orphaning s) := by
    simp [ProcTable.setPc]
  refine h.setPc hp hcpu (wakeupOne_cpu st proczero) hpcs (wakeupOne_lk st proczero)
    (wakeupOne_parent st proczero) ?_ trivial
  rw [hpc]
  exact fun r hr => hr

theorem Ordered.reparent {s : Int} (h : st.Ordered) (hp : st.Placed)
    (hzero : proczero.val = 0) (hcpu : st.cpu c = .executing p)
    (hpc : st.pc p = .reparentingAt s q i) :
    Advances st c
      ((st.setParent i (some proczero)).setPc p (.reparenting s q (i + 1))) := by
  have hrising : q < p := by
    have hrising := h.rising p
    rwa [hpc] at hrising
  have hlater : p < i := h.children i p (hp.reparented p s q i hpc)
  have hchildren := h.children
  refine h.goOn hp hcpu rfl rfl ?_ ?_ ?_ hrising
  · intro r hr
    have hhas := h.has hcpu hr
    rwa [hpc] at hhas
  · exact fun r d _ hd => hd
  · intro j r hj
    simp only [ProcTable.setPc, setParent, Function.update_apply] at hj
    split at hj
    · cases hj
      rename_i heq
      rw [heq, Fin.lt_def]
      omega
    · exact hchildren j r hj

variable [DecidableEq κ]

/-- It gives up the CPU with no lock but its own. -/
theorem Ordered.procSched (h : st.Ordered) (hp : st.Placed)
    (hcpu : st.cpu c = .executing p) (hcpus : st'.cpu = Function.update st.cpu c (.switched p))
    (hpcs : st'.pc = Function.update st.pc p pc) (hlk : st'.lk = st.lk)
    (hparent : st'.parent = st.parent) (hhas : ∀ q, (st.pc p).Has p q → q = p)
    (hrising : pc.Rising p) : Advances st c st' := by
  refine h.advances ?_ ?_ ?_ ?_ ?_ ?_ ?_
  · intro d hne
    rw [hcpus, Function.update_of_ne hne]
  · intro d q hne hd
    rw [hpcs, Function.update_of_ne]
    intro heq
    rw [heq] at hd
    exact hne (hp.alone d c p hd hcpu)
  · intro q hq
    rw [hlk] at hq
    simp only [Explains, hcpus, Function.update_self]
    exact hhas q (h.has hcpu hq)
  · intro q d _ hd
    rwa [hlk] at hd
  · intro k q hchoosing
    rw [hcpus, Function.update_self] at hchoosing
    cases hchoosing
  · rw [hparent]
    exact h.children
  · intro q
    rw [hpcs, Function.update_apply]
    split
    · rename_i heq
      rw [heq]
      exact hrising
    · exact h.rising q

theorem Ordered.scanStep {k : Nat} {kids : Bool} (h : st.Ordered) (hp : st.Placed)
    (hcpu : st.cpu c = .executing p) (hpc : st.pc p = .scanning k kids)
    (hkids : st.childless c = false) : Advances st c (st.scanStep c p k kids) := by
  have hhas : ∀ r, (st.pc p).Has p r → r = p := by
    rw [hpc]
    exact fun r hr => hr
  simp only [ProcTable.scanStep]
  split
  · split
    · exact h.setPc hp hcpu rfl rfl rfl rfl hhas trivial
    · exact h.setPc hp hcpu rfl rfl rfl rfl hhas trivial
  · rename_i hk
    have hkids : kids = true := by
      simpa [childless, hcpu, hpc, Nat.not_lt.mp hk] using hkids
    rw [if_pos hkids]
    exact h.procSched hp hcpu rfl rfl rfl rfl hhas trivial

theorem Ordered.proceed (h : st.Ordered) (hp : st.Placed) (hzero : proczero.val = 0)
    (hcpu : st.cpu c = .executing p) (habove : ∀ pair ∈ st.takes c, pair.1 < pair.2)
    (hkids : st.childless c = false) (hstep : st.proceed proczero c p = some st') :
    Advances st c st' := by
  have hrising := h.rising p
  simp only [ProcTable.proceed] at hstep
  cases hpc : st.pc p with
  | forking =>
      simp only [hpc, Option.ite_none_right_eq_some, Option.some.injEq] at hstep
      obtain ⟨_, rfl⟩ := hstep
      refine h.setPc hp hcpu rfl rfl rfl rfl ?_ trivial
      rw [hpc]
      exact fun r hr => hr
  | allocating pid k =>
      simp only [hpc] at hstep
      exact h.allocStep hp hcpu hpc habove hstep
  | building pid i =>
      simp only [hpc, Option.some.injEq] at hstep
      rw [← hstep]
      exact h.endFork hp hcpu hpc
  | exiting s =>
      simp only [hpc, Option.ite_none_right_eq_some, Option.some.injEq] at hstep
      obtain ⟨_, rfl⟩ := hstep
      exact h.wakeZero hp hcpu hpc
  | orphaning s =>
      simp only [hpc, Option.ite_none_right_eq_some, Option.map_eq_some_iff] at hstep
      obtain ⟨_, q, hparent, rfl⟩ := hstep
      refine h.setPc hp hcpu rfl rfl rfl rfl ?_ (h.children p q hparent)
      rw [hpc]
      exact fun r hr => hr
  | lockingParent s q =>
      simp only [hpc, Option.ite_none_right_eq_some, Option.some.injEq] at hstep
      obtain ⟨_, rfl⟩ := hstep
      rw [hpc] at hrising
      refine h.acquire hp hcpu rfl rfl rfl rfl ?_ rfl hrising
      rw [hpc]
      exact fun r hr => absurd hr (by simp [TaskPc.Has])
  | lockingItself s q =>
      simp only [hpc, Option.ite_none_right_eq_some, Option.some.injEq] at hstep
      obtain ⟨_, rfl⟩ := hstep
      rw [hpc] at hrising
      refine h.acquire hp hcpu rfl rfl rfl rfl ?_ (Or.inr rfl) hrising
      rw [hpc]
      exact fun r hr => Or.inl hr
  | reparenting s q k =>
      simp only [hpc, Option.some.injEq] at hstep
      rw [← hstep]
      exact h.reparentStep hp hcpu hpc
  | reparentingAt s q i =>
      simp only [hpc, Option.ite_none_right_eq_some, Option.some.injEq] at hstep
      obtain ⟨_, rfl⟩ := hstep
      exact h.reparent hp hzero hcpu hpc
  | dying =>
      simp only [hpc, Option.some.injEq] at hstep
      rw [← hstep]
      refine h.procSched hp hcpu rfl rfl rfl rfl ?_ trivial
      rw [hpc]
      exact fun r hr => hr
  | waiting =>
      simp only [hpc, Option.ite_none_right_eq_some, Option.some.injEq] at hstep
      obtain ⟨_, rfl⟩ := hstep
      refine h.acquire hp hcpu rfl rfl rfl rfl ?_ rfl trivial
      rw [hpc]
      exact fun r hr => absurd hr (by simp [TaskPc.Has])
  | scanning k kids =>
      simp only [hpc, Option.some.injEq] at hstep
      rw [← hstep]
      exact h.scanStep hp hcpu hpc hkids
  | scanningAt i =>
      simp only [hpc, Option.ite_none_right_eq_some] at hstep
      obtain ⟨_, hstep⟩ := hstep
      split at hstep
      · cases hstep
        exact h.collect hp hcpu hpc
      · cases hstep
        refine h.setPc hp hcpu rfl rfl rfl rfl ?_ trivial
        rw [hpc]
        exact fun r hr => hr
  | freeing i =>
      simp only [hpc, Option.some.injEq] at hstep
      rw [← hstep]
      refine h.release hp hcpu rfl rfl rfl rfl ?_ trivial
      rw [hpc]
      exact fun r hr hne => absurd hr hne
  | drowsy =>
      simp only [hpc, Option.some.injEq] at hstep
      rw [← hstep]
      refine h.procSched hp hcpu rfl rfl rfl rfl ?_ trivial
      rw [hpc]
      exact fun r hr => hr
  | _ => simp [hpc] at hstep

/-- A scheduler goes on, or goes on to a process that it has chosen. -/
theorem Ordered.schedule {new : CpuPc n} (h : st.Ordered) (hp : st.Placed)
    (hcpus : st'.cpu = Function.update st.cpu c new)
    (hpcs : ∀ r, st'.pc r = st.pc r ∨ st.state r = .runnable ∧ (st'.pc r).Rising r)
    (hown : ∀ r, st'.lk r = some c → st'.Explains c r)
    (hothers : ∀ r d, d ≠ c → st'.lk r = some d → st.lk r = some d)
    (hchosen : ∀ k r, new = .choosing k (some r) → r.val < k)
    (hparent : st'.parent = st.parent) : Advances st c st' := by
  refine h.advances ?_ ?_ hown hothers ?_ ?_ ?_
  · intro d hne
    rw [hcpus, Function.update_of_ne hne]
  · intro d r hne hd
    rcases hpcs r with hsame | ⟨hstate, _⟩
    · exact hsame
    · have hrunnable := hp.runnable r hstate
      have hexecuting := hp.executing d r hd
      grind
  · intro k r hchoosing
    rw [hcpus, Function.update_self] at hchoosing
    exact hchosen k r hchoosing
  · rw [hparent]
    exact h.children
  · intro r
    rcases hpcs r with hsame | ⟨_, hrising⟩
    · rw [hsame]
      exact h.rising r
    · exact hrising

theorem Ordered.dispatch {k : Nat} (h : st.Ordered) (hp : st.Placed)
    (hcpu : st.cpu c = .choosing k (some q)) (hstep : st.dispatch c q = some st') :
    Advances st c st' := by
  have hnext : ∀ r, st.lk r = some c → q = r :=
    fun r hr => Option.some.inj (h.holds_next hcpu hr)
  have hstate := (hp.chosen c k q hcpu).2
  have hpcs : ∀ pc : TaskPc n, pc.Rising q → ∀ r,
      Function.update st.pc q pc r = st.pc r ∨
        st.state r = .runnable ∧ (Function.update st.pc q pc r).Rising r := by
    intro pc hrising r
    rw [Function.update_apply]
    split
    · rename_i heq
      rw [heq]
      exact Or.inr ⟨hstate, hrising⟩
    · exact Or.inl rfl
  simp only [ProcTable.dispatch] at hstep
  split at hstep
  · cases hstep
    refine h.schedule hp rfl (hpcs (.scanning 0 false) trivial) ?_ ?_ (by grind) rfl <;>
      grind -linarith
  · cases hstep
    refine h.schedule hp rfl (hpcs .outside trivial) ?_ ?_ (by grind) rfl <;>
      grind -linarith
  · cases hstep
    refine h.schedule hp rfl (hpcs .outside trivial) ?_ ?_ (by grind) rfl <;>
      grind -linarith
  · cases hstep

theorem Ordered.chooseStep {k : Nat} {next : Option (Fin n)} {better : Bool}
    (h : st.Ordered) (hp : st.Placed) (hcpu : st.cpu c = .choosing k next)
    (hstep : st.chooseStep c k next better = some st') : Advances st c st' := by
  have hnext : ∀ q, st.lk q = some c → next = some q := fun q => h.holds_next hcpu
  have hbelow := h.chosen c k
  simp only [ProcTable.chooseStep] at hstep
  split at hstep
  · rename_i hk
    simp only [Option.ite_none_right_eq_some] at hstep
    obtain ⟨hlk, hstep⟩ := hstep
    split at hstep
    · -- the process is kept, and the one kept before is released
      cases next with
      | none =>
          cases hstep
          refine h.schedule hp rfl (fun _ => Or.inl rfl) ?_ ?_ (by grind) rfl <;>
            grind -linarith
      | some q =>
          cases hstep
          refine h.schedule hp rfl (fun _ => Or.inl rfl) ?_ ?_ (by grind) rfl <;>
            grind -linarith
    · cases hstep
      refine h.schedule hp rfl (fun _ => Or.inl rfl) ?_ ?_ (by grind) rfl <;>
        grind -linarith
  · cases next with
    | none =>
        cases hstep
        refine h.schedule hp rfl (fun _ => Or.inl rfl) ?_ ?_ (by grind) rfl <;>
          grind -linarith
    | some q => exact h.dispatch hp hcpu hstep

theorem Ordered.turn {better : Bool} (h : st.Ordered) (hp : st.Placed)
    (hzero : proczero.val = 0) (habove : ∀ pair ∈ st.takes c, pair.1 < pair.2)
    (hkids : st.childless c = false)
    (hstep : st.step proczero (.turn c better) = some st') : Advances st c st' := by
  simp only [ProcTable.step] at hstep
  split at hstep
  · exact h.chooseStep hp ‹_› hstep
  · exact h.proceed hp hzero ‹_› habove hkids hstep
  · cases hstep
    rename_i p hcpu
    have hown : ∀ r, st.lk r = some c → r = p := by
      intro r hr
      have hexplains := h.explained r c hr
      simpa only [Explains, hcpu] using hexplains
    refine h.schedule hp rfl (fun _ => Or.inl rfl) ?_ ?_ (by grind) rfl <;>
      grind -linarith

theorem Ordered.doze (h : st.Ordered) (hp : st.Placed)
    (hstep : st.step proczero (.sleep c) = some st') : Advances st c st' := by
  simp only [ProcTable.step] at hstep
  split at hstep
  · rename_i p hcpu
    simp only [Option.ite_none_right_eq_some, Option.some.injEq] at hstep
    obtain ⟨⟨hpc, _⟩, rfl⟩ := hstep
    refine h.acquire hp hcpu rfl rfl rfl rfl ?_ rfl trivial
    rw [hpc]
    exact fun r hr => absurd hr (by simp [TaskPc.Has])
  · cases hstep

theorem Ordered.exit {s : Int} (h : st.Ordered) (hp : st.Placed)
    (hstep : st.step proczero (.exit c s) = some st') : Advances st c st' := by
  simp only [ProcTable.step] at hstep
  split at hstep
  · simp only [Option.ite_none_right_eq_some] at hstep
    refine h.call hp ?_ hstep.2
    exact fun _ => trivial
  · cases hstep

omit [DecidableEq κ] in
/-- A CPU wants only locks of later processes than those that it has. -/
theorem Ordered.ascends {j : Fin n} (h : st.Ordered) (hp : st.Placed)
    (hlk : st.lk j = some c) (hwants : st.wants proczero c = some i) : j < i := by
  have hexplains := h.explained j c hlk
  simp only [Explains] at hexplains
  simp only [ProcTable.wants] at hwants
  split at hwants
  · rename_i k next hcpu
    simp only [hcpu] at hexplains
    simp only [Option.dite_none_right_eq_some, Option.some.injEq] at hwants
    obtain ⟨hk, rfl⟩ := hwants
    rw [hexplains] at hcpu
    exact h.chosen c k j hcpu
  · rename_i p hcpu
    simp only [hcpu] at hexplains
    have hrising := h.rising p
    cases hpc : st.pc p with
    | lockingItself s q =>
        simp only [hpc] at hexplains hrising hwants
        cases hwants
        have hj : j = q := hexplains
        rw [hj]
        exact hrising
    | reparentingAt s q k =>
        simp only [hpc] at hexplains hrising hwants
        cases hwants
        have hlater : p < i := h.children i p (hp.reparented p s q i hpc)
        rcases hexplains with hj | hj
        · rw [hj]
          exact lt_trans hrising hlater
        · rw [hj]
          exact hlater
    | scanningAt k =>
        simp only [hpc] at hexplains hwants
        cases hwants
        have hj : j = p := hexplains
        rw [hj]
        exact h.children i p (hp.scanned p i hpc)
    | _ =>
        -- either it has no lock here or it wants none
        simp only [hpc] at hexplains hwants
        first
          | exact (show False from hexplains).elim
          | cases hwants
  · cases hwants

end ProcTable

namespace LockTable

variable {n : Nat} {κ : Type} {proczero : Fin n} {s s' : LockTable n κ} {c d : κ}

structure Disciplined (s : LockTable n κ) : Prop where
  placed : s.table.Placed
  ordered : s.table.Ordered
  waking : ∀ c i, s.waking c = some i → ∀ q, s.table.lk q ≠ some c

theorem disciplined_boot (proczero : Fin n) : (boot proczero : LockTable n κ).Disciplined where
  placed := ProcTable.placed_boot proczero
  ordered := ProcTable.ordered_boot proczero
  waking := by
    intro c i hwaking
    cases hwaking

theorem Disciplined.ascends {i j : Fin n} (h : s.Disciplined)
    (hlk : s.table.lk j = some c) (hwants : s.wants proczero c = some i) : j < i := by
  simp only [LockTable.wants] at hwants
  split at hwants
  · exact absurd hlk (h.waking c _ ‹_› j)
  · exact h.ordered.ascends h.placed hlk hwants

/-- Along a chain of CPUs that wait for each other, the locks ascend. -/
theorem Disciplined.chain {i j : Fin n} (h : s.Disciplined)
    (hchain : Relation.TransGen (s.Awaits proczero) c d) (hfirst : s.wants proczero c = some i)
    (hlast : s.wants proczero d = some j) : i < j := by
  induction hchain generalizing j with
  | single hawaits =>
      obtain ⟨q, hwants, hlk⟩ := hawaits
      rw [hfirst] at hwants
      cases hwants
      exact h.ascends hlk hlast
  | tail _ hawaits ih =>
      obtain ⟨q, hwants, hlk⟩ := hawaits
      exact lt_trans (ih hwants) (h.ascends hlk hlast)

theorem Disciplined.acyclic (h : s.Disciplined) (proczero : Fin n) (c : κ) :
    ¬ Relation.TransGen (s.Awaits proczero) c c := by
  intro hcycle
  obtain ⟨d, ⟨q, hwants, _⟩, _⟩ := Relation.TransGen.head'_iff.mp hcycle
  exact lt_irrefl q (h.chain hcycle hwants hwants)

/-- A process in none of the modelled functions has no lock. -/
theorem Disciplined.free_of_mayWake (h : s.Disciplined) (hmay : s.MayWake c) (q : Fin n) :
    s.table.lk q ≠ some c := by
  rcases hmay with helse | hfree
  · intro hlk
    simp only [elsewhere] at helse
    split at helse
    · rename_i p hcpu
      have hpc : s.table.pc p = .outside := by simpa using helse
      have hhas := h.ordered.has hcpu hlk
      simp [hpc, TaskPc.Has] at hhas
    · cases helse
  · exact hfree q

variable [DecidableEq κ]

/-- A step that takes no slot below that of the parent, does not return from
`proc_wait` without children, and does not close files in it that others wait for. -/
def Orderly (s : LockTable n κ) : LockOp n κ → Prop
  | .turn c _ =>
      (∀ pair ∈ s.table.takes c, pair.1 < pair.2) ∧ s.table.childless c = false
  | .closing _ => False
  | _ => True

instance (s : LockTable n κ) (op : LockOp n κ) : Decidable (s.Orderly op) := by
  cases op <;> simp only [Orderly] <;> infer_instance

theorem Disciplined.lift {op : TableOp n κ} (h : s.Disciplined)
    (hadvances : ∀ table, s.table.step proczero op = some table →
      ProcTable.Advances s.table c table)
    (hstep : s.lift proczero c op = some s') : s'.Disciplined := by
  simp only [LockTable.lift, Option.ite_none_right_eq_some, Option.map_eq_some_iff] at hstep
  obtain ⟨hwaking, table, htable, rfl⟩ := hstep
  obtain ⟨hordered, hothers⟩ := hadvances table htable
  refine ⟨h.placed.step htable, hordered, ?_⟩
  intro d i hd q hlk
  have hne : d ≠ c := by
    intro heq
    rw [heq, hwaking] at hd
    cases hd
  exact h.waking d i hd q (hothers q d hne hlk)

theorem Disciplined.setWaking {w : Option Nat} (h : s.Disciplined)
    (hnone : ∀ q, s.table.lk q ≠ some c) :
    Disciplined { s with waking := Function.update s.waking c w } := by
  refine ⟨h.placed, h.ordered, ?_⟩
  intro d j hd
  simp only [Function.update_apply] at hd
  split at hd
  · rename_i heq
    rw [heq]
    exact hnone
  · exact h.waking d j hd

theorem Disciplined.wakeupStep {i : Nat} (h : s.Disciplined)
    (hwaking : s.waking c = some i) (hstep : s.wakeupStep c i = some s') :
    s'.Disciplined := by
  have hnone := h.waking c i hwaking
  simp only [LockTable.wakeupStep] at hstep
  split at hstep
  · rename_i hi
    simp only [Option.ite_none_right_eq_some, Option.some.injEq] at hstep
    obtain ⟨hlk, rfl⟩ := hstep
    by_cases hasleep : s.table.state ⟨i, hi⟩ = .sleeping ∧
        s.table.sleepSpace ⟨i, hi⟩ = .other
    · have hwake : s.table.step ⟨i, hi⟩ (.wake ⟨i, hi⟩) =
          some (s.table.setState ⟨i, hi⟩ .runnable) := by
        simp [ProcTable.step, hlk, hasleep]
      have hwoken : Disciplined { s with table := s.table.setState ⟨i, hi⟩ .runnable } :=
        ⟨h.placed.step hwake, { h.ordered with }, h.waking⟩
      rw [if_pos hasleep]
      exact hwoken.setWaking hnone
    · rw [if_neg hasleep]
      exact h.setWaking hnone
  · cases hstep
    exact h.setWaking hnone

theorem Disciplined.step {op : LockOp n κ} (h : s.Disciplined) (hzero : proczero.val = 0)
    (horderly : s.Orderly op) (hstep : s.step proczero op = some s') : s'.Disciplined := by
  cases op with
  | fork c =>
      refine h.lift (c := c) ?_ hstep
      intro table htable
      refine h.ordered.call h.placed ?_ htable
      exact fun _ => trivial
  | exit c status =>
      refine h.lift (c := c) ?_ hstep
      exact fun table htable => h.ordered.exit h.placed htable
  | wait c =>
      refine h.lift (c := c) ?_ hstep
      intro table htable
      refine h.ordered.call h.placed ?_ htable
      exact fun _ => trivial
  | sleep c =>
      refine h.lift (c := c) ?_ hstep
      exact fun table htable => h.ordered.doze h.placed htable
  | turn c better =>
      refine h.lift (c := c) ?_ hstep
      intro table htable
      exact h.ordered.turn h.placed hzero horderly.1 horderly.2 htable
  | wakeup c =>
      simp only [LockTable.step, Option.ite_none_right_eq_some, Option.some.injEq] at hstep
      obtain ⟨⟨_, hmay⟩, rfl⟩ := hstep
      exact h.setWaking (h.free_of_mayWake hmay)
  | wakeupTurn c =>
      simp only [LockTable.step] at hstep
      split at hstep
      · exact h.wakeupStep ‹_› hstep
      · cases hstep
  | closing c => exact absurd horderly id

theorem no_cycle_of_orderly {s : LockTable (n + 1) κ} (ops : List (LockOp (n + 1) κ))
    (horderly : Along (LockTable.step 0) Orderly (boot 0) ops)
    (hrun : run (LockTable.step 0) (boot 0) ops = some s) (c : κ) :
    ¬ Relation.TransGen (s.Awaits 0) c c := by
  have h : s.Disciplined := run_invariant
    (fun _ _ _ h hop hstep => h.step rfl hop hstep) (disciplined_boot 0) horderly hrun
  exact h.acyclic 0 c

def turns (k : Nat) (c : κ) (better : Bool) : List (LockOp n κ) :=
  List.replicate k (.turn c better)

/-- The first process forks on CPU 0 and waits; the scheduler of CPU 1 has chosen the
child. -/
def waitForChosen : List (LockOp 2 Bool) :=
  List.flatten [turns 3 false true, [.fork false], turns 4 false true,
    [.turn true false, .turn true true], [.wait false], turns 3 false true]

theorem no_cycle_waitForChosen :
    ∃ s : LockTable 2 Bool, run (step 0) (boot 0) waitForChosen = some s ∧
      s.Awaits 0 false true ∧ ¬ Relation.TransGen (s.Awaits 0) false false := by
  have hrun : (run (LockTable.step 0) (boot 0) waitForChosen).map
      (fun s => (s.wants 0 false, s.table.lk 1)) = some (some 1, some true) := by
    decide +kernel
  obtain ⟨s, hs, hlocks⟩ := Option.map_eq_some_iff.mp hrun
  obtain ⟨hwants, hlk⟩ := Prod.mk.injEq .. ▸ hlocks
  refine ⟨s, hs, ⟨1, hwants, hlk⟩, ?_⟩
  exact no_cycle_of_orderly waitForChosen (by decide +kernel) hs false

/-- On CPU 1 the first process forks twice.  On CPU 0 its child 1 exits, and after that
has been reaped child 2 forks into the same slot and waits.  The scheduler of CPU 1
chooses the new process and goes on to child 2. -/
def childBelowParent : List (LockOp 64 Bool) :=
  List.flatten [turns 65 true true, [.fork true], turns 4 true true, [.fork true],
    turns 5 true true, turns 1 false false, turns 1 false true, turns 63 false false,
    [.exit false 0], turns 71 false false, [.wait true], turns 5 true true,
    turns 65 false true, [.sleep true], turns 2 true true, [.fork false],
    turns 4 false true, [.wait false], turns 3 false true, turns 2 true true]

theorem wait_scheduler_cycle :
    ∃ s : LockTable 64 Bool, run (step 0) (boot 0) childBelowParent = some s ∧
      Relation.TransGen (s.Awaits 0) false false := by
  have hrun : (run (LockTable.step 0) (boot 0) childBelowParent).map
      (fun s => (s.wants 0 false, s.table.lk 1, s.wants 0 true, s.table.lk 2)) =
        some (some 1, some true, some 2, some false) := by
    decide +kernel
  obtain ⟨s, hs, hlocks⟩ := Option.map_eq_some_iff.mp hrun
  simp only [Prod.mk.injEq] at hlocks
  obtain ⟨hfalse, htaken, htrue, hown⟩ := hlocks
  have hawaits : s.Awaits 0 false true := ⟨1, hfalse, htaken⟩
  exact ⟨s, hs, .tail (.single hawaits) ⟨2, htrue, hown⟩⟩

end LockTable

end UnoOS.Kernel
