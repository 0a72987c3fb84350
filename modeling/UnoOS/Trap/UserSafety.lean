import UnoOS.Trap.UserSystem

namespace UnoOS.Trap

open UnoOS.Lib
open UnoOS.Lib.Straight
open UnoOS.Kernel (ProcId)
open UnoOS.Mem
open UnoOS.Uvm
open UnoOS.Uvm.UvmState

/-! The registers of processes are their own: what `uvm.c`, `proc.c` and `exec.c` do to
memory never gets between a trap frame and the process that has it. -/

variable {st st' : UvmState} {p q : ProcId} {seat : Seat} {owner : Option ProcId}

theorem seats_of_used (hp : st.Used p) :
    seats st p = some ⟨(st.procs p).tf, (st.procs p).pgtbl, kstackOf p⟩ := if_pos hp

theorem seats_eq_some :
    seats st p = some seat ↔
      st.Used p ∧ ⟨(st.procs p).tf, (st.procs p).pgtbl, kstackOf p⟩ = seat := by
  unfold seats
  rw [Option.ite_none_right_eq_some, Option.some_inj]

/-! Processes that are kept apart have their frames where the trap code looks for them. -/

theorem permits_frame (tf : UInt64) (access : Access) :
    permits access (paToPte tf ||| (pteW ||| pteR) ||| pteV) = true := by
  have huser : (paToPte tf ||| (pteW ||| pteR) ||| pteV) &&& pteU = 0 :=
    hiddenEntry (by decide) (by decide) (by decide) (by decide)
  have hread : (paToPte tf ||| (pteW ||| pteR) ||| pteV) &&& pteR = pteR := by
    rw [or_and_of_disjoint (by decide), entry_and (by decide) (by decide)]
    decide
  have hwrite : (paToPte tf ||| (pteW ||| pteR) ||| pteV) &&& pteW = pteW := by
    rw [or_and_of_disjoint (by decide), entry_and (by decide) (by decide)]
    decide
  unfold permits
  rw [huser]
  cases access with
  | load =>
      dsimp only
      rw [hread]
      decide
  | store =>
      dsimp only
      rw [hwrite]
      decide

/-- `satp` has room for the addresses of tables. -/
def Addressable (st : UvmState) : Prop := st.mem.kernRegion.end_.toNat ≤ 2 ^ 56

theorem living_installed (h : st.Living) (hlow : Addressable st) (hp : st.Used p) :
    Installed st.mem.mem ⟨(st.procs p).tf, (st.procs p).pgtbl, kstackOf p⟩ := by
  obtain ⟨lk, lu, hspaces⟩ := h.kept.isolated.spaces
  have hsub := Set.singleton_subset_iff.mpr (mem_roots hp)
  have hin := hspaces.frames.held_in _ (.inl (mem_trapframes hp))
  have hend := UInt64.lt_iff_toNat_lt.mp (h.table p hp).2.2
  refine ⟨hspaces.frames.tables.mono hsub, Nat.lt_of_lt_of_le hend hlow, ?_, ?_⟩
  · exact ⟨_, (h.seated p hp).frame, hiddenEntry_pa hin.aligned (by decide),
      permits_frame _⟩
  · exact fun htable => hspaces.frames.tables_apart _ (htable.mono hsub) hin

theorem living_apart (h : st.Living) (hlow : Addressable st) :
    TrapSystem.Apart (seats st) st.mem.mem := by
  obtain ⟨lk, lu, hspaces⟩ := h.kept.isolated.spaces
  refine ⟨fun p seat hp => ?_, fun p seat q seat' hp hq htable => ?_,
    fun p seat q seat' hp hq heq => ?_⟩
  · obtain ⟨hused, rfl⟩ := seats_eq_some.mp hp
    exact living_installed h hlow hused
  · obtain ⟨hused, rfl⟩ := seats_eq_some.mp hp
    obtain ⟨hused', rfl⟩ := seats_eq_some.mp hq
    exact hspaces.frames.tables_apart _
      (htable.mono (Set.singleton_subset_iff.mpr (mem_roots hused')))
      (hspaces.frames.held_in _ (.inl (mem_trapframes hused)))
  · obtain ⟨hused, rfl⟩ := seats_eq_some.mp hp
    obtain ⟨hused', rfl⟩ := seats_eq_some.mp hq
    exact h.distinct p q hused hused' heq

theorem living_aligned (h : st.Living) (hp : st.Used p) : (st.procs p).tf.toNat % 4096 = 0 := by
  obtain ⟨lk, lu, hspaces⟩ := h.kept.isolated.spaces
  exact (hspaces.frames.held_in _ (.inl (mem_trapframes hp))).aligned

theorem samePage_frame {tf : UInt64} {mem mem' : Memory} (h : SamePage tf mem mem') (x : Nat)
    (hlow : tf.toNat ≤ x) (hhigh : x < tf.toNat + tfSize) : mem' x = mem x := by
  have hsize : tfSize = 288 := rfl
  exact h x ⟨hlow, by omega⟩

theorem serves_keepsFrames (h : Serves owner st st') (howner : ∀ q, q ≠ p → owner ≠ some q) :
    TrapSystem.KeepsFrames (Function.update (seats st) p none) st.mem.mem st'.mem.mem := by
  intro q seat hq
  by_cases hqp : q = p
  · rw [hqp, Function.update_self] at hq
    cases hq
  · rw [Function.update_of_ne hqp] at hq
    obtain ⟨hused, rfl⟩ := seats_eq_some.mp hq
    exact samePage_frame (h.spared q hused (howner q hqp)).saved

theorem seats_congr (hused : st'.Used q ↔ st.Used q)
    (hpgtbl : (st'.procs q).pgtbl = (st.procs q).pgtbl)
    (htf : (st'.procs q).tf = (st.procs q).tf) : seats st' q = seats st q := by
  unfold seats
  rw [hpgtbl, htf]
  exact if_congr hused rfl rfl

theorem seats_update (hused : st'.Used p) (hothers : ∀ q, q ≠ p → st'.procs q = st.procs q) :
    seats st' = Function.update (seats st) p
      (some ⟨(st'.procs p).tf, (st'.procs p).pgtbl, kstackOf p⟩) := by
  funext q
  by_cases hqp : q = p
  · rw [hqp, Function.update_self, seats_of_used hused]
  · rw [Function.update_of_ne hqp]
    have hsame := hothers q hqp
    refine seats_congr ?_ (congrArg Space.pgtbl hsame) (congrArg Space.tf hsame)
    unfold Used
    rw [hsame]

theorem keepsSeats_seats (h : KeepsSeats p st st') : seats st' = seats st := by
  funext q
  obtain ⟨_, hpgtbl, htf⟩ := h.same q
  exact seats_congr (h.used q) hpgtbl htf

/-! Runs. -/

namespace UserSystem

variable {κ : Type} {link : Link} {kernelSatp : UInt64} {hartid : κ → UInt64}
  {sys sys' : UserSystem κ} {u : Users κ ProcId} {c : κ}

/-- Every process has its own registers, on a hart or in its frame, and its memory. -/
structure Owned (link : Link) (kernelSatp : UInt64) (hartid : κ → UInt64)
    (sys : UserSystem κ) (u : Users κ ProcId) : Prop where
  reflects : TrapSystem.Reflects link kernelSatp hartid sys.traps u
  living : sys.uvm.Living
  low : Addressable sys.uvm

theorem addressable_of_setting (h : setting st'.mem = setting st.mem) (hlow : Addressable st) :
    Addressable st' := by
  unfold Addressable
  rw [(Prod.mk.inj (Prod.mk.inj h).2).2]
  exact hlow

theorem Owned.keepsSeats (h : Owned link kernelSatp hartid sys u)
    (hkeeps : KeepsSeats p sys.uvm st) :
    Owned link kernelSatp hartid { sys with uvm := st } u := by
  have hlow := addressable_of_setting hkeeps.serves.setting h.low
  have hseats := keepsSeats_seats hkeeps
  have hapart := living_apart hkeeps.serves.living hlow
  rw [hseats] at hapart
  have hframes : TrapSystem.KeepsFrames (seats sys.uvm) sys.uvm.mem.mem st.mem.mem := by
    intro q seat hq
    obtain ⟨hused, rfl⟩ := seats_eq_some.mp hq
    exact samePage_frame (hkeeps.saves _ (mem_trapframes hused))
  have hnext := h.reflects.memory hframes hapart
  refine ⟨?_, hkeeps.serves.living, hlow⟩
  unfold traps at hnext ⊢
  dsimp only at hnext ⊢
  rw [hseats]
  exact hnext

/-- A process that is not in user code gets a frame, or another one. -/
theorem Owned.reseat {v : UserView} (h : Owned link kernelSatp hartid sys u)
    (hserves : Serves owner sys.uvm st) (howner : ∀ q, q ≠ p → owner ≠ some q)
    (hused : st.Used p) (hothers : ∀ q, q ≠ p → st.procs q = sys.uvm.procs q)
    (hkernel : ∀ c, sys.on c = some p → (sys.hart c).user = false)
    (hholds : Holds st.mem.mem (st.procs p).tf v) :
    Owned link kernelSatp hartid { sys with uvm := st } (u.setView p v) := by
  have hlow := addressable_of_setting hserves.setting h.low
  have hseats := seats_update hused hothers
  have hapart := living_apart hserves.living hlow
  rw [hseats] at hapart
  have hnext := h.reflects.reseat hkernel ⟨serves_keepsFrames hserves howner, hapart⟩
    (fun _ _ => rfl) hholds
  refine ⟨?_, hserves.living, hlow⟩
  unfold traps at hnext ⊢
  dsimp only at hnext ⊢
  rw [hseats]
  exact hnext

/-! What the kernel does for processes. -/

theorem inKernel_eq_some {uvm : Option UvmState} :
    sys.inKernel c uvm = some sys' ↔
      (sys.hart c).user = false ∧ ∃ st, uvm = some st ∧ { sys with uvm := st } = sys' := by
  unfold inKernel
  rw [Option.ite_none_left_eq_some, Bool.not_eq_true, Option.map_eq_some_iff]

theorem making_eq_some {m : UvmM ProcId} :
    making p m st = some st' ↔ m st = .ok (p, st') := by
  unfold making
  split
  · next c st₁ hrun =>
    rw [hrun, Except.ok.injEq, Prod.mk.injEq, Option.ite_none_right_eq_some, Option.some_inj]
  · next reason hrun =>
    rw [hrun]
    exact ⟨nofun, nofun⟩

theorem procCall_keepsSeats {call : ProcCall} (h : st.Living) (hp : st.Used p)
    (hspan : ∀ dst src len, call = .copyout dst src len →
      UserSpan st.mem.mem (st.procs p).pgtbl dst len)
    (hrun : call.run st p = some st') : KeepsSeats p st st' := by
  cases call with
  | fault stval =>
      obtain ⟨_, hrun⟩ := after_eq_some.mp hrun
      exact (handleFault_keepsSeats h hp hrun).1
  | brk newHeapTop =>
      obtain ⟨_, hrun⟩ := after_eq_some.mp hrun
      exact sysBrk_keepsSeats h hp hrun
  | mmap begin len =>
      obtain ⟨_, hrun⟩ := after_eq_some.mp hrun
      exact sysMmap_keepsSeats h hp hrun
  | munmap begin len =>
      obtain ⟨_, hrun⟩ := after_eq_some.mp hrun
      exact sysMunmap_keepsSeats h hp hrun
  | copyout dst src len =>
      obtain ⟨_, hrun⟩ := after_eq_some.mp hrun
      exact copyout_keepsSeats h hp (hspan dst src len rfl) hrun

variable {uvm : UvmState}

theorem Owned.onHart (h : Owned link kernelSatp hartid sys u) (hon : sys.on c = some p) :
    u.on c = some p := (congrFun h.reflects.on c).trans hon

theorem Owned.usedOn (h : Owned link kernelSatp hartid sys u) (hon : sys.on c = some p) :
    sys.uvm.Used p := by
  obtain ⟨seat, hseat⟩ := h.reflects.seated c p hon
  exact (seats_eq_some.mp hseat).1

theorem Owned.nowhere (h : Owned link kernelSatp hartid sys u) (hunused : ¬ sys.uvm.Used p)
    (hon : sys.on c = some p) : (sys.hart c).user = false :=
  absurd (h.usedOn hon) hunused

/-- The first process starts with an empty frame, but for its entry and its stack. -/
theorem Owned.first {initcode : List UInt8} (h : Owned link kernelSatp hartid sys u)
    (hrun : procMakeFirst initcode sys.uvm = .ok (p, uvm)) :
    Owned link kernelSatp hartid { sys with uvm := uvm }
      (u.setView p (Users.starting userVmemStart userStackBottom)) := by
  obtain ⟨hbegins, m, hzero, hframe⟩ := procMakeFirst_begins h.living hrun
  refine h.reseat hbegins.serves (fun q _ => nofun) hbegins.used hbegins.others
    (fun _ => h.nowhere hbegins.unused) ?_
  refine Holds.congr ?_ (samePage_frame hframe)
  exact (holds_of_zero (fun x hlow hhigh => hzero x ⟨hlow, hhigh⟩) userVmemStart).setReg .sp 48
    (by decide) userStackBottom

theorem Owned.fork {child : ProcId} (h : Owned link kernelSatp hartid sys u)
    (hc : (sys.hart c).user = false) (hon : sys.on c = some p)
    (hrun : procFork p sys.uvm = .ok (child, uvm)) :
    Owned link kernelSatp hartid { sys with uvm := uvm } (u.fork c child) := by
  have hused := h.usedOn hon
  have hholds := h.reflects.holdsOn hc hon (seats_of_used hused)
  obtain ⟨hbegins, m, hparent, hframe⟩ := procFork_begins h.living hused hrun
  have hne : p ≠ child := by
    rintro rfl
    exact hbegins.unused hused
  have hliving := hbegins.serves.living
  have hused' := (hbegins.serves.spared p hused nofun).used hused
  have hparent' : (uvm.procs p).tf = (sys.uvm.procs p).tf :=
    congrArg Space.tf (hbegins.others p hne)
  have hapart : (uvm.procs child).tf ≠ (sys.uvm.procs p).tf := by
    intro heq
    exact hne (hliving.distinct child p hbegins.used hused' (heq.trans hparent'.symm)).symm
  rw [Users.fork_of (h.onHart hon)]
  refine h.reseat hbegins.serves (fun q _ => nofun) hbegins.used hbegins.others
    (fun _ => h.nowhere hbegins.unused) ?_
  refine Holds.congr ?_ (samePage_frame hframe)
  exact ((hholds.congr (samePage_frame hparent)).copy (living_aligned h.living hused)
    (living_aligned hliving hbegins.used) hapart).setReg .a0 tfA0 (by decide) 0

/-- A new image has the old registers, but for those that it starts with. -/
theorem Owned.exec {file : ExecFile} {args : ExecArgv} {result : Int}
    (h : Owned link kernelSatp hartid sys u) (hc : (sys.hart c).user = false)
    (hon : sys.on c = some p)
    (hrun : procExec p (some file) args.argv sys.uvm = .ok (result, uvm)) :
    Owned link kernelSatp hartid { sys with uvm := uvm }
      (u.execute c file.header.entry (startSp args.argv)) := by
  have hused := h.usedOn hon
  have hholds := h.reflects.holdsOn hc hon (seats_of_used hused)
  have hexec := procExec_executes h.living hused hrun
  obtain ⟨m, hcopied, hframe⟩ := hexec.frame
  have hused' : uvm.Used p := by
    unfold Used
    rw [hexec.state]
    exact hused
  rw [Users.execute, Users.onHart_of (h.onHart hon)]
  refine h.reseat hexec.serves (fun q hq heq => hq (Option.some.inj heq).symm) hused'
    hexec.others (fun c' hon' => h.reflects.once c' c p hon' hon ▸ hc) ?_
  refine Holds.congr ?_ (samePage_frame hframe)
  exact Holds.enters (hholds.move hcopied) file.header.entry (startSp args.argv)

theorem Owned.free (h : Owned link kernelSatp hartid sys u) (hoff : ∀ c, sys.on c ≠ some p)
    (hused : sys.uvm.Used p) {value : Unit}
    (hrun : procFree p sys.uvm = .ok (value, uvm)) :
    Owned link kernelSatp hartid { sys with uvm := uvm } u := by
  obtain ⟨hserves, hprocs⟩ := procFree_serves h.living hused hrun
  have hlow := addressable_of_setting hserves.setting h.low
  have hseats : seats uvm = Function.update (seats sys.uvm) p none := by
    funext q
    by_cases hqp : q = p
    · subst hqp
      rw [Function.update_self]
      refine if_neg fun hq => hq ?_
      rw [hprocs, Function.update_self]
      rfl
    · have hsame : uvm.procs q = sys.uvm.procs q := by
        rw [hprocs, Function.update_of_ne hqp]
      rw [Function.update_of_ne hqp]
      refine seats_congr ?_ (congrArg Space.pgtbl hsame) (congrArg Space.tf hsame)
      unfold Used
      rw [hsame]
  have hapart := living_apart hserves.living hlow
  rw [hseats] at hapart
  have hnext := (h.reflects.free hoff).memory
    (serves_keepsFrames hserves fun q hq heq => hq (Option.some.inj heq).symm) hapart
  refine ⟨?_, hserves.living, hlow⟩
  unfold traps at hnext ⊢
  dsimp only at hnext ⊢
  rw [hseats]
  exact hnext

structure Booted (kernelSatp : UInt64) (hartid : κ → UInt64) (sys : UserSystem κ) : Prop where
  kept : sys.uvm.Kept
  unused : ∀ p, ¬ sys.uvm.Used p
  low : Addressable sys.uvm
  on : ∀ c, sys.on c = none
  kernel : ∀ c, InKernel kernelSatp (hartid c) (sys.hart c)

theorem Booted.owned {boot : UserSystem κ} (hboot : Booted kernelSatp hartid boot)
    (link : Link) (view : ProcId → UserView) :
    Owned link kernelSatp hartid boot ⟨fun _ => none, view⟩ := by
  have htraps : TrapSystem.Booted kernelSatp hartid boot.traps :=
    ⟨fun p => if_neg (hboot.unused p), hboot.on, hboot.kernel⟩
  exact ⟨htraps.reflects link view, hboot.kept.living hboot.unused, hboot.low⟩

/-! What a hart does by itself. -/

/-- Memory changes at most in the frame of one process. -/
def InFrame (st st' : TrapSystem κ ProcId) : Prop :=
  st'.mem = st.mem ∨ ∃ p seat, st.proc p = some seat ∧ OnlyPage seat.tf st.mem st'.mem

theorem inFrame_writes {st st' : TrapSystem κ ProcId} {f : Nat → Memory → Memory}
    (honly : ∀ mem (tf : UInt64), OnlyPage tf mem (f tf.toNat mem))
    (hstep : st.inFrame c f = some st') : st'.proc = st.proc ∧ InFrame st st' := by
  unfold TrapSystem.inFrame at hstep
  obtain ⟨_, hstep⟩ := Option.ite_none_left_eq_some.mp hstep
  obtain ⟨seat, hseat, rfl⟩ := Option.map_eq_some_iff.mp hstep
  obtain ⟨p, _, hp⟩ := TrapSystem.seatOn_eq_some.mp hseat
  exact ⟨rfl, .inr ⟨p, seat, hp, honly st.mem seat.tf⟩⟩

theorem Admitted.allowed {op : HartOp κ} (h : Owned link kernelSatp hartid sys u)
    (hadmitted : sys.Admitted (.hart op)) :
    sys.traps.Allowed (op.toTrap sys.uvm.mem.mem) := by
  have hapart := h.reflects.apart
  cases op with
  | compute c view => exact ⟨fun _ _ _ _ _ _ => rfl, hapart⟩
  | work c regs csrs pc =>
      exact ⟨hadmitted.1, hadmitted.2, fun _ _ _ _ _ _ => rfl, hapart⟩
  | switch c next =>
      intro q hq
      obtain ⟨hused, hothers⟩ := hadmitted q hq
      exact ⟨⟨_, seats_of_used hused⟩, hothers⟩
  | trap c cause tval => trivial
  | advance c => trivial
  | result c ret => trivial
  | userReturn c => trivial

variable [DecidableEq κ]

theorem hart_writes {op : HartOp κ} {st st' : TrapSystem κ ProcId}
    (hr : TrapSystem.Reflects link kernelSatp hartid st u)
    (hstep : st.step link (op.toTrap st.mem) = some st') :
    st'.proc = st.proc ∧ InFrame st st' := by
  cases op with
  | compute c view =>
      obtain ⟨_, hstep⟩ := Option.ite_none_right_eq_some.mp hstep
      cases hstep
      exact ⟨rfl, .inl rfl⟩
  | trap c cause tval =>
      obtain ⟨hc, hstep⟩ := Option.ite_none_right_eq_some.mp hstep
      obtain ⟨p, seat, hon, hp, hat⟩ := hr.inUser c hc
      obtain ⟨h₁, mem₁, h₂, mem₂, henter, hhandler, _, _, _, _, _, honly⟩ :=
        trap_spec (hr.apart.installed p seat hp) hat cause tval
      rw [TrapSystem.seatOn_eq_some.mpr ⟨p, hon, hp⟩, Option.bind_some, henter,
        Option.bind_some, hhandler] at hstep
      cases hstep
      exact ⟨rfl, .inr ⟨p, seat, hp, honly⟩⟩
  | work c regs csrs pc =>
      obtain ⟨_, hstep⟩ := Option.ite_none_left_eq_some.mp hstep
      cases hstep
      exact ⟨rfl, .inl rfl⟩
  | switch c next =>
      obtain ⟨_, hstep⟩ := Option.ite_none_left_eq_some.mp hstep
      cases hstep
      exact ⟨rfl, .inl rfl⟩
  | advance c =>
      have hframe : st.inFrame c (fun tf mem => mem.store64 (tf + tfEpc.toNat)
          (mem.load64 (tf + tfEpc.toNat) + 4)) = some st' := hstep
      exact inFrame_writes (fun mem tf => onlyPage_store64 tf mem tfEpc.toNat _ (by decide))
        hframe
  | result c ret =>
      have hframe : st.inFrame c (fun tf mem => mem.store64 (tf + tfA0.toNat) ret) =
          some st' := hstep
      exact inFrame_writes (fun mem tf => onlyPage_store64 tf mem tfA0.toNat _ (by decide))
        hframe
  | userReturn c =>
      obtain ⟨hc, hstep⟩ := Option.ite_none_left_eq_some.mp hstep
      obtain ⟨seat, hseat, hstep⟩ := Option.bind_eq_some_iff.mp hstep
      obtain ⟨p, hon, hp⟩ := TrapSystem.seatOn_eq_some.mp hseat
      rw [Bool.not_eq_true] at hc
      obtain ⟨h₁, mem₁, hreturn, _, honly⟩ := return_spec link
        (hr.apart.installed p seat hp) (hr.kernel c hc) (hr.holdsOn hc hon hp)
      rw [hreturn] at hstep
      cases hstep
      exact ⟨rfl, .inr ⟨p, seat, hp, honly⟩⟩

theorem step_toTrap (u : Users κ ProcId) (op : HartOp κ) (mem mem' : Memory) :
    u.step (op.toTrap mem) = u.step (op.toTrap mem') := by
  cases op <;> rfl

theorem Owned.hart {op : HartOp κ} (h : Owned link kernelSatp hartid sys u)
    (hadmitted : sys.Admitted (.hart op)) (hstep : sys.step link (.hart op) = some sys') :
    Owned link kernelSatp hartid sys' (u.follow (.hart op)) := by
  obtain ⟨st, htrap, rfl⟩ := Option.map_eq_some_iff.mp hstep
  have hnext := h.reflects.step (hadmitted.allowed h) htrap
  obtain ⟨hproc, hwrites⟩ := hart_writes h.reflects htrap
  have htraps : (sys.withTraps st).traps = st := by
    change TrapSystem.mk st.hart st.mem (seats sys.uvm) st.on = st
    change st.proc = seats sys.uvm at hproc
    rw [← hproc]
  have hserves : ∃ owner, Serves owner sys.uvm (sys.withTraps st).uvm := by
    rcases hwrites with hsame | ⟨p, seat, hp, honly⟩
    · have hmem : (sys.withTraps st).uvm = sys.uvm := by
        unfold withTraps
        rw [hsame]
        rfl
      exact ⟨none, hmem ▸ .refl h.living none⟩
    · obtain ⟨hused, rfl⟩ := seats_eq_some.mp hp
      exact ⟨some p, (touches_frame h.living hused honly).serves h.living hused⟩
  obtain ⟨owner, hserves⟩ := hserves
  refine ⟨?_, hserves.living, addressable_of_setting hserves.setting h.low⟩
  rw [htraps, Users.follow, step_toTrap u op _ sys.uvm.mem.mem]
  exact hnext

/-! Runs. -/

theorem Owned.step {op : UserOp κ} (h : Owned link kernelSatp hartid sys u)
    (hadmitted : sys.Admitted op) (hstep : sys.step link op = some sys') :
    Owned link kernelSatp hartid sys' (u.follow op) := by
  cases op with
  | hart op => exact h.hart hadmitted hstep
  | store c va byte =>
      obtain ⟨_, hstep⟩ := Option.ite_none_right_eq_some.mp hstep
      obtain ⟨p, hon, hstep⟩ := Option.bind_eq_some_iff.mp hstep
      obtain ⟨pa, hframe, rfl⟩ := Option.map_eq_some_iff.mp hstep
      have hwrite : liftMem (updateMem fun m => m.write (pa.toNat + va.toNat % 4096) 1
          fun _ => byte) sys.uvm = .ok ((), { sys.uvm with
            mem := sys.uvm.mem.setMem (sys.uvm.mem.mem.write (pa.toNat + va.toNat % 4096) 1
              fun _ => byte) }) := rfl
      exact h.keepsSeats (userWrite_keepsSeats h.living (h.usedOn hon) hframe
        (onlyPage_write pa sys.uvm.mem.mem (va.toNat % 4096) 1 (fun _ => byte) (by omega))
        hwrite)
  | call c call =>
      obtain ⟨p, hon, hstep⟩ := Option.bind_eq_some_iff.mp hstep
      obtain ⟨_, st, hrun, rfl⟩ := inKernel_eq_some.mp hstep
      refine h.keepsSeats (procCall_keepsSeats h.living (h.usedOn hon) ?_ hrun)
      rintro dst src len rfl
      exact hadmitted p hon
  | first c p initcode =>
      obtain ⟨_, st, hrun, rfl⟩ := inKernel_eq_some.mp hstep
      exact h.first (making_eq_some.mp hrun)
  | fork c child =>
      obtain ⟨p, hon, hstep⟩ := Option.bind_eq_some_iff.mp hstep
      obtain ⟨hc, st, hrun, rfl⟩ := inKernel_eq_some.mp hstep
      exact h.fork hc hon (making_eq_some.mp hrun)
  | exec c ip args =>
      obtain ⟨p, hon, hstep⟩ := Option.bind_eq_some_iff.mp hstep
      obtain ⟨hc, st, hrun, rfl⟩ := inKernel_eq_some.mp hstep
      obtain ⟨_, hrun⟩ := after_eq_some.mp hrun
      cases ip with
      | none => exact h.keepsSeats (procExec_none h.living (h.usedOn hon) hrun)
      | some file => exact h.exec hc hon hrun
  | free c p =>
      obtain ⟨_, st, hrun, rfl⟩ := inKernel_eq_some.mp hstep
      obtain ⟨hused, _, hrun⟩ := afterCall_eq_some.mp hrun
      exact h.free hadmitted hused hrun

theorem owned_run {ops : List (UserOp κ)} (h : Owned link kernelSatp hartid sys u)
    (hadmitted : Along (fun sys op => sys.step link op) Admitted sys ops)
    (hrun : run (fun sys op => UserSystem.step link sys op) sys ops = some sys') :
    Owned link kernelSatp hartid sys' (ops.foldl Users.follow u) := by
  induction ops generalizing sys u with
  | nil =>
      cases hrun
      exact h
  | cons op ops ih =>
      obtain ⟨middle, hstep, hrest⟩ := run_cons.mp hrun
      exact ih (h.step hadmitted.1 hstep) (hadmitted.2 middle hstep) hrest

/-- The kernel as a whole gives every process its own registers.  Harts are interrupted at
any time, processes are made, get new images and end, memory is taken and given back, pages
are shared, copied and stored to: as long as every call of `uvm_copyout` is admitted, user
code goes on with the registers and the program counter that its own instructions and calls
gave it, and every trap finds its way. -/
theorem user_code_owns_its_registers {boot : UserSystem κ} {ops : List (UserOp κ)}
    (hboot : Booted kernelSatp hartid boot) (view : ProcId → UserView)
    (hadmitted : Along (fun sys op => sys.step link op) Admitted boot ops)
    (hrun : run (fun sys op => UserSystem.step link sys op) boot ops = some sys) (c : κ) :
    ((sys.hart c).user = true → ∃ p, sys.on c = some p ∧ sys.uvm.Used p ∧
      (sys.hart c).regs = ((ops.foldl Users.follow ⟨fun _ => none, view⟩).view p).regs ∧
      (sys.hart c).pc = ((ops.foldl Users.follow ⟨fun _ => none, view⟩).view p).pc ∧
      ∀ cause tval, ∃ sys', sys.step link (.hart (.trap c cause tval)) = some sys' ∧
        InKernel kernelSatp (hartid c) (sys'.hart c) ∧
        (sys'.hart c).regs .sp = kstackOf p + pgsize) ∧
    ((sys.hart c).user = false → InKernel kernelSatp (hartid c) (sys.hart c) ∧
      ∀ p, sys.on c = some p → ∃ sys', sys.step link (.hart (.userReturn c)) = some sys' ∧
        (sys'.hart c).user = true ∧
        (sys'.hart c).regs = ((ops.foldl Users.follow ⟨fun _ => none, view⟩).view p).regs ∧
        (sys'.hart c).pc = ((ops.foldl Users.follow ⟨fun _ => none, view⟩).view p).pc) := by
  have hr := (owned_run (hboot.owned link view) hadmitted hrun).reflects
  refine ⟨fun huser => ?_, fun huser => ⟨hr.kernel c huser, fun p hon => ?_⟩⟩
  · obtain ⟨p, seat, hon, hp, hat⟩ := hr.inUser c huser
    obtain ⟨hused, rfl⟩ := seats_eq_some.mp hp
    refine ⟨p, hon, hused, hat.regs, hat.pc, fun cause tval => ?_⟩
    obtain ⟨st, p', seat', hstep, hr', hon', hp', huser', hsp, _⟩ := hr.trap huser cause tval
    obtain rfl := Option.some.inj (hon.symm.trans hon')
    obtain rfl := Option.some.inj (hp.symm.trans hp')
    exact ⟨sys.withTraps st, Option.map_eq_some_iff.mpr ⟨st, hstep, rfl⟩,
      hr'.kernel c huser', hsp⟩
  · obtain ⟨st, hstep, hr', huser'⟩ := hr.userReturn huser hon
    obtain ⟨q, seat, hon', _, hat⟩ := hr'.inUser c huser'
    have hsame : st.on = sys.on := hr'.on.symm.trans hr.on
    rw [hsame, hon] at hon'
    obtain rfl := Option.some.inj hon'
    exact ⟨sys.withTraps st, Option.map_eq_some_iff.mpr ⟨st, hstep, rfl⟩, huser', hat.regs,
      hat.pc⟩

/-! The first process, in the kernel of `unborn`. -/

def unbornBoot : UserSystem (Fin 2) where
  hart c := {
    regs := fun _ => if c = 0 then 0 else 1
    csrs := fun _ => makeSatp 0x1000
    pc := 0x80003000
    user := false }
  on := fun _ => none
  uvm := unborn

theorem unbornBoot_booted :
    Booted (makeSatp 0x1000) (fun c => if c = 0 then 0 else 1) unbornBoot := by
  refine ⟨unborn_kept, fun p hp => hp rfl, ?_, fun _ => rfl, fun _ => ⟨rfl, rfl, rfl⟩⟩
  unfold Addressable
  decide

theorem along_first (more : List (UserOp (Fin 2)))
    (hmore : ∀ sys, Along (fun sys op => UserSystem.step TrapSystem.firstLink sys op) Admitted
      sys more) :
    Along (fun sys op => UserSystem.step TrapSystem.firstLink sys op) Admitted unbornBoot
      (.first 0 0 [7] :: .hart (.switch 0 (some 0)) :: more) := by
  refine ⟨trivial, fun sys hstep => ⟨fun q hq => ?_, fun _ _ => hmore _⟩⟩
  obtain ⟨_, uvm, hmade, rfl⟩ := inKernel_eq_some.mp hstep
  have hliving := unborn_kept.living fun p hp => hp rfl
  obtain rfl := Option.some.inj hq
  exact ⟨(procMakeFirst_begins hliving (making_eq_some.mp hmade)).1.used, fun _ _ => nofun⟩

theorem user_code_owns_its_registers_interrupted : ∃ sys sys' : UserSystem (Fin 2),
    run (fun sys op => UserSystem.step TrapSystem.firstLink sys op) unbornBoot
        [.first 0 0 [7], .hart (.switch 0 (some 0)), .hart (.userReturn 0),
          .hart (.trap 0 0x8000000000000001 0)] = some sys ∧
      InKernel (makeSatp 0x1000) 0 (sys.hart 0) ∧
      (sys.hart 0).regs .sp = kstackOf 0 + pgsize ∧
      sys.step TrapSystem.firstLink (.hart (.userReturn 0)) = some sys' ∧
      (sys'.hart 0).user = true ∧ (sys'.hart 0).pc = userVmemStart ∧
      (sys'.hart 0).regs .sp = userStackBottom := by
  have hmade : (making 0 (procMakeFirst [7]) unborn).isSome := by decide +kernel
  obtain ⟨uvm, hmade⟩ := Option.isSome_iff_exists.mp hmade
  have hfirst : unbornBoot.step TrapSystem.firstLink (.first 0 0 [7]) =
      some { unbornBoot with uvm := uvm } :=
    inKernel_eq_some.mpr ⟨rfl, uvm, hmade, rfl⟩
  have hrun : run (fun sys op => UserSystem.step TrapSystem.firstLink sys op) unbornBoot
      [.first 0 0 [7], .hart (.switch 0 (some 0))] = some
        { unbornBoot with on := Function.update (fun _ => none) 0 (some 0), uvm := uvm } :=
    run_cons.mpr ⟨_, hfirst, run_cons.mpr ⟨_, rfl, rfl⟩⟩
  obtain ⟨_, hkernel⟩ := user_code_owns_its_registers unbornBoot_booted
    (fun _ => Users.starting 0 0) (along_first [] fun _ => trivial) hrun 0
  obtain ⟨sys₁, hreturn, huser, _⟩ := (hkernel rfl).2 0 rfl
  have hrun₁ := run_concat hrun hreturn
  obtain ⟨hrunning, _⟩ := user_code_owns_its_registers unbornBoot_booted
    (fun _ => Users.starting 0 0)
    (along_first [.hart (.userReturn 0)] fun _ => ⟨trivial, fun _ _ => trivial⟩) hrun₁ 0
  obtain ⟨p, hon, _, _, _, htraps⟩ := hrunning huser
  obtain ⟨sys₂, htrap, hin, hsp⟩ := htraps 0x8000000000000001 0
  have hrun₂ := run_concat hrun₁ htrap
  obtain ⟨st₁, hreturn', rfl⟩ := Option.map_eq_some_iff.mp hreturn
  obtain ⟨st₂, htrap', rfl⟩ := Option.map_eq_some_iff.mp htrap
  have hon₁ : st₁.on 0 = some 0 := by
    rw [(TrapSystem.userReturn_keeps hreturn').1]
    rfl
  obtain rfl := Option.some.inj (hon₁.symm.trans hon)
  have hon₂ : st₂.on 0 = some 0 := by
    rw [(TrapSystem.trap_keeps htrap').1]
    exact hon₁
  obtain ⟨_, hkernel₂⟩ := user_code_owns_its_registers unbornBoot_booted
    (fun _ => Users.starting 0 0)
    (along_first [.hart (.userReturn 0), .hart (.trap 0 0x8000000000000001 0)]
      fun _ => ⟨trivial, fun _ _ => ⟨trivial, fun _ _ => trivial⟩⟩) hrun₂ 0
  obtain ⟨sys', hstep, huser', hregs, hpc⟩ := (hkernel₂ hin.user).2 0 hon₂
  refine ⟨_, sys', hrun₂, hin, hsp, hstep, huser', hpc, ?_⟩
  rw [hregs]
  rfl

end UserSystem

end UnoOS.Trap
