import UnoOS.Trap.Trampoline

namespace UnoOS.Trap

open UnoOS.Lib
open UnoOS.Lib.Straight
open UnoOS.Mem

/-! User code that is interrupted and resumed: `trap_user_handler` and `trap_user_return`
(`trap_user.c`) around the code of `trampoline.S`, with any number of harts and
processes. -/

/-- Addresses that the linker picks; the first two are distances from `trampoline`. -/
structure Link where
  userVector : UInt64
  userReturn : UInt64
  trapUserHandler : UInt64
  kernelVector : UInt64

/-- What `proc_t` has of the way to user code and back. -/
structure Seat where
  tf : UInt64
  pgtbl : UInt64
  kstack : UInt64

structure TrapSystem (κ π : Type) where
  hart : κ → Hart
  mem : Memory
  proc : π → Option Seat
  /-- The process that a hart executes, in user code or in the kernel. -/
  on : κ → Option π

structure UserView where
  regs : Reg → UInt64
  pc : UInt64

inductive TrapOp (κ π : Type) where
  /-- User code computes; it may change memory that it reaches. -/
  | compute (c : κ) (view : UserView) (mem : Memory)
  | trap (c : κ) (cause tval : UInt64)
  /-- Code of the kernel that leaves all trap frames alone. -/
  | kernel (c : κ) (regs : Reg → UInt64) (csrs : Csr → UInt64) (pc : UInt64) (mem : Memory)
  /-- `swtch` to the scheduler or from there to a process. -/
  | switch (c : κ) (p : Option π)
  /-- A system call begins: `p->tf->epc += 4`. -/
  | advance (c : κ)
  /-- A system call ends: `p->tf->a0 = ret`. -/
  | result (c : κ) (ret : UInt64)
  /-- `proc_make_first` -/
  | first (p : π) (seat : Seat) (mem : Memory)
  /-- `proc_fork` -/
  | fork (c : κ) (child : π) (seat : Seat) (mem : Memory)
  /-- `proc_exec` -/
  | exec (c : κ) (seat : Seat) (entry sp : UInt64) (mem : Memory)
  /-- `proc_free` -/
  | free (p : π)
  | userReturn (c : κ)

/-! The functions. -/

/-- A trap of user code, up to the entry of `trap_user_handler`. -/
def enterKernel (link : Link) (cause tval : UInt64) (h : Hart) (mem : Memory) :
    Option (Hart × Memory) :=
  let h := h.takeTrap cause tval
  if h.pc = trampoline + link.userVector then
    (exec paged userVector (h.machine mem)).map fun m =>
      (h.continueAt m (m.regs .t0), m.mem)
  else none

/-- `trap_user_handler` before it looks at the cause; `none` is its assertion. -/
def trapUserHandler (link : Link) (seat : Seat) (h : Hart) (mem : Memory) :
    Option (Hart × Memory) :=
  if h.pc = link.trapUserHandler ∧ h.csrs .sstatus &&& sstatusSpp = 0 then
    some (h.setCsr .stvec link.kernelVector,
      mem.store64 (seat.tf.toNat + tfEpc.toNat) (h.csrs .sepc))
  else none

/-- What `trap_user_return` writes to the trap frame. -/
def prepareFrame (link : Link) (seat : Seat) (h : Hart) (mem : Memory) : Memory :=
  let mem := mem.store64 (seat.tf.toNat + tfKernelSatp.toNat) (h.csrs .satp)
  let mem := mem.store64 (seat.tf.toNat + tfKernelSp.toNat) (seat.kstack + pgsize)
  let mem := mem.store64 (seat.tf.toNat + tfKernelTrap.toNat) link.trapUserHandler
  mem.store64 (seat.tf.toNat + tfKernelHartid.toNat) (h.regs .tp)

/-- The hart that `trap_user_return` leaves for `user_return`. -/
def prepareHart (link : Link) (seat : Seat) (h : Hart) (mem : Memory) : Hart :=
  let h := h.setCsr .sstatus (h.csrs .sstatus &&& ~~~sstatusSie)
  let h := h.setCsr .stvec (trampoline + link.userVector)
  let h := h.setCsr .sstatus ((h.csrs .sstatus &&& ~~~sstatusSpp) ||| sstatusSpie)
  let h := h.setCsr .sepc (mem.load64 (seat.tf.toNat + tfEpc.toNat))
  { h with
    regs := Function.update (Function.update h.regs .a0 trapframe) .a1 (makeSatp seat.pgtbl)
    pc := trampoline + link.userReturn }

def trapUserReturn (link : Link) (seat : Seat) (h : Hart) (mem : Memory) :
    Option (Hart × Memory) :=
  let mem := prepareFrame link seat h mem
  let h := prepareHart link seat h mem
  (exec paged userReturn (h.machine mem)).map fun m => ((h.continueAt m h.pc).sret, m.mem)

/-- The bytes of a new process that starts at `entry`. -/
def enterAt (tf : Nat) (entry sp : UInt64) (mem : Memory) : Memory :=
  let mem := mem.memset tf 0 4096
  let mem := mem.store64 (tf + tfEpc.toNat) entry
  mem.store64 (tf + 48) sp

/-- The new trap frame of `proc_exec`: the old one as it was before the call, with other
registers. -/
def execFrame (tf old : Nat) (entry sp : UInt64) (before mem : Memory) : Memory :=
  let mem := mem.write tf 4096 fun i => before (old + i)
  let mem := mem.store64 (tf + 120) sp
  let mem := mem.store64 (tf + tfEpc.toNat) entry
  mem.store64 (tf + 48) sp

namespace TrapSystem

variable {κ π : Type} [DecidableEq κ] [DecidableEq π]

def setHart (st : TrapSystem κ π) (c : κ) (h : Hart) (mem : Memory) : TrapSystem κ π :=
  { st with hart := Function.update st.hart c h, mem := mem }

def seatOn (st : TrapSystem κ π) (c : κ) : Option Seat := (st.on c).bind st.proc

def inFrame (st : TrapSystem κ π) (c : κ) (f : Nat → Memory → Memory) :
    Option (TrapSystem κ π) :=
  if (st.hart c).user then none
  else (st.seatOn c).map fun seat => { st with mem := f seat.tf.toNat st.mem }

def step (link : Link) (st : TrapSystem κ π) : TrapOp κ π → Option (TrapSystem κ π)
  | .compute c view mem =>
      if (st.hart c).user then
        some (st.setHart c { st.hart c with regs := view.regs, pc := view.pc } mem)
      else none
  | .trap c cause tval =>
      if (st.hart c).user then
        (st.seatOn c).bind fun seat =>
          (enterKernel link cause tval (st.hart c) st.mem).bind fun s =>
            (trapUserHandler link seat s.1 s.2).map fun s => st.setHart c s.1 s.2
      else none
  | .kernel c regs csrs pc mem =>
      if (st.hart c).user then none
      else some (st.setHart c { st.hart c with regs := regs, csrs := csrs, pc := pc } mem)
  | .switch c p =>
      if (st.hart c).user then none
      else some { st with on := Function.update st.on c p }
  | .advance c => st.inFrame c fun tf mem =>
      mem.store64 (tf + tfEpc.toNat) (mem.load64 (tf + tfEpc.toNat) + 4)
  | .result c ret => st.inFrame c fun tf mem => mem.store64 (tf + tfA0.toNat) ret
  | .first p seat mem => some { st with
      proc := Function.update st.proc p (some seat)
      mem := enterAt seat.tf.toNat userVmemStart userStackBottom mem }
  | .fork c child seat mem =>
      if (st.hart c).user then none
      else (st.seatOn c).map fun parent => { st with
        proc := Function.update st.proc child (some seat)
        mem := (mem.memcpy seat.tf.toNat parent.tf.toNat tfSize).store64
          (seat.tf.toNat + tfA0.toNat) 0 }
  | .exec c seat entry sp mem =>
      if (st.hart c).user then none
      else (st.on c).bind fun p => (st.proc p).map fun old => { st with
        proc := Function.update st.proc p (some seat)
        mem := execFrame seat.tf.toNat old.tf.toNat entry sp st.mem mem }
  | .free p => some { st with proc := Function.update st.proc p none }
  | .userReturn c =>
      if (st.hart c).user then none
      else (st.seatOn c).bind fun seat =>
        (trapUserReturn link seat (st.hart c) st.mem).map fun s => st.setHart c s.1 s.2

end TrapSystem

/-! Trap frames. -/

structure Holds (mem : Memory) (tf : UInt64) (v : UserView) : Prop where
  regs : ∀ slot ∈ frameSlots, mem.load64 (tf.toNat + slot.2.toNat) = v.regs slot.1
  pc : mem.load64 (tf.toNat + tfEpc.toNat) = v.pc

structure Installed (mem : Memory) (seat : Seat) : Prop where
  tables : PageTables mem {seat.pgtbl}
  low : seat.pgtbl.toNat < 2 ^ 56
  entry : ∃ pte, translate mem seat.pgtbl trapframe = some pte ∧ pteToPa pte = seat.tf ∧
    ∀ access, permits access pte = true
  apart : ¬ IsTable mem {seat.pgtbl} seat.tf

variable {mem mem' : Memory} {seat : Seat} {v : UserView} {tf : UInt64} {link : Link}
  {h : Hart} {csrs : Csr → UInt64} {kernelSatp id : UInt64}

theorem Holds.congr (hholds : Holds mem tf v)
    (hsame : ∀ x, tf.toNat ≤ x → x < tf.toNat + tfSize → mem' x = mem x) :
    Holds mem' tf v := by
  have hword : ∀ k, k + 8 ≤ tfSize →
      mem'.load64 (tf.toNat + k) = mem.load64 (tf.toNat + k) := fun k hk =>
    Memory.load64_congr fun i hi => hsame _ (by omega) (by omega)
  refine ⟨fun slot hslot => ?_, (hword _ (by decide)).trans hholds.pc⟩
  rw [hword _ (fits_frameSlots.inside slot hslot).2]
  exact hholds.regs slot hslot

theorem Installed.tf_aligned (hin : Installed mem seat) : seat.tf.toNat % 4096 = 0 := by
  obtain ⟨pte, _, hframe, _⟩ := hin.entry
  rw [← hframe]
  exact pteToPa_aligned pte

theorem Installed.spans (hin : Installed mem seat)
    (hsatp : csrs .satp = makeSatp seat.pgtbl) :
    Spans paged csrs mem trapframe seat.tf.toNat tfSize := by
  have haligned := hin.tables.aligned seat.pgtbl rfl
  have hroot : satpRoot (csrs .satp) = seat.pgtbl := by
    rw [hsatp, satpRoot_makeSatp haligned hin.low]
  obtain ⟨pte, hpte, hframe, hpermits⟩ := hin.entry
  rw [← hroot] at hpte
  have hspans : Spans paged csrs mem trapframe (pteToPa pte).toNat tfSize :=
    spans_page (by rw [hroot]; rfl) hin.tables (by decide) (by decide) hpte hpermits
      (by rw [hframe]; exact hin.apart) (by decide)
  rw [hframe] at hspans
  exact hspans

theorem Installed.congr (hin : Installed mem seat)
    (hsame : ∀ t, IsTable mem {seat.pgtbl} t → SamePage t mem mem') :
    Installed mem' seat := by
  refine ⟨hin.tables.of_samePages hsame, hin.low, ?_, ?_⟩
  · rw [translate_of_samePages (Set.mem_singleton _) hsame]
    exact hin.entry
  · rw [isTable_of_samePages hsame]
    exact hin.apart

structure InUser (link : Link) (kernelSatp id : UInt64) (h : Hart) (mem : Memory)
    (seat : Seat) (v : UserView) : Prop where
  user : h.user = true
  regs : h.regs = v.regs
  pc : h.pc = v.pc
  satp : h.csrs .satp = makeSatp seat.pgtbl
  sscratch : h.csrs .sscratch = trapframe
  stvec : h.csrs .stvec = trampoline + link.userVector
  words : mem.load64 seat.tf.toNat = kernelSatp ∧
    mem.load64 (seat.tf.toNat + 8) = seat.kstack + pgsize ∧
    mem.load64 (seat.tf.toNat + 16) = link.trapUserHandler ∧
    mem.load64 (seat.tf.toNat + 32) = id

theorem InUser.congr {id : UInt64} (hat : InUser link kernelSatp id h mem seat v)
    (hsame : ∀ x, seat.tf.toNat ≤ x → x < seat.tf.toNat + tfSize → mem' x = mem x) :
    InUser link kernelSatp id h mem' seat v := by
  have hsize : tfSize = 288 := rfl
  have hword : ∀ k, k + 8 ≤ tfSize →
      mem'.load64 (seat.tf.toNat + k) = mem.load64 (seat.tf.toNat + k) := fun k hk =>
    Memory.load64_congr fun i hi => hsame _ (by omega) (by omega)
  obtain ⟨hsatp, hsp, htrap, hid⟩ := hat.words
  refine ⟨hat.user, hat.regs, hat.pc, hat.satp, hat.sscratch, hat.stvec, ?_, ?_, ?_, ?_⟩
  · exact (hword 0 (by omega)).trans hsatp
  · exact (hword 8 (by omega)).trans hsp
  · exact (hword 16 (by omega)).trans htrap
  · exact (hword 32 (by omega)).trans hid

structure InKernel (kernelSatp id : UInt64) (h : Hart) : Prop where
  user : h.user = false
  satp : h.csrs .satp = kernelSatp
  tp : h.regs .tp = id

theorem onlyPage_saved {regs : Reg → UInt64} :
    OnlyPage tf mem (saved tf.toNat regs frameSlots mem) := by
  intro x hx
  have hsize : tfSize = 288 := rfl
  refine saved_outside fits_frameSlots ?_
  unfold InPage at hx
  omega

/-- A trap of user code enters the kernel on its stack, and its registers are kept. -/
theorem trap_spec (hin : Installed mem seat) (hat : InUser link kernelSatp id h mem seat v)
    (cause tval : UInt64) :
    ∃ h' mem' h'' mem'', enterKernel link cause tval h mem = some (h', mem') ∧
      trapUserHandler link seat h' mem' = some (h'', mem'') ∧
      InKernel kernelSatp id h'' ∧ h''.regs .sp = seat.kstack + pgsize ∧
      h''.csrs .scause = cause ∧ h''.csrs .stval = tval ∧
      Holds mem'' seat.tf v ∧ OnlyPage seat.tf mem mem'' := by
  have hspans : Spans paged ((h.takeTrap cause tval).machine mem).csrs mem
      (((h.takeTrap cause tval).machine mem).csrs .sscratch) seat.tf.toNat tfSize := by
    have hscratch : ((h.takeTrap cause tval).machine mem).csrs .sscratch = trapframe :=
      hat.sscratch
    rw [hscratch]
    exact hin.spans hat.satp
  obtain ⟨m, hexec, hentered⟩ := exec_userVector hspans
  obtain ⟨hsatp, hsp, htrap, hid⟩ := hat.words
  refine ⟨(h.takeTrap cause tval).continueAt m (m.regs .t0), m.mem,
    ((h.takeTrap cause tval).continueAt m (m.regs .t0)).setCsr .stvec link.kernelVector,
    m.mem.store64 (seat.tf.toNat + tfEpc.toNat) (m.csrs .sepc), ?_, ?_, ?_, ?_, ?_, ?_, ?_, ?_⟩
  · have hpc : (h.takeTrap cause tval).pc = trampoline + link.userVector := hat.stvec
    unfold enterKernel
    rw [if_pos hpc, hexec]
    rfl
  · have hpc : m.regs .t0 = link.trapUserHandler := hentered.t0.trans htrap
    have hspp : m.csrs .sstatus &&& sstatusSpp = 0 := by
      rw [hentered.csrs .sstatus (by decide) (by decide)]
      change trapStatus h.user (h.csrs .sstatus) &&& sstatusSpp = 0
      rw [hat.user]
      exact trapStatus_spp _
    exact if_pos ⟨hpc, hspp⟩
  · exact ⟨rfl, hentered.satp.trans hsatp, hentered.tp.trans hid⟩
  · exact hentered.sp.trans hsp
  · exact hentered.csrs .scause (by decide) (by decide)
  · exact hentered.csrs .stval (by decide) (by decide)
  · have hmem : m.mem = saved seat.tf.toNat h.regs frameSlots mem := hentered.mem
    have hsepc : m.csrs .sepc = h.pc := hentered.csrs .sepc (by decide) (by decide)
    refine ⟨fun slot hslot => ?_, ?_⟩
    · have hge := frameSlots_ge slot hslot
      have hepc : tfEpc.toNat = 24 := rfl
      rw [load64_store64_apart _ _ (by omega), hmem, load64_saved fits_frameSlots hslot,
        hat.regs]
    · rw [Memory.load64_store64_self, hsepc, hat.pc]
  · rw [hentered.mem]
    exact onlyPage_saved.trans (onlyPage_store64 _ _ _ _ (by decide))

theorem prepareFrame_words (link : Link) (seat : Seat) (h : Hart) (mem : Memory) :
    (prepareFrame link seat h mem).load64 seat.tf.toNat = h.csrs .satp ∧
      (prepareFrame link seat h mem).load64 (seat.tf.toNat + 8) = seat.kstack + pgsize ∧
      (prepareFrame link seat h mem).load64 (seat.tf.toNat + 16) = link.trapUserHandler ∧
      (prepareFrame link seat h mem).load64 (seat.tf.toNat + 32) = h.regs .tp ∧
      ∀ k, k = 24 ∨ 40 ≤ k → (prepareFrame link seat h mem).load64 (seat.tf.toNat + k) =
        mem.load64 (seat.tf.toNat + k) := by
  have h0 : tfKernelSatp.toNat = 0 := rfl
  have h8 : tfKernelSp.toNat = 8 := rfl
  have h16 : tfKernelTrap.toNat = 16 := rfl
  have h32 : tfKernelHartid.toNat = 32 := rfl
  unfold prepareFrame
  dsimp only
  rw [h0, h8, h16, h32]
  refine ⟨?_, ?_, ?_, ?_, ?_⟩
  · rw [load64_store64_apart _ _ (by omega), load64_store64_apart _ _ (by omega),
      load64_store64_apart _ _ (by omega)]
    exact Memory.load64_store64_self _ _ _
  · rw [load64_store64_apart _ _ (by omega), load64_store64_apart _ _ (by omega)]
    exact Memory.load64_store64_self _ _ _
  · rw [load64_store64_apart _ _ (by omega)]
    exact Memory.load64_store64_self _ _ _
  · exact Memory.load64_store64_self _ _ _
  · intro k hk
    rw [load64_store64_apart _ _ (by omega), load64_store64_apart _ _ (by omega),
      load64_store64_apart _ _ (by omega), load64_store64_apart _ _ (by omega)]

theorem onlyPage_prepareFrame (link : Link) (seat : Seat) (h : Hart) (mem : Memory) :
    OnlyPage seat.tf mem (prepareFrame link seat h mem) :=
  (((onlyPage_store64 _ _ _ _ (by decide)).trans (onlyPage_store64 _ _ _ _ (by decide))).trans
    (onlyPage_store64 _ _ _ _ (by decide))).trans (onlyPage_store64 _ _ _ _ (by decide))

/-- The way back ends in user code with the registers of the frame. -/
theorem return_spec (link : Link) (hin : Installed mem seat) (hkernel : InKernel kernelSatp id h)
    (hholds : Holds mem seat.tf v) :
    ∃ h' mem', trapUserReturn link seat h mem = some (h', mem') ∧
      InUser link kernelSatp id h' mem' seat v ∧ OnlyPage seat.tf mem mem' := by
  obtain ⟨hsatp, hsp, htrap, hid, hrest⟩ := prepareFrame_words link seat h mem
  have honly := onlyPage_prepareFrame link seat h mem
  generalize hmem₁ : prepareFrame link seat h mem = mem₁ at hsatp hsp htrap hid hrest honly
  have hin' : Installed mem₁ seat := by
    refine hin.congr fun t ht => ?_
    refine honly.samePage hin.tf_aligned (ht.aligned hin.tables) ?_
    rintro rfl
    exact hin.apart ht
  have hspans : Spans paged (Function.update (prepareHart link seat h mem₁).csrs .satp
      ((prepareHart link seat h mem₁).regs .a1)) mem₁ ((prepareHart link seat h mem₁).regs .a0)
      seat.tf.toNat tfSize := hin'.spans (Function.update_self _ _ _)
  obtain ⟨m, hexec, hleft⟩ :=
    exec_userReturn (m := (prepareHart link seat h mem₁).machine mem₁) hspans
  have hmem : m.mem = mem₁ := hleft.mem
  refine ⟨((prepareHart link seat h mem₁).continueAt m
    (prepareHart link seat h mem₁).pc).sret, m.mem, ?_, ?_, ?_⟩
  · unfold trapUserReturn
    dsimp only
    rw [hmem₁, hexec]
    rfl
  · refine ⟨?_, ?_, ?_, hleft.satp, hleft.sscratch, ?_, ?_⟩
    · have hstatus : m.csrs .sstatus =
          (h.csrs .sstatus &&& ~~~sstatusSie) &&& ~~~sstatusSpp ||| sstatusSpie :=
        hleft.csrs .sstatus (by decide) (by decide)
      have hspp : m.csrs .sstatus &&& sstatusSpp = 0 := by
        rw [hstatus, or_and_of_apart (by decide), and_not_and_self]
      exact decide_eq_true hspp
    · funext r
      obtain ⟨slot, hslot, rfl⟩ := List.mem_map.mp (mem_frameSlots r)
      have hge := frameSlots_ge slot hslot
      refine (hleft.regs slot hslot).trans ?_
      exact (hrest _ (.inr hge)).trans (hholds.regs slot hslot)
    · have hsepc : m.csrs .sepc = mem₁.load64 (seat.tf.toNat + tfEpc.toNat) :=
        hleft.csrs .sepc (by decide) (by decide)
      exact hsepc.trans ((hrest _ (.inl rfl)).trans hholds.pc)
    · exact hleft.csrs .stvec (by decide) (by decide)
    · rw [hmem]
      exact ⟨hsatp.trans hkernel.satp, hsp, htrap, hid.trans hkernel.tp⟩
  · rw [hmem]
    exact honly

end UnoOS.Trap
