import UnoOS.Lib.Transition
import UnoOS.Trap.Vectors

namespace UnoOS.Trap

open UnoOS.Lib
open UnoOS.Lib.Straight
open UnoOS.Mem

/-! Threads of the kernel, each with a context and a stack: the processes in the kernel and
the schedulers of the harts.  Interrupts, with `trap_kernel_handler` (`trap_kernel.c`),
and `swtch` put their computations aside. -/

/-- Two ranges of addresses have no byte in common. -/
def RangesApart (a : UInt64) (len : Nat) (b : UInt64) (len' : Nat) : Prop :=
  a.toNat + len ≤ b.toNat ∨ b.toNat + len' ≤ a.toNat

structure ThreadLayout (τ : Type) where
  ctx : τ → UInt64
  stack : τ → UInt64
  ctx_room : ∀ t, (ctx t).toNat + contextSize ≤ 2 ^ 64
  stack_room : ∀ t, (stack t).toNat + 4096 < 2 ^ 64
  contexts_apart : ∀ t t', t ≠ t' → RangesApart (ctx t) contextSize (ctx t') contextSize
  stacks_apart : ∀ t t', t ≠ t' → RangesApart (stack t) 4096 (stack t') 4096
  between_apart : ∀ t t', RangesApart (ctx t) contextSize (stack t') 4096

/-- Addresses of `trap.S` and `trap_kernel.c`; the last is where the handler returns to. -/
structure KernelLink where
  kernelVector : UInt64
  trapKernelHandler : UInt64
  handlerReturn : UInt64

/-- An activation of `trap_kernel_handler`: its stack pointer at the call, and its
variables. -/
structure Activation where
  frame : UInt64
  sepc : UInt64
  sstatus : UInt64

structure ThreadSystem (κ τ : Type) where
  hart : κ → Hart
  mem : Memory
  on : κ → τ
  /-- The context and the stack are in use. -/
  made : τ → Bool
  /-- The innermost activation of a thread first. -/
  active : τ → List Activation

inductive ThreadOp (κ τ : Type) where
  | compute (c : κ) (regs : Reg → UInt64) (csrs : Csr → UInt64) (pc : UInt64) (mem : Memory)
  | interrupt (c : κ) (cause tval : UInt64)
  /-- `trap_kernel_handler` returns. -/
  | resume (c : κ)
  | swtch (c : κ) (t : τ)
  /-- `proc_alloc` for a process whose first code is at `entry` -/
  | create (t : τ) (entry : UInt64)

def isIntr (scause : UInt64) : Bool := scause &&& 0x8000000000000000 != 0

/-- `kernel_vector` and the beginning of `trap_kernel_handler`, with its assertions. -/
def enterHandler (link : KernelLink) (cause tval : UInt64) (h : Hart) (mem : Memory) :
    Option (Hart × Memory × Activation) :=
  let h := h.takeTrap cause tval
  if h.pc = link.kernelVector then
    (exec flat kernelVector (h.machine mem)).bind fun m =>
      let regs := Function.update m.regs .ra link.handlerReturn
      let h := h.continueAt { m with regs := regs } link.trapKernelHandler
      if h.csrs .sstatus &&& sstatusSpp ≠ 0 ∧ h.csrs .sstatus &&& sstatusSie = 0 ∧
          isIntr (h.csrs .scause) then
        some (h, m.mem, ⟨h.regs .sp, h.csrs .sepc, h.csrs .sstatus⟩)
      else none
  else none

def leaveHandler (a : Activation) (h : Hart) (mem : Memory) : Option (Hart × Memory) :=
  let h := (h.setCsr .sepc a.sepc).setCsr .sstatus a.sstatus
  (exec flat kernelVectorEnd (h.machine mem)).map fun m => ((h.continueAt m h.pc).sret, m.mem)

def switchTo (old new : UInt64) (h : Hart) (mem : Memory) : Option (Hart × Memory) :=
  let regs := Function.update (Function.update h.regs .a0 old) .a1 new
  (exec flat swtch ⟨regs, h.csrs, mem⟩).map fun m => (h.continueAt m (m.regs .ra), m.mem)

/-- `ctx` of a new process -/
def newContext (ctx entry sp : UInt64) (mem : Memory) : Memory :=
  let mem := mem.memset ctx.toNat 0 contextSize
  let mem := mem.store64 ctx.toNat entry
  mem.store64 (ctx.toNat + 8) sp

namespace ThreadSystem

variable {κ τ : Type} [DecidableEq κ] [DecidableEq τ]

def setHart (st : ThreadSystem κ τ) (c : κ) (h : Hart) (mem : Memory) : ThreadSystem κ τ :=
  { st with hart := Function.update st.hart c h, mem := mem }

def setActive (st : ThreadSystem κ τ) (t : τ) (active : List Activation) :
    ThreadSystem κ τ :=
  { st with active := Function.update st.active t active }

def step (link : KernelLink) (layout : ThreadLayout τ) (st : ThreadSystem κ τ) :
    ThreadOp κ τ → Option (ThreadSystem κ τ)
  | .compute c regs csrs pc mem =>
      some (st.setHart c { st.hart c with regs := regs, csrs := csrs, pc := pc } mem)
  | .interrupt c cause tval =>
      if (st.hart c).csrs .sstatus &&& sstatusSie ≠ 0 then
        (enterHandler link cause tval (st.hart c) st.mem).map fun s =>
          (st.setHart c s.1 s.2.1).setActive (st.on c) (s.2.2 :: st.active (st.on c))
      else none
  | .resume c =>
      match st.active (st.on c) with
      | [] => none
      | a :: rest => (leaveHandler a (st.hart c) st.mem).map fun s =>
          (st.setHart c s.1 s.2).setActive (st.on c) rest
  | .swtch c t =>
      (switchTo (layout.ctx (st.on c)) (layout.ctx t) (st.hart c) st.mem).map fun s =>
        { st.setHart c s.1 s.2 with on := Function.update st.on c t }
  | .create t entry => some { st.setActive t [] with
      made := Function.update st.made t true
      mem := newContext (layout.ctx t) entry (layout.stack t + pgsize) st.mem }

/-- The compiler keeps `tp`, the words that interrupts and `swtch` have put aside, and the
stack pointer between the stack's ends and below what is on it; a handler returns with
the stack pointer of its call, and there is room for another one.  A thread is on one
hart at a time. -/
def Allowed (layout : ThreadLayout τ) (st : ThreadSystem κ τ) : ThreadOp κ τ → Prop
  | .compute c regs _ _ mem => regs .tp = (st.hart c).regs .tp ∧
      (∀ t, (∀ c', st.on c' ≠ t) → ∀ x, (layout.ctx t).toNat ≤ x →
        x < (layout.ctx t).toNat + contextSize → mem x = st.mem x) ∧
      (∀ t, ∀ a ∈ st.active t, ∀ x, a.frame.toNat ≤ x → x < a.frame.toNat + frameSize →
        mem x = st.mem x) ∧
      (layout.stack (st.on c)).toNat ≤ (regs .sp).toNat ∧
      (regs .sp).toNat ≤ (layout.stack (st.on c)).toNat + 4096 ∧
      ∀ a ∈ st.active (st.on c), (regs .sp).toNat ≤ a.frame.toNat
  | .interrupt c _ _ =>
      (layout.stack (st.on c)).toNat + frameSize ≤ ((st.hart c).regs .sp).toNat
  | .resume c => ∀ a ∈ (st.active (st.on c)).head?, (st.hart c).regs .sp = a.frame
  | .swtch _ t => st.made t = true ∧ ∀ c', st.on c' ≠ t
  | .create t _ => ∀ c, st.on c ≠ t

end ThreadSystem

/-! What a thread sees of all this. -/

structure ThreadView where
  regs : Reg → UInt64
  pc : UInt64

structure ThreadViews (κ τ : Type) where
  on : κ → τ
  now : τ → ThreadView
  interrupted : τ → List ThreadView

namespace ThreadViews

variable {κ τ : Type} [DecidableEq τ]

def setNow (v : ThreadViews κ τ) (t : τ) (view : ThreadView) : ThreadViews κ τ :=
  { v with now := Function.update v.now t view }

def setInterrupted (v : ThreadViews κ τ) (t : τ) (views : List ThreadView) :
    ThreadViews κ τ :=
  { v with interrupted := Function.update v.interrupted t views }

theorem setInterrupted_self (v : ThreadViews κ τ) (t : τ) :
    v.setInterrupted t (v.interrupted t) = v := by
  unfold setInterrupted
  rw [Function.update_eq_self]

def handlerView (link : KernelLink) (view : ThreadView) : ThreadView where
  regs := Function.update (Function.update view.regs .sp (view.regs .sp + -256)) .ra
    link.handlerReturn
  pc := link.trapKernelHandler

/-- A thread goes on where it called `swtch`, with what a call keeps. -/
def switchedView (old new : UInt64) (left entered : ThreadView) : ThreadView where
  regs := mergeRegs entered.regs
    (Function.update (Function.update left.regs .a0 old) .a1 new)
  pc := entered.regs .ra

def newView (entry sp : UInt64) : ThreadView where
  regs := Function.update (Function.update (fun _ => 0) .ra entry) .sp sp
  pc := entry

def step [DecidableEq κ] (link : KernelLink) (layout : ThreadLayout τ)
    (v : ThreadViews κ τ) : ThreadOp κ τ → ThreadViews κ τ
  | .compute c regs _ pc _ => v.setNow (v.on c) ⟨regs, pc⟩
  | .interrupt c _ _ =>
      (v.setInterrupted (v.on c) (v.now (v.on c) :: v.interrupted (v.on c))).setNow (v.on c)
        (handlerView link (v.now (v.on c)))
  | .resume c =>
      match v.interrupted (v.on c) with
      | [] => v
      | view :: rest => (v.setInterrupted (v.on c) rest).setNow (v.on c) view
  | .swtch c t =>
      { v.setNow t (switchedView (layout.ctx (v.on c)) (layout.ctx t) (v.now (v.on c))
          (v.now t)) with on := Function.update v.on c t }
  | .create t entry =>
      (v.setInterrupted t []).setNow t (newView entry (layout.stack t + pgsize))

end ThreadViews

/-! The stack of a thread. -/

/-- The activations of a handler lie on the stack above the stack pointer, and have what
they interrupted. -/
def Piled (mem : Memory) (low high : Nat) :
    (sp : UInt64) → List Activation → List ThreadView → Prop
  | sp, [], [] => low ≤ sp.toNat ∧ sp.toNat ≤ high
  | sp, a :: active, view :: views =>
      low ≤ sp.toNat ∧ sp.toNat ≤ a.frame.toNat ∧ a.frame.toNat + frameSize ≤ high ∧
        view.regs .sp = a.frame + 256 ∧ Stacked mem a.frame view.regs ∧
        a.sepc = view.pc ∧ a.sstatus &&& sstatusSpp ≠ 0 ∧
        a.sstatus &&& sstatusSpie ≠ 0 ∧
        Piled mem low high (view.regs .sp) active views
  | _, _, _ => False

section

variable {mem mem' : Memory} {low high : Nat} {sp : UInt64} {active : List Activation}
  {views : List ThreadView}

theorem Stacked.congr {addr : UInt64} {regs : Reg → UInt64} (h : Stacked mem addr regs)
    (hsame : ∀ x, addr.toNat ≤ x → x < addr.toNat + frameSize → mem' x = mem x) :
    Stacked mem' addr regs := by
  have hword : ∀ k, k + 8 ≤ frameSize →
      mem'.load64 (addr.toNat + k) = mem.load64 (addr.toNat + k) := fun k hk =>
    Memory.load64_congr fun i hi => hsame _ (by omega) (by omega)
  refine ⟨fun slot hslot hne => ?_, (hword 8 (by decide)).trans h.sp⟩
  rw [hword _ (fits_resumeSlots.inside slot hslot).2]
  exact h.words slot hslot hne

theorem Piled.congr (h : Piled mem low high sp active views)
    (hsame : ∀ a ∈ active, ∀ x, a.frame.toNat ≤ x → x < a.frame.toNat + frameSize →
      mem' x = mem x) : Piled mem' low high sp active views := by
  induction active generalizing sp views with
  | nil =>
      cases views with
      | nil => exact h
      | cons view views => exact h
  | cons a active ih =>
      cases views with
      | nil => exact h
      | cons view views =>
          obtain ⟨hlow, hle, hroom, hsp, hstacked, hsepc, hspp, hspie, hrest⟩ := h
          exact ⟨hlow, hle, hroom, hsp, hstacked.congr (hsame a (.head _)), hsepc, hspp, hspie,
            ih hrest fun b hb => hsame b (.tail _ hb)⟩

theorem Piled.bounds (h : Piled mem low high sp active views) :
    low ≤ sp.toNat ∧ sp.toNat ≤ high := by
  cases active with
  | nil =>
      cases views with
      | nil => exact h
      | cons view views => exact h.elim
  | cons a active =>
      cases views with
      | nil => exact h.elim
      | cons view views =>
          obtain ⟨hlow, hle, hroom, _⟩ := h
          exact ⟨hlow, by omega⟩

/-- What is on the stack lies between the stack pointer and the end. -/
theorem Piled.inside (h : Piled mem low high sp active views) (hhigh : high < 2 ^ 64) :
    ∀ a ∈ active, sp.toNat ≤ a.frame.toNat ∧ a.frame.toNat + frameSize ≤ high := by
  induction active generalizing sp views with
  | nil => exact nofun
  | cons a active ih =>
      cases views with
      | nil => exact h.elim
      | cons view views =>
          obtain ⟨hlow, hle, hroom, hsp, _, _, _, _, hrest⟩ := h
          intro b hb
          rcases List.mem_cons.mp hb with rfl | hb
          · exact ⟨hle, hroom⟩
          · have hnext := ih hrest b hb
            have hsize : frameSize = 256 := rfl
            have h256 : (256 : UInt64).toNat = 256 := rfl
            rw [hsp, UInt64.toNat_add, h256] at hnext
            omega

theorem Piled.move (h : Piled mem low high sp active views) {sp' : UInt64}
    (hlow : low ≤ sp'.toNat) (hhigh : sp'.toNat ≤ high)
    (habove : ∀ a ∈ active, sp'.toNat ≤ a.frame.toNat) :
    Piled mem low high sp' active views := by
  cases active with
  | nil =>
      cases views with
      | nil => exact ⟨hlow, hhigh⟩
      | cons view views => exact h.elim
  | cons a active =>
      cases views with
      | nil => exact h.elim
      | cons view views =>
          obtain ⟨_, _, hrest⟩ := h
          exact ⟨hlow, habove a (.head _), hrest⟩

end

end UnoOS.Trap
