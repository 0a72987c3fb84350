import UnoOS.Trap.UserViews
import UnoOS.Uvm.Lifecycle

namespace UnoOS.Trap

open UnoOS.Lib
open UnoOS.Kernel (ProcId)
open UnoOS.Mem
open UnoOS.Uvm

/-! Harts that run user code and the kernel, with what the kernel does to memory for
processes: the trap frames and tables on the way through `trampoline.S` are those that
`proc_alloc`, `proc_exec` and the page fault handler leave in memory. -/

def kstackOf (p : ProcId) : UInt64 := trapframe - (UInt64.ofNat p.val + 1) * 2 * pgsize

/-- The fields of `proc_t` that the way to user code and back needs. -/
def seats (st : UvmState) (p : ProcId) : Option Seat :=
  if st.Used p then some ⟨(st.procs p).tf, (st.procs p).pgtbl, kstackOf p⟩ else none

structure UserSystem (κ : Type) where
  hart : κ → Hart
  on : κ → Option ProcId
  uvm : UvmState

inductive HartOp (κ : Type) where
  /-- User code computes in its registers. -/
  | compute (c : κ) (view : UserView)
  | trap (c : κ) (cause tval : UInt64)
  /-- Code of the kernel that does nothing for processes. -/
  | work (c : κ) (regs : Reg → UInt64) (csrs : Csr → UInt64) (pc : UInt64)
  | switch (c : κ) (p : Option ProcId)
  | advance (c : κ)
  | result (c : κ) (ret : UInt64)
  | userReturn (c : κ)

inductive ProcCall where
  | fault (stval : UInt64)
  | brk (newHeapTop : UInt64)
  | mmap (begin : UInt64) (len : UInt32)
  | munmap (begin : UInt64) (len : UInt32)
  | copyout (dst : UInt64) (src : Nat → UInt8) (len : UInt32)

inductive UserOp (κ : Type) where
  | hart (op : HartOp κ)
  /-- User code stores a byte to a page that it may write to. -/
  | store (c : κ) (va : UInt64) (byte : UInt8)
  | call (c : κ) (call : ProcCall)
  | first (c : κ) (p : ProcId) (initcode : List UInt8)
  | fork (c : κ) (child : ProcId)
  | exec (c : κ) (ip : Option ExecFile) (args : ExecArgv)
  | free (c : κ) (p : ProcId)

def HartOp.toTrap {κ : Type} (mem : Memory) : HartOp κ → TrapOp κ ProcId
  | .compute c view => .compute c view mem
  | .trap c cause tval => .trap c cause tval
  | .work c regs csrs pc => .kernel c regs csrs pc mem
  | .switch c p => .switch c p
  | .advance c => .advance c
  | .result c ret => .result c ret
  | .userReturn c => .userReturn c

def ProcCall.run (st : UvmState) (p : ProcId) : ProcCall → Option UvmState
  | .fault stval => UvmState.after (liftMem (handleFault (st.procs p).pgtbl stval)) st
  | .brk newHeapTop => UvmState.after (sysBrk p newHeapTop) st
  | .mmap begin len => UvmState.after (sysMmap p begin len) st
  | .munmap begin len => UvmState.after (sysMunmap p begin len) st
  | .copyout dst src len =>
      UvmState.after (liftMem (uvmCopyout (st.procs p).pgtbl dst src len)) st

def making (p : ProcId) (m : UvmM ProcId) (st : UvmState) : Option UvmState :=
  match m st with
  | .ok (c, st') => if c = p then some st' else none
  | .error _ => none

namespace UserSystem

variable {κ : Type} [DecidableEq κ]

def traps (sys : UserSystem κ) : TrapSystem κ ProcId where
  hart := sys.hart
  mem := sys.uvm.mem.mem
  proc := seats sys.uvm
  on := sys.on

def withTraps (sys : UserSystem κ) (st : TrapSystem κ ProcId) : UserSystem κ where
  hart := st.hart
  on := st.on
  uvm := { sys.uvm with mem := sys.uvm.mem.setMem st.mem }

def inKernel (sys : UserSystem κ) (c : κ) (uvm : Option UvmState) : Option (UserSystem κ) :=
  if (sys.hart c).user then none else uvm.map fun uvm => { sys with uvm := uvm }

def step (link : Link) (sys : UserSystem κ) : UserOp κ → Option (UserSystem κ)
  | .hart op => (sys.traps.step link (op.toTrap sys.uvm.mem.mem)).map sys.withTraps
  | .store c va byte =>
      if (sys.hart c).user then
        (sys.on c).bind fun p =>
          (storeFrame sys.uvm.mem.mem (sys.uvm.procs p).pgtbl va).map fun pa => { sys with
            uvm := { sys.uvm with
              mem := sys.uvm.mem.setMem (sys.uvm.mem.mem.write (pa.toNat + va.toNat % 4096) 1
                fun _ => byte) } }
      else none
  | .call c call => (sys.on c).bind fun p => sys.inKernel c (call.run sys.uvm p)
  | .first c p initcode => sys.inKernel c (making p (procMakeFirst initcode) sys.uvm)
  | .fork c child =>
      (sys.on c).bind fun p => sys.inKernel c (making child (procFork p) sys.uvm)
  | .exec c ip args => (sys.on c).bind fun p =>
      sys.inKernel c (UvmState.after (procExec p ip args.argv) sys.uvm)
  | .free c p => sys.inKernel c (sys.uvm.afterCall p (procFree p))

/-- Code of the kernel leaves `tp` and `satp`, the scheduler gives a hart only processes
that there are and that no other hart has, `uvm_copyout` is called for addresses below the
trap frame and takes no page in its middle for the last one, and `proc_free` is called for a
process that no hart executes. -/
def Admitted (sys : UserSystem κ) : UserOp κ → Prop
  | .hart (.work c regs csrs _) =>
      regs .tp = (sys.hart c).regs .tp ∧ csrs .satp = (sys.hart c).csrs .satp
  | .hart (.switch c p) => ∀ q, p = some q →
      sys.uvm.Used q ∧ ∀ c', c' ≠ c → sys.on c' ≠ some q
  | .call c (.copyout dst _ len) => ∀ p, sys.on c = some p →
      UserSpan sys.uvm.mem.mem (sys.uvm.procs p).pgtbl dst len
  | .free _ p => ∀ c, sys.on c ≠ some p
  | _ => True

end UserSystem

def Users.follow {κ : Type} [DecidableEq κ] (u : Users κ ProcId) :
    UserOp κ → Users κ ProcId
  | .hart op => u.step (op.toTrap fun _ => 0)
  | .first _ p _ => u.setView p (starting userVmemStart userStackBottom)
  | .fork c child => u.fork c child
  | .exec c (some file) args => u.execute c file.header.entry (UvmState.startSp args.argv)
  | .exec _ none _ | .store .. | .call .. | .free .. => u

end UnoOS.Trap
