import UnoOS.Kernel.FileCounts
import UnoOS.Kernel.PipeClose

namespace UnoOS.Kernel

open UnoOS.Lib
open UnoOS.Fs
open UnoOS.Mem

/-! `sys_pipe` with the page of the pipe.  `pmem_free` counts references in bytes 8 to 11
of a page, and in the page of a pipe these are the low half of `lock.name`. -/

abbrev PipeM := Exec (KernelState × MemState) Stop

section

variable {α : Type}

def onFiles (m : KernelM α) : PipeM α := fun st =>
  match m st.1 with
  | .ok (value, k) => .ok (value, k, st.2)
  | .error reason => .error reason

def onPages (m : MemM α) : PipeM α := fun st =>
  match m st.2 with
  | .ok (value, s) => .ok (value, st.1, s)
  | .error reason => .error reason

variable {st st' : KernelState × MemState} {value : α}

theorem onFiles_eq_ok {m : KernelM α} :
    onFiles m st = .ok (value, st') ↔ m st.1 = .ok (value, st'.1) ∧ st'.2 = st.2 := by
  unfold onFiles
  cases m st.1 with
  | error reason => simp
  | ok pair => simp [Prod.ext_iff, and_assoc, eq_comm]

theorem onPages_eq_ok {m : MemM α} :
    onPages m st = .ok (value, st') ↔ m st.2 = .ok (value, st'.2) ∧ st'.1 = st.1 := by
  unfold onPages
  cases m st.2 with
  | error reason => simp
  | ok pair => simp [Prod.ext_iff, and_comm, and_left_comm, eq_comm]

end

structure Literal where
  addr : UInt64
  low : kernelBase ≤ addr
  high : addr < allocEnd

def spinlockInit (lk : UInt64) (name : Literal) : MemM Unit := do
  updateMem fun m => m.store32 (lk.toNat + 16) 0xFFFFFFFF
  updateMem fun m => m.store32 lk.toNat 0
  updateMem fun m => m.store64 (lk.toNat + 8) name.addr

/-- `pipe_alloc` up to its files -/
def pipeInit (pipe : UInt64) (name : Literal) : MemM Unit := do
  spinlockInit pipe name
  updateMem fun m => m.store32 (openAddr pipe false) 1
  updateMem fun m => m.store32 (openAddr pipe true) 1
  updateMem fun m => m.store32 (pipe.toNat + 524) 0
  updateMem fun m => m.store32 (pipe.toNat + 528) 0

def pipeClosePage (pipe : UInt64) (writable : Bool) : MemM Unit := do
  pipeCloseFlag pipe writable
  let _ ← pipeCloseTest pipe

namespace PipeM

def pipeAlloc (name : Literal) : PipeM (FileId × FileId) := do
  let pipe ← onPages (pmemAlloc true)
  onPages (pipeInit pipe name)
  onFiles (Kernel.pipeAlloc pipe.toNat)

def fileClose (f : FileId) : PipeM Unit := do
  let file ← onFiles (readFile f)
  onFiles (Kernel.fileClose f)
  if file.ref = 1 ∧ file.type = fdPipe then
    let pipe ← onFiles (deref file.pipe)
    onPages (pipeClosePage (UInt64.ofNat pipe) file.writable)

def sysPipe (p : ProcId) (name : Literal) : PipeM UInt32 := do
  let (read, write) ← pipeAlloc name
  let readfd ← onFiles (fdAlloc p read)
  let writefd ← onFiles (fdAlloc p write)
  if readfd = none ∨ writefd = none then
    onFiles (storeFd p read readfd)
    fileClose read
    fileClose write
    return pipeError
  else
    return 0

end PipeM

/-! The page. -/

section

variable {s s' : MemState} {pipe : UInt64} {name : Literal} {value : Unit}

theorem Literal.toUInt32_toNat (name : Literal) :
    name.addr.toUInt32.toNat = name.addr.toNat ∧ 2 < name.addr.toNat := by
  have hlow := UInt64.le_iff_toNat_le.mp name.low
  have hhigh := UInt64.lt_iff_toNat_lt.mp name.high
  have hbase : kernelBase.toNat = 0x80000000 := rfl
  have hend : allocEnd.toNat = 0x88000000 := rfl
  refine ⟨?_, by omega⟩
  rw [UInt64.toNat_toUInt32]
  exact Nat.mod_eq_of_lt (by omega)

theorem refCnt_store32 (m : Memory) {offset : Nat} (v : UInt32) (h : 12 ≤ offset) :
    refCnt (m.store32 (pipe.toNat + offset) v) pipe = refCnt m pipe :=
  Memory.load32_write_of_disjoint (.inl (by unfold refCntAddr; omega))

theorem refCnt_openAddr (m : Memory) (writable : Bool) (v : UInt32) :
    refCnt (m.store32 (openAddr pipe writable) v) pipe = refCnt m pipe := by
  cases writable with
  | false => exact refCnt_store32 m v (by decide)
  | true => exact refCnt_store32 m v (by decide)

theorem pipeInit_eq_ok (h : pipeInit pipe name s = .ok (value, s')) :
    (∀ k, s'.region k = s.region k) ∧ refCnt s'.mem pipe = name.addr.toUInt32 := by
  cases h
  refine ⟨fun k => by cases k <;> rfl, ?_⟩
  simp only [MemState.mem_setMem]
  rw [refCnt_store32 _ _ (by decide), refCnt_store32 _ _ (by decide), refCnt_openAddr,
    refCnt_openAddr]
  exact Memory.load32_store64_self _ _ _

/-- As long as the count is not down to 1, nothing is put on the free list. -/
theorem pipeClosePage_unlisted {n : Nat} {writable : Bool}
    (hcnt : n + 1 < (refCnt s.mem pipe).toNat)
    (h : pipeClosePage pipe writable s = .ok (value, s')) :
    (∀ k, s'.region k = s.region k) ∧ n < (refCnt s'.mem pipe).toNat := by
  unfold pipeClosePage pipeCloseFlag pipeCloseTest at h
  rw [updateMem_bind, bind_assoc, readMem_bind] at h
  rw [← refCnt_openAddr s.mem writable 0] at hcnt
  split at h
  · rw [bind_assoc, Exec.bind_eq_ok] at h
    obtain ⟨_, s₁, hfree, h⟩ := h
    obtain ⟨_, rfl⟩ := pmemFree_eq_ok.mp hfree
    cases h
    rw [if_neg]
    · refine ⟨fun k => by cases k <;> rfl, ?_⟩
      change n < (refCnt (Memory.store32 _ (refCntAddr pipe) _) pipe).toNat
      unfold refCnt at hcnt ⊢
      rw [Memory.load32_store32_self, UInt32.toNat_sub]
      change n < (2 ^ 32 - 1 + _) % 2 ^ 32
      have hlt := (Memory.load32 (s.mem.store32 (openAddr pipe writable) 0)
        (refCntAddr pipe)).toNat_lt
      dsimp only [MemState.mem_setMem]
      omega
    · intro hone
      dsimp only [MemState.mem_setMem] at hone
      rw [hone] at hcnt
      change n + 1 < 1 at hcnt
      omega
  · cases h
    exact ⟨fun k => by cases k <;> rfl, Nat.lt_of_succ_lt hcnt⟩

end

end UnoOS.Kernel
