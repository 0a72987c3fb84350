import UnoOS.Kernel.State
import UnoOS.Mem.Kvm

namespace UnoOS.Uvm

open UnoOS.Lib
open UnoOS.Fs (Stop)
open UnoOS.Kernel (ProcId ProcState)
open UnoOS.Mem

/-! The address spaces of processes: `mmap.c` and the fields of `proc_t` that
describe user memory. -/

abbrev nMmap : Nat := 256

abbrev MmapId := Fin nMmap

/-- `mmap_region_node_t`, with the fields of its `mmap_region_t`. -/
structure MmapRegion where
  begin : UInt64
  npages : UInt32
  next : Option MmapId
  /-- `next` of the node, which links the pool. -/
  link : Option MmapId

/-- `begin + npages * PGSIZE`, whose product has 32 bits. -/
def MmapRegion.end_ (region : MmapRegion) : UInt64 :=
  region.begin + (region.npages * 4096).toUInt64

structure Space where
  state : ProcState
  pgtbl : UInt64
  heapTop : UInt64
  ustackPages : UInt64
  tf : UInt64
  mmap : Option MmapId

def Space.free : Space where
  state := .unused
  pgtbl := 0
  heapTop := 0
  ustackPages := 0
  tf := 0
  mmap := none

structure UvmState where
  mem : MemState
  regions : MmapId → MmapRegion
  procs : ProcId → Space
  /-- The page of `trampoline.S` in the kernel image. -/
  trampolinePage : UInt64

abbrev UvmM := Exec UvmState Stop

def liftMem {α : Type} (m : MemM α) : UvmM α := fun st =>
  match m st.mem with
  | .ok (value, mem) => .ok (value, { st with mem := mem })
  | .error reason => .error reason

def uassert (condition : Prop) [Decidable condition] (message : String) :
    UvmM Unit :=
  Exec.require condition (.panic message)

def readRegion (id : MmapId) : UvmM MmapRegion := do
  return (← get).regions id

def writeRegion (id : MmapId) (region : MmapRegion) : UvmM Unit :=
  modify fun st => { st with regions := Function.update st.regions id region }

def readSpace (p : ProcId) : UvmM Space := do
  return (← get).procs p

def writeSpace (p : ProcId) (space : Space) : UvmM Unit :=
  modify fun st => { st with procs := Function.update st.procs p space }

def deref : Option MmapId → UvmM MmapId
  | some id => pure id
  | none => Exec.stop .nullPointer

/-! The pool of regions.  `list_head` is the first node, which stays there. -/

def listHead : MmapId := 0

def mmapInit : MmapId → MmapRegion := fun id => {
  begin := mmapBegin
  npages := 0
  next := none
  link := if h : id.val + 1 < nMmap then some ⟨id.val + 1, h⟩ else none }

def mmapRegionAlloc (init : Bool) : UvmM MmapId := do
  match (← readRegion listHead).link with
  | none => Exec.stop (.panic "mmap_region_alloc failed")
  | some id => do
      let region ← readRegion id
      if init then
        writeRegion id { region with
          begin := mmapBegin
          npages := ((mmapEnd - mmapBegin) / pgsize).toUInt32
          next := none }
      let head ← readRegion listHead
      writeRegion listHead { head with link := region.link }
      return id

def mmapRegionFree (id : MmapId) : UvmM Unit := do
  let head ← readRegion listHead
  let region ← readRegion id
  writeRegion id { region with link := head.link }
  let head ← readRegion listHead
  writeRegion listHead { head with link := some id }

section

variable {α : Type}

theorem liftMem_eq_ok {m : MemM α} {st st' : UvmState} {value : α} :
    liftMem m st = .ok (value, st') ↔
      ∃ mem, m st.mem = .ok (value, mem) ∧ st' = { st with mem := mem } := by
  unfold liftMem
  cases hm : m st.mem with
  | error reason => simp
  | ok result =>
      obtain ⟨value', mem⟩ := result
      simp only [Except.ok.injEq, Prod.mk.injEq]
      constructor
      · rintro ⟨rfl, rfl⟩
        exact ⟨mem, ⟨rfl, rfl⟩, rfl⟩
      · rintro ⟨_, ⟨rfl, rfl⟩, rfl⟩
        exact ⟨rfl, rfl⟩

theorem liftMem_bind_eq_ok {β : Type} {m : MemM α} {f : α → UvmM β}
    {st st' : UvmState} {result : β} :
    (liftMem m >>= f) st = .ok (result, st') ↔
      ∃ value mem, m st.mem = .ok (value, mem) ∧
        f value { st with mem := mem } = .ok (result, st') := by
  rw [Exec.bind_eq_ok]
  constructor
  · rintro ⟨value, st₁, hfirst, hrest⟩
    obtain ⟨mem, hm, rfl⟩ := liftMem_eq_ok.mp hfirst
    exact ⟨value, mem, hm, hrest⟩
  · rintro ⟨value, mem, hm, hrest⟩
    exact ⟨value, _, liftMem_eq_ok.mpr ⟨mem, hm, rfl⟩, hrest⟩

theorem readRegion_bind (id : MmapId) (f : MmapRegion → UvmM α) (st : UvmState) :
    (readRegion id >>= f) st = f (st.regions id) st := rfl

theorem readSpace_bind (p : ProcId) (f : Space → UvmM α) (st : UvmState) :
    (readSpace p >>= f) st = f (st.procs p) st := rfl

theorem writeRegion_bind (id : MmapId) (region : MmapRegion) (f : Unit → UvmM α)
    (st : UvmState) :
    (writeRegion id region >>= f) st =
      f () { st with regions := Function.update st.regions id region } := rfl

theorem writeSpace_bind (p : ProcId) (space : Space) (f : Unit → UvmM α)
    (st : UvmState) :
    (writeSpace p space >>= f) st =
      f () { st with procs := Function.update st.procs p space } := rfl

end

end UnoOS.Uvm
