import UnoOS.Lib.Transition

namespace UnoOS.Dev

open UnoOS.Lib

/-! The driver of the virtual disk (`virtio.c`) between the processes that call it
and the device, which works on its own.  A step of a process goes from one
acquisition of `vdisk_lock` to its release; the loop of the interrupt handler takes
a step for each completion, since the device may complete more meanwhile. -/

abbrev num : Nat := 8

def vringDescFNext : UInt16 := 1

def vringDescFWrite : UInt16 := 2

/-- `VIRTIO_BLK_T_IN` and `VIRTIO_BLK_T_OUT` -/
def blkType (write : Bool) : UInt32 := if write then 1 else 0

inductive DescAddr (β : Type) where
  | null
  /-- `buf0` on the stack of the caller. -/
  | header (type : UInt32) (sector : UInt64)
  /-- `b->data` -/
  | data (b : β)
  /-- `disk.info[i].status` -/
  | status (i : Nat)

structure VRingDesc (β : Type) where
  addr : DescAddr β
  len : UInt32
  flags : UInt16
  next : Nat

structure Flight (β : Type) where
  b : β
  idx0 : Nat
  idx1 : Nat
  idx2 : Nat
deriving DecidableEq

def Flight.chain {β : Type} (f : Flight β) : List Nat := [f.idx0, f.idx1, f.idx2]

inductive RwPc (β : Type) where
  | outside
  /-- Before `vdisk_lock`, with no descriptors. -/
  | entering (b : β) (write : Bool)
  | allocating (b : β) (write : Bool)
  /-- Asleep for `disk.free`. -/
  | sleepingFree (b : β) (write : Bool)
  /-- With `vdisk_lock`, before it looks at `b->disk`. -/
  | testing (f : Flight β)
  | sleepingBuf (f : Flight β)
  /-- Woken up, before `vdisk_lock`. -/
  | awake (f : Flight β)
deriving DecidableEq

def RwPc.flight {β : Type} : RwPc β → Option (Flight β)
  | .testing f | .sleepingBuf f | .awake f => some f
  | _ => none

def RwPc.buffer {β : Type} : RwPc β → Option β
  | .outside => none
  | .entering b _ | .allocating b _ | .sleepingFree b _ => some b
  | .testing f | .sleepingBuf f | .awake f => some f.b

inductive DiskHolder (π : Type) where
  | proc (p : π)
  | intr
deriving DecidableEq

inductive DiskFault where
  | panic (message : String)
  | nullPointer
deriving DecidableEq

structure Virtio (π β : Type) where
  desc : Nat → VRingDesc β
  /-- `avail[2...]` and `avail[1]` -/
  avail : Nat → Nat
  availIdx : UInt16
  /-- `used->elems` and `used->id` -/
  elems : Nat → Nat
  usedId : UInt16
  free : Nat → Bool
  usedIdx : UInt16
  infoB : Nat → Option β
  infoStatus : Nat → UInt8
  /-- `b->disk` and `b->block_num` -/
  disk : β → Bool
  blockNum : β → UInt32
  lock : Option (DiskHolder π)
  pc : π → RwPc β
  fault : Option DiskFault
  /-- The device: how far it has read `avail`, and the chains it works on. -/
  lastAvail : UInt16
  working : List Nat
  /-- The buffers of all requests so far; a request is known by its number here.
  These and the following are not in the source. -/
  sent : List β
  fetched : Nat
  /-- The last request with this first descriptor. -/
  tag : Nat → Nat
  /-- The requests that the device has completed, and those for which the handler has
  cleared `b->disk`, with the buffer; the requests of calls that have returned. -/
  done : List Nat
  cleared : List (Nat × β)
  returned : List Nat

inductive VirtioOp (π β : Type) where
  | call (p : π) (b : β) (write : Bool)
  | acquire (p : π)
  | alloc (p : π)
  | test (p : π)
  | intrEnter
  | intrTurn
  | intrLeave
  /-- The device reads `avail`. -/
  | fetch
  /-- The device puts a chain into `used`. -/
  | complete (head : Nat)

namespace Virtio

variable {π β : Type}

/-- `virtio_disk_init` -/
def init (blockNum : β → UInt32) : Virtio π β where
  desc := fun _ => ⟨.null, 0, 0, 0⟩
  avail := fun _ => 0
  availIdx := 0
  elems := fun _ => 0
  usedId := 0
  free := fun _ => true
  usedIdx := 0
  infoB := fun _ => none
  infoStatus := fun _ => 0
  disk := fun _ => false
  blockNum := blockNum
  lock := none
  pc := fun _ => .outside
  fault := none
  lastAvail := 0
  working := []
  sent := []
  fetched := 0
  tag := fun _ => 0
  done := []
  cleared := []
  returned := []

def setFree (s : Virtio π β) (i : Nat) (value : Bool) : Virtio π β :=
  { s with free := Function.update s.free i value }

/-- `proc_wakeup(&disk.free[0])` -/
def wakeupFree (s : Virtio π β) : Virtio π β :=
  { s with pc := fun p =>
      match s.pc p with
      | .sleepingFree b write => .entering b write
      | pc => pc }

def allocDesc (s : Virtio π β) : Option Nat × Virtio π β :=
  match (List.range num).find? s.free with
  | some i => (some i, s.setFree i false)
  | none => (none, s)

def freeDesc (s : Virtio π β) (i : Nat) : Except DiskFault (Virtio π β) :=
  if num ≤ i then .error (.panic "virtio_disk_intr 1")
  else if s.free i then .error (.panic "virtio_disk_intr 2")
  else .ok ({ s with
    desc := Function.update s.desc i { s.desc i with addr := .null }
    free := Function.update s.free i true }).wakeupFree

/-- `free_chain`; a descriptor cannot be freed twice, so `NUM` turns are enough. -/
def freeChain : Nat → Virtio π β → Nat → Except DiskFault (Virtio π β)
  | 0, s, i => s.freeDesc i
  | turns + 1, s, i => do
      let s ← s.freeDesc i
      if (s.desc i).flags &&& vringDescFNext ≠ 0 then freeChain turns s (s.desc i).next
      else pure s

def freeDescs (s : Virtio π β) : List Nat → Except DiskFault (Virtio π β)
  | [] => pure s
  | i :: is => do freeDescs (← s.freeDesc i) is

/-- The loop of `alloc3_desc`: `count` more descriptors beside those in `idx`. -/
def alloc3Loop (s : Virtio π β) (idx : List Nat) :
    Nat → Except DiskFault (Option (List Nat) × Virtio π β)
  | 0 => pure (some idx, s)
  | count + 1 =>
      match s.allocDesc with
      | (some i, s) => alloc3Loop s (idx ++ [i]) count
      | (none, s) => do
          let s ← s.freeDescs idx
          pure (none, s)

def alloc3Desc (s : Virtio π β) : Except DiskFault (Option (List Nat) × Virtio π β) :=
  s.alloc3Loop [] 3

variable [DecidableEq π] [DecidableEq β]

def setPc (s : Virtio π β) (p : π) (pc : RwPc β) : Virtio π β :=
  { s with pc := Function.update s.pc p pc }

def wakeupBuf (s : Virtio π β) (b : β) : Virtio π β :=
  { s with pc := fun p =>
      match s.pc p with
      | .sleepingBuf f => if f.b = b then .awake f else .sleepingBuf f
      | pc => pc }

def submit (s : Virtio π β) (f : Flight β) (write : Bool) : Virtio π β :=
  let sector := (s.blockNum f.b * (1024 / 512)).toUInt64
  let direction := if write then 0 else vringDescFWrite
  let desc0 := Function.update s.desc f.idx0
    ⟨.header (blkType write) sector, 16, vringDescFNext, f.idx1⟩
  let desc1 := Function.update desc0 f.idx1
    ⟨.data f.b, 1024, direction ||| vringDescFNext, f.idx2⟩
  { s with
    desc := Function.update desc1 f.idx2 ⟨.status f.idx0, 1, vringDescFWrite, 0⟩
    infoStatus := Function.update s.infoStatus f.idx0 0
    disk := Function.update s.disk f.b true
    infoB := Function.update s.infoB f.idx0 (some f.b)
    avail := Function.update s.avail (s.availIdx.toNat % num) f.idx0
    availIdx := s.availIdx + 1
    sent := s.sent ++ [f.b]
    tag := Function.update s.tag f.idx0 s.sent.length }

def allocStep (s : Virtio π β) (p : π) (b : β) (write : Bool) : Virtio π β :=
  match s.alloc3Desc with
  | .error fault => { s with fault := some fault }
  | .ok (some [idx0, idx1, idx2], s) =>
      (s.submit ⟨b, idx0, idx1, idx2⟩ write).setPc p (.testing ⟨b, idx0, idx1, idx2⟩)
  | .ok (_, s) => { s.setPc p (.sleepingFree b write) with lock := none }

/-- The rest of `virtio_disk_rw`. -/
def testStep (s : Virtio π β) (p : π) (f : Flight β) : Virtio π β :=
  if s.disk f.b then { s.setPc p (.sleepingBuf f) with lock := none }
  else
    match freeChain num { s with infoB := Function.update s.infoB f.idx0 none } f.idx0 with
    | .error fault => { s with fault := some fault }
    | .ok s' =>
        { s'.setPc p .outside with
          lock := none
          returned := s.returned ++ [s.tag f.idx0] }

/-- The body of the loop of `virtio_disk_intr`. -/
def intrTurn (s : Virtio π β) : Virtio π β :=
  let id := s.elems s.usedIdx.toNat
  if s.infoStatus id ≠ 0 then
    { s with fault := some (.panic "virtio_disk_intr status") }
  else
    match s.infoB id with
    | none => { s with fault := some .nullPointer }
    | some b =>
        ({ s with
          disk := Function.update s.disk b false
          usedIdx := (s.usedIdx + 1) % 8
          cleared := s.cleared ++ [(s.tag id, b)] }).wakeupBuf b

/-- Whether the handler sees more completions. -/
def More (s : Virtio π β) : Prop := s.usedIdx % 8 ≠ s.usedId % 8

instance (s : Virtio π β) : Decidable s.More :=
  inferInstanceAs (Decidable (s.usedIdx % 8 ≠ s.usedId % 8))

def fetchNext (s : Virtio π β) : Virtio π β :=
  { s with
    working := s.working ++ [s.avail (s.lastAvail.toNat % num)]
    lastAvail := s.lastAvail + 1
    fetched := s.fetched + 1 }

def complete (s : Virtio π β) (head : Nat) : Virtio π β :=
  { s with
    elems := Function.update s.elems (s.usedId.toNat % num) head
    usedId := s.usedId + 1
    infoStatus := Function.update s.infoStatus head 0
    working := s.working.erase head
    done := s.done ++ [s.tag head] }

def step [Fintype π] (s : Virtio π β) : VirtioOp π β → Option (Virtio π β)
  | .call p b write =>
      if s.pc p = .outside ∧ ∀ q, (s.pc q).buffer ≠ some b then
        some (s.setPc p (.entering b write))
      else none
  | .acquire p =>
      if s.lock = none then
        match s.pc p with
        | .entering b write =>
            some { s.setPc p (.allocating b write) with lock := some (.proc p) }
        | .awake f => some { s.setPc p (.testing f) with lock := some (.proc p) }
        | _ => none
      else none
  | .alloc p =>
      match s.pc p with
      | .allocating b write => some (s.allocStep p b write)
      | _ => none
  | .test p =>
      match s.pc p with
      | .testing f => some (s.testStep p f)
      | _ => none
  | .intrEnter => if s.lock = none then some { s with lock := some .intr } else none
  | .intrTurn =>
      if s.lock = some .intr ∧ s.More then some s.intrTurn else none
  | .intrLeave =>
      if s.lock = some .intr ∧ ¬ s.More then some { s with lock := none } else none
  | .fetch => if s.lastAvail ≠ s.availIdx then some s.fetchNext else none
  | .complete head => if head ∈ s.working then some (s.complete head) else none

end Virtio

end UnoOS.Dev
