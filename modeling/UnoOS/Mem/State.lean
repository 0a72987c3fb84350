import UnoOS.Fs.Layout
import UnoOS.Mem.Layout

namespace UnoOS.Mem

open UnoOS.Lib
open UnoOS.Fs (Stop)

/-! Physical memory and the two regions that `pmem.c` hands out pages of. -/

/-- `alloc_region_t`; `next` is `list_head.next`, zero at the end of the list. -/
structure Region where
  begin : UInt64
  end_ : UInt64
  allocable : UInt32
  next : UInt64

/-- An address below 2^64 that a page may start at and that lies in the
region: what `pmem_free` checks. -/
def Region.Contains (region : Region) (page : UInt64) : Prop :=
  page % pgsize = 0 ∧ region.begin ≤ page ∧ page < region.end_

instance (region : Region) (page : UInt64) : Decidable (region.Contains page) :=
  inferInstanceAs (Decidable (_ ∧ _ ∧ _))

structure MemState where
  mem : Memory
  kernRegion : Region
  userRegion : Region
  kernelPgtbl : UInt64
  /-- The pages passed to `pmem_free` so far, the latest first.  Nothing in the
  kernel reads this. -/
  freed : List UInt64

abbrev MemM := Exec MemState Stop

namespace MemState

def region (s : MemState) (inKernel : Bool) : Region :=
  if inKernel then s.kernRegion else s.userRegion

def setRegion (s : MemState) (inKernel : Bool) (region : Region) : MemState :=
  if inKernel then { s with kernRegion := region }
  else { s with userRegion := region }

def setMem (s : MemState) (mem : Memory) : MemState := { s with mem := mem }

variable (s : MemState) (k k' : Bool) (r : Region) (m : Memory)

@[simp] theorem region_setRegion : (s.setRegion k r).region k = r := by
  cases k <;> rfl

theorem region_setRegion_of_ne (h : k' ≠ k) :
    (s.setRegion k r).region k' = s.region k' := by
  cases k <;> cases k' <;> simp_all [region, setRegion]

@[simp] theorem mem_setRegion : (s.setRegion k r).mem = s.mem := by
  cases k <;> rfl

@[simp] theorem kernelPgtbl_setRegion :
    (s.setRegion k r).kernelPgtbl = s.kernelPgtbl := by
  cases k <;> rfl

@[simp] theorem freed_setRegion : (s.setRegion k r).freed = s.freed := by
  cases k <;> rfl

@[simp] theorem region_setMem : (s.setMem m).region k = s.region k := rfl

@[simp] theorem mem_setMem : (s.setMem m).mem = m := rfl

@[simp] theorem kernelPgtbl_setMem :
    (s.setMem m).kernelPgtbl = s.kernelPgtbl := rfl

@[simp] theorem freed_setMem : (s.setMem m).freed = s.freed := rfl

end MemState

def massert (condition : Prop) [Decidable condition] (message : String) :
    MemM Unit :=
  Exec.require condition (.panic message)

def readRegion (inKernel : Bool) : MemM Region := do
  return (← get).region inKernel

def writeRegion (inKernel : Bool) (region : Region) : MemM Unit :=
  modify fun s => s.setRegion inKernel region

def readMem : MemM Memory := do
  return (← get).mem

def updateMem (update : Memory → Memory) : MemM Unit :=
  modify fun s => s.setMem (update s.mem)

def logFree (page : UInt64) : MemM Unit :=
  modify fun s => { s with freed := page :: s.freed }

section

variable {α : Type}

theorem logFree_bind (page : UInt64) (f : Unit → MemM α) (s : MemState) :
    (logFree page >>= f) s = f () { s with freed := page :: s.freed } := rfl

theorem readRegion_bind (k : Bool) (f : Region → MemM α) (s : MemState) :
    (readRegion k >>= f) s = f (s.region k) s := rfl

theorem writeRegion_bind (k : Bool) (region : Region) (f : Unit → MemM α)
    (s : MemState) :
    (writeRegion k region >>= f) s = f () (s.setRegion k region) := rfl

theorem readMem_bind (f : Memory → MemM α) (s : MemState) :
    (readMem >>= f) s = f s.mem s := rfl

theorem updateMem_bind (update : Memory → Memory) (f : Unit → MemM α)
    (s : MemState) :
    (updateMem update >>= f) s = f () (s.setMem (update s.mem)) := rfl

theorem massert_bind_eq_ok {condition : Prop} [Decidable condition]
    {message : String} {f : Unit → MemM α} {s : MemState}
    {result : α × MemState} :
    (massert condition message >>= f) s = .ok result ↔
      condition ∧ f () s = .ok result :=
  Exec.require_bind_eq_ok

end

/-! Pages. -/

def InPage (page : UInt64) (x : Nat) : Prop :=
  page.toNat ≤ x ∧ x < page.toNat + 4096

instance (page : UInt64) (x : Nat) : Decidable (InPage page x) :=
  inferInstanceAs (Decidable (_ ∧ _))

/-- The memories differ in the page at most. -/
def OnlyPage (page : UInt64) (m m' : Memory) : Prop :=
  ∀ x, ¬ InPage page x → m' x = m x

def SamePage (page : UInt64) (m m' : Memory) : Prop :=
  ∀ x, InPage page x → m' x = m x

theorem SamePage.trans {page : UInt64} {m m' m'' : Memory}
    (h : SamePage page m m') (h' : SamePage page m' m'') :
    SamePage page m m'' := by
  intro x hx
  rw [h' x hx, h x hx]

theorem OnlyPage.trans {page : UInt64} {m m' m'' : Memory}
    (h : OnlyPage page m m') (h' : OnlyPage page m' m'') :
    OnlyPage page m m'' := by
  intro x hx
  rw [h' x hx, h x hx]

theorem pages_apart {page page' : UInt64} {x : Nat}
    (haligned : page.toNat % 4096 = 0) (haligned' : page'.toNat % 4096 = 0)
    (hne : page ≠ page') (hx : InPage page x) : ¬ InPage page' x := by
  have hdiff : page.toNat ≠ page'.toNat := fun heq => hne (UInt64.toNat_inj.mp heq)
  unfold InPage at hx ⊢
  omega

theorem OnlyPage.samePage {page page' : UInt64} {m m' : Memory}
    (h : OnlyPage page m m') (haligned : page.toNat % 4096 = 0)
    (haligned' : page'.toNat % 4096 = 0) (hne : page' ≠ page) :
    SamePage page' m m' :=
  fun x hx => h x (pages_apart haligned' haligned hne hx)

theorem onlyPage_write (page : UInt64) (m : Memory) (off len : Nat)
    (src : Nat → UInt8) (h : off + len ≤ 4096) :
    OnlyPage page m (m.write (page.toNat + off) len src) := by
  intro x hx
  apply Memory.write_of_not_mem
  unfold InPage at hx
  omega

theorem onlyPage_store32 (page : UInt64) (m : Memory) (off : Nat) (v : UInt32)
    (h : off + 4 ≤ 4096) :
    OnlyPage page m (m.store32 (page.toNat + off) v) :=
  onlyPage_write page m off 4 _ h

theorem onlyPage_store64 (page : UInt64) (m : Memory) (off : Nat) (v : UInt64)
    (h : off + 8 ≤ 4096) :
    OnlyPage page m (m.store64 (page.toNat + off) v) :=
  onlyPage_write page m off 8 _ h

theorem onlyPage_memset (page : UInt64) (m : Memory) (data : UInt8) :
    OnlyPage page m (m.memset page.toNat data 4096) :=
  onlyPage_write page m 0 4096 _ (by omega)

theorem SamePage.load64 {page : UInt64} {m m' : Memory}
    (h : SamePage page m m') (off : Nat) (hoff : off + 8 ≤ 4096) :
    m'.load64 (page.toNat + off) = m.load64 (page.toNat + off) := by
  apply Memory.load64_congr
  intro k hk
  apply h
  unfold InPage
  omega

end UnoOS.Mem
