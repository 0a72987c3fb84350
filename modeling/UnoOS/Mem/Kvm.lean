import UnoOS.Mem.Pmem

namespace UnoOS.Mem

open UnoOS.Lib

/-! `kvm.c`: page tables of three levels, as 512 entries of eight bytes a page. -/

abbrev pgtableToplevel : Nat := 2

abbrev Vpn := Fin 512

instance neZero_512 : NeZero 512 := ⟨by decide⟩

theorem vaToVpn_lt (va : UInt64) (level : Nat) :
    (vaToVpn va level).toNat < 512 := by
  unfold vaToVpn
  rw [UInt64.toNat_and]
  exact Nat.lt_of_le_of_lt Nat.and_le_right (by decide)

def vpn (va : UInt64) (level : Nat) : Vpn :=
  ⟨(vaToVpn va level).toNat, vaToVpn_lt va level⟩

def entryAddr (pgtbl : UInt64) (idx : Vpn) : Nat := pgtbl.toNat + 8 * idx.val

def entry (m : Memory) (pgtbl : UInt64) (idx : Vpn) : UInt64 :=
  m.load64 (entryAddr pgtbl idx)

/-- The loop of `vm_getpte` from a level down to the last one, as the table it
ends with. -/
def vmGetpteLoop (roundVa : UInt64) (alloc : Bool) :
    (level : Nat) → (currentPgtbl : UInt64) → MemM (Option UInt64)
  | 0, currentPgtbl => return some currentPgtbl
  | level + 1, currentPgtbl => do
      let idx := vpn roundVa (level + 1)
      let pte := entry (← readMem) currentPgtbl idx
      if pteValid pte then
        vmGetpteLoop roundVa alloc level (pteToPa pte)
      else if alloc then do
        let table ← pmemAlloc true
        updateMem fun m => m.memset table.toNat 0 4096
        updateMem fun m =>
          m.store64 (entryAddr currentPgtbl idx) (paToPte table ||| pteV)
        vmGetpteLoop roundVa alloc level table
      else
        return none

/-- The address of the entry for `va`, if there is one. -/
def vmGetpte (pgtbl va : UInt64) (alloc : Bool) : MemM (Option Nat) := do
  massert (va ≤ vaMax) "vm_getpte: invalid virtual address:%x"
  massert (pgtbl ≠ 0)
    "vm_getpte: Not suggested, please give kernel_pgtbl instead of NULL"
  match ← vmGetpteLoop (pgrounddown va) alloc pgtableToplevel pgtbl with
  | some table => return some (entryAddr table (vpn va 0))
  | none => return none

/-- The number of pages that the loops over `[va, va + len)` visit. -/
def pageCount (va len : UInt64) : Nat :=
  let end_ := pgrounddown (va + len - 1)
  if va ≤ end_ then (end_.toNat - va.toNat) / 4096 + 1 else 0

/-- The loop of `vm_mappages`; `perm` is the `int` converted to 64 bits. -/
def vmMappagesLoop (pgtbl pa perm : UInt64) :
    (pages : Nat) → (beg dst : UInt64) → MemM Unit
  | 0, _, _ => return
  | pages + 1, beg, dst => do
      match ← vmGetpte pgtbl beg true with
      | none =>
          Exec.stop (.panic "vm_mappages: cannot find pte for va:%x")
      | some pte => do
          let old := (← readMem).load64 pte
          massert (¬ pteValid old ∨ pteToPa old = pa) "vm_mappages: remap at %p"
          updateMem fun m => m.store64 pte (paToPte dst ||| perm ||| pteV)
          vmMappagesLoop pgtbl pa perm pages (beg + pgsize) (dst + pgsize)

def vmMappages (pgtbl va pa len perm : UInt64) : MemM Unit := do
  massert (va % pgsize = 0 ∧ pa % pgsize = 0)
    "vm_mappages: page alignment required.\n\t va: %x pa %x"
  massert (0 < len) "vm_mappages: length should > 0\n"
  massert (va + len - 1 < vaMax) "vm_mappages: va + len -1= %x >= VA_MAX\n\t"
  vmMappagesLoop pgtbl pa perm (pageCount va len) va pa

/-- The `freeit` branch of `vm_unmappages`. -/
def freeFrame (freeit : Bool) (page pgtbl : UInt64) : MemM Unit := do
  if freeit then
    pmemFree page (decide (pgtbl = (← get).kernelPgtbl))
  else
    return

def vmUnmappagesLoop (pgtbl : UInt64) (freeit : Bool) :
    (pages : Nat) → (beg : UInt64) → MemM Unit
  | 0, _ => return
  | pages + 1, beg => do
      match ← vmGetpte pgtbl beg false with
      | none =>
          Exec.stop (.panic "vm_unmappages: cannot find pte for va:%p")
      | some pte => do
          let old := (← readMem).load64 pte
          massert (pteValid old) "vm_unmappages: %p already unmapped."
          massert (pteFlags old ≠ pteV) "vm_unmappages: %x is NOT a leaf page."
          freeFrame freeit (pteToPa old) pgtbl
          updateMem fun m => m.store64 pte 0
          vmUnmappagesLoop pgtbl freeit pages (beg + pgsize)

def vmUnmappages (pgtbl va len : UInt64) (freeit : Bool) : MemM Unit := do
  massert (va % pgsize = 0)
    "vm_unmappages: page alignment required.\n\t va: %x"
  massert (0 < len) "vm_unmappages: length should > 0\n"
  massert (va + len - 1 < vaMax) "vm_unmappages: va + len = %x >= VA_MAX\n\t"
  vmUnmappagesLoop pgtbl freeit (pageCount va len) va

end UnoOS.Mem
