import UnoOS.Lib.Straight
import UnoOS.Mem.PageTable

namespace UnoOS.Trap

open UnoOS.Lib
open UnoOS.Lib.Straight
open UnoOS.Mem

/-! A hart: registers, the control registers of `riscv.h` that traps are about, address
translation, and what the processor does at a trap and at `sret`. -/

inductive Reg where
  | ra | sp | gp | tp
  | t0 | t1 | t2
  | s0 | s1
  | a0 | a1 | a2 | a3 | a4 | a5 | a6 | a7
  | s2 | s3 | s4 | s5 | s6 | s7 | s8 | s9 | s10 | s11
  | t3 | t4 | t5 | t6
deriving DecidableEq

inductive Csr where
  | satp | stvec | sepc | scause | stval | sstatus | sip | sscratch | mscratch
deriving DecidableEq

abbrev sstatusSpp : UInt64 := (1 : UInt64) <<< 8

abbrev sstatusSpie : UInt64 := (1 : UInt64) <<< 5

abbrev sstatusSie : UInt64 := (1 : UInt64) <<< 1

abbrev satpSv39 : UInt64 := (8 : UInt64) <<< 60

def makeSatp (pagetable : UInt64) : UInt64 := satpSv39 ||| (pagetable >>> 12)

/-- The table that `satp` names in its low 44 bits. -/
def satpRoot (satp : UInt64) : UInt64 := (satp <<< 20) >>> 8

/-- Code of the kernel reaches no page of user code. -/
def permits (access : Access) (pte : UInt64) : Bool :=
  pte &&& pteU = 0 &&
    match access with
    | .load => pte &&& pteR != 0
    | .store => pte &&& pteW != 0

/-- Translation in S-mode, by the tables that `satp` names.  The kernel makes no large
pages. -/
def paged : Translation Csr := fun access csrs mem va =>
  if va < vaMax then
    match translate mem (satpRoot (csrs .satp)) va with
    | some pte =>
        if permits access pte then some ((pteToPa pte).toNat + va.toNat % 4096) else none
    | none => none
  else none

def bare : Translation Csr := fun _ _ _ va => some va.toNat

structure Hart where
  regs : Reg → UInt64
  csrs : Csr → UInt64
  pc : UInt64
  /-- In U-mode; else in S-mode. -/
  user : Bool

namespace Hart

def setCsr (h : Hart) (c : Csr) (v : UInt64) : Hart :=
  { h with csrs := Function.update h.csrs c v }

@[simp] theorem setCsr_self (h : Hart) (c : Csr) (v : UInt64) : (h.setCsr c v).csrs c = v :=
  Function.update_self _ _ _

theorem setCsr_of_ne (h : Hart) {c k : Csr} (v : UInt64) (hne : k ≠ c) :
    (h.setCsr c v).csrs k = h.csrs k := Function.update_of_ne hne _ _

def machine (h : Hart) (mem : Memory) : Machine Reg Csr := ⟨h.regs, h.csrs, mem⟩

def continueAt (h : Hart) (m : Machine Reg Csr) (pc : UInt64) : Hart :=
  { h with regs := m.regs, csrs := m.csrs, pc := pc }

end Hart

/-- `sstatus` after a trap: the mode and `SIE` are put aside, and interrupts are off. -/
def trapStatus (user : Bool) (x : UInt64) : UInt64 :=
  let x := if user then x &&& ~~~sstatusSpp else x ||| sstatusSpp
  let x := if x &&& sstatusSie ≠ 0 then x ||| sstatusSpie else x &&& ~~~sstatusSpie
  x &&& ~~~sstatusSie

/-- `sstatus` after `sret`. -/
def sretStatus (x : UInt64) : UInt64 :=
  let y := if x &&& sstatusSpie ≠ 0 then x ||| sstatusSie else x &&& ~~~sstatusSie
  (y ||| sstatusSpie) &&& ~~~sstatusSpp

def Hart.takeTrap (h : Hart) (cause tval : UInt64) : Hart :=
  let csrs := Function.update h.csrs .sepc h.pc
  let csrs := Function.update csrs .scause cause
  let csrs := Function.update csrs .stval tval
  let csrs := Function.update csrs .sstatus (trapStatus h.user (h.csrs .sstatus))
  { h with csrs := csrs, pc := h.csrs .stvec, user := false }

def Hart.sret (h : Hart) : Hart :=
  { h with
    csrs := Function.update h.csrs .sstatus (sretStatus (h.csrs .sstatus))
    pc := h.csrs .sepc
    user := h.csrs .sstatus &&& sstatusSpp = 0 }

/-! Bits of `sstatus`. -/

theorem or_and_of_apart {x a b : UInt64} (h : a &&& b = 0) : (x ||| a) &&& b = x &&& b := by
  have hbits : a.toBitVec &&& b.toBitVec = 0#64 := congrArg UInt64.toBitVec h
  apply UInt64.toBitVec_inj.mp
  rw [UInt64.toBitVec_and, UInt64.toBitVec_or, BitVec.and_comm, BitVec.and_or_distrib_left,
    BitVec.and_comm b.toBitVec a.toBitVec, hbits, BitVec.or_zero, BitVec.and_comm]
  rfl

theorem and_not_and {x a b : UInt64} (h : a &&& b = 0) : x &&& ~~~a &&& b = x &&& b := by
  have hbits : a.toBitVec &&& b.toBitVec = 0#64 := congrArg UInt64.toBitVec h
  apply UInt64.toBitVec_inj.mp
  apply BitVec.eq_of_getElem_eq
  intro i hi
  have hbit : (a.toBitVec &&& b.toBitVec)[i] = false := by
    rw [hbits]
    exact BitVec.getElem_zero hi
  simp at hbit ⊢
  grind

theorem and_not_and_self (x a : UInt64) : x &&& ~~~a &&& a = 0 := by
  rw [UInt64.and_assoc, UInt64.and_comm (~~~a), UInt64.and_not_self, UInt64.and_zero]

theorem or_and_self_right (x a : UInt64) : (x ||| a) &&& a = a := by
  apply UInt64.toBitVec_inj.mp
  apply BitVec.eq_of_getElem_eq
  intro i hi
  simp only [UInt64.toBitVec_and, UInt64.toBitVec_or, BitVec.getElem_and, BitVec.getElem_or]
  cases x.toBitVec[i] <;> simp

theorem trapStatus_spp (x : UInt64) : trapStatus true x &&& sstatusSpp = 0 := by
  unfold trapStatus
  rw [and_not_and (by decide), if_pos rfl]
  split
  · rw [or_and_of_apart (by decide), and_not_and_self]
  · rw [and_not_and (by decide), and_not_and_self]

/-- A trap of the kernel shows where it comes from, and that interrupts were on. -/
theorem trapStatus_kernel {x : UInt64} (h : x &&& sstatusSie ≠ 0) :
    trapStatus false x &&& sstatusSpp ≠ 0 ∧ trapStatus false x &&& sstatusSie = 0 ∧
      trapStatus false x &&& sstatusSpie ≠ 0 := by
  have hsie : (x ||| sstatusSpp) &&& sstatusSie ≠ 0 := by
    rw [or_and_of_apart (by decide)]
    exact h
  have heq : trapStatus false x = (x ||| sstatusSpp ||| sstatusSpie) &&& ~~~sstatusSie := by
    unfold trapStatus
    rw [if_neg Bool.false_ne_true]
    dsimp only
    rw [if_pos hsie]
  rw [heq]
  refine ⟨?_, and_not_and_self _ _, ?_⟩
  · rw [and_not_and (by decide), or_and_of_apart (by decide), or_and_self_right]
    decide
  · rw [and_not_and (by decide), or_and_self_right]
    decide

theorem sretStatus_sie {x : UInt64} (h : x &&& sstatusSpie ≠ 0) :
    sretStatus x &&& sstatusSie ≠ 0 := by
  unfold sretStatus
  rw [if_pos h, and_not_and (by decide), or_and_of_apart (by decide), or_and_self_right]
  decide

/-! Page tables. -/

theorem satpRoot_makeSatp {pagetable : UInt64} (haligned : pagetable.toNat % 4096 = 0)
    (hlow : pagetable.toNat < 2 ^ 56) : satpRoot (makeSatp pagetable) = pagetable := by
  have hshift : (pagetable >>> 12).toNat = pagetable.toNat / 2 ^ 12 := by
    rw [UInt64.toNat_shiftRight, Nat.shiftRight_eq_div_pow]
    rfl
  have hsatp : (makeSatp pagetable).toNat = 2 ^ 63 + pagetable.toNat / 2 ^ 12 := by
    have hor := Nat.two_pow_add_eq_or_of_lt (show pagetable.toNat / 2 ^ 12 < 2 ^ 63 by omega) 1
    rw [Nat.mul_one] at hor
    unfold makeSatp
    rw [UInt64.toNat_or, hshift, hor]
    rfl
  apply UInt64.toNat_inj.mp
  unfold satpRoot
  rw [UInt64.toNat_shiftRight, UInt64.toNat_shiftLeft, hsatp, Nat.shiftLeft_eq,
    Nat.shiftRight_eq_div_pow]
  change (2 ^ 63 + pagetable.toNat / 2 ^ 12) * 2 ^ 20 % 2 ^ 64 / 2 ^ 8 = _
  omega

variable {csrs csrs' : Csr → UInt64} {mem mem' : Memory} {addr page pte frame : UInt64}
  {roots : Set UInt64} {place len : Nat}

theorem spans_congr_satp (h : Spans paged csrs mem addr place len)
    (hsatp : csrs' .satp = csrs .satp) : Spans paged csrs' mem addr place len := by
  intro mem' hsame access offset haligned hinside
  have heq := h mem' hsame access offset haligned hinside
  unfold paged at heq ⊢
  rw [hsatp]
  exact heq

/-- The page at an address spans its frame, unless that is a page of a table. -/
theorem spans_page (hroot : satpRoot (csrs .satp) ∈ roots)
    (htables : PageTables mem roots) (hpage : page.toNat % 4096 = 0) (hmax : page < vaMax)
    (hpte : translate mem (satpRoot (csrs .satp)) page = some pte)
    (hpermits : ∀ access, permits access pte = true)
    (hapart : ¬ IsTable mem roots (pteToPa pte)) (hlen : len ≤ 4096) :
    Spans paged csrs mem page (pteToPa pte).toNat len := by
  intro mem' hsame access offset _ hinside
  have hlow : page.toNat < 2 ^ 38 := UInt64.lt_iff_toNat_lt.mp hmax
  have hsum : (page + offset).toNat = page.toNat + offset.toNat := by
    rw [UInt64.toNat_add]
    omega
  have hmax' : page + offset < vaMax := by
    rw [UInt64.lt_iff_toNat_lt, hsum]
    change _ < 2 ^ 38
    omega
  have hframe := pteToPa_aligned pte
  have htranslate : translate mem' (satpRoot (csrs .satp)) (page + offset) = some pte := by
    have hsamePage : ∀ t, IsTable mem roots t → SamePage t mem mem' := by
      intro t ht x hx
      have hne : t.toNat ≠ (pteToPa pte).toNat := by
        intro heq
        exact hapart (UInt64.toNat_inj.mp heq ▸ ht)
      have ht' := ht.aligned htables
      unfold InPage at hx
      exact hsame x (by omega)
    rw [translate_of_samePages hroot hsamePage,
      translate_same_page hmax' (UInt64.le_of_lt hmax) (by rw [hsum]; omega), hpte]
  unfold paged
  rw [if_pos hmax', htranslate]
  dsimp only
  rw [if_pos (hpermits access), hsum]
  congr 1
  omega

end UnoOS.Trap
