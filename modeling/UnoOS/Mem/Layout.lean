import UnoOS.Lib.Exec
import UnoOS.Lib.Memory

namespace UnoOS.Mem

open UnoOS.Lib

/-! Addresses and page table entries. -/

abbrev pgsize : UInt64 := 4096

abbrev vaMax : UInt64 := (1 : UInt64) <<< 38

abbrev trampoline : UInt64 := vaMax - pgsize

abbrev trapframe : UInt64 := trampoline - pgsize

abbrev userStackBottom : UInt64 := trapframe

abbrev userStackInitialPageCount : UInt32 := 2

abbrev userVmemStart : UInt64 := pgsize

abbrev mmapEnd : UInt64 := trapframe - 32 * pgsize

abbrev mmapBegin : UInt64 := mmapEnd - 8096 * pgsize

abbrev kernelBase : UInt64 := 0x80000000

abbrev allocEnd : UInt64 := 0x88000000

def pgroundup (sz : UInt64) : UInt64 := (sz + pgsize - 1) &&& ~~~(pgsize - 1)

def pgrounddown (a : UInt64) : UInt64 := a &&& ~~~(pgsize - 1)

def vaToVpn (va : UInt64) (level : Nat) : UInt64 :=
  (va >>> UInt64.ofNat (12 + 9 * level)) &&& 0x1FF

def paToPte (pa : UInt64) : UInt64 := (pa >>> 12) <<< 10

def pteToPa (pte : UInt64) : UInt64 := (pte >>> 10) <<< 12

def pteFlags (pte : UInt64) : UInt64 := pte &&& 0x3FF

abbrev pteV : UInt64 := (1 : UInt64) <<< 0

abbrev pteR : UInt64 := (1 : UInt64) <<< 1

abbrev pteW : UInt64 := (1 : UInt64) <<< 2

abbrev pteX : UInt64 := (1 : UInt64) <<< 3

abbrev pteU : UInt64 := (1 : UInt64) <<< 4

abbrev pteCow : UInt64 := (1 : UInt64) <<< 8

def pteValid (pte : UInt64) : Bool := pte &&& pteV != 0

/-! Arithmetic of the macros. -/

theorem nat_and_page_mask {a : Nat} (h : a < 2 ^ 64) :
    a &&& ((2 ^ 52 - 1) <<< 12) = a / 4096 * 4096 := by
  have hshift : a / 4096 * 4096 = (a >>> 12) <<< 12 := by
    rw [Nat.shiftRight_eq_div_pow, Nat.shiftLeft_eq]
  rw [hshift]
  apply Nat.eq_of_testBit_eq
  intro i
  rw [Nat.testBit_and, Nat.testBit_shiftLeft, Nat.testBit_shiftLeft,
    Nat.testBit_shiftRight, Nat.testBit_two_pow_sub_one]
  by_cases hi : 12 ≤ i
  · rw [show 12 + (i - 12) = i by omega]
    by_cases hhigh : i < 64
    · simp [hi, show i - 12 < 52 by omega]
    · have hpow : 2 ^ 64 ≤ 2 ^ i := Nat.pow_le_pow_right (by omega) (by omega)
      simp [hi, Nat.testBit_lt_two_pow (lt_of_lt_of_le h hpow)]
  · simp [hi]

theorem pgrounddown_toNat (a : UInt64) :
    (pgrounddown a).toNat = a.toNat / 4096 * 4096 := by
  unfold pgrounddown
  rw [UInt64.toNat_and,
    show (~~~(pgsize - 1)).toNat = (2 ^ 52 - 1) <<< 12 by decide]
  exact nat_and_page_mask a.toNat_lt

theorem pgroundup_toNat {sz : UInt64} (h : sz.toNat + 4095 < 2 ^ 64) :
    (pgroundup sz).toNat = (sz.toNat + 4095) / 4096 * 4096 := by
  have hsum : (sz + pgsize - 1).toNat = sz.toNat + 4095 := by
    rw [show sz + pgsize - 1 = sz + 4095 by grind]
    rw [UInt64.toNat_add]
    exact Nat.mod_eq_of_lt h
  change (pgrounddown (sz + pgsize - 1)).toNat = _
  rw [pgrounddown_toNat, hsum]

theorem vaToVpn_toNat (va : UInt64) {level : Nat} (h : level ≤ 2) :
    (vaToVpn va level).toNat = va.toNat / 2 ^ (12 + 9 * level) % 512 := by
  have hshift : (UInt64.ofNat (12 + 9 * level)).toNat % 64 = 12 + 9 * level := by
    rw [UInt64.toNat_ofNat']
    omega
  unfold vaToVpn
  rw [UInt64.toNat_and, UInt64.toNat_shiftRight, hshift,
    Nat.shiftRight_eq_div_pow]
  exact Nat.and_two_pow_sub_one_eq_mod _ 9

theorem pteFlags_toNat (pte : UInt64) :
    (pteFlags pte).toNat = pte.toNat % 1024 := by
  unfold pteFlags
  rw [UInt64.toNat_and]
  exact Nat.and_two_pow_sub_one_eq_mod _ 10

theorem pteToPa_toNat (pte : UInt64) :
    (pteToPa pte).toNat = pte.toNat / 1024 * 4096 % 2 ^ 64 := by
  unfold pteToPa
  rw [UInt64.toNat_shiftLeft, UInt64.toNat_shiftRight,
    show (12 : UInt64).toNat % 64 = 12 from rfl,
    show (10 : UInt64).toNat % 64 = 10 from rfl, Nat.shiftLeft_eq,
    Nat.shiftRight_eq_div_pow]

theorem paToPte_toNat (pa : UInt64) :
    (paToPte pa).toNat = pa.toNat / 4096 * 1024 := by
  have hpa := pa.toNat_lt
  unfold paToPte
  rw [UInt64.toNat_shiftLeft, UInt64.toNat_shiftRight,
    show (12 : UInt64).toNat % 64 = 12 from rfl,
    show (10 : UInt64).toNat % 64 = 10 from rfl, Nat.shiftLeft_eq,
    Nat.shiftRight_eq_div_pow]
  omega

theorem pteValid_iff (pte : UInt64) : pteValid pte ↔ pte.toNat % 2 = 1 := by
  have hand : (pte &&& pteV).toNat = pte.toNat % 2 := by
    rw [UInt64.toNat_and]
    exact Nat.and_two_pow_sub_one_eq_mod _ 1
  unfold pteValid
  rw [bne_iff_ne, ne_eq, ← UInt64.toNat_inj, hand]
  change ¬ pte.toNat % 2 = 0 ↔ _
  omega

theorem pteToPa_aligned (pte : UInt64) : (pteToPa pte).toNat % 4096 = 0 := by
  rw [pteToPa_toNat]
  omega

theorem aligned_iff (a : UInt64) : a % pgsize = 0 ↔ a.toNat % 4096 = 0 := by
  rw [← UInt64.toNat_inj, UInt64.toNat_mod]
  rfl

/-! An entry made of a frame address and flag bits. -/

theorem entry_toNat {pa flags : UInt64} (h : flags.toNat < 1024) :
    (paToPte pa ||| flags).toNat = pa.toNat / 4096 * 1024 + flags.toNat := by
  rw [UInt64.toNat_or, paToPte_toNat, ← Nat.shiftLeft_eq _ 10]
  exact (Nat.shiftLeft_add_eq_or_of_lt h _).symm

theorem pteToPa_entry {pa flags : UInt64} (hpa : pa.toNat % 4096 = 0)
    (h : flags.toNat < 1024) : pteToPa (paToPte pa ||| flags) = pa := by
  have hlt := pa.toNat_lt
  apply UInt64.toNat_inj.mp
  rw [pteToPa_toNat, entry_toNat h]
  omega

theorem pteFlags_entry {pa flags : UInt64} (h : flags.toNat < 1024) :
    pteFlags (paToPte pa ||| flags) = flags := by
  apply UInt64.toNat_inj.mp
  rw [pteFlags_toNat, entry_toNat h]
  omega

theorem flags_or_lt {a b : UInt64} (ha : a.toNat < 1024) (hb : b.toNat < 1024) :
    (a ||| b).toNat < 1024 := by
  rw [UInt64.toNat_or]
  exact Nat.or_lt_two_pow (n := 10) ha hb

theorem pteValid_or (pte : UInt64) : pteValid (pte ||| pteV) := by
  rw [pteValid_iff, UInt64.toNat_or]
  exact Nat.or_mod_two_eq_one.mpr (.inr rfl)

@[simp] theorem pteValid_zero : pteValid 0 = false := rfl

/-! Setting and clearing flags. -/

theorem or_and_flag (a b c : UInt64) :
    (a ||| b) &&& c = (a &&& c) ||| (b &&& c) := by
  apply UInt64.toNat_inj.mp
  simp only [UInt64.toNat_and, UInt64.toNat_or]
  exact Nat.and_or_distrib_right ..

theorem pteToPa_or {pte flags : UInt64} (h : flags.toNat < 1024) :
    pteToPa (pte ||| flags) = pteToPa pte := by
  have hhigh : (pte ||| flags).toNat / 1024 = pte.toNat / 1024 := by
    rw [UInt64.toNat_or, ← Nat.shiftRight_eq_div_pow _ 10,
      ← Nat.shiftRight_eq_div_pow _ 10, Nat.shiftRight_or_distrib,
      Nat.shiftRight_eq_div_pow flags.toNat, Nat.div_eq_of_lt h, Nat.or_zero]
  apply UInt64.toNat_inj.mp
  rw [pteToPa_toNat, pteToPa_toNat, hhigh]

theorem pteToPa_and_not {pte flags : UInt64} (h : flags.toNat < 1024) :
    pteToPa (pte &&& ~~~flags) = pteToPa pte := by
  have hpte := pte.toNat_lt
  have hmask : (~~~flags).toNat / 1024 = 2 ^ 54 - 1 := by
    rw [UInt64.toNat_not]
    change (2 ^ 64 - 1 - flags.toNat) / 1024 = _
    omega
  have hhigh : (pte &&& ~~~flags).toNat / 1024 = pte.toNat / 1024 := by
    rw [UInt64.toNat_and, ← Nat.shiftRight_eq_div_pow _ 10,
      ← Nat.shiftRight_eq_div_pow _ 10, Nat.shiftRight_and_distrib,
      Nat.shiftRight_eq_div_pow _ 10, Nat.shiftRight_eq_div_pow _ 10]
    change _ &&& (~~~flags).toNat / 1024 = _
    rw [hmask, Nat.and_two_pow_sub_one_eq_mod]
    change _ / 1024 % _ = _ / 1024
    omega
  apply UInt64.toNat_inj.mp
  rw [pteToPa_toNat, pteToPa_toNat, hhigh]

theorem pteFlags_and {pte flag : UInt64} (h : 0x3FF &&& flag = flag) :
    pteFlags pte &&& flag = pte &&& flag := by
  unfold pteFlags
  rw [UInt64.and_assoc, h]

theorem entry_and {pa flags flag : UInt64} (h : flags.toNat < 1024)
    (hflag : 0x3FF &&& flag = flag) :
    (paToPte pa ||| flags) &&& flag = flags &&& flag := by
  rw [← pteFlags_and hflag, pteFlags_entry h]

theorem or_and_of_disjoint {pte flags flag : UInt64} (h : flags &&& flag = 0) :
    (pte ||| flags) &&& flag = pte &&& flag := by
  rw [or_and_flag, h, UInt64.or_zero]

theorem and_not_and {pte flags flag : UInt64} (h : ~~~flags &&& flag = flag) :
    pte &&& ~~~flags &&& flag = pte &&& flag := by
  rw [UInt64.and_assoc, h]

theorem pteFlags_lt (pte : UInt64) : (pteFlags pte).toNat < 1024 := by
  rw [pteFlags_toNat]
  omega

theorem and_lt {a b : UInt64} (h : a.toNat < 1024) : (a &&& b).toNat < 1024 := by
  rw [UInt64.toNat_and]
  exact Nat.lt_of_le_of_lt Nat.and_le_left h

theorem pteValid_clear (pte : UInt64) : pteValid (pte &&& ~~~pteV) = false := by
  unfold pteValid
  rw [UInt64.and_assoc, UInt64.not_and_self, UInt64.and_zero]
  rfl

end UnoOS.Mem
