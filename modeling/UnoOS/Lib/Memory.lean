import Mathlib

namespace UnoOS.Lib

/-! Byte-addressed memory.  A range is given by its first address and its
length; numbers are stored with the low byte first. -/

abbrev Memory := Nat → UInt8

namespace Memory

def write (m : Memory) (a len : Nat) (src : Nat → UInt8) : Memory :=
  fun x => if a ≤ x ∧ x < a + len then src (x - a) else m x

/-- The number that the `len` bytes from `a` on spell. -/
def number (m : Memory) (a : Nat) : (len : Nat) → Nat
  | 0 => 0
  | len + 1 => number m a len + 256 ^ len * (m (a + len)).toNat

def digit (v k : Nat) : UInt8 := UInt8.ofNat (v / 256 ^ k)

def load32 (m : Memory) (a : Nat) : UInt32 := UInt32.ofNat (m.number a 4)

def load64 (m : Memory) (a : Nat) : UInt64 := UInt64.ofNat (m.number a 8)

def store32 (m : Memory) (a : Nat) (v : UInt32) : Memory :=
  m.write a 4 (digit v.toNat)

def store64 (m : Memory) (a : Nat) (v : UInt64) : Memory :=
  m.write a 8 (digit v.toNat)

def memset (m : Memory) (a : Nat) (data : UInt8) (len : Nat) : Memory :=
  m.write a len fun _ => data

/-- Byte by byte from the low end on.  Where the ranges overlap so that copied
bytes are copied again, the bytes before the overlap repeat. -/
def memcpy (m : Memory) (dst src len : Nat) : Memory :=
  fun x =>
    if dst ≤ x ∧ x < dst + len then
      if src < dst then m (src + (x - dst) % (dst - src)) else m (src + (x - dst))
    else m x

variable {m m' : Memory} {a b len : Nat} {src : Nat → UInt8}

theorem write_of_mem {x : Nat} (hlow : a ≤ x) (hhigh : x < a + len) :
    m.write a len src x = src (x - a) :=
  if_pos ⟨hlow, hhigh⟩

theorem write_of_not_mem {x : Nat} (h : x < a ∨ a + len ≤ x) :
    m.write a len src x = m x :=
  if_neg (by omega)

theorem write_comm {src' : Nat → UInt8} {len' : Nat} (m : Memory)
    (h : a + len ≤ b ∨ b + len' ≤ a) :
    (m.write a len src).write b len' src' = (m.write b len' src').write a len src := by
  funext x
  unfold write
  by_cases ha : a ≤ x ∧ x < a + len
  · rw [if_pos ha, if_neg (by omega), if_pos ha]
  · rw [if_neg ha, if_neg ha]

theorem number_congr (h : ∀ k, k < len → m' (b + k) = m (a + k)) :
    m'.number b len = m.number a len := by
  induction len with
  | zero => rfl
  | succ len ih =>
      simp only [number]
      rw [ih fun k hk => h k (by omega), h len (by omega)]

theorem number_write_self (m : Memory) (a len v : Nat) {width : Nat}
    (h : len ≤ width) :
    (m.write a width (digit v)).number a len = v % 256 ^ len := by
  induction len with
  | zero => simp [number, Nat.mod_one]
  | succ len ih =>
      simp only [number]
      rw [ih (by omega), write_of_mem (by omega) (by omega),
        Nat.add_sub_cancel_left, Nat.mod_pow_succ]
      simp [digit]

theorem number_write_of_disjoint (h : b + len ≤ a ∨ a + width ≤ b) :
    (m.write a width src).number b len = m.number b len := by
  apply number_congr
  intro k hk
  exact write_of_not_mem (by omega)

theorem load64_store64_self (m : Memory) (a : Nat) (v : UInt64) :
    (m.store64 a v).load64 a = v := by
  have hv : v.toNat < 256 ^ 8 := v.toNat_lt
  unfold load64 store64
  rw [number_write_self _ _ _ _ (le_refl 8), Nat.mod_eq_of_lt hv]
  exact UInt64.ofNat_toNat

theorem load32_store32_self (m : Memory) (a : Nat) (v : UInt32) :
    (m.store32 a v).load32 a = v := by
  have hv : v.toNat < 256 ^ 4 := v.toNat_lt
  unfold load32 store32
  rw [number_write_self _ _ _ _ (le_refl 4), Nat.mod_eq_of_lt hv]
  exact UInt32.ofNat_toNat

theorem load32_store64_self (m : Memory) (a : Nat) (v : UInt64) :
    (m.store64 a v).load32 a = v.toUInt32 := by
  unfold load32 store64
  rw [number_write_self _ _ _ _ (show 4 ≤ 8 by decide)]
  apply UInt32.toNat_inj.mp
  rw [UInt32.toNat_ofNat', UInt64.toNat_toUInt32]
  exact Nat.mod_mod _ _

theorem load32_write_of_disjoint (h : b + 4 ≤ a ∨ a + len ≤ b) :
    (m.write a len src).load32 b = m.load32 b :=
  congrArg UInt32.ofNat (number_write_of_disjoint h)

theorem load64_congr (h : ∀ k, k < 8 → m' (b + k) = m (a + k)) :
    m'.load64 b = m.load64 a :=
  congrArg UInt64.ofNat (number_congr h)

theorem load32_congr (h : ∀ k, k < 4 → m' (b + k) = m (a + k)) :
    m'.load32 b = m.load32 a :=
  congrArg UInt32.ofNat (number_congr h)

theorem number_of_zero (h : ∀ k, k < len → m (a + k) = 0) :
    m.number a len = 0 := by
  induction len with
  | zero => rfl
  | succ len ih =>
      simp only [number]
      rw [ih fun k hk => h k (by omega), h len (by omega)]
      rfl

theorem load64_of_zero (h : ∀ k, k < 8 → m (a + k) = 0) : m.load64 a = 0 := by
  unfold load64
  rw [number_of_zero h]
  rfl

theorem load32_of_zero (h : ∀ k, k < 4 → m (a + k) = 0) : m.load32 a = 0 := by
  unfold load32
  rw [number_of_zero h]
  rfl

theorem memcpy_of_not_mem {dst origin x : Nat} (h : x < dst ∨ dst + len ≤ x) :
    m.memcpy dst origin len x = m x :=
  if_neg (by omega)

/-- Between ranges that do not overlap the bytes arrive as they were. -/
theorem memcpy_of_mem {dst origin x : Nat}
    (hdisjoint : origin + len ≤ dst ∨ dst + len ≤ origin)
    (hlow : dst ≤ x) (hhigh : x < dst + len) :
    m.memcpy dst origin len x = m (origin + (x - dst)) := by
  unfold memcpy
  rw [if_pos ⟨hlow, hhigh⟩]
  split
  · rw [Nat.mod_eq_of_lt (by omega)]
  · rfl

end Memory

end UnoOS.Lib
