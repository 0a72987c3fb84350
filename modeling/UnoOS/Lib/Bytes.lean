import Mathlib

namespace UnoOS.Lib

abbrev Bytes (n : Nat) := Fin n → UInt8

namespace Bytes

variable {n : Nat}

def get (b : Bytes n) (i : Nat) : UInt8 :=
  if h : i < n then b ⟨i, h⟩ else 0

def patch (b : Bytes n) (off len : Nat) (src : Nat → UInt8) : Bytes n :=
  fun i => if off ≤ i.val ∧ i.val < off + len then src (i.val - off) else b i

theorem get_of_lt (b : Bytes n) {i : Nat} (h : i < n) : b.get i = b ⟨i, h⟩ :=
  dif_pos h

@[simp] theorem get_zero (i : Nat) : (0 : Bytes n).get i = 0 := by
  unfold get
  split <;> rfl

theorem ext_get {b c : Bytes n} (h : ∀ i, i < n → b.get i = c.get i) :
    b = c := by
  funext i
  have hi := h i.val i.isLt
  rwa [get_of_lt, get_of_lt] at hi

theorem get_patch_of_mem (b : Bytes n) (src : Nat → UInt8)
    {off len i : Nat} (hi : i < n) (hlow : off ≤ i) (hhigh : i < off + len) :
    (b.patch off len src).get i = src (i - off) := by
  rw [get_of_lt _ hi]
  exact if_pos ⟨hlow, hhigh⟩

theorem get_patch_of_not_mem (b : Bytes n) (src : Nat → UInt8)
    {off len i : Nat} (h : i < off ∨ off + len ≤ i) :
    (b.patch off len src).get i = b.get i := by
  unfold get patch
  split
  · exact if_neg (by dsimp only; omega)
  · rfl

/-! Little-endian half words and words. -/

def half (b : Bytes n) (off : Nat) : UInt16 :=
  UInt16.ofNat ((b.get off).toNat + 256 * (b.get (off + 1)).toNat)

def word (b : Bytes n) (off : Nat) : UInt32 :=
  UInt32.ofNat ((b.get off).toNat + 256 * (b.get (off + 1)).toNat +
    65536 * (b.get (off + 2)).toNat + 16777216 * (b.get (off + 3)).toNat)

def halfByte (w : UInt16) (k : Nat) : UInt8 := UInt8.ofNat (w.toNat / 256 ^ k)

def wordByte (w : UInt32) (k : Nat) : UInt8 := UInt8.ofNat (w.toNat / 256 ^ k)

def setWord (b : Bytes n) (off : Nat) (w : UInt32) : Bytes n :=
  b.patch off 4 (wordByte w)

theorem half_of_bytes (b : Bytes n) {off : Nat} {w : UInt16}
    (h : ∀ k, k < 2 → b.get (off + k) = halfByte w k) : b.half off = w := by
  have h0 := h 0 (by omega)
  have h1 := h 1 (by omega)
  have hw := w.toNat_lt
  apply UInt16.toNat.inj
  rw [Nat.add_zero] at h0
  simp only [half, h0, h1, halfByte, UInt16.toNat_ofNat', UInt8.toNat_ofNat']
  omega

theorem word_of_bytes (b : Bytes n) {off : Nat} {w : UInt32}
    (h : ∀ k, k < 4 → b.get (off + k) = wordByte w k) : b.word off = w := by
  have h0 := h 0 (by omega)
  have h1 := h 1 (by omega)
  have h2 := h 2 (by omega)
  have h3 := h 3 (by omega)
  have hw := w.toNat_lt
  apply UInt32.toNat.inj
  rw [Nat.add_zero] at h0
  simp only [word, h0, h1, h2, h3, wordByte, UInt32.toNat_ofNat',
    UInt8.toNat_ofNat']
  omega

theorem half_congr {m : Nat} {b : Bytes n} {c : Bytes m} {off off' : Nat}
    (h : ∀ k, k < 2 → b.get (off + k) = c.get (off' + k)) :
    b.half off = c.half off' := by
  have h0 := h 0 (by omega)
  have h1 := h 1 (by omega)
  simp only [Nat.add_zero] at h0
  simp only [half, h0, h1]

theorem word_congr {m : Nat} {b : Bytes n} {c : Bytes m} {off off' : Nat}
    (h : ∀ k, k < 4 → b.get (off + k) = c.get (off' + k)) :
    b.word off = c.word off' := by
  have h0 := h 0 (by omega)
  have h1 := h 1 (by omega)
  have h2 := h 2 (by omega)
  have h3 := h 3 (by omega)
  simp only [Nat.add_zero] at h0
  simp only [word, h0, h1, h2, h3]

theorem word_setWord_same (b : Bytes n) {off : Nat} (w : UInt32)
    (h : off + 4 ≤ n) : (b.setWord off w).word off = w := by
  apply word_of_bytes
  intro k hk
  rw [setWord, get_patch_of_mem _ _ (by omega) (by omega) (by omega)]
  rw [Nat.add_sub_cancel_left]

theorem word_patch_of_disjoint (b : Bytes n) (src : Nat → UInt8)
    {off len off' : Nat} (h : off' + 4 ≤ off ∨ off + len ≤ off') :
    (b.patch off len src).word off' = b.word off' := by
  apply word_congr
  intro k hk
  exact get_patch_of_not_mem _ _ (by omega)

theorem half_patch_of_disjoint (b : Bytes n) (src : Nat → UInt8)
    {off len off' : Nat} (h : off' + 2 ≤ off ∨ off + len ≤ off') :
    (b.patch off len src).half off' = b.half off' := by
  apply half_congr
  intro k hk
  exact get_patch_of_not_mem _ _ (by omega)

@[simp] theorem word_zero (off : Nat) : (0 : Bytes n).word off = 0 := by
  simp [word]

@[simp] theorem half_zero (off : Nat) : (0 : Bytes n).half off = 0 := by
  simp [half]

/-! Bits, numbered from the low bit of the first byte. -/

def mask (k : Nat) : UInt8 := UInt8.ofNat (2 ^ k)

def bit (b : Bytes n) (i : Nat) : Bool := (b.get (i / 8)).toNat.testBit (i % 8)

def setBit (b : Bytes n) (i : Nat) : Bytes n :=
  b.patch (i / 8) 1 fun _ => b.get (i / 8) ||| mask (i % 8)

def clearBit (b : Bytes n) (i : Nat) : Bytes n :=
  b.patch (i / 8) 1 fun _ => b.get (i / 8) &&& ~~~mask (i % 8)

/-- The first clear bit among the `fuel` bits from `i` on. -/
def firstClear (b : Bytes n) : (fuel i : Nat) → Option Nat
  | 0, _ => none
  | fuel + 1, i => if b.bit i then firstClear b fuel (i + 1) else some i

theorem mask_toNat {k : Nat} (h : k < 8) : (mask k).toNat = 2 ^ k := by
  have hpow : 2 ^ k < 2 ^ 8 := Nat.pow_lt_pow_right (by omega) h
  simp only [mask, UInt8.toNat_ofNat']
  exact Nat.mod_eq_of_lt hpow

theorem testBit_or_mask (x : UInt8) {k : Nat} (h : k < 8) (l : Nat) :
    (x ||| mask k).toNat.testBit l = (x.toNat.testBit l || decide (k = l)) := by
  rw [UInt8.toNat_or, Nat.testBit_or, mask_toNat h, Nat.testBit_two_pow]

theorem testBit_and_not_mask (x : UInt8) {k : Nat} (h : k < 8) {l : Nat}
    (hl : l < 8) :
    (x &&& ~~~mask k).toNat.testBit l =
      (x.toNat.testBit l && !decide (k = l)) := by
  have hmask : (~~~mask k).toNat.testBit l = !(mask k).toNat.testBit l := by
    rw [UInt8.toNat_not]
    have hlt := (mask k).toNat_lt
    rw [show UInt8.size - 1 - (mask k).toNat =
      2 ^ 8 - ((mask k).toNat + 1) by
        change 255 - (mask k).toNat = 256 - ((mask k).toNat + 1)
        omega]
    rw [Nat.testBit_two_pow_sub_succ (by simpa using hlt)]
    simp [hl]
  rw [UInt8.toNat_and, Nat.testBit_and, hmask, mask_toNat h,
    Nat.testBit_two_pow]

theorem bit_setBit (b : Bytes n) {i : Nat} (hi : i / 8 < n) (j : Nat) :
    (b.setBit i).bit j = (b.bit j || decide (i = j)) := by
  unfold bit setBit
  by_cases hbyte : i / 8 = j / 8
  · rw [get_patch_of_mem _ _ (by omega) (by omega) (by omega),
      testBit_or_mask _ (by omega), hbyte]
    congr 2
    simp only [eq_iff_iff]
    omega
  · rw [get_patch_of_not_mem _ _ (by omega)]
    have hne : i ≠ j := fun h => hbyte (by rw [h])
    simp [hne]

theorem bit_clearBit (b : Bytes n) {i : Nat} (hi : i / 8 < n) (j : Nat) :
    (b.clearBit i).bit j = (b.bit j && !decide (i = j)) := by
  unfold bit clearBit
  by_cases hbyte : i / 8 = j / 8
  · rw [get_patch_of_mem _ _ (by omega) (by omega) (by omega),
      testBit_and_not_mask _ (by omega) (by omega), hbyte]
    congr 3
    simp only [eq_iff_iff]
    omega
  · rw [get_patch_of_not_mem _ _ (by omega)]
    have hne : i ≠ j := fun h => hbyte (by rw [h])
    simp [hne]

theorem firstClear_eq_some {b : Bytes n} {fuel i found : Nat}
    (h : b.firstClear fuel i = some found) :
    i ≤ found ∧ found < i + fuel ∧ b.bit found = false ∧
      ∀ j, i ≤ j → j < found → b.bit j = true := by
  induction fuel generalizing i with
  | zero => simp [firstClear] at h
  | succ fuel ih =>
      simp only [firstClear] at h
      split at h
      · next hset =>
        obtain ⟨hlow, hhigh, hclear, hbelow⟩ := ih h
        refine ⟨by omega, by omega, hclear, ?_⟩
        intro j hij hj
        by_cases heq : j = i
        · rw [heq]
          exact hset
        · exact hbelow j (by omega) hj
      · next hset =>
        cases h
        exact ⟨le_refl _, by omega, by simpa using hset, by omega⟩

theorem firstClear_eq_none {b : Bytes n} {fuel i : Nat} :
    b.firstClear fuel i = none ↔ ∀ j, i ≤ j → j < i + fuel → b.bit j = true := by
  induction fuel generalizing i with
  | zero =>
      simp only [firstClear, true_iff]
      omega
  | succ fuel ih =>
      simp only [firstClear]
      split
      · next hset =>
        rw [ih]
        constructor
        · intro h j hij hj
          by_cases heq : j = i
          · rw [heq]
            exact hset
          · exact h j (by omega) (by omega)
        · intro h j hij hj
          exact h j (by omega) (by omega)
      · next hset =>
        simp only [reduceCtorEq, false_iff, not_forall]
        exact ⟨i, le_refl _, by omega, by simpa using hset⟩

theorem firstClear_of_least {b : Bytes n} {fuel i found : Nat}
    (hlow : i ≤ found) (hhigh : found < i + fuel) (hclear : b.bit found = false)
    (hbelow : ∀ j, i ≤ j → j < found → b.bit j = true) :
    b.firstClear fuel i = some found := by
  cases hsearch : b.firstClear fuel i with
  | none =>
      rw [firstClear_eq_none] at hsearch
      rw [hsearch found hlow hhigh] at hclear
      cases hclear
  | some other =>
      obtain ⟨hlow', _, hclear', hbelow'⟩ := firstClear_eq_some hsearch
      rcases Nat.lt_trichotomy other found with hlt | heq | hgt
      · rw [hbelow other hlow' hlt] at hclear'
        cases hclear'
      · rw [heq]
      · rw [hbelow' found hlow hgt] at hclear
        cases hclear

end Bytes

end UnoOS.Lib
