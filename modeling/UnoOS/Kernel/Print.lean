import UnoOS.Lib.Bytes

namespace UnoOS.Kernel

/-! `print.c`: what the kernel sends to the console.  A string is the list of its
bytes before the NUL. -/

/-- The variable arguments, each in a word of its own, from the next one on. -/
abbrev VaList := Nat → UInt64

def VaList.rest (ap : VaList) : VaList := fun n => ap (n + 1)

abbrev Strings := UInt64 → List UInt8

inductive Base where
  | decimal
  | hex
  deriving DecidableEq

def Base.value : Base → UInt32
  | decimal => 10
  | hex => 16

def digits (i : Nat) : UInt8 :=
  [48, 49, 50, 51, 52, 53, 54, 55, 56, 57, 97, 98, 99, 100, 101, 102].getD i 0

def nullText : List UInt8 := [40, 110, 117, 108, 108, 41]

abbrev percent : UInt8 := 37

abbrev minus : UInt8 := 45

theorem div_base_lt (base : Base) {x : UInt32} (h : x / base.value ≠ 0) :
    (x / base.value).toNat < x.toNat := by
  rw [UInt32.toNat_div]
  have hbase : 1 < base.value.toNat := by cases base <;> decide
  refine Nat.div_lt_self ?_ hbase
  by_contra hzero
  apply h
  apply UInt32.toNat_inj.mp
  rw [UInt32.toNat_div, show x.toNat = 0 by omega, Nat.zero_div]
  rfl

/-- The number of a negative value that has `sign`, without its sign. -/
def magnitude (xx : Int32) (sign : Bool) : UInt32 :=
  if sign ∧ xx < 0 then (-xx).toUInt32 else xx.toUInt32

def consputc (c : UInt32) : List UInt8 :=
  if c = 0x100 then [8, 32, 8] else [c.toUInt8]

/-- The loop of `printint` that fills the buffer from its start. -/
def fillUp (base : Base) (x : UInt32) (buf : Nat → UInt8) (len : Nat) :
    (Nat → UInt8) × Nat :=
  let buf := Function.update buf len (digits (x % base.value).toNat)
  if x / base.value ≠ 0 then fillUp base (x / base.value) buf (len + 1)
  else (buf, len + 1)
termination_by x.toNat
decreasing_by exact div_base_lt base (by assumption)

/-- The loop of `printint` that empties the buffer. -/
def drain (buf : Nat → UInt8) : (len : Nat) → List UInt8
  | 0 => []
  | len + 1 => consputc (buf len).toUInt32 ++ drain buf len

/-- `printint` of the kernel; the buffer starts as the stack has it. -/
def printint (junk : Nat → UInt8) (xx : Int32) (base : Base) (sign : Bool) : List UInt8 :=
  let (buf, len) := fillUp base (magnitude xx sign) junk 0
  (if xx < 0 then consputc minus.toUInt32 else []) ++ drain buf len

/-- The loop of `printptr`. -/
def ptrDigits : (turns : Nat) → (x : UInt64) → List UInt8
  | 0, _ => []
  | turns + 1, x => consputc (digits (x >>> 60).toNat).toUInt32 ++ ptrDigits turns (x <<< 4)

def printptr (x : UInt64) : List UInt8 :=
  consputc 48 ++ consputc 120 ++ ptrDigits 16 x

/-- The branches of `vprintf` behind a percent sign, and the arguments that are left. -/
def vprintfConversion (junk : Nat → UInt8) (strings : Strings) (c : UInt8) (ap : VaList) :
    List UInt8 × VaList :=
  if c = 100 then (printint junk (ap 0).toUInt32.toInt32 .decimal true, ap.rest)
  else if c = 120 then (printint junk (ap 0).toUInt32.toInt32 .hex true, ap.rest)
  else if c = 112 then (printptr (ap 0), ap.rest)
  else if c = 115 then
    let s := if ap 0 = 0 then nullText else strings (ap 0)
    (s.flatMap fun byte => consputc byte.toUInt32, ap.rest)
  else if c = percent then (consputc percent.toUInt32, ap)
  else (consputc percent.toUInt32 ++ consputc c.toUInt32, ap)

def vprintf (junk : Nat → UInt8) (strings : Strings) : List UInt8 → VaList → List UInt8
  | [], _ => []
  | c :: rest, ap =>
      if c ≠ percent then consputc c.toUInt32 ++ vprintf junk strings rest ap
      else
        match rest with
        | [] => []
        | c :: rest =>
            let (out, ap) := vprintfConversion junk strings c ap
            out ++ vprintf junk strings rest ap

end UnoOS.Kernel
