import UnoOS.Kernel.Print

namespace UnoOS.User

open UnoOS.Kernel

/-! `userlib.c`: what the library for user programs passes to the standard output, as
the list of its calls of `stdout`.  Lengths are `int`s there; memory has no string so
long that they do not fit. -/

/-- The loop of `printint` that fills the buffer from its end. -/
def fillDown (base : Base) (x : UInt32) (buf : Int → UInt8) (i : Int) :
    (Int → UInt8) × Int :=
  let buf := Function.update buf i (digits (x % base.value).toNat)
  if x / base.value ≠ 0 then fillDown base (x / base.value) buf (i - 1)
  else (buf, i - 1)
termination_by x.toNat
decreasing_by exact div_base_lt base (by assumption)

def printintError : List UInt8 :=
  [112, 114, 105, 110, 116, 105, 110, 116, 32, 101, 114, 114, 111, 114]

/-- `len` bytes of a buffer. -/
def slice (buf : Int → UInt8) (i : Int) (len : Nat) : List UInt8 :=
  (List.range len).map fun k : Nat => buf (i + k)

def printint (junk : Int → UInt8) (xx : Int32) (base : Base) (sign : Bool) :
    List (List UInt8) :=
  let negative := sign ∧ xx < 0
  let (buf, i) := fillDown base (magnitude xx sign) (Function.update junk 16 0) 15
  let (buf, i) := if negative then (Function.update buf i minus, i - 1) else (buf, i)
  let i := i + 1
  (if i < 0 then [printintError] else []) ++ [slice buf i (16 - i).toNat]

/-- The loop of `printptr`, which appends to the buffer. -/
def ptrBuffer : (turns : Nat) → (x : UInt64) → (buf : List UInt8) → List UInt8
  | 0, _, buf => buf
  | turns + 1, x, buf => ptrBuffer turns (x <<< 4) (buf ++ [digits (x >>> 60).toNat])

def printptr (x : UInt64) : List (List UInt8) :=
  [ptrBuffer 16 x [48, 120]]

/-- The branches of `printf` behind a percent sign, and the arguments that are left. -/
def printfConversion (junk : Int → UInt8) (strings : Strings) (c : UInt8) (ap : VaList) :
    List (List UInt8) × VaList :=
  if c = 100 then (printint junk (ap 0).toUInt32.toInt32 .decimal true, ap.rest)
  else if c = 120 then (printint junk (ap 0).toUInt32.toInt32 .hex true, ap.rest)
  else if c = 112 then (printptr (ap 0), ap.rest)
  else if c = 115 then
    let a := if ap 0 = 0 then nullText else strings (ap 0)
    ([a], ap.rest)
  else ([[percent], [c]], ap)

/-- The second loop of `printf`: the number of pairs of percent signs and what is behind
them. -/
def skipPairs : List UInt8 → Nat × List UInt8
  | c :: d :: s =>
      if c = percent ∧ d = percent then
        let (pairs, s) := skipPairs s
        (pairs + 1, s)
      else (0, c :: d :: s)
  | s => (0, s)

theorem length_skipPairs (s : List UInt8) :
    (skipPairs s).2.length + 2 * (skipPairs s).1 = s.length := by
  induction s using skipPairs.induct with
  | case1 c d s _ pairs rest heq ih =>
      rw [skipPairs, if_pos ‹_›, heq]
      rw [heq] at ih
      simp only [List.length_cons] at ih ⊢
      omega
  | case2 c d s hnot =>
      rw [skipPairs, if_neg hnot]
      rfl
  | case3 s hshort =>
      rw [skipPairs]
      · rfl
      · exact hshort

def behindLiteral (s : List UInt8) : List UInt8 := s.dropWhile (· ≠ percent)

/-- `z - a`: the literal bytes and one percent sign for each pair. -/
def literalLength (s : List UInt8) : Nat :=
  (s.takeWhile (· ≠ percent)).length + (skipPairs (behindLiteral s)).1

theorem length_behind (s : List UInt8) :
    (skipPairs (behindLiteral s)).2.length + literalLength s ≤ s.length := by
  have hpairs := length_skipPairs (behindLiteral s)
  have hsplit := congrArg List.length
    (List.takeWhile_append_dropWhile (p := fun c => decide (c ≠ percent)) (l := s))
  rw [List.length_append] at hsplit
  unfold literalLength
  unfold behindLiteral at hpairs ⊢
  omega

def printf (junk : Int → UInt8) (strings : Strings) (s : List UInt8) (ap : VaList) :
    List (List UInt8) :=
  if s = [] then []
  else
    s.take (literalLength s) ::
      if literalLength s ≠ 0 then printf junk strings (skipPairs (behindLiteral s)).2 ap
      else
        match _hrest : (skipPairs (behindLiteral s)).2 with
        | _ :: c :: rest =>
            let conversion := printfConversion junk strings c ap
            conversion.1 ++ printf junk strings rest conversion.2
        | _ => []
termination_by s.length
decreasing_by
  · have hlength := length_behind s
    omega
  · have hlength := length_behind s
    rw [_hrest, List.length_cons, List.length_cons] at hlength
    omega

end UnoOS.User
