import UnoOS.Kernel.State
import UnoOS.Lib.Transition
import UnoOS.Lib.Window

namespace UnoOS.Dev

open UnoOS.Lib
open UnoOS.Kernel (SectionEnd)

/-! `console.c`: the interrupt handler puts characters into a buffer, any number
of readers take them out.  What happens under the lock of the console is one
step. -/

abbrev consoleInputBuf : Nat := 64

def newline : UInt8 := 10

def carriageReturn : UInt8 := 13

def controlD : UInt8 := 4

def controlH : UInt8 := 8

def delete : UInt8 := 0x7f

structure Console where
  buf : Bytes consoleInputBuf
  readIdx : UInt32
  writeIdx : UInt32
  editIdx : UInt32
  /-- The characters sent to the UART. -/
  uart : List UInt8

def putBackspace (s : Console) : Console :=
  { s with uart := s.uart ++ [8, 32, 8] }

def consolePutchar (c : UInt8) (s : Console) : Console :=
  { s with uart := s.uart ++ [c] }

/-- The branch of `console_intr` that stores a character. -/
def storeChar (c : UInt8) (s : Console) : Console :=
  let s := consolePutchar c s
  let s := { s with
    buf := s.buf.patch (s.editIdx.toNat % consoleInputBuf) 1 fun _ => c
    editIdx := s.editIdx + 1 }
  if c = newline ∨ c = controlD ∨ s.editIdx = s.readIdx + 64 then
    { s with writeIdx := s.editIdx }
  else s

def consoleIntr (c : UInt8) (s : Console) : Console :=
  if c = controlH ∨ c = delete then
    if s.editIdx ≠ s.writeIdx then
      putBackspace { s with editIdx := s.editIdx - 1 }
    else s
  else if c ≠ 0 ∧ s.editIdx - s.readIdx < 64 then
    storeChar (if c = carriageReturn then newline else c) s
  else s

/-- `console_read` under the lock, until it sleeps or returns, with the
characters that it took from the buffer. -/
def consoleReadLoop :
    (turns : Nat) → (readLen : UInt32) → Console → SectionEnd × List UInt8 × Console
  | 0, readLen, s => (.returns readLen, [], s)
  | turns + 1, readLen, s =>
      if s.readIdx = s.writeIdx then (.sleeps readLen, [], s)
      else
        let c := s.buf.get (s.readIdx.toNat % consoleInputBuf)
        let s := { s with readIdx := s.readIdx + 1 }
        if c = controlD then
          if 0 < readLen then
            (.returns readLen, [], { s with readIdx := s.readIdx - 1 })
          else (.returns readLen, [c], s)
        else if c = newline then (.returns (readLen + 1), [c], s)
        else
          let (end_, chars, s) := consoleReadLoop turns (readLen + 1) s
          (end_, c :: chars, s)

/-- A call of `console_read` that does not hold the lock, with the characters
that it has taken. -/
inductive ConsoleCall where
  | idle
  | reading (len readLen : UInt32) (chars : List UInt8)
  | returned (len readLen : UInt32) (chars : List UInt8)

inductive ConsoleOp (τ : Type) where
  | intr (c : UInt8)
  | read (t : τ) (len : UInt32)
  /-- A reader gets the lock.  It may have been woken up without need. -/
  | turn (t : τ)

/-- Where a call is after a section in which it took some characters. -/
def afterSection (len : UInt32) (chars : List UInt8) : SectionEnd → ConsoleCall
  | .sleeps readLen => .reading len readLen chars
  | .returns readLen => .returned len readLen chars

structure ConsoleSystem (τ : Type) where
  cons : Console
  calls : τ → ConsoleCall
  /-- The characters taken so far, in order. -/
  taken : List UInt8

namespace ConsoleSystem

variable {τ : Type} [DecidableEq τ]

def init (buf : Bytes consoleInputBuf) : ConsoleSystem τ where
  cons := ⟨buf, 0, 0, 0, []⟩
  calls := fun _ => .idle
  taken := []

def step (st : ConsoleSystem τ) : ConsoleOp τ → Option (ConsoleSystem τ)
  | .intr c => some { st with cons := consoleIntr c st.cons }
  | .read t len =>
      match st.calls t with
      | .reading _ _ _ => none
      | _ => some { st with calls := Function.update st.calls t (.reading len 0 []) }
  | .turn t =>
      match st.calls t with
      | .reading len readLen chars =>
          let (end_, more, cons) :=
            consoleReadLoop (len.toNat - readLen.toNat) readLen st.cons
          some {
            cons := cons
            calls := Function.update st.calls t
              (afterSection len (chars ++ more) end_)
            taken := st.taken ++ more }
      | _ => none

end ConsoleSystem

/-! What the console is for: a line that is being edited, and a queue of the
characters that were committed and not yet taken. -/

structure Lines where
  /-- What was committed so far. -/
  text : List UInt8
  taken : List UInt8
  unread : List UInt8
  edit : List UInt8

namespace Lines

def empty : Lines := ⟨[], [], [], []⟩

def pending (a : Lines) : Nat := a.unread.length + a.edit.length

def append (a : Lines) (c : UInt8) : Lines :=
  { a with edit := a.edit ++ [c] }

def commit (a : Lines) : Lines :=
  { a with
    text := a.text ++ a.edit
    unread := a.unread ++ a.edit
    edit := [] }

def input (c : UInt8) (a : Lines) : Lines :=
  if c = controlH ∨ c = delete then { a with edit := a.edit.dropLast }
  else if c ≠ 0 ∧ a.pending < 64 then
    let c := if c = carriageReturn then newline else c
    let a := a.append c
    if c = newline ∨ c = controlD ∨ a.pending = 64 then a.commit else a
  else a

/-- What a reader takes of the queue, up to and with a newline, but of a
control-D only if it comes first. -/
def line : (turns : Nat) → (readLen : UInt32) → List UInt8 → SectionEnd × List UInt8
  | 0, readLen, _ => (.returns readLen, [])
  | _ + 1, readLen, [] => (.sleeps readLen, [])
  | turns + 1, readLen, c :: unread =>
      if c = controlD then (.returns readLen, if 0 < readLen then [] else [c])
      else if c = newline then (.returns (readLen + 1), [c])
      else
        let (end_, chars) := line turns (readLen + 1) unread
        (end_, c :: chars)

def take (a : Lines) (chars : List UInt8) : Lines :=
  { a with
    taken := a.taken ++ chars
    unread := a.unread.drop chars.length }

end Lines

structure LineSystem (τ : Type) where
  lines : Lines
  calls : τ → ConsoleCall

namespace LineSystem

variable {τ : Type} [DecidableEq τ]

def init : LineSystem τ := ⟨.empty, fun _ => .idle⟩

def step (a : LineSystem τ) : ConsoleOp τ → Option (LineSystem τ)
  | .intr c => some { a with lines := a.lines.input c }
  | .read t len =>
      match a.calls t with
      | .reading _ _ _ => none
      | _ => some { a with calls := Function.update a.calls t (.reading len 0 []) }
  | .turn t =>
      match a.calls t with
      | .reading len readLen chars =>
          let (end_, more) :=
            Lines.line (len.toNat - readLen.toNat) readLen a.lines.unread
          some {
            lines := a.lines.take more
            calls := Function.update a.calls t
              (afterSection len (chars ++ more) end_) }
      | _ => none

end LineSystem

end UnoOS.Dev
