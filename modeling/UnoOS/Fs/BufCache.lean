import UnoOS.Fs.Layout
import UnoOS.Lib.Ring

namespace UnoOS.Fs

open UnoOS.Lib

/-! The buffer cache (`buf.c`): 64 buffers in a ring through `head_buf`. -/

abbrev nBlockBuf : Nat := 64

def blockNumUnused : UInt32 := 0xFFFFFFFF

abbrev BufId := Fin nBlockBuf

inductive BufPtr where
  | null
  | head
  | buf (i : BufId)
  deriving DecidableEq

/-- The fields of all `buf_t`.  `buf_ref` counts holders, of which there are
never as many as a `uint32` can count. -/
structure BufCache where
  links : Links BufPtr
  bufRef : BufPtr → Nat
  blockNum : BufPtr → UInt32
  data : BufPtr → Block

namespace BufCache

def insertHead (c : BufCache) (node : BufPtr) (headNext : Bool) : BufCache :=
  let links :=
    if c.links.next node ≠ .null ∧ c.links.prev node ≠ .null then
      c.links.unlink node
    else c.links
  { c with links :=
      if headNext then links.pushFront .head node
      else links.pushBack .head node }

def blank : BufCache where
  links := {
    next := fun p => if p = .head then .head else .null
    prev := fun p => if p = .head then .head else .null }
  bufRef := fun _ => 0
  blockNum := fun _ => 0
  data := fun _ => 0

def initBuf (c : BufCache) (i : BufId) : BufCache :=
  insertHead
    { c with blockNum := Function.update c.blockNum (.buf i) blockNumUnused }
    (.buf i) true

def bufInit : BufCache := (List.finRange nBlockBuf).foldl initBuf blank

inductive Scan where
  | found (node : BufPtr)
  | stopped (node : BufPtr)

def scanFree (c : BufCache) (n : UInt32) : (fuel : Nat) → BufPtr → Option Scan
  | 0, _ => none
  | fuel + 1, node =>
      if c.bufRef node = 0 ∧ node ≠ .head then
        if c.blockNum node = n then some (.found node)
        else scanFree c n fuel (c.links.prev node)
      else some (.stopped node)

def scanUsed (c : BufCache) (n : UInt32) (oldest : BufPtr) :
    (fuel : Nat) → BufPtr → Option Scan
  | 0, _ => none
  | fuel + 1, node =>
      if node ≠ oldest then
        if c.blockNum node = n then some (.found node)
        else scanUsed c n oldest fuel (c.links.next node)
      else some (.stopped node)

/-- What the locked section of `buf_read` does: it finds the block, claims a
buffer for it, or finds no buffer to claim. -/
inductive Lookup where
  | hit (node : BufPtr)
  | miss (node : BufPtr)
  | exhausted
  deriving DecidableEq

def takeHit (c : BufCache) (node : BufPtr) : BufCache :=
  let c := c.insertHead node true
  { c with bufRef := Function.update c.bufRef node (c.bufRef node + 1) }

def takeMiss (c : BufCache) (n : UInt32) (node : BufPtr) : BufCache :=
  { c with
    bufRef := Function.update c.bufRef node 1
    blockNum := Function.update c.blockNum node n }

/-- A bound on the rounds of either loop: every node once. -/
abbrev scanFuel : Nat := nBlockBuf + 1

/-- `buf_read` between acquiring and releasing `lk_buf_cache`, with the value of
`head_buf.prev` that was loaded before.  `none` would be a loop that does not
end. -/
def lookup (c : BufCache) (start : BufPtr) (n : UInt32) :
    Option (Lookup × BufCache) :=
  match c.scanFree n scanFuel start with
  | none => none
  | some (.found node) => some (.hit node, c.takeHit node)
  | some (.stopped node) =>
      let oldest := c.links.next node
      match c.scanUsed n oldest scanFuel (c.links.next .head) with
      | none => none
      | some (.found node) => some (.hit node, c.takeHit node)
      | some (.stopped _) =>
          if oldest ≠ .head then some (.miss oldest, c.takeMiss n oldest)
          else some (.exhausted, c)

def releaseRef (c : BufCache) (node : BufPtr) : BufCache :=
  let c := { c with bufRef := Function.update c.bufRef node (c.bufRef node - 1) }
  if c.bufRef node = 0 then c.insertHead node false else c

end BufCache

end UnoOS.Fs
