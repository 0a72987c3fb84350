import UnoOS.Lib.Memory
import UnoOS.Lib.Transition

namespace UnoOS.Lib.Straight

/-! Straight-line code of a machine that computes in registers and moves words
between them and memory.  The registers, the control registers and the way in which
addresses are translated are parameters. -/

inductive Access where
  | load
  | store
deriving DecidableEq

/-- `csrrw rd csr rs` swaps: `rs` is read before `rd` is written. -/
inductive Instr (ρ κ : Type) where
  | li (rd : ρ) (imm : UInt64)
  | addi (rd rs : ρ) (imm : UInt64)
  | add (rd rs rs' : ρ)
  | ld (rd : ρ) (offset : UInt64) (base : ρ)
  | sd (rs : ρ) (offset : UInt64) (base : ρ)
  | csrr (rd : ρ) (csr : κ)
  | csrw (csr : κ) (rs : ρ)
  | csrrw (rd : ρ) (csr : κ) (rs : ρ)
  | sfence

structure Machine (ρ κ : Type) where
  regs : ρ → UInt64
  csrs : κ → UInt64
  mem : Memory

/-- The place in memory that an access to an address reaches, if it is allowed. -/
abbrev Translation (κ : Type) := Access → (κ → UInt64) → Memory → UInt64 → Option Nat

variable {ρ κ : Type}

namespace Machine

section

variable [DecidableEq ρ] (m : Machine ρ κ) (r : ρ) (v : UInt64)

def setReg : Machine ρ κ := { m with regs := Function.update m.regs r v }

@[simp] theorem regs_setReg : (m.setReg r v).regs = Function.update m.regs r v := rfl

@[simp] theorem csrs_setReg : (m.setReg r v).csrs = m.csrs := rfl

@[simp] theorem mem_setReg : (m.setReg r v).mem = m.mem := rfl

end

section

variable [DecidableEq κ] (m : Machine ρ κ) (c : κ) (v : UInt64)

def setCsr : Machine ρ κ := { m with csrs := Function.update m.csrs c v }

@[simp] theorem regs_setCsr : (m.setCsr c v).regs = m.regs := rfl

@[simp] theorem csrs_setCsr : (m.setCsr c v).csrs = Function.update m.csrs c v := rfl

@[simp] theorem mem_setCsr : (m.setCsr c v).mem = m.mem := rfl

end

end Machine

/-- One instruction; `none` is an exception. -/
def Instr.exec [DecidableEq ρ] [DecidableEq κ] (phys : Translation κ) (m : Machine ρ κ) :
    Instr ρ κ → Option (Machine ρ κ)
  | .li rd imm => some (m.setReg rd imm)
  | .addi rd rs imm => some (m.setReg rd (m.regs rs + imm))
  | .add rd rs rs' => some (m.setReg rd (m.regs rs + m.regs rs'))
  | .ld rd offset base =>
      (phys .load m.csrs m.mem (m.regs base + offset)).map fun a =>
        m.setReg rd (m.mem.load64 a)
  | .sd rs offset base =>
      (phys .store m.csrs m.mem (m.regs base + offset)).map fun a =>
        { m with mem := m.mem.store64 a (m.regs rs) }
  | .csrr rd csr => some (m.setReg rd (m.csrs csr))
  | .csrw csr rs => some (m.setCsr csr (m.regs rs))
  | .csrrw rd csr rs => some ((m.setCsr csr (m.regs rs)).setReg rd (m.csrs csr))
  | .sfence => some m

abbrev exec [DecidableEq ρ] [DecidableEq κ] (phys : Translation κ)
    (code : List (Instr ρ κ)) (m : Machine ρ κ) : Option (Machine ρ κ) :=
  run (fun m i => i.exec phys m) m code

/-! Registers kept in the words of a block. -/

abbrev Slots (ρ : Type) := List (ρ × UInt64)

def saves (base : ρ) (slots : Slots ρ) : List (Instr ρ κ) :=
  slots.map fun slot => .sd slot.1 slot.2 base

def loads (base : ρ) (slots : Slots ρ) : List (Instr ρ κ) :=
  slots.map fun slot => .ld slot.1 slot.2 base

def saved (place : Nat) (regs : ρ → UInt64) : Slots ρ → Memory → Memory
  | [], mem => mem
  | slot :: slots, mem =>
      saved place regs slots (mem.store64 (place + slot.2.toNat) (regs slot.1))

def loaded [DecidableEq ρ] (place : Nat) (mem : Memory) :
    Slots ρ → (ρ → UInt64) → ρ → UInt64
  | [], regs => regs
  | slot :: slots, regs => loaded place mem slots
      (Function.update regs slot.1 (mem.load64 (place + slot.2.toNat)))

/-- The words of the registers lie in a block of `len` bytes and do not overlap. -/
structure Fits (slots : Slots ρ) (len : Nat) : Prop where
  inside : ∀ slot ∈ slots, slot.2.toNat % 8 = 0 ∧ slot.2.toNat + 8 ≤ len
  offsets : (slots.map Prod.snd).Nodup
  registers : (slots.map Prod.fst).Nodup

/-- The words from an address on are those of the block, whatever these hold. -/
def Spans (phys : Translation κ) (csrs : κ → UInt64) (mem : Memory) (addr : UInt64)
    (place len : Nat) : Prop :=
  ∀ mem', (∀ x, x < place ∨ place + len ≤ x → mem' x = mem x) →
    ∀ access (offset : UInt64), offset.toNat % 8 = 0 → offset.toNat + 8 ≤ len →
      phys access csrs mem' (addr + offset) = some (place + offset.toNat)

section

variable {phys : Translation κ} {csrs : κ → UInt64} {mem mem' : Memory}
  {addr : UInt64} {place len : Nat} {slots : Slots ρ} {regs regs' : ρ → UInt64}
  {m : Machine ρ κ} {base r : ρ} {offset : UInt64}

theorem Fits.tail {slot : ρ × UInt64} (h : Fits (slot :: slots) len) : Fits slots len :=
  ⟨fun s hs => h.inside s (.tail _ hs), (List.nodup_cons.mp h.offsets).2,
    (List.nodup_cons.mp h.registers).2⟩

theorem Fits.apart {slot slot' : ρ × UInt64} (h : Fits (slot :: slots) len)
    (hmem : slot' ∈ slots) :
    slot.2.toNat + 8 ≤ slot'.2.toNat ∨ slot'.2.toNat + 8 ≤ slot.2.toNat := by
  have hne : slot'.2.toNat ≠ slot.2.toNat := by
    intro heq
    refine (List.nodup_cons.mp h.offsets).1 ?_
    rw [← UInt64.toNat_inj.mp heq]
    exact List.mem_map_of_mem hmem
  have hslot := (h.inside slot (.head _)).1
  have hslot' := (h.inside slot' (.tail _ hmem)).1
  omega

theorem Spans.congr (h : Spans phys csrs mem addr place len)
    (hsame : ∀ x, x < place ∨ place + len ≤ x → mem' x = mem x) :
    Spans phys csrs mem' addr place len := by
  intro mem'' hsame'
  exact h mem'' fun x hx => (hsame' x hx).trans (hsame x hx)

theorem Spans.store64 (h : Spans phys csrs mem addr place len) {v : UInt64}
    (hoffset : offset.toNat + 8 ≤ len) :
    Spans phys csrs (mem.store64 (place + offset.toNat) v) addr place len := by
  refine h.congr fun x hx => ?_
  exact Memory.write_of_not_mem (by omega)

section

variable [DecidableEq ρ] [DecidableEq κ]

theorem exec_ld (rd : ρ) (offset : UInt64) (base : ρ)
    (hspans : Spans phys m.csrs m.mem (m.regs base) place len)
    (haligned : offset.toNat % 8 = 0) (hinside : offset.toNat + 8 ≤ len) :
    (Instr.ld rd offset base).exec phys m =
      some (m.setReg rd (m.mem.load64 (place + offset.toNat))) :=
  congrArg (Option.map fun a => m.setReg rd (m.mem.load64 a))
    (hspans m.mem (fun _ _ => rfl) .load offset haligned hinside)

theorem exec_sd (rs : ρ) (offset : UInt64) (base : ρ)
    (hspans : Spans phys m.csrs m.mem (m.regs base) place len)
    (haligned : offset.toNat % 8 = 0) (hinside : offset.toNat + 8 ≤ len) :
    (Instr.sd rs offset base).exec phys m =
      some { m with mem := m.mem.store64 (place + offset.toNat) (m.regs rs) } :=
  congrArg (Option.map fun a => (⟨m.regs, m.csrs, m.mem.store64 a (m.regs rs)⟩ : Machine ρ κ))
    (hspans m.mem (fun _ _ => rfl) .store offset haligned hinside)

end

/-! Saving. -/

theorem exec_saves [DecidableEq ρ] [DecidableEq κ]
    (hspans : Spans phys m.csrs m.mem (m.regs base) place len)
    (hfits : Fits slots len) :
    exec phys (saves base slots) m =
      some { m with mem := saved place m.regs slots m.mem } := by
  induction slots generalizing m with
  | nil => rfl
  | cons slot slots ih =>
      obtain ⟨haligned, hinside⟩ := hfits.inside slot (.head _)
      refine run_cons.mpr ⟨_, exec_sd slot.1 slot.2 base hspans haligned hinside, ?_⟩
      exact ih (hspans.store64 hinside) hfits.tail

theorem saved_outside (hfits : Fits slots len) {x : Nat} (hx : x < place ∨ place + len ≤ x) :
    saved place regs slots mem x = mem x := by
  induction slots generalizing mem with
  | nil => rfl
  | cons slot slots ih =>
      have hinside := (hfits.inside slot (.head _)).2
      refine (ih hfits.tail).trans ?_
      exact Memory.write_of_not_mem (by omega)

theorem load64_store64_apart (mem : Memory) {a b : Nat} (v : UInt64)
    (h : b + 8 ≤ a ∨ a + 8 ≤ b) : (mem.store64 a v).load64 b = mem.load64 b :=
  congrArg UInt64.ofNat (Memory.number_write_of_disjoint h)

theorem load64_saved_of_apart {a : Nat}
    (ha : ∀ slot ∈ slots, a + 8 ≤ place + slot.2.toNat ∨ place + slot.2.toNat + 8 ≤ a) :
    (saved place regs slots mem).load64 a = mem.load64 a := by
  induction slots generalizing mem with
  | nil => rfl
  | cons slot slots ih =>
      refine (ih fun s hs => ha s (.tail _ hs)).trans ?_
      exact load64_store64_apart _ _ (ha slot (.head _))

theorem load64_saved (hfits : Fits slots len) (hmem : (r, offset) ∈ slots) :
    (saved place regs slots mem).load64 (place + offset.toNat) = regs r := by
  induction slots generalizing mem with
  | nil => cases hmem
  | cons slot slots ih =>
      rcases List.mem_cons.mp hmem with rfl | hmem
      · unfold saved
        rw [load64_saved_of_apart, Memory.load64_store64_self]
        intro slot' hslot'
        have hapart := hfits.apart hslot'
        dsimp only at hapart ⊢
        omega
      · exact ih hfits.tail hmem

theorem saved_append (slots slots' : Slots ρ) :
    saved place regs (slots ++ slots') mem =
      saved place regs slots' (saved place regs slots mem) := by
  induction slots generalizing mem with
  | nil => rfl
  | cons slot slots ih => exact ih

theorem saved_congr (h : ∀ slot ∈ slots, regs' slot.1 = regs slot.1) :
    saved place regs' slots mem = saved place regs slots mem := by
  induction slots generalizing mem with
  | nil => rfl
  | cons slot slots ih =>
      unfold saved
      rw [h slot (.head _)]
      exact ih fun s hs => h s (.tail _ hs)

/-! Loading. -/

/-- The register that holds the address of the block may itself be loaded, with the
value that it has. -/
theorem exec_loads [DecidableEq ρ] [DecidableEq κ]
    (hspans : Spans phys m.csrs m.mem (m.regs base) place len)
    (hfits : Fits slots len)
    (hbase : ∀ offset, (base, offset) ∈ slots →
      m.mem.load64 (place + offset.toNat) = m.regs base) :
    exec phys (loads base slots) m =
      some { m with regs := loaded place m.mem slots m.regs } := by
  induction slots generalizing m with
  | nil => rfl
  | cons slot slots ih =>
      obtain ⟨haligned, hinside⟩ := hfits.inside slot (.head _)
      have hkept : (m.setReg slot.1 (m.mem.load64 (place + slot.2.toNat))).regs base =
          m.regs base := by
        rw [Machine.regs_setReg]
        by_cases heq : base = slot.1
        · subst heq
          rw [Function.update_self]
          exact hbase slot.2 (.head _)
        · rw [Function.update_of_ne heq]
      refine run_cons.mpr ⟨_, exec_ld slot.1 slot.2 base hspans haligned hinside, ?_⟩
      refine ih ?_ hfits.tail ?_
      · rw [hkept]
        exact hspans
      · intro offset hoffset
        rw [hkept]
        exact hbase offset (.tail _ hoffset)

theorem loaded_of_not_mem [DecidableEq ρ] (hr : r ∉ slots.map Prod.fst) :
    loaded place mem slots regs r = regs r := by
  induction slots generalizing regs with
  | nil => rfl
  | cons slot slots ih =>
      rw [List.map_cons, List.mem_cons, not_or] at hr
      refine (ih hr.2).trans ?_
      exact Function.update_of_ne hr.1 _ _

theorem loaded_of_mem [DecidableEq ρ] (hfits : Fits slots len) (hmem : (r, offset) ∈ slots) :
    loaded place mem slots regs r = mem.load64 (place + offset.toNat) := by
  induction slots generalizing regs with
  | nil => cases hmem
  | cons slot slots ih =>
      rcases List.mem_cons.mp hmem with rfl | hmem
      · refine (loaded_of_not_mem (List.nodup_cons.mp hfits.registers).1).trans ?_
        exact Function.update_self _ _ _
      · exact ih hfits.tail hmem

end

end UnoOS.Lib.Straight
