import UnoOS.Trap.Hart

namespace UnoOS.Trap

open UnoOS.Lib
open UnoOS.Lib.Straight
open UnoOS.Mem

/-! The code of `trap.S` for interrupts in the kernel, and of `swtch.S`. -/

/-- Memory by the addresses of the kernel, which has mapped all that this code touches. -/
def flat : Translation Csr := fun _ _ _ va => some va.toNat

def stackSlots : Slots Reg :=
  [(.ra, 0), (.sp, 8), (.gp, 16), (.tp, 24), (.t0, 32), (.t1, 40), (.t2, 48), (.s0, 56),
   (.s1, 64), (.a0, 72), (.a1, 80), (.a2, 88), (.a3, 96), (.a4, 104), (.a5, 112), (.a6, 120),
   (.a7, 128), (.s2, 136), (.s3, 144), (.s4, 152), (.s5, 160), (.s6, 168), (.s7, 176),
   (.s8, 184), (.s9, 192), (.s10, 200), (.s11, 208), (.t3, 216), (.t4, 224), (.t5, 232),
   (.t6, 240)]

/-- `tp` is not loaded, as the handler may have gone on on another hart. -/
def resumeSlots : Slots Reg := stackSlots.filter fun slot => slot.1 ≠ .tp

abbrev frameSize : Nat := 256

def kernelVector : List (Instr Reg Csr) :=
  [.addi .sp .sp (-256)] ++ saves .sp stackSlots

/-- `kernel_vector` from there on, up to `sret` -/
def kernelVectorEnd : List (Instr Reg Csr) :=
  loads .sp resumeSlots ++ [.addi .sp .sp 256]

/-- `context_t` -/
def contextSlots : Slots Reg :=
  [(.ra, 0), (.sp, 8), (.s0, 16), (.s1, 24), (.s2, 32), (.s3, 40), (.s4, 48), (.s5, 56),
   (.s6, 64), (.s7, 72), (.s8, 80), (.s9, 88), (.s10, 96), (.s11, 104)]

abbrev contextSize : Nat := 112

def swtch : List (Instr Reg Csr) := saves .a0 contextSlots ++ loads .a1 contextSlots

theorem fits_stackSlots : Fits stackSlots frameSize := ⟨by decide, by decide, by decide⟩

theorem fits_resumeSlots : Fits resumeSlots frameSize := ⟨by decide, by decide, by decide⟩

theorem fits_contextSlots : Fits contextSlots contextSize :=
  ⟨by decide, by decide, by decide⟩

theorem resumeSlots_subset : ∀ slot ∈ resumeSlots, slot ∈ stackSlots := by decide

theorem offset_of_sp : ∀ slot ∈ resumeSlots, slot.1 = .sp → slot.2 = 8 := by decide

theorem mem_resumeSlots {r : Reg} (h : r ≠ .tp) : ∃ offset, (r, offset) ∈ resumeSlots := by
  have hmem : r ∈ resumeSlots.map Prod.fst := by
    revert h
    cases r <;> decide
  obtain ⟨⟨_, offset⟩, hslot, rfl⟩ := List.mem_map.mp hmem
  exact ⟨offset, hslot⟩

theorem tp_not_mem : Reg.tp ∉ resumeSlots.map Prod.fst := by decide

theorem flat_spans {csrs : Csr → UInt64} {mem : Memory} {addr : UInt64} {len : Nat}
    (hroom : addr.toNat + len ≤ 2 ^ 64) : Spans flat csrs mem addr addr.toNat len := by
  intro _ _ _ offset _ hoffset
  unfold flat
  rw [UInt64.toNat_add, Nat.mod_eq_of_lt (by omega)]

variable {m : Machine Reg Csr} {regs : Reg → UInt64}

structure Stacked (mem : Memory) (addr : UInt64) (regs : Reg → UInt64) : Prop where
  words : ∀ slot ∈ resumeSlots, slot.1 ≠ .sp →
    mem.load64 (addr.toNat + slot.2.toNat) = regs slot.1
  sp : mem.load64 (addr.toNat + 8) = addr

theorem sub_frameSize_toNat {sp : UInt64} (hroom : frameSize ≤ sp.toNat) :
    (sp + -256).toNat = sp.toNat - frameSize := by
  have hlt := sp.toNat_lt
  have hneg : (-256 : UInt64).toNat = 2 ^ 64 - 256 := rfl
  have hsize : frameSize = 256 := rfl
  rw [UInt64.toNat_add, hneg]
  omega

theorem exec_kernelVector (hroom : frameSize ≤ (m.regs .sp).toNat) :
    ∃ mem, exec flat kernelVector m =
        some ⟨Function.update m.regs .sp (m.regs .sp + -256), m.csrs, mem⟩ ∧
      Stacked mem (m.regs .sp + -256) m.regs ∧
      ∀ x, x < (m.regs .sp).toNat - frameSize ∨ (m.regs .sp).toNat ≤ x → mem x = m.mem x := by
  let addr := m.regs .sp + -256
  let regs := Function.update m.regs .sp addr
  have haddr : addr.toNat = (m.regs .sp).toNat - frameSize := sub_frameSize_toNat hroom
  have hlt := (m.regs .sp).toNat_lt
  have hself : regs .sp = addr := Function.update_self _ _ _
  have hsaves : exec flat (saves .sp stackSlots) ⟨regs, m.csrs, m.mem⟩ =
      some ⟨regs, m.csrs, saved addr.toNat regs stackSlots m.mem⟩ := by
    refine exec_saves (m := ⟨regs, m.csrs, m.mem⟩) ?_ fits_stackSlots
    change Spans flat m.csrs m.mem (regs .sp) addr.toNat frameSize
    rw [hself]
    exact flat_spans (by omega)
  refine ⟨saved addr.toNat regs stackSlots m.mem, run_append.mpr ⟨_, rfl, hsaves⟩, ⟨?_, ?_⟩, ?_⟩
  · intro slot hslot hne
    refine (load64_saved fits_stackSlots (resumeSlots_subset slot hslot)).trans ?_
    exact Function.update_of_ne hne _ _
  · exact (load64_saved fits_stackSlots (show (Reg.sp, 8) ∈ stackSlots by decide)).trans hself
  · intro x hx
    exact saved_outside fits_stackSlots (by omega)

/-- The registers come back but for `tp`, whatever they are now. -/
theorem exec_kernelVectorEnd {addr : UInt64} (hsp : m.regs .sp = addr)
    (hroom : addr.toNat + frameSize < 2 ^ 64) (hstacked : Stacked m.mem addr regs)
    (hown : regs .sp = addr + 256) :
    exec flat kernelVectorEnd m =
      some ⟨Function.update regs .tp (m.regs .tp), m.csrs, m.mem⟩ := by
  have hload : ∀ slot ∈ resumeSlots, m.mem.load64 (addr.toNat + slot.2.toNat) =
      Function.update regs .sp addr slot.1 := by
    intro slot hslot
    by_cases hr : slot.1 = .sp
    · rw [hr, offset_of_sp slot hslot hr, Function.update_self]
      exact hstacked.sp
    · rw [Function.update_of_ne hr]
      exact hstacked.words slot hslot hr
  have hloads : exec flat (loads .sp resumeSlots) m =
      some ⟨loaded addr.toNat m.mem resumeSlots m.regs, m.csrs, m.mem⟩ := by
    refine exec_loads ?_ fits_resumeSlots fun offset hoffset => ?_
    · rw [hsp]
      exact flat_spans (by omega)
    · rw [hsp]
      exact (hload _ hoffset).trans (Function.update_self _ _ _)
  have hregs : Function.update (loaded addr.toNat m.mem resumeSlots m.regs) .sp
      (loaded addr.toNat m.mem resumeSlots m.regs .sp + 256) =
      Function.update regs .tp (m.regs .tp) := by
    have hone : ∀ r, r ≠ .tp → loaded addr.toNat m.mem resumeSlots m.regs r =
        Function.update regs .sp addr r := by
      intro r hr
      obtain ⟨offset, hslot⟩ := mem_resumeSlots hr
      rw [loaded_of_mem fits_resumeSlots hslot]
      exact hload (r, offset) hslot
    funext r
    by_cases hr : r = .sp
    · rw [hr, Function.update_self, hone .sp (by decide), Function.update_self,
        Function.update_of_ne (by decide), hown]
    · rw [Function.update_of_ne hr]
      by_cases htp : r = .tp
      · rw [htp, Function.update_self]
        exact loaded_of_not_mem tp_not_mem
      · rw [hone r htp, Function.update_of_ne hr, Function.update_of_ne htp]
  rw [← hregs]
  exact run_append.mpr ⟨_, hloads, rfl⟩

/-- `context_t` in memory. -/
def Parked (mem : Memory) (ctx : UInt64) (regs : Reg → UInt64) : Prop :=
  ∀ slot ∈ contextSlots, mem.load64 (ctx.toNat + slot.2.toNat) = regs slot.1

/-- The registers that a function call keeps, from one computation, and the others from
another. -/
def mergeRegs (kept others : Reg → UInt64) : Reg → UInt64 := fun r =>
  if r ∈ contextSlots.map Prod.fst then kept r else others r

theorem exec_swtch {old new : UInt64} (hold : m.regs .a0 = old) (hnew : m.regs .a1 = new)
    (hroom : old.toNat + contextSize ≤ 2 ^ 64) (hroom' : new.toNat + contextSize ≤ 2 ^ 64)
    (hapart : old.toNat + contextSize ≤ new.toNat ∨ new.toNat + contextSize ≤ old.toNat)
    (hparked : Parked m.mem new regs) :
    ∃ mem, exec flat swtch m = some ⟨mergeRegs regs m.regs, m.csrs, mem⟩ ∧
      Parked mem old m.regs ∧
      ∀ x, x < old.toNat ∨ old.toNat + contextSize ≤ x → mem x = m.mem x := by
  have hsaves : exec flat (saves .a0 contextSlots) m =
      some { m with mem := saved old.toNat m.regs contextSlots m.mem } := by
    refine exec_saves ?_ fits_contextSlots
    rw [hold]
    exact flat_spans hroom
  have hparked' : Parked (saved old.toNat m.regs contextSlots m.mem) new regs := by
    intro slot hslot
    refine (load64_saved_of_apart fun slot' hslot' => ?_).trans (hparked slot hslot)
    have hinside := (fits_contextSlots.inside slot hslot).2
    have hinside' := (fits_contextSlots.inside slot' hslot').2
    omega
  refine ⟨saved old.toNat m.regs contextSlots m.mem, ?_, ?_, ?_⟩
  · have hloads : exec flat (loads .a1 contextSlots)
        { m with mem := saved old.toNat m.regs contextSlots m.mem } =
        some ⟨loaded new.toNat (saved old.toNat m.regs contextSlots m.mem) contextSlots m.regs,
          m.csrs, saved old.toNat m.regs contextSlots m.mem⟩ := by
      refine exec_loads (m := ⟨m.regs, m.csrs, _⟩) ?_ fits_contextSlots fun offset hoffset => ?_
      · rw [hnew]
        exact flat_spans hroom'
      · exact absurd (List.mem_map_of_mem hoffset)
          (show Reg.a1 ∉ contextSlots.map Prod.fst by decide)
    have hregs : loaded new.toNat (saved old.toNat m.regs contextSlots m.mem) contextSlots
        m.regs = mergeRegs regs m.regs := by
      funext r
      unfold mergeRegs
      split
      · next hmem =>
        obtain ⟨slot, hslot, rfl⟩ := List.mem_map.mp hmem
        exact (loaded_of_mem fits_contextSlots hslot).trans (hparked' slot hslot)
      · next hmem => exact loaded_of_not_mem hmem
    rw [← hregs]
    exact run_append.mpr ⟨_, hsaves, hloads⟩
  · intro slot hslot
    exact load64_saved fits_contextSlots hslot
  · intro x hx
    exact saved_outside fits_contextSlots hx

end UnoOS.Trap
