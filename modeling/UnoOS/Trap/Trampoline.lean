import UnoOS.Trap.Hart

namespace UnoOS.Trap

open UnoOS.Lib
open UnoOS.Lib.Straight
open UnoOS.Mem

/-! The code of `trampoline.S`, between a trap of user code and the handler, and back. -/

abbrev tfKernelSatp : UInt64 := 0

abbrev tfKernelSp : UInt64 := 8

abbrev tfKernelTrap : UInt64 := 16

abbrev tfEpc : UInt64 := 24

abbrev tfKernelHartid : UInt64 := 32

abbrev tfA0 : UInt64 := 112

abbrev tfSize : Nat := 288

/-- The registers that both routines move by way of `a0`, and where `trapframe_t` has
them. -/
def userSlots : Slots Reg :=
  [(.ra, 40), (.sp, 48), (.gp, 56), (.tp, 64), (.t0, 72), (.t1, 80), (.t2, 88), (.s0, 96),
   (.s1, 104), (.a1, 120), (.a2, 128), (.a3, 136), (.a4, 144), (.a5, 152), (.a6, 160),
   (.a7, 168), (.s2, 176), (.s3, 184), (.s4, 192), (.s5, 200), (.s6, 208), (.s7, 216),
   (.s8, 224), (.s9, 232), (.s10, 240), (.s11, 248), (.t3, 256), (.t4, 264), (.t5, 272),
   (.t6, 280)]

def kernelSlots : Slots Reg :=
  [(.sp, tfKernelSp), (.tp, tfKernelHartid), (.t0, tfKernelTrap), (.t1, tfKernelSatp)]

/-- `user_vector`, up to `jr t0` -/
def userVector : List (Instr Reg Csr) :=
  [.csrrw .a0 .sscratch .a0] ++ saves .a0 userSlots ++
    [.csrr .t0 .sscratch, .sd .t0 tfA0 .a0] ++ loads .a0 kernelSlots ++
    [.csrw .satp .t1, .sfence]

def userReturn : List (Instr Reg Csr) :=
  [.csrw .satp .a1, .sfence, .ld .t0 tfA0 .a0, .csrw .sscratch .t0] ++
    loads .a0 userSlots ++ [.csrrw .a0 .sscratch .a0]

def frameSlots : Slots Reg := userSlots ++ [(.a0, tfA0)]

theorem fits_userSlots : Fits userSlots tfSize := ⟨by decide, by decide, by decide⟩

theorem fits_kernelSlots : Fits kernelSlots tfSize := ⟨by decide, by decide, by decide⟩

theorem fits_frameSlots : Fits frameSlots tfSize := ⟨by decide, by decide, by decide⟩

theorem mem_frameSlots (r : Reg) : r ∈ frameSlots.map Prod.fst := by
  cases r <;> decide

theorem frameSlots_ge : ∀ slot ∈ frameSlots, 40 ≤ slot.2.toNat := by decide

theorem a0_not_mem : Reg.a0 ∉ userSlots.map Prod.fst ∧ Reg.a0 ∉ kernelSlots.map Prod.fst := by
  decide

variable {m : Machine Reg Csr} {tf : Nat}

theorem load64_saved_kernel {regs : Reg → UInt64} {mem : Memory} {k : Nat} (hk : k + 8 ≤ 40) :
    (saved tf regs frameSlots mem).load64 (tf + k) = mem.load64 (tf + k) := by
  refine load64_saved_of_apart fun slot hslot => ?_
  have hge := frameSlots_ge slot hslot
  omega

structure Entered (m m' : Machine Reg Csr) (tf : Nat) : Prop where
  mem : m'.mem = saved tf m.regs frameSlots m.mem
  sp : m'.regs .sp = m.mem.load64 (tf + 8)
  tp : m'.regs .tp = m.mem.load64 (tf + 32)
  t0 : m'.regs .t0 = m.mem.load64 (tf + 16)
  satp : m'.csrs .satp = m.mem.load64 tf
  csrs : ∀ c, c ≠ .satp → c ≠ .sscratch → m'.csrs c = m.csrs c

theorem exec_userVector
    (hspans : Spans paged m.csrs m.mem (m.csrs .sscratch) tf tfSize) :
    ∃ m', exec paged userVector m = some m' ∧ Entered m m' tf := by
  let csrs := Function.update m.csrs .sscratch (m.regs .a0)
  let regs := Function.update m.regs .a0 (m.csrs .sscratch)
  let regs' := Function.update regs .t0 (m.regs .a0)
  let mem := saved tf m.regs frameSlots m.mem
  have hspans₁ : ∀ mem', (∀ x, x < tf ∨ tf + tfSize ≤ x → mem' x = m.mem x) →
      Spans paged csrs mem' (m.csrs .sscratch) tf tfSize := fun mem' hsame =>
    (spans_congr_satp hspans rfl).congr hsame
  have hsame : saved tf regs userSlots m.mem = saved tf m.regs userSlots m.mem := by
    refine saved_congr fun slot hslot => Function.update_of_ne ?_ _ _
    intro heq
    exact a0_not_mem.1 (heq ▸ List.mem_map_of_mem hslot)
  have hsaves : exec paged ([.csrrw .a0 .sscratch .a0] ++ saves .a0 userSlots) m =
      some ⟨regs, csrs, saved tf regs userSlots m.mem⟩ :=
    run_append.mpr ⟨⟨regs, csrs, m.mem⟩, rfl, exec_saves (m := ⟨regs, csrs, m.mem⟩)
      (hspans₁ _ fun _ _ => rfl) fits_userSlots⟩
  have hlast : exec paged [.csrr .t0 .sscratch, .sd .t0 tfA0 .a0]
      ⟨regs, csrs, saved tf regs userSlots m.mem⟩ = some ⟨regs', csrs, mem⟩ := by
    have hsd := exec_sd (m := ⟨regs', csrs, saved tf regs userSlots m.mem⟩) Reg.t0 tfA0 Reg.a0
      (hspans₁ _ fun x hx => saved_outside fits_userSlots hx) (by decide) (by decide)
    refine run_cons.mpr ⟨_, rfl, run_cons.mpr ⟨_, hsd, ?_⟩⟩
    unfold mem frameSlots
    rw [saved_append, hsame]
    rfl
  have hloads : exec paged (loads .a0 kernelSlots) ⟨regs', csrs, mem⟩ =
      some ⟨loaded tf mem kernelSlots regs', csrs, mem⟩ :=
    exec_loads (m := ⟨regs', csrs, mem⟩)
      (hspans₁ _ fun x hx => saved_outside fits_frameSlots hx) fits_kernelSlots
      fun offset hmem => absurd (List.mem_map_of_mem hmem) a0_not_mem.2
  have hword : ∀ r (offset : UInt64), (r, offset) ∈ kernelSlots → offset.toNat + 8 ≤ 40 →
      loaded tf mem kernelSlots regs' r = m.mem.load64 (tf + offset.toNat) := by
    intro r offset hmem hoffset
    rw [loaded_of_mem fits_kernelSlots hmem, load64_saved_kernel hoffset]
  refine ⟨⟨loaded tf mem kernelSlots regs',
    Function.update csrs .satp (loaded tf mem kernelSlots regs' .t1), mem⟩, ?_, ?_⟩
  · exact run_append.mpr ⟨_, run_append.mpr ⟨_, run_append.mpr ⟨_, hsaves, hlast⟩, hloads⟩, rfl⟩
  · refine ⟨rfl, hword .sp tfKernelSp (by decide) (by decide),
      hword .tp tfKernelHartid (by decide) (by decide),
      hword .t0 tfKernelTrap (by decide) (by decide), ?_, ?_⟩
    · change Function.update csrs .satp (loaded tf mem kernelSlots regs' .t1) .satp = _
      rw [Function.update_self]
      exact hword .t1 tfKernelSatp (by decide) (by decide)
    · intro c hsatp hscratch
      exact (Function.update_of_ne hsatp _ _).trans (Function.update_of_ne hscratch _ _)

structure Left (m m' : Machine Reg Csr) (tf : Nat) : Prop where
  mem : m'.mem = m.mem
  regs : ∀ slot ∈ frameSlots, m'.regs slot.1 = m.mem.load64 (tf + slot.2.toNat)
  satp : m'.csrs .satp = m.regs .a1
  sscratch : m'.csrs .sscratch = m.regs .a0
  csrs : ∀ c, c ≠ .satp → c ≠ .sscratch → m'.csrs c = m.csrs c

theorem exec_userReturn
    (hspans : Spans paged (Function.update m.csrs .satp (m.regs .a1)) m.mem (m.regs .a0) tf
      tfSize) :
    ∃ m', exec paged userReturn m = some m' ∧ Left m m' tf := by
  let word := m.mem.load64 (tf + tfA0.toNat)
  let csrs := Function.update m.csrs .satp (m.regs .a1)
  let regs := Function.update m.regs .t0 word
  let csrs' := Function.update csrs .sscratch word
  let regs' := loaded tf m.mem userSlots regs
  have hfirst : exec paged [.csrw .satp .a1, .sfence, .ld .t0 tfA0 .a0, .csrw .sscratch .t0] m =
      some ⟨regs, csrs', m.mem⟩ := by
    have hld := exec_ld (m := ⟨m.regs, csrs, m.mem⟩) Reg.t0 tfA0 Reg.a0 hspans (by decide)
      (by decide)
    exact run_cons.mpr ⟨_, rfl, run_cons.mpr ⟨_, rfl, run_cons.mpr ⟨_, hld, rfl⟩⟩⟩
  have hloads : exec paged (loads .a0 userSlots) ⟨regs, csrs', m.mem⟩ =
      some ⟨regs', csrs', m.mem⟩ :=
    exec_loads (m := ⟨regs, csrs', m.mem⟩) (spans_congr_satp hspans rfl) fits_userSlots
      fun offset hmem => absurd (List.mem_map_of_mem hmem) a0_not_mem.1
  have ha0 : regs' .a0 = m.regs .a0 := loaded_of_not_mem a0_not_mem.1
  refine ⟨⟨Function.update regs' .a0 word, Function.update csrs' .sscratch (regs' .a0), m.mem⟩,
    run_append.mpr ⟨_, run_append.mpr ⟨_, hfirst, hloads⟩, rfl⟩, rfl, ?_, rfl, ?_, ?_⟩
  · intro slot hslot
    rcases List.mem_append.mp hslot with hslot | hslot
    · have hne : slot.1 ≠ .a0 := fun heq => a0_not_mem.1 (heq ▸ List.mem_map_of_mem hslot)
      change Function.update regs' .a0 word slot.1 = _
      rw [Function.update_of_ne hne]
      exact loaded_of_mem fits_userSlots hslot
    · rw [List.mem_singleton.mp hslot]
      change Function.update regs' .a0 word .a0 = _
      rw [Function.update_self]
  · change Function.update csrs' .sscratch (regs' .a0) .sscratch = _
    rw [Function.update_self, ha0]
  · intro c hsatp hscratch
    exact (Function.update_of_ne hscratch _ _).trans
      ((Function.update_of_ne hscratch _ _).trans (Function.update_of_ne hsatp _ _))

end UnoOS.Trap
