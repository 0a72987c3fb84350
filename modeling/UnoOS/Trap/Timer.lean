import UnoOS.Lib.Transition
import UnoOS.Trap.Hart

namespace UnoOS.Trap

open UnoOS.Lib
open UnoOS.Lib.Straight

/-! The clock: `timer_init` (`timer.c`), `timer_vector` (`trap.S`), and what
`timer_interrupt_handler` (`trap_kernel.c`) does with `sip` and the ticks. -/

abbrev timerInterval : UInt64 := 1000000

abbrev clintMtimecmp : Nat := 0x2004000

abbrev clintMtime : Nat := 0x200BFF8

abbrev sipSsip : UInt64 := 2

/-- The numbers of the harts, and their rows in `mscratch`. -/
structure TimerLayout (κ : Type) where
  hartid : κ → Nat
  scratch : κ → Nat
  distinct : ∀ c d, hartid c = hartid d → c = d
  few : ∀ c, hartid c < 4095
  inRam : ∀ c, clintMtime + 8 ≤ scratch c
  room : ∀ c, scratch c + 40 ≤ 2 ^ 64
  apart : ∀ c d, c ≠ d → scratch c + 40 ≤ scratch d ∨ scratch d + 40 ≤ scratch c

/-- `CLINT_MTIMECMP` -/
def TimerLayout.mtimecmp {κ : Type} (layout : TimerLayout κ) (c : κ) : Nat :=
  clintMtimecmp + 8 * layout.hartid c

def timerSlots : Slots Reg := [(.a1, 0), (.a2, 8), (.a3, 16)]

def timerEnter : List (Instr Reg Csr) :=
  [.csrrw .a0 .mscratch .a0] ++ saves .a0 timerSlots

def timerWork : List (Instr Reg Csr) :=
  [.ld .a1 24 .a0, .ld .a2 32 .a0, .ld .a3 0 .a1, .add .a3 .a3 .a2, .sd .a3 0 .a1,
   .li .a1 2, .csrw .sip .a1]

def timerLeave : List (Instr Reg Csr) :=
  loads .a0 timerSlots.reverse ++ [.csrrw .a0 .mscratch .a0]

def timerVector : List (Instr Reg Csr) := timerEnter ++ (timerWork ++ timerLeave)

/-- A timer interrupt: M-mode has it without the hart's other traps. -/
def timerInterrupt (h : Hart) (mem : Memory) : Option (Hart × Memory) :=
  (exec bare timerVector (h.machine mem)).map fun m => (h.continueAt m h.pc, m.mem)

def timerInit {κ : Type} (layout : TimerLayout κ) (c : κ) (mem : Memory) : Memory :=
  let mem := mem.store64 (layout.mtimecmp c) (mem.load64 clintMtime + timerInterval)
  let mem := mem.store64 (layout.scratch c + 24) (UInt64.ofNat (layout.mtimecmp c))
  mem.store64 (layout.scratch c + 32) timerInterval

structure TimerSystem (κ : Type) where
  hart : κ → Hart
  mem : Memory
  /-- `MSTATUS_MIE` and `MIE_MTIE` are set. -/
  enabled : κ → Bool
  /-- `sys_timer.ticks` -/
  ticks : UInt64
  /-- What the clock showed when a hart called `timer_init`, and how often it has been
  interrupted since. -/
  started : κ → Nat
  fired : κ → Nat

inductive TimerOp (κ : Type) where
  | init (c : κ)
  /-- Code in S-mode or U-mode, while time goes on. -/
  | code (c : κ) (regs : Reg → UInt64) (csrs : Csr → UInt64) (pc : UInt64) (user : Bool)
      (mem : Memory)
  | timer (c : κ)
  /-- `timer_interrupt_handler` clears `SSIP` and updates the ticks. -/
  | soft (c : κ)

namespace TimerSystem

variable {κ : Type} [DecidableEq κ]

def setHart (st : TimerSystem κ) (c : κ) (h : Hart) : TimerSystem κ :=
  { st with hart := Function.update st.hart c h }

def now (st : TimerSystem κ) : Nat := (st.mem.load64 clintMtime).toNat

def step (layout : TimerLayout κ) (st : TimerSystem κ) : TimerOp κ → Option (TimerSystem κ)
  | .init c => some { st.setHart c
      ((st.hart c).setCsr .mscratch (UInt64.ofNat (layout.scratch c))) with
        mem := timerInit layout c st.mem
        enabled := Function.update st.enabled c true
        started := Function.update st.started c st.now }
  | .code c regs csrs pc user mem =>
      some { st.setHart c ⟨regs, csrs, pc, user⟩ with mem := mem }
  | .timer c =>
      if st.enabled c ∧ (st.mem.load64 (layout.mtimecmp c)).toNat ≤ st.now then
        (timerInterrupt (st.hart c) st.mem).map fun s =>
          { st.setHart c s.1 with
            mem := s.2
            fired := Function.update st.fired c (st.fired c + 1) }
      else none
  | .soft c =>
      if (st.hart c).csrs .sip &&& sipSsip ≠ 0 then
        some { st.setHart c ((st.hart c).setCsr .sip ((st.hart c).csrs .sip &&& ~~~sipSsip)) with
          ticks := if layout.hartid c = 0 then st.ticks + 1 else st.ticks }
      else none

/-- Other code leaves alone what is M-mode's, and has nothing to do with `SSIP`.  The clock
runs forward and is far from its end.  Each hart calls `timer_init` once. -/
def Allowed (layout : TimerLayout κ) (st : TimerSystem κ) : TimerOp κ → Prop
  | .init c => st.enabled c = false
  | .code c _ csrs _ _ mem => csrs .mscratch = (st.hart c).csrs .mscratch ∧
      csrs .sip &&& sipSsip = (st.hart c).csrs .sip &&& sipSsip ∧
      st.now ≤ (mem.load64 clintMtime).toNat ∧
      (mem.load64 clintMtime).toNat + 2 * timerInterval.toNat < 2 ^ 64 ∧
      ∀ d, mem.load64 (layout.mtimecmp d) = st.mem.load64 (layout.mtimecmp d) ∧
        mem.load64 (layout.scratch d + 24) = st.mem.load64 (layout.scratch d + 24) ∧
        mem.load64 (layout.scratch d + 32) = st.mem.load64 (layout.scratch d + 32)
  | .timer _ => True
  | .soft _ => True

end TimerSystem

/-! `timer_vector` -/

theorem fits_timerSlots : Fits timerSlots 40 := ⟨by decide, by decide, by decide⟩

theorem fits_timerSlots_reverse : Fits timerSlots.reverse 40 :=
  ⟨by decide, by decide, by decide⟩

section

variable {m : Machine Reg Csr} {h : Hart} {mem : Memory} {addr cmp : UInt64}
  {csrs : Csr → UInt64}

theorem bare_spans (hroom : addr.toNat + 40 ≤ 2 ^ 64) :
    Spans bare csrs mem addr addr.toNat 40 := by
  intro _ _ _ offset _ hoffset
  unfold bare
  rw [UInt64.toNat_add, Nat.mod_eq_of_lt (by omega)]

theorem timerSlots_regs {r : Reg} :
    r ∉ timerSlots.map Prod.fst → r ≠ .a1 ∧ r ≠ .a2 ∧ r ≠ .a3 := by
  cases r <;> decide

theorem exec_timerEnter (haddr : m.csrs .mscratch = addr) (hroom : addr.toNat + 40 ≤ 2 ^ 64) :
    exec bare timerEnter m = some ⟨Function.update m.regs .a0 addr,
      Function.update m.csrs .mscratch (m.regs .a0),
      saved addr.toNat (Function.update m.regs .a0 addr) timerSlots m.mem⟩ := by
  refine run_cons.mpr ⟨⟨Function.update m.regs .a0 addr,
    Function.update m.csrs .mscratch (m.regs .a0), m.mem⟩, ?_, ?_⟩
  · rw [← haddr]
    rfl
  · exact exec_saves (m := ⟨Function.update m.regs .a0 addr,
      Function.update m.csrs .mscratch (m.regs .a0), m.mem⟩) (bare_spans hroom)
      fits_timerSlots

theorem exec_timerWork (haddr : m.regs .a0 = addr) (hroom : addr.toNat + 40 ≤ 2 ^ 64)
    (hcmp : m.mem.load64 (addr.toNat + 24) = cmp)
    (hinterval : m.mem.load64 (addr.toNat + 32) = timerInterval) :
    ∃ regs, exec bare timerWork m = some ⟨regs, Function.update m.csrs .sip sipSsip,
        m.mem.store64 cmp.toNat (m.mem.load64 cmp.toNat + timerInterval)⟩ ∧
      ∀ r, r ∉ timerSlots.map Prod.fst → regs r = m.regs r := by
  have hld : ∀ regs : Reg → UInt64, regs .a0 = addr → ∀ rd (k : UInt64) v, k.toNat % 8 = 0 →
      k.toNat + 8 ≤ 40 → m.mem.load64 (addr.toNat + k.toNat) = v →
      (Instr.ld rd k .a0).exec bare ⟨regs, m.csrs, m.mem⟩ =
        some ⟨Function.update regs rd v, m.csrs, m.mem⟩ := by
    intro regs hbase rd k v haligned hinside hv
    have hspans : Spans bare m.csrs m.mem (regs .a0) addr.toNat 40 := by
      rw [hbase]
      exact bare_spans hroom
    refine (exec_ld (m := ⟨regs, m.csrs, m.mem⟩) rd k .a0 hspans haligned hinside).trans ?_
    rw [hv]
    rfl
  let regs := Function.update (Function.update m.regs .a1 cmp) .a2 timerInterval
  have hzero : (cmp + 0).toNat = cmp.toNat := congrArg UInt64.toNat (UInt64.add_zero _)
  refine ⟨Function.update (Function.update (Function.update regs .a3
    (m.mem.load64 (cmp + 0).toNat)) .a3 (m.mem.load64 (cmp + 0).toNat + timerInterval)) .a1 2,
    run_cons.mpr ⟨_, hld m.regs haddr .a1 24 cmp (by decide) (by decide) hcmp,
      run_cons.mpr ⟨⟨regs, m.csrs, m.mem⟩, ?_, ?_⟩⟩, fun r hr => ?_⟩
  · exact hld _ ((Function.update_of_ne (by decide) _ _).trans haddr) .a2 32 timerInterval
      (by decide) (by decide) hinterval
  · rw [← hzero]
    rfl
  · obtain ⟨ha1, ha2, ha3⟩ := timerSlots_regs hr
    rw [Function.update_of_ne ha1, Function.update_of_ne ha3, Function.update_of_ne ha3]
    exact (Function.update_of_ne ha2 _ _).trans (Function.update_of_ne ha1 _ _)

theorem exec_timerLeave {regs : Reg → UInt64} (haddr : m.regs .a0 = addr)
    (hroom : addr.toNat + 40 ≤ 2 ^ 64)
    (hslots : ∀ slot ∈ timerSlots, m.mem.load64 (addr.toNat + slot.2.toNat) = regs slot.1)
    (hothers : ∀ r, r ∉ timerSlots.map Prod.fst → r ≠ .a0 → m.regs r = regs r)
    (hscratch : m.csrs .mscratch = regs .a0) :
    exec bare timerLeave m = some ⟨regs, Function.update m.csrs .mscratch addr, m.mem⟩ := by
  have hnot : Reg.a0 ∉ timerSlots.reverse.map Prod.fst := by decide
  have hloads : exec bare (loads .a0 timerSlots.reverse) m =
      some ⟨loaded addr.toNat m.mem timerSlots.reverse m.regs, m.csrs, m.mem⟩ := by
    refine exec_loads ?_ fits_timerSlots_reverse fun offset hoffset => ?_
    · rw [haddr]
      exact bare_spans hroom
    · exact absurd (List.mem_map_of_mem hoffset) hnot
  have hbase : loaded addr.toNat m.mem timerSlots.reverse m.regs .a0 = addr :=
    (loaded_of_not_mem hnot).trans haddr
  have hregs : Function.update (loaded addr.toNat m.mem timerSlots.reverse m.regs) .a0
      (m.csrs .mscratch) = regs := by
    funext r
    by_cases hr : r = .a0
    · rw [hr, Function.update_self, hscratch]
    · rw [Function.update_of_ne hr]
      by_cases hslot : r ∈ timerSlots.map Prod.fst
      · obtain ⟨slot, hmem, rfl⟩ := List.mem_map.mp hslot
        rw [loaded_of_mem fits_timerSlots_reverse (List.mem_reverse.mpr hmem)]
        exact hslots slot hmem
      · rw [loaded_of_not_mem (by rwa [List.map_reverse, List.mem_reverse])]
        exact hothers r hslot hr
  refine run_append.mpr ⟨_, hloads, ?_⟩
  rw [← hregs, ← hbase]
  rfl

/-- All registers come back, and the next interrupt is due an interval after this one. -/
theorem exec_timerVector (haddr : m.csrs .mscratch = addr) (hroom : addr.toNat + 40 ≤ 2 ^ 64)
    (hcmp : m.mem.load64 (addr.toNat + 24) = cmp)
    (hinterval : m.mem.load64 (addr.toNat + 32) = timerInterval)
    (hapart : cmp.toNat + 8 ≤ addr.toNat) :
    ∃ mem, exec bare timerVector m =
        some ⟨m.regs, Function.update m.csrs .sip sipSsip, mem⟩ ∧
      mem.load64 cmp.toNat = m.mem.load64 cmp.toNat + timerInterval ∧
      ∀ x, (x < addr.toNat ∨ addr.toNat + 24 ≤ x) → (x < cmp.toNat ∨ cmp.toNat + 8 ≤ x) →
        mem x = m.mem x := by
  let regs := Function.update m.regs .a0 addr
  let mem := saved addr.toNat regs timerSlots m.mem
  have happart : ∀ k, 24 ≤ k → mem.load64 (addr.toNat + k) = m.mem.load64 (addr.toNat + k) := by
    intro k hk
    refine load64_saved_of_apart fun slot hslot => .inr ?_
    have hinside : ∀ slot ∈ timerSlots, slot.2.toNat + 8 ≤ 24 := by decide
    have := hinside slot hslot
    omega
  have hold : mem.load64 cmp.toNat = m.mem.load64 cmp.toNat :=
    load64_saved_of_apart fun slot _ => .inl (by omega)
  obtain ⟨regs₂, hwork, hkept⟩ := exec_timerWork
    (m := ⟨regs, Function.update m.csrs .mscratch (m.regs .a0), mem⟩)
    (show regs .a0 = addr from Function.update_self _ _ _) hroom
    ((happart 24 (by decide)).trans hcmp)
    ((happart 32 (by decide)).trans hinterval)
  dsimp only at hwork hkept
  rw [hold] at hwork
  let mem₂ := mem.store64 cmp.toNat (m.mem.load64 cmp.toNat + timerInterval)
  have hscratch : Function.update (Function.update m.csrs .mscratch (m.regs .a0)) .sip sipSsip
      .mscratch = m.regs .a0 :=
    (Function.update_of_ne (by decide) _ _).trans (Function.update_self _ _ _)
  have hleave := exec_timerLeave
    (m := ⟨regs₂, Function.update (Function.update m.csrs .mscratch (m.regs .a0)) .sip sipSsip,
      mem₂⟩) ((hkept .a0 (by decide)).trans (Function.update_self _ _ _)) hroom
    (fun slot hslot => ?_) (fun r hr hne => (hkept r hr).trans (Function.update_of_ne hne _ _))
    hscratch
  · have hcsrs : Function.update (Function.update (Function.update m.csrs .mscratch
        (m.regs .a0)) .sip sipSsip) .mscratch addr = Function.update m.csrs .sip sipSsip := by
      rw [Function.update_comm (by decide), Function.update_idem, ← haddr,
        Function.update_eq_self]
    dsimp only at hleave
    rw [hcsrs] at hleave
    refine ⟨mem₂, run_append.mpr ⟨_, exec_timerEnter haddr hroom,
      run_append.mpr ⟨_, hwork, hleave⟩⟩, Memory.load64_store64_self _ _ _, fun x hx hx' => ?_⟩
    refine (Memory.write_of_not_mem hx').trans ?_
    exact saved_outside ⟨by decide, by decide, by decide⟩ hx
  · have hne : slot.1 ≠ .a0 := by
      revert slot
      decide
    refine (load64_store64_apart _ _ (.inr (by omega))).trans ?_
    exact (load64_saved fits_timerSlots hslot).trans (Function.update_of_ne hne _ _)

end

/-! The clock of a hart over a run. -/

namespace TimerSystem

variable {κ : Type} {layout : TimerLayout κ} {st st' : TimerSystem κ} {c d : κ}

/-- Interrupts are due every interval, and none has come too early. -/
structure Clock (layout : TimerLayout κ) (st : TimerSystem κ) (c : κ) : Prop where
  due : st.mem.load64 (layout.mtimecmp c) =
    UInt64.ofNat (st.started c + (st.fired c + 1) * timerInterval.toNat)
  past : st.started c + st.fired c * timerInterval.toNat ≤ st.now
  mscratch : (st.hart c).csrs .mscratch = UInt64.ofNat (layout.scratch c)
  cmp : st.mem.load64 (layout.scratch c + 24) = UInt64.ofNat (layout.mtimecmp c)
  interval : st.mem.load64 (layout.scratch c + 32) = timerInterval

/-- Only hart 0 counts, and its ticks are interrupts that it has had. -/
structure Ticking (layout : TimerLayout κ) (st : TimerSystem κ) : Prop where
  clock : ∀ c, st.enabled c = true → Clock layout st c
  idle : ∀ c, st.enabled c = false → st.fired c = 0
  ticks : ∀ c, layout.hartid c = 0 → st.ticks.toNat +
    (if (st.hart c).csrs .sip &&& sipSsip ≠ 0 then 1 else 0) ≤ st.fired c
  far : st.now + 2 * timerInterval.toNat < 2 ^ 64

theorem Clock.congr (h : Clock layout st c) (hstarted : st'.started c = st.started c)
    (hfired : st'.fired c = st.fired c)
    (hmscratch : (st'.hart c).csrs .mscratch = (st.hart c).csrs .mscratch)
    (hnow : st.now ≤ st'.now)
    (hdue : st'.mem.load64 (layout.mtimecmp c) = st.mem.load64 (layout.mtimecmp c))
    (hcmp : st'.mem.load64 (layout.scratch c + 24) = st.mem.load64 (layout.scratch c + 24))
    (hinterval : st'.mem.load64 (layout.scratch c + 32) =
      st.mem.load64 (layout.scratch c + 32)) : Clock layout st' c := by
  refine ⟨?_, ?_, hmscratch.trans h.mscratch, hcmp.trans h.cmp, hinterval.trans h.interval⟩
  · rw [hdue, hstarted, hfired]
    exact h.due
  · rw [hstarted, hfired]
    exact h.past.trans hnow

theorem mtimecmp_lt (layout : TimerLayout κ) (c : κ) :
    layout.mtimecmp c + 8 ≤ clintMtime := by
  have hfew := layout.few c
  unfold TimerLayout.mtimecmp
  have hbase : clintMtimecmp + 8 * 4095 = clintMtime := rfl
  omega

theorem mtimecmp_apart (layout : TimerLayout κ) (h : d ≠ c) :
    layout.mtimecmp d + 8 ≤ layout.mtimecmp c ∨ layout.mtimecmp c + 8 ≤ layout.mtimecmp d := by
  have hne : layout.hartid d ≠ layout.hartid c := fun heq => h (layout.distinct d c heq)
  unfold TimerLayout.mtimecmp
  omega

theorem Clock.elsewhere (h : Clock layout st d) (hd : d ≠ c)
    (hmem : ∀ x, (x < layout.scratch c ∨ layout.scratch c + 40 ≤ x) →
      (x < layout.mtimecmp c ∨ layout.mtimecmp c + 8 ≤ x) → st'.mem x = st.mem x)
    (hstarted : st'.started d = st.started d) (hfired : st'.fired d = st.fired d)
    (hhart : (st'.hart d).csrs .mscratch = (st.hart d).csrs .mscratch) :
    Clock layout st' d := by
  have hram := layout.inRam c
  have hram' := layout.inRam d
  have hlow := mtimecmp_lt layout c
  have hlow' := mtimecmp_lt layout d
  have happart := layout.apart d c hd
  have happart' := mtimecmp_apart layout hd
  have hnow : st'.now = st.now := by
    unfold now
    rw [Memory.load64_congr fun i hi => hmem _ (.inl (by omega)) (.inr (by omega))]
  refine h.congr hstarted hfired hhart hnow.ge ?_ ?_ ?_
  · exact Memory.load64_congr fun i hi => hmem _ (.inl (by omega)) (by omega)
  · exact Memory.load64_congr fun i hi => hmem _ (by omega) (.inr (by omega))
  · exact Memory.load64_congr fun i hi => hmem _ (by omega) (.inr (by omega))

theorem Clock.timer [DecidableEq κ] (h : Clock layout st c) (henabled : st.enabled c = true)
    (hfar : st.now + 2 * timerInterval.toNat < 2 ^ 64)
    (hdue : st.started c + (st.fired c + 1) * timerInterval.toNat ≤ st.now) :
    ∃ mem, st.step layout (.timer c) = some { st.setHart c
          ((st.hart c).setCsr .sip sipSsip) with
        mem := mem
        fired := Function.update st.fired c (st.fired c + 1) } ∧
      mem.load64 (layout.mtimecmp c) =
        st.mem.load64 (layout.mtimecmp c) + timerInterval ∧
      ∀ x, (x < layout.scratch c ∨ layout.scratch c + 24 ≤ x) →
        (x < layout.mtimecmp c ∨ layout.mtimecmp c + 8 ≤ x) → mem x = st.mem x := by
  have hram := layout.inRam c
  have hlow := mtimecmp_lt layout c
  have hroom := layout.room c
  have hscratch : (UInt64.ofNat (layout.scratch c)).toNat = layout.scratch c :=
    UInt64.toNat_ofNat_of_lt' (by rw [UInt64.size]; omega)
  have hcmp : (UInt64.ofNat (layout.mtimecmp c)).toNat = layout.mtimecmp c :=
    UInt64.toNat_ofNat_of_lt' (by rw [UInt64.size]; omega)
  have hspace : (UInt64.ofNat (layout.scratch c)).toNat + 40 ≤ 2 ^ 64 := by
    rw [hscratch]
    exact hroom
  have hload : st.mem.load64 ((UInt64.ofNat (layout.scratch c)).toNat + 24) =
      UInt64.ofNat (layout.mtimecmp c) := by
    rw [hscratch]
    exact h.cmp
  obtain ⟨mem, hexec, hnext, hframe⟩ := exec_timerVector
    (m := (st.hart c).machine st.mem) h.mscratch hspace hload
    (by rw [hscratch]; exact h.interval) (by rw [hscratch, hcmp]; omega)
  rw [hcmp] at hnext hframe
  rw [hscratch] at hframe
  refine ⟨mem, ?_, hnext, hframe⟩
  have hready : (st.mem.load64 (layout.mtimecmp c)).toNat ≤ st.now := by
    rw [h.due, UInt64.toNat_ofNat_of_lt' (by rw [UInt64.size]; omega)]
    exact hdue
  unfold step
  dsimp only
  rw [if_pos ⟨henabled, hready⟩]
  unfold timerInterrupt
  rw [hexec]
  rfl

variable [DecidableEq κ]

theorem Ticking.init (ht : Ticking layout st) (hoff : st.enabled c = false)
    (hstep : st.step layout (.init c) = some st') : Ticking layout st' := by
  obtain rfl := Option.some.inj hstep
  have hram := layout.inRam c
  have hlow := mtimecmp_lt layout c
  let mem := timerInit layout c st.mem
  have hmem : ∀ x, (x < layout.scratch c ∨ layout.scratch c + 40 ≤ x) →
      (x < layout.mtimecmp c ∨ layout.mtimecmp c + 8 ≤ x) → mem x = st.mem x := by
    intro x hx hx'
    have hstore : ∀ (mem : Memory) (a : Nat) (v : UInt64), x < a ∨ a + 8 ≤ x →
        mem.store64 a v x = mem x := fun mem a v h => Memory.write_of_not_mem h
    exact (hstore _ _ _ (by omega)).trans ((hstore _ _ _ (by omega)).trans
      (hstore _ _ _ (by omega)))
  have hnow : mem.load64 clintMtime = st.mem.load64 clintMtime :=
    Memory.load64_congr fun i hi => hmem _ (.inl (by omega)) (.inr (by omega))
  have hhart : ∀ d, d ≠ c → Function.update st.hart c ((st.hart c).setCsr .mscratch
      (UInt64.ofNat (layout.scratch c))) d = st.hart d := fun d hd => Function.update_of_ne hd _ _
  have hsip : ∀ d, (Function.update st.hart c ((st.hart c).setCsr .mscratch
      (UInt64.ofNat (layout.scratch c))) d).csrs .sip = (st.hart d).csrs .sip := by
    intro d
    by_cases hd : d = c
    · rw [hd, Function.update_self]
      exact Hart.setCsr_of_ne _ _ (by decide)
    · rw [hhart d hd]
  refine ⟨fun d hd => ?_, fun d hd => ?_, fun d hd => ?_, ?_⟩
  · by_cases hdc : d = c
    · subst hdc
      refine ⟨?_, ?_, ?_, ?_, ?_⟩
      · change mem.load64 (layout.mtimecmp d) =
          UInt64.ofNat (Function.update st.started d st.now d +
            (st.fired d + 1) * timerInterval.toNat)
        rw [Function.update_self, ht.idle d hoff, UInt64.ofNat_add]
        refine (load64_store64_apart _ _ (by omega)).trans
          ((load64_store64_apart _ _ (by omega)).trans ?_)
        refine (Memory.load64_store64_self _ _ _).trans ?_
        unfold now
        rw [UInt64.ofNat_toNat]
        rfl
      · change Function.update st.started d st.now d + st.fired d * timerInterval.toNat ≤
          (mem.load64 clintMtime).toNat
        rw [Function.update_self, ht.idle d hoff, hnow, Nat.zero_mul]
        exact le_refl _
      · change (Function.update st.hart d _ d).csrs .mscratch = _
        rw [Function.update_self]
        exact Hart.setCsr_self _ _ _
      · exact (load64_store64_apart _ _ (by omega)).trans (Memory.load64_store64_self _ _ _)
      · exact Memory.load64_store64_self _ _ _
    · have henabled : st.enabled d = true := (Function.update_of_ne hdc _ _).symm.trans hd
      refine (ht.clock d henabled).elsewhere hdc hmem (Function.update_of_ne hdc _ _) rfl ?_
      exact congrArg (fun h : Hart => h.csrs .mscratch) (hhart d hdc)
  · have hdc : d ≠ c := by
      rintro rfl
      have htrue : Function.update st.enabled d true d = true := Function.update_self _ _ _
      exact Bool.false_ne_true (hd.symm.trans htrue)
    exact ht.idle d ((Function.update_of_ne hdc _ _).symm.trans hd)
  · refine le_of_eq_of_le ?_ (ht.ticks d hd)
    exact congrArg (fun v : UInt64 => st.ticks.toNat + if v &&& sipSsip ≠ 0 then 1 else 0) (hsip d)
  · change (mem.load64 clintMtime).toNat + _ < _
    rw [hnow]
    exact ht.far

theorem Ticking.code (ht : Ticking layout st) {regs : Reg → UInt64} {csrs : Csr → UInt64}
    {pc : UInt64} {user : Bool} {mem : Memory}
    (hallowed : st.Allowed layout (.code c regs csrs pc user mem))
    (hstep : st.step layout (.code c regs csrs pc user mem) = some st') :
    Ticking layout st' := by
  obtain rfl := Option.some.inj hstep
  obtain ⟨hmscratch, hsip, hnow, hfar, hwords⟩ := hallowed
  have hself : Function.update st.hart c ⟨regs, csrs, pc, user⟩ c = ⟨regs, csrs, pc, user⟩ :=
    Function.update_self _ _ _
  refine ⟨fun d hd => ?_, ht.idle, fun d hd => ?_, hfar⟩
  · obtain ⟨hdue, hcmp, hinterval⟩ := hwords d
    refine (ht.clock d hd).congr rfl rfl ?_ hnow hdue hcmp hinterval
    change (Function.update st.hart c ⟨regs, csrs, pc, user⟩ d).csrs .mscratch = _
    by_cases hdc : d = c
    · rw [hdc, hself]
      exact hmscratch
    · rw [Function.update_of_ne hdc]
  · refine le_of_eq_of_le ?_ (ht.ticks d hd)
    change st.ticks.toNat + (if (Function.update st.hart c ⟨regs, csrs, pc, user⟩ d).csrs .sip &&&
      sipSsip ≠ 0 then 1 else 0) = _
    by_cases hdc : d = c
    · rw [hdc, hself, hsip]
    · rw [Function.update_of_ne hdc]

theorem Ticking.timer (ht : Ticking layout st)
    (hstep : st.step layout (.timer c) = some st') : Ticking layout st' := by
  obtain ⟨⟨henabled, hready⟩, _⟩ := Option.ite_none_right_eq_some.mp hstep
  have hclock := ht.clock c henabled
  have hfar := ht.far
  have hpast := hclock.past
  have hsucc : (st.fired c + 1) * timerInterval.toNat =
      st.fired c * timerInterval.toNat + timerInterval.toNat := Nat.succ_mul _ _
  have hdue : st.started c + (st.fired c + 1) * timerInterval.toNat ≤ st.now := by
    rw [hclock.due, UInt64.toNat_ofNat_of_lt' (by rw [UInt64.size]; omega)] at hready
    exact hready
  obtain ⟨mem, hstep', hnext, hmem⟩ := hclock.timer henabled ht.far hdue
  obtain rfl := Option.some.inj (hstep.symm.trans hstep')
  have hram := layout.inRam c
  have hlow := mtimecmp_lt layout c
  have hnow : mem.load64 clintMtime = st.mem.load64 clintMtime :=
    Memory.load64_congr fun i hi => hmem _ (.inl (by omega)) (.inr (by omega))
  have hself : Function.update st.hart c ((st.hart c).setCsr .sip sipSsip) c =
      (st.hart c).setCsr .sip sipSsip := Function.update_self _ _ _
  have hfired : Function.update st.fired c (st.fired c + 1) c = st.fired c + 1 :=
    Function.update_self _ _ _
  refine ⟨fun d hd => ?_, fun d hd => ?_, fun d hd => ?_, ?_⟩
  · by_cases hdc : d = c
    · subst hdc
      refine ⟨?_, ?_, ?_, ?_, ?_⟩
      · change mem.load64 _ = UInt64.ofNat (st.started d +
          (Function.update st.fired d (st.fired d + 1) d + 1) * timerInterval.toNat)
        rw [hfired, hnext, hclock.due, Nat.add_mul (st.fired d + 1), Nat.one_mul, ← Nat.add_assoc,
          UInt64.ofNat_add (_ + _)]
        rfl
      · change st.started d + Function.update st.fired d (st.fired d + 1) d * timerInterval.toNat ≤
          (mem.load64 clintMtime).toNat
        rw [hfired, hnow]
        exact hdue
      · change (Function.update st.hart d _ d).csrs .mscratch = _
        rw [hself]
        exact (Hart.setCsr_of_ne _ _ (by decide)).trans hclock.mscratch
      · exact (Memory.load64_congr fun i hi => hmem _ (by omega) (.inr (by omega))).trans
          hclock.cmp
      · exact (Memory.load64_congr fun i hi => hmem _ (by omega) (.inr (by omega))).trans
          hclock.interval
    · refine (ht.clock d hd).elsewhere hdc (fun x hx hx' => hmem x (by omega) hx') rfl
        (Function.update_of_ne hdc _ _) ?_
      exact congrArg (fun h : Hart => h.csrs .mscratch) (Function.update_of_ne hdc _ _)
  · have hdc : d ≠ c := by
      rintro rfl
      exact Bool.false_ne_true (hd.symm.trans henabled)
    exact (Function.update_of_ne hdc _ _).trans (ht.idle d hd)
  · have hticks := ht.ticks d hd
    change st.ticks.toNat + (if (Function.update st.hart c ((st.hart c).setCsr .sip sipSsip)
      d).csrs .sip &&& sipSsip ≠ 0 then 1 else 0) ≤ Function.update st.fired c (st.fired c + 1) d
    by_cases hdc : d = c
    · subst hdc
      rw [hself, hfired]
      split <;> omega
    · rw [Function.update_of_ne hdc, Function.update_of_ne hdc]
      exact hticks
  · change (mem.load64 clintMtime).toNat + _ < _
    rw [hnow]
    exact ht.far

theorem Ticking.soft (ht : Ticking layout st)
    (hstep : st.step layout (.soft c) = some st') : Ticking layout st' := by
  obtain ⟨hpending, hstep⟩ := Option.ite_none_right_eq_some.mp hstep
  obtain rfl := Option.some.inj hstep
  let h := (st.hart c).setCsr .sip ((st.hart c).csrs .sip &&& ~~~sipSsip)
  have hself : Function.update st.hart c h c = h := Function.update_self _ _ _
  refine ⟨fun d hd => ?_, ht.idle, fun d hd => ?_, ht.far⟩
  · refine (ht.clock d hd).congr rfl rfl ?_ (le_refl _) rfl rfl rfl
    change (Function.update st.hart c h d).csrs .mscratch = _
    by_cases hdc : d = c
    · rw [hdc, hself]
      exact Hart.setCsr_of_ne _ _ (by decide)
    · rw [Function.update_of_ne hdc]
  · have hticks := ht.ticks d hd
    change (if layout.hartid c = 0 then st.ticks + 1 else st.ticks).toNat +
      (if (Function.update st.hart c h d).csrs .sip &&& sipSsip ≠ 0 then 1 else 0) ≤ st.fired d
    by_cases hdc : d = c
    · subst hdc
      have hcleared : h.csrs .sip &&& sipSsip = 0 := by
        rw [Hart.setCsr_self]
        exact and_not_and_self _ _
      rw [if_pos hpending] at hticks
      rw [if_pos hd, hself, if_neg (not_not.mpr hcleared), UInt64.toNat_add]
      have hone : (1 : UInt64).toNat = 1 := rfl
      omega
    · have hc : layout.hartid c ≠ 0 := fun heq => hdc (layout.distinct d c (hd.trans heq.symm))
      rw [if_neg hc, Function.update_of_ne hdc]
      exact hticks

theorem Ticking.step {op : TimerOp κ} (ht : Ticking layout st)
    (hallowed : st.Allowed layout op) (hstep : st.step layout op = some st') :
    Ticking layout st' := by
  cases op with
  | init c => exact ht.init hallowed hstep
  | code c regs csrs pc user mem => exact ht.code hallowed hstep
  | timer c => exact ht.timer hstep
  | soft c => exact ht.soft hstep

/-- No hart has started its clock. -/
structure Booted (boot : TimerSystem κ) : Prop where
  off : ∀ c, boot.enabled c = false
  ticks : boot.ticks = 0
  quiet : ∀ c, (boot.hart c).csrs .sip &&& sipSsip = 0 ∧ boot.fired c = 0
  far : boot.now + 2 * timerInterval.toNat < 2 ^ 64

/-- However late the kernel is, the interrupts of a hart are due at fixed times, an interval
apart; code that is interrupted has its registers back and goes on where it was, and
all it may notice is that a software interrupt is pending; and `sys_timer.ticks` never runs
ahead of the clock. -/
theorem clock_never_drifts {boot : TimerSystem κ} {ops : List (TimerOp κ)} (hboot : Booted boot)
    (hallowed : Along (fun st op => st.step layout op) (Allowed layout) boot ops)
    (hrun : Lib.run (fun st op => TimerSystem.step layout st op) boot ops = some st) (c : κ)
    (henabled : st.enabled c = true) :
    (st.mem.load64 (layout.mtimecmp c)).toNat =
        st.started c + (st.fired c + 1) * timerInterval.toNat ∧
      st.started c + st.fired c * timerInterval.toNat ≤ st.now ∧
      (layout.hartid c = 0 → st.started c + st.ticks.toNat * timerInterval.toNat ≤ st.now) ∧
      ((st.mem.load64 (layout.mtimecmp c)).toNat ≤ st.now →
        ∃ st', st.step layout (.timer c) = some st' ∧
          (st'.hart c).regs = (st.hart c).regs ∧ (st'.hart c).pc = (st.hart c).pc ∧
          (st'.hart c).user = (st.hart c).user ∧
          (∀ k, k ≠ .sip → (st'.hart c).csrs k = (st.hart c).csrs k) ∧
          (st'.hart c).csrs .sip &&& sipSsip ≠ 0 ∧
          ∀ x, (x < layout.scratch c ∨ layout.scratch c + 24 ≤ x) →
            (x < layout.mtimecmp c ∨ layout.mtimecmp c + 8 ≤ x) → st'.mem x = st.mem x) := by
  have hstart : Ticking layout boot := by
    refine ⟨fun d hd => ?_, fun d _ => (hboot.quiet d).2, fun d _ => ?_, hboot.far⟩
    · rw [hboot.off d] at hd
      cases hd
    · rw [hboot.ticks, if_neg (not_not.mpr (hboot.quiet d).1)]
      exact Nat.zero_le _
  have ht : Ticking layout st :=
    run_invariant (fun _ _ _ ht hop hstep => Ticking.step ht hop hstep) hstart hallowed hrun
  have hclock := ht.clock c henabled
  have hpast := hclock.past
  have hfar := ht.far
  have hsucc : (st.fired c + 1) * timerInterval.toNat =
      st.fired c * timerInterval.toNat + timerInterval.toNat := Nat.succ_mul _ _
  have hdue : (st.mem.load64 (layout.mtimecmp c)).toNat =
      st.started c + (st.fired c + 1) * timerInterval.toNat := by
    rw [hclock.due]
    exact UInt64.toNat_ofNat_of_lt' (by rw [UInt64.size]; omega)
  refine ⟨hdue, hpast, fun hzero => ?_, fun hready => ?_⟩
  · have hticks := ht.ticks c hzero
    have hle : st.ticks.toNat * timerInterval.toNat ≤ st.fired c * timerInterval.toNat :=
      Nat.mul_le_mul_right _ (by omega)
    omega
  · obtain ⟨mem, hstep, _, hmem⟩ := hclock.timer henabled hfar (hdue ▸ hready)
    have hself : Function.update st.hart c ((st.hart c).setCsr .sip sipSsip) c =
        (st.hart c).setCsr .sip sipSsip := Function.update_self _ _ _
    refine ⟨_, hstep, ?_⟩
    dsimp only [setHart]
    rw [hself, Hart.setCsr_self]
    exact ⟨rfl, rfl, rfl, fun k hk => Hart.setCsr_of_ne _ _ hk, by decide, hmem⟩

/-! Two harts; the first one starts its clock. -/

def pairLayout : TimerLayout Bool where
  hartid c := c.toNat
  scratch c := 0x80010000 + 40 * c.toNat
  distinct := by decide
  few := by decide
  inRam := by decide
  room := by decide
  apart := by decide

def pairBoot : TimerSystem Bool where
  hart _ := ⟨fun _ => 7, fun _ => 0, 0x80003000, false⟩
  mem _ := 0
  enabled _ := false
  ticks := 0
  started _ := 0
  fired _ := 0

def lateMemory : Memory :=
  (timerInit pairLayout false fun _ => 0).store64 clintMtime 2000000

theorem clock_never_drifts_late : ∃ st st' : TimerSystem Bool,
    Lib.run (fun st op => TimerSystem.step pairLayout st op) pairBoot [.init false, .code false
        (fun _ => 7) (Function.update (fun _ => 0) .mscratch 0x80010000) 0x80003004 false
        lateMemory] = some st ∧
      st.step pairLayout (.timer false) = some st' ∧ (st'.hart false).regs .a0 = 7 ∧
      (st'.hart false).pc = 0x80003004 ∧ (st'.hart false).csrs .sip &&& sipSsip ≠ 0 := by
  have hzero : ∀ a, Memory.load64 (fun _ => 0) a = 0 := fun a =>
    Memory.load64_of_zero fun _ _ => rfl
  have hlate : lateMemory.load64 clintMtime = 2000000 := Memory.load64_store64_self _ _ _
  have hstart : (timerInit pairLayout false fun _ => 0).load64 clintMtime = 0 :=
    (load64_store64_apart _ _ (by decide)).trans ((load64_store64_apart _ _ (by decide)).trans
      ((load64_store64_apart _ _ (by decide)).trans (hzero _)))
  have hwords : ∀ a, a + 8 ≤ clintMtime ∨ clintMtime + 8 ≤ a →
      lateMemory.load64 a = (timerInit pairLayout false fun _ => 0).load64 a :=
    fun a ha => load64_store64_apart _ _ ha
  have hboot : Booted pairBoot := by
    refine ⟨fun _ => rfl, rfl, fun _ => ⟨UInt64.zero_and, rfl⟩, ?_⟩
    unfold now
    rw [show pairBoot.mem = fun _ => 0 from rfl, hzero]
    decide
  have hallowed : Along (fun st op => TimerSystem.step pairLayout st op) (Allowed pairLayout)
      pairBoot [.init false, .code false (fun _ => 7)
        (Function.update (fun _ => 0) .mscratch 0x80010000) 0x80003004 false lateMemory] := by
    refine along_cons rfl rfl ⟨⟨rfl, rfl, ?_, ?_, fun d => ⟨?_, ?_, ?_⟩⟩, fun _ _ => trivial⟩
    · change ((timerInit pairLayout false fun _ => 0).load64 clintMtime).toNat ≤ _
      rw [hstart]
      exact Nat.zero_le _
    · rw [hlate]
      decide
    · exact hwords _ (.inl (mtimecmp_lt pairLayout d))
    · have hram := pairLayout.inRam d
      exact hwords _ (.inr (by omega))
    · have hram := pairLayout.inRam d
      exact hwords _ (.inr (by omega))
  obtain ⟨hdue, _, _, htimer⟩ := clock_never_drifts hboot hallowed rfl false rfl
  have hready : (lateMemory.load64 (pairLayout.mtimecmp false)).toNat ≤
      (lateMemory.load64 clintMtime).toNat := by
    refine hdue.trans_le ?_
    rw [hlate]
    change (Memory.load64 (fun _ => 0) clintMtime).toNat + 1 * timerInterval.toNat ≤ _
    rw [hzero]
    decide
  obtain ⟨st', hstep, hregs, hpc, _, _, hsip, _⟩ := htimer hready
  refine ⟨_, st', rfl, hstep, ?_, hpc, hsip⟩
  rw [hregs]
  rfl

end TimerSystem

end UnoOS.Trap
