import UnoOS.Mem.Remap
import UnoOS.Trap.UserRuns

namespace UnoOS.Trap

open UnoOS.Lib
open UnoOS.Lib.Straight
open UnoOS.Mem

/-! What user code sees of traps: every process has registers of its own. -/

variable {κ π : Type}

/-- The processes by themselves, with registers that only their own instructions and
system calls change. -/
structure Users (κ π : Type) where
  on : κ → Option π
  view : π → UserView

namespace Users

def setView [DecidableEq π] (u : Users κ π) (p : π) (v : UserView) : Users κ π :=
  { u with view := Function.update u.view p v }

def onHart [DecidableEq π] (u : Users κ π) (c : κ) (f : UserView → UserView) : Users κ π :=
  match u.on c with
  | some p => u.setView p (f (u.view p))
  | none => u

/-- A program that starts: its registers are zero, but for the stack. -/
def starting (entry sp : UInt64) : UserView :=
  ⟨Function.update (fun _ => 0) .sp sp, entry⟩

/-- The child goes on like the process on a hart, but for `a0`. -/
def fork [DecidableEq π] (u : Users κ π) (c : κ) (child : π) : Users κ π :=
  match u.on c with
  | some p => u.setView child { u.view p with regs := Function.update (u.view p).regs .a0 0 }
  | none => u

def execute [DecidableEq π] (u : Users κ π) (c : κ) (entry sp : UInt64) : Users κ π :=
  u.onHart c fun v => ⟨Function.update (Function.update v.regs .a1 sp) .sp sp, entry⟩

def step [DecidableEq κ] [DecidableEq π] (u : Users κ π) : TrapOp κ π → Users κ π
  | .compute c view _ => u.onHart c fun _ => view
  | .switch c p => { u with on := Function.update u.on c p }
  | .advance c => u.onHart c fun v => { v with pc := v.pc + 4 }
  | .result c ret => u.onHart c fun v => { v with regs := Function.update v.regs .a0 ret }
  | .first p _ _ => u.setView p (starting userVmemStart userStackBottom)
  | .fork c child _ _ => u.fork c child
  | .exec c _ entry sp _ => u.execute c entry sp
  | .trap .. | .kernel .. | .free _ | .userReturn _ => u

variable [DecidableEq π] {u : Users κ π} {c : κ} {p : π}

theorem setView_self (u : Users κ π) (p : π) : u.setView p (u.view p) = u := by
  unfold setView
  rw [Function.update_eq_self]

theorem onHart_of (hon : u.on c = some p) (f : UserView → UserView) :
    u.onHart c f = u.setView p (f (u.view p)) := by
  unfold onHart
  rw [hon]

theorem fork_of (hon : u.on c = some p) (child : π) :
    u.fork c child = u.setView child
      { u.view p with regs := Function.update (u.view p).regs .a0 0 } := by
  unfold fork
  rw [hon]

end Users

/-! What the calls write to a frame. -/

theorem slots_apart : ∀ slot ∈ frameSlots, ∀ slot' ∈ frameSlots, slot ≠ slot' →
    slot.2.toNat + 8 ≤ slot'.2.toNat ∨ slot'.2.toNat + 8 ≤ slot.2.toNat := by
  decide

theorem slots_injective : ∀ slot ∈ frameSlots, ∀ slot' ∈ frameSlots, slot.1 = slot'.1 →
    slot = slot' := by
  decide

variable {mem mem' : Memory} {v : UserView} {tf : UInt64}

theorem Holds.setPc (hholds : Holds mem tf v) (pc : UInt64) :
    Holds (mem.store64 (tf.toNat + tfEpc.toNat) pc) tf { v with pc := pc } := by
  refine ⟨fun slot hslot => ?_, Memory.load64_store64_self _ _ _⟩
  have hge := frameSlots_ge slot hslot
  have hepc : tfEpc.toNat = 24 := rfl
  rw [load64_store64_apart _ _ (by omega)]
  exact hholds.regs slot hslot

theorem Holds.advance (hholds : Holds mem tf v) :
    Holds (mem.store64 (tf.toNat + tfEpc.toNat) (mem.load64 (tf.toNat + tfEpc.toNat) + 4)) tf
      { v with pc := v.pc + 4 } := by
  rw [← hholds.pc]
  exact hholds.setPc _

theorem Holds.setReg (hholds : Holds mem tf v) (r : Reg) (offset : UInt64)
    (hr : (r, offset) ∈ frameSlots) (value : UInt64) :
    Holds (mem.store64 (tf.toNat + offset.toNat) value) tf
      { v with regs := Function.update v.regs r value } := by
  have hge : 40 ≤ offset.toNat := frameSlots_ge _ hr
  have hepc : tfEpc.toNat = 24 := rfl
  refine ⟨fun slot hslot => ?_, ?_⟩
  · change _ = Function.update v.regs r value slot.1
    by_cases heq : slot = (r, offset)
    · rw [heq, Function.update_self]
      exact Memory.load64_store64_self _ _ _
    · have hapart : slot.2.toNat + 8 ≤ offset.toNat ∨ offset.toNat + 8 ≤ slot.2.toNat :=
        slots_apart slot hslot _ hr heq
      have hreg : slot.1 ≠ r := fun hreg => heq (slots_injective slot hslot _ hr hreg)
      rw [load64_store64_apart _ _ (by omega), Function.update_of_ne hreg]
      exact hholds.regs slot hslot
  · rw [load64_store64_apart _ _ (by omega)]
    exact hholds.pc

theorem holds_of_zero (hzero : ∀ x, tf.toNat ≤ x → x < tf.toNat + 4096 → mem x = 0)
    (entry : UInt64) :
    Holds (mem.store64 (tf.toNat + tfEpc.toNat) entry) tf ⟨fun _ => 0, entry⟩ := by
  refine ⟨fun slot hslot => ?_, Memory.load64_store64_self _ _ _⟩
  have hge := frameSlots_ge slot hslot
  have hepc : tfEpc.toNat = 24 := rfl
  have hinside := (fits_frameSlots.inside slot hslot).2
  have hsize : tfSize = 288 := rfl
  rw [load64_store64_apart _ _ (by omega)]
  exact Memory.load64_of_zero fun k hk => hzero _ (by omega) (by omega)

theorem holds_enterAt (tf : UInt64) (entry sp : UInt64) (mem : Memory) :
    Holds (enterAt tf.toNat entry sp mem) tf (Users.starting entry sp) :=
  (holds_of_zero (fun _ hlow hhigh => Memory.write_of_mem hlow hhigh) entry).setReg .sp 48
    (by decide) sp

theorem onlyPage_enterAt (tf : UInt64) (entry sp : UInt64) (mem : Memory) :
    OnlyPage tf mem (enterAt tf.toNat entry sp mem) := by
  have hmemset : OnlyPage tf mem (mem.memset tf.toNat 0 4096) := by
    intro x hx
    unfold InPage at hx
    exact Memory.write_of_not_mem (by omega)
  exact (hmemset.trans (onlyPage_store64 _ _ _ _ (by decide))).trans
    (onlyPage_store64 _ _ 48 _ (by decide))

theorem Holds.copy {tf' : UInt64} (hholds : Holds mem tf v) (haligned : tf.toNat % 4096 = 0)
    (haligned' : tf'.toNat % 4096 = 0) (hne : tf' ≠ tf) :
    Holds (mem.memcpy tf'.toNat tf.toNat tfSize) tf' v := by
  have hsize : tfSize = 288 := rfl
  have hdiffer : tf'.toNat ≠ tf.toNat := fun heq => hne (UInt64.toNat_inj.mp heq)
  have hword : ∀ k, k + 8 ≤ tfSize → (mem.memcpy tf'.toNat tf.toNat tfSize).load64
      (tf'.toNat + k) = mem.load64 (tf.toNat + k) := by
    intro k hk
    refine Memory.load64_congr fun i hi => ?_
    unfold Memory.memcpy
    rw [if_pos (by omega)]
    split
    · rw [Nat.mod_eq_of_lt (by omega)]
      congr 1
      omega
    · congr 1
      omega
  refine ⟨fun slot hslot => ?_, (hword _ (by decide)).trans hholds.pc⟩
  rw [hword _ (fits_frameSlots.inside slot hslot).2]
  exact hholds.regs slot hslot

theorem onlyPage_memcpy (tf : UInt64) (src : Nat) (mem : Memory) :
    OnlyPage tf mem (mem.memcpy tf.toNat src tfSize) := by
  intro x hx
  have hsize : tfSize = 288 := rfl
  unfold InPage at hx
  exact if_neg (by omega)

theorem Holds.move {old : UInt64} (hholds : Holds mem old v)
    (hbytes : ∀ i, i < 4096 → mem' (tf.toNat + i) = mem (old.toNat + i)) : Holds mem' tf v := by
  have hword : ∀ k, k + 8 ≤ tfSize →
      mem'.load64 (tf.toNat + k) = mem.load64 (old.toNat + k) := by
    intro k hk
    have hsize : tfSize = 288 := rfl
    refine Memory.load64_congr fun i hi => ?_
    rw [Nat.add_assoc, Nat.add_assoc]
    exact hbytes (k + i) (by omega)
  refine ⟨fun slot hslot => ?_, (hword _ (by decide)).trans hholds.pc⟩
  rw [hword _ (fits_frameSlots.inside slot hslot).2]
  exact hholds.regs slot hslot

theorem Holds.enters (hholds : Holds mem tf v) (entry sp : UInt64) :
    Holds (((mem.store64 (tf.toNat + 120) sp).store64 (tf.toNat + tfEpc.toNat) entry).store64
      (tf.toNat + 48) sp) tf ⟨Function.update (Function.update v.regs .a1 sp) .sp sp, entry⟩ :=
  ((hholds.setReg .a1 120 (by decide) sp).setPc entry).setReg .sp 48 (by decide) sp

theorem holds_execFrame {old : UInt64} {before : Memory} (hholds : Holds before old v)
    (tf entry sp : UInt64) (mem : Memory) :
    Holds (execFrame tf.toNat old.toNat entry sp before mem) tf
      ⟨Function.update (Function.update v.regs .a1 sp) .sp sp, entry⟩ := by
  refine Holds.enters (hholds.move fun i hi => ?_) entry sp
  rw [Memory.write_of_mem (by omega) (by omega), Nat.add_sub_cancel_left]

theorem onlyPage_execFrame (tf : UInt64) (old : Nat) (entry sp : UInt64)
    (before mem : Memory) :
    OnlyPage tf mem (execFrame tf.toNat old entry sp before mem) := by
  have hcopied : OnlyPage tf mem (mem.write tf.toNat 4096 fun i => before (old + i)) := by
    intro x hx
    unfold InPage at hx
    exact Memory.write_of_not_mem (by omega)
  exact ((hcopied.trans (onlyPage_store64 _ _ 120 _ (by decide))).trans
    (onlyPage_store64 _ _ tfEpc.toNat _ (by decide))).trans
    (onlyPage_store64 _ _ 48 _ (by decide))

namespace TrapSystem

/-! What the rest of the kernel keeps. -/

structure Apart (proc : π → Option Seat) (mem : Memory) : Prop where
  installed : ∀ p s, proc p = some s → Installed mem s
  tables : ∀ p s q t, proc p = some s → proc q = some t → ¬ IsTable mem {t.pgtbl} s.tf
  distinct : ∀ p s q t, proc p = some s → proc q = some t → s.tf = t.tf → p = q

def KeepsFrames (proc : π → Option Seat) (mem mem' : Memory) : Prop :=
  ∀ p s, proc p = some s → ∀ x, s.tf.toNat ≤ x → x < s.tf.toNat + tfSize → mem' x = mem x

structure Reseats [DecidableEq π] (st : TrapSystem κ π) (p : π) (seat : Seat)
    (mem : Memory) : Prop where
  keeps : KeepsFrames (Function.update st.proc p none) st.mem mem
  apart : Apart (Function.update st.proc p (some seat)) mem

/-- User code and the kernel write to no trap frame, and to page tables only what leaves
the trap frames mapped; the kernel uses its own tables and `tp`; a process is on one hart
at a time, and none that is new or freed. -/
def Allowed [DecidableEq π] (st : TrapSystem κ π) : TrapOp κ π → Prop
  | .compute _ _ mem => KeepsFrames st.proc st.mem mem ∧ Apart st.proc mem
  | .kernel c regs csrs _ mem => regs .tp = (st.hart c).regs .tp ∧
      csrs .satp = (st.hart c).csrs .satp ∧ KeepsFrames st.proc st.mem mem ∧
      Apart st.proc mem
  | .switch c p => ∀ q, p = some q →
      (∃ s, st.proc q = some s) ∧ ∀ c', c' ≠ c → st.on c' ≠ some q
  | .first p seat mem => (∀ c, st.on c ≠ some p) ∧ st.Reseats p seat mem
  | .fork _ child seat mem => (∀ c, st.on c ≠ some child) ∧ st.proc child = none ∧
      st.Reseats child seat mem
  | .exec c seat _ _ mem => ∀ p, st.on c = some p → st.Reseats p seat mem
  | .free p => ∀ c, st.on c ≠ some p
  | .trap .. | .advance _ | .result .. | .userReturn _ => True

variable {proc : π → Option Seat} {mem mem' : Memory} {seat : Seat} {p : π}

theorem Apart.onlyPage (h : Apart proc mem) (hp : proc p = some seat)
    (honly : OnlyPage seat.tf mem mem') : Apart proc mem' := by
  have hsame : ∀ q t, proc q = some t → ∀ page, IsTable mem {t.pgtbl} page →
      SamePage page mem mem' := by
    intro q t hq page hpage
    refine honly.samePage (h.installed p seat hp).tf_aligned
      (hpage.aligned (h.installed q t hq).tables) ?_
    rintro rfl
    exact h.tables p seat q t hp hq hpage
  refine ⟨fun q t hq => (h.installed q t hq).congr (hsame q t hq), ?_, h.distinct⟩
  intro q s r t hq hr
  rw [isTable_of_samePages (hsame r t hr)]
  exact h.tables q s r t hq hr

theorem Apart.frame_outside (h : Apart proc mem) (hp : proc p = some seat) {q : π} {t : Seat}
    (hq : proc q = some t) (hne : q ≠ p) {x : Nat} (hlow : t.tf.toNat ≤ x)
    (hhigh : x < t.tf.toNat + tfSize) : ¬ InPage seat.tf x := by
  have hsize : tfSize = 288 := rfl
  have hs := (h.installed p seat hp).tf_aligned
  have ht := (h.installed q t hq).tf_aligned
  have hdiffer : t.tf.toNat ≠ seat.tf.toNat := fun heq =>
    hne (h.distinct q t p seat hq hp (UInt64.toNat_inj.mp heq))
  unfold InPage
  omega

/-! The simulation. -/

/-- Every process has the registers that it should have, on a hart or in its frame. -/
structure Reflects (link : Link) (kernelSatp : UInt64) (hartid : κ → UInt64)
    (st : TrapSystem κ π) (u : Users κ π) : Prop where
  on : u.on = st.on
  apart : Apart st.proc st.mem
  once : ∀ c c' p, st.on c = some p → st.on c' = some p → c = c'
  seated : ∀ c p, st.on c = some p → ∃ s, st.proc p = some s
  kernel : ∀ c, (st.hart c).user = false → InKernel kernelSatp (hartid c) (st.hart c)
  inUser : ∀ c, (st.hart c).user = true → ∃ p s, st.on c = some p ∧ st.proc p = some s ∧
    InUser link kernelSatp (hartid c) (st.hart c) st.mem s (u.view p)
  holds : ∀ p s, st.proc p = some s → (∀ c, st.on c = some p → (st.hart c).user = false) →
    Holds st.mem s.tf (u.view p)

variable {link : Link} {kernelSatp : UInt64} {hartid : κ → UInt64}
  {st st' : TrapSystem κ π} {u : Users κ π} {c : κ} {v : UserView} {h : Hart}

/-- A process that is not in user code gets a frame, or another one. -/
theorem Reflects.reseat [DecidableEq π] (hr : Reflects link kernelSatp hartid st u)
    (hkernel : ∀ c, st.on c = some p → (st.hart c).user = false)
    (hseats : st.Reseats p seat mem) (honly : OnlyPage seat.tf mem mem')
    (hholds : Holds mem' seat.tf v) :
    Reflects link kernelSatp hartid
      { st with proc := Function.update st.proc p (some seat), mem := mem' }
      (u.setView p v) := by
  have hself : Function.update st.proc p (some seat) p = some seat := Function.update_self _ _ _
  have hother : ∀ q, q ≠ p → Function.update st.proc p (some seat) q = st.proc q :=
    fun q hq => Function.update_of_ne hq _ _
  have hsame : ∀ q t, q ≠ p → st.proc q = some t → ∀ x, t.tf.toNat ≤ x →
      x < t.tf.toNat + tfSize → mem' x = st.mem x := by
    intro q t hne hq x hlow hhigh
    have hq' := (hother q hne).trans hq
    rw [honly x (hseats.apart.frame_outside hself hq' hne hlow hhigh)]
    exact hseats.keeps q t ((Function.update_of_ne hne _ _).trans hq) x hlow hhigh
  refine ⟨hr.on, hseats.apart.onlyPage hself honly, hr.once, ?_, hr.kernel, ?_, ?_⟩
  · intro c q hc
    by_cases hqp : q = p
    · exact ⟨seat, by rw [hqp]; exact hself⟩
    · obtain ⟨s, hs⟩ := hr.seated c q hc
      exact ⟨s, (hother q hqp).trans hs⟩
  · intro c huser
    obtain ⟨q, t, hc, hq, hat⟩ := hr.inUser c huser
    have hne : q ≠ p := by
      rintro rfl
      rw [hkernel c hc] at huser
      cases huser
    refine ⟨q, t, hc, (hother q hne).trans hq, ?_⟩
    change InUser link kernelSatp (hartid c) (st.hart c) mem' t (Function.update u.view p v q)
    rw [Function.update_of_ne hne]
    exact hat.congr (hsame q t hne hq)
  · intro q t hq hcs
    change Holds mem' t.tf (Function.update u.view p v q)
    by_cases hne : q = p
    · subst hne
      obtain rfl := Option.some.inj (hself.symm.trans hq)
      rw [Function.update_self]
      exact hholds
    · have hq' := (hother q hne).symm.trans hq
      rw [Function.update_of_ne hne]
      exact (hr.holds q t hq' hcs).congr (hsame q t hne hq')

/-- The process on a hart goes on, in user code or in the kernel. -/
theorem Reflects.setHart [DecidableEq κ] [DecidableEq π]
    (hr : Reflects link kernelSatp hartid st u) (hon : st.on c = some p)
    (hp : st.proc p = some seat) (hapart : Apart st.proc mem')
    (hkeeps : KeepsFrames (Function.update st.proc p none) st.mem mem')
    (hnext : (InKernel kernelSatp (hartid c) h ∧ Holds mem' seat.tf v) ∨
      InUser link kernelSatp (hartid c) h mem' seat v) :
    Reflects link kernelSatp hartid (st.setHart c h mem') (u.setView p v) := by
  have hsame : ∀ q t, q ≠ p → st.proc q = some t → ∀ x, t.tf.toNat ≤ x →
      x < t.tf.toNat + tfSize → mem' x = st.mem x := fun q t hne hq =>
    hkeeps q t ((Function.update_of_ne hne _ _).trans hq)
  have hself : (st.setHart c h mem').hart c = h := Function.update_self _ _ _
  have hother : ∀ c', c' ≠ c → (st.setHart c h mem').hart c' = st.hart c' :=
    fun c' hne => Function.update_of_ne hne _ _
  refine ⟨hr.on, hapart, hr.once, hr.seated, ?_, ?_, ?_⟩
  · intro c' huser
    by_cases hc : c' = c
    · subst hc
      rw [hself] at huser ⊢
      rcases hnext with ⟨hkernel, _⟩ | hat
      · exact hkernel
      · rw [hat.user] at huser
        cases huser
    · rw [hother c' hc] at huser ⊢
      exact hr.kernel c' huser
  · intro c' huser
    by_cases hc : c' = c
    · subst hc
      rw [hself] at huser ⊢
      rcases hnext with ⟨hkernel, _⟩ | hat
      · rw [hkernel.user] at huser
        cases huser
      · refine ⟨p, seat, hon, hp, ?_⟩
        change InUser link kernelSatp (hartid c') h mem' seat (Function.update u.view p v p)
        rw [Function.update_self]
        exact hat
    · rw [hother c' hc] at huser ⊢
      obtain ⟨q, t, hq, ht, hat⟩ := hr.inUser c' huser
      have hne : q ≠ p := fun heq => hc (hr.once c' c p (heq ▸ hq) hon)
      refine ⟨q, t, hq, ht, ?_⟩
      change InUser link kernelSatp (hartid c') (st.hart c') mem' t
        (Function.update u.view p v q)
      rw [Function.update_of_ne hne]
      exact hat.congr (hsame q t hne ht)
  · intro q t hq hcs
    change Holds mem' t.tf (Function.update u.view p v q)
    by_cases hne : q = p
    · subst hne
      obtain rfl := Option.some.inj (hp.symm.trans hq)
      rw [Function.update_self]
      rcases hnext with ⟨_, hholds⟩ | hat
      · exact hholds
      · have huser := hcs c hon
        rw [hself, hat.user] at huser
        cases huser
    · rw [Function.update_of_ne hne]
      refine (hr.holds q t hq fun c' hc' => ?_).congr (hsame q t hne hq)
      have hcne : c' ≠ c := by
        rintro rfl
        exact hne (Option.some.inj (hc'.symm.trans hon))
      exact hother c' hcne ▸ hcs c' hc'

theorem Reflects.memory (hr : Reflects link kernelSatp hartid st u)
    (hkeeps : KeepsFrames st.proc st.mem mem') (hapart : Apart st.proc mem') :
    Reflects link kernelSatp hartid { st with mem := mem' } u := by
  refine ⟨hr.on, hapart, hr.once, hr.seated, hr.kernel, ?_, ?_⟩
  · intro c huser
    obtain ⟨q, t, hq, ht, hat⟩ := hr.inUser c huser
    exact ⟨q, t, hq, ht, hat.congr (hkeeps q t ht)⟩
  · intro q t hq hcs
    exact (hr.holds q t hq hcs).congr (hkeeps q t hq)

theorem Reflects.kernelStep [DecidableEq κ] (hr : Reflects link kernelSatp hartid st u)
    (hc : (st.hart c).user = false) (hkernel : InKernel kernelSatp (hartid c) h)
    (hkeeps : KeepsFrames st.proc st.mem mem') (hapart : Apart st.proc mem') :
    Reflects link kernelSatp hartid (st.setHart c h mem') u := by
  have hself : (st.setHart c h mem').hart c = h := Function.update_self _ _ _
  have hother : ∀ c', c' ≠ c → (st.setHart c h mem').hart c' = st.hart c' :=
    fun c' hne => Function.update_of_ne hne _ _
  refine ⟨hr.on, hapart, hr.once, hr.seated, ?_, ?_, ?_⟩
  · intro c' huser
    by_cases heq : c' = c
    · subst heq
      rw [hself]
      exact hkernel
    · rw [hother c' heq] at huser ⊢
      exact hr.kernel c' huser
  · intro c' huser
    have heq : c' ≠ c := by
      rintro rfl
      rw [hself, hkernel.user] at huser
      cases huser
    rw [hother c' heq] at huser ⊢
    obtain ⟨q, t, hq, ht, hat⟩ := hr.inUser c' huser
    exact ⟨q, t, hq, ht, hat.congr (hkeeps q t ht)⟩
  · intro q t hq hcs
    refine (hr.holds q t hq fun c' hc' => ?_).congr (hkeeps q t hq)
    by_cases heq : c' = c
    · rw [heq]
      exact hc
    · exact hother c' heq ▸ hcs c' hc'

/-- A hart in the kernel turns to another process, or to none. -/
theorem Reflects.switch [DecidableEq κ] (hr : Reflects link kernelSatp hartid st u)
    (hc : (st.hart c).user = false) {next : Option π}
    (hnext : ∀ q, next = some q → (∃ s, st.proc q = some s) ∧ ∀ c', c' ≠ c → st.on c' ≠ some q) :
    Reflects link kernelSatp hartid { st with on := Function.update st.on c next }
      { u with on := Function.update u.on c next } := by
  have hself : Function.update st.on c next c = next := Function.update_self _ _ _
  have hother : ∀ c', c' ≠ c → Function.update st.on c next c' = st.on c' :=
    fun c' hne => Function.update_of_ne hne _ _
  refine ⟨by rw [hr.on], hr.apart, ?_, ?_, hr.kernel, ?_, ?_⟩
  · intro c₁ c₂ q h₁ h₂
    dsimp only at h₁ h₂
    by_cases heq₁ : c₁ = c <;> by_cases heq₂ : c₂ = c
    · rw [heq₁, heq₂]
    · subst heq₁
      rw [hself] at h₁
      rw [hother c₂ heq₂] at h₂
      exact absurd h₂ ((hnext q h₁).2 c₂ heq₂)
    · subst heq₂
      rw [hself] at h₂
      rw [hother c₁ heq₁] at h₁
      exact absurd h₁ ((hnext q h₂).2 c₁ heq₁)
    · rw [hother c₁ heq₁] at h₁
      rw [hother c₂ heq₂] at h₂
      exact hr.once c₁ c₂ q h₁ h₂
  · intro c' q hq
    dsimp only at hq
    by_cases heq : c' = c
    · subst heq
      rw [hself] at hq
      exact (hnext q hq).1
    · rw [hother c' heq] at hq
      exact hr.seated c' q hq
  · intro c' huser
    have heq : c' ≠ c := by
      rintro rfl
      rw [hc] at huser
      cases huser
    obtain ⟨q, t, hq, ht, hat⟩ := hr.inUser c' huser
    exact ⟨q, t, (hother c' heq).trans hq, ht, hat⟩
  · intro q t hq hcs
    refine hr.holds q t hq fun c' hc' => ?_
    by_cases heq : c' = c
    · rw [heq]
      exact hc
    · exact hcs c' ((hother c' heq).trans hc')

theorem Reflects.free [DecidableEq π] (hr : Reflects link kernelSatp hartid st u)
    (hoff : ∀ c, st.on c ≠ some p) :
    Reflects link kernelSatp hartid { st with proc := Function.update st.proc p none } u := by
  have hproc : ∀ q t, Function.update st.proc p none q = some t → st.proc q = some t := by
    intro q t hq
    by_cases hne : q = p
    · subst hne
      rw [Function.update_self] at hq
      cases hq
    · exact (Function.update_of_ne hne _ _).symm.trans hq
  have hother : ∀ c q, st.on c = some q → Function.update st.proc p none q = st.proc q := by
    intro c q hc
    refine Function.update_of_ne ?_ _ _
    rintro rfl
    exact hoff c hc
  refine ⟨hr.on, ⟨fun q t hq => hr.apart.installed q t (hproc q t hq), ?_, ?_⟩, hr.once, ?_,
    hr.kernel, ?_, fun q t hq => hr.holds q t (hproc q t hq)⟩
  · exact fun q t q' t' hq hq' => hr.apart.tables q t q' t' (hproc q t hq) (hproc q' t' hq')
  · exact fun q t q' t' hq hq' => hr.apart.distinct q t q' t' (hproc q t hq) (hproc q' t' hq')
  · intro c q hc
    exact (hr.seated c q hc).imp fun t ht => (hother c q hc).trans ht
  · intro c huser
    obtain ⟨q, t, hc, hq, hat⟩ := hr.inUser c huser
    exact ⟨q, t, hc, (hother c q hc).trans hq, hat⟩

structure Booted (kernelSatp : UInt64) (hartid : κ → UInt64) (st : TrapSystem κ π) : Prop where
  proc : ∀ p, st.proc p = none
  on : ∀ c, st.on c = none
  kernel : ∀ c, InKernel kernelSatp (hartid c) (st.hart c)

theorem Booted.reflects (hboot : Booted kernelSatp hartid st) (link : Link)
    (view : π → UserView) :
    Reflects link kernelSatp hartid st ⟨fun _ => none, view⟩ := by
  refine ⟨(funext hboot.on).symm, ⟨?_, ?_, ?_⟩, ?_, ?_, fun c _ => hboot.kernel c, ?_, ?_⟩
  · intro p s hp
    rw [hboot.proc p] at hp
    cases hp
  · intro p s q t hp
    rw [hboot.proc p] at hp
    cases hp
  · intro p s q t hp
    rw [hboot.proc p] at hp
    cases hp
  · intro c c' p hc
    rw [hboot.on c] at hc
    cases hc
  · intro c p hc
    rw [hboot.on c] at hc
    cases hc
  · intro c huser
    rw [(hboot.kernel c).user] at huser
    cases huser
  · intro p s hp
    rw [hboot.proc p] at hp
    cases hp

/-! One step. -/

theorem seatOn_eq_some :
    st.seatOn c = some seat ↔ ∃ p, st.on c = some p ∧ st.proc p = some seat :=
  Option.bind_eq_some_iff

theorem Apart.keepsFrames [DecidableEq π] (h : Apart proc mem) (hp : proc p = some seat)
    (honly : OnlyPage seat.tf mem mem') : KeepsFrames (Function.update proc p none) mem mem' := by
  intro q t hq x hlow hhigh
  by_cases hne : q = p
  · subst hne
    rw [Function.update_self] at hq
    cases hq
  · rw [Function.update_of_ne hne] at hq
    exact honly x (h.frame_outside hp hq hne hlow hhigh)

theorem KeepsFrames.others [DecidableEq π] (h : KeepsFrames proc mem mem') (p : π) :
    KeepsFrames (Function.update proc p none) mem mem' := by
  intro q t hq
  by_cases hne : q = p
  · subst hne
    rw [Function.update_self] at hq
    cases hq
  · rw [Function.update_of_ne hne] at hq
    exact h q t hq

theorem Reflects.holdsOn (hr : Reflects link kernelSatp hartid st u)
    (hc : (st.hart c).user = false) (hon : st.on c = some p) (hp : st.proc p = some seat) :
    Holds st.mem seat.tf (u.view p) := by
  refine hr.holds p seat hp fun c' hon' => ?_
  rw [hr.once c' c p hon' hon]
  exact hc

/-- Code of the kernel writes to the frame of the process on its hart. -/
theorem Reflects.inFrame [DecidableEq π] (hr : Reflects link kernelSatp hartid st u)
    {f : Nat → Memory → Memory} {g : UserView → UserView}
    (hframe : ∀ mem tf v, Holds mem tf v → Holds (f tf.toNat mem) tf (g v))
    (honly : ∀ mem (tf : UInt64), OnlyPage tf mem (f tf.toNat mem))
    (hstep : st.inFrame c f = some st') :
    Reflects link kernelSatp hartid st' (u.onHart c g) := by
  unfold TrapSystem.inFrame at hstep
  obtain ⟨hc, hstep⟩ := Option.ite_none_left_eq_some.mp hstep
  obtain ⟨seat, hseat, rfl⟩ := Option.map_eq_some_iff.mp hstep
  obtain ⟨p, hon, hp⟩ := seatOn_eq_some.mp hseat
  rw [Bool.not_eq_true] at hc
  have hsame : Function.update st.proc p (some seat) = st.proc := by
    rw [← hp, Function.update_eq_self]
  have hseats : st.Reseats p seat st.mem :=
    ⟨fun _ _ _ _ _ _ => rfl, by rw [hsame]; exact hr.apart⟩
  have hnext := hr.reseat (v := g (u.view p)) (fun c' hon' => hr.once c' c p hon' hon ▸ hc) hseats
    (honly st.mem seat.tf) (hframe _ _ _ (hr.holdsOn hc hon hp))
  rw [Users.onHart_of (hr.on ▸ hon)]
  rw [hsame] at hnext
  exact hnext

section

variable [DecidableEq κ] [DecidableEq π]

theorem Reflects.trap (hr : Reflects link kernelSatp hartid st u)
    (hc : (st.hart c).user = true) (cause tval : UInt64) :
    ∃ st' p seat, st.step link (.trap c cause tval) = some st' ∧
      Reflects link kernelSatp hartid st' u ∧ st.on c = some p ∧ st.proc p = some seat ∧
      (st'.hart c).user = false ∧ (st'.hart c).regs .sp = seat.kstack + pgsize ∧
      (st'.hart c).csrs .scause = cause ∧ (st'.hart c).csrs .stval = tval := by
  obtain ⟨p, seat, hon, hp, hat⟩ := hr.inUser c hc
  obtain ⟨h', mem', h'', mem'', henter, hhandler, hkernel, hsp, hcause, htval, hholds, honly⟩ :=
    trap_spec (hr.apart.installed p seat hp) hat cause tval
  have hself : (st.setHart c h'' mem'').hart c = h'' := Function.update_self _ _ _
  refine ⟨st.setHart c h'' mem'', p, seat, ?_, ?_, hon, hp, ?_⟩
  · have hseat : st.seatOn c = some seat := seatOn_eq_some.mpr ⟨p, hon, hp⟩
    unfold TrapSystem.step
    dsimp only
    rw [if_pos hc, hseat, Option.bind_some, henter, Option.bind_some, hhandler]
    rfl
  · rw [← Users.setView_self u p]
    exact hr.setHart hon hp (hr.apart.onlyPage hp honly) (hr.apart.keepsFrames hp honly)
      (.inl ⟨hkernel, hholds⟩)
  · rw [hself]
    exact ⟨hkernel.user, hsp, hcause, htval⟩

theorem Reflects.userReturn (hr : Reflects link kernelSatp hartid st u)
    (hc : (st.hart c).user = false) (hon : st.on c = some p) :
    ∃ st', st.step link (.userReturn c) = some st' ∧
      Reflects link kernelSatp hartid st' u ∧ (st'.hart c).user = true := by
  obtain ⟨seat, hp⟩ := hr.seated c p hon
  obtain ⟨h', mem', hreturn, hat, honly⟩ := return_spec link
    (hr.apart.installed p seat hp) (hr.kernel c hc) (hr.holdsOn hc hon hp)
  have hself : (st.setHart c h' mem').hart c = h' := Function.update_self _ _ _
  refine ⟨st.setHart c h' mem', ?_, ?_, ?_⟩
  · have hseat : st.seatOn c = some seat := seatOn_eq_some.mpr ⟨p, hon, hp⟩
    have hnot : ¬ (st.hart c).user = true := by simp [hc]
    unfold TrapSystem.step
    dsimp only
    rw [if_neg hnot, hseat, Option.bind_some, hreturn]
    rfl
  · rw [← Users.setView_self u p]
    exact hr.setHart hon hp (hr.apart.onlyPage hp honly) (hr.apart.keepsFrames hp honly)
      (.inr hat)
  · rw [hself]
    exact hat.user

theorem Reflects.step (hr : Reflects link kernelSatp hartid st u) {op : TrapOp κ π}
    (hallowed : st.Allowed op) (hstep : st.step link op = some st') :
    Reflects link kernelSatp hartid st' (u.step op) := by
  cases op with
  | compute c view mem =>
      obtain ⟨hc, hstep⟩ := Option.ite_none_right_eq_some.mp hstep
      obtain rfl := Option.some.inj hstep
      obtain ⟨p, seat, hon, hp, hat⟩ := hr.inUser c hc
      obtain ⟨hkeeps, hapart⟩ := hallowed
      have hat' := hat.congr (hkeeps p seat hp)
      rw [Users.step, Users.onHart_of (hr.on ▸ hon)]
      exact hr.setHart hon hp hapart (hkeeps.others p)
        (.inr ⟨hat.user, rfl, rfl, hat.satp, hat.sscratch, hat.stvec, hat'.words⟩)
  | trap c cause tval =>
      have hc : (st.hart c).user = true := (Option.ite_none_right_eq_some.mp hstep).1
      obtain ⟨st₁, _, _, hstep₁, hr₁, _⟩ := hr.trap hc cause tval
      obtain rfl := Option.some.inj (hstep.symm.trans hstep₁)
      exact hr₁
  | kernel c regs csrs pc mem =>
      obtain ⟨hc, hstep⟩ := Option.ite_none_left_eq_some.mp hstep
      obtain rfl := Option.some.inj hstep
      rw [Bool.not_eq_true] at hc
      obtain ⟨htp, hsatp, hkeeps, hapart⟩ := hallowed
      have hkernel := hr.kernel c hc
      exact hr.kernelStep hc ⟨hc, hsatp.trans hkernel.satp, htp.trans hkernel.tp⟩ hkeeps hapart
  | switch c next =>
      obtain ⟨hc, hstep⟩ := Option.ite_none_left_eq_some.mp hstep
      obtain rfl := Option.some.inj hstep
      rw [Bool.not_eq_true] at hc
      exact hr.switch hc hallowed
  | advance c =>
      have hframe : st.inFrame c (fun tf mem => mem.store64 (tf + tfEpc.toNat)
          (mem.load64 (tf + tfEpc.toNat) + 4)) = some st' := hstep
      exact hr.inFrame (fun _ _ _ hholds => hholds.advance)
        (fun mem tf => onlyPage_store64 tf mem tfEpc.toNat _ (by decide)) hframe
  | result c ret =>
      have hframe : st.inFrame c (fun tf mem => mem.store64 (tf + tfA0.toNat) ret) =
          some st' := hstep
      exact hr.inFrame (fun _ _ _ hholds => hholds.setReg .a0 tfA0 (by decide) ret)
        (fun mem tf => onlyPage_store64 tf mem tfA0.toNat _ (by decide)) hframe
  | first p seat mem =>
      obtain rfl := Option.some.inj hstep
      obtain ⟨hoff, hseats⟩ := hallowed
      exact hr.reseat (fun c hon => absurd hon (hoff c)) hseats (onlyPage_enterAt _ _ _ _)
        (holds_enterAt _ _ _ _)
  | fork c child seat mem =>
      obtain ⟨hc, hstep⟩ := Option.ite_none_left_eq_some.mp hstep
      obtain ⟨parent, hparent, rfl⟩ := Option.map_eq_some_iff.mp hstep
      obtain ⟨p, hon, hp⟩ := seatOn_eq_some.mp hparent
      rw [Bool.not_eq_true] at hc
      obtain ⟨hoff, _, hseats⟩ := hallowed
      have hne : p ≠ child := by
        rintro rfl
        exact hoff c hon
      have hview : u.step (.fork c child seat mem) = u.setView child
          { u.view p with regs := Function.update (u.view p).regs .a0 0 } :=
        Users.fork_of (hr.on ▸ hon) child
      have hself : Function.update st.proc child (some seat) child = some seat :=
        Function.update_self _ _ _
      have hother : Function.update st.proc child (some seat) p = some parent :=
        (Function.update_of_ne hne _ _).trans hp
      have hcopied := ((hr.holdsOn hc hon hp).congr (hseats.keeps p parent
        ((Function.update_of_ne hne _ _).trans hp))).copy
        (hseats.apart.installed p parent hother).tf_aligned
        (hseats.apart.installed child seat hself).tf_aligned
        fun heq => hne (hseats.apart.distinct child seat p parent hself hother heq).symm
      rw [hview]
      exact hr.reseat (fun c hon => absurd hon (hoff c)) hseats
        ((onlyPage_memcpy _ _ _).trans (onlyPage_store64 _ _ tfA0.toNat _ (by decide)))
        (hcopied.setReg .a0 tfA0 (by decide) 0)
  | exec c seat entry sp mem =>
      obtain ⟨hc, hstep⟩ := Option.ite_none_left_eq_some.mp hstep
      obtain ⟨p, hon, hstep⟩ := Option.bind_eq_some_iff.mp hstep
      obtain ⟨old, hp, rfl⟩ := Option.map_eq_some_iff.mp hstep
      rw [Bool.not_eq_true] at hc
      rw [Users.step, Users.execute, Users.onHart_of (hr.on ▸ hon)]
      exact hr.reseat (fun c' hon' => hr.once c' c p hon' hon ▸ hc) (hallowed p hon)
        (onlyPage_execFrame _ _ _ _ _ _) (holds_execFrame (hr.holdsOn hc hon hp) _ _ _ _)
  | free p =>
      obtain rfl := Option.some.inj hstep
      exact hr.free hallowed
  | userReturn c =>
      obtain ⟨hc, hstep'⟩ := Option.ite_none_left_eq_some.mp hstep
      obtain ⟨seat, hseat, _⟩ := Option.bind_eq_some_iff.mp hstep'
      obtain ⟨p, hon, hp⟩ := seatOn_eq_some.mp hseat
      rw [Bool.not_eq_true] at hc
      obtain ⟨st₁, hstep₁, hr₁, _⟩ := hr.userReturn hc hon
      obtain rfl := Option.some.inj (hstep.symm.trans hstep₁)
      exact hr₁

theorem Reflects.run {ops : List (TrapOp κ π)} (hr : Reflects link kernelSatp hartid st u)
    (hallowed : Along (fun st op => st.step link op) Allowed st ops)
    (hrun : Lib.run (fun st op => TrapSystem.step link st op) st ops = some st') :
    Reflects link kernelSatp hartid st' (ops.foldl Users.step u) := by
  induction ops generalizing st u with
  | nil =>
      cases hrun
      exact hr
  | cons op ops ih =>
      obtain ⟨middle, hstep, hrest⟩ := run_cons.mp hrun
      exact ih (hr.step hallowed.1 hstep) (hallowed.2 middle hstep) hrest

/-- User code never notices a trap: whatever runs in between, on any hart, it goes on with
the registers and the program counter that its own instructions and calls gave it.  The
kernel is entered on the stack of the process, with its own tables and the hart's number
in `tp`; neither way ends in an exception or an assertion. -/
theorem user_code_resumes_exactly {boot : TrapSystem κ π} {ops : List (TrapOp κ π)}
    (hboot : Booted kernelSatp hartid boot) (view : π → UserView)
    (hallowed : Along (fun st op => st.step link op) Allowed boot ops)
    (hrun : Lib.run (fun st op => TrapSystem.step link st op) boot ops = some st) (c : κ) :
    ((st.hart c).user = true → ∃ p seat, st.on c = some p ∧ st.proc p = some seat ∧
      (st.hart c).regs = ((ops.foldl Users.step ⟨fun _ => none, view⟩).view p).regs ∧
      (st.hart c).pc = ((ops.foldl Users.step ⟨fun _ => none, view⟩).view p).pc ∧
      ∀ cause tval, ∃ st', st.step link (.trap c cause tval) = some st' ∧
        InKernel kernelSatp (hartid c) (st'.hart c) ∧
        (st'.hart c).regs .sp = seat.kstack + pgsize) ∧
    ((st.hart c).user = false → InKernel kernelSatp (hartid c) (st.hart c) ∧
      ∀ p, st.on c = some p → ∃ st', st.step link (.userReturn c) = some st' ∧
        (st'.hart c).user = true ∧
        (st'.hart c).regs = ((ops.foldl Users.step ⟨fun _ => none, view⟩).view p).regs ∧
        (st'.hart c).pc = ((ops.foldl Users.step ⟨fun _ => none, view⟩).view p).pc) := by
  have hr := (hboot.reflects link view).run hallowed hrun
  refine ⟨fun huser => ?_, fun huser => ⟨hr.kernel c huser, fun p hon => ?_⟩⟩
  · obtain ⟨p, seat, hon, hp, hat⟩ := hr.inUser c huser
    refine ⟨p, seat, hon, hp, hat.regs, hat.pc, fun cause tval => ?_⟩
    obtain ⟨st', p', seat', hstep, hr', hon', hp', huser', hsp, _⟩ := hr.trap huser cause tval
    obtain rfl := Option.some.inj (hon.symm.trans hon')
    obtain rfl := Option.some.inj (hp.symm.trans hp')
    exact ⟨st', hstep, hr'.kernel c huser', hsp⟩
  · obtain ⟨st', hstep, hr', huser'⟩ := hr.userReturn huser hon
    obtain ⟨q, seat, hon', _, hat⟩ := hr'.inUser c huser'
    have hsame : st'.on = st.on := hr'.on.symm.trans hr.on
    rw [hsame, hon] at hon'
    obtain rfl := Option.some.inj hon'
    exact ⟨st', hstep, huser', hat.regs, hat.pc⟩

theorem trap_keeps {cause tval : UInt64} (hstep : st.step link (.trap c cause tval) = some st') :
    st'.on = st.on ∧ st'.proc = st.proc := by
  obtain ⟨_, hstep⟩ := Option.ite_none_right_eq_some.mp hstep
  obtain ⟨seat, _, hstep⟩ := Option.bind_eq_some_iff.mp hstep
  obtain ⟨s, _, hstep⟩ := Option.bind_eq_some_iff.mp hstep
  obtain ⟨s', _, rfl⟩ := Option.map_eq_some_iff.mp hstep
  exact ⟨rfl, rfl⟩

theorem userReturn_keeps (hstep : st.step link (.userReturn c) = some st') :
    st'.on = st.on ∧ st'.proc = st.proc := by
  obtain ⟨_, hstep⟩ := Option.ite_none_left_eq_some.mp hstep
  obtain ⟨seat, _, hstep⟩ := Option.bind_eq_some_iff.mp hstep
  obtain ⟨s, _, rfl⟩ := Option.map_eq_some_iff.mp hstep
  exact ⟨rfl, rfl⟩

/-! The first process. -/

def firstLink : Link where
  userVector := 0
  userReturn := 0x90
  trapUserHandler := 0x80001000
  kernelVector := 0x80002000

def firstSeat : Seat where
  tf := 0x7000
  pgtbl := 0x1000
  kstack := 0x8000

/-- Two harts; the kernel's tables are somewhere else. -/
def firstBoot : TrapSystem (Fin 2) (Fin 2) where
  hart c := {
    regs := fun _ => if c = 0 then 0 else 1
    csrs := fun _ => makeSatp 0x100000
    pc := 0x80003000
    user := false }
  mem := fun _ => 0
  proc := fun _ => none
  on := fun _ => none

theorem exists_firstTables : ∃ mem, Apart (Function.update (fun _ : Fin 2 => none) 0
    (some firstSeat)) mem := by
  have hrange : MapRange trapframe 0x7000 4096 := by
    constructor <;> decide
  have hdone : (VmCall.step VmCall.emptyTable
      (.map 0x1000 trapframe 0x7000 4096 (pteR ||| pteW))).isSome := by decide +kernel
  obtain ⟨s, _, hstep, htables, _⟩ := emptyTable_maps (pteR ||| pteW) hrange hdone
  have hentry : (VmCall.step VmCall.emptyTable
      (.map 0x1000 trapframe 0x7000 4096 (pteR ||| pteW))).map
      (fun s : MemState => Mem.translate s.mem 0x1000 trapframe) =
      some (some (mapEntry 0x7000 (pteR ||| pteW))) := by decide +kernel
  rw [hstep, Option.map_some, Option.some_inj] at hentry
  have hfree : ¬ IsTable s.mem {0x1000} 0x7000 := by
    intro htable
    have hmem := (VmCall.emptyTable_mapped hrange.wraps hstep).2 _ htable
    revert hmem
    decide
  have hproc : ∀ p seat, Function.update (fun _ : Fin 2 => none) 0 (some firstSeat) p =
      some seat → p = 0 ∧ seat = firstSeat := by
    intro p seat hp
    by_cases hzero : p = 0
    · subst hzero
      exact ⟨rfl, (Option.some.inj hp).symm⟩
    · rw [Function.update_of_ne hzero] at hp
      cases hp
  refine ⟨s.mem, ?_, ?_, ?_⟩
  · intro p seat hp
    obtain ⟨-, rfl⟩ := hproc p seat hp
    refine ⟨htables, by decide, ⟨_, hentry, by decide, ?_⟩, hfree⟩
    intro access
    cases access <;> decide
  · intro p seat q seat' hp hq
    obtain ⟨-, rfl⟩ := hproc p seat hp
    obtain ⟨-, rfl⟩ := hproc q seat' hq
    exact hfree
  · intro p seat q seat' hp hq _
    rw [(hproc p seat hp).1, (hproc q seat' hq).1]

theorem along_first {mem : Memory} (more : List (TrapOp (Fin 2) (Fin 2)))
    (hapart : Apart (Function.update (fun _ : Fin 2 => none) 0 (some firstSeat)) mem)
    (hmore : ∀ st, Along (fun st op => TrapSystem.step firstLink st op) Allowed st more) :
    Along (fun st op => TrapSystem.step firstLink st op) Allowed firstBoot
      (.first 0 firstSeat mem :: .switch 0 (some 0) :: more) := by
  refine ⟨⟨nofun, fun p s hp => ?_, hapart⟩, fun st₁ hstep => ⟨fun q hq => ?_, fun _ _ => hmore _⟩⟩
  · by_cases hzero : p = 0
    · subst hzero
      cases hp
    · rw [Function.update_of_ne hzero] at hp
      cases hp
  · obtain rfl := Option.some.inj hstep
    obtain rfl := Option.some.inj hq
    exact ⟨⟨firstSeat, rfl⟩, fun c' _ => nofun⟩

theorem user_code_resumes_exactly_interrupted :
    ∃ (mem : Memory) (st st' : TrapSystem (Fin 2) (Fin 2)),
      Lib.run (fun st op => TrapSystem.step firstLink st op) firstBoot
          [.first 0 firstSeat mem, .switch 0 (some 0), .userReturn 0,
            .trap 0 0x8000000000000001 0] = some st ∧
        InKernel (makeSatp 0x100000) 0 (st.hart 0) ∧ (st.hart 0).regs .sp = 0x9000 ∧
        st.step firstLink (.userReturn 0) = some st' ∧ (st'.hart 0).user = true ∧
        (st'.hart 0).pc = userVmemStart ∧ (st'.hart 0).regs .sp = userStackBottom := by
  obtain ⟨mem, hapart⟩ := exists_firstTables
  have hboot : Booted (makeSatp 0x100000) (fun c => if c = 0 then 0 else 1) firstBoot :=
    ⟨fun _ => rfl, fun _ => rfl, fun _ => ⟨rfl, rfl, rfl⟩⟩
  obtain ⟨_, hkernel⟩ := user_code_resumes_exactly hboot (fun _ => Users.starting 0 0)
    (along_first [] hapart fun _ => trivial) rfl 0
  obtain ⟨st₁, hreturn, huser, _⟩ := (hkernel rfl).2 0 rfl
  obtain ⟨hon₁, hproc₁⟩ := userReturn_keeps hreturn
  have hrun₁ : Lib.run (fun st op => TrapSystem.step firstLink st op) firstBoot
      [.first 0 firstSeat mem, .switch 0 (some 0), .userReturn 0] = some st₁ :=
    run_cons.mpr ⟨_, rfl, run_cons.mpr ⟨_, rfl, run_cons.mpr ⟨st₁, hreturn, rfl⟩⟩⟩
  obtain ⟨hrunning, _⟩ := user_code_resumes_exactly hboot (fun _ => Users.starting 0 0)
    (along_first [.userReturn 0] hapart fun _ => ⟨trivial, fun _ _ => trivial⟩) hrun₁ 0
  obtain ⟨p, seat, hon, hp, _, _, htraps⟩ := hrunning huser
  obtain ⟨st₂, htrap, hin, hsp⟩ := htraps 0x8000000000000001 0
  have hrun₂ : Lib.run (fun st op => TrapSystem.step firstLink st op) firstBoot
      [.first 0 firstSeat mem, .switch 0 (some 0), .userReturn 0,
        .trap 0 0x8000000000000001 0] = some st₂ :=
    run_concat hrun₁ htrap
  have hon₂ : st₂.on 0 = some 0 := by
    rw [(trap_keeps htrap).1, hon₁]
    rfl
  rw [hon₁] at hon
  obtain rfl := Option.some.inj (show some 0 = some p from hon)
  rw [hproc₁] at hp
  obtain rfl := Option.some.inj (show some firstSeat = some seat from hp)
  obtain ⟨_, hkernel₂⟩ := user_code_resumes_exactly hboot (fun _ => Users.starting 0 0)
    (along_first [.userReturn 0, .trap 0 0x8000000000000001 0] hapart
      fun _ => ⟨trivial, fun _ _ => ⟨trivial, fun _ _ => trivial⟩⟩) hrun₂ 0
  obtain ⟨st', hstep, huser', hregs, hpc⟩ := (hkernel₂ hin.user).2 0 hon₂
  refine ⟨mem, st₂, st', hrun₂, hin, hsp, hstep, huser', hpc, ?_⟩
  rw [hregs]
  rfl

end

end TrapSystem

end UnoOS.Trap
