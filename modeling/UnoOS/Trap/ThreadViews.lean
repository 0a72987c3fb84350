import UnoOS.Trap.ThreadRuns

namespace UnoOS.Trap

open UnoOS.Lib
open UnoOS.Lib.Straight
open UnoOS.Mem

/-! What kernel code notices of interrupts and of other threads: nothing but `tp`. -/

variable {mem mem' : Memory} {h h' : Hart} {a : Activation} {regs : Reg → UInt64}
  {link : KernelLink} {cause tval old new : UInt64}

/-! The functions. -/

theorem enterHandler_spec (mem : Memory) (tval : UInt64)
    (hsie : h.csrs .sstatus &&& sstatusSie ≠ 0)
    (hkernel : h.user = false) (hroom : frameSize ≤ (h.regs .sp).toNat)
    (hvector : h.csrs .stvec = link.kernelVector) (hcause : isIntr cause = true) :
    ∃ h' mem' a, enterHandler link cause tval h mem = some (h', mem', a) ∧
      h'.user = false ∧
      h'.regs = Function.update (Function.update h.regs .sp (h.regs .sp + -256)) .ra
        link.handlerReturn ∧
      h'.pc = link.trapKernelHandler ∧ a.frame = h.regs .sp + -256 ∧ a.sepc = h.pc ∧
      a.sstatus &&& sstatusSpp ≠ 0 ∧ a.sstatus &&& sstatusSpie ≠ 0 ∧
      Stacked mem' a.frame h.regs ∧
      ∀ x, x < (h.regs .sp).toNat - frameSize ∨ (h.regs .sp).toNat ≤ x → mem' x = mem x := by
  obtain ⟨mem', hexec, hstacked, hframe⟩ :=
    exec_kernelVector (m := (h.takeTrap cause tval).machine mem) hroom
  obtain ⟨hspp, hoff, hspie⟩ := trapStatus_kernel hsie
  have hstatus : (h.takeTrap cause tval).csrs .sstatus = trapStatus false (h.csrs .sstatus) :=
    congrArg (trapStatus · (h.csrs .sstatus)) hkernel
  rw [← hstatus] at hspp hoff hspie
  refine ⟨(h.takeTrap cause tval).continueAt
      ⟨Function.update (Function.update h.regs .sp (h.regs .sp + -256)) .ra link.handlerReturn,
        (h.takeTrap cause tval).csrs, mem'⟩ link.trapKernelHandler, mem',
    ⟨h.regs .sp + -256, h.pc, (h.takeTrap cause tval).csrs .sstatus⟩, ?_, rfl, rfl, rfl, rfl,
    rfl, hspp, hspie, hstacked, hframe⟩
  have hpc : (h.takeTrap cause tval).pc = link.kernelVector := hvector
  unfold enterHandler
  dsimp only
  rw [if_pos hpc, hexec]
  exact if_pos ⟨hspp, hoff, hcause⟩

theorem enterHandler_guards {result : Hart × Memory × Activation}
    (hrun : enterHandler link cause tval h mem = some result)
    (hroom : frameSize ≤ (h.regs .sp).toNat) :
    h.csrs .stvec = link.kernelVector ∧ isIntr cause = true := by
  obtain ⟨hvector, hrun⟩ := Option.ite_none_right_eq_some.mp hrun
  obtain ⟨mem', hexec, _⟩ :=
    exec_kernelVector (m := (h.takeTrap cause tval).machine mem) hroom
  rw [hexec] at hrun
  exact ⟨hvector, (Option.ite_none_right_eq_some.mp hrun).1.2.2⟩

theorem leaveHandler_spec (hstacked : Stacked mem a.frame regs)
    (hown : regs .sp = a.frame + 256) (hsp : h.regs .sp = a.frame)
    (hroom : a.frame.toNat + frameSize < 2 ^ 64) (hspp : a.sstatus &&& sstatusSpp ≠ 0)
    (hspie : a.sstatus &&& sstatusSpie ≠ 0) :
    ∃ h', leaveHandler a h mem = some (h', mem) ∧ h'.user = false ∧
      h'.regs = Function.update regs .tp (h.regs .tp) ∧ h'.pc = a.sepc ∧
      h'.csrs .sstatus &&& sstatusSie ≠ 0 := by
  let h₁ := (h.setCsr .sepc a.sepc).setCsr .sstatus a.sstatus
  have hexec := exec_kernelVectorEnd (m := h₁.machine mem) hsp hroom hstacked hown
  refine ⟨(h₁.continueAt ⟨Function.update regs .tp (h.regs .tp), h₁.csrs, mem⟩ h₁.pc).sret,
    ?_, ?_, rfl, rfl, ?_⟩
  · unfold leaveHandler
    dsimp only
    rw [hexec]
    rfl
  · exact decide_eq_false hspp
  · exact sretStatus_sie hspie

theorem switchTo_spec (hroom : old.toNat + contextSize ≤ 2 ^ 64)
    (hroom' : new.toNat + contextSize ≤ 2 ^ 64)
    (hapart : RangesApart old contextSize new contextSize) (hparked : Parked mem new regs) :
    ∃ h' mem', switchTo old new h mem = some (h', mem') ∧ h'.user = h.user ∧
      h'.regs = mergeRegs regs (Function.update (Function.update h.regs .a0 old) .a1 new) ∧
      h'.pc = regs .ra ∧ Parked mem' old h.regs ∧
      ∀ x, x < old.toNat ∨ old.toNat + contextSize ≤ x → mem' x = mem x := by
  let regs₁ := Function.update (Function.update h.regs .a0 old) .a1 new
  obtain ⟨mem', hexec, hold, hframe⟩ := exec_swtch (m := ⟨regs₁, h.csrs, mem⟩) rfl rfl hroom
    hroom' hapart hparked
  refine ⟨h.continueAt ⟨mergeRegs regs regs₁, h.csrs, mem'⟩ (mergeRegs regs regs₁ .ra), mem',
    ?_, rfl, rfl, ?_, ?_, hframe⟩
  · unfold switchTo
    dsimp only
    rw [hexec]
    rfl
  · change (if Reg.ra ∈ contextSlots.map Prod.fst then regs .ra else regs₁ .ra) = regs .ra
    exact if_pos (by decide)
  · intro slot hslot
    have hne : slot.1 ≠ .a0 ∧ slot.1 ≠ .a1 := by
      revert slot
      decide
    refine (hold slot hslot).trans ?_
    exact (Function.update_of_ne hne.2 _ _).trans (Function.update_of_ne hne.1 _ _)

theorem parked_newContext (ctx entry sp : UInt64) (mem : Memory) :
    Parked (newContext ctx entry sp mem) ctx (ThreadViews.newView entry sp).regs := by
  have hslots : ∀ slot ∈ contextSlots, slot.1 = .ra ∧ slot.2.toNat = 0 ∨
      slot.1 = .sp ∧ slot.2.toNat = 8 ∨
      slot.1 ≠ .ra ∧ slot.1 ≠ .sp ∧ 16 ≤ slot.2.toNat ∧ slot.2.toNat + 8 ≤ 112 := by
    decide
  intro slot hslot
  change _ = Function.update (Function.update (fun _ : Reg => (0 : UInt64)) .ra entry) .sp sp
    slot.1
  unfold newContext
  dsimp only
  rcases hslots slot hslot with ⟨hr, hoffset⟩ | ⟨hr, hoffset⟩ | ⟨hra, hsp, hlow, hhigh⟩
  · rw [hr, hoffset, load64_store64_apart _ _ (by omega), Function.update_of_ne (by decide),
      Function.update_self]
    exact Memory.load64_store64_self _ _ _
  · rw [hr, hoffset, Function.update_self]
    exact Memory.load64_store64_self _ _ _
  · rw [load64_store64_apart _ _ (by omega), load64_store64_apart _ _ (by omega),
      Function.update_of_ne hsp, Function.update_of_ne hra]
    refine Memory.load64_of_zero fun k hk => ?_
    have hsize : contextSize = 112 := rfl
    exact Memory.write_of_mem (by omega) (by omega)

theorem newContext_outside (ctx entry sp : UInt64) (mem : Memory) {x : Nat}
    (hx : x < ctx.toNat ∨ ctx.toNat + contextSize ≤ x) :
    newContext ctx entry sp mem x = mem x := by
  have hsize : contextSize = 112 := rfl
  unfold newContext
  exact (Memory.write_of_not_mem (by omega)).trans
    ((Memory.write_of_not_mem (by omega)).trans (Memory.write_of_not_mem (by omega)))

theorem Parked.congr {ctx : UInt64} (hparked : Parked mem ctx regs)
    (hsame : ∀ x, ctx.toNat ≤ x → x < ctx.toNat + contextSize → mem' x = mem x) :
    Parked mem' ctx regs := by
  intro slot hslot
  have hinside := (fits_contextSlots.inside slot hslot).2
  refine (Memory.load64_congr fun i hi => ?_).trans (hparked slot hslot)
  exact hsame _ (by omega) (by omega)

/-! The simulation. -/

namespace ThreadSystem

variable {κ τ : Type}

structure Shows (layout : ThreadLayout τ) (hartid : κ → UInt64) (st : ThreadSystem κ τ)
    (v : ThreadViews κ τ) : Prop where
  on : v.on = st.on
  once : ∀ c c', st.on c = st.on c' → c = c'
  kernel : ∀ c, (st.hart c).user = false
  regs : ∀ c r, r ≠ .tp → (st.hart c).regs r = (v.now (st.on c)).regs r
  pc : ∀ c, (st.hart c).pc = (v.now (st.on c)).pc
  tp : ∀ c, (st.hart c).regs .tp = hartid c
  made : ∀ c, st.made (st.on c) = true
  parked : ∀ t, st.made t = true → (∀ c, st.on c ≠ t) →
    Parked st.mem (layout.ctx t) (v.now t).regs
  piled : ∀ t, st.made t = true →
    Piled st.mem (layout.stack t).toNat ((layout.stack t).toNat + 4096)
      ((v.now t).regs .sp) (st.active t) (v.interrupted t)

variable {layout : ThreadLayout τ} {hartid : κ → UInt64} {st st' : ThreadSystem κ τ}
  {v : ThreadViews κ τ} {c : κ} {t : τ}

theorem Shows.frame_inside (hs : Shows layout hartid st v) (ht : st.made t = true) :
    ∀ a ∈ st.active t, ((v.now t).regs .sp).toNat ≤ a.frame.toNat ∧
      (layout.stack t).toNat ≤ a.frame.toNat ∧
      a.frame.toNat + frameSize ≤ (layout.stack t).toNat + 4096 := by
  intro a ha
  have hpile := hs.piled t ht
  have hinside := hpile.inside (layout.stack_room t) a ha
  exact ⟨hinside.1, hpile.bounds.1.trans hinside.1, hinside.2⟩

/-- A thread on a hart goes on, and memory changes in its own stack. -/
theorem Shows.setHart [DecidableEq κ] [DecidableEq τ] (hs : Shows layout hartid st v)
    {view : ThreadView} {active : List Activation} {interrupted : List ThreadView}
    (hkernel : h.user = false) (hregs : ∀ r, r ≠ .tp → h.regs r = view.regs r)
    (hpc : h.pc = view.pc) (htp : h.regs .tp = hartid c)
    (hparked : ∀ t, (∀ c, st.on c ≠ t) → ∀ x, (layout.ctx t).toNat ≤ x →
      x < (layout.ctx t).toNat + contextSize → mem x = st.mem x)
    (hothers : ∀ t, st.made t = true → t ≠ st.on c → ∀ a ∈ st.active t, ∀ x, a.frame.toNat ≤ x →
      x < a.frame.toNat + frameSize → mem x = st.mem x)
    (hpile : Piled mem (layout.stack (st.on c)).toNat
      ((layout.stack (st.on c)).toNat + 4096) (view.regs .sp) active interrupted) :
    Shows layout hartid ((st.setHart c h mem).setActive (st.on c) active)
      ((v.setInterrupted (v.on c) interrupted).setNow (v.on c) view) := by
  have hself : Function.update st.hart c h c = h := Function.update_self _ _ _
  have hother : ∀ c', c' ≠ c → Function.update st.hart c h c' = st.hart c' :=
    fun c' hne => Function.update_of_ne hne _ _
  have hnow : Function.update v.now (st.on c) view (st.on c) = view := Function.update_self _ _ _
  have hnow' : ∀ t, t ≠ st.on c → Function.update v.now (st.on c) view t = v.now t :=
    fun t hne => Function.update_of_ne hne _ _
  have honne : ∀ c', c' ≠ c → st.on c' ≠ st.on c := fun c' hne heq => hne (hs.once c' c heq)
  rw [hs.on]
  refine ⟨hs.on, hs.once, fun c' => ?_, fun c' r hr => ?_, fun c' => ?_, fun c' => ?_, hs.made,
    fun t ht hoff => ?_, fun t ht => ?_⟩
  · change (Function.update st.hart c h c').user = false
    by_cases hne : c' = c
    · rw [hne, hself]
      exact hkernel
    · rw [hother c' hne]
      exact hs.kernel c'
  · change (Function.update st.hart c h c').regs r =
      (Function.update v.now (st.on c) view (st.on c')).regs r
    by_cases hne : c' = c
    · rw [hne, hself, hnow]
      exact hregs r hr
    · rw [hother c' hne, hnow' _ (honne c' hne)]
      exact hs.regs c' r hr
  · change (Function.update st.hart c h c').pc =
      (Function.update v.now (st.on c) view (st.on c')).pc
    by_cases hne : c' = c
    · rw [hne, hself, hnow]
      exact hpc
    · rw [hother c' hne, hnow' _ (honne c' hne)]
      exact hs.pc c'
  · change (Function.update st.hart c h c').regs .tp = hartid c'
    by_cases hne : c' = c
    · rw [hne, hself]
      exact htp
    · rw [hother c' hne]
      exact hs.tp c'
  · change Parked mem (layout.ctx t) (Function.update v.now (st.on c) view t).regs
    rw [hnow' t fun heq => hoff c heq.symm]
    exact (hs.parked t ht hoff).congr (hparked t hoff)
  · change Piled mem (layout.stack t).toNat ((layout.stack t).toNat + 4096)
      ((Function.update v.now (st.on c) view t).regs .sp)
      (Function.update st.active (st.on c) active t)
      (Function.update v.interrupted (st.on c) interrupted t)
    by_cases hne : t = st.on c
    · rw [hne, hnow, Function.update_self, Function.update_self]
      exact hpile
    · rw [hnow' t hne, Function.update_of_ne hne, Function.update_of_ne hne]
      exact (hs.piled t ht).congr (hothers t ht hne)

theorem Shows.setActive_self [DecidableEq τ] (hs : Shows layout hartid
    (st.setActive t (st.active t)) v) : Shows layout hartid st v := by
  unfold ThreadSystem.setActive at hs
  rw [Function.update_eq_self] at hs
  exact hs

theorem Shows.stack_outside (hs : Shows layout hartid st v) {low high : Nat}
    (hlow : (layout.stack (st.on c)).toNat ≤ low)
    (hhigh : high ≤ (layout.stack (st.on c)).toNat + 4096)
    (hframe : ∀ x, x < low ∨ high ≤ x → mem x = st.mem x) :
    (∀ t, ∀ x, (layout.ctx t).toNat ≤ x → x < (layout.ctx t).toNat + contextSize →
      mem x = st.mem x) ∧
      ∀ t, st.made t = true → t ≠ st.on c → ∀ a ∈ st.active t, ∀ x, a.frame.toNat ≤ x →
        x < a.frame.toNat + frameSize → mem x = st.mem x := by
  refine ⟨fun t x hx hx' => hframe x ?_, fun t ht hne a ha x hx hx' => hframe x ?_⟩
  · have hapart := layout.between_apart t (st.on c)
    unfold RangesApart at hapart
    omega
  · have hapart := layout.stacks_apart t (st.on c) hne
    have hinside := (hs.frame_inside ht a ha).2
    unfold RangesApart at hapart
    omega

theorem Shows.interrupt [DecidableEq κ] [DecidableEq τ] (hs : Shows layout hartid st v)
    (hsie : (st.hart c).csrs .sstatus &&& sstatusSie ≠ 0)
    (hvector : (st.hart c).csrs .stvec = link.kernelVector) (hcause : isIntr cause = true)
    (hroom : (layout.stack (st.on c)).toNat + frameSize ≤ ((st.hart c).regs .sp).toNat) :
    ∃ st', st.step link layout (.interrupt c cause tval) = some st' ∧
      Shows layout hartid st' (v.step link layout (.interrupt c cause tval)) := by
  have hsp : (st.hart c).regs .sp = (v.now (st.on c)).regs .sp := hs.regs c .sp (by decide)
  have hroom' : frameSize ≤ ((st.hart c).regs .sp).toNat := by omega
  obtain ⟨h', mem', a, henter, hkernel, hregs, hpc, hframe, hsepc, hspp, hspie, hstacked,
    houtside⟩ := enterHandler_spec st.mem tval hsie (hs.kernel c) hroom' hvector hcause
  have hpile := hs.piled (st.on c) (hs.made c)
  have hbounds := hpile.bounds
  have haddr := sub_frameSize_toNat hroom'
  have hsize : frameSize = 256 := rfl
  rw [← hsp] at hpile hbounds
  rw [← hframe] at haddr
  obtain ⟨hctx, hothers⟩ := hs.stack_outside (by omega) hbounds.2 houtside
  refine ⟨(st.setHart c h' mem').setActive (st.on c) (a :: st.active (st.on c)), ?_, ?_⟩
  · unfold step
    dsimp only
    rw [if_pos hsie, henter]
    rfl
  · unfold ThreadViews.step
    dsimp only
    refine hs.setHart hkernel (fun r hr => ?_) hpc ?_ (fun t _ => hctx t) hothers ?_
    · rw [hs.on, hregs]
      unfold ThreadViews.handlerView
      dsimp only
      rw [hsp]
      by_cases hra : r = .ra
      · rw [hra, Function.update_self, Function.update_self]
      · rw [Function.update_of_ne hra, Function.update_of_ne hra]
        by_cases hr' : r = .sp
        · rw [hr', Function.update_self, Function.update_self]
        · rw [Function.update_of_ne hr', Function.update_of_ne hr']
          exact hs.regs c r hr
    · rw [hregs, Function.update_of_ne (by decide), Function.update_of_ne (by decide)]
      exact hs.tp c
    · have hnew : (ThreadViews.handlerView link (v.now (v.on c))).regs .sp = a.frame := by
        rw [hs.on, hframe, hsp]
        rfl
      have hown : (v.now (st.on c)).regs .sp = a.frame + 256 := by
        rw [hframe, hsp, UInt64.add_assoc]
        exact (UInt64.add_zero _).symm
      rw [hnew, hs.on]
      refine ⟨by omega, le_refl _, by omega, hown, ?_, ?_, hspp, hspie, ?_⟩
      · refine ⟨fun slot hslot hne => ?_, hstacked.sp⟩
        refine (hstacked.words slot hslot hne).trans (hs.regs c slot.1 fun htp => ?_)
        exact tp_not_mem (htp ▸ List.mem_map_of_mem hslot)
      · rw [hsepc, hs.pc c]
      · rw [← hsp]
        refine hpile.congr fun b hb x hx hx' => houtside x ?_
        have hinside := hpile.inside (layout.stack_room _) b hb
        omega

theorem Shows.compute [DecidableEq κ] [DecidableEq τ] (hs : Shows layout hartid st v)
    {csrs : Csr → UInt64} {pc : UInt64}
    (hallowed : st.Allowed layout (.compute c regs csrs pc mem)) :
    Shows layout hartid
      (st.setHart c { st.hart c with regs := regs, csrs := csrs, pc := pc } mem)
      (v.setNow (v.on c) ⟨regs, pc⟩) := by
  obtain ⟨htp, hctx, hframes, hlow, hhigh, habove⟩ := hallowed
  have hpile := ((hs.piled (st.on c) (hs.made c)).congr (hframes (st.on c))).move hlow hhigh habove
  let view : ThreadView := ⟨regs, pc⟩
  have hregs : ∀ r, r ≠ Reg.tp → regs r = view.regs r := fun _ _ => rfl
  have hpc : pc = view.pc := rfl
  have hshows := hs.setHart (h := { st.hart c with regs := regs, csrs := csrs, pc := pc })
    (hs.kernel c) hregs hpc (htp.trans (hs.tp c)) hctx (fun t _ _ => hframes t) hpile
  rw [← hs.on, ThreadViews.setInterrupted_self] at hshows
  exact hshows.setActive_self

theorem Shows.resume [DecidableEq κ] [DecidableEq τ] (hs : Shows layout hartid st v)
    {rest : List Activation} (hactive : st.active (st.on c) = a :: rest)
    (hsp : (st.hart c).regs .sp = a.frame) :
    ∃ st' view views, v.interrupted (v.on c) = view :: views ∧
      st.step link layout (.resume c) = some st' ∧ st'.on = st.on ∧
      (st'.hart c).csrs .sstatus &&& sstatusSie ≠ 0 ∧
      Shows layout hartid st' ((v.setInterrupted (v.on c) views).setNow (v.on c) view) := by
  have hpile := hs.piled (st.on c) (hs.made c)
  rw [hactive] at hpile
  cases hviews : v.interrupted (st.on c) with
  | nil =>
      rw [hviews] at hpile
      exact hpile.elim
  | cons view views =>
      rw [hviews] at hpile
      obtain ⟨_, _, hroom, hown, hstacked, hsepc, hspp, hspie, hrest⟩ := hpile
      have hend := layout.stack_room (st.on c)
      obtain ⟨h', hleave, hkernel, hregs, hpc, hsie⟩ :=
        leaveHandler_spec hstacked hown hsp (by omega) hspp hspie
      refine ⟨(st.setHart c h' st.mem).setActive (st.on c) rest, view, views, ?_, ?_, rfl, ?_,
        ?_⟩
      · rw [hs.on, hviews]
      · unfold step
        dsimp only
        rw [hactive]
        dsimp only
        rw [hleave]
        rfl
      · change (Function.update st.hart c h' c).csrs .sstatus &&& sstatusSie ≠ 0
        rw [Function.update_self]
        exact hsie
      · refine hs.setHart hkernel (fun r hr => ?_) (hpc.trans hsepc) ?_ (fun _ _ _ _ _ => rfl)
          (fun _ _ _ _ _ _ _ _ => rfl) hrest
        · rw [hregs, Function.update_of_ne hr]
        · rw [hregs, Function.update_self]
          exact hs.tp c

theorem Shows.swtch [DecidableEq κ] [DecidableEq τ] (hs : Shows layout hartid st v)
    (hmade : st.made t = true) (hoff : ∀ c', st.on c' ≠ t) :
    ∃ st', st.step link layout (.swtch c t) = some st' ∧
      Shows layout hartid st' (v.step link layout (.swtch c t)) := by
  have hne : st.on c ≠ t := hoff c
  let view := ThreadViews.switchedView (layout.ctx (st.on c)) (layout.ctx t)
    (v.now (st.on c)) (v.now t)
  obtain ⟨h', mem', hswitch, huser, hregs, hpc, hparked, houtside⟩ :=
    switchTo_spec (h := st.hart c) (layout.ctx_room (st.on c)) (layout.ctx_room t)
      (layout.contexts_apart _ _ hne) (hs.parked t hmade hoff)
  have hhart : ∀ c', c' ≠ c → Function.update st.hart c h' c' = st.hart c' :=
    fun c' hc => Function.update_of_ne hc _ _
  have hon : ∀ c', c' ≠ c → Function.update st.on c t c' = st.on c' :=
    fun c' hc => Function.update_of_ne hc _ _
  have hnow : ∀ t', t' ≠ t → Function.update v.now t view t' = v.now t' :=
    fun t' ht => Function.update_of_ne ht _ _
  -- the registers that are not loaded are those of the thread that leaves
  have hview : ∀ r, r ≠ .tp → h'.regs r = view.regs r := by
    intro r hr
    rw [hregs]
    change (if r ∈ _ then _ else _) = (if r ∈ _ then _ else _)
    split
    · rfl
    · by_cases ha1 : r = .a1
      · rw [ha1, Function.update_self, Function.update_self]
      · rw [Function.update_of_ne ha1, Function.update_of_ne ha1]
        by_cases ha0 : r = .a0
        · rw [ha0, Function.update_self, Function.update_self]
        · rw [Function.update_of_ne ha0, Function.update_of_ne ha0]
          exact hs.regs c r hr
  have htp : h'.regs .tp = hartid c := by
    rw [hregs]
    exact hs.tp c
  refine ⟨{ st.setHart c h' mem' with on := Function.update st.on c t }, ?_, ?_⟩
  · unfold step
    dsimp only
    rw [hswitch]
    rfl
  · unfold ThreadViews.step
    dsimp only
    rw [hs.on]
    refine ⟨rfl, fun c₁ c₂ heq => ?_, fun c' => ?_, fun c' r hr => ?_, fun c' => ?_,
      fun c' => ?_, fun c' => ?_, fun t' ht' hoff' => ?_, fun t' ht' => ?_⟩
    · change Function.update st.on c t c₁ = Function.update st.on c t c₂ at heq
      by_cases h₁ : c₁ = c
      · by_cases h₂ : c₂ = c
        · rw [h₁, h₂]
        · rw [h₁, Function.update_self, hon c₂ h₂] at heq
          exact absurd heq.symm (hoff c₂)
      · by_cases h₂ : c₂ = c
        · rw [h₂, Function.update_self, hon c₁ h₁] at heq
          exact absurd heq (hoff c₁)
        · rw [hon c₁ h₁, hon c₂ h₂] at heq
          exact hs.once c₁ c₂ heq
    · change (Function.update st.hart c h' c').user = false
      by_cases hc : c' = c
      · rw [hc, Function.update_self, huser]
        exact hs.kernel c
      · rw [hhart c' hc]
        exact hs.kernel c'
    · change (Function.update st.hart c h' c').regs r =
        (Function.update v.now t view (Function.update st.on c t c')).regs r
      by_cases hc : c' = c
      · rw [hc, Function.update_self, Function.update_self, Function.update_self]
        exact hview r hr
      · rw [hhart c' hc, hon c' hc, hnow _ (hoff c')]
        exact hs.regs c' r hr
    · change (Function.update st.hart c h' c').pc =
        (Function.update v.now t view (Function.update st.on c t c')).pc
      by_cases hc : c' = c
      · rw [hc, Function.update_self, Function.update_self, Function.update_self]
        exact hpc
      · rw [hhart c' hc, hon c' hc, hnow _ (hoff c')]
        exact hs.pc c'
    · change (Function.update st.hart c h' c').regs .tp = hartid c'
      by_cases hc : c' = c
      · rw [hc, Function.update_self]
        exact htp
      · rw [hhart c' hc]
        exact hs.tp c'
    · change st.made (Function.update st.on c t c') = true
      by_cases hc : c' = c
      · rw [hc, Function.update_self]
        exact hmade
      · rw [hon c' hc]
        exact hs.made c'
    · have ht : t' ≠ t := by
        rintro rfl
        exact hoff' c (Function.update_self _ _ _)
      change Parked mem' (layout.ctx t') (Function.update v.now t view t').regs
      rw [hnow t' ht]
      by_cases hleft : t' = st.on c
      · rw [hleft]
        intro slot hslot
        refine (hparked slot hslot).trans (hs.regs c slot.1 fun hr => ?_)
        exact absurd (hr ▸ List.mem_map_of_mem hslot)
          (show Reg.tp ∉ contextSlots.map Prod.fst by decide)
      · refine (hs.parked t' ht' fun c' heq => ?_).congr fun x hx hx' => houtside x ?_
        · by_cases hc : c' = c
          · exact hleft (hc ▸ heq.symm)
          · exact hoff' c' ((hon c' hc).trans heq)
        · have hapart := layout.contexts_apart _ _ hleft
          unfold RangesApart at hapart
          omega
    · have hpile : Piled mem' (layout.stack t').toNat ((layout.stack t').toNat + 4096)
          ((v.now t').regs .sp) (st.active t') (v.interrupted t') := by
        refine (hs.piled t' ht').congr fun a ha x hx hx' => houtside x ?_
        have hinside := (hs.frame_inside ht' a ha).2
        have hapart := layout.between_apart (st.on c) t'
        unfold RangesApart at hapart
        omega
      change Piled mem' _ _ ((Function.update v.now t view t').regs .sp) (st.active t')
        (v.interrupted t')
      by_cases ht : t' = t
      · rw [ht, Function.update_self]
        rw [ht] at hpile
        exact hpile
      · rw [hnow t' ht]
        exact hpile

theorem Shows.create [DecidableEq κ] [DecidableEq τ] (hs : Shows layout hartid st v)
    {entry : UInt64} (hoff : ∀ c, st.on c ≠ t) :
    Shows layout hartid { st.setActive t [] with
        made := Function.update st.made t true
        mem := newContext (layout.ctx t) entry (layout.stack t + pgsize) st.mem }
      (v.step link layout (.create t entry)) := by
  let mem' := newContext (layout.ctx t) entry (layout.stack t + pgsize) st.mem
  let view := ThreadViews.newView entry (layout.stack t + pgsize)
  have hnow : ∀ t', t' ≠ t → Function.update v.now t view t' = v.now t' :=
    fun t' ht => Function.update_of_ne ht _ _
  have hmade : ∀ t', t' ≠ t → Function.update st.made t true t' = st.made t' :=
    fun t' ht => Function.update_of_ne ht _ _
  refine ⟨hs.on, hs.once, hs.kernel, fun c r hr => ?_, fun c => ?_, hs.tp, fun c => ?_,
    fun t' ht' hoff' => ?_, fun t' ht' => ?_⟩
  · change (st.hart c).regs r = (Function.update v.now t view (st.on c)).regs r
    rw [hnow _ (hoff c)]
    exact hs.regs c r hr
  · change (st.hart c).pc = (Function.update v.now t view (st.on c)).pc
    rw [hnow _ (hoff c)]
    exact hs.pc c
  · exact (hmade _ (hoff c)).trans (hs.made c)
  · change Parked mem' (layout.ctx t') (Function.update v.now t view t').regs
    by_cases ht : t' = t
    · rw [ht, Function.update_self]
      exact parked_newContext _ _ _ _
    · rw [hnow t' ht]
      have hkept := hs.parked t' ((hmade t' ht).symm.trans ht') hoff'
      refine hkept.congr fun x hx hx' => newContext_outside _ _ _ _ ?_
      have hapart := layout.contexts_apart _ _ ht
      unfold RangesApart at hapart
      omega
  · change Piled mem' (layout.stack t').toNat ((layout.stack t').toNat + 4096)
      ((Function.update v.now t view t').regs .sp) (Function.update st.active t [] t')
      (Function.update v.interrupted t [] t')
    by_cases ht : t' = t
    · rw [ht, Function.update_self, Function.update_self, Function.update_self]
      have htop : (layout.stack t + pgsize).toNat = (layout.stack t).toNat + 4096 := by
        have hroom := layout.stack_room t
        have hpage : pgsize.toNat = 4096 := rfl
        rw [UInt64.toNat_add, hpage]
        omega
      change _ ≤ (layout.stack t + pgsize).toNat ∧ (layout.stack t + pgsize).toNat ≤ _
      omega
    · rw [hnow t' ht, Function.update_of_ne ht, Function.update_of_ne ht]
      have hmade' := (hmade t' ht).symm.trans ht'
      refine (hs.piled t' hmade').congr fun a ha x hx hx' => newContext_outside _ _ _ _ ?_
      have hinside := (hs.frame_inside hmade' a ha).2
      have hapart := layout.between_apart t t'
      unfold RangesApart at hapart
      omega

structure Booted (layout : ThreadLayout τ) (hartid : κ → UInt64) (boot : ThreadSystem κ τ)
    (now : τ → ThreadView) : Prop where
  once : ∀ c c', boot.on c = boot.on c' → c = c'
  kernel : ∀ c, (boot.hart c).user = false
  now : ∀ c, now (boot.on c) = ⟨(boot.hart c).regs, (boot.hart c).pc⟩
  tp : ∀ c, (boot.hart c).regs .tp = hartid c
  made : ∀ t, boot.made t = true ↔ ∃ c, boot.on c = t
  idle : ∀ t, boot.active t = []
  sp : ∀ c, (layout.stack (boot.on c)).toNat ≤ ((boot.hart c).regs .sp).toNat ∧
    ((boot.hart c).regs .sp).toNat ≤ (layout.stack (boot.on c)).toNat + 4096

theorem Booted.shows {boot : ThreadSystem κ τ} {now : τ → ThreadView}
    (hboot : Booted layout hartid boot now) :
    Shows layout hartid boot ⟨boot.on, now, fun _ => []⟩ := by
  refine ⟨rfl, hboot.once, hboot.kernel, fun c r _ => ?_, fun c => ?_, hboot.tp,
    fun c => (hboot.made _).mpr ⟨c, rfl⟩, fun t ht hoff => ?_, fun t ht => ?_⟩
  · exact congrArg (fun view => view.regs r) (hboot.now c).symm
  · exact congrArg ThreadView.pc (hboot.now c).symm
  · obtain ⟨c, hc⟩ := (hboot.made t).mp ht
    exact absurd hc (hoff c)
  · obtain ⟨c, rfl⟩ := (hboot.made t).mp ht
    dsimp only
    rw [hboot.idle, hboot.now c]
    exact hboot.sp c

section

variable [DecidableEq κ] [DecidableEq τ]

theorem Shows.step (hs : Shows layout hartid st v) {op : ThreadOp κ τ}
    (hallowed : st.Allowed layout op) (hstep : st.step link layout op = some st') :
    Shows layout hartid st' (v.step link layout op) := by
  cases op with
  | compute c regs csrs pc mem =>
      obtain rfl := Option.some.inj hstep
      exact hs.compute hallowed
  | interrupt c cause tval =>
      obtain ⟨hsie, henter⟩ := Option.ite_none_right_eq_some.mp hstep
      obtain ⟨result, hresult, _⟩ := Option.map_eq_some_iff.mp henter
      have hroom : frameSize ≤ ((st.hart c).regs .sp).toNat := le_of_add_le_right hallowed
      obtain ⟨hvector, hcause⟩ := enterHandler_guards hresult hroom
      obtain ⟨st₁, hstep₁, hs₁⟩ := hs.interrupt hsie hvector hcause hallowed
      obtain rfl := Option.some.inj (hstep.symm.trans hstep₁)
      exact hs₁
  | resume c =>
      cases hactive : st.active (st.on c) with
      | nil =>
          unfold ThreadSystem.step at hstep
          dsimp only at hstep
          rw [hactive] at hstep
          cases hstep
      | cons a rest =>
          have hsp : (st.hart c).regs .sp = a.frame := hallowed a (by rw [hactive]; rfl)
          obtain ⟨st₁, view, views, hviews, hstep₁, _, _, hs₁⟩ := hs.resume hactive hsp
          obtain rfl := Option.some.inj (hstep.symm.trans hstep₁)
          unfold ThreadViews.step
          dsimp only
          rw [hviews]
          exact hs₁
  | swtch c t =>
      obtain ⟨st₁, hstep₁, hs₁⟩ := hs.swtch hallowed.1 hallowed.2
      obtain rfl := Option.some.inj (hstep.symm.trans hstep₁)
      exact hs₁
  | create t entry =>
      obtain rfl := Option.some.inj hstep
      exact hs.create hallowed

theorem Shows.run {ops : List (ThreadOp κ τ)} (hs : Shows layout hartid st v)
    (hallowed : Along (fun st op => st.step link layout op) (Allowed layout) st ops)
    (hrun : Lib.run (fun st op => ThreadSystem.step link layout st op) st ops = some st') :
    Shows layout hartid st' (ops.foldl (ThreadViews.step link layout) v) := by
  induction ops generalizing st v with
  | nil =>
      cases hrun
      exact hs
  | cons op ops ih =>
      obtain ⟨middle, hstep, hrest⟩ := run_cons.mp hrun
      exact ih (hs.step hallowed.1 hstep) (hallowed.2 middle hstep) hrest

/-- Kernel code notices nothing of interrupts and of other threads but that `tp` may be the
number of another hart: whatever runs in between, on any hart, a thread goes on with the
registers and at the place that it left, with interrupts on again when the handler of one
returns.  No way in or out ends in an assertion. -/
theorem kernel_code_resumes_exactly {boot : ThreadSystem κ τ} {now : τ → ThreadView}
    {ops : List (ThreadOp κ τ)} (hboot : Booted layout hartid boot now)
    (hallowed : Along (fun st op => st.step link layout op) (Allowed layout) boot ops)
    (hrun : Lib.run (fun st op => ThreadSystem.step link layout st op) boot ops = some st)
    (c : κ) :
    let v := ops.foldl (ThreadViews.step link layout) ⟨boot.on, now, fun _ => []⟩
    ((∀ r, r ≠ .tp → (st.hart c).regs r = (v.now (st.on c)).regs r) ∧
      (st.hart c).pc = (v.now (st.on c)).pc ∧ (st.hart c).regs .tp = hartid c) ∧
    (∀ cause tval, (st.hart c).csrs .sstatus &&& sstatusSie ≠ 0 →
      (st.hart c).csrs .stvec = link.kernelVector → isIntr cause = true →
      st.Allowed layout (.interrupt c cause tval) →
      ∃ st', st.step link layout (.interrupt c cause tval) = some st') ∧
    (st.active (st.on c) ≠ [] → st.Allowed layout (.resume c) →
      ∃ st' view views, v.interrupted (st.on c) = view :: views ∧
        st.step link layout (.resume c) = some st' ∧
        (∀ r, r ≠ .tp → (st'.hart c).regs r = view.regs r) ∧ (st'.hart c).pc = view.pc ∧
        (st'.hart c).regs .tp = hartid c ∧
        (st'.hart c).csrs .sstatus &&& sstatusSie ≠ 0) ∧
    (∀ t, st.Allowed layout (.swtch c t) →
      ∃ st', st.step link layout (.swtch c t) = some st' ∧
        (∀ slot ∈ contextSlots, (st'.hart c).regs slot.1 = (v.now t).regs slot.1) ∧
        (st'.hart c).pc = (v.now t).regs .ra ∧ (st'.hart c).regs .tp = hartid c) := by
  intro v
  have hs : Shows layout hartid st v := hboot.shows.run hallowed hrun
  refine ⟨⟨hs.regs c, hs.pc c, hs.tp c⟩, fun cause tval hsie hvector hcause hroom => ?_,
    fun hactive hsp => ?_, fun t hallowed => ?_⟩
  · obtain ⟨st', hstep, _⟩ := hs.interrupt hsie hvector hcause hroom
    exact ⟨st', hstep⟩
  · obtain ⟨a, rest, heq⟩ := List.exists_cons_of_ne_nil hactive
    have hframe : (st.hart c).regs .sp = a.frame := hsp a (by rw [heq]; rfl)
    obtain ⟨st', view, views, hviews, hstep, hon, hsie, hs'⟩ := hs.resume heq hframe
    rw [hs.on] at hviews hs'
    have hnow : ((v.setInterrupted (st.on c) views).setNow (st.on c) view).now (st'.on c) =
        view := by
      rw [hon]
      exact Function.update_self _ _ _
    refine ⟨st', view, views, hviews, hstep, fun r hr => ?_, ?_, hs'.tp c, hsie⟩
    · rw [hs'.regs c r hr, hnow]
    · rw [hs'.pc c, hnow]
  · obtain ⟨st', hstep, hs'⟩ : ∃ st', st.step link layout (.swtch c t) = some st' ∧
        Shows layout hartid st' (v.step link layout (.swtch c t)) :=
      hs.swtch hallowed.1 hallowed.2
    have hon : st'.on c = t := by
      rw [← hs'.on]
      exact Function.update_self _ _ _
    have hnow : (v.step link layout (.swtch c t)).now t = ThreadViews.switchedView
        (layout.ctx (v.on c)) (layout.ctx t) (v.now (v.on c)) (v.now t) :=
      Function.update_self _ _ _
    refine ⟨st', hstep, fun slot hslot => ?_, ?_, hs'.tp c⟩
    · have htp : slot.1 ≠ .tp := by
        revert slot
        decide
      rw [hs'.regs c slot.1 htp, hon, hnow]
      exact if_pos (List.mem_map_of_mem hslot)
    · rw [hs'.pc c, hon, hnow]
      rfl

theorem interrupt_active {cause tval : UInt64}
    (hstep : st.step link layout (.interrupt c cause tval) = some st') :
    st'.on = st.on ∧ ∃ a, st'.active (st.on c) = a :: st.active (st.on c) ∧
      (st'.hart c).regs .sp = a.frame := by
  obtain ⟨_, hstep⟩ := Option.ite_none_right_eq_some.mp hstep
  obtain ⟨⟨h, mem, a⟩, henter, rfl⟩ := Option.map_eq_some_iff.mp hstep
  unfold enterHandler at henter
  obtain ⟨_, henter⟩ := Option.ite_none_right_eq_some.mp henter
  obtain ⟨m, _, henter⟩ := Option.bind_eq_some_iff.mp henter
  obtain ⟨_, henter⟩ := Option.ite_none_right_eq_some.mp henter
  obtain ⟨rfl, hrest⟩ := Prod.mk.inj (Option.some.inj henter)
  obtain ⟨_, rfl⟩ := Prod.mk.inj hrest
  refine ⟨rfl, _, Function.update_self _ _ _, ?_⟩
  exact congrArg (fun h : Hart => h.regs .sp) (Function.update_self c _ st.hart)

/-! A process and the schedulers of two harts. -/

def firstKernelLink : KernelLink where
  kernelVector := 0x80002000
  trapKernelHandler := 0x80001000
  handlerReturn := 0x80002090

def firstLayout : ThreadLayout (Fin 3) where
  ctx t := UInt64.ofNat (0x1000 + 112 * t.val)
  stack t := UInt64.ofNat (0x10000 + 4096 * t.val)
  ctx_room := by decide
  stack_room := by decide
  contexts_apart := by
    unfold RangesApart
    decide
  stacks_apart := by
    unfold RangesApart
    decide
  between_apart := by
    unfold RangesApart
    decide

def firstThreads : ThreadSystem (Fin 2) (Fin 3) where
  hart c := {
    regs := fun r => if r = .sp then firstLayout.stack c.castSucc + 4096 else UInt64.ofNat c.val
    csrs := fun _ => 0
    pc := 0x80003000
    user := false }
  mem := fun _ => 0
  on := Fin.castSucc
  made t := t.val < 2
  active := fun _ => []

def schedules : ThreadOp (Fin 2) (Fin 3) :=
  .compute 1 (firstThreads.hart 1).regs
    (Function.update (Function.update (fun _ => 0) .sstatus sstatusSie) .stvec
      firstKernelLink.kernelVector) 0x80003010 (fun _ => 0)

theorem firstThreads_booted : Booted firstLayout (fun c : Fin 2 => UInt64.ofNat c.val)
    firstThreads (fun t => ⟨fun r => if r = .sp then firstLayout.stack t + 4096 else
      UInt64.ofNat t.val, 0x80003000⟩) := by
  refine ⟨by decide, fun _ => rfl, fun _ => rfl, fun _ => rfl, by decide, fun _ => rfl, ?_⟩
  intro c
  change _ ≤ (firstLayout.stack c.castSucc + 4096).toNat ∧ _
  revert c
  decide

theorem kernel_code_resumes_exactly_interrupted : ∃ st st' : ThreadSystem (Fin 2) (Fin 3),
    Lib.run (fun st op => ThreadSystem.step firstKernelLink firstLayout st op) firstThreads
        [schedules, .interrupt 1 0x8000000000000001 0] = some st ∧
      (st.hart 1).pc = firstKernelLink.trapKernelHandler ∧
      (st.hart 1).regs .sp = 0x11f00 ∧
      st.step firstKernelLink firstLayout (.resume 1) = some st' ∧
      (st'.hart 1).pc = 0x80003010 ∧ (st'.hart 1).regs .sp = 0x12000 ∧
      (st'.hart 1).regs .tp = 1 ∧ (st'.hart 1).csrs .sstatus &&& sstatusSie ≠ 0 := by
  have hallowed : ∀ more : List (ThreadOp (Fin 2) (Fin 3)), (∀ st₁,
      firstThreads.step firstKernelLink firstLayout schedules = some st₁ →
        Along (fun st op => ThreadSystem.step firstKernelLink firstLayout st op)
          (Allowed firstLayout) st₁ more) →
      Along (fun st op => ThreadSystem.step firstKernelLink firstLayout st op)
        (Allowed firstLayout) firstThreads (schedules :: more) := by
    refine fun more hmore => ⟨⟨rfl, fun _ _ _ _ _ => rfl, nofun, ?_, ?_, nofun⟩, hmore⟩
    · decide
    · decide
  obtain ⟨_, hinterrupt, _, _⟩ := kernel_code_resumes_exactly firstThreads_booted
    (hallowed [] fun _ _ => trivial) rfl 1
  have hroom : ThreadSystem.Allowed firstLayout
      (firstThreads.setHart 1 { firstThreads.hart 1 with
        csrs := Function.update (Function.update (fun _ => 0) .sstatus sstatusSie) .stvec
          firstKernelLink.kernelVector
        pc := 0x80003010 } fun _ => 0) (.interrupt 1 0x8000000000000001 0) := by
    change _ ≤ _
    decide
  obtain ⟨st, hstep⟩ := hinterrupt 0x8000000000000001 0 (by decide) rfl (by decide) hroom
  have hrun : Lib.run (fun st op => ThreadSystem.step firstKernelLink firstLayout st op)
      firstThreads [schedules, .interrupt 1 0x8000000000000001 0] = some st :=
    run_cons.mpr ⟨_, rfl, run_cons.mpr ⟨st, hstep, rfl⟩⟩
  obtain ⟨hon, a, hactive, hframe⟩ := interrupt_active hstep
  obtain ⟨⟨hregs, hpc, _⟩, _, hresume, _⟩ := kernel_code_resumes_exactly firstThreads_booted
    (hallowed [_] fun st₁ hst₁ => ⟨by cases hst₁; exact hroom, fun _ _ => trivial⟩) hrun 1
  rw [hon] at hregs hpc hresume
  obtain ⟨st', view, views, hviews, hback, hregs', hpc', htp, hsie⟩ := hresume
    (by rw [hactive]; exact List.cons_ne_nil _ _)
    (fun b hb => by
      rw [hon, hactive] at hb
      obtain rfl := Option.some.inj hb
      exact hframe)
  obtain ⟨rfl, _⟩ := List.cons.inj hviews
  exact ⟨st, st', hrun, hpc, hregs .sp (by decide), hback, hpc', hregs' .sp (by decide), htp,
    hsie⟩

end

end ThreadSystem

end UnoOS.Trap
