import UnoOS.Dev.VirtioRuns

namespace UnoOS.Dev

open UnoOS.Lib

/-! The protocol between the driver and the device, over all runs. -/

namespace Virtio

variable {π β : Type}

structure Sound (s : Virtio π β) : Prop where
  placed : s.Placed
  counted : s.Counted
  tracked : s.Tracked

theorem sound_init (blockNum : β → UInt32) : (init blockNum : Virtio π β).Sound :=
  ⟨placed_init blockNum, counted_init blockNum, tracked_init blockNum⟩

variable {s s' : Virtio π β} {p : π} {b : β} {f : Flight β}

theorem Sound.calm (h : s.Sound) (hcalm : Calm s s')
    (hbuffers : ∀ p q b, (s'.pc p).buffer = some b → (s'.pc q).buffer = some b → p = q) :
    s'.Sound :=
  ⟨h.placed.calm hcalm hbuffers, h.counted.calm hcalm, h.tracked.calm hcalm⟩

theorem Freed.calm (h : Freed [] s s') : Calm s s' where
  frame := by
    have hfree : s'.free = s.free := funext fun i => by simp [h.free]
    rw [h.frame, hfree]
  desc := h.desc
  flight := funext fun p => (h.pc p).1

theorem Sound.freed (h : s.Sound) (hfreed : Freed [] s s') : s'.Sound := by
  apply h.calm hfreed.calm
  intro p q b hp hq
  rw [(hfreed.pc p).2] at hp
  rw [(hfreed.pc q).2] at hq
  exact h.placed.buffers p q b hp hq

theorem Sound.setLock (h : s.Sound) (lock : Option (DiskHolder π)) :
    Sound { s with lock := lock } :=
  h.calm ⟨rfl, fun _ => ⟨rfl, rfl⟩, rfl⟩ h.placed.buffers

theorem Sound.device (h : s.Sound) (hcounted : s'.Counted) (htracked : s'.Tracked)
    (hfault : s'.fault = s.fault) (hfree : s'.free = s.free) (hdesc : s'.desc = s.desc)
    (hinfo : s'.infoB = s.infoB) (hstatus : ∀ i, s.infoStatus i = 0 → s'.infoStatus i = 0)
    (hpc : s'.pc = s.pc) : s'.Sound := by
  refine ⟨h.placed.frame hfault hfree ?_ hinfo hstatus ?_ ?_, hcounted, htracked⟩
  · rw [hdesc]
    exact fun _ => ⟨rfl, rfl⟩
  · funext p
    rw [flight, hpc]
    rfl
  · rw [hpc]
    exact h.placed.buffers

theorem Sound.intrTurn [DecidableEq β] (h : s.Sound) (hmore : s.More) : s.intrTurn.Sound := by
  obtain ⟨p, f, hf, hidx, _⟩ := h.tracked.next_posted h.counted hmore
  rw [intrTurn_eq h.placed hf hidx]
  refine ⟨h.placed.frame rfl rfl (fun _ => ⟨rfl, rfl⟩) rfl (fun _ hzero => hzero)
    (flight_clear f.b) ?_, h.counted.clear hmore f.b,
    h.tracked.clear h.counted h.placed hmore hf hidx⟩
  simp only [buffer_clear]
  exact h.placed.buffers

variable [DecidableEq π]

theorem Sound.move {pc : RwPc β} {lock : Option (DiskHolder π)} (h : s.Sound)
    (hflight : pc.flight = s.flight p) (hbuffer : pc.buffer = (s.pc p).buffer) :
    Sound { s.setPc p pc with lock := lock } := by
  refine ⟨h.placed.move hflight ?_, h.counted.calm (calm_setPc hflight),
    h.tracked.calm (calm_setPc hflight)⟩
  intro b hb q hne hq
  exact hne (h.placed.buffers q p b hq (hbuffer ▸ hb))

theorem Sound.testStep (h : s.Sound) (hpc : s.pc p = .testing f) :
    (s.testStep p f).Sound := by
  have hf : s.flight p = some f := by rw [flight, hpc]; rfl
  simp only [Virtio.testStep]
  split
  · exact h.move hf.symm (by rw [hpc]; rfl)
  · rename_i hdisk
    have hdisk : s.disk f.b = false := by simpa using hdisk
    have hlinked : Linked { s with infoB := Function.update s.infoB f.idx0 none } f :=
      (h.placed.linked p f hf).of_desc fun _ _ => ⟨rfl, rfl⟩
    obtain ⟨s', hfree, hfreed⟩ := freed_freeChain hlinked (h.placed.nodup p f hf)
      (h.placed.used p f hf)
    simp only [hfree]
    refine ⟨h.placed.tearDown hf hfreed, ?_, h.tracked.tearDown hf hdisk hfreed⟩
    rw [hfreed.frame]
    exact { h.counted with }

variable [DecidableEq β]

theorem Sound.allocStep {write : Bool} (h : s.Sound) (hpc : s.pc p = .allocating b write) :
    (s.allocStep p b write).Sound := by
  simp only [Virtio.allocStep]
  rcases alloc3Desc_cases s with ⟨i, j, k, s', halloc, htaken⟩ | ⟨s', halloc, hfreed⟩
  · simp only [halloc]
    have htaken : Taken (Flight.chain ⟨b, i, j, k⟩) s s' := htaken
    exact ⟨h.placed.submit hpc htaken, h.counted.submit htaken,
      h.tracked.submit h.counted h.placed hpc htaken⟩
  · simp only [halloc]
    obtain ⟨hflight, hbuffer⟩ := hfreed.pc p
    rw [hpc] at hflight hbuffer
    exact (h.freed hfreed).move hflight.symm hbuffer.symm

variable [Fintype π] {op : VirtioOp π β}

theorem Sound.step (h : s.Sound) (hstep : step s op = some s') : s'.Sound := by
  cases op with
  | call p b write =>
      simp only [Virtio.step, Option.ite_none_right_eq_some, Option.some.injEq] at hstep
      obtain ⟨⟨hpc, hnew⟩, rfl⟩ := hstep
      have hflight : (RwPc.entering b write).flight = s.flight p := by rw [flight, hpc]; rfl
      refine ⟨h.placed.move hflight ?_, h.counted.calm (calm_setPc hflight),
        h.tracked.calm (calm_setPc hflight)⟩
      intro b' hb q _
      cases hb
      exact hnew q
  | acquire p =>
      simp only [Virtio.step, Option.ite_none_right_eq_some] at hstep
      obtain ⟨_, hstep⟩ := hstep
      cases hpc : s.pc p with
      | entering b write =>
          simp only [hpc, Option.some.injEq] at hstep
          rw [← hstep]
          exact h.move (by rw [flight, hpc]; rfl) (by rw [hpc]; rfl)
      | awake f =>
          simp only [hpc, Option.some.injEq] at hstep
          rw [← hstep]
          exact h.move (by rw [flight, hpc]; rfl) (by rw [hpc]; rfl)
      | _ => simp [hpc] at hstep
  | alloc p =>
      simp only [Virtio.step] at hstep
      cases hpc : s.pc p with
      | allocating b write =>
          simp only [hpc, Option.some.injEq] at hstep
          rw [← hstep]
          exact h.allocStep hpc
      | _ => simp [hpc] at hstep
  | test p =>
      simp only [Virtio.step] at hstep
      cases hpc : s.pc p with
      | testing f =>
          simp only [hpc, Option.some.injEq] at hstep
          rw [← hstep]
          exact h.testStep hpc
      | _ => simp [hpc] at hstep
  | intrEnter =>
      simp only [Virtio.step, Option.ite_none_right_eq_some, Option.some.injEq] at hstep
      obtain ⟨_, rfl⟩ := hstep
      exact h.setLock _
  | intrTurn =>
      simp only [Virtio.step, Option.ite_none_right_eq_some, Option.some.injEq] at hstep
      obtain ⟨⟨_, hmore⟩, rfl⟩ := hstep
      exact h.intrTurn hmore
  | intrLeave =>
      simp only [Virtio.step, Option.ite_none_right_eq_some, Option.some.injEq] at hstep
      obtain ⟨_, rfl⟩ := hstep
      exact h.setLock _
  | fetch =>
      simp only [Virtio.step, Option.ite_none_right_eq_some, Option.some.injEq] at hstep
      obtain ⟨hmore, rfl⟩ := hstep
      exact h.device (h.counted.fetchNext hmore) (h.tracked.fetchNext h.counted hmore)
        rfl rfl rfl rfl (fun _ hzero => hzero) rfl
  | complete head =>
      simp only [Virtio.step, Option.ite_none_right_eq_some, Option.some.injEq] at hstep
      obtain ⟨hworking, rfl⟩ := hstep
      refine h.device h.counted.complete
        (h.tracked.complete h.counted h.placed hworking) rfl rfl rfl rfl ?_ rfl
      intro i hzero
      simp only [Virtio.complete, Function.update_apply]
      split
      · rfl
      · exact hzero

theorem sound_of_run {blockNum : β → UInt32} {ops : List (VirtioOp π β)}
    (hrun : run Virtio.step (init blockNum) ops = some s) : s.Sound :=
  run_invariant_of_step (fun _ _ _ h hstep => h.step hstep) (sound_init blockNum) hrun

theorem disk_protocol (blockNum : β → UInt32) (ops : List (VirtioOp π β))
    (hrun : run Virtio.step (init blockNum) ops = some s) :
    s.fault = none ∧
    (∀ p f, s.flight p = some f → f.chain.Nodup ∧ ∀ i ∈ f.chain, i < num) ∧
    (∀ i < num, s.free i = true ↔ ∀ p f, s.flight p = some f → i ∉ f.chain) ∧
    (∀ p q f g i, s.flight p = some f → s.flight q = some g → i ∈ f.chain →
      i ∈ g.chain → p = q) ∧
    (∀ s', s.alloc3Desc = .ok (none, s') → s'.free = s.free) ∧
    s.cleared.map Prod.fst <+: s.done ∧ s.done.Nodup ∧
    (∀ s', Virtio.step s .intrTurn = some s' → ∃ k b, s.sent[k]? = some b ∧ k ∈ s.done ∧
      k ∉ s.cleared.map Prod.fst ∧ s'.cleared = s.cleared ++ [(k, b)] ∧
      s'.disk = Function.update s.disk b false) ∧
    (∀ s', Virtio.step s .intrLeave = some s' → s.cleared.map Prod.fst = s.done) ∧
    (∀ k ∈ s.returned, k ∈ s.done) ∧
    (∀ p s', Virtio.step s (.test p) = some s' → s'.pc p = .outside → ∃ f,
      s.flight p = some f ∧ s.sent[s.tag f.idx0]? = some f.b ∧ s.tag f.idx0 ∈ s.done) := by
  obtain ⟨hp, hc, ht⟩ := sound_of_run hrun
  have hprefix : s.cleared.map Prod.fst <+: s.done := ⟨_, ht.order.symm⟩
  have hnodup : s.done.Nodup := by
    have hall := ht.all.nodup_iff.mpr List.nodup_range
    exact hall.of_append_left
  refine ⟨hp.fault, ?_, ?_, hp.apart, ?_, hprefix, hnodup, ?_, ?_, ?_, ?_⟩
  · intro p f hf
    exact ⟨hp.nodup p f hf, fun i hi => (hp.used p f hf i hi).1⟩
  · intro i hi
    constructor
    · intro hfree p f hf hmem
      have hused := (hp.used p f hf i hmem).2
      rw [hfree] at hused
      cases hused
    · intro hnone
      rcases hfree : s.free i with _ | _
      · obtain ⟨p, f, hf, hmem⟩ := hp.cover i hi hfree
        exact absurd hmem (hnone p f hf)
      · rfl
  · intro s' halloc
    rcases alloc3Desc_cases s with ⟨i, j, k, s'', hcase, _⟩ | ⟨s'', hcase, hfreed⟩
    · rw [halloc] at hcase
      cases hcase
    · rw [halloc] at hcase
      cases hcase
      exact funext fun i => by simp [hfreed.free]
  · intro s' hstep
    simp only [Virtio.step, Option.ite_none_right_eq_some, Option.some.injEq] at hstep
    obtain ⟨⟨_, hmore⟩, rfl⟩ := hstep
    obtain ⟨p, f, hf, hidx, _⟩ := ht.next_posted hc hmore
    have hdone : s.done = s.cleared.map Prod.fst ++
        s.tag f.idx0 :: (s.clear f.b).posted.map s.tag := by
      rw [ht.order, posted_clear hc hmore f.b, hidx]
      simp
    refine ⟨s.tag f.idx0, f.b, ht.numbered p f hf, ?_, ?_, ?_, ?_⟩
    · rw [hdone]
      simp
    · intro hmem
      rw [hdone] at hnodup
      exact (List.nodup_append.mp hnodup).2.2 _ hmem _ List.mem_cons_self rfl
    · rw [intrTurn_eq hp hf hidx, hidx]
      rfl
    · rw [intrTurn_eq hp hf hidx]
      rfl
  · intro s' hstep
    simp only [Virtio.step, Option.ite_none_right_eq_some, Option.some.injEq] at hstep
    obtain ⟨⟨_, hmore⟩, _⟩ := hstep
    rw [ht.order, posted_nil hc ht hp hmore]
    simp
  · intro k hk
    exact hprefix.subset (ht.returned k hk)
  · intro p s' hstep hpc'
    simp only [Virtio.step] at hstep
    cases hpc : s.pc p with
    | testing f =>
        have hf : s.flight p = some f := by rw [flight, hpc]; rfl
        simp only [hpc, Option.some.injEq, Virtio.testStep] at hstep
        refine ⟨f, hf, ht.numbered p f hf, hprefix.subset (ht.finished p f hf ?_)⟩
        rcases hdisk : s.disk f.b with _ | _
        · rfl
        · rw [if_pos hdisk] at hstep
          rw [← hstep] at hpc'
          simp [setPc] at hpc'
    | _ => simp [hpc] at hstep

def twoRequests : List (VirtioOp Bool Bool) :=
  [.call false false true, .call true true false, .acquire false, .alloc false,
    .test false, .acquire true, .alloc true, .test true, .fetch, .fetch, .complete 3,
    .intrEnter, .intrTurn, .complete 0, .intrTurn, .intrLeave, .acquire true,
    .test true, .acquire false, .test false]

theorem disk_protocol_twoRequests :
    ∃ s, run Virtio.step (init (fun _ => 0)) twoRequests = some s ∧
      s.returned = [1, 0] ∧ s.fault = none ∧ (∀ k ∈ s.returned, k ∈ s.done) := by
  have hrun : (run Virtio.step (init (fun _ => 0)) twoRequests).map Virtio.returned =
      some [1, 0] := by
    decide +kernel
  obtain ⟨s, hs, hreturned⟩ := Option.map_eq_some_iff.mp hrun
  obtain ⟨hfault, _, _, _, _, _, _, _, _, hdone, _⟩ := disk_protocol _ twoRequests hs
  exact ⟨s, hs, hreturned, hfault, hdone⟩

end Virtio

end UnoOS.Dev
