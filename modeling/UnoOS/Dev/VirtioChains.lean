import UnoOS.Dev.VirtioDesc

namespace UnoOS.Dev

open UnoOS.Lib

/-! The descriptors are free or in the chain of one request. -/

theorem RwPc.buffer_of_flight {β : Type} {pc : RwPc β} {f : Flight β}
    (h : pc.flight = some f) : pc.buffer = some f.b := by
  cases pc <;> simp_all [RwPc.flight, RwPc.buffer]

theorem Flight.mem_chain {β : Type} (f : Flight β) : f.idx0 ∈ f.chain := by
  simp [Flight.chain]

namespace Virtio

variable {π β : Type}

def flight (s : Virtio π β) (p : π) : Option (Flight β) := (s.pc p).flight

structure Placed (s : Virtio π β) : Prop where
  fault : s.fault = none
  nodup : ∀ p f, s.flight p = some f → f.chain.Nodup
  used : ∀ p f, s.flight p = some f → ∀ i ∈ f.chain, i < num ∧ s.free i = false
  linked : ∀ p f, s.flight p = some f → Linked s f
  apart : ∀ p q f g i, s.flight p = some f → s.flight q = some g →
    i ∈ f.chain → i ∈ g.chain → p = q
  cover : ∀ i < num, s.free i = false → ∃ p f, s.flight p = some f ∧ i ∈ f.chain
  buffers : ∀ p q b, (s.pc p).buffer = some b → (s.pc q).buffer = some b → p = q
  info : ∀ p f, s.flight p = some f →
    s.infoB f.idx0 = some f.b ∧ s.infoStatus f.idx0 = 0

theorem placed_init (blockNum : β → UInt32) : (init blockNum : Virtio π β).Placed := by
  have hflight : ∀ p, (init blockNum : Virtio π β).flight p = none := fun _ => rfl
  have hbuffer : ∀ p, ((init blockNum : Virtio π β).pc p).buffer = none := fun _ => rfl
  have hfree : ∀ i, (init blockNum : Virtio π β).free i = true := fun _ => rfl
  have hfault : (init blockNum : Virtio π β).fault = none := rfl
  constructor <;> simp [hflight, hbuffer, hfree, hfault]

variable {s s' s'' : Virtio π β} {p q : π} {b : β} {f : Flight β}

/-- A step that changes no request. -/
structure Calm (s s' : Virtio π β) : Prop where
  frame : s' = { s with desc := s'.desc, pc := s'.pc, lock := s'.lock }
  desc : ∀ i, (s'.desc i).flags = (s.desc i).flags ∧ (s'.desc i).next = (s.desc i).next
  flight : s'.flight = s.flight

theorem Placed.frame (h : s.Placed) (hfault : s'.fault = s.fault)
    (hfree : s'.free = s.free)
    (hdesc : ∀ i, (s'.desc i).flags = (s.desc i).flags ∧
      (s'.desc i).next = (s.desc i).next)
    (hinfo : s'.infoB = s.infoB)
    (hstatus : ∀ i, s.infoStatus i = 0 → s'.infoStatus i = 0)
    (hflight : s'.flight = s.flight)
    (hbuffers : ∀ p q b, (s'.pc p).buffer = some b → (s'.pc q).buffer = some b → p = q) :
    s'.Placed := by
  constructor
  · exact hfault.trans h.fault
  · rw [hflight]
    exact h.nodup
  · rw [hflight, hfree]
    exact h.used
  · rw [hflight]
    intro p f hf
    exact (h.linked p f hf).of_desc fun i _ => hdesc i
  · rw [hflight]
    exact h.apart
  · rw [hflight, hfree]
    exact h.cover
  · exact hbuffers
  · rw [hflight, hinfo]
    intro p f hf
    obtain ⟨hb, hzero⟩ := h.info p f hf
    exact ⟨hb, hstatus _ hzero⟩

theorem Placed.calm (h : s.Placed) (hcalm : Calm s s')
    (hbuffers : ∀ p q b, (s'.pc p).buffer = some b → (s'.pc q).buffer = some b → p = q) :
    s'.Placed := by
  apply h.frame
  · rw [hcalm.frame]
  · rw [hcalm.frame]
  · exact hcalm.desc
  · rw [hcalm.frame]
  · rw [hcalm.frame]
    exact fun _ hzero => hzero
  · exact hcalm.flight
  · exact hbuffers

theorem Placed.flight_eq {g : Flight β} {i : Nat} (h : s.Placed)
    (hf : s.flight p = some f) (hg : s.flight q = some g) (hi : i ∈ f.chain)
    (hj : i ∈ g.chain) : f = g := by
  have heq := h.apart p q f g i hf hg hi hj
  rw [heq, hg] at hf
  exact (Option.some.inj hf).symm

theorem Placed.flight_of_buffer {g : Flight β} (h : s.Placed)
    (hf : s.flight p = some f) (hg : s.flight q = some g) (hb : f.b = g.b) : f = g := by
  have heq := h.buffers p q g.b (hb ▸ RwPc.buffer_of_flight hf) (RwPc.buffer_of_flight hg)
  rw [heq, hg] at hf
  exact (Option.some.inj hf).symm

theorem Placed.idx0_ne {q : π} {g : Flight β} (hp : s.Placed) (htaken : Taken f.chain s s')
    (hg : s.flight q = some g) : g.idx0 ≠ f.idx0 := by
  intro heq
  have hused := (hp.used q g hg g.idx0 g.mem_chain).2
  rw [heq, (htaken.was f.idx0 f.mem_chain).2] at hused
  cases hused

/-- It is for another buffer than those on their way. -/
theorem Placed.b_ne {q : π} {g : Flight β} {write : Bool} (hp : s.Placed)
    (hpc : s.pc p = .allocating f.b write) (hg : s.flight q = some g) : g.b ≠ f.b := by
  intro heq
  have hsame := hp.buffers q p f.b (heq ▸ RwPc.buffer_of_flight hg) (by rw [hpc]; rfl)
  rw [hsame, flight, hpc] at hg
  cases hg

theorem linked_submit [DecidableEq β] {write : Bool} (hnodup : f.chain.Nodup) :
    Linked (s.submit f write) f := by
  obtain ⟨⟨h01, h02⟩, h12⟩ : (f.idx0 ≠ f.idx1 ∧ f.idx0 ≠ f.idx2) ∧ f.idx1 ≠ f.idx2 := by
    simpa [Flight.chain] using hnodup
  constructor
  · simp only [submit, Function.update_of_ne h02, Function.update_of_ne h01,
      Function.update_self]
    decide
  · simp only [submit, Function.update_of_ne h02, Function.update_of_ne h01,
      Function.update_self]
  · simp only [submit, Function.update_of_ne h12, Function.update_self]
    cases write <;> decide
  · simp only [submit, Function.update_of_ne h12, Function.update_self]
  · simp only [submit, Function.update_self]
    decide

variable [DecidableEq π]

theorem flight_setPc (pc : RwPc β) :
    (s.setPc p pc).flight = Function.update s.flight p pc.flight := by
  funext q
  simp only [flight, setPc, Function.update_apply]
  split <;> rfl

theorem calm_setPc {pc : RwPc β} {lock : Option (DiskHolder π)}
    (hflight : pc.flight = s.flight p) : Calm s { s.setPc p pc with lock := lock } where
  frame := rfl
  desc := fun _ => ⟨rfl, rfl⟩
  flight := by
    change (s.setPc p pc).flight = s.flight
    rw [flight_setPc, hflight, Function.update_eq_self]

theorem Placed.move {pc : RwPc β} {lock : Option (DiskHolder π)} (h : s.Placed)
    (hflight : pc.flight = s.flight p)
    (hbuffer : ∀ b, pc.buffer = some b → ∀ q, q ≠ p → (s.pc q).buffer ≠ some b) :
    Placed { s.setPc p pc with lock := lock } := by
  apply h.calm (calm_setPc hflight)
  intro q r b hq hr
  have hbuffers := h.buffers q r b
  simp only [setPc, Function.update_apply] at hq hr
  grind

theorem Placed.tearDown {lock : Option (DiskHolder π)} {returned : List Nat} (h : s.Placed)
    (hflight : s.flight p = some f)
    (hfreed : Freed f.chain { s with infoB := Function.update s.infoB f.idx0 none } s') :
    Placed { s'.setPc p .outside with lock := lock, returned := returned } := by
  have hflights : ({ s'.setPc p .outside with lock := lock, returned := returned } :
      Virtio π β).flight = Function.update s.flight p none := by
    change (s'.setPc p .outside).flight = _
    rw [flight_setPc]
    congr 1
    funext q
    exact (hfreed.pc q).1
  have hother : ∀ q g, q ≠ p → s.flight q = some g → ∀ i ∈ g.chain, i ∉ f.chain := by
    intro q g hne hg i hi hif
    exact hne (h.apart q p g f i hg hflight hi hif)
  have hfree : ∀ i, s'.free i = (s.free i || decide (i ∈ f.chain)) := hfreed.free
  have hfault : s'.fault = s.fault := by rw [hfreed.frame]
  have hinfo : s'.infoB = Function.update s.infoB f.idx0 none ∧
      s'.infoStatus = s.infoStatus := by
    rw [hfreed.frame]
    exact ⟨rfl, rfl⟩
  constructor
  · exact hfault.trans h.fault
  · rw [hflights]
    have hnodup := h.nodup
    grind [Function.update_apply]
  · rw [hflights]
    intro q g hg i hi
    rw [Function.update_apply] at hg
    split at hg
    · cases hg
    · obtain ⟨hlt, hused⟩ := h.used q g hg i hi
      refine ⟨hlt, ?_⟩
      have hnot := hother q g ‹_› hg i hi
      simpa [setPc, hfree, hused] using hnot
  · rw [hflights]
    intro q g hg
    rw [Function.update_apply] at hg
    split at hg
    · cases hg
    · exact (h.linked q g hg).of_desc fun i _ => hfreed.desc i
  · rw [hflights]
    have hapart := h.apart
    intro q r g k i hg hk hig hik
    rw [Function.update_apply] at hg hk
    grind
  · rw [hflights]
    intro i hi hused
    have hused : s.free i = false ∧ i ∉ f.chain := by
      simpa [setPc, hfree] using hused
    obtain ⟨q, g, hg, hig⟩ := h.cover i hi hused.1
    have hne : q ≠ p := by
      intro heq
      rw [heq, hflight] at hg
      cases hg
      exact hused.2 hig
    exact ⟨q, g, by rw [Function.update_of_ne hne, hg], hig⟩
  · intro q r b hq hr
    have hbuffers := h.buffers q r b
    have hqs : (s'.pc q).buffer = (s.pc q).buffer := (hfreed.pc q).2
    have hrs : (s'.pc r).buffer = (s.pc r).buffer := (hfreed.pc r).2
    have hnew : (RwPc.outside : RwPc β).buffer = none := rfl
    simp only [setPc, Function.update_apply] at hq hr
    grind
  · rw [hflights]
    intro q g hg
    simp only [setPc, hinfo]
    rw [Function.update_apply] at hg
    split at hg
    · cases hg
    · have hne : g.idx0 ≠ f.idx0 := by
        intro heq
        exact hother q g ‹_› hg g.idx0 g.mem_chain (heq ▸ f.mem_chain)
      rw [Function.update_of_ne hne]
      exact h.info q g hg

variable [DecidableEq β]

/-- The request of the process that has just sent it, and of the others. -/
theorem flight_submit {write : Bool} (htaken : Taken f.chain s s') :
    ((s'.submit f write).setPc p (.testing f)).flight =
      Function.update s.flight p (some f) := by
  rw [flight_setPc]
  congr 1
  rw [htaken.frame]
  rfl

theorem Placed.submit {write : Bool} (h : s.Placed) (hpc : s.pc p = .allocating f.b write)
    (htaken : Taken f.chain s s') :
    ((s'.submit f write).setPc p (.testing f)).Placed := by
  have hflight : ((s'.submit f write).setPc p (.testing f)).flight =
      Function.update s.flight p (some f) := flight_submit htaken
  have hnone : s.flight p = none := by
    simp [flight, hpc, RwPc.flight]
  have hother : ∀ q g, s.flight q = some g → ∀ i ∈ g.chain, i ∉ f.chain := by
    intro q g hg i hi hif
    have hused := (h.used q g hg i hi).2
    rw [(htaken.was i hif).2] at hused
    cases hused
  have hdesc : ∀ i, i ∉ f.chain → (s'.submit f write).desc i = s.desc i := by
    intro i hi
    obtain ⟨h0, h1, h2⟩ : i ≠ f.idx0 ∧ i ≠ f.idx1 ∧ i ≠ f.idx2 := by
      simpa [Flight.chain] using hi
    simp only [Virtio.submit, Function.update_of_ne h0, Function.update_of_ne h1,
      Function.update_of_ne h2]
    rw [htaken.frame]
  have hfree : ((s'.submit f write).setPc p (.testing f)).free = s'.free := rfl
  have hfault : s'.fault = s.fault := by rw [htaken.frame]
  have hinfo : s'.infoB = s.infoB ∧ s'.infoStatus = s.infoStatus := by
    rw [htaken.frame]
    exact ⟨rfl, rfl⟩
  constructor
  · exact hfault.trans h.fault
  · rw [hflight]
    have hnodup := h.nodup
    have := htaken.nodup
    grind [Function.update_apply]
  · rw [hflight, hfree]
    intro q g hg i hi
    rw [Function.update_apply] at hg
    split at hg
    · cases hg
      exact ⟨(htaken.was i hi).1, by simp [htaken.free, hi]⟩
    · obtain ⟨hlt, hused⟩ := h.used q g hg i hi
      exact ⟨hlt, by simp [htaken.free, hused]⟩
  · rw [hflight]
    intro q g hg
    rw [Function.update_apply] at hg
    split at hg
    · cases hg
      exact (linked_submit htaken.nodup).of_desc fun i _ => ⟨rfl, rfl⟩
    · apply (h.linked q g hg).of_desc
      intro i hi
      have hsame := hdesc i (hother q g hg i hi)
      change ((s'.submit f write).desc i).flags = _ ∧ ((s'.submit f write).desc i).next = _
      rw [hsame]
      exact ⟨rfl, rfl⟩
  · rw [hflight]
    have hapart := h.apart
    intro q r g k i hg hk hig hik
    rw [Function.update_apply] at hg hk
    grind
  · rw [hflight, hfree]
    intro i hi hused
    rw [htaken.free] at hused
    rcases hmem : decide (i ∈ f.chain) with _ | _
    · have hused : s.free i = false := by simpa [hmem] using hused
      obtain ⟨q, g, hg, hig⟩ := h.cover i hi hused
      have hne : q ≠ p := by
        intro heq
        rw [heq, hnone] at hg
        cases hg
      exact ⟨q, g, by rw [Function.update_of_ne hne, hg], hig⟩
    · exact ⟨p, f, by rw [Function.update_self], of_decide_eq_true hmem⟩
  · intro q r b hq hr
    have hbuffers := h.buffers q r b
    have hbuf : (s.pc p).buffer = some f.b := by rw [hpc]; rfl
    have hnew : (RwPc.testing f).buffer = some f.b := rfl
    have hpcs : ((s'.submit f write).setPc p (.testing f)).pc =
        Function.update s.pc p (.testing f) := by
      simp only [setPc, Virtio.submit]
      rw [htaken.frame]
    rw [hpcs, Function.update_apply] at hq hr
    grind
  · rw [hflight]
    intro q g hg
    simp only [setPc, Virtio.submit, hinfo]
    rw [Function.update_apply] at hg
    split at hg
    · cases hg
      simp
    · have hne : g.idx0 ≠ f.idx0 := by
        intro heq
        exact hother q g hg g.idx0 g.mem_chain (heq ▸ f.mem_chain)
      simp only [Function.update_of_ne hne]
      exact h.info q g hg

end Virtio

end UnoOS.Dev
