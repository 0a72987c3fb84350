import UnoOS.Dev.Virtio

namespace UnoOS.Dev

open UnoOS.Lib

namespace Virtio

variable {π β : Type}

/-! The allocation of descriptors. -/

/-- The descriptors have been freed, and nothing else has changed but the places of
processes that sleep for descriptors. -/
structure Freed (is : List Nat) (s s' : Virtio π β) : Prop where
  frame : s' = { s with desc := s'.desc, free := s'.free, pc := s'.pc }
  free : ∀ i, s'.free i = (s.free i || decide (i ∈ is))
  desc : ∀ i, (s'.desc i).flags = (s.desc i).flags ∧ (s'.desc i).next = (s.desc i).next
  pc : ∀ p, (s'.pc p).flight = (s.pc p).flight ∧ (s'.pc p).buffer = (s.pc p).buffer

structure Taken (is : List Nat) (s s' : Virtio π β) : Prop where
  frame : s' = { s with free := s'.free }
  free : ∀ i, s'.free i = (s.free i && !decide (i ∈ is))
  was : ∀ i ∈ is, i < num ∧ s.free i = true
  nodup : is.Nodup

variable {s s' s'' : Virtio π β} {i : Nat} {is js : List Nat}

theorem Freed.refl : Freed [] s s where
  frame := rfl
  free := by simp
  desc := fun _ => ⟨rfl, rfl⟩
  pc := fun _ => ⟨rfl, rfl⟩

theorem Freed.trans (h : Freed is s s') (h' : Freed js s' s'') : Freed (is ++ js) s s'' where
  frame := by
    rw [h'.frame, h.frame]
  free := by
    intro i
    simp only [h'.free, h.free, List.mem_append, Bool.decide_or, Bool.or_assoc]
  desc := fun i =>
    ⟨(h'.desc i).1.trans (h.desc i).1, (h'.desc i).2.trans (h.desc i).2⟩
  pc := fun p => ⟨(h'.pc p).1.trans (h.pc p).1, (h'.pc p).2.trans (h.pc p).2⟩

theorem Taken.freed (h : Taken is s s') (h' : Freed is s' s'') : Freed [] s s'' where
  frame := by
    rw [h'.frame, h.frame]
  free := by
    intro i
    have hwas := h.was i
    simp only [h'.free, h.free, List.not_mem_nil, decide_false, Bool.or_false]
    grind
  desc := by
    intro i
    have hdesc := h'.desc i
    rwa [h.frame] at hdesc
  pc := by
    intro p
    have hpc := h'.pc p
    rwa [h.frame] at hpc

theorem freed_freeDesc (hi : i < num) (hfree : s.free i = false) :
    ∃ s', s.freeDesc i = .ok s' ∧ Freed [i] s s' := by
  refine ⟨_, by rw [freeDesc, if_neg (by omega), if_neg (by simp [hfree])], rfl, ?_, ?_, ?_⟩
  · intro j
    simp only [wakeupFree, Function.update_apply, List.mem_singleton]
    split
    · simp [*]
    · simp [*]
  · intro j
    simp only [wakeupFree, Function.update_apply]
    split
    · simp [*]
    · simp
  · intro p
    simp only [wakeupFree]
    cases s.pc p <;> exact ⟨rfl, rfl⟩

theorem freed_freeDescs (hnodup : is.Nodup) (hused : ∀ i ∈ is, i < num ∧ s.free i = false) :
    ∃ s', s.freeDescs is = .ok s' ∧ Freed is s s' := by
  induction is generalizing s with
  | nil => exact ⟨s, rfl, Freed.refl⟩
  | cons i is ih =>
      obtain ⟨hnotin, hnodup⟩ := List.nodup_cons.mp hnodup
      obtain ⟨hi, hfree⟩ := hused i List.mem_cons_self
      obtain ⟨middle, hstep, hfreed⟩ := freed_freeDesc hi hfree
      obtain ⟨s', hrest, hfreed'⟩ := @ih middle hnodup (by
        intro j hj
        obtain ⟨hlt, hused⟩ := hused j (List.mem_cons_of_mem i hj)
        refine ⟨hlt, ?_⟩
        have hne : j ≠ i := fun heq => hnotin (heq ▸ hj)
        simp [hfreed.free, hused, hne])
      refine ⟨s', ?_, hfreed.trans hfreed'⟩
      simp only [freeDescs, hstep]
      exact hrest

theorem allocDesc_cases (h : Taken is s s') :
    (∃ i s'', s'.allocDesc = (some i, s'') ∧ Taken (is ++ [i]) s s'') ∨
      s'.allocDesc = (none, s') := by
  simp only [allocDesc]
  rcases hfind : (List.range num).find? s'.free with _ | i
  · exact Or.inr rfl
  · left
    have hfree := List.find?_some hfind
    have hlt := List.mem_range.mp (List.mem_of_find?_eq_some hfind)
    rw [h.free] at hfree
    have hwas : s.free i = true ∧ i ∉ is := by simpa using hfree
    refine ⟨i, _, rfl, ?_, ?_, ?_, ?_⟩
    · rw [h.frame]
      rfl
    · intro j
      simp only [setFree, Function.update_apply, h.free, List.mem_append,
        List.mem_singleton]
      grind
    · intro j hj
      rcases List.mem_append.mp hj with hj | hj
      · exact h.was j hj
      · rw [List.mem_singleton.mp hj]
        exact ⟨hlt, hwas.1⟩
    · rw [List.nodup_append]
      exact ⟨h.nodup, List.nodup_singleton i, by grind⟩

theorem alloc3Loop_cases (count : Nat) (h : Taken is s s') :
    (∃ js s'', s'.alloc3Loop is count = .ok (some (is ++ js), s'') ∧
        js.length = count ∧ Taken (is ++ js) s s'') ∨
      ∃ s'', s'.alloc3Loop is count = .ok (none, s'') ∧ Freed [] s s'' := by
  induction count generalizing is s' with
  | zero => exact Or.inl ⟨[], s', by simp [alloc3Loop]; rfl, rfl, by simpa using h⟩
  | succ count ih =>
      rcases allocDesc_cases h with ⟨i, middle, halloc, htaken⟩ | halloc
      · simp only [alloc3Loop, halloc]
        rcases ih htaken with ⟨js, s'', hloop, hlength, htaken⟩ | hfail
        · refine Or.inl ⟨i :: js, s'', ?_, by simp [hlength], ?_⟩
          · simpa using hloop
          · simpa using htaken
        · exact Or.inr hfail
      · right
        have hused : ∀ i ∈ is, i < num ∧ s'.free i = false := by
          intro i hi
          exact ⟨(h.was i hi).1, by simp [h.free, hi]⟩
        obtain ⟨s'', hfrees, hfreed⟩ := freed_freeDescs h.nodup hused
        refine ⟨s'', ?_, h.freed hfreed⟩
        simp only [alloc3Loop, halloc, hfrees]
        rfl

/-- `alloc3_desc` takes three descriptors or leaves the free ones as they were. -/
theorem alloc3Desc_cases (s : Virtio π β) :
    (∃ i j k s', s.alloc3Desc = .ok (some [i, j, k], s') ∧ Taken [i, j, k] s s') ∨
      ∃ s', s.alloc3Desc = .ok (none, s') ∧ Freed [] s s' := by
  have hstart : Taken [] s s := ⟨rfl, by simp, by simp, List.nodup_nil⟩
  rcases alloc3Loop_cases 3 hstart with ⟨js, s', hloop, hlength, htaken⟩ | hfail
  · obtain ⟨i, j, k, rfl⟩ := List.length_eq_three.mp hlength
    exact Or.inl ⟨i, j, k, s', hloop, htaken⟩
  · exact Or.inr hfail

structure Linked (s : Virtio π β) (f : Flight β) : Prop where
  flags0 : (s.desc f.idx0).flags &&& vringDescFNext ≠ 0
  next0 : (s.desc f.idx0).next = f.idx1
  flags1 : (s.desc f.idx1).flags &&& vringDescFNext ≠ 0
  next1 : (s.desc f.idx1).next = f.idx2
  flags2 : (s.desc f.idx2).flags &&& vringDescFNext = 0

theorem Linked.of_desc {f : Flight β} (h : Linked s f)
    (hdesc : ∀ i ∈ f.chain, (s'.desc i).flags = (s.desc i).flags ∧
      (s'.desc i).next = (s.desc i).next) : Linked s' f := by
  have h0 := hdesc f.idx0 (by simp [Flight.chain])
  have h1 := hdesc f.idx1 (by simp [Flight.chain])
  have h2 := hdesc f.idx2 (by simp [Flight.chain])
  constructor
  · rw [h0.1]; exact h.flags0
  · rw [h0.2]; exact h.next0
  · rw [h1.1]; exact h.flags1
  · rw [h1.2]; exact h.next1
  · rw [h2.1]; exact h.flags2

theorem freed_freeChain {f : Flight β} (hlinked : Linked s f) (hnodup : f.chain.Nodup)
    (hused : ∀ i ∈ f.chain, i < num ∧ s.free i = false) :
    ∃ s', freeChain num s f.idx0 = .ok s' ∧ Freed f.chain s s' := by
  obtain ⟨⟨h01, h02⟩, h12⟩ : (f.idx0 ≠ f.idx1 ∧ f.idx0 ≠ f.idx2) ∧ f.idx1 ≠ f.idx2 := by
    simpa [Flight.chain] using hnodup
  obtain ⟨hlt0, hused0⟩ := hused f.idx0 (by simp [Flight.chain])
  obtain ⟨hlt1, hused1⟩ := hused f.idx1 (by simp [Flight.chain])
  obtain ⟨hlt2, hused2⟩ := hused f.idx2 (by simp [Flight.chain])
  obtain ⟨s₁, hstep₁, hfreed₁⟩ := freed_freeDesc hlt0 hused0
  have hlinked₁ : Linked s₁ f := hlinked.of_desc fun i _ => hfreed₁.desc i
  obtain ⟨s₂, hstep₂, hfreed₂⟩ := @freed_freeDesc _ _ s₁ _ hlt1 (by
    simp [hfreed₁.free, hused1, Ne.symm h01])
  have hlinked₂ : Linked s₂ f := hlinked₁.of_desc fun i _ => hfreed₂.desc i
  obtain ⟨s₃, hstep₃, hfreed₃⟩ := @freed_freeDesc _ _ s₂ _ hlt2 (by
    simp [hfreed₂.free, hfreed₁.free, hused2, Ne.symm h02, Ne.symm h12])
  have hlinked₃ : Linked s₃ f := hlinked₂.of_desc fun i _ => hfreed₃.desc i
  refine ⟨s₃, ?_, (hfreed₁.trans hfreed₂).trans hfreed₃⟩
  simp only [freeChain, hstep₁, bind, Except.bind]
  rw [if_pos hlinked₁.flags0, hlinked₁.next0]
  simp only [hstep₂]
  rw [if_pos hlinked₂.flags1, hlinked₂.next1]
  simp only [hstep₃]
  rw [if_neg (by simp [hlinked₃.flags2])]
  rfl

end Virtio

end UnoOS.Dev
