import UnoOS.Fs.BufCache

namespace UnoOS.Fs

open UnoOS.Lib

namespace BufCache

/-! What the pointers mean: the buffers in ring order, those in use before the
unused ones. -/

structure Wf (c : BufCache) (used free : List BufId) : Prop where
  ring : c.links.Ring .head ((used ++ free).map .buf)
  all : ∀ b, b ∈ used ++ free
  used_ref : ∀ b ∈ used, 0 < c.bufRef (.buf b)
  free_ref : ∀ b ∈ free, c.bufRef (.buf b) = 0
  labels : ∀ a b : BufId, c.blockNum (.buf a) = c.blockNum (.buf b) →
    c.blockNum (.buf a) ≠ blockNumUnused → a = b

theorem buf_injective : Function.Injective BufPtr.buf := by
  intro a b h
  cases h
  rfl

theorem mem_map_buf {b : BufId} {l : List BufId} :
    BufPtr.buf b ∈ l.map BufPtr.buf ↔ b ∈ l :=
  List.mem_map_of_injective buf_injective

theorem Wf.nodup {c : BufCache} {used free : List BufId}
    (h : c.Wf used free) : (used ++ free).Nodup :=
  List.Nodup.of_map _ (List.nodup_cons.mp h.ring.nodup).2

theorem links_nonnull {c : BufCache} {b : BufId} {l l' : List BufId}
    (hring : c.links.Ring .head ((l ++ b :: l').map .buf)) :
    c.links.next (.buf b) ≠ .null ∧ c.links.prev (.buf b) ≠ .null := by
  have hpath := hring.path
  rw [List.map_append, List.map_cons, Links.path_append] at hpath
  have hnext := Links.next_mem hpath.2
  have hprev := Links.prev_mem hpath.1
  constructor
  · intro heq
    rw [heq] at hnext
    simp at hnext
  · intro heq
    rw [heq] at hprev
    simp at hprev

/-- `insert_head` on a buffer of the ring moves it to one of the two ends. -/
theorem ring_insertHead {c : BufCache} {b : BufId} {order : List BufId}
    (hring : c.links.Ring .head (order.map .buf)) (hb : b ∈ order) :
    (c.insertHead (.buf b) true).links.Ring .head
        ((b :: order.erase b).map .buf) ∧
      (c.insertHead (.buf b) false).links.Ring .head
        ((order.erase b ++ [b]).map .buf) := by
  obtain ⟨l, l', -, rfl, herase⟩ := List.exists_erase_eq hb
  rw [herase]
  have hnonnull := links_nonnull hring
  have hnodup := List.nodup_cons.mp hring.nodup
  have hout : (c.links.unlink (.buf b)).Ring .head ((l ++ l').map .buf) := by
    rw [List.map_append, List.map_cons] at hring
    rw [List.map_append]
    exact hring.unlink
  have hfresh : BufPtr.buf b ∉ BufPtr.head :: (l ++ l').map BufPtr.buf := by
    have hb := List.nodup_middle.mp (List.Nodup.of_map _ hnodup.2)
    simp only [List.mem_cons, reduceCtorEq, false_or, mem_map_buf]
    exact (List.nodup_cons.mp hb).1
  unfold insertHead
  simp only [ne_eq, hnonnull, not_false_eq_true, and_self, if_true]
  constructor
  · exact hout.pushFront hfresh
  · have hback := hout.pushBack hfresh
    simpa [List.map_append] using hback

/-! What each operation does to the two stretches of the ring. -/

section

variable {c : BufCache} {used free : List BufId}

theorem Wf.erase_append (h : c.Wf used free) (b : BufId) :
    (used ++ free).erase b = used.erase b ++ free.erase b := by
  have hdisjoint := (List.nodup_append.mp h.nodup).2.2
  rw [List.erase_append]
  split
  case isTrue hb =>
      have hfree : b ∉ free := fun hb' => hdisjoint b hb b hb' rfl
      rw [List.erase_of_not_mem hfree]
  case isFalse hb =>
      rw [List.erase_of_not_mem hb]

theorem Wf.mem_used (h : c.Wf used free) {b : BufId}
    (href : 0 < c.bufRef (.buf b)) : b ∈ used := by
  rcases List.mem_append.mp (h.all b) with hb | hb
  · exact hb
  · rw [h.free_ref b hb] at href
    exact absurd href (Nat.lt_irrefl 0)

theorem Wf.mem_free (h : c.Wf used free) {b : BufId}
    (href : c.bufRef (.buf b) = 0) : b ∈ free := by
  rcases List.mem_append.mp (h.all b) with hb | hb
  · exact absurd href (Nat.pos_iff_ne_zero.mp (h.used_ref b hb))
  · exact hb

theorem Wf.takeHit (h : c.Wf used free) (b : BufId) :
    (c.takeHit (.buf b)).Wf (b :: used.erase b) (free.erase b) := by
  have hnodup := List.nodup_append.mp h.nodup
  refine ⟨?_, ?_, ?_, ?_, h.labels⟩
  · have hring := (ring_insertHead h.ring (h.all b)).1
    rw [h.erase_append] at hring
    exact hring
  · intro a
    rw [List.cons_append, List.mem_cons, ← h.erase_append]
    by_cases hab : a = b
    · exact .inl hab
    · exact .inr ((List.mem_erase_of_ne hab).mpr (h.all a))
  · intro a ha
    rcases List.mem_cons.mp ha with rfl | ha
    · simp [BufCache.takeHit]
    · have hused := h.used_ref a (List.mem_of_mem_erase ha)
      by_cases hab : a = b
      · simp [BufCache.takeHit, hab]
      · simpa [BufCache.takeHit, hab, insertHead] using hused
  · intro a ha
    have hab : a ≠ b := (List.Nodup.mem_erase_iff hnodup.2.1).mp ha |>.1
    have hfree := h.free_ref a (List.mem_of_mem_erase ha)
    simpa [BufCache.takeHit, hab, insertHead] using hfree

theorem Wf.takeMiss {b : BufId} (h : c.Wf used (b :: free)) {n : UInt32}
    (hfresh : ∀ a, a ≠ b → c.blockNum (.buf a) ≠ n) :
    (c.takeMiss n (.buf b)).Wf (used ++ [b]) free := by
  have hnodup := List.nodup_append.mp h.nodup
  have hsame : used ++ [b] ++ free = used ++ b :: free := by simp
  refine ⟨?_, ?_, ?_, ?_, ?_⟩
  · rw [hsame]
    exact h.ring
  · rw [hsame]
    exact h.all
  · intro a ha
    by_cases hab : a = b
    · simp [BufCache.takeMiss, hab]
    · have ha : a ∈ used := by simpa [hab] using ha
      simpa [BufCache.takeMiss, hab] using h.used_ref a ha
  · intro a ha
    have hab : a ≠ b := by
      rintro rfl
      exact (List.nodup_cons.mp hnodup.2.1).1 ha
    simpa [BufCache.takeMiss, hab] using h.free_ref a (by simp [ha])
  · intro a a' hlabel hused
    by_cases hab : a = b <;> by_cases hab' : a' = b
    · rw [hab, hab']
    · have hne := hfresh a' hab'
      simp [BufCache.takeMiss, hab, hab'] at hlabel
      exact absurd hlabel.symm hne
    · have hne := hfresh a hab
      simp [BufCache.takeMiss, hab, hab'] at hlabel
      exact absurd hlabel hne
    · simp [BufCache.takeMiss, hab, hab'] at hlabel hused
      exact h.labels a a' hlabel hused

theorem releaseRef_frame (c : BufCache) (node : BufPtr) :
    (c.releaseRef node).blockNum = c.blockNum ∧
      (c.releaseRef node).data = c.data := by
  unfold releaseRef
  dsimp only
  split <;> exact ⟨rfl, rfl⟩

theorem releaseRef_bufRef (c : BufCache) (node : BufPtr) :
    (c.releaseRef node).bufRef =
      Function.update c.bufRef node (c.bufRef node - 1) := by
  unfold releaseRef
  dsimp only
  split <;> rfl

theorem Wf.releaseRef_last (h : c.Wf used free) {b : BufId}
    (href : c.bufRef (.buf b) = 1) :
    (c.releaseRef (.buf b)).Wf (used.erase b) (free ++ [b]) := by
  have hb : b ∈ used := h.mem_used (by omega)
  have hnodup := List.nodup_append.mp h.nodup
  have hfree : b ∉ free := fun hb' => hnodup.2.2 b hb b hb' rfl
  have herase : (used ++ free).erase b = used.erase b ++ free := by
    rw [h.erase_append, List.erase_of_not_mem hfree]
  unfold BufCache.releaseRef
  dsimp only
  rw [if_pos (by simp [href])]
  refine ⟨?_, ?_, ?_, ?_, h.labels⟩
  · let c' : BufCache :=
      { c with bufRef := Function.update c.bufRef (.buf b) (c.bufRef (.buf b) - 1) }
    have hring := (ring_insertHead (c := c') h.ring (h.all b)).2
    rw [herase, List.append_assoc] at hring
    exact hring
  · intro a
    rw [← List.append_assoc, ← herase, List.mem_append, List.mem_singleton]
    by_cases hab : a = b
    · exact .inr hab
    · exact .inl ((List.mem_erase_of_ne hab).mpr (h.all a))
  · intro a ha
    have hab := (List.Nodup.mem_erase_iff hnodup.1).mp ha
    simpa [insertHead, hab.1] using h.used_ref a hab.2
  · intro a ha
    by_cases hab : a = b
    · simp [insertHead, hab, href]
    · have ha : a ∈ free := by simpa [hab] using ha
      simpa [insertHead, hab] using h.free_ref a ha

theorem Wf.releaseRef_other (h : c.Wf used free) {b : BufId}
    (href : 1 < c.bufRef (.buf b)) : (c.releaseRef (.buf b)).Wf used free := by
  unfold BufCache.releaseRef
  dsimp only
  rw [if_neg (by simp; omega)]
  refine ⟨h.ring, h.all, ?_, ?_, h.labels⟩
  · intro a ha
    by_cases hab : a = b
    · simp [hab]
      omega
    · simpa [hab] using h.used_ref a ha
  · intro a ha
    have hzero := h.free_ref a ha
    have hab : a ≠ b := by
      rintro rfl
      omega
    simpa [hab] using hzero

theorem Wf.releaseRef (h : c.Wf used free) {b : BufId}
    (href : 0 < c.bufRef (.buf b)) :
    ∃ used' free', (c.releaseRef (.buf b)).Wf used' free' := by
  by_cases hone : c.bufRef (.buf b) = 1
  · exact ⟨_, _, h.releaseRef_last hone⟩
  · exact ⟨_, _, h.releaseRef_other (by omega)⟩

end

/-! What the two loops of `buf_read` find.  The ring is cut into `front`, the
buffers before the last one in use up to the start, `back`, the unused ones
between it and the start, and `post`, what lies behind the start. -/

section

variable {c : BufCache} {n : UInt32}

theorem scanFree_spec {front back : List BufId} {x : BufPtr}
    (hpath : c.links.Path .head ((front ++ back).map .buf) x)
    (hback : ∀ b ∈ back, c.bufRef (.buf b) = 0)
    (hfront : ∀ b ∈ front.getLast?, 0 < c.bufRef (.buf b))
    {fuel : Nat} (hfuel : back.length < fuel) :
    (∃ b ∈ back, c.blockNum (.buf b) = n ∧
        c.scanFree n fuel (c.links.prev x) = some (.found (.buf b))) ∨
      (∀ b ∈ back, c.blockNum (.buf b) ≠ n) ∧
        c.scanFree n fuel (c.links.prev x) =
          some (.stopped ((front.map .buf).getLastD .head)) := by
  induction back using List.reverseRecOn generalizing x fuel with
  | nil =>
      right
      obtain ⟨fuel, rfl⟩ := Nat.exists_eq_add_of_lt hfuel
      have hprev := (Links.path_seam (front.map BufPtr.buf) []
        (by simpa using hpath)).2
      rw [List.headD_nil] at hprev
      refine ⟨by simp, ?_⟩
      rw [hprev]
      -- the node before is the sentinel or a buffer in use
      have hstop : ¬ (c.bufRef ((front.map .buf).getLastD .head) = 0 ∧
          (front.map BufPtr.buf).getLastD .head ≠ .head) := by
        rintro ⟨hzero, hne⟩
        cases hlast : front.getLast? with
        | none =>
            rw [List.getLast?_eq_none_iff.mp hlast] at hne
            exact hne rfl
        | some b =>
            have hused := hfront b hlast
            rw [List.getLastD_eq_getLast?, List.getLast?_map, hlast] at hzero
            exact absurd hzero (Nat.pos_iff_ne_zero.mp hused)
      rw [scanFree, if_neg hstop]
  | append_singleton back b ih =>
      obtain ⟨fuel, rfl⟩ := Nat.exists_eq_add_of_lt hfuel
      rw [← List.append_assoc, List.map_append, List.map_singleton,
        Links.path_append] at hpath
      have hprev : c.links.prev x = .buf b := hpath.2.2
      have hzero : c.bufRef (.buf b) = 0 := hback b (by simp)
      by_cases hlabel : c.blockNum (.buf b) = n
      · left
        refine ⟨b, by simp, hlabel, ?_⟩
        simp [scanFree, hprev, hzero, hlabel]
      · have hrest := ih hpath.1 (fun b' hb' => hback b' (by simp [hb']))
          (show back.length < (back ++ [b]).length + fuel by simp; omega)
        have hstep : c.scanFree n ((back ++ [b]).length + fuel + 1)
            (c.links.prev x) = c.scanFree n ((back ++ [b]).length + fuel)
              (c.links.prev (.buf b)) := by
          simp [scanFree, hprev, hzero, hlabel]
        rw [hstep]
        rcases hrest with ⟨b', hb', hfound⟩ | ⟨hnone, hstopped⟩
        · exact .inl ⟨b', by simp [hb'], hfound⟩
        · refine .inr ⟨?_, hstopped⟩
          intro b' hb'
          rcases List.mem_append.mp hb' with hb' | hb'
          · exact hnone b' hb'
          · rw [List.mem_singleton.mp hb']
            exact hlabel

theorem scanUsed_spec {front : List BufId} {rest : List BufPtr} {a x : BufPtr}
    (hpath : c.links.Path a (front.map .buf ++ rest) x)
    (hout : rest.headD x ∉ front.map .buf)
    {fuel : Nat} (hfuel : front.length < fuel) :
    (∃ b ∈ front, c.blockNum (.buf b) = n ∧
        c.scanUsed n (rest.headD x) fuel (c.links.next a) =
          some (.found (.buf b))) ∨
      (∀ b ∈ front, c.blockNum (.buf b) ≠ n) ∧
        c.scanUsed n (rest.headD x) fuel (c.links.next a) =
          some (.stopped (rest.headD x)) := by
  induction front generalizing a fuel with
  | nil =>
      obtain ⟨fuel, rfl⟩ := Nat.exists_eq_add_of_lt hfuel
      have hnext := (Links.path_seam [] _ hpath).1
      rw [List.getLastD_nil] at hnext
      right
      simp [scanUsed, hnext]
  | cons b front ih =>
      obtain ⟨fuel, rfl⟩ := Nat.exists_eq_add_of_lt hfuel
      obtain ⟨hnext, _, hrest⟩ := hpath
      rw [List.map_cons, List.mem_cons, not_or] at hout
      have hne : BufPtr.buf b ≠ rest.headD x := Ne.symm hout.1
      by_cases hlabel : c.blockNum (.buf b) = n
      · left
        refine ⟨b, by simp, hlabel, ?_⟩
        rw [hnext, scanUsed, if_pos hne, if_pos hlabel]
      · have htail := ih hrest hout.2
          (show front.length < (b :: front).length + fuel by simp; omega)
        have hstep : c.scanUsed n (rest.headD x)
            ((b :: front).length + fuel + 1) (c.links.next a) =
            c.scanUsed n (rest.headD x) ((b :: front).length + fuel)
              (c.links.next (.buf b)) := by
          rw [hnext, scanUsed, if_pos hne, if_neg hlabel]
        rw [hstep]
        rcases htail with ⟨b', hb', hfound⟩ | ⟨hnone, hstopped⟩
        · exact .inl ⟨b', by simp [hb'], hfound⟩
        · refine .inr ⟨?_, hstopped⟩
          intro b' hb'
          rcases List.mem_cons.mp hb' with rfl | hb'
          · exact hlabel
          · exact hnone b' hb'

/-- The locked section of `buf_read` from any start: it returns, with the
buffer that carries the block up to the start, else with the first buffer behind
the last one in use before the start. -/
theorem lookup_cases (front back post : List BufId)
    (hring : c.links.Ring .head ((front ++ back ++ post).map .buf))
    (hback : ∀ b ∈ back, c.bufRef (.buf b) = 0)
    (hfront : ∀ b ∈ front.getLast?, 0 < c.bufRef (.buf b))
    (n : UInt32) (start : BufPtr)
    (hstart : start = ((front ++ back).map .buf).getLastD .head) :
    (∃ b ∈ front ++ back, c.blockNum (.buf b) = n ∧
        c.lookup start n = some (.hit (.buf b), c.takeHit (.buf b))) ∨
      (∀ b ∈ front ++ back, c.blockNum (.buf b) ≠ n) ∧
        ((∃ b rest, back ++ post = b :: rest ∧
            c.lookup start n = some (.miss (.buf b), c.takeMiss n (.buf b))) ∨
          back ++ post = [] ∧ c.lookup start n = some (.exhausted, c)) := by
  have hnodup : (front ++ back ++ post).Nodup :=
    List.Nodup.of_map _ (List.nodup_cons.mp hring.nodup).2
  have hlength : (front ++ back ++ post).length ≤ nBlockBuf := by
    simpa using hnodup.length_le_card
  simp only [List.length_append] at hlength
  have hpath := hring.path
  have hseam := Links.path_seam (k := c.links) (a := .head) (b := .head)
    ((front ++ back).map .buf) (post.map .buf)
    (by rwa [← List.map_append])
  have holdest := Links.path_seam (k := c.links) (a := .head) (b := .head)
    (front.map .buf) ((back ++ post).map .buf)
    (by rwa [← List.map_append, ← List.append_assoc])
  -- the path up to the start, seen from the node behind it
  have hprefix : c.links.Path .head ((front ++ back).map .buf)
      ((post.map .buf).headD .head) := by
    cases post with
    | nil => simpa using hpath
    | cons b post =>
        rw [List.map_append, List.map_cons, Links.path_append] at hpath
        exact hpath.1
  have hfree := scanFree_spec (n := n) hprefix hback hfront
    (show back.length < scanFuel by unfold scanFuel; omega)
  rw [hseam.2, ← hstart] at hfree
  rcases hfree with ⟨b, hb, hlabel, hfound⟩ | ⟨hnone, hstopped⟩
  · left
    refine ⟨b, List.mem_append_right _ hb, hlabel, ?_⟩
    simp [lookup, hfound]
  · have hout : ((back ++ post).map BufPtr.buf).headD .head ∉
        front.map BufPtr.buf := by
      cases hrest : back ++ post with
      | nil => simp
      | cons b rest =>
          rw [List.append_assoc, hrest, List.nodup_append] at hnodup
          rw [List.map_cons, List.headD_cons, mem_map_buf]
          intro hb
          exact hnodup.2.2 b hb b (by simp) rfl
    have hused := scanUsed_spec (c := c) (n := n) (a := .head)
      (by rwa [← List.map_append, ← List.append_assoc]) hout
      (show front.length < scanFuel by unfold scanFuel; omega)
    rw [← holdest.1] at hused
    rcases hused with ⟨b, hb, hlabel, hfound⟩ | ⟨hnone', hstopped'⟩
    · left
      refine ⟨b, List.mem_append_left _ hb, hlabel, ?_⟩
      simp only [lookup, hstopped, hfound]
    · right
      refine ⟨?_, ?_⟩
      · intro b hb
        rcases List.mem_append.mp hb with hb | hb
        · exact hnone' b hb
        · exact hnone b hb
      · cases hrest : back ++ post with
        | nil =>
            right
            rw [hrest, List.map_nil, List.headD_nil] at holdest
            refine ⟨rfl, ?_⟩
            simp only [lookup, hstopped, hstopped']
            rw [if_neg (not_not.mpr holdest.1)]
        | cons b rest =>
            left
            rw [hrest, List.map_cons, List.headD_cons] at holdest
            refine ⟨b, rest, rfl, ?_⟩
            simp only [lookup, hstopped, hstopped']
            rw [holdest.1, if_pos (by simp)]

theorem Wf.lookup_fresh {used free : List BufId} (h : c.Wf used free)
    (n : UInt32) :
    (∃ b, c.blockNum (.buf b) = n ∧ c.lookup (c.links.prev .head) n =
        some (.hit (.buf b), c.takeHit (.buf b))) ∨
      (∀ b, c.blockNum (.buf b) ≠ n) ∧
        ((∃ b rest, free = b :: rest ∧ c.lookup (c.links.prev .head) n =
            some (.miss (.buf b), c.takeMiss n (.buf b))) ∨
          free = [] ∧
            c.lookup (c.links.prev .head) n = some (.exhausted, c)) := by
  have hstart := (Links.path_seam (k := c.links) (a := .head) (b := .head)
    ((used ++ free).map .buf) []
    (by rw [List.append_nil]; exact h.ring.path)).2
  have hlast : ∀ b ∈ used.getLast?, 0 < c.bufRef (.buf b) := by
    intro b hb
    exact h.used_ref b (List.mem_of_getLast? hb)
  have hring : c.links.Ring .head ((used ++ free ++ []).map .buf) := by
    rw [List.append_nil]
    exact h.ring
  rcases lookup_cases _ _ _ hring h.free_ref hlast n _ hstart with
    ⟨b, -, hlabel, hhit⟩ | ⟨hnone, hrest⟩
  · exact .inl ⟨b, hlabel, hhit⟩
  · rw [List.append_nil] at hrest
    exact .inr ⟨fun b => hnone b (h.all b), hrest⟩

end

/-! `buf_init` links the buffers one by one behind the sentinel. -/

theorem initBuf_ring {c : BufCache} {b : BufId} {l : List BufId}
    (hring : c.links.Ring .head (l.map .buf))
    (hnull : c.links.next (.buf b) = .null) (hb : b ∉ l) :
    (initBuf c b).links.Ring .head ((b :: l).map .buf) := by
  unfold initBuf insertHead
  simp only [hnull, ne_eq, not_true_eq_false, false_and, if_false, if_true]
  refine hring.pushFront ?_
  simpa [mem_map_buf] using hb

theorem initBuf_null {c : BufCache} {a b : BufId}
    (hnull : c.links.next (.buf b) = .null)
    (hnull' : c.links.next (.buf a) = .null) (hab : a ≠ b) :
    (initBuf c b).links.next (.buf a) = .null := by
  unfold initBuf insertHead
  simp only [hnull, ne_eq, not_true_eq_false, false_and, if_false, if_true]
  simp [Links.pushFront, Links.setNext, Links.setPrev, hab, hnull']

theorem foldl_initBuf (todo done : List BufId) (c : BufCache)
    (hnodup : (done ++ todo).Nodup)
    (hring : c.links.Ring .head (done.map .buf))
    (hnull : ∀ b ∉ done, c.links.next (.buf b) = .null)
    (href : ∀ b, c.bufRef (.buf b) = 0)
    (hlabel : ∀ b ∈ done, c.blockNum (.buf b) = blockNumUnused) :
    let c' := todo.foldl initBuf c
    c'.links.Ring .head ((todo.reverse ++ done).map .buf) ∧
      (∀ b, c'.bufRef (.buf b) = 0) ∧
      ∀ b ∈ todo.reverse ++ done, c'.blockNum (.buf b) = blockNumUnused := by
  induction todo generalizing done c with
  | nil => exact ⟨hring, href, hlabel⟩
  | cons b todo ih =>
      have hb : b ∉ done := by
        intro hb
        exact (List.nodup_append.mp hnodup).2.2 b hb b (by simp) rfl
      rw [List.reverse_cons, List.append_assoc, List.foldl_cons]
      refine ih (b :: done) (initBuf c b) ?_ ?_ ?_ href ?_
      · exact List.nodup_middle.mp hnodup
      · exact initBuf_ring hring (hnull b hb) hb
      · intro a ha
        rw [List.mem_cons, not_or] at ha
        exact initBuf_null (hnull b hb) (hnull a ha.2) ha.1
      · intro a ha
        by_cases hab : a = b
        · simp [initBuf, insertHead, hab]
        · have ha : a ∈ done := by simpa [hab] using ha
          simpa [initBuf, insertHead, hab] using hlabel a ha

theorem wf_bufInit : bufInit.Wf [] (List.finRange nBlockBuf).reverse := by
  have hall : ∀ b : BufId, b ∈ (List.finRange nBlockBuf).reverse := by simp
  have hblank : blank.links.Ring .head ([].map BufPtr.buf) :=
    ⟨⟨rfl, rfl⟩, by simp⟩
  obtain ⟨hring, href, hlabel⟩ := foldl_initBuf (List.finRange nBlockBuf) []
    blank (List.nodup_finRange _) hblank (fun _ _ => rfl) (fun _ => rfl)
    (by simp)
  rw [List.append_nil] at hring hlabel
  refine ⟨hring, hall, by simp, fun b _ => href b, ?_⟩
  intro a b _ hused
  exact absurd (hlabel a (hall a)) hused

end BufCache

end UnoOS.Fs
