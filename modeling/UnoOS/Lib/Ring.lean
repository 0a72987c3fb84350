import Mathlib

namespace UnoOS.Lib

/-! Circular doubly linked lists through a sentinel, as a pair of pointer
fields.  The operations are the pointer writes a program makes; the lemmas say
which list the pointers describe afterwards. -/

structure Links (P : Type) where
  next : P → P
  prev : P → P

namespace Links

variable {P : Type} [DecidableEq P]

def setNext (k : Links P) (p q : P) : Links P :=
  { k with next := Function.update k.next p q }

def setPrev (k : Links P) (p q : P) : Links P :=
  { k with prev := Function.update k.prev p q }

def unlink (k : Links P) (x : P) : Links P :=
  let k := k.setPrev (k.next x) (k.prev x)
  k.setNext (k.prev x) (k.next x)

def pushFront (k : Links P) (h x : P) : Links P :=
  let k := k.setPrev x h
  let k := k.setNext x (k.next h)
  let k := k.setPrev (k.next h) x
  k.setNext h x

def pushBack (k : Links P) (h x : P) : Links P :=
  let k := k.setNext x h
  let k := k.setPrev x (k.prev h)
  let k := k.setNext (k.prev h) x
  k.setPrev h x

omit [DecidableEq P] in
/-- The pointers lead from `a` through the nodes of the list to `b` and back. -/
def Path (k : Links P) : P → List P → P → Prop
  | a, [], b => k.next a = b ∧ k.prev b = a
  | a, x :: l, b => k.next a = x ∧ k.prev x = a ∧ Path k x l b

/-- The pointers form a ring through `h` and the nodes of the list, each once. -/
structure Ring (k : Links P) (h : P) (l : List P) : Prop where
  path : k.Path h l h
  nodup : (h :: l).Nodup

omit [DecidableEq P] in
theorem path_append {k : Links P} {a b x : P} {l l' : List P} :
    k.Path a (l ++ x :: l') b ↔ k.Path a l x ∧ k.Path x l' b := by
  induction l generalizing a with
  | nil => simp [Path, and_assoc]
  | cons y l ih => simp [Path, ih, and_assoc]

omit [DecidableEq P] in
/-- Only the `next` fields before and the `prev` fields behind matter. -/
theorem path_congr {k k' : Links P} {a b : P} {l : List P}
    (hnext : ∀ p ∈ a :: l, k'.next p = k.next p)
    (hprev : ∀ p ∈ l ++ [b], k'.prev p = k.prev p)
    (h : k.Path a l b) : k'.Path a l b := by
  induction l generalizing a with
  | nil =>
      refine ⟨?_, ?_⟩
      · rw [hnext a (by simp)]
        exact h.1
      · rw [hprev b (by simp)]
        exact h.2
  | cons x l ih =>
      obtain ⟨hfirst, hback, hrest⟩ := h
      refine ⟨?_, ?_, ih ?_ ?_ hrest⟩
      · rw [hnext a (by simp)]
        exact hfirst
      · rw [hprev x (by simp)]
        exact hback
      · intro p hp
        exact hnext p (List.mem_cons_of_mem _ hp)
      · intro p hp
        exact hprev p (List.mem_cons_of_mem _ hp)

omit [DecidableEq P] in
theorem next_mem {k : Links P} {a b : P} {l : List P} (h : k.Path a l b) :
    k.next a ∈ l ++ [b] := by
  cases l with
  | nil => simp [h.1]
  | cons x l => simp [h.1]

omit [DecidableEq P] in
theorem prev_mem {k : Links P} {a b : P} {l : List P} (h : k.Path a l b) :
    k.prev b ∈ a :: l := by
  induction l generalizing a with
  | nil => simp [h.2]
  | cons x l ih => exact List.mem_cons_of_mem _ (ih h.2.2)

omit [DecidableEq P] in
theorem path_seam {k : Links P} {a b : P} (l l' : List P)
    (h : k.Path a (l ++ l') b) :
    k.next (l.getLastD a) = l'.headD b ∧ k.prev (l'.headD b) = l.getLastD a := by
  induction l generalizing a with
  | nil =>
      cases l' with
      | nil => exact h
      | cons x l' => exact ⟨h.1, h.2.1⟩
  | cons x l ih =>
      rw [List.getLastD_cons]
      exact ih h.2.2

omit [DecidableEq P] in
theorem Ring.inverse {k : Links P} {h p : P} {l : List P} (hring : k.Ring h l)
    (hp : p ∈ h :: l) : k.prev (k.next p) = p ∧ k.next (k.prev p) = p := by
  obtain ⟨front, rest, hsplit⟩ := List.append_of_mem hp
  constructor
  · -- the seam behind `p`
    cases front with
    | nil =>
        obtain ⟨rfl, rfl⟩ := List.cons.inj hsplit
        obtain ⟨hnext, hprev⟩ := path_seam [] _ hring.path
        rw [List.getLastD_nil] at hnext hprev
        rw [hnext, hprev]
    | cons x front =>
        obtain ⟨rfl, rfl⟩ := List.cons.inj hsplit
        obtain ⟨hnext, hprev⟩ := path_seam (front ++ [p]) rest
          (by simpa using hring.path)
        rw [List.getLastD_concat] at hnext hprev
        rw [hnext, hprev]
  · -- the seam before `p`
    cases front with
    | nil =>
        obtain ⟨rfl, rfl⟩ := List.cons.inj hsplit
        obtain ⟨hnext, hprev⟩ := path_seam _ []
          (by rw [List.append_nil]; exact hring.path)
        rw [List.headD_nil] at hnext hprev
        rw [hprev, hnext]
    | cons x front =>
        obtain ⟨rfl, rfl⟩ := List.cons.inj hsplit
        obtain ⟨hnext, hprev⟩ := path_seam _ _ hring.path
        rw [List.headD_cons] at hnext hprev
        rw [hprev, hnext]

omit [DecidableEq P] in
theorem path_unique {k : Links P} {a b : P} {l l' : List P}
    (h : k.Path a l b) (h' : k.Path a l' b) (hb : b ∉ l) (hb' : b ∉ l') :
    l = l' := by
  induction l generalizing a l' with
  | nil =>
      cases l' with
      | nil => rfl
      | cons y l' =>
          have hy : b = y := h.1.symm.trans h'.1
          exact absurd (by simp [hy]) hb'
  | cons x l ih =>
      cases l' with
      | nil =>
          have hx : b = x := h'.1.symm.trans h.1
          exact absurd (by simp [hx]) hb
      | cons y l' =>
          have hxy : x = y := h.1.symm.trans h'.1
          subst hxy
          rw [ih h.2.2 h'.2.2 (List.not_mem_of_not_mem_cons hb)
            (List.not_mem_of_not_mem_cons hb')]

omit [DecidableEq P] in
theorem Ring.unique {k : Links P} {h : P} {l l' : List P} (hring : k.Ring h l)
    (hring' : k.Ring h l') : l = l' :=
  path_unique hring.path hring'.path (List.nodup_cons.mp hring.nodup).1
    (List.nodup_cons.mp hring'.nodup).1

theorem path_bridge {k : Links P} {a x b : P} {l l' : List P}
    (hfirst : k.Path a l x) (hsecond : k.Path x l' b)
    (hnodup : (a :: (l ++ l')).Nodup) (hb : b ∉ l ++ l') :
    ((k.setPrev (k.next x) (k.prev x)).setNext (k.prev x) (k.next x)).Path
      a (l ++ l') b := by
  induction l generalizing a with
  | nil =>
      obtain ⟨_, hback⟩ := hfirst
      rw [hback]
      cases l' with
      | nil =>
          obtain ⟨hnext, _⟩ := hsecond
          rw [hnext]
          exact ⟨by simp [setNext], by simp [setPrev, setNext]⟩
      | cons y l' =>
          obtain ⟨hnext, _, hrest⟩ := hsecond
          rw [hnext]
          simp only [List.nil_append, List.nodup_cons, List.mem_cons,
            not_or] at hnodup hb
          refine ⟨by simp [setNext], by simp [setPrev, setNext], ?_⟩
          refine path_congr ?_ ?_ hrest
          · intro p hp
            have hne : p ≠ a := by
              rintro rfl
              rcases List.mem_cons.mp hp with rfl | hp
              · exact hnodup.1.1 rfl
              · exact hnodup.1.2 hp
            simp [setNext, setPrev, hne]
          · intro p hp
            have hne : p ≠ y := by
              rintro rfl
              rcases List.mem_append.mp hp with hp | hp
              · exact hnodup.2.1 hp
              · exact hb.1 (List.mem_singleton.mp hp).symm
            simp [setPrev, setNext, hne]
  | cons y l ih =>
      obtain ⟨hnext, hback, hrest⟩ := hfirst
      simp only [List.cons_append, List.nodup_cons, List.mem_cons, not_or]
        at hnodup hb
      have htail := ih hrest (by simpa using hnodup.2) hb.2
      have hlast : k.prev x ∈ y :: l := prev_mem hrest
      have hahead : k.next x ∈ l' ++ [b] := next_mem hsecond
      refine ⟨?_, ?_, htail⟩
      · have hne : a ≠ k.prev x := by
          intro heq
          rw [← heq] at hlast
          rcases List.mem_cons.mp hlast with heq | hmem
          · exact hnodup.1.1 heq
          · exact hnodup.1.2 (List.mem_append_left _ hmem)
        simp [setNext, setPrev, hne, hnext]
      · have hne : y ≠ k.next x := by
          intro heq
          rw [← heq] at hahead
          rcases List.mem_append.mp hahead with hmem | hmem
          · exact hnodup.2.1 (List.mem_append_right _ hmem)
          · exact hb.1 (List.mem_singleton.mp hmem).symm
        simp [setNext, setPrev, hne, hback]

theorem Ring.unlink {k : Links P} {h x : P} {l l' : List P}
    (hring : k.Ring h (l ++ x :: l')) : (k.unlink x).Ring h (l ++ l') := by
  obtain ⟨hpath, hnodup⟩ := hring
  obtain ⟨hfirst, hsecond⟩ := path_append.mp hpath
  have hsub : (l ++ l').Sublist (l ++ x :: l') :=
    List.Sublist.append_left (List.sublist_cons_self x l') l
  have hnodup' : (h :: (l ++ l')).Nodup := hnodup.sublist (hsub.cons_cons h)
  refine ⟨?_, hnodup'⟩
  have hbridge := path_bridge hfirst hsecond hnodup'
    (List.nodup_cons.mp hnodup').1
  have hprev : (k.setPrev (k.next x) (k.prev x)).prev x = k.prev x := by
    have hne : x ≠ k.next x := by
      intro heq
      have hmem := next_mem hsecond
      rw [← heq] at hmem
      have hparts := List.nodup_append.mp (List.nodup_cons.mp hnodup).2
      rcases List.mem_append.mp hmem with hmem | hmem
      · exact (List.nodup_cons.mp hparts.2.1).1 hmem
      · have hx : x = h := List.mem_singleton.mp hmem
        exact (List.nodup_cons.mp hnodup).1 (by simp [hx])
    simp [setPrev, hne]
  unfold Links.unlink
  dsimp only
  rw [hprev]
  exact hbridge

theorem Ring.pushFront {k : Links P} {h x : P} {l : List P}
    (hring : k.Ring h l) (hx : x ∉ h :: l) :
    (k.pushFront h x).Ring h (x :: l) := by
  obtain ⟨hpath, hnodup⟩ := hring
  have hxh : x ≠ h := fun heq => hx (by simp [heq])
  have hxl : x ∉ l := fun hmem => hx (List.mem_cons_of_mem _ hmem)
  have hhl : h ∉ l := (List.nodup_cons.mp hnodup).1
  refine ⟨?_, ?_⟩
  · unfold Links.pushFront
    dsimp only
    cases l with
    | nil =>
        obtain ⟨hnext, _⟩ := hpath
        refine ⟨by simp [setNext], ?_, ?_, ?_⟩
        · simp [setNext, setPrev, hnext, hxh, Ne.symm hxh]
        · simp [setNext, setPrev, hnext, hxh]
        · simp [setNext, setPrev, hnext, Ne.symm hxh]
    | cons y l =>
        obtain ⟨hnext, _, hrest⟩ := hpath
        have hxy : x ≠ y := fun heq => hxl (by simp [heq])
        have hhy : h ≠ y := fun heq => hhl (by simp [heq])
        refine ⟨by simp [setNext], ?_, ?_, ?_, ?_⟩
        · simp [setNext, setPrev, hnext, Ne.symm hxh, hxy]
        · simp [setNext, setPrev, hnext, hxh]
        · simp [setNext, setPrev, hnext, Ne.symm hxh]
        · refine path_congr ?_ ?_ hrest
          · intro p hp
            have hpx : p ≠ x := fun heq => hxl (heq ▸ hp)
            have hph : p ≠ h := fun heq => hhl (heq ▸ hp)
            simp [setNext, setPrev, hpx, hph]
          · intro p hp
            have hpy : p ≠ y := by
              rintro rfl
              rcases List.mem_append.mp hp with hp | hp
              · exact (List.nodup_cons.mp (List.nodup_cons.mp hnodup).2).1 hp
              · exact hhy (List.mem_singleton.mp hp).symm
            have hpx : p ≠ x := by
              rintro rfl
              rcases List.mem_append.mp hp with hp | hp
              · exact hxl (List.mem_cons_of_mem _ hp)
              · exact hxh (List.mem_singleton.mp hp)
            simp [setNext, setPrev, hnext, Ne.symm hxh, hpy, hpx]
  · exact List.nodup_cons.mpr ⟨by
      simp only [List.mem_cons, not_or]
      exact ⟨Ne.symm hxh, hhl⟩,
      List.nodup_cons.mpr ⟨hxl, (List.nodup_cons.mp hnodup).2⟩⟩

/-! Reading the ring in the other direction swaps the two ends. -/

omit [DecidableEq P] in
def flip (k : Links P) : Links P := ⟨k.prev, k.next⟩

omit [DecidableEq P] in
theorem path_flip {k : Links P} {a b : P} {l : List P} (h : k.Path a l b) :
    k.flip.Path b l.reverse a := by
  induction l generalizing a with
  | nil => exact ⟨h.2, h.1⟩
  | cons x l ih =>
      obtain ⟨hnext, hback, hrest⟩ := h
      rw [List.reverse_cons]
      exact path_append.mpr ⟨ih hrest, hback, hnext⟩

omit [DecidableEq P] in
theorem Ring.flip {k : Links P} {h : P} {l : List P} (hring : k.Ring h l) :
    k.flip.Ring h l.reverse := by
  refine ⟨path_flip hring.path, ?_⟩
  have hparts := List.nodup_cons.mp hring.nodup
  exact List.nodup_cons.mpr ⟨by simpa using hparts.1,
    List.nodup_reverse.mpr hparts.2⟩

theorem Ring.pushBack {k : Links P} {h x : P} {l : List P}
    (hring : k.Ring h l) (hx : x ∉ h :: l) :
    (k.pushBack h x).Ring h (l ++ [x]) := by
  have hback := (hring.flip.pushFront (x := x) (by simpa using hx)).flip
  rw [List.reverse_cons, List.reverse_reverse] at hback
  exact hback

end Links

end UnoOS.Lib
