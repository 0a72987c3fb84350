import Mathlib

namespace UnoOS.Lib

/-! Lists that are linked by a pointer in each node. -/

variable {ι : Type} {next next' : ι → Option ι} {i j : Option ι} {node : ι}
  {as bs l l' : List ι}

/-- From `i` the nodes of the list lead to `j`. -/
def Trail (next : ι → Option ι) : Option ι → List ι → Option ι → Prop
  | i, [], j => i = j
  | i, node :: rest, j => i = some node ∧ Trail next (next node) rest j

namespace Trail

theorem append : Trail next i (as ++ bs) j ↔ ∃ k, Trail next i as k ∧ Trail next k bs j := by
  induction as generalizing i with
  | nil =>
      constructor
      · exact fun h => ⟨i, rfl, h⟩
      · rintro ⟨_, rfl, h⟩
        exact h
  | cons node as ih =>
      constructor
      · rintro ⟨hi, h⟩
        obtain ⟨k, has, hbs⟩ := ih.mp h
        exact ⟨k, ⟨hi, has⟩, hbs⟩
      · rintro ⟨k, ⟨hi, has⟩, hbs⟩
        exact ⟨hi, ih.mpr ⟨k, has, hbs⟩⟩

theorem append_cons : Trail next i (as ++ node :: bs) j ↔
    Trail next i as (some node) ∧ Trail next (next node) bs j := by
  rw [append]
  constructor
  · rintro ⟨_, has, rfl, hbs⟩
    exact ⟨has, hbs⟩
  · rintro ⟨has, hbs⟩
    exact ⟨_, has, rfl, hbs⟩

theorem congr (h : Trail next i l j) (hnext : ∀ node ∈ l, next' node = next node) :
    Trail next' i l j := by
  induction l generalizing i with
  | nil => exact h
  | cons node rest ih =>
      obtain ⟨hi, hrest⟩ := h
      refine ⟨hi, ?_⟩
      rw [hnext node List.mem_cons_self]
      exact ih hrest fun other hmem => hnext other (List.mem_cons_of_mem node hmem)

theorem unique (h : Trail next i l none) (h' : Trail next i l' none) : l = l' := by
  induction l generalizing i l' with
  | nil =>
      cases l' with
      | nil => rfl
      | cons node rest => cases h.symm.trans h'.1
  | cons node rest ih =>
      cases l' with
      | nil => cases h'.symm.trans h.1
      | cons node' rest' =>
          cases h.1.symm.trans h'.1
          rw [ih h.2 h'.2]

/-- A list that ends does not go in a circle. -/
theorem nodup (h : Trail next i l none) : l.Nodup := by
  induction l generalizing i with
  | nil => exact List.nodup_nil
  | cons node rest ih =>
      refine List.nodup_cons.mpr ⟨?_, ih h.2⟩
      intro hmem
      -- the list from the second place of the node on would be the whole list
      obtain ⟨before, after, rfl⟩ := List.append_of_mem hmem
      have hwhole : Trail next (next node) (before ++ node :: after) none := h.2
      have hagain := (append_cons.mp hwhole).2.unique hwhole
      have hlength := congrArg List.length hagain
      rw [List.length_append, List.length_cons] at hlength
      omega

theorem insert {prev new : ι} (h : Trail next i (as ++ prev :: bs) none)
    (hprev : next' prev = some new) (hnew : next' new = next prev)
    (hother : ∀ node ∈ as ++ bs, next' node = next node) :
    Trail next' i (as ++ prev :: new :: bs) none := by
  obtain ⟨has, hbs⟩ := append_cons.mp h
  refine append_cons.mpr ⟨has.congr fun node hmem => ?_, hprev, ?_⟩
  · exact hother node (List.mem_append_left bs hmem)
  · rw [hnew]
    exact hbs.congr fun node hmem => hother node (List.mem_append_right as hmem)

theorem length_le [Fintype ι] (h : Trail next i l none) : l.length ≤ Fintype.card ι :=
  h.nodup.length_le_card

end Trail

end UnoOS.Lib
