import UnoOS.Fs.DirMap

namespace UnoOS.Fs

open UnoOS.Lib

/-! The components of a path: what stands between its slashes, cut to the length
of a name. -/

def components (path : List UInt8) : List (List UInt8) :=
  ((path.splitOn slash).filter (· ≠ [])).map (List.take (dirNameLen - 1))

section

variable {path rest : List UInt8} {c : List UInt8} {cs : List (List UInt8)}

theorem components_slash (path : List UInt8) :
    components (slash :: path) = components path := by
  unfold components
  rw [List.splitOn_eq_splitOnP, List.splitOn_eq_splitOnP,
    List.splitOnP_cons_eq_if_modifyHead, if_pos (by simp)]
  rfl

theorem components_dropSlashes (path : List UInt8) :
    components (path.dropWhile (· = slash)) = components path := by
  induction path with
  | nil => rfl
  | cons byte path ih =>
      by_cases hbyte : byte = slash
      · rw [List.dropWhile_cons_of_pos (by simpa using hbyte), ih, hbyte,
          components_slash]
      · rw [List.dropWhile_cons_of_neg (by simpa using hbyte)]

/-- An element that is not empty and ends at a slash or with the path. -/
theorem components_append {element : List UInt8} (hne : element ≠ [])
    (hall : ∀ b ∈ element, b ≠ slash) (hrest : ∀ b ∈ rest.head?, b = slash) :
    components (element ++ rest) =
      element.take (dirNameLen - 1) :: components rest := by
  have hnone : ∀ b ∈ element, (b == slash) = false :=
    fun b hb => beq_eq_false_iff_ne.mpr (hall b hb)
  cases rest with
  | nil =>
      rw [List.append_nil]
      unfold components
      rw [List.splitOn_eq_splitOnP, List.splitOnP_eq_singleton hnone,
        List.filter_cons_of_pos (by simpa using hne)]
      rfl
  | cons b rest =>
      rw [hrest b rfl, components_slash]
      unfold components
      rw [List.splitOn_eq_splitOnP, List.splitOnP_append_cons_of_forall_mem hnone
        _ (by simp), List.filter_cons_of_pos (by simpa using hne)]
      rfl

/-- The first element of a path that does not begin with a slash. -/
theorem components_element {byte : UInt8} (hbyte : byte ≠ slash)
    (path : List UInt8) :
    components (byte :: path) =
      ((byte :: path).takeWhile (· ≠ slash)).take (dirNameLen - 1) ::
        components ((byte :: path).dropWhile (· ≠ slash)) := by
  have hhead := List.head?_dropWhile_not
    (fun b : UInt8 => decide (b ≠ slash)) (byte :: path)
  conv_lhs => rw [← List.takeWhile_append_dropWhile
    (p := fun b : UInt8 => decide (b ≠ slash)) (l := byte :: path)]
  refine components_append ?_ ?_ ?_
  · rw [List.takeWhile_cons_of_pos (by simpa using hbyte)]
    exact List.cons_ne_nil _ _
  · intro b hb
    simpa using List.mem_takeWhile_imp hb
  · intro b hb
    rw [hb] at hhead
    simpa using hhead

theorem head?_dropSlashes (path : List UInt8) :
    (path.dropWhile (· = slash)).head? ≠ some slash := by
  intro h
  have hnot := List.head?_dropWhile_not (fun b => decide (b = slash)) path
  rw [h] at hnot
  simp at hnot

theorem components_eq_nil_iff :
    components path = [] ↔ path.dropWhile (· = slash) = [] := by
  rw [← components_dropSlashes path]
  have hhead := head?_dropSlashes path
  cases hdrop : path.dropWhile (· = slash) with
  | nil => exact iff_of_true rfl rfl
  | cons byte rest =>
      rw [hdrop] at hhead
      rw [components_element (by simpa using hhead)]
      exact iff_of_false (List.cons_ne_nil _ _) (List.cons_ne_nil _ _)

/-! `skip_element` takes the first component off. -/

theorem skipElement_of_nil (h : components path = []) (name : Name) :
    skipElement path name = (none, name) := by
  unfold skipElement
  exact if_pos (components_eq_nil_iff.mp h)

theorem skipElement_of_cons (h : components path = c :: cs) (name : Name) :
    ∃ rest, skipElement path name = (some rest, copyString c name) ∧
      components rest = cs ∧ (rest = [] ↔ cs = []) ∧
      rest.length < path.length := by
  have hhead := head?_dropSlashes path
  have hlength := List.length_dropWhile_le (fun b => decide (b = slash)) path
  rw [← components_dropSlashes path] at h
  unfold skipElement
  cases hdrop : path.dropWhile (· = slash) with
  | nil =>
      rw [hdrop] at h
      cases h
  | cons byte tail =>
      rw [hdrop] at h hhead hlength
      have hbyte : byte ≠ slash := by simpa using hhead
      rw [components_element hbyte, List.cons.injEq] at h
      have hrest := components_dropSlashes ((byte :: tail).dropWhile (· ≠ slash))
      refine ⟨_, ?_, hrest.trans h.2, ?_, ?_⟩
      · dsimp only
        rw [if_neg (List.cons_ne_nil _ _), h.1]
      · rw [← components_eq_nil_iff, h.2]
      · have hshort := List.length_dropWhile_le (fun b => decide (b = slash))
          ((byte :: tail).dropWhile (· ≠ slash))
        rw [List.dropWhile_cons_of_pos (by simpa using hbyte)] at hshort ⊢
        have htail := List.length_dropWhile_le (fun b => decide (b ≠ slash)) tail
        rw [List.length_cons] at hlength
        omega

/-! Components as names. -/

theorem length_le_of_mem_components (h : c ∈ components path) :
    c.length ≤ dirNameLen - 1 := by
  unfold components at h
  obtain ⟨element, _, rfl⟩ := List.mem_map.mp h
  exact List.length_take_le _ _

theorem textFrom_eq {buffer : Name} {fuel i : Nat} (hfuel : c.length < fuel)
    (hbytes : ∀ k, k ≤ c.length → buffer.get (i + k) = c.getD k 0)
    (hzero : 0 ∉ c) : textFrom buffer fuel i = c := by
  induction c generalizing fuel i with
  | nil =>
      cases fuel with
      | zero => cases hfuel
      | succ fuel =>
          unfold textFrom
          exact if_pos (hbytes 0 le_rfl)
  | cons byte c ih =>
      cases fuel with
      | zero => cases hfuel
      | succ fuel =>
          have hfirst : buffer.get i = byte := hbytes 0 (Nat.zero_le _)
          rw [List.mem_cons, not_or] at hzero
          unfold textFrom
          rw [hfirst, if_neg (Ne.symm hzero.1), ih (by simpa using hfuel) _ hzero.2]
          intro k hk
          rw [Nat.add_assoc, Nat.add_comm 1]
          exact hbytes (k + 1) (by simpa using hk)

theorem nameText_copyString (hlength : c.length < dirNameLen) (hzero : 0 ∉ c)
    (name : Name) : nameText (copyString c name) = c := by
  refine textFrom_eq hlength (fun k hk => ?_) hzero
  unfold copyString
  rw [Nat.zero_add, Bytes.get_patch_of_mem _ _ (by omega) (by omega) (by omega),
    Nat.sub_zero]

theorem mem_of_mem_splitOnP {α : Type} {p : α → Bool} {l element : List α} {a : α}
    (helement : element ∈ l.splitOnP p) (ha : a ∈ element) : a ∈ l := by
  induction l generalizing element with
  | nil =>
      rw [List.splitOnP_nil, List.mem_singleton] at helement
      rwa [helement] at ha
  | cons x l ih =>
      rw [List.splitOnP_cons_eq_if_modifyHead] at helement
      split at helement
      · rcases List.mem_cons.mp helement with rfl | hlater
        · cases ha
        · exact List.mem_cons_of_mem _ (ih hlater ha)
      · cases hsplit : l.splitOnP p with
        | nil =>
            rw [hsplit] at helement
            cases helement
        | cons first later =>
            rw [hsplit] at helement ih
            rcases List.mem_cons.mp helement with rfl | hlater
            · rcases List.mem_cons.mp ha with rfl | hfirst
              · exact List.mem_cons_self
              · exact List.mem_cons_of_mem _ (ih List.mem_cons_self hfirst)
            · exact List.mem_cons_of_mem _
                (ih (List.mem_cons_of_mem _ hlater) ha)

theorem zero_not_mem_of_mem_components (hpath : 0 ∉ path)
    (h : c ∈ components path) : 0 ∉ c := by
  unfold components at h
  obtain ⟨element, helement, rfl⟩ := List.mem_map.mp h
  exact fun hzero => hpath (mem_of_mem_splitOnP (List.mem_of_mem_filter helement)
    (List.mem_of_mem_take hzero))

theorem nameText_component (hpath : 0 ∉ path) (h : c ∈ components path)
    (name : Name) : nameText (copyString c name) = c := by
  have hlength := length_le_of_mem_components h
  unfold dirNameLen at hlength
  exact nameText_copyString (by unfold dirNameLen; omega)
    (zero_not_mem_of_mem_components hpath h) name

end

end UnoOS.Fs
