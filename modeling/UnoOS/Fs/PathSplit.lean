import UnoOS.Fs.Path

namespace UnoOS.Fs

open UnoOS.Lib

/-! `skip_element` from the start of a path until it finds no element. -/

theorem skipElement_shorter {path rest : List UInt8} {name : Name}
    (h : (skipElement path name).1 = some rest) : rest.length < path.length := by
  cases hcomponents : components path with
  | nil =>
      rw [skipElement_of_nil hcomponents] at h
      cases h
  | cons c cs =>
      obtain ⟨rest', hskip, _, _, hshort⟩ := skipElement_of_cons hcomponents name
      rw [hskip] at h
      cases h
      exact hshort

def splitPath (path : List UInt8) (name : Name) : List (Name × List UInt8) :=
  match _hskip : (skipElement path name).1 with
  | none => []
  | some rest =>
      let name := (skipElement path name).2
      (name, rest) :: splitPath rest name
termination_by path.length
decreasing_by exact skipElement_shorter _hskip

section

variable {path rest : List UInt8} {c : List UInt8} {cs : List (List UInt8)}

theorem splitPath_of_nil (h : components path = []) (name : Name) :
    splitPath path name = [] := by
  rw [splitPath]
  split
  · rfl
  · next rest hskip =>
    rw [skipElement_of_nil h] at hskip
    cases hskip

theorem splitPath_of_cons (h : components path = c :: cs) (name : Name) :
    ∃ rest, splitPath path name =
        (copyString c name, rest) :: splitPath rest (copyString c name) ∧
      components rest = cs ∧ (rest = [] ↔ cs = []) ∧ rest <:+ path ∧
      rest.length < path.length := by
  obtain ⟨rest, hskip, hrest, hlast, hshort⟩ := skipElement_of_cons h name
  refine ⟨rest, ?_, hrest, hlast, ?_, hshort⟩
  · rw [splitPath]
    split
    · next hnone =>
      rw [hskip] at hnone
      cases hnone
    · next rest' hsome =>
      rw [hskip] at hsome ⊢
      cases hsome
      rfl
  · unfold skipElement at hskip
    dsimp only at hskip
    split at hskip
    · cases hskip
    · obtain ⟨hsome, _⟩ := Prod.mk.inj hskip
      cases hsome
      exact (List.dropWhile_suffix _).trans
        ((List.dropWhile_suffix _).trans (List.dropWhile_suffix _))

theorem terminated_copyString (hlength : c.length < dirNameLen) (name : Name) :
    (copyString c name).get c.length = 0 := by
  unfold copyString
  rw [Bytes.get_patch_of_mem _ _ (by omega) (by omega) (by omega), Nat.sub_zero,
    List.getD_eq_default _ _ (le_refl _)]

end

/-- A path is split into what stands between its slashes, cut to the length of a name;
the path that is left is empty behind the last element only. -/
theorem path_split (path : List UInt8) (hpath : 0 ∉ path) (name : Name) :
    (splitPath path name).map (fun e => nameText e.1) = components path ∧
    (∀ e ∈ splitPath path name, (nameText e.1).length < dirNameLen ∧
      e.1.get (nameText e.1).length = 0 ∧ e.2 <:+ path) ∧
    ∀ before e after, splitPath path name = before ++ e :: after →
      (e.2 = [] ↔ after = []) := by
  induction hcount : path.length using Nat.strongRecOn generalizing path name with
  | ind count ih =>
      cases hcomponents : components path with
      | nil =>
          rw [splitPath_of_nil hcomponents]
          refine ⟨rfl, fun e he => absurd he List.not_mem_nil, ?_⟩
          intro before e after h
          exact absurd h.symm (by simp)
      | cons c cs =>
          obtain ⟨rest, hsplit, hrest, hlast, hsuffix, hshort⟩ :=
            splitPath_of_cons hcomponents name
          have hmem : c ∈ components path := by
            rw [hcomponents]
            exact List.mem_cons_self
          have htext := nameText_component hpath hmem name
          have hlength : c.length < dirNameLen := by
            have hle := length_le_of_mem_components hmem
            unfold dirNameLen at hle ⊢
            omega
          obtain ⟨htexts, hnames, hends⟩ := ih rest.length (hcount ▸ hshort) rest
            (fun hzero => hpath (hsuffix.subset hzero)) (copyString c name) rfl
          rw [hsplit]
          refine ⟨?_, ?_, ?_⟩
          · rw [List.map_cons, htexts, hrest, htext]
          · intro e he
            rcases List.mem_cons.mp he with rfl | he
            · dsimp only
              rw [htext]
              exact ⟨hlength, terminated_copyString hlength name, hsuffix⟩
            · obtain ⟨hshort', hnul, hsuffix'⟩ := hnames e he
              exact ⟨hshort', hnul, hsuffix'.trans hsuffix⟩
          · intro before e after h
            cases before with
            | nil =>
                obtain ⟨rfl, rfl⟩ := List.cons.inj h
                rw [hlast, ← hrest, ← htexts, List.map_eq_nil_iff]
            | cons first before =>
                exact hends before e after (List.cons.inj h).2

/-- `"//ab/c/"` has two elements. -/
theorem path_split_two :
    (splitPath [47, 47, 97, 98, 47, 99, 47] 0).map (fun e => nameText e.1) =
      [[97, 98], [99]] :=
  (path_split [47, 47, 97, 98, 47, 99, 47] (by decide) 0).1.trans (by decide)

end UnoOS.Fs
