import UnoOS.Lib.Downward
import UnoOS.Uvm.NewImage

namespace UnoOS.Uvm

open UnoOS.Lib
open UnoOS.Lib.Downward
open UnoOS.Mem

/-! What `proc_exec` puts on the stack of the new image. -/

variable {s s' : MemState} {roots : Set UInt64} {lk lu : List UInt64}
  {tfs : Set UInt64} {root f dst : UInt64} {src : Nat → UInt8} {len : UInt32}

/-! `uvm_copyout` into the page. -/

structure StackPage (s : MemState) (roots : Set UInt64) (lk lu : List UInt64)
    (tfs : Set UInt64) (root f : UInt64) : Prop where
  spaces : Spaces s roots lk lu tfs ∅
  table : root ∈ roots
  frame : userFrame s.mem root (trapframe - pgsize) = some f

theorem stackPage_toNat : (trapframe - pgsize).toNat = 2 ^ 38 - 12288 := rfl

theorem StackPage.frame_at (h : StackPage s roots lk lu tfs root f) {x : UInt64}
    (hlow : (trapframe - pgsize).toNat ≤ x.toNat) (hhigh : x.toNat < trapframe.toNat) :
    x < vaMax ∧ userFrame s.mem root x = some f := by
  rw [stackPage_toNat] at hlow
  rw [trapframe_toNat] at hhigh
  have hx : x < vaMax := by
    rw [UInt64.lt_iff_toNat_lt, vaMax_toNat]
    omega
  refine ⟨hx, ?_⟩
  rw [← h.frame]
  refine userFrame_same_page hx (by decide) ?_
  rw [stackPage_toNat]
  omega

theorem StackPage.write (h : StackPage s roots lk lu tfs root f) {m : Memory}
    (honly : OnlyPage f s.mem m) : StackPage (s.setMem m) roots lk lu tfs root f := by
  have hva : trapframe - pgsize < vaMax := by decide
  have hin := h.spaces.frames.userFrame_in h.table hva h.frame
  have honly' : OnlyPage f s.mem (s.setMem m).mem := honly
  obtain ⟨hspaces, _⟩ := h.spaces.write_user h.table hva h.frame honly
  refine ⟨hspaces, h.table, ?_⟩
  rw [Frames.touch_userFrame h.spaces.frames hin honly' h.table]
  exact h.frame

theorem leaf_of_userFrame {va : UInt64} (hf : userFrame s.mem root va = some f) :
    ∃ t, leafTable s.mem root va = some t ∧ pteValid (entry s.mem t (vpn va 0)) ∧
      entry s.mem t (vpn va 0) &&& pteU ≠ 0 ∧ pteToPa (entry s.mem t (vpn va 0)) = f := by
  unfold userFrame Mem.translate at hf
  cases hleaf : leafTable s.mem root va with
  | none =>
      rw [hleaf] at hf
      cases hf
  | some t =>
      rw [hleaf, Option.bind_some] at hf
      unfold validEntry at hf
      split at hf
      · next hvalid =>
        rw [Option.bind_some] at hf
        unfold userEntry at hf
        split at hf
        · next huser => exact ⟨t, rfl, hvalid, huser, Option.some_inj.mp hf⟩
        · cases hf
      · cases hf

theorem uvmCopyout_page (hnonzero : root ≠ 0) (hdst : dst < vaMax)
    (hf : userFrame s.mem root dst = some f) (hpos : 0 < len.toNat)
    (hone : dst.toNat % 4096 + len.toNat ≤ 4096) :
    uvmCopyout root dst src len s =
      .ok ((), s.setMem (s.mem.write (f.toNat + dst.toNat % 4096) len.toNat src)) := by
  have hdown := pgrounddown_toNat dst
  rw [UInt64.lt_iff_toNat_lt, vaMax_toNat] at hdst
  have hsum : (dst + len.toUInt64).toNat = dst.toNat + len.toNat := by
    have hlen := len.toNat_lt
    rw [UInt64.toNat_add, UInt32.toNat_toUInt64]
    exact Nat.mod_eq_of_lt (by omega)
  have hturns : ((dst + len.toUInt64).toNat - (pgrounddown dst).toNat + 4095) / 4096 = 1 := by
    rw [hsum, hdown]
    omega
  have hbeg : pgrounddown dst < vaMax := by
    rw [UInt64.lt_iff_toNat_lt, vaMax_toNat]
    omega
  have hframe : userFrame s.mem root (pgrounddown dst) = some f := by
    rw [← hf]
    refine userFrame_same_page hbeg ?_ (by omega)
    rw [UInt64.lt_iff_toNat_lt, vaMax_toNat]
    exact hdst
  obtain ⟨t, hleaf, hvalid, _, hpa⟩ := leaf_of_userFrame hframe
  have hload : s.mem.load64 (entryAddr t (vpn (pgrounddown dst) 0)) =
      entry s.mem t (vpn (pgrounddown dst) 0) := rfl
  have hle : pgrounddown dst ≤ dst := by
    rw [UInt64.le_iff_toNat_le]
    omega
  have hn : min (4096 - dst.toNat % 4096) len.toNat = len.toNat := by omega
  unfold uvmCopyout
  rw [hturns, copyoutLoop, Exec.bind_of_ok (vmGetpte_reads (UInt64.le_of_lt hbeg) hnonzero s),
    hleaf]
  dsimp only [Option.map_some]
  rw [readMem_bind, hload]
  unfold massert
  rw [Exec.require_of_true hvalid, pure_bind, if_pos hle, hn, hpa, updateMem_bind]
  simp only [Nat.zero_add]
  rfl

theorem StackPage.copyout (h : StackPage s roots lk lu tfs root f) (hpos : 0 < len.toNat)
    (hlow : (trapframe - pgsize).toNat ≤ dst.toNat)
    (hhigh : dst.toNat + len.toNat ≤ trapframe.toNat) :
    ∃ m, uvmCopyout root dst src len s = .ok ((), s.setMem m) ∧
      m = s.mem.write (f.toNat + dst.toNat % 4096) len.toNat src ∧ OnlyPage f s.mem m := by
  obtain ⟨hdst, hf⟩ := h.frame_at hlow (by omega)
  rw [stackPage_toNat] at hlow
  rw [trapframe_toNat] at hhigh
  exact ⟨_, uvmCopyout_page (h.spaces.frames.tables.nonzero root h.table) hdst hf hpos
    (by omega), rfl, onlyPage_write f s.mem _ _ src (by omega)⟩

/-! The layout. -/

def argSize (arg : List UInt8) : Nat := arg.length + 1

def ptrsSize (argv : List (List UInt8)) : Nat := 8 * (argv.length + 1)

/-- The bytes of the page that the arguments take: strings and the array of pointers
behind them, each at a multiple of 16. -/
def marshalled (argv : List (List UInt8)) : Nat :=
  total 16 (argv.map argSize ++ [ptrsSize argv])

def argAreas (argv : List (List UInt8)) (ptrs : List UInt64) (sp : UInt64) :
    List (Nat × Nat) :=
  ((argv.zip ptrs).map fun pair => (pair.2.toNat, argSize pair.1)) ++
    [(sp.toNat, ptrsSize argv)]

theorem spBelow_toNat {sp : UInt64} (hle : len.toNat ≤ sp.toNat) :
    (spBelow sp len).toNat = below 16 sp.toNat len.toNat := by
  have hsub : (sp - len.toUInt64).toNat = sp.toNat - len.toNat := by
    have hlen : len.toUInt64.toNat = len.toNat := UInt32.toNat_toUInt64 len
    rw [UInt64.toNat_sub_of_le _ _ (UInt64.le_iff_toNat_le.mpr (by omega)), hlen]
  have hmod : (sp - len.toUInt64) % 16 ≤ sp - len.toUInt64 := by
    rw [UInt64.le_iff_toNat_le, UInt64.toNat_mod]
    exact Nat.mod_le _ _
  unfold spBelow below
  dsimp only
  rw [UInt64.toNat_sub_of_le _ _ hmod, UInt64.toNat_mod, hsub]
  change _ - _ % 16 = _
  omega

def stackByte (m : Memory) (f : UInt64) (a : Nat) : UInt8 := m (f.toNat + a % 4096)

theorem stackByte_write {m : Memory} {a n x : Nat} {src : Nat → UInt8}
    (ha : (trapframe - pgsize).toNat ≤ a) (hn : a + n ≤ trapframe.toNat)
    (hx : (trapframe - pgsize).toNat ≤ x) (hx' : x < trapframe.toNat) :
    stackByte (m.write (f.toNat + a % 4096) n src) f x =
      if a ≤ x ∧ x < a + n then src (x - a) else stackByte m f x := by
  rw [stackPage_toNat] at ha hx
  rw [trapframe_toNat] at hn hx'
  unfold stackByte
  split
  · rw [Memory.write_of_mem (by omega) (by omega)]
    congr 1
    omega
  · exact Memory.write_of_not_mem (by omega)

/-- The strings of some arguments are on the stack, below `sp`. -/
structure Pushed (f : UInt64) (m m' : Memory) (argv : List (List UInt8)) (sp : UInt64)
    (ptrs : List UInt64) (sp' : UInt64) : Prop where
  areas : ((argv.zip ptrs).map fun pair => (pair.2.toNat, argSize pair.1)) =
    areas 16 sp.toNat (argv.map argSize)
  lowest : sp'.toNat = lowest 16 sp.toNat (argv.map argSize)
  above : ∀ x, sp.toNat ≤ x → x < trapframe.toNat → stackByte m' f x = stackByte m f x
  strings : List.Forall₂ (fun arg ptr => ∀ i, i ≤ arg.length →
    stackByte m' f (ptr.toNat + i) = argBytes arg i) argv ptrs

theorem Pushed.cons {m m₁ m' : Memory} {arg : List UInt8} {argv : List (List UInt8)}
    {sp sp₁ sp' : UInt64} {ptrs : List UInt64}
    (hsp₁ : sp₁.toNat = below 16 sp.toNat (argSize arg))
    (hend : sp₁.toNat + argSize arg ≤ sp.toNat)
    (hlow : (trapframe - pgsize).toNat ≤ sp₁.toNat) (hhigh : sp.toNat ≤ trapframe.toNat)
    (hm₁ : m₁ = m.write (f.toNat + sp₁.toNat % 4096) (argSize arg) (argBytes arg))
    (h : Pushed f m₁ m' argv sp₁ ptrs sp') :
    Pushed f m m' (arg :: argv) sp (sp₁ :: ptrs) sp' := by
  have hwrite : ∀ x, sp₁.toNat ≤ x → x < trapframe.toNat → stackByte m₁ f x =
      if sp₁.toNat ≤ x ∧ x < sp₁.toNat + argSize arg then argBytes arg (x - sp₁.toNat)
      else stackByte m f x := by
    intro x hx hx'
    rw [hm₁]
    exact stackByte_write hlow (by omega) (by omega) hx'
  refine ⟨?_, ?_, ?_, .cons ?_ h.strings⟩
  · rw [List.zip_cons_cons, List.map_cons, List.map_cons, Downward.areas, h.areas, hsp₁]
  · rw [h.lowest, List.map_cons, Downward.lowest, hsp₁]
  · intro x hx hx'
    rw [h.above x (by omega) hx', hwrite x (by omega) hx', if_neg (by omega)]
  · intro i hi
    have hsize : argSize arg = arg.length + 1 := rfl
    rw [h.above _ (Nat.le_add_right _ i) (by omega), hwrite _ (Nat.le_add_right _ i) (by omega),
      if_pos (by omega), Nat.add_sub_cancel_left]

theorem pushArgs_spec {argv : List (List UInt8)} {spList : List UInt64} {sp : UInt64}
    (h : StackPage s roots lk lu tfs root f) (hdvd : 16 ∣ sp.toNat)
    (hlow : (trapframe - pgsize).toNat ≤ sp.toNat) (hhigh : sp.toNat ≤ trapframe.toNat)
    (hcount : spList.length + argv.length ≤ elfMaxargs)
    (hargs : ∀ arg ∈ argv, argSize arg < 2 ^ 32) :
    ∃ result m, pushArgs root argv spList sp s = .ok (result, s.setMem m) ∧
      OnlyPage f s.mem m ∧
      if (trapframe - pgsize).toNat + total 16 (argv.map argSize) ≤ sp.toNat then
        ∃ ptrs sp', result = some (spList ++ ptrs, sp') ∧ Pushed f s.mem m argv sp ptrs sp'
      else result = none := by
  induction argv generalizing s spList sp with
  | nil =>
      refine ⟨some (spList, sp), s.mem, rfl, fun x _ => rfl, ?_⟩
      rw [List.map_nil, total_nil, Nat.add_zero, if_pos hlow]
      refine ⟨[], sp, by rw [List.append_nil], rfl, rfl, fun x _ _ => rfl, .nil⟩
  | cons arg argv ih =>
      have hsize := hargs arg List.mem_cons_self
      have hlen : (UInt32.ofNat (arg.length + 1)).toNat = argSize arg :=
        UInt32.toNat_ofNat_of_lt' hsize
      have hlow' := hlow
      rw [stackPage_toNat] at hlow'
      have hspan : span 16 (argSize arg) ≤ sp.toNat := by
        unfold span
        omega
      have hfill := below_add_span (by decide) hdvd hspan
      have hle : argSize arg ≤ span 16 (argSize arg) := le_span (by decide)
      have hsp₁ := spBelow_toNat (show (UInt32.ofNat (arg.length + 1)).toNat ≤ sp.toNat by
        rw [hlen]
        omega)
      rw [hlen] at hsp₁
      rw [List.length_cons] at hcount
      rw [pushArgs, if_neg (by omega), List.map_cons, total_cons]
      generalize spBelow sp (UInt32.ofNat (arg.length + 1)) = sp₁ at hsp₁ ⊢
      by_cases hfull : sp₁ < trapframe - pgsize
      · rw [if_pos hfull]
        rw [UInt64.lt_iff_toNat_lt] at hfull
        refine ⟨none, s.mem, rfl, fun x _ => rfl, ?_⟩
        rw [if_neg (by omega)]
      · rw [if_neg hfull]
        rw [UInt64.lt_iff_toNat_lt, not_lt] at hfull
        obtain ⟨m₁, hcopy, hm₁, honly₁⟩ : ∃ m₁,
            uvmCopyout root sp₁ (argBytes arg) (UInt32.ofNat (arg.length + 1)) s =
              .ok ((), s.setMem m₁) ∧
            m₁ = s.mem.write (f.toNat + sp₁.toNat % 4096)
              (UInt32.ofNat (arg.length + 1)).toNat (argBytes arg) ∧
            OnlyPage f s.mem m₁ :=
          h.copyout (by rw [hlen]; exact Nat.succ_pos _) hfull (by rw [hlen]; omega)
        rw [hlen] at hm₁
        have hdvd₁ : 16 ∣ sp₁.toNat := by
          rw [hsp₁]
          exact below_dvd _ _ _
        have hcount₁ : (spList ++ [sp₁]).length + argv.length ≤ elfMaxargs := by
          rw [List.length_append, List.length_singleton]
          omega
        obtain ⟨result, m, hrest, honly, hcases⟩ := ih (h.write honly₁) hdvd₁ hfull (by omega)
          hcount₁ fun a ha => hargs a (List.mem_cons_of_mem _ ha)
        refine ⟨result, m, ?_, honly₁.trans honly, ?_⟩
        · rw [Exec.bind_of_ok hcopy]
          exact hrest
        · by_cases hfits : (trapframe - pgsize).toNat + total 16 (argv.map argSize) ≤ sp₁.toNat
          · rw [if_pos hfits] at hcases
            rw [if_pos (by omega)]
            obtain ⟨ptrs, sp', hresult, hpushed⟩ := hcases
            refine ⟨sp₁ :: ptrs, sp', ?_, ?_⟩
            · rw [hresult, List.append_assoc, List.singleton_append]
            · exact .cons hsp₁ (by omega) hfull hhigh hm₁ hpushed
          · rw [if_neg hfits] at hcases
            rw [if_neg (by omega)]
            exact hcases

structure Placed (f : UInt64) (m : Memory) (argv : List (List UInt8)) (ptrs : List UInt64)
    (sp : UInt64) : Prop where
  areas : argAreas argv ptrs sp =
    areas 16 trapframe.toNat (argv.map argSize ++ [ptrsSize argv])
  strings : List.Forall₂ (fun arg ptr => ∀ i, i ≤ arg.length →
    stackByte m f (ptr.toNat + i) = argBytes arg i) argv ptrs
  words : ∀ k, k ≤ argv.length → ∀ j, j < 8 →
    stackByte m f (sp.toNat + 8 * k + j) = Memory.digit (ptrs.getD k 0).toNat j

theorem Pushed.placed {m m₁ m' : Memory} {argv : List (List UInt8)} {ptrs : List UInt64}
    {sp₁ sp : UInt64} (h : Pushed f m m₁ argv trapframe ptrs sp₁)
    (hfits : marshalled argv ≤ 4096) (hsp : sp.toNat = below 16 sp₁.toNat (ptrsSize argv))
    (hm' : m' = m₁.write (f.toNat + sp.toNat % 4096) (ptrsSize argv) (spListBytes ptrs)) :
    Placed f m' argv ptrs sp := by
  have htop : (16 : Nat) ∣ trapframe.toNat := by decide
  have hbottom := stackPage_toNat
  have htf := trapframe_toNat
  unfold marshalled at hfits
  have hareas : argAreas argv ptrs sp =
      Downward.areas 16 trapframe.toNat (argv.map argSize ++ [ptrsSize argv]) := by
    unfold argAreas
    rw [areas_append, h.areas, ← h.lowest, hsp]
    rfl
  have hinside : ∀ area ∈ argAreas argv ptrs sp, sp.toNat ≤ area.1 ∧
      area.1 + area.2 ≤ trapframe.toNat := by
    intro area hmem
    rw [hareas] at hmem
    obtain ⟨hlow, hhigh⟩ := area_inside (by decide) htop (by omega) hmem
    rw [lowest_append, ← h.lowest] at hlow
    change below 16 sp₁.toNat (ptrsSize argv) ≤ _ at hlow
    exact ⟨hsp ▸ hlow, hhigh⟩
  have hlowest := lowest_add_total (by decide) htop
    (show total 16 (argv.map argSize ++ [ptrsSize argv]) ≤ _ by omega)
  rw [lowest_append, ← h.lowest] at hlowest
  change below 16 sp₁.toNat (ptrsSize argv) + _ = _ at hlowest
  rw [← hsp] at hlowest
  have harray := hinside (sp.toNat, ptrsSize argv)
    (List.mem_append_right _ (List.mem_singleton_self _))
  have hwrite : ∀ x, sp.toNat ≤ x → x < trapframe.toNat → stackByte m' f x =
      if sp.toNat ≤ x ∧ x < sp.toNat + ptrsSize argv then spListBytes ptrs (x - sp.toNat)
      else stackByte m₁ f x := by
    intro x hx hx'
    rw [hm']
    exact stackByte_write (by omega) harray.2 (by omega) hx'
  refine ⟨hareas, ?_, ?_⟩
  · obtain ⟨hlength, hstrings⟩ := List.forall₂_iff_zip.mp h.strings
    refine List.forall₂_iff_zip.mpr ⟨hlength, ?_⟩
    intro arg ptr hmem i hi
    have hstring : (ptr.toNat, argSize arg) ∈
        (argv.zip ptrs).map fun pair => (pair.2.toNat, argSize pair.1) :=
      List.mem_map.mpr ⟨(arg, ptr), hmem, rfl⟩
    have hapart := areas_apart (by decide) htop
      (show total 16 (argv.map argSize ++ [ptrsSize argv]) ≤ _ by omega)
    rw [← hareas] at hapart
    have habove := (List.pairwise_append.mp hapart).2.2 _ hstring _ (List.mem_singleton_self _)
    have hend := (hinside _ (List.mem_append_left _ hstring)).2
    have hsize : argSize arg = arg.length + 1 := rfl
    dsimp only at habove hend
    rw [hwrite _ (by omega) (by omega), if_neg (by omega)]
    exact hstrings hmem i hi
  · intro k hk j hj
    have hsize : ptrsSize argv = 8 * (argv.length + 1) := rfl
    have hend := harray.2
    dsimp only at hend
    rw [hwrite _ (by omega) (by omega), if_pos (by omega)]
    unfold spListBytes
    rw [show (sp.toNat + 8 * k + j - sp.toNat) / 8 = k by omega,
      show (sp.toNat + 8 * k + j - sp.toNat) % 8 = j by omega]

/-- Either all fits or the call stops before it leaves the page of the stack. -/
theorem pushArgv_spec {argv : List (List UInt8)} (h : StackPage s roots lk lu tfs root f)
    (hcount : argv.length ≤ elfMaxargs) (hargs : ∀ arg ∈ argv, argSize arg < 2 ^ 32) :
    ∃ result m, pushArgv root argv s = .ok (result, s.setMem m) ∧ OnlyPage f s.mem m ∧
      if marshalled argv ≤ 4096 then
        ∃ ptrs sp, result = some (argv.length, sp) ∧ Placed f m argv ptrs sp
      else result = none := by
  have htop : (16 : Nat) ∣ trapframe.toNat := by decide
  have hbottom := stackPage_toNat
  have htf := trapframe_toNat
  obtain ⟨strings, m, hpush, honly, hcases⟩ := pushArgs_spec h htop (by decide) (le_refl _)
    (show ([] : List UInt64).length + argv.length ≤ elfMaxargs by
      rw [List.length_nil, Nat.zero_add]
      exact hcount) hargs
  unfold pushArgv
  rw [Exec.bind_of_ok hpush]
  have htotal : marshalled argv =
      total 16 (argv.map argSize) + span 16 (ptrsSize argv) := by
    unfold marshalled
    rw [total_append, total_cons, total_nil, Nat.add_zero]
  by_cases hfits : (trapframe - pgsize).toNat + total 16 (argv.map argSize) ≤ trapframe.toNat
  · rw [if_pos hfits] at hcases
    obtain ⟨ptrs, sp₁, rfl, hpushed⟩ := hcases
    rw [List.nil_append]
    have hlength := hpushed.strings.length_eq
    have hlowest := lowest_add_total (by decide) htop
      (show total 16 (argv.map argSize) ≤ trapframe.toNat by omega)
    rw [← hpushed.lowest] at hlowest
    have hdvd : 16 ∣ sp₁.toNat := by
      rw [hpushed.lowest]
      exact lowest_dvd htop
    have hptrs : ptrsSize argv = 8 * (argv.length + 1) := rfl
    have hcount' : argv.length ≤ 32 := hcount
    have hlen : (UInt32.ofNat ((ptrs.length + 1) * 8)).toNat = ptrsSize argv := by
      rw [UInt32.toNat_ofNat_of_lt' (show (ptrs.length + 1) * 8 < 2 ^ 32 by omega)]
      omega
    have hspan : span 16 (ptrsSize argv) ≤ sp₁.toNat := by
      unfold span
      omega
    have hfill := below_add_span (by decide) hdvd hspan
    have hle : ptrsSize argv ≤ span 16 (ptrsSize argv) := le_span (by decide)
    have hsp := spBelow_toNat
      (show (UInt32.ofNat ((ptrs.length + 1) * 8)).toNat ≤ sp₁.toNat by
        rw [hlen]
        omega)
    rw [hlen] at hsp
    dsimp only
    generalize spBelow sp₁ (UInt32.ofNat ((ptrs.length + 1) * 8)) = sp at hsp ⊢
    by_cases hfull : sp < trapframe - pgsize
    · rw [if_pos hfull]
      rw [UInt64.lt_iff_toNat_lt] at hfull
      refine ⟨none, m, rfl, honly, ?_⟩
      rw [if_neg (by omega)]
    · rw [if_neg hfull]
      rw [UInt64.lt_iff_toNat_lt, not_lt] at hfull
      obtain ⟨m', hcopy, hm', honly'⟩ : ∃ m',
          uvmCopyout root sp (spListBytes ptrs) (UInt32.ofNat ((ptrs.length + 1) * 8))
            (s.setMem m) = .ok ((), (s.setMem m).setMem m') ∧
          m' = (s.setMem m).mem.write (f.toNat + sp.toNat % 4096)
            (UInt32.ofNat ((ptrs.length + 1) * 8)).toNat (spListBytes ptrs) ∧
          OnlyPage f (s.setMem m).mem m' :=
        (h.write honly).copyout (by rw [hlen]; omega) hfull (by rw [hlen]; omega)
      rw [hlen] at hm'
      refine ⟨some (ptrs.length, sp), m', ?_, honly.trans honly', ?_⟩
      · rw [Exec.bind_of_ok hcopy]
        rfl
      · have hall : marshalled argv ≤ 4096 := by omega
        rw [if_pos hall]
        exact ⟨ptrs, sp, by rw [hlength], hpushed.placed hall hsp hm'⟩
  · rw [if_neg hfits] at hcases
    subst hcases
    refine ⟨none, m, rfl, honly, ?_⟩
    rw [if_neg (by omega)]

end UnoOS.Uvm
