import UnoOS.Uvm.ExecFailure
import UnoOS.Uvm.ExecImage

namespace UnoOS.Uvm

open UnoOS.Lib
open UnoOS.Lib.Downward
open UnoOS.Kernel (ProcId)
open UnoOS.Mem

/-! What a process finds in its registers and on its stack after `proc_exec`. -/

structure KernelString (arg : List UInt8) : Prop where
  nul : 0 ∉ arg
  fits : arg.length < allocEnd.toNat - kernelBase.toNat

theorem KernelString.size_lt {arg : List UInt8} (h : KernelString arg) :
    argSize arg < 2 ^ 32 := by
  have hfits := h.fits
  have hmemory : allocEnd.toNat - kernelBase.toNat = 2 ^ 27 := rfl
  unfold argSize
  omega

def HasBytes (st : UvmState) (p : ProcId) (addr : UInt64) (bytes : List UInt8) : Prop :=
  ∀ i, i < bytes.length → st.readByte p (addr + UInt64.ofNat i) = bytes[i]?

def HasWord (st : UvmState) (p : ProcId) (addr word : UInt64) : Prop :=
  ∀ j, j < 8 → st.readByte p (addr + UInt64.ofNat j) = some (Memory.digit word.toNat j)

/-- `a1` points to the array of pointers to the strings, all in the page of the stack and
apart from each other. -/
structure ArgsPlaced (st : UvmState) (p : ProcId) (argv : List (List UInt8))
    (ptrs : List UInt64) (sp : UInt64) : Prop where
  a1 : st.mem.mem.load64 ((st.procs p).tf.toNat + tfA1) = sp
  aligned : sp.toNat % 16 = 0
  array : ∀ k, k ≤ argv.length →
    HasWord st p (sp + UInt64.ofNat (8 * k)) (ptrs.getD k 0)
  strings : List.Forall₂ (fun arg ptr => HasBytes st p ptr (arg ++ [0])) argv ptrs
  inside : ∀ area ∈ argAreas argv ptrs sp,
    trapframe.toNat - 4096 ≤ area.1 ∧ area.1 + area.2 ≤ trapframe.toNat
  apart : (argAreas argv ptrs sp).Pairwise fun area area' =>
    area.1 + area.2 ≤ area'.1 ∨ area'.1 + area'.2 ≤ area.1

variable {st st' : UvmState} {p : ProcId} {argv : List (List UInt8)} {file : ExecFile}

theorem argBytes_eq {arg : List UInt8} {i : Nat} (hi : i ≤ arg.length) :
    some (argBytes arg i) = (arg ++ [0])[i]? := by
  unfold argBytes buffer
  rw [List.getD_eq_getElem?_getD]
  by_cases hlast : i = arg.length
  · rw [hlast, List.getElem?_concat_length, List.getElem?_eq_none (le_refl _)]
    rfl
  · rw [List.getElem?_append_left (by omega), List.getElem?_eq_getElem (by omega)]
    rfl

/-- The layout in the frame of the page is what the process sees. -/
theorem Placed.args {f sp : UInt64} {m : Memory} {ptrs : List UInt64}
    (h : Placed f m argv ptrs sp) (hfits : marshalled argv ≤ 4096)
    (ha1 : st.mem.mem.load64 ((st.procs p).tf.toNat + tfA1) = sp)
    (hread : ∀ x : UInt64, (trapframe - pgsize).toNat ≤ x.toNat → x.toNat < trapframe.toNat →
      st.readByte p x = some (stackByte m f x.toNat)) :
    ArgsPlaced st p argv ptrs sp := by
  have htop : (16 : Nat) ∣ trapframe.toNat := by decide
  have hbottom := stackPage_toNat
  have htf := trapframe_toNat
  have htotal : total 16 (argv.map argSize ++ [ptrsSize argv]) ≤ trapframe.toNat := by
    unfold marshalled at hfits
    omega
  have hlowest := lowest_add_total (by decide) htop htotal
  have hinside : ∀ area ∈ argAreas argv ptrs sp,
      trapframe.toNat - 4096 ≤ area.1 ∧ area.1 + area.2 ≤ trapframe.toNat := by
    intro area hmem
    rw [h.areas] at hmem
    obtain ⟨hlow, hhigh⟩ := area_inside (by decide) htop htotal hmem
    unfold marshalled at hfits
    omega
  have hmemArray : (sp.toNat, ptrsSize argv) ∈ argAreas argv ptrs sp :=
    List.mem_append_right _ (List.mem_singleton_self _)
  have hbyte : ∀ (addr : UInt64) (i : Nat), trapframe.toNat - 4096 ≤ addr.toNat →
      addr.toNat + i < trapframe.toNat →
      st.readByte p (addr + UInt64.ofNat i) = some (stackByte m f (addr.toNat + i)) := by
    intro addr i hlow hhigh
    have haddr : (addr + UInt64.ofNat i).toNat = addr.toNat + i := by
      rw [UInt64.toNat_add, UInt64.toNat_ofNat_of_lt' (show i < 2 ^ 64 by omega)]
      exact Nat.mod_eq_of_lt (by omega)
    rw [hread _ (by omega) (by omega), haddr]
  refine ⟨ha1, ?_, ?_, ?_, hinside, ?_⟩
  · rw [h.areas] at hmemArray
    exact Nat.mod_eq_zero_of_dvd (area_dvd hmemArray)
  · intro k hk j hj
    obtain ⟨hlow, hhigh⟩ := hinside _ hmemArray
    have hsize : ptrsSize argv = 8 * (argv.length + 1) := rfl
    dsimp only at hlow hhigh
    have hword : (sp + UInt64.ofNat (8 * k)).toNat = sp.toNat + 8 * k := by
      rw [UInt64.toNat_add, UInt64.toNat_ofNat_of_lt' (show 8 * k < 2 ^ 64 by omega)]
      exact Nat.mod_eq_of_lt (by omega)
    rw [hbyte _ j (by omega) (by omega), hword, h.words k hk j hj]
  · obtain ⟨hlength, hstrings⟩ := List.forall₂_iff_zip.mp h.strings
    refine List.forall₂_iff_zip.mpr ⟨hlength, ?_⟩
    intro arg ptr hmem i hi
    rw [List.length_append, List.length_singleton] at hi
    obtain ⟨hlow, hhigh⟩ := hinside (ptr.toNat, argSize arg)
      (List.mem_append_left _ (List.mem_map.mpr ⟨(arg, ptr), hmem, rfl⟩))
    have hsize : argSize arg = arg.length + 1 := rfl
    dsimp only at hlow hhigh
    rw [hbyte ptr i hlow (by omega), hstrings hmem i (by omega),
      argBytes_eq (by omega)]
  · rw [h.areas]
    exact (areas_apart (by decide) htop htotal).imp fun hle => .inr hle

theorem pushArgv_newSpace {old : Space} {tf pgtbl entry : UInt64} {st₁ st₂ : UvmState}
    (h : st.Isolated) (hcount : argv.length ≤ elfMaxargs)
    (hargs : ∀ arg ∈ argv, KernelString arg)
    (htable : newTable old st = .ok ((tf, pgtbl), st₁))
    (himage : buildImage p old file pgtbl st₁ = .ok (some entry, st₂)) :
    ∃ result m f, pushArgv pgtbl argv st₂.mem = .ok (result, st₂.mem.setMem m) ∧
      NewSpace st (st₂.mem.setMem m) tf pgtbl ∧
      (∀ x : UInt64, (trapframe - pgsize).toNat ≤ x.toNat → x.toNat < trapframe.toNat →
        x < vaMax ∧ userByte m pgtbl x = some (stackByte m f x.toNat)) ∧
      userFrame st₂.mem.mem pgtbl (trapframe - pgsize) = some f ∧
      OnlyPage f st₂.mem.mem m ∧
      (if marshalled argv ≤ 4096 then
        ∃ ptrs sp, result = some (argv.length, sp) ∧ Placed f m argv ptrs sp
      else result = none) ∧
      ∃ heapTop, st₂ = { st with
        mem := st₂.mem
        procs := Function.update st.procs p (withHeap old heapTop) } := by
  obtain ⟨hnew, hst₁, _⟩ := newTable_spec h htable
  obtain ⟨heapTop, s, f, lk, lu, _, _, hnew₂, hstack, hst₂, _⟩ := buildImage_spec hnew himage
  obtain ⟨result, m, hpush, honly, hcases⟩ :=
    pushArgv_spec hstack hcount fun arg harg => (hargs arg harg).size_lt
  have hva : trapframe - pgsize < vaMax := by decide
  refine ⟨result, m, f, hpush, hnew₂.build
    (write_user_builds hstack.spaces hstack.table hva hstack.frame honly), ?_, hstack.frame,
    honly, hcases, heapTop, ?_⟩
  · intro x hlow hhigh
    obtain ⟨hx, hframe⟩ := (hstack.write honly).frame_at hlow hhigh
    exact ⟨hx, userByte_of_frame hframe⟩
  · rw [hst₂, hst₁]

/-- A call that returns, step by step: `st₁` has the new table, `st₂` the image in it and
`m` the arguments as well. -/
structure Executed (p : ProcId) (file : ExecFile) (argv : List (List UInt8))
    (st st₁ st₂ : UvmState) (m : Memory) (st' : UvmState) (tf pgtbl entry f sp : UInt64)
    (ptrs : List UInt64) : Prop where
  table : newTable (st.procs p) st = .ok ((tf, pgtbl), st₁)
  image : buildImage p (st.procs p) file pgtbl st₁ = .ok (some entry, st₂)
  frame : userFrame st₂.mem.mem pgtbl (trapframe - pgsize) = some f
  only : OnlyPage f st₂.mem.mem m
  read : ∀ x : UInt64, (trapframe - pgsize).toNat ≤ x.toNat → x.toNat < trapframe.toNat →
    x < vaMax ∧ userByte m pgtbl x = some (stackByte m f x.toNat)
  fits : marshalled argv ≤ 4096
  placed : Placed f m argv ptrs sp
  fresh : pgtbl ≠ (st.procs p).pgtbl
  switched : Switched st (st.procs p).pgtbl (st₂.mem.setMem m) st'.mem tf pgtbl entry sp
  self : ∃ heapTop mmap,
    st₂.procs = Function.update st.procs p (withHeap (st.procs p) heapTop) ∧
      st'.procs p = withImage (withHeap (st.procs p) heapTop) pgtbl tf mmap

theorem procExec_eq_ok {ip : Option ExecFile} {result : Int}
    (hrun : procExec p ip argv st = .ok (result, st')) :
    ∃ tf pgtbl st₁, newTable (st.procs p) st = .ok ((tf, pgtbl), st₁) ∧
      (ip = none ∧ st' = st₁ ∨ ∃ file entry st₂ argc sp mem, ip = some file ∧
        buildImage p (st.procs p) file pgtbl st₁ = .ok (some entry, st₂) ∧
        pushArgv pgtbl argv st₂.mem = .ok (some (argc, sp), mem) ∧
        switchImage p (st.procs p) pgtbl tf entry sp { st₂ with mem := mem } = .ok ((), st') ∧
        result = argc) := by
  unfold procExec at hrun
  rw [readSpace_bind, Exec.bind_eq_ok] at hrun
  obtain ⟨⟨tf, pgtbl⟩, st₁, htable, hrun⟩ := hrun
  refine ⟨tf, pgtbl, st₁, htable, ?_⟩
  cases ip with
  | none =>
      cases hrun
      exact .inl ⟨rfl, rfl⟩
  | some file =>
      dsimp only at hrun
      rw [Exec.bind_eq_ok] at hrun
      obtain ⟨image, st₂, himage, hrun⟩ := hrun
      cases image with
      | none => exact absurd hrun execBad_stops
      | some entry =>
          obtain ⟨pushed, mem, hpush, hrun⟩ := liftMem_bind_eq_ok.mp hrun
          cases pushed with
          | none => exact absurd hrun execBad_stops
          | some pushed =>
              obtain ⟨_, st₃, hswitch, hrun⟩ := Exec.bind_eq_ok.mp hrun
              obtain ⟨rfl, rfl⟩ := Prod.mk.inj (Except.ok.inj hrun)
              exact .inr ⟨file, entry, st₂, pushed.1, pushed.2, mem, rfl, himage, hpush,
                hswitch, rfl⟩

theorem procExec_executed {result : Int} (h : st.Isolated) (hsettled : st.Settled)
    (hp : st.Used p) (hcount : argv.length ≤ elfMaxargs)
    (hargs : ∀ arg ∈ argv, KernelString arg)
    (hrun : procExec p (some file) argv st = .ok (result, st')) :
    result = argv.length ∧ ∃ st₁ st₂ m tf pgtbl entry f sp ptrs,
      Executed p file argv st st₁ st₂ m st' tf pgtbl entry f sp ptrs := by
  obtain ⟨tf, pgtbl, st₁, htable, hcases⟩ := procExec_eq_ok hrun
  rcases hcases with ⟨hnone, _⟩ | ⟨_, entry, st₂, argc, sp, mem, heq, himage, hpush, hswitch, rfl⟩
  · cases hnone
  cases heq
  obtain ⟨pushed', m, f, hpush', hnew, hread, hframe, honly, hcases, heapTop, hst₂⟩ :=
    pushArgv_newSpace h hcount hargs htable himage
  obtain ⟨rfl, rfl⟩ := Prod.mk.inj (Except.ok.inj (hpush.symm.trans hpush'))
  split at hcases
  · next hfits =>
    obtain ⟨ptrs, sp', heq, hplaced⟩ := hcases
    cases heq
    obtain ⟨hswitched, ⟨mmap, hprocs⟩, _⟩ := hnew.switch hsettled hp rfl hswitch
    have hprocs₂ : st₂.procs =
        Function.update st.procs p (withHeap (st.procs p) heapTop) := by
      rw [hst₂]
    refine ⟨rfl, st₁, st₂, m, tf, pgtbl, entry, f, sp, ptrs, htable, himage, hframe, honly,
      hread, hfits, hplaced, ?_, hswitched, heapTop, mmap, hprocs₂, ?_⟩
    · rintro rfl
      exact hnew.fresh (UvmState.mem_roots hp)
    · rw [hprocs, Function.update_self]
      dsimp only
      rw [hprocs₂, Function.update_self]
  · cases hcases

theorem Executed.readByte {st₁ st₂ : UvmState} {m : Memory}
    {tf pgtbl entry f sp : UInt64} {ptrs : List UInt64}
    (h : Executed p file argv st st₁ st₂ m st' tf pgtbl entry f sp ptrs) {x : UInt64}
    (hx : x < vaMax) : st'.readByte p x = userByte m pgtbl x := by
  obtain ⟨_, _, _, hself⟩ := h.self
  unfold UvmState.readByte
  rw [hself]
  exact (h.switched.spares pgtbl (Set.mem_insert _ _) h.fresh).userByte hx

/-- If `proc_exec` returns, the arguments were few enough and are on the new stack; if they
are too many, it finds out before it writes outside the page of the stack. -/
theorem exec_passes_args (h : st.Isolated) (hsettled : st.Settled) (hp : st.Used p)
    (hcount : argv.length ≤ elfMaxargs) (hargs : ∀ arg ∈ argv, KernelString arg) :
    (∀ result st', procExec p (some file) argv st = .ok (result, st') →
      marshalled argv ≤ 4096 ∧ result = argv.length ∧
      ∃ ptrs sp, ArgsPlaced st' p argv ptrs sp) ∧
    ∀ tf pgtbl st₁ entry st₂, newTable (st.procs p) st = .ok ((tf, pgtbl), st₁) →
      buildImage p (st.procs p) file pgtbl st₁ = .ok (some entry, st₂) →
      ∃ result mem f, pushArgv pgtbl argv st₂.mem = .ok (result, mem) ∧
        (result.isSome ↔ marshalled argv ≤ 4096) ∧
        userFrame st₂.mem.mem pgtbl (trapframe - pgsize) = some f ∧
        OnlyPage f st₂.mem.mem mem.mem := by
  refine ⟨?_, ?_⟩
  · intro result st' hrun
    obtain ⟨hresult, st₁, st₂, m, tf, pgtbl, entry, f, sp, ptrs, hexec⟩ :=
      procExec_executed h hsettled hp hcount hargs hrun
    refine ⟨hexec.fits, hresult, ptrs, sp, hexec.placed.args hexec.fits ?_ ?_⟩
    · obtain ⟨_, _, _, hself⟩ := hexec.self
      rw [hself]
      exact hexec.switched.enters.a1
    · intro x hlow hhigh
      obtain ⟨hx, hbyte⟩ := hexec.read x hlow hhigh
      exact (hexec.readByte hx).trans hbyte
  · intro tf pgtbl st₁ entry st₂ htable himage
    obtain ⟨result, m, f, hpush, _, _, hframe, honly, hcases, _⟩ :=
      pushArgv_newSpace h hcount hargs htable himage
    refine ⟨result, _, f, hpush, ?_, hframe, honly⟩
    split at hcases
    · next hfits =>
      obtain ⟨_, _, rfl, _⟩ := hcases
      exact iff_of_true rfl hfits
    · next hfull =>
      rw [hcases]
      exact iff_of_false Bool.false_ne_true hfull

/-! A program without segments, for the first process. -/

/-- The magic number, the entry point, the place of the program headers and their number,
which is 0. -/
def emptyElf : List UInt8 :=
  [0x7F, 0x45, 0x4C, 0x46] ++ List.replicate 20 0 ++ [0, 16] ++ List.replicate 6 0 ++ [64] ++
    List.replicate 31 0

def emptyFile : ExecFile := ⟨emptyElf, by decide, fun _ _ => .ok fun _ => 0⟩

/-- The entry point, if the image is built. -/
def imageOf (p : ProcId) (file : ExecFile) (st : UvmState) : Option UInt64 := do
  let ((_, pgtbl), st₁) ← (newTable (st.procs p) st).toOption
  let (entry, _) ← (buildImage p (st.procs p) file pgtbl st₁).toOption
  entry

theorem imageOf_eq_some {entry : UInt64} (h : imageOf p file st = some entry) :
    ∃ tf pgtbl st₁ st₂, newTable (st.procs p) st = .ok ((tf, pgtbl), st₁) ∧
      buildImage p (st.procs p) file pgtbl st₁ = .ok (some entry, st₂) := by
  unfold imageOf at h
  cases htable : newTable (st.procs p) st with
  | error reason =>
      rw [htable] at h
      cases h
  | ok result =>
      obtain ⟨⟨tf, pgtbl⟩, st₁⟩ := result
      rw [htable] at h
      change ((buildImage p (st.procs p) file pgtbl st₁).toOption >>= _) = _ at h
      cases himage : buildImage p (st.procs p) file pgtbl st₁ with
      | error reason =>
          rw [himage] at h
          cases h
      | ok result =>
          obtain ⟨image, st₂⟩ := result
          rw [himage] at h
          obtain rfl : image = some entry := h
          exact ⟨tf, pgtbl, st₁, st₂, rfl, himage⟩

end UnoOS.Uvm
