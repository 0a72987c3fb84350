import UnoOS.Uvm.CopyUser
import UnoOS.Uvm.SpaceRuns

namespace UnoOS.Uvm

open UnoOS.Lib
open UnoOS.Kernel (ProcId)
open UnoOS.Mem

/-! Which bytes `uvm_copyout` and `uvm_copyin` touch behind the addresses of a process. -/

def eachArea (pgtbl a : UInt64) (len : UInt32) (message : String)
    (copy : (at_ n done : Nat) → Memory → Memory) :
    (turns : Nat) → (beg : UInt64) → (done : Nat) → MemM (List (Nat × Nat))
  | 0, _, _ => return []
  | turns + 1, beg, done => do
      match ← vmGetpte pgtbl beg false with
      | none => Exec.stop (.panic message)
      | some pte => do
          let pte := (← readMem).load64 pte
          massert (pteValid pte) message
          let chunk := pageChunk a len beg (pteToPa pte)
          let at_ := (pteToPa pte).toNat + chunk.1
          updateMem (copy at_ chunk.2 done)
          let rest ← eachArea pgtbl a len message copy turns (beg + pgsize) (done + chunk.2)
          return (at_, chunk.2) :: rest

/-- `uvm_copyout`, with the bytes it writes. -/
def copyoutAreas (pgtbl dst : UInt64) (src : Nat → UInt8) (len : UInt32) :
    MemM (List (Nat × Nat)) :=
  eachArea pgtbl dst len "uvm_copyout: can't find page contains address %p"
    (storeBytes src) (pagesMeeting dst len) (pgrounddown dst) 0

/-- `uvm_copyin`, with the bytes it reads. -/
def copyinAreas (pgtbl dst src : UInt64) (len : UInt32) : MemM (List (Nat × Nat)) :=
  eachArea pgtbl src len "uvm_copyin: can't find page contains address %p"
    (loadBytes dst) (pagesMeeting src len) (pgrounddown src) 0

section

variable {pgtbl a beg : UInt64} {len : UInt32} {turns done : Nat} {message : String}
  {copy : (at_ n done : Nat) → Memory → Memory} {s s' : MemState} {m₀ : Memory}
  {areas : List (Nat × Nat)}

theorem eachPage_eq_areas (pgtbl a : UInt64) (len : UInt32) (message : String)
    (copy : (at_ n done : Nat) → Memory → Memory) (turns : Nat) (beg : UInt64) (done : Nat) :
    eachPage pgtbl a len message copy turns beg done = (do
      let areas ← eachArea pgtbl a len message copy turns beg done
      return done + (areas.map Prod.snd).sum) := by
  induction turns generalizing beg done with
  | zero => rfl
  | succ turns ih =>
      rw [eachPage, eachArea, bind_assoc]
      apply bind_congr
      intro result
      cases result with
      | none => rfl
      | some pte =>
          simp only [bind_assoc]
          apply bind_congr
          intro m
          apply bind_congr
          intro _
          apply bind_congr
          intro _
          rw [ih]
          apply bind_congr
          intro rest
          simp only [pure_bind, List.map_cons, List.sum_cons, Nat.add_assoc]

theorem uvmCopyout_eq_areas (pgtbl dst : UInt64) (src : Nat → UInt8) (len : UInt32) :
    uvmCopyout pgtbl dst src len = (do
      let _ ← copyoutAreas pgtbl dst src len
      return) := by
  rw [uvmCopyout_eq]
  unfold copyoutReads copyoutAreas
  rw [eachPage_eq_areas, bind_assoc]
  rfl

theorem uvmCopyin_eq_areas (pgtbl dst src : UInt64) (len : UInt32) :
    uvmCopyin pgtbl dst src len = (do
      let _ ← copyinAreas pgtbl dst src len
      return) := by
  rw [uvmCopyin_eq]
  unfold copyinWrites copyinAreas
  rw [eachPage_eq_areas, bind_assoc]
  rfl

theorem eachArea_succ_eq_ok
    (hrun : eachArea pgtbl a len message copy (turns + 1) beg done s = .ok (areas, s')) :
    beg ≤ vaMax ∧ ∃ pte rest, Mem.translate s.mem pgtbl beg = some pte ∧
      areas = ((pteToPa pte).toNat + (pageChunk a len beg (pteToPa pte)).1,
        (pageChunk a len beg (pteToPa pte)).2) :: rest ∧
      eachArea pgtbl a len message copy turns (beg + pgsize)
        (done + (pageChunk a len beg (pteToPa pte)).2)
        (s.setMem (copy ((pteToPa pte).toNat + (pageChunk a len beg (pteToPa pte)).1)
          (pageChunk a len beg (pteToPa pte)).2 done s.mem)) = .ok (rest, s') := by
  rw [eachArea, Exec.bind_eq_ok] at hrun
  obtain ⟨result, s₁, hgetpte, hrun⟩ := hrun
  obtain ⟨⟨hbeg, _⟩, rfl, rfl⟩ := vmGetpte_reads_eq_ok.mp hgetpte
  refine ⟨hbeg, ?_⟩
  unfold Mem.translate validEntry
  cases hleaf : leafTable s₁.mem pgtbl beg with
  | none =>
      rw [hleaf] at hrun
      cases hrun
  | some t =>
      rw [hleaf] at hrun
      dsimp only [Option.map_some] at hrun
      rw [readMem_bind, massert_bind_eq_ok, updateMem_bind, Exec.bind_eq_ok] at hrun
      obtain ⟨hvalid, rest, s₂, hrest, hrun⟩ := hrun
      obtain ⟨rfl, rfl⟩ := Prod.mk.inj (Except.ok.inj hrun)
      exact ⟨entry s₁.mem t (vpn beg 0), rest, if_pos hvalid, rfl, hrest⟩

/-- The range is below the trap frame, and no page in its middle is taken for the last
one. -/
def UserSpan (m : Memory) (pgtbl a : UInt64) (len : UInt32) : Prop :=
  a.toNat + len.toNat ≤ trapframe.toNat ∧
    ∀ va : UInt64, va.toNat % 4096 = 0 → a < va → va.toNat + 4096 < a.toNat + len.toNat →
      ¬ a + len.toUInt64 ≤ frameOf m pgtbl va + pgsize

def OnUserFrames (m : Memory) (pgtbl : UInt64) (areas : List (Nat × Nat)) : Prop :=
  ∀ area ∈ areas, ∃ va f, va < trapframe ∧ userFrame m pgtbl va = some f ∧
    ∀ i, i < area.2 → InPage f (area.1 + i)

theorem UserSpan.fits (h : UserSpan m₀ pgtbl a len) (haligned : beg.toNat % 4096 = 0)
    (hmore : beg.toNat + 4096 < a.toNat + len.toNat) :
    FrameFits a len beg (frameOf m₀ pgtbl beg) :=
  fun hlater => ⟨fun hless => by omega, fun _ => h.2 beg haligned hlater hmore⟩

theorem UserSpan.chunk_le (h : UserSpan m₀ pgtbl a len) (haligned : beg.toNat % 4096 = 0)
    (hmore : beg.toNat < a.toNat + len.toNat) :
    (pageChunk a len beg (frameOf m₀ pgtbl beg)).1 +
      (pageChunk a len beg (frameOf m₀ pgtbl beg)).2 ≤ 4096 := by
  have hend := h.1
  rw [trapframe_toNat] at hend
  unfold pageChunk
  by_cases hfirst : beg ≤ a
  · rw [if_pos hfirst]
    dsimp only
    omega
  · have hlater : a < beg := UInt64.not_le.mp hfirst
    rw [if_neg hfirst]
    by_cases htest : a + len.toUInt64 ≤ frameOf m₀ pgtbl beg + pgsize
    · have hlast : ¬ beg.toNat + 4096 < a.toNat + len.toNat :=
        fun hmiddle => h.2 beg haligned hlater hmiddle htest
      have hroom : a.toNat + len.toNat < 2 ^ 64 := by omega
      rw [if_pos htest, rest_toNat hroom hlater hmore]
      dsimp only
      omega
    · rw [if_neg htest]
      exact le_refl _

/-- The turns touch frames of user code only.  `Inv done s` is what is known of the memory
when `done` bytes are copied; behind the last turn nothing is read any more. -/
theorem eachArea_spec (Inv : Nat → MemState → Prop)
    (hbelow : ∀ va, va < trapframe → ∀ pte, Mem.translate m₀ pgtbl va = some pte →
      pte &&& pteU ≠ 0)
    (hspan : UserSpan m₀ pgtbl a len)
    (htranslate : ∀ done s, done ≤ len.toNat → Inv done s →
      ∀ va, Mem.translate s.mem pgtbl va = Mem.translate m₀ pgtbl va)
    (hcopy : ∀ done s va f off n, Inv done s → va < trapframe →
      userFrame m₀ pgtbl va = some f → off + n ≤ 4096 →
      Inv (done + n) (s.setMem (copy (f.toNat + off) n done s.mem)))
    (hpage : AtPage a len turns beg done) (hinv : Inv done s)
    (hrun : eachArea pgtbl a len message copy turns beg done s = .ok (areas, s')) :
    OnUserFrames m₀ pgtbl areas ∧ ∃ done', Inv done' s' := by
  have hend := hspan.1
  rw [trapframe_toNat] at hend
  induction turns generalizing beg done s areas with
  | zero =>
      cases hrun
      exact ⟨fun area harea => absurd harea List.not_mem_nil, done, hinv⟩
  | succ turns ih =>
      obtain ⟨hbeg, pte, rest, hpte, rfl, hrest⟩ := eachArea_succ_eq_ok hrun
      have hmore := hpage.more
      have hva : beg < trapframe := by
        rw [UInt64.lt_iff_toNat_lt, trapframe_toNat]
        omega
      have hdone : done ≤ len.toNat := by
        have hcopied := hpage.done
        omega
      rw [htranslate done s hdone hinv] at hpte
      have hframe : userFrame m₀ pgtbl beg = some (pteToPa pte) := by
        unfold userFrame userEntry
        rw [hpte, Option.bind_some, if_pos (hbelow beg hva pte hpte)]
      have hplace : frameOf m₀ pgtbl beg = pteToPa pte := by
        unfold frameOf
        rw [hpte, Option.getD_some]
      have hchunk := hspan.chunk_le hpage.aligned hmore
      rw [hplace] at hchunk
      have hinv' := hcopy done s beg _ _ _ hinv hva hframe hchunk
      have harea : ∃ va f, va < trapframe ∧ userFrame m₀ pgtbl va = some f ∧
          ∀ i, i < (pageChunk a len beg (pteToPa pte)).2 →
            InPage f ((pteToPa pte).toNat + (pageChunk a len beg (pteToPa pte)).1 + i) := by
        refine ⟨beg, _, hva, hframe, fun i hi => ?_⟩
        unfold InPage
        omega
      have hcons : ∀ rest, OnUserFrames m₀ pgtbl rest →
          OnUserFrames m₀ pgtbl (((pteToPa pte).toNat +
            (pageChunk a len beg (pteToPa pte)).1,
            (pageChunk a len beg (pteToPa pte)).2) :: rest) := by
        intro rest hon area hmem
        rcases List.mem_cons.mp hmem with rfl | hmem
        · exact harea
        · exact hon area hmem
      cases turns with
      | zero =>
          cases hrest
          exact ⟨hcons [] fun area hmem => absurd hmem List.not_mem_nil, _, hinv'⟩
      | succ turns =>
          have hmiddle : beg.toNat + 4096 < a.toNat + len.toNat := by
            have hturns := hpage.turns
            omega
          have hfits := hspan.fits hpage.aligned hmiddle
          rw [hplace] at hfits
          have hexact := pageChunk_of_fits (by omega) hpage.aligned hpage.near
            (fun _ => hmore) hfits
          have hnext := hpage.next hbeg
          have hsize := congrArg Prod.snd hexact
          dsimp only at hsize
          rw [← hsize] at hnext
          obtain ⟨hon, hinv''⟩ := ih hnext hinv' hrest
          exact ⟨hcons rest hon, hinv''⟩

end

/-! `uvm_copyout` keeps the tables, and so does `uvm_copyin` with a buffer elsewhere. -/

section

variable {s s' : MemState} {roots : Set UInt64} {lk lu : List UInt64}
  {tfs : Set UInt64} {root dst src : UInt64} {len : UInt32} {areas : List (Nat × Nat)}

theorem copyoutAreas_spec {bytes : Nat → UInt8} (h : Spaces s roots lk lu tfs ∅)
    (hroot : root ∈ roots) (hspan : UserSpan s.mem root dst len)
    (hrun : copyoutAreas root dst bytes len s = .ok (areas, s')) :
    OnUserFrames s.mem root areas ∧ Confined roots root tfs s s' := by
  have hroom : dst.toNat + len.toNat < 2 ^ 64 := by
    have hend := hspan.1
    rw [trapframe_toNat] at hend
    omega
  have hstep : ∀ (done : Nat) (s₁ : MemState) (va f : UInt64) (off n : Nat),
      (Confined roots root tfs s s₁ ∧
        ∀ va, Mem.translate s₁.mem root va = Mem.translate s.mem root va) →
      va < trapframe → userFrame s.mem root va = some f → off + n ≤ 4096 →
      Confined roots root tfs s
          (s₁.setMem (storeBytes bytes (f.toNat + off) n done s₁.mem)) ∧
        ∀ va, Mem.translate (storeBytes bytes (f.toNat + off) n done s₁.mem) root va =
          Mem.translate s.mem root va := by
    rintro done s₁ va f off n ⟨hconfined, hsame⟩ hva hframe hoff
    obtain ⟨lk₁, lu₁, h₁⟩ := hconfined.spaces
    have hmax := lt_vaMax_of_lt hva
    have hframe₁ : userFrame s₁.mem root va = some f := by
      unfold userFrame
      rw [hsame va]
      exact hframe
    have honly : OnlyPage f s₁.mem
        (s₁.setMem (storeBytes bytes (f.toNat + off) n done s₁.mem)).mem :=
      onlyPage_write f s₁.mem off n (fun i => bytes (done + i)) hoff
    obtain ⟨h₂, hothers, hupper⟩ := h₁.write_user hroot hmax hframe₁ honly
    have hin := h₁.frames.userFrame_in hroot hmax hframe₁
    refine ⟨hconfined.trans ⟨⟨lk₁, lu₁, h₂⟩, hothers, hupper, rfl⟩, fun x => ?_⟩
    exact (translate_of_samePages hroot
      (fun t ht => Frames.touch_table h₁.frames hin honly ht) x).trans (hsame x)
  obtain ⟨hon, _, hconfined, _⟩ := eachArea_spec
    (fun _ s' => Confined roots root tfs s s' ∧
      ∀ va, Mem.translate s'.mem root va = Mem.translate s.mem root va)
    (h.kernel root hroot).below hspan (fun _ _ _ hinv => hinv.2) hstep (AtPage.start hroom)
    ⟨.refl h, fun _ => rfl⟩ hrun
  exact ⟨hon, hconfined⟩

/-- The buffer of the kernel is not in the tables of the process. -/
def OutsideTables (m : Memory) (root buffer : UInt64) (len : UInt32) : Prop :=
  buffer.toNat + len.toNat < 2 ^ 64 ∧
    ∀ i, i < len.toNat → ∀ t, IsTable m {root} t → ¬ InPage t (buffer.toNat + i)

theorem copyinAreas_spec (h : Spaces s roots lk lu tfs ∅) (hroot : root ∈ roots)
    (hspan : UserSpan s.mem root src len) (hbuffer : OutsideTables s.mem root dst len)
    (hrun : copyinAreas root dst src len s = .ok (areas, s')) :
    OnUserFrames s.mem root areas := by
  have hroom : src.toNat + len.toNat < 2 ^ 64 := by
    have hend := hspan.1
    rw [trapframe_toNat] at hend
    omega
  refine (eachArea_spec (fun done s' => done ≤ len.toNat →
      ∀ x, (∀ i, i < done → x ≠ dst.toNat + i) → s'.mem x = s.mem x)
    (h.kernel root hroot).below hspan ?_ ?_ (AtPage.start hroom) (fun _ _ _ => rfl) hrun).1
  · intro done s₁ hdone hinv va
    refine translate_of_samePages (Set.mem_singleton root) (fun t ht x hx => ?_) va
    refine hinv hdone x fun i hi heq => ?_
    exact hbuffer.2 i (by omega) t ht (heq ▸ hx)
  · intro done s₁ va f off n hinv _ _ _ hdone x hx
    have hplace : (dst + UInt64.ofNat done).toNat = dst.toNat + done := by
      have hsize := hbuffer.1
      rw [UInt64.toNat_add, UInt64.toNat_ofNat_of_lt' (show done < 2 ^ 64 by omega)]
      exact Nat.mod_eq_of_lt (by omega)
    have hkept := hinv (by omega) x fun i hi => hx i (by omega)
    rw [← hkept]
    unfold loadBytes
    rw [hplace]
    refine Memory.memcpy_of_not_mem ?_
    by_contra hin
    exact hx (x - dst.toNat) (by omega) (by omega)

end

/-! Runs. -/

inductive CopyCall where
  | space (call : SpaceCall)
  | copyout (p : ProcId) (dst : UInt64) (src : Nat → UInt8) (len : UInt32)

namespace UvmState

variable {st st' : UvmState} {p : ProcId} {areas : List (Nat × Nat)}

def copyStep (st : UvmState) : CopyCall → Option UvmState
  | .space call => st.spaceStep call
  | .copyout p dst src len =>
      st.afterCall p (liftMem (uvmCopyout (st.procs p).pgtbl dst src len))

/-- A call of `uvm_copyout` has a range below the trap frame, and takes no page in its middle
for the last one. -/
def CopiesBelow (st : UvmState) : CopyCall → Prop
  | .space _ => True
  | .copyout p dst _ len => UserSpan st.mem.mem (st.procs p).pgtbl dst len

theorem Kept.copyStep {call : CopyCall} (h : st.Kept) (hbelow : st.CopiesBelow call)
    (hstep : st.copyStep call = some st') : st'.Kept := by
  cases call with
  | space call => exact h.step hstep
  | copyout p dst src len =>
      obtain ⟨hp, _, hrun⟩ := afterCall_eq_some.mp hstep
      obtain ⟨mem, hcopy, rfl⟩ := liftMem_eq_ok.mp hrun
      rw [uvmCopyout_eq_areas] at hcopy
      obtain ⟨areas, mem', hareas, hend⟩ := Exec.bind_eq_ok.mp hcopy
      cases hend
      exact (h.confined hp fun lk lu hspaces =>
        (copyoutAreas_spec hspaces (mem_roots hp) hbelow hareas).2).1

/-- No byte is in a frame that a process has mapped from the trap frame on. -/
def SparesKernelPages (st : UvmState) (areas : List (Nat × Nat)) : Prop :=
  ∀ area ∈ areas, ∀ i, i < area.2 → ∀ q, st.Used q → ∀ va, trapframe ≤ va → va < vaMax →
    ∀ pte, Mem.translate st.mem.mem (st.procs q).pgtbl va = some pte →
      ¬ InPage (pteToPa pte) (area.1 + i)

theorem Kept.spares (h : st.Kept) (hp : st.Used p)
    (hon : OnUserFrames st.mem.mem (st.procs p).pgtbl areas) : st.SparesKernelPages areas := by
  obtain ⟨lk, lu, hspaces⟩ := h.isolated.spaces
  intro area hmem i hi q hq va hva hmax pte hpte
  obtain ⟨x, f, hx, hf, hin⟩ := hon area hmem
  have huser := hspaces.frames.userFrame_in (mem_roots hp) (lt_vaMax_of_lt hx) hf
  refine pages_apart huser.aligned (pteToPa_aligned pte) ?_ (hin i hi)
  rintro rfl
  obtain ⟨pte', hpte', _, _, hframe⟩ := (hspaces.kernel _ (mem_roots hq)).above va hva hmax
  rw [hpte] at hpte'
  cases hpte'
  rcases hframe with hframe | hframe
  · exact hspaces.frames.not_held (.inl hframe) (mem_roots hp) (lt_vaMax_of_lt hx) hf
  · exact hframe huser

/-- Along every run whose calls of `uvm_copyout` have such ranges, what the next call of
`uvm_copyout` writes and of `uvm_copyin` reads is mapped for user code, and no part of what
the kernel has mapped there for itself. -/
theorem copies_on_user_frames {calls : List CopyCall} (hstart : st.Kept)
    (halong : Along copyStep CopiesBelow st calls) (hrun : run copyStep st calls = some st')
    (hp : st'.Used p) {a : UInt64} {len : UInt32}
    (hspan : UserSpan st'.mem.mem (st'.procs p).pgtbl a len) :
    (∀ src areas mem, copyoutAreas (st'.procs p).pgtbl a src len st'.mem = .ok (areas, mem) →
      OnUserFrames st'.mem.mem (st'.procs p).pgtbl areas ∧ st'.SparesKernelPages areas) ∧
    ∀ dst areas mem, OutsideTables st'.mem.mem (st'.procs p).pgtbl dst len →
      copyinAreas (st'.procs p).pgtbl dst a len st'.mem = .ok (areas, mem) →
      OnUserFrames st'.mem.mem (st'.procs p).pgtbl areas ∧ st'.SparesKernelPages areas := by
  have h : st'.Kept :=
    run_invariant (fun _ _ _ h hbelow hstep => h.copyStep hbelow hstep) hstart halong hrun
  obtain ⟨lk, lu, hspaces⟩ := h.isolated.spaces
  refine ⟨?_, ?_⟩
  · intro src areas mem hareas
    have hon := (copyoutAreas_spec hspaces (mem_roots hp) hspan hareas).1
    exact ⟨hon, h.spares hp hon⟩
  · intro dst areas mem hbuffer hareas
    have hon := copyinAreas_spec hspaces (mem_roots hp) hspan hbuffer hareas
    exact ⟨hon, h.spares hp hon⟩

def written (pgtbl dst : UInt64) (len : UInt32) (st : UvmState) : Option (List (Nat × Nat)) :=
  match copyoutAreas pgtbl dst (fun _ => 0) len st.mem with
  | .ok (areas, _) => some areas
  | .error _ => none

theorem written_eq_some {pgtbl dst : UInt64} {len : UInt32}
    (h : written pgtbl dst len st = some areas) :
    ∃ mem, copyoutAreas pgtbl dst (fun _ => 0) len st.mem = .ok (areas, mem) := by
  unfold written at h
  split at h
  · next areas' mem hrun =>
    rw [hrun, Option.some.inj h]
    exact ⟨mem, rfl⟩
  · cases h

theorem userSpan_short {m : Memory} {pgtbl a : UInt64} {len : UInt32} (hlen : len.toNat ≤ 4096)
    (hend : a.toNat + len.toNat ≤ trapframe.toNat) : UserSpan m pgtbl a len := by
  refine ⟨hend, fun va _ hlow hhigh => ?_⟩
  rw [UInt64.lt_iff_toNat_lt] at hlow
  omega

/-- Eight bytes for the first process, twice. -/
theorem copies_on_user_frames_first : ∃ st areas mem,
    run copyStep unborn [.space (.first [7]), .copyout 0 0x1ffc (fun _ => 1) 4] = some st ∧
    copyoutAreas (st.procs 0).pgtbl 0x1000 (fun _ => 0) 8 st.mem = .ok (areas, mem) ∧
    areas.length = 1 ∧ OnUserFrames st.mem.mem (st.procs 0).pgtbl areas ∧
    st.SparesKernelPages areas := by
  have hall : (run copyStep unborn
      [.space (.first [7]), .copyout 0 0x1ffc (fun _ => 1) 4]).map (fun st =>
      (decide (st.Used 0), (written (st.procs 0).pgtbl 0x1000 8 st).map List.length)) =
        some (true, some 1) := by
    decide +kernel
  obtain ⟨st, hrun, hall⟩ := Option.map_eq_some_iff.mp hall
  obtain ⟨hused, hall⟩ := Prod.mk.inj hall
  obtain ⟨areas, hwritten, hlength⟩ := Option.map_eq_some_iff.mp hall
  obtain ⟨mem, hareas⟩ := written_eq_some hwritten
  have halong : Along copyStep CopiesBelow unborn
      [.space (.first [7]), .copyout 0 0x1ffc (fun _ => 1) 4] :=
    ⟨trivial, fun _ _ => ⟨userSpan_short (by decide) (by decide), fun _ _ => trivial⟩⟩
  exact ⟨st, areas, mem, hrun, hareas, hlength, (copies_on_user_frames unborn_kept halong hrun
    (of_decide_eq_true hused) (userSpan_short (by decide) (by decide))).1 _ areas mem hareas⟩

/-- A process passes the address of its trap frame, which is overwritten. -/
theorem copyout_overwrites_trapframe : ∃ st areas mem,
    run copyStep unborn [.space (.first [7])] = some st ∧ st.Used 0 ∧
    copyoutAreas (st.procs 0).pgtbl trapframe (fun _ => 0) 8 st.mem = .ok (areas, mem) ∧
    areas = [((st.procs 0).tf.toNat, 8)] ∧
    ¬ OnUserFrames st.mem.mem (st.procs 0).pgtbl areas := by
  have hall : (run copyStep unborn [.space (.first [7])]).map (fun st =>
      (decide (st.Used 0), decide (written (st.procs 0).pgtbl trapframe 8 st =
        some [((st.procs 0).tf.toNat, 8)]))) = some (true, true) := by
    decide +kernel
  obtain ⟨st, hrun, hall⟩ := Option.map_eq_some_iff.mp hall
  obtain ⟨hused, hwritten⟩ := Prod.mk.inj hall
  have hp := of_decide_eq_true hused
  obtain ⟨mem, hareas⟩ := written_eq_some (of_decide_eq_true hwritten)
  refine ⟨st, _, mem, hrun, hp, hareas, rfl, ?_⟩
  intro hon
  have halong : Along copyStep CopiesBelow unborn [.space (.first [7])] :=
    ⟨trivial, fun _ _ => trivial⟩
  have h : st.Kept :=
    run_invariant (fun _ _ _ h hbelow hstep => h.copyStep hbelow hstep) unborn_kept halong hrun
  obtain ⟨lk, lu, hspaces⟩ := h.isolated.spaces
  obtain ⟨va, f, hva, hf, hin⟩ := hon _ List.mem_cons_self
  have htf := hspaces.frames.held_in _ (.inl (mem_trapframes hp))
  have hne : f ≠ (st.procs 0).tf := by
    rintro rfl
    exact hspaces.frames.not_held (.inl (mem_trapframes hp)) (mem_roots hp)
      (lt_vaMax_of_lt hva) hf
  have huser := hspaces.frames.userFrame_in (mem_roots hp) (lt_vaMax_of_lt hva) hf
  have hfirst := hin 0 (show 0 < 8 by decide)
  refine pages_apart huser.aligned htf.aligned hne hfirst ?_
  unfold InPage
  omega

end UvmState

end UnoOS.Uvm
