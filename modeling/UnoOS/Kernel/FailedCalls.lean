import UnoOS.Kernel.PipePages

namespace UnoOS.Kernel

open UnoOS.Lib
open UnoOS.Fs
open UnoOS.Mem (MemState pmemAlloc pmemAlloc_eq_ok refCnt)

/-! Descriptor calls that fail.  What they took on the way has to be given back:
entries of `ftable`, descriptors, and the page of a pipe. -/

/-- The descriptors of the process and the counts in `ftable` are as before. -/
def LeavesNoTrace (p : ProcId) (k k' : KernelState) : Prop :=
  (k'.procs p).filelist = (k.procs p).filelist ∧
    ∀ f, (k'.ftable f).ref = (k.ftable f).ref

def LeavesNoPage (s s' : MemState) : Prop :=
  ∀ inKernel, (s'.region inKernel).allocable = (s.region inKernel).allocable

/-- `fd` is the number of a descriptor that names a file. -/
def IsOpen (p : ProcId) (k : KernelState) (fd : UInt32) : Prop :=
  ∃ h : fd.toNat < filePerProc, (k.procs p).filelist ⟨fd.toNat, h⟩ ≠ none

section

variable {p : ProcId} {k k' : KernelState} {f : FileId} {page : PipeId}

theorem refs_eq_of_toNat (h : ∀ f, (k'.ftable f).ref.toNat = (k.ftable f).ref.toNat) :
    ∀ f, (k'.ftable f).ref = (k.ftable f).ref :=
  fun f => UInt32.toNat_inj.mp (h f)

/-- `sys_dup` without a free descriptor counts the file once more. -/
theorem sysDup_noTrace_iff {fd : UInt32}
    (hrun : sysDup p fd k = .ok (none, k')) :
    (LeavesNoTrace p k k' ∧ k'.pipes = k.pipes) ↔ ¬IsOpen p k fd := by
  unfold sysDup at hrun
  rw [Exec.bind_eq_ok] at hrun
  obtain ⟨found, same, harg, hrun⟩ := hrun
  obtain ⟨rfl, hfound⟩ := OpenRun.argFd_result harg
  rcases hfound with ⟨rfl, hclosed⟩ | ⟨hlt, f, rfl, hopen⟩
  · cases hrun
    exact iff_of_true ⟨⟨rfl, fun _ => rfl⟩, rfl⟩ hclosed
  · dsimp only at hrun
    rw [Exec.bind_eq_ok] at hrun
    obtain ⟨newFd, placed, hplace, hrun⟩ := hrun
    rw [Exec.bind_eq_ok] at hrun
    obtain ⟨_, counted, hdup, hend⟩ := hrun
    cases hend
    refine iff_of_false ?_ (not_not.mpr ⟨hlt, by rw [hopen]; simp⟩)
    rintro ⟨⟨_, hrefs⟩, _⟩
    rcases OpenRun.fdAlloc_result hplace with ⟨_, rfl, _⟩ | ⟨free, hfree, _⟩
    · unfold fileDup at hdup
      rw [readFile_bind, kassert_bind_eq_ok] at hdup
      obtain ⟨_, hdup⟩ := hdup
      cases hdup
      have href := hrefs f
      rw [KernelState.setFile_ftable, Function.update_self] at href
      have hnat := congrArg UInt32.toNat href
      rw [UInt32.toNat_add] at hnat
      have hlt := (placed.ftable f).ref.toNat_lt
      change ((placed.ftable f).ref.toNat + 1) % 2 ^ 32 = _ at hnat
      omega
    · cases hfree

/-! The two ends of a new pipe, and closing them. -/

structure PipeEnd (page : PipeId) (writable : Bool) (file : File) : Prop where
  ref : file.ref = 1
  type : file.type = fdPipe
  writable : file.writable = writable
  pipe : file.pipe = some page

theorem pipeAlloc_ends {ends : FileId × FileId}
    (hrun : pipeAlloc page k = .ok (ends, k')) :
    PipeEnd page false (k'.ftable ends.1) ∧ PipeEnd page true (k'.ftable ends.2) := by
  have hne := (OpenRun.pipeAlloc_counts hrun).2.1
  unfold pipeAlloc at hrun
  rw [Exec.bind_of_ok (m := modify _) rfl, Exec.bind_eq_ok] at hrun
  obtain ⟨f1, first, hfirst, hrun⟩ := hrun
  obtain ⟨_, rfl⟩ := RefRun.fileAlloc_eq_ok hfirst
  rw [Exec.bind_eq_ok] at hrun
  obtain ⟨f2, second, hsecond, hrun⟩ := hrun
  obtain ⟨_, rfl⟩ := RefRun.fileAlloc_eq_ok hsecond
  rw [readFile_bind, writeFile_bind, readFile_bind, writeFile_bind] at hrun
  cases hrun
  dsimp only at hne
  refine ⟨⟨?_, ?_, ?_, ?_⟩, ⟨?_, ?_, ?_, ?_⟩⟩ <;>
    simp [KernelState.setFile, hne, hne.symm]

theorem fileClose_end {writable : Bool} {value : Unit}
    (hend : PipeEnd page writable (k.ftable f))
    (hrun : fileClose f k = .ok (value, k')) :
    ∀ g, g ≠ f → k'.ftable g = k.ftable g := by
  unfold fileClose at hrun
  rw [readFile_bind, kassert_bind_eq_ok, if_pos hend.ref, writeFile_bind,
    if_pos hend.type, deref_bind_eq_ok] at hrun
  obtain ⟨_, found, hfound, hrun⟩ := hrun
  rw [hend.pipe] at hfound
  cases hfound
  cases hrun
  intro g hg
  simp [KernelState.setFile, KernelState.setPipe, hg]

theorem fdAlloc_ftable {fd : Option (Fin filePerProc)}
    (hrun : fdAlloc p f k = .ok (fd, k')) : k'.ftable = k.ftable := by
  rcases OpenRun.fdAlloc_result hrun with ⟨_, rfl, _⟩ | ⟨_, _, _, rfl⟩
  · rfl
  · rfl

theorem storeFd_failed {read write : FileId} {readfd writefd : Option (Fin filePerProc)}
    {placed placed' stored : KernelState} {value : Unit}
    (hplace : fdAlloc p read k = .ok (readfd, placed))
    (hplace' : fdAlloc p write placed = .ok (writefd, placed'))
    (hfail : readfd = none ∨ writefd = none)
    (hstore : storeFd p read readfd placed' = .ok (value, stored)) : stored = placed' := by
  refine OpenRun.storeFd_same ?_ hstore
  intro free hfree
  rcases OpenRun.fdAlloc_result hplace with ⟨hnone, _⟩ | ⟨free', hsome, _, rfl⟩
  · rw [hnone] at hfree
    cases hfree
  · rw [hsome] at hfree hfail
    cases hfree
    rcases OpenRun.fdAlloc_result hplace' with ⟨_, rfl, _⟩ | ⟨_, hboth, _⟩
    · simp
    · simp [hboth] at hfail

theorem sysPipe_noTrace_iff (hrun : sysPipe p page k = .ok (pipeError, k')) :
    LeavesNoTrace p k k' ↔ ∀ fd, (k.procs p).filelist fd ≠ none := by
  unfold sysPipe at hrun
  rw [Exec.bind_eq_ok] at hrun
  obtain ⟨⟨read, write⟩, allocated, halloc, hrun⟩ := hrun
  obtain ⟨hprocs, _, hrefs⟩ := OpenRun.pipeAlloc_counts halloc
  dsimp only at hrun hrefs
  rw [Exec.bind_eq_ok] at hrun
  obtain ⟨readfd, placed, hplace, hrun⟩ := hrun
  rw [Exec.bind_eq_ok] at hrun
  obtain ⟨writefd, placed', hplace', hrun⟩ := hrun
  have hftable := fdAlloc_ftable hplace
  have hftable' := fdAlloc_ftable hplace'
  split at hrun
  · next hfail =>
    rw [Exec.bind_eq_ok] at hrun
    obtain ⟨_, stored, hstore, hrun⟩ := hrun
    rw [Exec.bind_eq_ok] at hrun
    obtain ⟨_, closed, hclose, hrun⟩ := hrun
    rw [Exec.bind_eq_ok] at hrun
    obtain ⟨_, closed', hclose', hend⟩ := hrun
    cases hend
    have hstored := storeFd_failed hplace hplace' hfail hstore
    subst hstored
    obtain ⟨hprocs₁, hrefs₁⟩ := OpenRun.fileClose_counts hclose
    obtain ⟨hprocs₂, hrefs₂⟩ := OpenRun.fileClose_counts hclose'
    have hrefs' : ∀ g, (k'.ftable g).ref = (k.ftable g).ref := by
      refine refs_eq_of_toNat fun g => ?_
      have h₁ := hrefs₁ g
      have h₂ := hrefs₂ g
      rw [hftable', hftable, hrefs] at h₁
      omega
    rcases OpenRun.fdAlloc_result hplace with ⟨rfl, rfl, hfull⟩ | ⟨free, _, hfree, rfl⟩
    · -- there was no descriptor at all
      have hsame : stored = placed := by
        rcases OpenRun.fdAlloc_result hplace' with ⟨_, hsame, _⟩ | ⟨free, _, hfree, _⟩
        · exact hsame
        · exact absurd hfree (hfull free)
      refine iff_of_true ⟨?_, hrefs'⟩ (by rwa [← hprocs])
      rw [hprocs₂, hprocs₁, hsame, hprocs]
    · -- the one descriptor keeps the file that was closed
      refine iff_of_false ?_ (fun hfull => hfull free (by rw [← hprocs]; exact hfree))
      rintro ⟨hlist, _⟩
      have hslot : (k'.procs p).filelist free ≠ none := by
        rw [hprocs₂, hprocs₁]
        rcases OpenRun.fdAlloc_result hplace' with ⟨_, rfl, _⟩ | ⟨free', _, hfree', rfl⟩
        · simp
        · by_cases hother : free = free' <;> simp [hother]
      rw [hlist, ← hprocs] at hslot
      exact hslot hfree
  · cases hrun

/-! The page of the pipe. -/

section

variable {st st' : KernelState × MemState} {pipe : UInt64} {name : Literal}

theorem pipeAlloc_page {ends : FileId × FileId}
    (hrun : PipeM.pipeAlloc name st = .ok (ends, st')) :
    ∃ pipe : UInt64, pipeAlloc pipe.toNat st.1 = .ok (ends, st'.1) ∧
      st'.2.kernRegion.allocable ≠ st.2.kernRegion.allocable ∧
      refCnt st'.2.mem pipe = name.addr.toUInt32 := by
  unfold PipeM.pipeAlloc at hrun
  obtain ⟨pipe, st₁, halloc, hrun⟩ := Exec.bind_eq_ok.mp hrun
  obtain ⟨_, st₂, hinit, hrun⟩ := Exec.bind_eq_ok.mp hrun
  obtain ⟨halloc, hk₁⟩ := onPages_eq_ok.mp halloc
  obtain ⟨hinit, hk₂⟩ := onPages_eq_ok.mp hinit
  obtain ⟨hfiles, hs⟩ := onFiles_eq_ok.mp hrun
  obtain ⟨_, _, _, htaken⟩ := pmemAlloc_eq_ok.mp halloc
  obtain ⟨hregion, hcnt⟩ := pipeInit_eq_ok hinit
  refine ⟨pipe, by rwa [hk₂, hk₁] at hfiles, ?_, by rw [hs, hcnt]⟩
  have hregion' : st₂.2.kernRegion = st₁.2.kernRegion := hregion true
  rw [hs, hregion', htaken]
  change st.2.kernRegion.allocable - 1 ≠ st.2.kernRegion.allocable
  intro heq
  have hone : (1 : UInt32) = 0 := by
    calc (1 : UInt32) = st.2.kernRegion.allocable - (st.2.kernRegion.allocable - 1) := by grind
      _ = 0 := by rw [heq]; grind
  exact absurd hone (by decide)

theorem fileClose_page {writable : Bool} {value : Unit}
    (hend : PipeEnd pipe.toNat writable (st.1.ftable f))
    (hrun : PipeM.fileClose f st = .ok (value, st')) :
    fileClose f st.1 = .ok (value, st'.1) ∧
      pipeClosePage pipe writable st.2 = .ok ((), st'.2) := by
  unfold PipeM.fileClose at hrun
  rw [Exec.bind_of_ok (m := onFiles (readFile f)) (onFiles_eq_ok.mpr ⟨rfl, rfl⟩)] at hrun
  obtain ⟨_, st₂, hclose, hrest⟩ := Exec.bind_eq_ok.mp hrun
  obtain ⟨hclose, hs⟩ := onFiles_eq_ok.mp hclose
  rw [if_pos ⟨hend.ref, hend.type⟩, hend.pipe] at hrest
  obtain ⟨found, st₃, hfound, hrun⟩ := Exec.bind_eq_ok.mp hrest
  obtain ⟨hfound, hs'⟩ := onFiles_eq_ok.mp hfound
  obtain ⟨rfl, hk'⟩ := Prod.mk.inj (Except.ok.inj hfound)
  obtain ⟨hpage, hk⟩ := onPages_eq_ok.mp hrun
  rw [UInt64.ofNat_toNat, hend.writable, hs', hs] at hpage
  exact ⟨by rwa [hk, ← hk'], hpage⟩

theorem sysPipe_page (hrun : PipeM.sysPipe p name st = .ok (pipeError, st')) :
    (∃ page, sysPipe p page st.1 = .ok (pipeError, st'.1)) ∧
      ¬LeavesNoPage st.2 st'.2 := by
  unfold PipeM.sysPipe at hrun
  obtain ⟨⟨read, write⟩, allocated, halloc, hrun⟩ := Exec.bind_eq_ok.mp hrun
  obtain ⟨pipe, halloc, hallocable, hcnt⟩ := pipeAlloc_page halloc
  obtain ⟨hread, hwrite⟩ := pipeAlloc_ends halloc
  have hne := (OpenRun.pipeAlloc_counts halloc).2.1
  obtain ⟨readfd, placed, hplace, hrun⟩ := Exec.bind_eq_ok.mp hrun
  obtain ⟨writefd, placed', hplace', hrun⟩ := Exec.bind_eq_ok.mp hrun
  obtain ⟨hplace, hs₁⟩ := onFiles_eq_ok.mp hplace
  obtain ⟨hplace', hs₂⟩ := onFiles_eq_ok.mp hplace'
  split at hrun
  case isFalse => cases hrun
  case isTrue hfail =>
    obtain ⟨_, stored, hstore, hrun⟩ := Exec.bind_eq_ok.mp hrun
    obtain ⟨_, closed, hclose, hrun⟩ := Exec.bind_eq_ok.mp hrun
    obtain ⟨_, closed', hclose', hend⟩ := Exec.bind_eq_ok.mp hrun
    cases hend
    obtain ⟨hstore, hs₃⟩ := onFiles_eq_ok.mp hstore
    have hftable : stored.1.ftable = allocated.1.ftable := by
      rw [storeFd_failed hplace hplace' hfail hstore, fdAlloc_ftable hplace',
        fdAlloc_ftable hplace]
    rw [← hftable] at hread hwrite
    obtain ⟨hclose, hpage⟩ := fileClose_page hread hclose
    rw [← fileClose_end hread hclose write (Ne.symm hne)] at hwrite
    obtain ⟨hclose', hpage'⟩ := fileClose_page hwrite hclose'
    refine ⟨⟨pipe.toNat, ?_⟩, ?_⟩
    · unfold sysPipe
      rw [Exec.bind_of_ok halloc]
      dsimp only
      rw [Exec.bind_of_ok hplace, Exec.bind_of_ok hplace', if_pos hfail,
        Exec.bind_of_ok hstore, Exec.bind_of_ok hclose, Exec.bind_of_ok hclose']
      rfl
    · obtain ⟨hname, hlarge⟩ := name.toUInt32_toNat
      rw [← hs₁, ← hs₂, ← hs₃] at hcnt hallocable
      obtain ⟨hregion, hleft⟩ := @pipeClosePage_unlisted _ _ _ _ 1 false
        (by rw [hcnt, hname]; exact hlarge) hpage
      obtain ⟨hregion', _⟩ := @pipeClosePage_unlisted _ _ _ _ 0 true hleft hpage'
      intro hsame
      have hkern : (st'.2.region true).allocable = (st.2.region true).allocable := hsame true
      rw [hregion', hregion] at hkern
      exact hallocable hkern

end

/-- `sys_open` closes the file that it finds no descriptor for. -/
theorem sysOpen_noTrace {junk : Junk} {path : List UInt8} {openMode : UInt32}
    (hrun : sysOpen p junk path openMode k = .ok (none, k')) :
    LeavesNoTrace p k k' := by
  unfold sysOpen procCwd at hrun
  rw [bind_assoc, readProc_bind, deref_bind_eq_ok] at hrun
  obtain ⟨cwd, _, hrun⟩ := hrun
  rw [Exec.bind_eq_ok] at hrun
  obtain ⟨file, opened, hopen, hrun⟩ := hrun
  obtain ⟨hprocs, hrefs⟩ := OpenRun.fileOpen_counts hopen
  cases file with
  | none =>
      cases hrun
      exact ⟨by rw [hprocs], refs_eq_of_toNat hrefs⟩
  | some f =>
      dsimp only at hrun
      rw [Exec.bind_eq_ok] at hrun
      obtain ⟨fd, placed, hplace, hrun⟩ := hrun
      split at hrun
      · rw [Exec.bind_eq_ok] at hrun
        obtain ⟨_, closed, hclose, hend⟩ := hrun
        cases hend
        obtain ⟨hprocs', hrefs'⟩ := OpenRun.fileClose_counts hclose
        rcases OpenRun.fdAlloc_result hplace with ⟨_, rfl, _⟩ | ⟨_, hsome, _⟩
        · refine ⟨by rw [hprocs', hprocs], refs_eq_of_toNat fun g => ?_⟩
          have hopened := hrefs g
          have hclosed := hrefs' g
          omega
        · cases hsome
      · next hsome =>
        cases hrun
        exact absurd rfl hsome

/-- Which of the failing calls leave everything as it was: `sys_pipe` never does. -/
theorem failed_calls_iff (p : ProcId) (k k' : KernelState) :
    (∀ fd, sysDup p fd k = .ok (none, k') →
      ((LeavesNoTrace p k k' ∧ k'.pipes = k.pipes) ↔ ¬IsOpen p k fd)) ∧
    (∀ name s s', PipeM.sysPipe p name (k, s) = .ok (pipeError, k', s') →
      (LeavesNoTrace p k k' ↔ ∀ fd, (k.procs p).filelist fd ≠ none) ∧
        ¬LeavesNoPage s s') ∧
    ∀ junk path openMode, sysOpen p junk path openMode k = .ok (none, k') →
      LeavesNoTrace p k k' := by
  refine ⟨fun _ hrun => sysDup_noTrace_iff hrun, ?_, fun _ _ _ hrun => sysOpen_noTrace hrun⟩
  intro name s s' hrun
  obtain ⟨⟨page, hfiles⟩, hlost⟩ := sysPipe_page hrun
  exact ⟨sysPipe_noTrace_iff hfiles, hlost⟩

end

/-! A process whose first `count` descriptors name one file. -/

def crowdedTable (count : Nat) : KernelState :=
  let k := KernelState.booted 0
  let k := k.setFile 0 { File.zero with type := fdFile, ref := UInt32.ofNat count }
  k.setProc 0 { Proc.free with
    state := .running
    filelist := fun fd => if fd.val < count then some 0 else none }

def onePage : MemState where
  mem := fun _ => 0
  kernRegion := ⟨0x1000, 0x2000, 1, 0x1000⟩
  userRegion := ⟨0x2000, 0x2000, 0, 0⟩
  kernelPgtbl := 0
  freed := []

def pipeName : Literal := ⟨0x80010000, by decide, by decide⟩

/-- The state that a call leaves, if it has the given result. -/
def leftBy {σ α : Type} [DecidableEq α] (m : Exec σ Stop α) (result : α) (st : σ) :
    Option σ :=
  match m st with
  | .ok (value, st') => if value = result then some st' else none
  | .error _ => none

theorem leftBy_eq_some {σ α : Type} [DecidableEq α] {m : Exec σ Stop α} {result : α}
    {st st' : σ} : leftBy m result st = some st' ↔ m st = .ok (result, st') := by
  unfold leftBy
  cases m st with
  | error reason => simp
  | ok pair =>
      obtain ⟨value, after⟩ := pair
      by_cases hvalue : value = result
      · simp [hvalue]
      · simp [hvalue]

theorem failed_calls_iff_crowded :
    ∃ k' s', PipeM.sysPipe 0 pipeName (crowdedTable 10, onePage) = .ok (pipeError, k', s') ∧
      LeavesNoTrace 0 (crowdedTable 10) k' ∧ ¬LeavesNoPage onePage s' := by
  have hsome : (leftBy (PipeM.sysPipe 0 pipeName) pipeError
      (crowdedTable 10, onePage)).isSome := by
    decide +kernel
  obtain ⟨⟨k', s'⟩, hst'⟩ := Option.isSome_iff_exists.mp hsome
  have hrun := leftBy_eq_some.mp hst'
  obtain ⟨hiff, hlost⟩ := (failed_calls_iff 0 (crowdedTable 10) k').2.1 _ _ _ hrun
  exact ⟨k', s', hrun, hiff.mpr (by decide +kernel), hlost⟩

/-- Ten descriptors are in use: `sys_dup` takes the count of the file from 10 to 11, and
`sys_pipe` keeps a page.  Nine are in use: the last one names a closed end of a pipe. -/
theorem failed_calls_leave_traces :
    (¬∀ p fd k k', sysDup p fd k = .ok (none, k') → LeavesNoTrace p k k') ∧
      (¬∀ p name k k' s s', PipeM.sysPipe p name (k, s) = .ok (pipeError, k', s') →
        LeavesNoTrace p k k') ∧
      ¬∀ p name k k' s s', PipeM.sysPipe p name (k, s) = .ok (pipeError, k', s') →
        LeavesNoPage s s' := by
  refine ⟨fun h => ?_, fun h => ?_, fun h => ?_⟩
  · have hrefs : (leftBy (sysDup 0 0) none (crowdedTable 10)).map
        (fun k' => (k'.ftable 0).ref) = some 11 := by
      decide +kernel
    obtain ⟨k', hk', href⟩ := Option.map_eq_some_iff.mp hrefs
    have hsame := (h 0 0 (crowdedTable 10) k' (leftBy_eq_some.mp hk')).2 0
    rw [href] at hsame
    exact absurd hsame (by decide)
  · have hlist : (leftBy (PipeM.sysPipe 0 pipeName) pipeError
        (crowdedTable 9, onePage)).map (fun st => (st.1.procs 0).filelist 9) =
          some (some 1) := by
      decide +kernel
    obtain ⟨⟨k', s'⟩, hst', hslot⟩ := Option.map_eq_some_iff.mp hlist
    have hsame := (h 0 pipeName (crowdedTable 9) k' onePage s' (leftBy_eq_some.mp hst')).1
    dsimp only at hslot
    rw [hsame] at hslot
    exact absurd hslot (by decide +kernel)
  · have hpages : (leftBy (PipeM.sysPipe 0 pipeName) pipeError
        (crowdedTable 10, onePage)).map (fun st => st.2.kernRegion.allocable) =
          some 0 := by
      decide +kernel
    obtain ⟨⟨k', s'⟩, hst', hallocable⟩ := Option.map_eq_some_iff.mp hpages
    have hsame := h 0 pipeName (crowdedTable 10) k' onePage s' (leftBy_eq_some.mp hst') true
    have hzero : (s'.region true).allocable = 0 := hallocable
    rw [hzero] at hsame
    exact absurd hsame (by decide)

end UnoOS.Kernel
