import UnoOS.Kernel.FileCounts

namespace UnoOS.Kernel

open UnoOS.Lib
open UnoOS.Fs
open UnoOS.Lib.Exec (StopsWith)

/-! References to open files over runs of system calls. -/

namespace OpenRun

inductive Call where
  | open (path : List UInt8) (openMode : UInt32)
  | close (fd : UInt32)
  | dup (fd : UInt32)
  /-- With the page that `pmem_alloc` returns. -/
  | pipe (page : PipeId)
  | fork
  | exit
  | wait

structure Op where
  caller : ProcId
  junk : Junk
  call : Call

def exec (op : Op) : KernelM Unit :=
  match op.call with
  | .open path openMode => do
      let _ ← sysOpen op.caller op.junk path openMode
  | .close fd => do let _ ← sysClose op.caller fd
  | .dup fd => do let _ ← sysDup op.caller fd
  | .pipe page => do let _ ← sysPipe op.caller page
  | .fork => do let _ ← procFork op.caller
  | .exit => procExit op.caller
  | .wait => do let _ ← procWait op.caller

/-- One call of a live process; `none` if it does not return. -/
def step (k : KernelState) (op : Op) : Option KernelState :=
  if (k.procs op.caller).Live then
    match exec op k with
    | .ok (_, k') => some k'
    | .error _ => none
  else none

/-- The counts are exact and no call is about to hit an assertion. -/
def Sound (k : KernelState) : Prop :=
  FilesExact k ∧ ∀ op reason, (k.procs op.caller).Live →
    exec op k = .error reason → ¬ FileAssertion reason

/-- `fork` finds a slot for the child without pointers of its own, `dup` finds a
descriptor, and `pipe` finds both or none. -/
def KeepsCount (k : KernelState) (op : Op) : Prop :=
  match op.call with
  | .fork => ∀ child, First (fun q => (k.procs q).state = .unused) child →
      ∀ fd, (k.procs op.caller).filelist fd = none →
        (k.procs child).filelist fd = none
  | .dup fd => (∃ h : fd.toNat < filePerProc,
        (k.procs op.caller).filelist ⟨fd.toNat, h⟩ ≠ none) →
      ∃ free, (k.procs op.caller).filelist free = none
  | .pipe _ => ¬ ∃! fd, (k.procs op.caller).filelist fd = none
  | _ => True

variable {k k' : KernelState} {p : ProcId} {f g : FileId}

/-! System calls. -/

theorem bind_unit_eq_ok {α : Type} {m : KernelM α} {value : Unit}
    (hrun : (do let _ ← m : KernelM Unit) k = .ok (value, k')) :
    ∃ result, m k = .ok (result, k') := by
  obtain ⟨result, s', hm, hend⟩ := Exec.bind_eq_ok.mp hrun
  cases hend
  exact ⟨result, hm⟩

theorem bind_unit_eq_error {α : Type} {m : KernelM α} {reason : Stop}
    (hrun : (do let _ ← m : KernelM Unit) k = .error reason) :
    m k = .error reason := by
  rcases Exec.bind_eq_error.mp hrun with hm | ⟨_, _, _, hend⟩
  · exact hm
  · cases hend

theorem sysOpen_exact {junk : Junk} {path : List UInt8} {openMode : UInt32}
    {result : Option (Fin filePerProc)} (h : FilesExact k)
    (hused : (k.procs p).state ≠ .unused)
    (hrun : sysOpen p junk path openMode k = .ok (result, k')) :
    FilesExact k' := by
  unfold sysOpen procCwd at hrun
  rw [bind_assoc, readProc_bind, deref_bind_eq_ok] at hrun
  obtain ⟨cwd, _, hrun⟩ := hrun
  rw [Exec.bind_eq_ok] at hrun
  obtain ⟨file, opened, hopen, hrun⟩ := hrun
  obtain ⟨hprocs, hrefs⟩ := fileOpen_counts hopen
  have hsame : ∀ g, openCount opened g = openCount k g := by
    intro g
    unfold openCount
    rw [hprocs]
  cases file with
  | none =>
      cases hrun
      apply FilesExact.of_counted
      intro g
      rw [hrefs, hsame, h.counted, points_none, Nat.add_zero]
  | some f =>
      dsimp only at hrun
      rw [Exec.bind_eq_ok] at hrun
      obtain ⟨fd, placed, hplace, hrun⟩ := hrun
      obtain ⟨hftable, _, hcount⟩ := fdAlloc_counts (by rwa [hprocs]) hplace
      split at hrun
      · next hnone =>
        rw [Exec.bind_eq_ok] at hrun
        obtain ⟨_, closed, hclose, hend⟩ := hrun
        cases hend
        obtain ⟨hprocs', hrefs'⟩ := fileClose_counts hclose
        apply FilesExact.of_counted
        intro g
        have hclosed := hrefs' g
        have hplaced := hcount g
        rw [if_pos hnone, hsame] at hplaced
        rw [hftable, hrefs, h.counted] at hclosed
        have hlast : openCount k' g = openCount placed g := by
          unfold openCount
          rw [hprocs']
        omega
      · next hsome =>
        cases hrun
        apply FilesExact.of_counted
        intro g
        rw [hftable, hcount, if_neg hsome, hsame, hrefs, h.counted]

theorem sysClose_exact {fd : UInt32} {result : Bool} (h : FilesExact k)
    (hused : (k.procs p).state ≠ .unused)
    (hrun : sysClose p fd k = .ok (result, k')) : FilesExact k' := by
  unfold sysClose at hrun
  rw [Exec.bind_eq_ok] at hrun
  obtain ⟨found, same, harg, hrun⟩ := hrun
  obtain ⟨rfl, ⟨rfl, _⟩ | ⟨hlt, f, rfl, hfd⟩⟩ := argFd_result harg
  · cases hrun
    exact h
  · dsimp only at hrun
    rw [readProc_bind, writeProc_bind, Exec.bind_eq_ok] at hrun
    obtain ⟨_, closed, hclose, hend⟩ := hrun
    cases hend
    obtain ⟨hprocs, hrefs⟩ := fileClose_counts hclose
    apply FilesExact.of_counted
    intro g
    have hclosed := hrefs g
    have hcount := openCount_setFd hused hprocs g
    rw [hfd, points_none] at hcount
    rw [KernelState.setProc_ftable, h.counted] at hclosed
    omega

theorem sysDup_exact_iff {fd : UInt32} {result : Option (Fin filePerProc)}
    (h : FilesExact k) (hused : (k.procs p).state ≠ .unused)
    (hrun : sysDup p fd k = .ok (result, k')) :
    ((∃ h : fd.toNat < filePerProc,
        (k.procs p).filelist ⟨fd.toNat, h⟩ ≠ none) →
      ∃ free, (k.procs p).filelist free = none) ↔ FilesExact k' := by
  unfold sysDup at hrun
  rw [Exec.bind_eq_ok] at hrun
  obtain ⟨found, same, harg, hrun⟩ := hrun
  obtain ⟨rfl, ⟨rfl, hnone⟩ | ⟨hlt, f, rfl, hfd⟩⟩ := argFd_result harg
  · cases hrun
    exact iff_of_true (fun hopen => absurd hopen hnone) h
  · dsimp only at hrun
    rw [Exec.bind_eq_ok] at hrun
    obtain ⟨newFd, placed, hplace, hrun⟩ := hrun
    rw [Exec.bind_eq_ok] at hrun
    obtain ⟨_, dupped, hdup, hend⟩ := hrun
    cases hend
    obtain ⟨_, hprocs, _, hrefs⟩ := fileDup_counts hdup
    obtain ⟨hftable, _, hcount⟩ := fdAlloc_counts hused hplace
    have hlast : ∀ g, openCount k' g = openCount placed g := by
      intro g
      unfold openCount
      rw [hprocs]
    have hroom : ∀ g, (same.ftable g).ref.toNat + points g (some f) < 2 ^ 32 := by
      intro g
      have hle := openCount_le same g
      have hone := points_le g (some f)
      rw [h.counted]
      simp only [nProc, filePerProc] at hle
      omega
    rcases fdAlloc_result hplace with ⟨rfl, _, hfull⟩ | ⟨free, rfl, hfree, _⟩
    · refine iff_of_false ?_ ?_
      · intro hkeeps
        obtain ⟨free, hfree⟩ := hkeeps ⟨hlt, by rw [hfd]; exact nofun⟩
        exact hfull free hfree
      · intro hexact
        have hbroken := hexact.counted f
        rw [hrefs, hftable, Nat.mod_eq_of_lt (hroom f), hlast, hcount, if_pos rfl,
          h.counted, points_self] at hbroken
        omega
    · refine iff_of_true (fun _ => ⟨free, hfree⟩) ?_
      apply FilesExact.of_counted
      intro g
      rw [hrefs, hftable, Nat.mod_eq_of_lt (hroom g), hlast, hcount,
        if_neg (by exact nofun), h.counted]

theorem sysPipe_exact_iff {page : PipeId} {result : UInt32} (h : FilesExact k)
    (hused : (k.procs p).state ≠ .unused)
    (hrun : sysPipe p page k = .ok (result, k')) :
    (¬ ∃! fd, (k.procs p).filelist fd = none) ↔ FilesExact k' := by
  unfold sysPipe at hrun
  rw [Exec.bind_eq_ok] at hrun
  obtain ⟨⟨read, write⟩, allocated, halloc, hrun⟩ := hrun
  obtain ⟨hprocs, hne, hrefs⟩ := pipeAlloc_counts halloc
  dsimp only at hrun hne hrefs
  have hsame : ∀ g, openCount allocated g = openCount k g := by
    intro g
    unfold openCount
    rw [hprocs]
  rw [Exec.bind_eq_ok] at hrun
  obtain ⟨readfd, placed, hplace, hrun⟩ := hrun
  rw [Exec.bind_eq_ok] at hrun
  obtain ⟨writefd, placed', hplace', hrun⟩ := hrun
  obtain ⟨hftable, hused', hcount⟩ := fdAlloc_counts (by rwa [hprocs]) hplace
  obtain ⟨hftable', _, hcount'⟩ := fdAlloc_counts hused' hplace'
  split at hrun
  · next hfail =>
    -- the ends are closed again
    rw [Exec.bind_eq_ok] at hrun
    obtain ⟨_, stored, hstore, hrun⟩ := hrun
    have hstored : stored = placed' := by
      apply storeFd_same _ hstore
      intro free hfree
      rcases fdAlloc_result hplace with ⟨rfl, _⟩ | ⟨free', rfl, _, rfl⟩
      · cases hfree
      · cases hfree
        have hwrite : writefd = none := by
          rcases hfail with hfail | hfail
          · cases hfail
          · exact hfail
        rcases fdAlloc_result hplace' with ⟨_, rfl, _⟩ | ⟨_, hsome, _⟩
        · simp
        · rw [hwrite] at hsome
          cases hsome
    subst hstored
    rw [Exec.bind_eq_ok] at hrun
    obtain ⟨_, closed, hclose, hrun⟩ := hrun
    rw [Exec.bind_eq_ok] at hrun
    obtain ⟨_, closed', hclose', hend⟩ := hrun
    cases hend
    obtain ⟨hprocs₁, hrefs₁⟩ := fileClose_counts hclose
    obtain ⟨hprocs₂, hrefs₂⟩ := fileClose_counts hclose'
    have hlast : ∀ g, openCount k' g = openCount stored g := by
      intro g
      unfold openCount
      rw [hprocs₂, hprocs₁]
    have hkept : ∀ g, (k'.ftable g).ref.toNat = (k.ftable g).ref.toNat := by
      intro g
      have h₁ := hrefs₁ g
      have h₂ := hrefs₂ g
      rw [hftable', hftable, hrefs] at h₁
      omega
    rcases fdAlloc_result hplace with ⟨rfl, rfl, hfull⟩ | ⟨free, rfl, hfree, rfl⟩
    · -- no descriptor at all
      rw [hprocs] at hfull
      refine iff_of_true ?_ ?_
      · intro hone
        obtain ⟨free, hfree, _⟩ := hone
        exact hfull free hfree
      · have hwrite : writefd = none := by
          rcases fdAlloc_result hplace' with ⟨hwrite, _⟩ | ⟨free, _, hfree, _⟩
          · exact hwrite
          · rw [hprocs] at hfree
            exact absurd hfree (hfull free)
        apply FilesExact.of_counted
        intro g
        have hnone := hcount' g
        rw [if_pos hwrite, hsame, Nat.add_zero] at hnone
        rw [hkept, hlast, hnone, h.counted]
    · -- one descriptor
      have hwrite : writefd = none := by
        rcases hfail with hfail | hfail
        · cases hfail
        · exact hfail
      have hfull : ∀ other, Function.update (k.procs p).filelist free (some read)
          other ≠ none := by
        rcases fdAlloc_result hplace' with ⟨_, _, hfull⟩ | ⟨_, hsome, _⟩
        · simpa [hprocs] using hfull
        · rw [hwrite] at hsome
          cases hsome
      rw [hprocs] at hfree
      refine iff_of_false ?_ ?_
      · intro hmany
        apply hmany
        refine ⟨free, hfree, ?_⟩
        intro other hother
        by_contra hdiff
        have hnone := hfull other
        rw [Function.update_of_ne hdiff] at hnone
        exact hnone hother
      · intro hexact
        have hbroken := hexact.counted read
        rw [hkept, hlast, hcount', if_pos hwrite, hcount, if_neg (by exact nofun),
          hsame, h.counted, points_self] at hbroken
        omega
  · next hboth =>
    cases hrun
    rw [not_or] at hboth
    refine iff_of_true ?_ ?_
    · rcases fdAlloc_result hplace with ⟨hnone, _⟩ | ⟨free, rfl, hfree, rfl⟩
      · exact absurd hnone hboth.1
      · rcases fdAlloc_result hplace' with ⟨hnone, _⟩ | ⟨free', rfl, hfree', _⟩
        · exact absurd hnone hboth.2
        · rw [hprocs] at hfree
          rw [KernelState.setProc_procs, Function.update_self, hprocs] at hfree'
          change Function.update (k.procs p).filelist free (some read) free' = none
            at hfree'
          intro hone
          obtain ⟨only, _, honly⟩ := hone
          have hdiff : free' ≠ free := by
            intro heq
            subst heq
            rw [Function.update_self] at hfree'
            cases hfree'
          rw [Function.update_of_ne hdiff] at hfree'
          exact hdiff ((honly free' hfree').trans (honly free hfree).symm)
    · apply FilesExact.of_counted
      intro g
      rw [hftable', hftable, hrefs, hcount', if_neg hboth.2, hcount,
        if_neg hboth.1, hsame, h.counted]

theorem procFork_exact_iff {pid : UInt32} (h : FilesExact k)
    (hused : (k.procs p).state ≠ .unused)
    (hrun : procFork p k = .ok (pid, k')) :
    (∀ child, First (fun q => (k.procs q).state = .unused) child →
      ∀ fd, (k.procs p).filelist fd = none →
        (k.procs child).filelist fd = none) ↔ FilesExact k' := by
  unfold procFork at hrun
  rw [Exec.bind_eq_ok] at hrun
  obtain ⟨child, k₁, halloc, hrun⟩ := hrun
  have hforking := procAlloc_forking hused halloc
  rw [Exec.bind_eq_ok] at hrun
  obtain ⟨_, copied, hcopy, hrun⟩ := hrun
  obtain ⟨hprocs, hrefs⟩ :=
    copyFiles_counts hforking.other (hforking.room h) hcopy
  rw [readProc_bind, deref_bind_eq_ok] at hrun
  obtain ⟨cwd, _, hrun⟩ := hrun
  rw [liftFs_bind_eq_ok] at hrun
  obtain ⟨cwd', fs, _, hrun⟩ := hrun
  rw [readProc_bind, writeProc_bind] at hrun
  cases hrun
  rw [hforking.parent, hforking.filelist] at hprocs
  have hbefore : ∀ g, openCount copied g = openCount k g := by
    intro g
    have hcount := openCount_update hprocs g
    simp only [descriptors, hforking.unused, if_true] at hcount
    rw [hforking.count, Nat.add_zero, Nat.add_zero] at hcount
    exact hcount
  have hafter : ∀ g, openCount
      ({ copied with fs := fs }.setProc child { copied.procs child with
        cwd := some cwd', state := .runnable, parent := some p }) g =
      openCount k g + census (points g) (mergeFds (k.procs p).filelist
        (k.procs child).filelist (List.finRange filePerProc)) := by
    intro g
    have hlist : (copied.procs child).filelist = mergeFds (k.procs p).filelist
        (k.procs child).filelist (List.finRange filePerProc) := by
      rw [hprocs, Function.update_self]
    have hslot : (copied.procs child).state = .unused := by
      rw [hprocs, Function.update_self]
      exact hforking.unused
    have hstarted := openCount_started (by exact hslot)
      (KernelState.setProc_procs { copied with fs := fs } child
        { copied.procs child with
          cwd := some cwd', state := .runnable, parent := some p })
      (by
        intro heq
        cases heq) g
    have hfs : openCount { copied with fs := fs } g = openCount k g := hbefore g
    rw [hfs] at hstarted
    rw [← hlist]
    exact hstarted
  have hsum : ∀ g, (copied.ftable g).ref.toNat =
      openCount k g + census (points g) (k.procs p).filelist := by
    intro g
    rw [hrefs, hforking.ftable, hforking.parent, h.counted]
    have hsum := sum_finRange_points (k.procs p).filelist g
    rw [List.map_map] at hsum
    rw [← hsum]
    rfl
  constructor
  · intro hkeeps
    apply FilesExact.of_counted
    intro g
    have hmerge := (merge_exact_iff _ _).mp (hkeeps child hforking.first) g
    rw [hafter, hmerge]
    exact hsum g
  · intro hexact child' hchild'
    rw [hchild'.unique hforking.first]
    refine (merge_exact_iff _ _).mpr ?_
    intro g
    have hcounted := hexact.counted g
    rw [hafter] at hcounted
    have hsum' := hsum g
    change (copied.ftable g).ref.toNat = _ at hcounted
    omega

theorem procExit_exact {value : Unit} (h : FilesExact k)
    (hused : (k.procs p).state ≠ .unused)
    (hrun : procExit p k = .ok (value, k')) : FilesExact k' := by
  unfold procExit procReparent at hrun
  rw [readProc_bind, kassert_bind_eq_ok] at hrun
  obtain ⟨_, hrun⟩ := hrun
  rw [deref_bind_eq_ok] at hrun
  obtain ⟨parent, _, hrun⟩ := hrun
  rw [Exec.bind_of_ok (m := modify _) rfl, readProc_bind] at hrun
  cases hrun
  apply FilesExact.of_counted
  intro g
  rw [openCount_congr (k := k)]
  · exact h.counted g
  · intro q
    rw [KernelState.setProc_procs, Function.update_apply]
    split
    · next hq =>
      rw [hq]
      exact iff_of_false nofun hused
    · dsimp only
      split <;> rfl
  · intro q
    rw [KernelState.setProc_procs, Function.update_apply]
    split
    · next hq =>
      rw [hq]
      dsimp only
      split <;> rfl
    · dsimp only
      split <;> rfl

theorem zombie_used {q : ProcId} {l : List ProcId}
    (hfind : l.find? (fun q => (k.procs q).state = .zombie) = some q) :
    (k.procs q).state ≠ .unused := by
  have hzombie : (k.procs q).state = .zombie := by
    simpa using List.find?_some hfind
  rw [hzombie]
  exact nofun

theorem procWait_exact {pid : UInt32} (h : FilesExact k)
    (hrun : procWait p k = .ok (pid, k')) : FilesExact k' := by
  unfold procWait at hrun
  rw [Exec.bind_of_ok (m := get) rfl] at hrun
  cases hfind : ((List.finRange nProc).filter fun q =>
      (k.procs q).parent = some p).find? fun q =>
        (k.procs q).state = .zombie with
  | some q =>
      rw [hfind] at hrun
      dsimp only at hrun
      rw [Exec.bind_eq_ok] at hrun
      obtain ⟨_, freed, hfree, hend⟩ := hrun
      cases hend
      exact procFree_counts (zombie_used hfind) h hfree
  | none =>
      rw [hfind] at hrun
      dsimp only at hrun
      rw [Exec.require_bind_eq_ok] at hrun
      cases hrun.2
      exact h

/-! No call of a live process hits an assertion. -/

theorem sysOpen_stops {junk : Junk} {path : List UInt8} {openMode : UInt32}
    {reason : Stop} (hrun : sysOpen p junk path openMode k = .error reason) :
    ¬ FileAssertion reason := by
  unfold sysOpen at hrun
  rcases Exec.bind_eq_error.mp hrun with hcwd | ⟨cwd, k₁, hcwd, hrun⟩
  · exact quiet_procCwd p k reason hcwd
  rcases Exec.bind_eq_error.mp hrun with hopen | ⟨file, opened, hopen, hrun⟩
  · exact quiet_fileOpen cwd junk path openMode k₁ reason hopen
  cases file with
  | none => cases hrun
  | some f =>
      dsimp only at hrun
      rcases Exec.bind_eq_error.mp hrun with hplace | ⟨fd, placed, hplace, hrun⟩
      · exact quiet_fdAlloc p f opened reason hplace
      split at hrun
      · next hnone =>
        rcases Exec.bind_eq_error.mp hrun with hclose | ⟨_, _, _, hend⟩
        · intro hassert
          have hzero := fileClose_stops hclose hassert
          rcases fdAlloc_result hplace with ⟨_, rfl, _⟩ | ⟨free, hsome, _⟩
          · rw [(fileOpen_counts hopen).2, points_self] at hzero
            omega
          · rw [hnone] at hsome
            cases hsome
        · cases hend
      · cases hrun

theorem sysClose_stops {fd : UInt32} {reason : Stop} (h : FilesExact k)
    (hused : (k.procs p).state ≠ .unused)
    (hrun : sysClose p fd k = .error reason) : ¬ FileAssertion reason := by
  unfold sysClose at hrun
  rcases Exec.bind_eq_error.mp hrun with harg | ⟨found, same, harg, hrun⟩
  · exact quiet_argFd p fd k reason harg
  obtain ⟨rfl, ⟨rfl, _⟩ | ⟨hlt, f, rfl, hfd⟩⟩ := argFd_result harg
  · cases hrun
  · dsimp only at hrun
    rw [readProc_bind, writeProc_bind] at hrun
    rcases Exec.bind_eq_error.mp hrun with hclose | ⟨_, _, _, hend⟩
    · intro hassert
      have hzero := fileClose_stops hclose hassert
      have hpos := UInt32.le_iff_toNat_le.mp (h.referenced p _ f hused hfd)
      rw [KernelState.setProc_ftable] at hzero
      rw [hzero] at hpos
      exact absurd hpos (by decide)
    · cases hend

theorem sysDup_stops {fd : UInt32} {reason : Stop} (h : FilesExact k)
    (hused : (k.procs p).state ≠ .unused)
    (hrun : sysDup p fd k = .error reason) : ¬ FileAssertion reason := by
  unfold sysDup at hrun
  rcases Exec.bind_eq_error.mp hrun with harg | ⟨found, same, harg, hrun⟩
  · exact quiet_argFd p fd k reason harg
  obtain ⟨rfl, ⟨rfl, _⟩ | ⟨hlt, f, rfl, hfd⟩⟩ := argFd_result harg
  · cases hrun
  · dsimp only at hrun
    rcases Exec.bind_eq_error.mp hrun with hplace | ⟨newFd, placed, hplace, hrun⟩
    · exact quiet_fdAlloc p f same reason hplace
    rcases Exec.bind_eq_error.mp hrun with hdup | ⟨_, _, _, hend⟩
    · have hzero := fileDup_stops hdup
      have hpos := UInt32.le_iff_toNat_le.mp (h.referenced p _ f hused hfd)
      rw [(fdAlloc_counts hused hplace).1] at hzero
      rw [hzero] at hpos
      exact absurd hpos (by decide)
    · cases hend

theorem sysPipe_stops {page : PipeId} {reason : Stop}
    (hused : (k.procs p).state ≠ .unused)
    (hrun : sysPipe p page k = .error reason) : ¬ FileAssertion reason := by
  unfold sysPipe at hrun
  rcases Exec.bind_eq_error.mp hrun with halloc | ⟨⟨read, write⟩, allocated,
    halloc, hrun⟩
  · exact quiet_pipeAlloc page k reason halloc
  obtain ⟨hprocs, hne, hrefs⟩ := pipeAlloc_counts halloc
  dsimp only at hrun hne hrefs
  rcases Exec.bind_eq_error.mp hrun with hplace | ⟨readfd, placed, hplace, hrun⟩
  · exact quiet_fdAlloc p read allocated reason hplace
  rcases Exec.bind_eq_error.mp hrun with hplace' | ⟨writefd, placed', hplace', hrun⟩
  · exact quiet_fdAlloc p write placed reason hplace'
  obtain ⟨hftable, hused', _⟩ := fdAlloc_counts (by rwa [hprocs]) hplace
  obtain ⟨hftable', _, _⟩ := fdAlloc_counts hused' hplace'
  split at hrun
  · rcases Exec.bind_eq_error.mp hrun with hstore | ⟨_, stored, hstore, hrun⟩
    · exact quiet_storeFd p read readfd placed' reason hstore
    have hopen : ∀ g, (stored.ftable g).ref.toNat = (k.ftable g).ref.toNat +
        points g (some read) + points g (some write) := by
      intro g
      rw [storeFd_ftable hstore, hftable', hftable, hrefs]
    rcases Exec.bind_eq_error.mp hrun with hclose | ⟨_, closed, hclose, hrun⟩
    · intro hassert
      have hzero := fileClose_stops hclose hassert
      rw [hopen, points_self] at hzero
      omega
    rcases Exec.bind_eq_error.mp hrun with hclose' | ⟨_, _, _, hend⟩
    · intro hassert
      have hzero := fileClose_stops hclose' hassert
      have hfirst := (fileClose_counts hclose).2 write
      rw [hopen, hzero, points_self] at hfirst
      omega
    · cases hend
  · cases hrun

theorem procFork_stops {reason : Stop} (h : FilesExact k)
    (hused : (k.procs p).state ≠ .unused)
    (hrun : procFork p k = .error reason) : ¬ FileAssertion reason := by
  unfold procFork at hrun
  rcases Exec.bind_eq_error.mp hrun with halloc | ⟨child, k₁, halloc, hrun⟩
  · exact quiet_procAlloc k reason halloc
  have hforking := procAlloc_forking hused halloc
  rcases Exec.bind_eq_error.mp hrun with hcopy | ⟨_, copied, _, hrun⟩
  · refine copyFiles_stops hforking.other (hforking.room h) ?_ hcopy
    intro fd g hfd
    rw [hforking.parent] at hfd
    rw [hforking.ftable]
    exact UInt32.le_iff_toNat_le.mp (h.referenced p fd g hused hfd)
  · have hrest : StopsWith Quiet (do
        let cwd ← deref (← readProc p).cwd
        let cwd ← liftFs (inodeDup cwd)
        let proc ← readProc child
        writeProc child { proc with
          cwd := some cwd, state := .runnable, parent := some p }
        return proc.pid) := by
      apply (quiet_readProc p).bind
      intro parent
      apply (quiet_deref parent.cwd).bind
      intro cwd
      apply (quiet_liftFs (stops_inodeDup cwd)).bind
      intro cwd
      apply (quiet_readProc child).bind
      intro proc
      exact (quiet_writeProc _ _).bind fun _ => .pure_intro _
    exact hrest copied reason hrun

theorem procWait_stops {reason : Stop} (h : FilesExact k)
    (hrun : procWait p k = .error reason) : ¬ FileAssertion reason := by
  unfold procWait at hrun
  rw [Exec.bind_of_ok (m := get) rfl] at hrun
  cases hfind : ((List.finRange nProc).filter fun q =>
      (k.procs q).parent = some p).find? fun q =>
        (k.procs q).state = .zombie with
  | some q =>
      rw [hfind] at hrun
      dsimp only at hrun
      rcases Exec.bind_eq_error.mp hrun with hfree | ⟨_, _, _, hend⟩
      · exact procFree_stops (zombie_used hfind) h hfree
      · cases hend
  | none =>
      rw [hfind] at hrun
      dsimp only at hrun
      have hsleeps : Quiet .sleeps := by simp [Quiet, FileAssertion]
      exact (StopsWith.require_intro hsleeps).bind (fun _ => .pure_intro _) k
        reason hrun

theorem exec_stops {op : Op} {reason : Stop} (h : FilesExact k)
    (hlive : (k.procs op.caller).Live) (hrun : exec op k = .error reason) :
    ¬ FileAssertion reason := by
  obtain ⟨caller, junk, call⟩ := op
  have hused : (k.procs caller).state ≠ .unused := hlive.1
  cases call with
  | «open» path openMode => exact sysOpen_stops (bind_unit_eq_error hrun)
  | close fd => exact sysClose_stops h hused (bind_unit_eq_error hrun)
  | dup fd => exact sysDup_stops h hused (bind_unit_eq_error hrun)
  | pipe page => exact sysPipe_stops hused (bind_unit_eq_error hrun)
  | fork => exact procFork_stops h hused (bind_unit_eq_error hrun)
  | exit => exact quiet_procExit caller k reason hrun
  | wait => exact procWait_stops h (bind_unit_eq_error hrun)

theorem sound_iff : Sound k ↔ FilesExact k :=
  ⟨fun h => h.1, fun h => ⟨h, fun _ _ hlive hrun => exec_stops h hlive hrun⟩⟩

/-- A call keeps the counts exactly when the condition holds of it. -/
theorem step_sound_iff {op : Op} (h : Sound k) (hstep : step k op = some k') :
    KeepsCount k op ↔ Sound k' := by
  rw [sound_iff] at h ⊢
  unfold step at hstep
  split at hstep
  · next hlive =>
    cases hexec : exec op k with
    | error reason =>
        rw [hexec] at hstep
        cases hstep
    | ok pair =>
        rw [hexec] at hstep
        cases hstep
        obtain ⟨caller, junk, call⟩ := op
        have hused : (k.procs caller).state ≠ .unused := hlive.1
        cases call with
        | «open» path openMode =>
            obtain ⟨_, hrun⟩ := bind_unit_eq_ok hexec
            exact iff_of_true trivial (sysOpen_exact h hused hrun)
        | close fd =>
            obtain ⟨_, hrun⟩ := bind_unit_eq_ok hexec
            exact iff_of_true trivial (sysClose_exact h hused hrun)
        | dup fd =>
            obtain ⟨_, hrun⟩ := bind_unit_eq_ok hexec
            exact sysDup_exact_iff h hused hrun
        | pipe page =>
            obtain ⟨_, hrun⟩ := bind_unit_eq_ok hexec
            exact sysPipe_exact_iff h hused hrun
        | fork =>
            obtain ⟨_, hrun⟩ := bind_unit_eq_ok hexec
            exact procFork_exact_iff h hused hrun
        | exit => exact iff_of_true trivial (procExit_exact h hused hexec)
        | wait =>
            obtain ⟨_, hrun⟩ := bind_unit_eq_ok hexec
            exact iff_of_true trivial (procWait_exact h hrun)
  · cases hstep

/-! The state after boot. -/

theorem fileCreateDev_counts {cwd : Slot} {junk : Junk} {path : List UInt8}
    {major minor : UInt16}
    (hrun : fileCreateDev cwd junk path major minor k = .ok (f, k')) :
    k'.procs = k.procs ∧ ∀ g, (k'.ftable g).ref.toNat =
      (k.ftable g).ref.toNat + points g (some f) := by
  unfold fileCreateDev at hrun
  rw [liftFs_bind_eq_ok] at hrun
  obtain ⟨devInode, fs, _, hrun⟩ := hrun
  rw [Exec.bind_eq_ok] at hrun
  obtain ⟨ip, k₁, hlocked, hrun⟩ := hrun
  have hk₁ : k₁ = { k with fs := fs } := by
    cases devInode with
    | none => cases hlocked
    | some ip' =>
        cases hlocked
        rfl
  subst hk₁
  rw [liftFs_bind_eq_ok] at hrun
  obtain ⟨_, fs', _, hrun⟩ := hrun
  rw [Exec.bind_eq_ok] at hrun
  obtain ⟨f', allocated, halloc, hrun⟩ := hrun
  obtain ⟨hfree, rfl⟩ := RefRun.fileAlloc_eq_ok halloc
  rw [readFile_bind] at hrun
  cases hrun
  refine ⟨rfl, ?_⟩
  intro g
  change (k.ftable f).ref = 0 at hfree
  have hone : ({ k.ftable f with ref := 1 } : File).ref = 1 := rfl
  rw [← setFile_counts hfree hone g]
  by_cases hg : g = f
  · subst hg
    simp [KernelState.setFile]
  · simp [KernelState.setFile, hg]

theorem openCount_alone (hused : (k.procs p).state ≠ .unused)
    (hothers : ∀ q, q ≠ p → (k.procs q).state = .unused) (g : FileId) :
    openCount k g = census (points g) (k.procs p).filelist := by
  unfold openCount census
  rw [Finset.sum_eq_single p]
  · rw [descriptors, if_neg hused]
    rfl
  · intro q _ hq
    rw [descriptors, if_pos (hothers q hq)]
  · intro hp
    exact absurd (Finset.mem_univ p) hp

theorem of_first {proc : Proc}
    (hothers : ∀ q, q ≠ p → (k.procs q).state = .unused)
    (hused : proc.state ≠ .unused)
    (hlist : proc.filelist = Function.update (Function.update (fun _ => none) 0
      (some f)) 1 (some f))
    (hrefs : ∀ g, (k.ftable g).ref.toNat = 2 * points g (some f)) :
    FilesExact (k.setProc p proc) := by
  apply FilesExact.of_counted
  intro g
  have hfirst := census_update (points g)
    (fun _ : Fin filePerProc => none) 0 (some f)
  have hsecond := census_update (points g)
    (Function.update (fun _ : Fin filePerProc => none) 0 (some f)) 1 (some f)
  have hnone : census (points g) (fun _ : Fin filePerProc => none) = 0 := by
    simp [census, points_none]
  rw [Function.update_of_ne (by decide), points_none, ← hlist] at hsecond
  rw [points_none, hnone] at hfirst
  rw [KernelState.setProc_ftable, hrefs, openCount_alone (p := p)]
  · rw [KernelState.setProc_procs, Function.update_self]
    omega
  · rwa [KernelState.setProc_procs, Function.update_self]
  · intro q hq
    rw [KernelState.setProc_procs, Function.update_of_ne hq]
    exact hothers q hq

theorem bootFirst_exact {disk : Disk} {junk : Junk} {value : Unit}
    (hrun : bootFirst junk (.booted disk) = .ok (value, k)) : FilesExact k := by
  unfold bootFirst at hrun
  rw [Exec.bind_eq_ok] at hrun
  obtain ⟨p, allocated, halloc, hrun⟩ := hrun
  obtain ⟨_, hftable, pid, hprocs⟩ := procAlloc_result halloc
  rw [readProc_bind, writeProc_bind, Exec.bind_of_ok (m := modify _) rfl,
    liftFs_bind_eq_ok] at hrun
  obtain ⟨_, fs, _, hrun⟩ := hrun
  rw [liftFs_bind_eq_ok] at hrun
  obtain ⟨root, rooted, _, hrun⟩ := hrun
  rw [deref_bind_eq_ok] at hrun
  obtain ⟨cwd, _, hrun⟩ := hrun
  rw [readProc_bind, writeProc_bind, Exec.bind_eq_ok] at hrun
  obtain ⟨f, opened, hopen, hrun⟩ := hrun
  obtain ⟨hprocs₁, hrefs₁⟩ := fileCreateDev_counts hopen
  rw [Exec.bind_eq_ok] at hrun
  obtain ⟨f', dupped, hdup, hrun⟩ := hrun
  obtain ⟨rfl, hprocs₂, _, hrefs₂⟩ := fileDup_counts hdup
  rw [readProc_bind] at hrun
  cases hrun
  have hstate : (dupped.procs p).state = .running := by
    rw [hprocs₂, hprocs₁]
    simp
  have hlist : (dupped.procs p).filelist = fun _ => none := by
    rw [hprocs₂, hprocs₁]
    simp [hprocs, KernelState.booted, Proc.free]
  have hothers : ∀ q, q ≠ p → (dupped.procs q).state = .unused := by
    intro q hq
    rw [hprocs₂, hprocs₁]
    simp [hq, hprocs, KernelState.booted, Proc.free]
  have hused : (dupped.procs p).state ≠ .unused := by
    rw [hstate]
    exact nofun
  have hfds : Function.update (Function.update (dupped.procs p).filelist 0
      (some f')) 1 (some f') = Function.update (Function.update (fun _ => none) 0
        (some f')) 1 (some f') := by
    rw [hlist]
  refine of_first hothers (by exact hused) (by exact hfds) ?_
  intro g
  have hzero : (allocated.ftable g).ref.toNat = 0 := by
    rw [hftable]
    rfl
  have hopened : (opened.ftable g).ref.toNat =
      (allocated.ftable g).ref.toNat + points g (some f') := hrefs₁ g
  have hle := points_le g (some f')
  rw [hrefs₂, hopened, hzero, Nat.mod_eq_of_lt (by omega)]
  omega

/-! Runs. -/

/-- In a run that starts after boot the counts are exact and the assertions out
of reach at every point, if and only if the condition holds of every call. -/
theorem file_refs_exact_iff (junk : Junk) (disk : Disk) (k k' : KernelState)
    (ops : List Op) (hboot : bootFirst junk (.booted disk) = .ok ((), k))
    (hrun : run step k ops = some k') :
    (∀ before after middle, ops = before ++ after →
        run step k before = some middle → Sound middle) ↔
      Along step KeepsCount k ops :=
  (along_iff_invariant (fun _ _ _ => step_sound_iff)
    (sound_iff.mpr (bootFirst_exact hboot)) hrun).symm

def zeroJunk : Junk := ⟨0, 0, 0⟩

/-- Boot over the image of `mkfs` and a run from there. -/
def bootAndRun (ops : List Op) : Option (KernelState × KernelState) :=
  match bootFirst zeroJunk (.booted Mkfs.freshImage) with
  | .ok (_, k) => (run step k ops).map fun k' => (k, k')
  | .error _ => none

theorem bootAndRun_eq_some {ops : List Op} {k k' : KernelState}
    (h : bootAndRun ops = some (k, k')) :
    bootFirst zeroJunk (.booted Mkfs.freshImage) = .ok ((), k) ∧
      run step k ops = some k' := by
  unfold bootAndRun at h
  cases hboot : bootFirst zeroJunk (.booted Mkfs.freshImage) with
  | error reason =>
      rw [hboot] at h
      cases h
  | ok pair =>
      rw [hboot] at h
      obtain ⟨k'', hrun, hpair⟩ := Option.map_eq_some_iff.mp h
      cases hpair
      exact ⟨rfl, hrun⟩

instance (k : KernelState) (op : Op) : Decidable (KeepsCount k op) :=
  match op with
  | ⟨_, _, .fork⟩ => inferInstanceAs (Decidable (∀ _, _ → ∀ _, _ → _))
  | ⟨_, _, .dup _⟩ => inferInstanceAs (Decidable (_ → _))
  | ⟨_, _, .pipe _⟩ => inferInstanceAs (Decidable (¬ ∃ fd, _ ∧ ∀ fd', _ → fd' = fd))
  | ⟨_, _, .open _ _⟩ | ⟨_, _, .close _⟩ | ⟨_, _, .exit⟩ | ⟨_, _, .wait⟩ =>
      inferInstanceAs (Decidable True)

def forkDupClose : List Op :=
  [⟨0, zeroJunk, .fork⟩, ⟨1, zeroJunk, .dup 0⟩, ⟨1, zeroJunk, .close 0⟩]

theorem file_refs_exact_iff_fork :
    ∃ k k', bootFirst zeroJunk (.booted Mkfs.freshImage) = .ok ((), k) ∧
      run step k forkDupClose = some k' ∧ Sound k' := by
  have hend : (bootAndRun forkDupClose).map (fun pair =>
      decide (Along step KeepsCount pair.1 forkDupClose)) = some true := by
    decide +kernel
  obtain ⟨⟨k, k'⟩, hpair, hkeeps⟩ := Option.map_eq_some_iff.mp hend
  obtain ⟨hboot, hrun⟩ := bootAndRun_eq_some hpair
  refine ⟨k, k', hboot, hrun, ?_⟩
  exact (file_refs_exact_iff _ _ _ _ _ hboot hrun).mpr (of_decide_eq_true hkeeps) _ [] k'
    (List.append_nil _).symm hrun

/-- The first process forks twice, the second time with its first descriptor
closed, and collects both children. -/
def forkTwice : List Op :=
  [⟨0, zeroJunk, .fork⟩, ⟨1, zeroJunk, .exit⟩, ⟨0, zeroJunk, .wait⟩,
    ⟨0, zeroJunk, .close 0⟩, ⟨0, zeroJunk, .fork⟩, ⟨1, zeroJunk, .exit⟩,
    ⟨0, zeroJunk, .wait⟩]

/-- The second child had a pointer of the first in its slot and its end closed
the file under the parent, whose own `close` now hits the assertion. -/
theorem stale_descriptor_closes_file :
    ∃ k k', bootFirst zeroJunk (.booted Mkfs.freshImage) = .ok ((), k) ∧
      run step k forkTwice = some k' ∧ ¬ FilesExact k' ∧
      exec ⟨0, zeroJunk, .close 1⟩ k' =
        .error (.panic "file_read: file has already been closed") := by
  have hend : (bootAndRun forkTwice).map (fun pair =>
      ((pair.2.ftable 0).ref, (pair.2.procs 0).state,
        (pair.2.procs 0).filelist 1,
        match exec ⟨0, zeroJunk, .close 1⟩ pair.2 with
        | .error reason => some reason
        | .ok _ => none)) = some (0, .running, some 0,
          some (.panic "file_read: file has already been closed")) := by
    decide +kernel
  obtain ⟨⟨k, k'⟩, hpair, hvalues⟩ := Option.map_eq_some_iff.mp hend
  obtain ⟨hboot, hrun⟩ := bootAndRun_eq_some hpair
  simp only [Prod.mk.injEq] at hvalues
  obtain ⟨href, hstate, hfd, hclose⟩ := hvalues
  refine ⟨k, k', hboot, hrun, ?_, ?_⟩
  · intro hexact
    have hpos := hexact.referenced 0 1 0 (by rw [hstate]; exact nofun) hfd
    rw [href] at hpos
    exact absurd hpos (by decide)
  · cases hexec : exec ⟨0, zeroJunk, .close 1⟩ k' with
    | error reason =>
        rw [hexec] at hclose
        rw [Option.some.inj hclose]
    | ok pair =>
        rw [hexec] at hclose
        cases hclose

end OpenRun

end UnoOS.Kernel
