import UnoOS.Kernel.FileFailures
import UnoOS.Kernel.InodeRefs
import UnoOS.Lib.Census
import UnoOS.Lib.First

namespace UnoOS.Kernel

open UnoOS.Lib
open UnoOS.Fs
open UnoOS.Lib.Exec (StopsWith)

/-! How often open files are named by descriptors, and what the calls do to
that and to the counts in `ftable`. -/

def points (f : FileId) (pointer : Option FileId) : Nat :=
  if pointer = some f then 1 else 0

/-- How many descriptors of a process name the file.  The array of an unused
slot is nobody's. -/
def descriptors (f : FileId) (proc : Proc) : Nat :=
  if proc.state = .unused then 0 else census (points f) proc.filelist

def openCount (k : KernelState) (f : FileId) : Nat :=
  census (descriptors f) k.procs

structure FilesExact (k : KernelState) : Prop where
  counted : ∀ f, (k.ftable f).ref.toNat = openCount k f
  referenced : ∀ p fd f, (k.procs p).state ≠ .unused →
    (k.procs p).filelist fd = some f → 1 ≤ (k.ftable f).ref

namespace OpenRun

/-! Counting. -/

theorem points_self (f : FileId) : points f (some f) = 1 := if_pos rfl

theorem points_none (f : FileId) : points f none = 0 := rfl

theorem points_le (f : FileId) (pointer : Option FileId) : points f pointer ≤ 1 := by
  unfold points
  split <;> omega

variable {k k' : KernelState} {p : ProcId} {f g : FileId}

theorem census_points_le (filelist : Fin filePerProc → Option FileId) (f : FileId) :
    census (points f) filelist ≤ filePerProc := by
  unfold census
  calc ∑ fd, points f (filelist fd) ≤ ∑ _fd : Fin filePerProc, 1 :=
        Finset.sum_le_sum fun fd _ => points_le f _
    _ = filePerProc := by simp

theorem openCount_le (k : KernelState) (f : FileId) :
    openCount k f ≤ nProc * filePerProc := by
  unfold openCount census
  calc ∑ q, descriptors f (k.procs q) ≤ ∑ _q : ProcId, filePerProc := by
        apply Finset.sum_le_sum
        intro q _
        unfold descriptors
        split
        · exact Nat.zero_le _
        · exact census_points_le _ f
    _ = nProc * filePerProc := by simp

theorem openCount_congr
    (h : ∀ q, (k'.procs q).state = .unused ↔ (k.procs q).state = .unused)
    (hlist : ∀ q, (k'.procs q).filelist = (k.procs q).filelist) (f : FileId) :
    openCount k' f = openCount k f := by
  unfold openCount census
  apply Finset.sum_congr rfl
  intro q _
  simp only [descriptors, h, hlist]

theorem openCount_update {proc : Proc} (hprocs : k'.procs = Function.update k.procs p proc)
    (f : FileId) :
    openCount k' f + descriptors f (k.procs p) =
      openCount k f + descriptors f proc := by
  unfold openCount
  rw [hprocs]
  exact census_update (descriptors f) k.procs p proc

theorem descriptors_le_openCount (k : KernelState) (p : ProcId) (f : FileId) :
    descriptors f (k.procs p) ≤ openCount k f :=
  weight_le_census (descriptors f) k.procs p

theorem points_le_openCount (hused : (k.procs p).state ≠ .unused)
    (fd : Fin filePerProc) (f : FileId) :
    points f ((k.procs p).filelist fd) ≤ openCount k f := by
  refine le_trans ?_ (descriptors_le_openCount k p f)
  unfold descriptors
  rw [if_neg hused]
  exact weight_le_census (points f) _ fd

theorem FilesExact.of_counted (h : ∀ f, (k.ftable f).ref.toNat = openCount k f) :
    FilesExact k := by
  refine ⟨h, ?_⟩
  intro p fd f hused hfd
  have hle := points_le_openCount hused fd f
  rw [hfd, points_self, ← h f] at hle
  exact UInt32.le_iff_toNat_le.mpr hle

/-! What the calls on files do to the counts. -/

theorem fileClose_counts {value : Unit} (hrun : fileClose f k = .ok (value, k')) :
    k'.procs = k.procs ∧ ∀ g, (k'.ftable g).ref.toNat + points g (some f) =
      (k.ftable g).ref.toNat := by
  unfold fileClose at hrun
  rw [readFile_bind, kassert_bind_eq_ok] at hrun
  obtain ⟨hpos, hrun⟩ := hrun
  have hpos' : 0 < (k.ftable f).ref.toNat := UInt32.lt_iff_toNat_lt.mp hpos
  have hframe : ∀ file : File, file.ref = (k.ftable f).ref - 1 →
      k'.procs = k.procs → k'.ftable = Function.update k.ftable f file →
      k'.procs = k.procs ∧ ∀ g, (k'.ftable g).ref.toNat + points g (some f) =
        (k.ftable g).ref.toNat := by
    intro file href hprocs hftable
    refine ⟨hprocs, ?_⟩
    intro g
    rw [hftable, Function.update_apply]
    by_cases hg : g = f
    · subst hg
      rw [if_pos rfl, href, points_self, UInt32.toNat_sub_of_le]
      · change _ - 1 + 1 = _
        omega
      · rw [UInt32.le_iff_toNat_le]
        exact hpos'
    · rw [if_neg hg]
      have hzero : points g (some f) = 0 := by
        unfold points
        rw [if_neg]
        intro heq
        exact hg (Option.some.inj heq).symm
      rw [hzero]
      rfl
  split at hrun
  · next hone =>
    have href : (0 : UInt32) = (k.ftable f).ref - 1 := by
      rw [hone]
      rfl
    rw [writeFile_bind] at hrun
    split at hrun
    · rw [deref_bind_eq_ok] at hrun
      obtain ⟨page, _, hclose⟩ := hrun
      cases hclose
      exact hframe _ href rfl rfl
    · rw [deref_bind_eq_ok] at hrun
      obtain ⟨ip, _, hfree⟩ := hrun
      obtain ⟨fs, _, rfl⟩ := liftFs_eq_ok.mp hfree
      exact hframe _ href rfl rfl
  · cases hrun
    exact hframe _ rfl rfl rfl

theorem fileClose_stops {reason : Stop} (hrun : fileClose f k = .error reason)
    (hassert : FileAssertion reason) : (k.ftable f).ref.toNat = 0 := by
  by_contra hne
  have hpos : 0 < (k.ftable f).ref :=
    UInt32.lt_iff_toNat_lt.mpr (Nat.pos_of_ne_zero hne)
  unfold fileClose kassert at hrun
  rw [readFile_bind, Exec.require_of_true hpos, pure_bind] at hrun
  have hrest : StopsWith Quiet (if (k.ftable f).ref = 1 then do
        writeFile f { k.ftable f with ref := 0, type := fdUnused }
        if (k.ftable f).type = fdPipe then
          pipeClose (← deref (k.ftable f).pipe) (k.ftable f).writable
        else
          liftFs (inodeFree (← deref (k.ftable f).ip))
      else
        writeFile f { k.ftable f with ref := (k.ftable f).ref - 1 }) := by
    apply StopsWith.ite
    · apply (quiet_writeFile _ _).bind
      intro _
      apply StopsWith.ite
      · exact (quiet_deref _).bind fun page => quiet_pipeClose page _
      · exact (quiet_deref _).bind fun ip => quiet_liftFs (stops_inodeFree ip)
    · exact quiet_writeFile _ _
  exact hrest k reason hrun hassert

theorem fileDup_counts (hrun : fileDup f k = .ok (g, k')) :
    g = f ∧ k'.procs = k.procs ∧ 0 < (k.ftable f).ref.toNat ∧
      ∀ h, (k'.ftable h).ref.toNat =
        ((k.ftable h).ref.toNat + points h (some f)) % 2 ^ 32 := by
  unfold fileDup at hrun
  rw [readFile_bind, kassert_bind_eq_ok] at hrun
  obtain ⟨hpos, hrun⟩ := hrun
  cases hrun
  refine ⟨rfl, rfl, UInt32.lt_iff_toNat_lt.mp hpos, ?_⟩
  intro h
  have hlt := (k.ftable h).ref.toNat_lt
  rw [KernelState.setFile_ftable, Function.update_apply]
  unfold points
  split
  · next hg =>
    rw [hg, if_pos rfl]
    exact UInt32.toNat_add _ _
  · next hg =>
    rw [if_neg (fun heq => hg (Option.some.inj heq).symm), Nat.add_zero,
      Nat.mod_eq_of_lt hlt]

theorem fileDup_stops {reason : Stop} (hrun : fileDup f k = .error reason) :
    (k.ftable f).ref.toNat = 0 := by
  by_contra hne
  have hpos : 0 < (k.ftable f).ref :=
    UInt32.lt_iff_toNat_lt.mpr (Nat.pos_of_ne_zero hne)
  unfold fileDup kassert at hrun
  rw [readFile_bind, Exec.require_of_true hpos, pure_bind] at hrun
  cases hrun

theorem setFile_counts {file : File} (hfree : (k.ftable f).ref = 0)
    (href : file.ref = 1) (g : FileId) :
    ((k.setFile f file).ftable g).ref.toNat =
      (k.ftable g).ref.toNat + points g (some f) := by
  rw [KernelState.setFile_ftable, Function.update_apply]
  unfold points
  split
  · next hg =>
    rw [hg, if_pos rfl, href, hfree]
    rfl
  · next hg => rw [if_neg (fun heq => hg (Option.some.inj heq).symm), Nat.add_zero]

theorem fileOpen_counts {cwd : Slot} {junk : Junk} {path : List UInt8}
    {openMode : UInt32} {result : Option FileId}
    (hrun : fileOpen cwd junk path openMode k = .ok (result, k')) :
    k'.procs = k.procs ∧ ∀ g, (k'.ftable g).ref.toNat =
      (k.ftable g).ref.toNat + points g result := by
  unfold fileOpen at hrun
  rw [liftFs_bind_eq_ok] at hrun
  obtain ⟨found, fs, _, hrun⟩ := hrun
  cases found with
  | none =>
      cases hrun
      exact ⟨rfl, fun _ => rfl⟩
  | some ip =>
      dsimp only at hrun
      rw [liftFs_bind_eq_ok] at hrun
      obtain ⟨node, fs', hread, hrun⟩ := hrun
      cases hread
      rw [kassert_bind_eq_ok] at hrun
      obtain ⟨_, hrun⟩ := hrun
      rw [Exec.bind_eq_ok] at hrun
      obtain ⟨f, allocated, halloc, hrun⟩ := hrun
      obtain ⟨hfree, rfl⟩ := RefRun.fileAlloc_eq_ok halloc
      rw [readFile_bind] at hrun
      have hfill : ∀ file : File, file.ref = 1 →
          (do
            writeFile f file
            liftFs (inodeUnlock ip)
            let file ← readFile f
            writeFile f { file with
              readable := openMode &&& modeRead ≠ 0
              writable := openMode &&& modeWrite ≠ 0 }
            return some f : KernelM (Option FileId))
          ({ k with fs := fs }.setFile f { k.ftable f with ref := 1 }) =
            .ok (result, k') →
          k'.procs = k.procs ∧ ∀ g, (k'.ftable g).ref.toNat =
            (k.ftable g).ref.toNat + points g result := by
        intro file href hfilled
        rw [writeFile_bind, liftFs_bind_eq_ok] at hfilled
        obtain ⟨_, unlocked, _, hfilled⟩ := hfilled
        rw [readFile_bind] at hfilled
        cases hfilled
        refine ⟨rfl, ?_⟩
        intro g
        rw [← setFile_counts (k := k) hfree href g]
        simp only [KernelState.setFile, Function.update_idem,
          Function.update_self]
        by_cases hg : g = f
        · subst hg
          simp only [Function.update_self]
        · simp only [Function.update_of_ne hg]
      have hone : ({ k with fs := fs }.setFile f { k.ftable f with ref := 1 }
          |>.ftable f).ref = 1 := by
        simp [KernelState.setFile]
      split at hrun
      · exact hfill _ (by exact hone) hrun
      · exact hfill _ (by exact hone) hrun

theorem pipeAlloc_counts {page : PipeId} {ends : FileId × FileId}
    (hrun : pipeAlloc page k = .ok (ends, k')) :
    k'.procs = k.procs ∧ ends.1 ≠ ends.2 ∧
      ∀ g, (k'.ftable g).ref.toNat = (k.ftable g).ref.toNat +
        points g (some ends.1) + points g (some ends.2) := by
  unfold pipeAlloc at hrun
  rw [Exec.bind_of_ok (m := modify _) rfl, Exec.bind_eq_ok] at hrun
  obtain ⟨f1, first, hfirst, hrun⟩ := hrun
  obtain ⟨hfree, rfl⟩ := RefRun.fileAlloc_eq_ok hfirst
  rw [Exec.bind_eq_ok] at hrun
  obtain ⟨f2, second, hsecond, hrun⟩ := hrun
  obtain ⟨hfree', rfl⟩ := RefRun.fileAlloc_eq_ok hsecond
  rw [readFile_bind, writeFile_bind, readFile_bind, writeFile_bind] at hrun
  cases hrun
  have hne : f1 ≠ f2 := by
    intro heq
    subst heq
    simp [KernelState.setFile] at hfree'
  refine ⟨rfl, hne, ?_⟩
  intro g
  change (k.ftable f1).ref = 0 at hfree
  have hfree₂ : (k.ftable f2).ref = 0 := by
    simpa [KernelState.setFile, KernelState.setPipe,
      Function.update_of_ne hne.symm] using hfree'
  by_cases h1 : g = f1
  · subst h1
    have hother : points g (some f2) = 0 := by
      unfold points
      rw [if_neg (fun heq => hne (Option.some.inj heq).symm)]
    simp [KernelState.setFile, KernelState.setPipe, hne, points_self, hother,
      hfree]
  · have hother : points g (some f1) = 0 := by
      unfold points
      rw [if_neg (fun heq => h1 (Option.some.inj heq).symm)]
    by_cases h2 : g = f2
    · subst h2
      simp [KernelState.setFile, KernelState.setPipe, h1, points_self, hother,
        hfree₂]
    · have hother' : points g (some f2) = 0 := by
        unfold points
        rw [if_neg (fun heq => h2 (Option.some.inj heq).symm)]
      simp [KernelState.setFile, KernelState.setPipe, h1, h2, hother, hother']

/-! Descriptors. -/

theorem argFd_result {fd : UInt32} {result : Option (Fin filePerProc × FileId)}
    (hrun : argFd p fd k = .ok (result, k')) :
    k' = k ∧
      ((result = none ∧ ¬ ∃ h : fd.toNat < filePerProc,
          (k.procs p).filelist ⟨fd.toNat, h⟩ ≠ none) ∨
        ∃ h : fd.toNat < filePerProc, ∃ f, result = some (⟨fd.toNat, h⟩, f) ∧
          (k.procs p).filelist ⟨fd.toNat, h⟩ = some f) := by
  refine ⟨RefRun.argFd_eq_ok hrun, ?_⟩
  unfold argFd at hrun
  split at hrun
  · next hlt =>
    rw [readProc_bind] at hrun
    cases hfile : (k.procs p).filelist ⟨fd.toNat, hlt⟩ with
    | none =>
        rw [hfile] at hrun
        cases hrun
        left
        refine ⟨rfl, ?_⟩
        intro hopen
        exact hopen.2 hfile
    | some f =>
        rw [hfile] at hrun
        cases hrun
        exact .inr ⟨hlt, f, rfl, hfile⟩
  · next hge =>
    cases hrun
    exact .inl ⟨rfl, fun hopen => hge hopen.1⟩

theorem fdAlloc_result {fd : Option (Fin filePerProc)}
    (hrun : fdAlloc p f k = .ok (fd, k')) :
    (fd = none ∧ k' = k ∧ ∀ free, (k.procs p).filelist free ≠ none) ∨
      ∃ free, fd = some free ∧ (k.procs p).filelist free = none ∧
        k' = k.setProc p { k.procs p with
          filelist := Function.update (k.procs p).filelist free (some f) } := by
  unfold fdAlloc at hrun
  rw [readProc_bind] at hrun
  cases hfind : (List.finRange filePerProc).find? fun fd =>
      (k.procs p).filelist fd = none with
  | none =>
      rw [hfind] at hrun
      cases hrun
      exact .inl ⟨rfl, rfl, find?_eq_none_iff_forall.mp hfind⟩
  | some free =>
      rw [hfind] at hrun
      cases hrun
      exact .inr ⟨free, rfl, (find?_eq_some_iff_first.mp hfind).1, rfl⟩

theorem openCount_setFd (hused : (k.procs p).state ≠ .unused)
    {fd : Fin filePerProc} {pointer : Option FileId}
    (hprocs : k'.procs = Function.update k.procs p { k.procs p with
      filelist := Function.update (k.procs p).filelist fd pointer }) (g : FileId) :
    openCount k' g + points g ((k.procs p).filelist fd) =
      openCount k g + points g pointer := by
  have hslot := openCount_update hprocs g
  have hlist := census_update (points g) (k.procs p).filelist fd pointer
  simp only [descriptors, if_neg hused] at hslot
  omega

theorem fdAlloc_counts {fd : Option (Fin filePerProc)}
    (hused : (k.procs p).state ≠ .unused)
    (hrun : fdAlloc p f k = .ok (fd, k')) :
    k'.ftable = k.ftable ∧ (k'.procs p).state ≠ .unused ∧
      ∀ g, openCount k' g =
        openCount k g + if fd = none then 0 else points g (some f) := by
  rcases fdAlloc_result hrun with ⟨rfl, rfl, _⟩ | ⟨free, rfl, hnone, rfl⟩
  · refine ⟨rfl, hused, ?_⟩
    intro g
    rw [if_pos rfl, Nat.add_zero]
  · refine ⟨rfl, ?_, ?_⟩
    · rw [KernelState.setProc_procs, Function.update_self]
      exact hused
    · intro g
      have hcount := openCount_setFd hused (KernelState.setProc_procs k p
        { k.procs p with
          filelist := Function.update (k.procs p).filelist free (some f) }) g
      rw [hnone, points_none, Nat.add_zero] at hcount
      rw [hcount, if_neg (by exact nofun)]

/-- The descriptor that is stored once more already names the file. -/
theorem storeFd_same {fd : Option (Fin filePerProc)} {value : Unit}
    (hstored : ∀ free, fd = some free → (k.procs p).filelist free = some f)
    (hrun : storeFd p f fd k = .ok (value, k')) : k' = k := by
  cases fd with
  | none =>
      cases hrun
      rfl
  | some free =>
      have hsame : Function.update (k.procs p).filelist free (some f) =
          (k.procs p).filelist := by
        rw [← hstored free rfl, Function.update_eq_self]
      change (readProc p >>= _) k = _ at hrun
      rw [readProc_bind] at hrun
      cases hrun
      rw [hsame]
      change { k with procs := Function.update k.procs p (k.procs p) } = k
      rw [Function.update_eq_self]

theorem storeFd_ftable {fd : Option (Fin filePerProc)} {value : Unit}
    (hrun : storeFd p f fd k = .ok (value, k')) : k'.ftable = k.ftable := by
  cases fd with
  | none =>
      cases hrun
      rfl
  | some free =>
      change (readProc p >>= _) k = _ at hrun
      rw [readProc_bind] at hrun
      cases hrun
      rfl

/-! Processes. -/

theorem closeFiles_counts {files : List (Option FileId)} {value : Unit}
    (hrun : closeFiles files k = .ok (value, k')) :
    k'.procs = k.procs ∧ ∀ g, (k'.ftable g).ref.toNat +
      (files.map (points g)).sum = (k.ftable g).ref.toNat := by
  induction files generalizing k with
  | nil =>
      cases hrun
      exact ⟨rfl, fun _ => rfl⟩
  | cons file files ih =>
      cases file with
      | none =>
          obtain ⟨hprocs, hrefs⟩ := ih hrun
          refine ⟨hprocs, ?_⟩
          intro g
          rw [List.map_cons, List.sum_cons, points_none, Nat.zero_add]
          exact hrefs g
      | some f =>
          change (fileClose f >>= _) k = _ at hrun
          rw [Exec.bind_eq_ok] at hrun
          obtain ⟨_, closed, hclose, hrest⟩ := hrun
          obtain ⟨hprocs, hrefs⟩ := fileClose_counts hclose
          obtain ⟨hprocs', hrefs'⟩ := ih hrest
          refine ⟨hprocs'.trans hprocs, ?_⟩
          intro g
          have hfirst := hrefs g
          have hothers := hrefs' g
          rw [List.map_cons, List.sum_cons]
          omega

theorem closeFiles_stops {files : List (Option FileId)} {reason : Stop}
    (hrefs : ∀ g, (files.map (points g)).sum ≤ (k.ftable g).ref.toNat)
    (hrun : closeFiles files k = .error reason) : ¬ FileAssertion reason := by
  induction files generalizing k with
  | nil => cases hrun
  | cons file files ih =>
      cases file with
      | none =>
          refine ih ?_ hrun
          intro g
          have hle := hrefs g
          rwa [List.map_cons, List.sum_cons, points_none, Nat.zero_add] at hle
      | some f =>
          change (fileClose f >>= _) k = _ at hrun
          rcases Exec.bind_eq_error.mp hrun with hclose | ⟨_, closed, hclose, hrest⟩
          · intro hassert
            have hzero := fileClose_stops hclose hassert
            have hle := hrefs f
            rw [List.map_cons, List.sum_cons, points_self] at hle
            omega
          · refine ih ?_ hrest
            intro g
            have hle := hrefs g
            have hfirst := (fileClose_counts hclose).2 g
            rw [List.map_cons, List.sum_cons] at hle
            omega

theorem sum_finRange_points (filelist : Fin filePerProc → Option FileId)
    (g : FileId) :
    (((List.finRange filePerProc).map filelist).map (points g)).sum =
      census (points g) filelist := by
  unfold census
  rw [List.map_map, Fin.sum_univ_def]
  rfl

theorem procFree_counts {value : Unit} (hused : (k.procs p).state ≠ .unused)
    (h : FilesExact k) (hrun : procFree p k = .ok (value, k')) :
    FilesExact k' := by
  unfold procFree at hrun
  rw [readProc_bind, writeProc_bind] at hrun
  obtain ⟨hprocs, hrefs⟩ := closeFiles_counts hrun
  apply FilesExact.of_counted
  intro g
  have hclosed := hrefs g
  have hcount := openCount_update hprocs g
  rw [sum_finRange_points, KernelState.setProc_ftable, h.counted] at hclosed
  simp only [descriptors, if_neg hused, if_true, Nat.add_zero] at hcount
  omega

theorem procFree_stops {reason : Stop} (hused : (k.procs p).state ≠ .unused)
    (h : FilesExact k) (hrun : procFree p k = .error reason) :
    ¬ FileAssertion reason := by
  unfold procFree at hrun
  rw [readProc_bind, writeProc_bind] at hrun
  refine closeFiles_stops ?_ hrun
  intro g
  have hle := descriptors_le_openCount k p g
  rw [descriptors, if_neg hused] at hle
  rw [sum_finRange_points, KernelState.setProc_ftable, h.counted]
  exact hle

/-- The entries of the parent, and where it has none those of the child. -/
def mergeFds (parent child : Fin filePerProc → Option FileId)
    (fds : List (Fin filePerProc)) : Fin filePerProc → Option FileId :=
  fun fd => if fd ∈ fds ∧ parent fd ≠ none then parent fd else child fd

theorem copyFiles_counts {parent child : ProcId} (hne : parent ≠ child)
    {fds : List (Fin filePerProc)} {value : Unit}
    (hroom : ∀ g, (k.ftable g).ref.toNat + fds.length < 2 ^ 32)
    (hrun : copyFiles parent child fds k = .ok (value, k')) :
    k'.procs = Function.update k.procs child { k.procs child with
        filelist := mergeFds (k.procs parent).filelist (k.procs child).filelist
          fds } ∧
      ∀ g, (k'.ftable g).ref.toNat = (k.ftable g).ref.toNat +
        (fds.map fun fd => points g ((k.procs parent).filelist fd)).sum := by
  induction fds generalizing k with
  | nil =>
      cases hrun
      refine ⟨?_, fun _ => rfl⟩
      have hnil : mergeFds (k'.procs parent).filelist (k'.procs child).filelist [] =
          (k'.procs child).filelist := by
        funext fd
        simp [mergeFds]
      rw [hnil]
      exact (Function.update_eq_self child k'.procs).symm
  | cons fd fds ih =>
      unfold copyFiles at hrun
      rw [readProc_bind] at hrun
      cases hfd : (k.procs parent).filelist fd with
      | none =>
          rw [hfd] at hrun
          obtain ⟨hprocs, hrefs⟩ := ih (fun g => by
            have := hroom g
            rw [List.length_cons] at this
            omega) hrun
          refine ⟨?_, ?_⟩
          · have hsame : mergeFds (k.procs parent).filelist
                (k.procs child).filelist fds =
                mergeFds (k.procs parent).filelist (k.procs child).filelist
                  (fd :: fds) := by
              funext other
              unfold mergeFds
              by_cases hother : other = fd
              · rw [hother, hfd]
                simp
              · simp [hother]
            rw [hprocs, hsame]
          · intro g
            rw [hrefs, List.map_cons, List.sum_cons, hfd, points_none,
              Nat.zero_add]
      | some f =>
          rw [hfd] at hrun
          dsimp only at hrun
          rw [Exec.bind_eq_ok] at hrun
          obtain ⟨file, dupped, hdup, hrest⟩ := hrun
          obtain ⟨rfl, hprocs, _, hrefs⟩ := fileDup_counts hdup
          rw [readProc_bind, writeProc_bind, hprocs] at hrest
          have hdupped : ∀ g, (dupped.ftable g).ref.toNat =
              (k.ftable g).ref.toNat + points g (some file) := by
            intro g
            have hlt := hroom g
            have hone := points_le g (some file)
            rw [List.length_cons] at hlt
            rw [hrefs, Nat.mod_eq_of_lt (by omega)]
          have hmiddle : ∀ q, q ≠ child →
              (dupped.setProc child { k.procs child with
                filelist := Function.update (k.procs child).filelist fd
                  (some file) }).procs q = k.procs q := by
            intro q hq
            rw [KernelState.setProc_procs, Function.update_of_ne hq, hprocs]
          obtain ⟨hprocs', hrefs'⟩ := ih (fun g => by
            have hlt := hroom g
            have hone := points_le g (some file)
            rw [List.length_cons] at hlt
            rw [KernelState.setProc_ftable, hdupped]
            omega) hrest
          rw [hmiddle parent hne] at hprocs' hrefs'
          refine ⟨?_, ?_⟩
          · have hmerge : mergeFds (k.procs parent).filelist
                (Function.update (k.procs child).filelist fd (some file)) fds =
                mergeFds (k.procs parent).filelist (k.procs child).filelist
                  (fd :: fds) := by
              funext other
              unfold mergeFds
              by_cases hother : other = fd
              · rw [hother, hfd]
                simp
              · simp [hother]
            rw [hprocs', KernelState.setProc_procs, Function.update_self,
              Function.update_idem, hprocs, ← hmerge]
          · intro g
            rw [hrefs', KernelState.setProc_ftable, hdupped, List.map_cons,
              List.sum_cons, hfd]
            omega

theorem copyFiles_stops {parent child : ProcId} (hne : parent ≠ child)
    {fds : List (Fin filePerProc)} {reason : Stop}
    (hroom : ∀ g, (k.ftable g).ref.toNat + fds.length < 2 ^ 32)
    (hrefs : ∀ fd g, (k.procs parent).filelist fd = some g →
      0 < (k.ftable g).ref.toNat)
    (hrun : copyFiles parent child fds k = .error reason) :
    ¬ FileAssertion reason := by
  induction fds generalizing k with
  | nil => cases hrun
  | cons fd fds ih =>
      unfold copyFiles at hrun
      rw [readProc_bind] at hrun
      cases hfd : (k.procs parent).filelist fd with
      | none =>
          rw [hfd] at hrun
          refine ih ?_ hrefs hrun
          intro g
          have hlt := hroom g
          rw [List.length_cons] at hlt
          omega
      | some f =>
          rw [hfd] at hrun
          dsimp only at hrun
          rcases Exec.bind_eq_error.mp hrun with hdup | ⟨file, dupped, hdup, hrest⟩
          · have hpos := hrefs fd f hfd
            rw [fileDup_stops hdup] at hpos
            exact absurd hpos (lt_irrefl 0)
          · obtain ⟨rfl, hprocs, _, hdupped⟩ := fileDup_counts hdup
            rw [readProc_bind, writeProc_bind, hprocs] at hrest
            have hmore : ∀ g, (dupped.ftable g).ref.toNat =
                (k.ftable g).ref.toNat + points g (some file) := by
              intro g
              have hlt := hroom g
              have hone := points_le g (some file)
              rw [List.length_cons] at hlt
              rw [hdupped, Nat.mod_eq_of_lt (by omega)]
            refine ih ?_ ?_ hrest
            · intro g
              have hlt := hroom g
              have hone := points_le g (some file)
              rw [List.length_cons] at hlt
              rw [KernelState.setProc_ftable, hmore]
              omega
            · intro other g hother
              rw [KernelState.setProc_procs, Function.update_of_ne hne, hprocs]
                at hother
              have hpos := hrefs other g hother
              rw [KernelState.setProc_ftable, hmore]
              omega

theorem procAlloc_result {child : ProcId} (hrun : procAlloc k = .ok (child, k')) :
    First (fun q => (k.procs q).state = .unused) child ∧
      k'.ftable = k.ftable ∧
      ∃ pid, k'.procs = Function.update k.procs child { k.procs child with
        pid := pid } := by
  unfold procAlloc allocPid at hrun
  rw [Exec.bind_eq_ok] at hrun
  obtain ⟨pid, numbered, hpid, hrun⟩ := hrun
  rw [Exec.bind_of_ok (m := get) rfl, kassert_bind_eq_ok] at hpid
  cases hpid.2
  rw [Exec.bind_of_ok (m := get) rfl] at hrun
  cases hfind : (List.finRange nProc).find? fun p =>
      (k.procs p).state = .unused with
  | none =>
      rw [hfind] at hrun
      cases hrun
  | some found =>
      rw [hfind] at hrun
      cases hrun
      exact ⟨find?_eq_some_iff_first.mp hfind, rfl, _, rfl⟩

structure Forking (k k₁ : KernelState) (p child : ProcId) : Prop where
  first : First (fun q => (k.procs q).state = .unused) child
  other : p ≠ child
  ftable : k₁.ftable = k.ftable
  count : ∀ g, openCount k₁ g = openCount k g
  parent : k₁.procs p = k.procs p
  unused : (k₁.procs child).state = .unused
  filelist : (k₁.procs child).filelist = (k.procs child).filelist

theorem procAlloc_forking {child : ProcId} {k₁ : KernelState}
    (hused : (k.procs p).state ≠ .unused)
    (hrun : procAlloc k = .ok (child, k₁)) : Forking k k₁ p child := by
  obtain ⟨hfirst, hftable, pid, hprocs⟩ := procAlloc_result hrun
  have hne : p ≠ child := by
    intro heq
    rw [heq] at hused
    exact hused hfirst.1
  refine ⟨hfirst, hne, hftable, ?_, ?_, ?_, ?_⟩
  · apply openCount_congr
    · intro q
      rw [hprocs, Function.update_apply]
      split
      · next hq => rw [hq]
      · rfl
    · intro q
      rw [hprocs, Function.update_apply]
      split
      · next hq => rw [hq]
      · rfl
  · rw [hprocs, Function.update_of_ne hne]
  · rw [hprocs, Function.update_self]
    exact hfirst.1
  · rw [hprocs, Function.update_self]

theorem Forking.room {child : ProcId} {k₁ : KernelState}
    (hforking : Forking k k₁ p child) (h : FilesExact k) (g : FileId) :
    (k₁.ftable g).ref.toNat + (List.finRange filePerProc).length < 2 ^ 32 := by
  have hle := openCount_le k g
  rw [hforking.ftable, h.counted, List.length_finRange]
  simp only [nProc, filePerProc] at hle ⊢
  omega

/-- The child has the descriptors of the parent exactly when its slot had none
where the parent has none. -/
theorem merge_exact_iff (parent child : Fin filePerProc → Option FileId) :
    (∀ fd, parent fd = none → child fd = none) ↔
      ∀ g, census (points g) (mergeFds parent child (List.finRange filePerProc)) =
        census (points g) parent := by
  constructor
  · intro h g
    have hmerge : mergeFds parent child (List.finRange filePerProc) = parent := by
      funext fd
      unfold mergeFds
      split
      · rfl
      · next hno =>
        have hnone : parent fd = none := by
          by_contra hsome
          exact hno ⟨List.mem_finRange fd, hsome⟩
        rw [h fd hnone, hnone]
    rw [hmerge]
  · intro h fd hnone
    by_contra hsome
    obtain ⟨g, hg⟩ := Option.ne_none_iff_exists'.mp hsome
    have hlt : census (points g) parent <
        census (points g) (mergeFds parent child (List.finRange filePerProc)) := by
      unfold census
      apply Finset.sum_lt_sum
      · intro other _
        unfold mergeFds
        split
        · exact le_refl _
        · next hno =>
          have hother : parent other = none := by
            by_contra hother
            exact hno ⟨List.mem_finRange other, hother⟩
          rw [hother, points_none]
          exact Nat.zero_le _
      · refine ⟨fd, Finset.mem_univ fd, ?_⟩
        unfold mergeFds
        rw [if_neg (fun hyes => hyes.2 hnone), hnone, hg, points_self, points_none]
        exact Nat.zero_lt_one
    rw [h g] at hlt
    exact lt_irrefl _ hlt

theorem openCount_started {child : ProcId} {proc : Proc}
    (hunused : (k.procs child).state = .unused)
    (hprocs : k'.procs = Function.update k.procs child proc)
    (hused : proc.state ≠ .unused) (g : FileId) :
    openCount k' g = openCount k g + census (points g) proc.filelist := by
  have hcount := openCount_update hprocs g
  rwa [descriptors, descriptors, if_pos hunused, if_neg hused, Nat.add_zero]
    at hcount

end OpenRun

end UnoOS.Kernel
