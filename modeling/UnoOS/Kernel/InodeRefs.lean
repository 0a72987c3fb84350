import UnoOS.Fs.BitmapLaws
import UnoOS.Fs.SlotFrames
import UnoOS.Kernel.Proc
import UnoOS.Lib.Transition
import UnoOS.Mkfs.Main

namespace UnoOS.Kernel

open UnoOS.Lib
open UnoOS.Fs
open UnoOS.Lib.Exec (Keeps)

/-! References to inodes over runs of system calls. -/

def Proc.Live (proc : Proc) : Prop :=
  proc.state ≠ .unused ∧ proc.state ≠ .zombie

instance (proc : Proc) : Decidable proc.Live :=
  inferInstanceAs (Decidable (_ ∧ _))

/-- The `ref` of every slot is the number of live working directories and of
open files that point to it. -/
def RefsExact (k : KernelState) : Prop :=
  ∀ i, (k.fs.icache i).ref.toNat =
    (Finset.univ.filter fun p =>
      (k.procs p).Live ∧ (k.procs p).cwd = some i).card +
    (Finset.univ.filter fun f =>
      0 < (k.ftable f).ref ∧ (k.ftable f).ip = some i).card

namespace RefRun

inductive Call where
  | fork
  /-- `exit`, collected by the parent's `wait`. -/
  | exit
  | open (path : List UInt8) (openMode : UInt32)
  | close (fd : UInt32)
  | dup (fd : UInt32)
  | chdir (path : List UInt8)
  | mkdir (path : List UInt8)
  | link (oldPath newPath : List UInt8)
  | unlink (path : List UInt8)

/-- A call, its caller and what the kernel stack held before it. -/
structure Op where
  caller : ProcId
  junk : Junk
  call : Call

def exitWait (p : ProcId) : KernelM Unit := do
  let parent ← deref (← readProc p).parent
  procExit p
  let _ ← procWait parent

def exec (op : Op) : KernelM Unit :=
  match op.call with
  | .fork => do let _ ← procFork op.caller
  | .exit => exitWait op.caller
  | .open path openMode => do
      let _ ← sysOpen op.caller op.junk path openMode
  | .close fd => do let _ ← sysClose op.caller fd
  | .dup fd => do let _ ← sysDup op.caller fd
  | .chdir path => do let _ ← sysChdir op.caller op.junk path
  | .mkdir path => sysMkdir op.caller op.junk path
  | .link oldPath newPath => do
      let _ ← sysLink op.caller op.junk oldPath newPath
  | .unlink path => do let _ ← sysUnlink op.caller op.junk path

/-- One call of a live process; `none` if it does not return. -/
def step (k : KernelState) (op : Op) : Option KernelState :=
  if (k.procs op.caller).Live then
    match exec op k with
    | .ok (_, k') => some k'
    | .error _ => none
  else none

/-- Slot `c` holds the console inode, which file `f` was opened on after its
reference had been dropped: the slot counts no reference while `f` is open, and
one less than none once it is closed. -/
structure Broken (c : Slot) (f : FileId) (bound : Nat) (k : KernelState) :
    Prop where
  barred : Barred (k.fs.icache c)
  cwds : ∀ p, (k.procs p).cwd ≠ some c
  others : ∀ g, g ≠ f → (k.ftable g).ref ≠ 0 → (k.ftable g).ip ≠ some c
  console :
    ((k.fs.icache c).ref = 0 ∧ (k.ftable f).ref ≠ 0 ∧
      (k.ftable f).ip = some c ∧ (k.ftable f).type ≠ fdPipe ∧
      (k.ftable f).ref.toNat ≤ bound) ∨
    ((k.fs.icache c).ref = 0xFFFFFFFF ∧
      ((k.ftable f).ref ≠ 0 → (k.ftable f).ip ≠ some c))

section

variable {c : Slot} {f : FileId} {bound : Nat} {k k' : KernelState}

theorem Broken.not_exact (h : Broken c f bound k) : ¬RefsExact k := by
  intro hexact
  have hcount := hexact c
  rcases h.console with ⟨hzero, hopen, hip, _⟩ | ⟨hmax, _⟩
  · -- the open file is not counted
    have hmem : f ∈ Finset.univ.filter fun g =>
        0 < (k.ftable g).ref ∧ (k.ftable g).ip = some c := by
      rw [Finset.mem_filter]
      exact ⟨Finset.mem_univ f, UInt32.pos_iff_ne_zero.mpr hopen, hip⟩
    have hpos := Finset.card_pos.mpr ⟨f, hmem⟩
    rw [hzero] at hcount
    change 0 = _ at hcount
    omega
  · -- there are not that many pointers
    have hprocs := (Finset.univ.filter fun p =>
      (k.procs p).Live ∧ (k.procs p).cwd = some c).card_le_univ
    have hfiles := (Finset.univ.filter fun g =>
      0 < (k.ftable g).ref ∧ (k.ftable g).ip = some c).card_le_univ
    rw [Fintype.card_fin] at hprocs hfiles
    rw [hmax] at hcount
    change 4294967295 = _ at hcount
    change _ ≤ 64 at hprocs
    change _ ≤ 32 at hfiles
    omega

theorem Broken.mono {bound' : Nat} (h : Broken c f bound k)
    (hle : bound ≤ bound') : Broken c f bound' k := by
  refine ⟨h.barred, h.cwds, h.others, ?_⟩
  rcases h.console with ⟨hzero, hopen, hip, htype, href⟩ | hwrapped
  · exact .inl ⟨hzero, hopen, hip, htype, href.trans hle⟩
  · exact .inr hwrapped

theorem Broken.of_fs {fs : FsState} (h : Broken c f bound k)
    (hslot : fs.icache c = k.fs.icache c) :
    Broken c f bound { k with fs := fs } := by
  refine ⟨?_, h.cwds, h.others, ?_⟩
  · change Barred (fs.icache c)
    rw [hslot]
    exact h.barred
  · change ((fs.icache c).ref = 0 ∧ _) ∨ ((fs.icache c).ref = _ ∧ _)
    rw [hslot]
    exact h.console

theorem Broken.setProc {p : ProcId} {proc : Proc} (h : Broken c f bound k)
    (hcwd : proc.cwd ≠ some c) : Broken c f bound (k.setProc p proc) := by
  refine ⟨h.barred, ?_, h.others, h.console⟩
  intro q
  by_cases hq : q = p
  · subst hq
    rw [KernelState.setProc_procs, Function.update_self]
    exact hcwd
  · rw [KernelState.setProc_procs, Function.update_of_ne hq]
    exact h.cwds q

theorem Broken.setFile {g : FileId} {file : File} (h : Broken c f bound k)
    (hfree : (k.ftable g).ref = 0) (hip : file.ip ≠ some c) :
    Broken c f bound (k.setFile g file) := by
  refine ⟨h.barred, h.cwds, ?_, ?_⟩
  · intro g' hg' href
    by_cases hgg : g' = g
    · subst hgg
      rw [KernelState.setFile_ftable, Function.update_self]
      exact hip
    · rw [KernelState.setFile_ftable, Function.update_of_ne hgg] at href ⊢
      exact h.others g' hg' href
  · rcases h.console with ⟨hzero, hopen, hrest⟩ | ⟨hmax, hother⟩
    · have hfg : f ≠ g := by
        intro heq
        rw [heq] at hopen
        exact hopen hfree
      refine .inl ⟨hzero, ?_⟩
      rw [KernelState.setFile_ftable, Function.update_of_ne hfg]
      exact ⟨hopen, hrest⟩
    · refine .inr ⟨hmax, ?_⟩
      by_cases hfg : f = g
      · subst hfg
        rw [KernelState.setFile_ftable, Function.update_self]
        exact fun _ => hip
      · rw [KernelState.setFile_ftable, Function.update_of_ne hfg]
        exact hother

theorem Broken.setRef {g : FileId} {ref : UInt32} {bound' : Nat}
    (h : Broken c f bound k) (hopen : (k.ftable g).ref ≠ 0)
    (hle : bound ≤ bound')
    (hconsole : (k.ftable g).ref.toNat ≤ bound →
      ref ≠ 0 ∧ ref.toNat ≤ bound') :
    Broken c f bound' (k.setFile g { k.ftable g with ref := ref }) := by
  refine ⟨h.barred, h.cwds, ?_, ?_⟩
  · intro g' hg' href
    by_cases hgg : g' = g
    · subst hgg
      rw [KernelState.setFile_ftable, Function.update_self]
      exact h.others g' hg' hopen
    · rw [KernelState.setFile_ftable, Function.update_of_ne hgg] at href ⊢
      exact h.others g' hg' href
  · by_cases hfg : f = g
    · subst hfg
      rw [KernelState.setFile_fs, KernelState.setFile_ftable,
        Function.update_self]
      rcases h.console with ⟨hzero, _, hip, htype, href⟩ | ⟨hmax, hother⟩
      · obtain ⟨hne, hsmall⟩ := hconsole href
        exact .inl ⟨hzero, hne, hip, htype, hsmall⟩
      · exact .inr ⟨hmax, fun _ => hother hopen⟩
    · rw [KernelState.setFile_fs, KernelState.setFile_ftable,
        Function.update_of_ne hfg]
      exact (h.mono hle).console

theorem Broken.setClosed {g : FileId} {file : File} (h : Broken c f bound k)
    (hopen : (k.ftable g).ref ≠ 0) (hip : (k.ftable g).ip ≠ some c)
    (hclosed : file.ref = 0) : Broken c f bound (k.setFile g file) := by
  refine ⟨h.barred, h.cwds, ?_, ?_⟩
  · intro g' hg' href
    by_cases hgg : g' = g
    · subst hgg
      rw [KernelState.setFile_ftable, Function.update_self] at href
      exact absurd hclosed href
    · rw [KernelState.setFile_ftable, Function.update_of_ne hgg] at href ⊢
      exact h.others g' hg' href
  · by_cases hfg : f = g
    · subst hfg
      rw [KernelState.setFile_fs, KernelState.setFile_ftable,
        Function.update_self]
      rcases h.console with ⟨_, _, hself, _⟩ | ⟨hmax, _⟩
      · exact absurd hself hip
      · exact .inr ⟨hmax, fun href => absurd hclosed href⟩
    · rw [KernelState.setFile_fs, KernelState.setFile_ftable,
        Function.update_of_ne hfg]
      exact h.console

/-! Files. -/

theorem fileDup_broken {g g' : FileId} (h : Broken c f bound k)
    (hbound : bound + 1 < 2 ^ 32) (hrun : fileDup g k = .ok (g', k')) :
    Broken c f (bound + 1) k' ∧ k'.procs = k.procs := by
  unfold fileDup at hrun
  rw [readFile_bind, kassert_bind_eq_ok] at hrun
  obtain ⟨hopen, hrun⟩ := hrun
  rw [writeFile_bind] at hrun
  cases hrun
  refine ⟨h.setRef (UInt32.pos_iff_ne_zero.mp hopen) (Nat.le_succ _) ?_, rfl⟩
  intro href
  have hsum : ((k.ftable g).ref + 1).toNat = (k.ftable g).ref.toNat + 1 := by
    rw [UInt32.toNat_add]
    exact Nat.mod_eq_of_lt (by change _ + 1 < 2 ^ 32; omega)
  refine ⟨?_, by omega⟩
  intro heq
  rw [heq] at hsum
  exact absurd hsum (by change ¬0 = _; omega)

theorem fileClose_console {ip : Slot} {fs : FsState} {file : File}
    (h : Broken c f bound k) (hip : ip = c) (hzero : (k.fs.icache c).ref = 0)
    (hclosed : file.ref = 0)
    (hfree : inodeFree ip k.fs = .ok ((), fs)) :
    Broken c f bound { k.setFile f file with fs := fs } := by
  subst hip
  have hdies : ¬(k.fs.icache ip).Dies := by
    intro hdies
    have href := hdies.1
    rw [hzero] at href
    exact absurd href (by decide)
  obtain ⟨hlocked, rfl⟩ := inodeFree_of_not_dies hdies hfree
  have hwrapped : (k.fs.icache ip).ref - 1 = 0xFFFFFFFF := by
    rw [hzero]
    decide
  refine ⟨?_, h.cwds, ?_, ?_⟩
  · change Barred (Function.update k.fs.icache ip _ ip)
    rw [Function.update_self]
    exact ⟨h.barred.inodeNum, hlocked, .inr hwrapped⟩
  · intro g hg href
    change (Function.update k.ftable f file g).ref ≠ 0 at href
    change (Function.update k.ftable f file g).ip ≠ some ip
    rw [Function.update_of_ne hg] at href ⊢
    exact h.others g hg href
  · refine .inr ⟨?_, ?_⟩
    · change (Function.update k.fs.icache ip _ ip).ref = _
      rw [Function.update_self]
      exact hwrapped
    · intro href
      change (Function.update k.ftable f file f).ref ≠ 0 at href
      rw [Function.update_self] at href
      exact absurd hclosed href

theorem fileClose_broken {g : FileId} {value : Unit} (h : Broken c f bound k)
    (hrun : fileClose g k = .ok (value, k')) : Broken c f bound k' := by
  unfold fileClose at hrun
  rw [readFile_bind, kassert_bind_eq_ok] at hrun
  obtain ⟨hopen, hrun⟩ := hrun
  have hne : (k.ftable g).ref ≠ 0 := UInt32.pos_iff_ne_zero.mp hopen
  split at hrun
  · rw [writeFile_bind] at hrun
    split at hrun
    · next hpipe =>
      -- the console is no pipe
      have hip : (k.ftable g).ip ≠ some c := by
        intro hip
        by_cases hg : g = f
        · subst hg
          rcases h.console with ⟨_, _, _, htype, _⟩ | ⟨_, hother⟩
          · exact htype hpipe
          · exact hother hne hip
        · exact h.others g hg hne hip
      have hclosed : Broken c f bound (k.setFile g { k.ftable g with
          ref := 0, type := fdUnused }) := h.setClosed hne hip rfl
      rw [deref_bind_eq_ok] at hrun
      obtain ⟨p, _, hrun⟩ := hrun
      cases hrun
      exact ⟨hclosed.barred, hclosed.cwds, hclosed.others, hclosed.console⟩
    · rw [deref_bind_eq_ok] at hrun
      obtain ⟨ip, hip, hrun⟩ := hrun
      obtain ⟨fs, hfree, rfl⟩ := liftFs_eq_ok.mp hrun
      by_cases hself : ip = c
      · rw [hself] at hip
        have hg : g = f := by
          by_contra hg
          exact h.others g hg hne hip
        subst hg
        rcases h.console with ⟨hzero, _⟩ | ⟨_, hother⟩
        · exact fileClose_console h hself hzero rfl hfree
        · exact absurd hip (hother hne)
      · have hother : (k.ftable g).ip ≠ some c := by
          rw [hip]
          intro heq
          exact hself (Option.some.inj heq)
        refine (h.setClosed hne hother rfl).of_fs ?_
        exact keepsSlot_inodeFree (Ne.symm hself) _ _ _ hfree
  · next hmore =>
    cases hrun
    refine h.setRef hne le_rfl ?_
    intro href
    have hone : (k.ftable g).ref.toNat ≠ 1 := by
      intro heq
      exact hmore (UInt32.toNat_inj.mp heq)
    have hzero : (k.ftable g).ref.toNat ≠ 0 := by
      intro heq
      exact hne (UInt32.toNat_inj.mp heq)
    have hsub : ((k.ftable g).ref - 1).toNat = (k.ftable g).ref.toNat - 1 :=
      UInt32.toNat_sub_of_le _ _ (UInt32.le_iff_toNat_le.mpr (by
        change 1 ≤ _
        omega))
    refine ⟨?_, by omega⟩
    intro heq
    rw [heq] at hsub
    exact absurd hsub (by change ¬0 = _; omega)

theorem fileAlloc_eq_ok {g : FileId} (hrun : fileAlloc k = .ok (g, k')) :
    (k.ftable g).ref = 0 ∧
      k' = k.setFile g { k.ftable g with ref := 1 } := by
  unfold fileAlloc at hrun
  rw [Exec.bind_of_ok (m := get) rfl] at hrun
  cases hfind : (List.finRange nFile).find? fun f => (k.ftable f).ref = 0 with
  | none =>
      rw [hfind] at hrun
      cases hrun
  | some found =>
      rw [hfind] at hrun
      cases hrun
      exact ⟨by simpa using List.find?_some hfind, rfl⟩

theorem openInode_avoids {node : Inode} {s s' : FsState} {cwd : Slot}
    (hbarred : Barred node) (hs : s.icache c = node) (hcwd : c ≠ cwd)
    {junk : Junk} {path : List UInt8} {openMode : UInt32}
    {result : Option Slot}
    (hrun : openInode cwd junk path openMode s = .ok (result, s')) :
    s'.icache c = node ∧ ∀ ip, result = some ip → c ≠ ip := by
  unfold openInode at hrun
  split at hrun
  · exact pathCreateInode_avoids hbarred hs hcwd hrun
  · rw [Exec.bind_eq_ok] at hrun
    obtain ⟨found, walked, hwalk, hrun⟩ := hrun
    have hfound := pathToInode_avoids hbarred hs hcwd hwalk
    cases found with
    | none =>
        cases hrun
        exact ⟨hfound, fun _ h => by cases h⟩
    | some ip =>
        dsimp only at hrun
        rw [Exec.bind_eq_ok] at hrun
        obtain ⟨_, locked, hlock, hend⟩ := hrun
        cases hend
        obtain ⟨hne, hlocked⟩ := inodeLock_avoids hfound hlock
        refine ⟨hlocked, ?_⟩
        intro ip' hip'
        cases hip'
        exact hne

theorem fileOpen_broken {cwd : Slot} {junk : Junk} {path : List UInt8}
    {openMode : UInt32} {result : Option FileId} (h : Broken c f bound k)
    (hcwd : c ≠ cwd)
    (hrun : fileOpen cwd junk path openMode k = .ok (result, k')) :
    Broken c f bound k' := by
  unfold fileOpen at hrun
  rw [liftFs_bind_eq_ok] at hrun
  obtain ⟨found, fs, hopen, hrun⟩ := hrun
  obtain ⟨hslot, hne⟩ := openInode_avoids h.barred rfl hcwd hopen
  have hopened := h.of_fs hslot
  cases found with
  | none =>
      cases hrun
      exact hopened
  | some ip =>
      have hip : c ≠ ip := hne ip rfl
      dsimp only at hrun
      rw [liftFs_bind_eq_ok] at hrun
      obtain ⟨node, fs', hread, hrun⟩ := hrun
      cases hread
      rw [kassert_bind_eq_ok] at hrun
      obtain ⟨_, hrun⟩ := hrun
      rw [Exec.bind_eq_ok] at hrun
      obtain ⟨g, allocated, halloc, hrun⟩ := hrun
      obtain ⟨hfree, rfl⟩ := fileAlloc_eq_ok halloc
      rw [readFile_bind] at hrun
      have hfill : ∀ file : File, file.ip = some ip →
          (do
            writeFile g file
            liftFs (inodeUnlock ip)
            let file ← readFile g
            writeFile g { file with
              readable := openMode &&& modeRead ≠ 0
              writable := openMode &&& modeWrite ≠ 0 }
            return some g : KernelM (Option FileId))
          ({ k with fs := fs }.setFile g { k.ftable g with ref := 1 }) =
            .ok (result, k') → Broken c f bound k' := by
        intro file hfile hfilled
        rw [writeFile_bind, liftFs_bind_eq_ok] at hfilled
        obtain ⟨_, unlocked, hunlock, hfilled⟩ := hfilled
        cases hfilled
        have hunlocked : unlocked.icache c = k.fs.icache c :=
          (keepsSlot_inodeUnlock hip _ _ _ hunlock).trans hslot
        have hclean : Broken c f bound ({ k with fs := unlocked }.setFile g
            { file with
              readable := openMode &&& modeRead ≠ 0
              writable := openMode &&& modeWrite ≠ 0 }) := by
          refine (h.of_fs hunlocked).setFile hfree ?_
          rw [hfile]
          intro heq
          exact hip (Option.some.inj heq).symm
        simpa [KernelState.setFile] using hclean
      split at hrun
      · exact hfill _ rfl hrun
      · exact hfill _ rfl hrun

/-! Processes. -/

theorem closeFiles_broken {files : List (Option FileId)} {value : Unit}
    (h : Broken c f bound k) (hrun : closeFiles files k = .ok (value, k')) :
    Broken c f bound k' := by
  induction files generalizing k with
  | nil =>
      cases hrun
      exact h
  | cons file files ih =>
      cases file with
      | none => exact ih h hrun
      | some g =>
          unfold closeFiles at hrun
          rw [Exec.bind_eq_ok] at hrun
          obtain ⟨_, closed, hclose, hrest⟩ := hrun
          exact ih (fileClose_broken h hclose) hrest

theorem procFree_broken {p : ProcId} {value : Unit} (h : Broken c f bound k)
    (hrun : procFree p k = .ok (value, k')) : Broken c f bound k' := by
  unfold procFree at hrun
  rw [readProc_bind, writeProc_bind] at hrun
  exact closeFiles_broken (h.setProc (by exact h.cwds p)) hrun

theorem procAlloc_broken {p : ProcId} (h : Broken c f bound k)
    (hrun : procAlloc k = .ok (p, k')) : Broken c f bound k' := by
  unfold procAlloc allocPid at hrun
  rw [Exec.bind_eq_ok] at hrun
  obtain ⟨pid, numbered, hpid, hrun⟩ := hrun
  rw [Exec.bind_of_ok (m := get) rfl, kassert_bind_eq_ok] at hpid
  have hstart : Broken c f bound numbered := by
    cases hpid.2
    exact ⟨h.barred, h.cwds, h.others, h.console⟩
  rw [Exec.bind_of_ok (m := get) rfl] at hrun
  cases hfind : (List.finRange nProc).find? fun p =>
      (numbered.procs p).state = .unused with
  | none =>
      rw [hfind] at hrun
      cases hrun
  | some found =>
      rw [hfind] at hrun
      cases hrun
      exact hstart.setProc (hstart.cwds p)

theorem copyFiles_broken {parent child : ProcId}
    {fds : List (Fin filePerProc)} {value : Unit} (h : Broken c f bound k)
    (hbound : bound + fds.length < 2 ^ 32)
    (hrun : copyFiles parent child fds k = .ok (value, k')) :
    Broken c f (bound + fds.length) k' := by
  induction fds generalizing k bound with
  | nil =>
      cases hrun
      exact h
  | cons fd fds ih =>
      rw [List.length_cons] at hbound ⊢
      unfold copyFiles at hrun
      rw [readProc_bind] at hrun
      cases hfile : (k.procs parent).filelist fd with
      | none =>
          rw [hfile] at hrun
          exact (ih h (by omega) hrun).mono (by omega)
      | some g =>
          rw [hfile] at hrun
          dsimp only at hrun
          rw [Exec.bind_eq_ok] at hrun
          obtain ⟨g', dupped, hdup, hrun⟩ := hrun
          rw [readProc_bind, writeProc_bind] at hrun
          obtain ⟨hdupped, _⟩ := fileDup_broken h (by omega) hdup
          have hrest := ih (hdupped.setProc (by exact hdupped.cwds child))
            (by omega) hrun
          exact hrest.mono (by omega)

theorem procFork_broken {p : ProcId} {pid : UInt32} (h : Broken c f bound k)
    (hbound : bound + 10 < 2 ^ 32)
    (hrun : procFork p k = .ok (pid, k')) : Broken c f (bound + 10) k' := by
  unfold procFork at hrun
  rw [Exec.bind_eq_ok] at hrun
  obtain ⟨child, allocated, halloc, hrun⟩ := hrun
  rw [Exec.bind_eq_ok] at hrun
  obtain ⟨_, copied, hcopy, hrun⟩ := hrun
  have hcopied : Broken c f (bound + 10) copied :=
    copyFiles_broken (procAlloc_broken h halloc)
      (by rw [List.length_finRange]; exact hbound) hcopy
  rw [readProc_bind, deref_bind_eq_ok] at hrun
  obtain ⟨cwd, hcwd, hrun⟩ := hrun
  have hne : c ≠ cwd := by
    intro heq
    subst heq
    exact hcopied.cwds p hcwd
  rw [liftFs_bind_eq_ok] at hrun
  obtain ⟨cwd', fs, hdup, hrun⟩ := hrun
  have hkept := keepsSlot_inodeDup hne _ _ _ hdup
  have hsame : cwd' = cwd := by
    cases hdup
    rfl
  subst hsame
  rw [readProc_bind, writeProc_bind] at hrun
  cases hrun
  refine (hcopied.of_fs hkept).setProc ?_
  intro heq
  exact hne (Option.some.inj heq).symm

theorem procExit_broken {p : ProcId} {value : Unit} (h : Broken c f bound k)
    (hrun : procExit p k = .ok (value, k')) : Broken c f bound k' := by
  unfold procExit at hrun
  rw [readProc_bind, kassert_bind_eq_ok] at hrun
  obtain ⟨_, hrun⟩ := hrun
  rw [deref_bind_eq_ok] at hrun
  obtain ⟨_, _, hrun⟩ := hrun
  rw [Exec.bind_eq_ok] at hrun
  obtain ⟨_, reparented, hreparent, hrun⟩ := hrun
  have hstate : Broken c f bound reparented := by
    cases hreparent
    refine ⟨h.barred, ?_, h.others, h.console⟩
    intro q
    dsimp only
    split
    · exact h.cwds q
    · exact h.cwds q
  rw [readProc_bind] at hrun
  cases hrun
  exact hstate.setProc (hstate.cwds p)

theorem procWait_broken {p : ProcId} {pid : UInt32} (h : Broken c f bound k)
    (hrun : procWait p k = .ok (pid, k')) : Broken c f bound k' := by
  unfold procWait at hrun
  rw [Exec.bind_of_ok (m := get) rfl] at hrun
  cases hfind : ((List.finRange nProc).filter fun q =>
      (k.procs q).parent = some p).find? fun q =>
        (k.procs q).state = .zombie with
  | some q =>
      rw [hfind] at hrun
      dsimp only at hrun
      rw [Exec.bind_eq_ok] at hrun
      obtain ⟨_, freed, hfree, hend⟩ := hrun
      cases hend
      exact procFree_broken h hfree
  | none =>
      rw [hfind] at hrun
      dsimp only at hrun
      rw [Exec.require_bind_eq_ok] at hrun
      cases hrun.2
      exact h

theorem exitWait_broken {p : ProcId} {value : Unit} (h : Broken c f bound k)
    (hrun : exitWait p k = .ok (value, k')) : Broken c f bound k' := by
  unfold exitWait at hrun
  rw [readProc_bind, deref_bind_eq_ok] at hrun
  obtain ⟨parent, _, hrun⟩ := hrun
  rw [Exec.bind_eq_ok] at hrun
  obtain ⟨_, exited, hexit, hrun⟩ := hrun
  rw [Exec.bind_eq_ok] at hrun
  obtain ⟨pid, waited, hwait, hend⟩ := hrun
  cases hend
  exact procWait_broken (procExit_broken h hexit) hwait

/-! System calls. -/

theorem procCwd_bind_eq_ok {α : Type} {p : ProcId} {g : Slot → KernelM α}
    {result : α × KernelState} (h : Broken c f bound k)
    (hrun : (procCwd p >>= g) k = .ok result) :
    ∃ cwd, c ≠ cwd ∧ g cwd k = .ok result := by
  unfold procCwd at hrun
  rw [bind_assoc, readProc_bind, deref_bind_eq_ok] at hrun
  obtain ⟨cwd, hcwd, hrun⟩ := hrun
  refine ⟨cwd, ?_, hrun⟩
  intro heq
  subst heq
  exact h.cwds p hcwd

theorem fdAlloc_broken {p : ProcId} {g : FileId}
    {fd : Option (Fin filePerProc)} (h : Broken c f bound k)
    (hrun : fdAlloc p g k = .ok (fd, k')) : Broken c f bound k' := by
  unfold fdAlloc at hrun
  rw [readProc_bind] at hrun
  cases hfind : (List.finRange filePerProc).find? fun fd =>
      (k.procs p).filelist fd = none with
  | none =>
      rw [hfind] at hrun
      cases hrun
      exact h
  | some free =>
      rw [hfind] at hrun
      cases hrun
      exact h.setProc (h.cwds p)

theorem argFd_eq_ok {p : ProcId} {fd : UInt32}
    {result : Option (Fin filePerProc × FileId)}
    (hrun : argFd p fd k = .ok (result, k')) : k' = k := by
  unfold argFd at hrun
  split at hrun
  · next hlt =>
    rw [readProc_bind] at hrun
    cases hfile : (k.procs p).filelist ⟨fd.toNat, hlt⟩ <;>
      rw [hfile] at hrun <;> cases hrun <;> rfl
  · cases hrun
    rfl

theorem sysOpen_broken {p : ProcId} {junk : Junk} {path : List UInt8}
    {openMode : UInt32} {result : Option (Fin filePerProc)}
    (h : Broken c f bound k)
    (hrun : sysOpen p junk path openMode k = .ok (result, k')) :
    Broken c f bound k' := by
  unfold sysOpen at hrun
  obtain ⟨cwd, hcwd, hrun⟩ := procCwd_bind_eq_ok h hrun
  rw [Exec.bind_eq_ok] at hrun
  obtain ⟨file, opened, hopen, hrun⟩ := hrun
  have hopened := fileOpen_broken h hcwd hopen
  cases file with
  | none =>
      cases hrun
      exact hopened
  | some g =>
      dsimp only at hrun
      rw [Exec.bind_eq_ok] at hrun
      obtain ⟨fd, placed, hplace, hrun⟩ := hrun
      have hplaced := fdAlloc_broken hopened hplace
      split at hrun
      · rw [Exec.bind_eq_ok] at hrun
        obtain ⟨_, closed, hclose, hend⟩ := hrun
        cases hend
        exact fileClose_broken hplaced hclose
      · cases hrun
        exact hplaced

theorem sysClose_broken {p : ProcId} {fd : UInt32} {result : Bool}
    (h : Broken c f bound k) (hrun : sysClose p fd k = .ok (result, k')) :
    Broken c f bound k' := by
  unfold sysClose at hrun
  rw [Exec.bind_eq_ok] at hrun
  obtain ⟨found, same, harg, hrun⟩ := hrun
  have hsame := argFd_eq_ok harg
  subst hsame
  cases found with
  | none =>
      cases hrun
      exact h
  | some pair =>
      dsimp only at hrun
      rw [readProc_bind, writeProc_bind, Exec.bind_eq_ok] at hrun
      obtain ⟨_, closed, hclose, hend⟩ := hrun
      cases hend
      exact fileClose_broken (h.setProc (by exact h.cwds p)) hclose

theorem sysDup_broken {p : ProcId} {fd : UInt32}
    {result : Option (Fin filePerProc)} (h : Broken c f bound k)
    (hbound : bound + 1 < 2 ^ 32)
    (hrun : sysDup p fd k = .ok (result, k')) :
    Broken c f (bound + 1) k' := by
  unfold sysDup at hrun
  rw [Exec.bind_eq_ok] at hrun
  obtain ⟨found, same, harg, hrun⟩ := hrun
  have hsame := argFd_eq_ok harg
  subst hsame
  cases found with
  | none =>
      cases hrun
      exact h.mono (Nat.le_succ _)
  | some pair =>
      dsimp only at hrun
      rw [Exec.bind_eq_ok] at hrun
      obtain ⟨newFd, placed, hplace, hrun⟩ := hrun
      rw [Exec.bind_eq_ok] at hrun
      obtain ⟨_, dupped, hdup, hend⟩ := hrun
      cases hend
      exact (fileDup_broken (fdAlloc_broken h hplace) hbound hdup).1

theorem sysMkdir_broken {p : ProcId} {junk : Junk} {path : List UInt8}
    {value : Unit} (h : Broken c f bound k)
    (hrun : sysMkdir p junk path k = .ok (value, k')) :
    Broken c f bound k' := by
  unfold sysMkdir at hrun
  obtain ⟨cwd, hcwd, hrun⟩ := procCwd_bind_eq_ok h hrun
  rw [liftFs_bind_eq_ok] at hrun
  obtain ⟨inode, fs, hcreate, hrun⟩ := hrun
  obtain ⟨hslot, hne⟩ := pathCreateInode_avoids h.barred rfl hcwd hcreate
  cases inode with
  | none => cases hrun
  | some ip =>
      obtain ⟨fs', hfree, rfl⟩ := liftFs_eq_ok.mp hrun
      exact (h.of_fs hslot).of_fs
        (keepsSlot_inodeUnlockFree (hne ip rfl) _ _ _ hfree)

theorem sysChdir_broken {p : ProcId} {junk : Junk} {path : List UInt8}
    {result : Bool} (h : Broken c f bound k)
    (hrun : sysChdir p junk path k = .ok (result, k')) :
    Broken c f bound k' := by
  unfold sysChdir at hrun
  obtain ⟨cwd, hcwd, hrun⟩ := procCwd_bind_eq_ok h hrun
  rw [liftFs_bind_eq_ok] at hrun
  obtain ⟨⟨changed, cwd'⟩, fs, hchange, hrun⟩ := hrun
  obtain ⟨hslot, hne⟩ := dirChange_avoids h.barred rfl hcwd hchange
  cases hrun
  refine (h.of_fs hslot).setProc ?_
  intro heq
  exact hne (Option.some.inj heq).symm

theorem sysLink_broken {p : ProcId} {junk : Junk}
    {oldPath newPath : List UInt8} {result : Bool} (h : Broken c f bound k)
    (hrun : sysLink p junk oldPath newPath k = .ok (result, k')) :
    Broken c f bound k' := by
  unfold sysLink at hrun
  obtain ⟨cwd, hcwd, hrun⟩ := procCwd_bind_eq_ok h hrun
  obtain ⟨fs, hlink, rfl⟩ := liftFs_eq_ok.mp hrun
  exact h.of_fs (pathLink_avoids h.barred rfl hcwd hlink)

theorem sysUnlink_broken {p : ProcId} {junk : Junk} {path : List UInt8}
    {result : Bool} (h : Broken c f bound k)
    (hrun : sysUnlink p junk path k = .ok (result, k')) :
    Broken c f bound k' := by
  unfold sysUnlink at hrun
  obtain ⟨cwd, hcwd, hrun⟩ := procCwd_bind_eq_ok h hrun
  obtain ⟨fs, hunlink, rfl⟩ := liftFs_eq_ok.mp hrun
  exact h.of_fs (pathUnlink_avoids h.barred rfl hcwd hunlink)

theorem step_broken {op : Op} (h : Broken c f bound k)
    (hbound : bound + 10 < 2 ^ 32) (hstep : step k op = some k') :
    Broken c f (bound + 10) k' := by
  unfold step at hstep
  split at hstep
  · cases hexec : exec op k with
    | error reason => simp [hexec] at hstep
    | ok pair =>
        simp only [hexec, Option.some.injEq] at hstep
        subst hstep
        obtain ⟨value, k'⟩ := pair
        obtain ⟨p, junk, call⟩ := op
        unfold exec at hexec
        have hsilent : ∀ {α : Type} {m : KernelM α} {value : Unit},
            (do let _ ← m : KernelM Unit) k = .ok (value, k') →
            ∃ result, m k = .ok (result, k') := by
          intro α m value hrun
          rw [Exec.bind_eq_ok] at hrun
          obtain ⟨result, final, hm, hend⟩ := hrun
          cases hend
          exact ⟨result, hm⟩
        cases call with
        | fork =>
            obtain ⟨_, hrun⟩ := hsilent hexec
            exact procFork_broken h hbound hrun
        | exit => exact (exitWait_broken h hexec).mono (Nat.le_add_right _ _)
        | «open» path openMode =>
            obtain ⟨_, hrun⟩ := hsilent hexec
            exact (sysOpen_broken h hrun).mono (Nat.le_add_right _ _)
        | close fd =>
            obtain ⟨_, hrun⟩ := hsilent hexec
            exact (sysClose_broken h hrun).mono (Nat.le_add_right _ _)
        | dup fd =>
            obtain ⟨_, hrun⟩ := hsilent hexec
            exact (sysDup_broken h (by omega) hrun).mono (by omega)
        | chdir path =>
            obtain ⟨_, hrun⟩ := hsilent hexec
            exact (sysChdir_broken h hrun).mono (Nat.le_add_right _ _)
        | mkdir path =>
            exact (sysMkdir_broken h hexec).mono (Nat.le_add_right _ _)
        | link oldPath newPath =>
            obtain ⟨_, hrun⟩ := hsilent hexec
            exact (sysLink_broken h hrun).mono (Nat.le_add_right _ _)
        | unlink path =>
            obtain ⟨_, hrun⟩ := hsilent hexec
            exact (sysUnlink_broken h hrun).mono (Nat.le_add_right _ _)
  · cases hstep

theorem run_broken {ops : List Op} (h : Broken c f bound k)
    (hbound : bound + 10 * ops.length < 2 ^ 32)
    (hrun : run step k ops = some k') :
    Broken c f (bound + 10 * ops.length) k' := by
  induction ops generalizing k bound with
  | nil =>
      cases hrun
      exact h
  | cons op ops ih =>
      rw [List.length_cons] at hbound ⊢
      obtain ⟨middle, hstep, hrest⟩ := run_cons.mp hrun
      have hmiddle := step_broken h (by omega) hstep
      exact (ih hmiddle (by omega) hrest).mono (by omega)

end

/-! Boot. -/

/-- The slots while the console is being created: the root in the first one and
nothing in the others. -/
structure RootOnly (s : FsState) : Prop where
  root : (s.icache 0).inodeNum = inodeRoot
  others : ∀ i, i ≠ 0 →
    (s.icache i).inodeNum = inodeNumUnused ∧ (s.icache i).ref = 0

section

variable {s s' : FsState}

theorem RootOnly.of_root (h : RootOnly s) {node : Inode}
    (hnum : node.inodeNum = (s.icache 0).inodeNum) :
    RootOnly (s.setSlot 0 node) := by
  refine ⟨?_, ?_⟩
  · rw [FsState.setSlot_icache, Function.update_self, hnum]
    exact h.root
  · intro i hi
    rw [FsState.setSlot_icache, Function.update_of_ne hi]
    exact h.others i hi

theorem RootOnly.of_icache (h : RootOnly s) (hsame : s'.icache = s.icache) :
    RootOnly s' := by
  refine ⟨?_, ?_⟩
  · rw [hsame]
    exact h.root
  · intro i hi
    rw [hsame]
    exact h.others i hi

theorem RootOnly.lock (h : RootOnly s) {value : Unit}
    (hrun : inodeLock 0 s = .ok (value, s')) : RootOnly s' := by
  obtain ⟨_, _, rfl, _⟩ := inodeLock_eq_ok hrun
  exact h.of_root rfl

theorem RootOnly.unlock (h : RootOnly s) {value : Unit}
    (hrun : inodeUnlock 0 s = .ok (value, s')) : RootOnly s' := by
  obtain ⟨_, _, rfl⟩ := inodeUnlock_eq_ok hrun
  exact h.of_root rfl

theorem RootOnly.not_holds (h : RootOnly s) {inodeNum : UInt16}
    (hnum : inodeNum ≠ inodeRoot) (j : Slot) : ¬s.Holds j inodeNum := by
  rintro ⟨hsame, hpos⟩
  by_cases hj : j = 0
  · subst hj
    exact hnum (hsame.symm.trans h.root)
  · rw [(h.others j hj).2] at hpos
    exact absurd hpos (UInt32.lt_irrefl 0)

theorem RootOnly.ne_root (h : RootOnly s) {i : Slot}
    (hunused : (s.icache i).inodeNum = inodeNumUnused) : i ≠ 0 := by
  rintro rfl
  rw [h.root] at hunused
  exact absurd hunused (by decide)

theorem bitmapAllocInode_ne_root {inodeNum : UInt16}
    (hrun : bitmapAllocInode s = .ok (inodeNum, s')) :
    inodeNum ≠ inodeRoot ∧ s'.icache = s.icache := by
  refine ⟨?_, keepsIcache_bitmapAllocInode _ _ _ hrun⟩
  rw [bitmapAllocInode_eq] at hrun
  cases hfind : lowestClear (s.disk sb.inodeBitmapStart) with
  | none =>
      rw [hfind] at hrun
      cases hrun
      decide
  | some bi =>
      rw [hfind] at hrun
      cases hrun
      obtain ⟨hbi, _⟩ := lowestClear_spec hfind
      intro hzero
      have hvalue := congrArg UInt16.toNat hzero
      rw [UInt32.toNat_toUInt16, BitmapKind.number_toNat _ hbi] at hvalue
      change (bi + 2) % 65536 = 0 at hvalue
      omega

theorem consoleWalk (h : RootOnly s) {name name' : Name}
    {result : Option Slot}
    (hrun : searchInode 0 consolePath name true s =
      .ok ((result, name'), s')) :
    result = none ∨ result = some 0 ∧ RootOnly s' := by
  obtain ⟨start, hroot, hstart⟩ : ∃ start, RootOnly start ∧
      searchInode 0 consolePath name true s =
        searchLoop true 8 0 consolePath name start := by
    refine ⟨_, h.of_root ?_, rfl⟩
    rfl
  have hskip : skipElement consolePath name =
      (some [], copyString consolePath name) := rfl
  rw [hstart] at hrun
  unfold searchLoop at hrun
  rw [hskip] at hrun
  dsimp only at hrun
  rw [Exec.bind_eq_ok] at hrun
  obtain ⟨_, locked, hlock, hrun⟩ := hrun
  have hlocked := hroot.lock hlock
  rw [readSlot_bind] at hrun
  split at hrun
  · rw [Exec.bind_eq_ok] at hrun
    obtain ⟨_, freed, _, hend⟩ := hrun
    cases hend
    exact .inl rfl
  · rw [if_pos ⟨rfl, rfl⟩, Exec.bind_eq_ok] at hrun
    obtain ⟨_, unlocked, hunlock, hend⟩ := hrun
    cases hend
    exact .inr ⟨rfl, hlocked.unlock hunlock⟩

/-- A new inode that is no directory ends up with one reference, one link and
its lock. -/
theorem linkNewInode_spec {dp ip : Slot} {name : Name} {junk : Junk}
    {type : UInt16} {value : Unit} (hne : ip ≠ dp) (htype : type ≠ ftDir)
    (hrun : linkNewInode dp ip name junk type s = .ok (value, s')) :
    (s'.icache ip).inodeNum = (s.icache ip).inodeNum ∧
      (s'.icache ip).ref = (s.icache ip).ref ∧
      (s'.icache ip).diskInode.nlink = 1 := by
  unfold linkNewInode setNlink at hrun
  rw [Exec.bind_eq_ok] at hrun
  obtain ⟨_, locked, hlock, hrun⟩ := hrun
  obtain ⟨_, _, rfl, _⟩ := inodeLock_eq_ok hlock
  rw [bind_assoc, readSlot_bind, bind_assoc, writeSlot_bind,
    Exec.bind_eq_ok] at hrun
  obtain ⟨_, flushed, hflush, hrun⟩ := hrun
  obtain ⟨_, rfl⟩ := inodeRw_true_eq_ok.mp hflush
  rw [readSlot_bind, readSlot_bind, if_neg htype, Exec.bind_eq_ok] at hrun
  obtain ⟨added, entered, hadd, hrun⟩ := hrun
  rw [assertThat_bind_eq_ok] at hrun
  have hentered := keepsSlot_dirAddEntry hne _ _ _ _ _ hadd
  have hfreed := keepsSlot_inodeUnlockFree hne _ _ _ hrun.2
  have hnode : s'.icache ip = _ := hfreed.trans hentered
  rw [hnode]
  simp only [FsState.flush_icache, FsState.setSlot_icache, Function.update_self,
    and_self]

/-- `path_create_inode("console", FT_DEVICE, ...)` creates an inode or returns
no inode. -/
theorem consoleCreated (h : RootOnly s) {junk : Junk} {major minor : UInt16}
    {result : Option Slot}
    (hrun : pathCreateInode 0 junk consolePath ftDevice major minor s =
      .ok (result, s')) :
    result = none ∨ ∃ c, c ≠ 0 ∧ result = some c ∧
      (s'.icache c).inodeNum ≠ inodeNumUnused ∧ (s'.icache c).ref = 1 ∧
      (s'.icache c).diskInode.nlink = 1 := by
  unfold pathCreateInode pathToPinode at hrun
  rw [Exec.bind_eq_ok] at hrun
  obtain ⟨⟨parent, name⟩, walked, hwalk, hrun⟩ := hrun
  rcases consoleWalk h hwalk with rfl | ⟨rfl, hwalked⟩
  · cases hrun
    exact .inl rfl
  · dsimp only at hrun
    rw [Exec.bind_eq_ok] at hrun
    obtain ⟨_, locked, hlock, hrun⟩ := hrun
    have hlocked := hwalked.lock hlock
    rw [Exec.bind_eq_ok] at hrun
    obtain ⟨inodeNum, searched, hsearch, hrun⟩ := hrun
    have hsearched : RootOnly searched :=
      hlocked.of_icache (keepsIcache_dirSearchEntry 0 name _ _ _ hsearch)
    rw [Exec.bind_eq_ok] at hrun
    obtain ⟨ip, got, hget, hrun⟩ := hrun
    rw [readSlot_bind] at hrun
    split at hrun
    · -- the name exists: no inode is returned for a device
      left
      rw [Exec.bind_eq_ok] at hrun
      obtain ⟨_, freed, _, hrun⟩ := hrun
      rw [Exec.bind_eq_ok] at hrun
      obtain ⟨_, held, _, hrun⟩ := hrun
      rw [readSlot_bind, if_neg (fun hcase => absurd hcase.1 (by decide)),
        Exec.bind_eq_ok] at hrun
      obtain ⟨_, dropped, _, hend⟩ := hrun
      cases hend
      rfl
    · next hmissing =>
      have hunused := inodeGet_inodeNum hget
      rw [not_not.mp hmissing] at hunused
      subst hunused
      obtain ⟨hempty, rfl⟩ :=
        inodeGet_fresh (hsearched.not_holds (by decide)) hget
      rw [Exec.bind_eq_ok] at hrun
      obtain ⟨new, made, hcreate, hrun⟩ := hrun
      unfold inodeCreate at hcreate
      rw [assertThat_bind_eq_ok, Exec.bind_eq_ok] at hcreate
      obtain ⟨_, n, marked, halloc, hcreate⟩ := hcreate
      obtain ⟨hroot, hmarked⟩ := bitmapAllocInode_ne_root halloc
      rw [bufRead_bind_eq_ok, bufWrite_bind] at hcreate
      have hnumber := inodeGet_inodeNum hcreate.2
      rw [readSlot_bind] at hrun
      split at hrun
      · rw [Exec.bind_eq_ok] at hrun
        obtain ⟨_, freed, _, hend⟩ := hrun
        cases hend
        exact .inl rfl
      · next hfailed =>
        rw [hnumber] at hfailed
        -- the number is new, so it gets a slot that was empty
        have hnone : ∀ j, ¬marked.Holds j n := by
          rintro j ⟨hsame, hpos⟩
          rw [hmarked, FsState.setSlot_icache] at hsame hpos
          by_cases hj : j = ip
          · subst hj
            rw [Function.update_self] at hsame
            exact hfailed hsame.symm
          · rw [Function.update_of_ne hj] at hsame hpos
            exact hsearched.not_holds hroot j ⟨hsame, hpos⟩
        obtain ⟨hslot, rfl⟩ :=
          inodeGet_fresh (by exact hnone) hcreate.2
        have hne : new ≠ 0 := by
          rintro rfl
          rw [FsState.setBlock_icache, hmarked, FsState.setSlot_icache] at hslot
          by_cases hz : (0 : Slot) = ip
          · rw [← hz] at hempty
            exact hsearched.ne_root hempty rfl
          · rw [Function.update_of_ne hz] at hslot
            exact hsearched.ne_root hslot rfl
        rw [Exec.bind_eq_ok] at hrun
        obtain ⟨_, linked, hlink, hend⟩ := hrun
        cases hend
        obtain ⟨hnum, href, hnlink⟩ :=
          linkNewInode_spec hne (by decide) hlink
        rw [FsState.setSlot_icache, Function.update_self] at hnum href
        exact .inr ⟨new, hne, rfl, by rw [hnum]; exact hfailed, href, hnlink⟩

end

section

variable {k k' : KernelState}

theorem procAlloc_frame {p : ProcId} (hrun : procAlloc k = .ok (p, k')) :
    k'.fs = k.fs ∧ k'.ftable = k.ftable ∧
      ∀ q, (k'.procs q).cwd = (k.procs q).cwd := by
  unfold procAlloc allocPid at hrun
  rw [Exec.bind_eq_ok] at hrun
  obtain ⟨pid, numbered, hpid, hrun⟩ := hrun
  rw [Exec.bind_of_ok (m := get) rfl, kassert_bind_eq_ok] at hpid
  cases hpid.2
  rw [Exec.bind_of_ok (m := get) rfl] at hrun
  cases hfind : (List.finRange nProc).find? fun p =>
      (k.procs p).state = .unused with
  | none =>
      rw [hfind] at hrun
      cases hrun
  | some found =>
      rw [hfind] at hrun
      cases hrun
      refine ⟨rfl, rfl, ?_⟩
      intro q
      change (Function.update k.procs p _ q).cwd = _
      by_cases hq : q = p
      · subst hq
        rw [Function.update_self]
      · rw [Function.update_of_ne hq]

theorem fsInit_eq_ok {s s' : FsState} {value : Unit}
    (hrun : fsInit s = .ok (value, s')) : s' = s := by
  unfold fsInit at hrun
  rw [bufRead_bind_eq_ok, assertThat_bind_eq_ok] at hrun
  exact (assertThat_eq_ok.mp hrun.2.2).2

theorem rootWalk {disk : Disk} {junk : Junk} {root : Option Slot}
    {s : FsState}
    (hrun : pathToInode 0 junk [slash] (.booted disk) = .ok (root, s)) :
    root = some 0 ∧ RootOnly s := by
  have hwalk : pathToInode 0 junk [slash] (.booted disk) =
      .ok (some 0, (FsState.booted disk).setSlot 0
        ⟨InodeDisk.zero, inodeRoot, 1, false, false⟩) := rfl
  rw [hwalk] at hrun
  cases hrun
  refine ⟨rfl, rfl, ?_⟩
  intro i hi
  rw [FsState.setSlot_icache, Function.update_of_ne hi]
  exact ⟨rfl, rfl⟩

theorem fileCreateDev_broken {junk : Junk} {major minor : UInt16}
    {f : FileId} (hroot : RootOnly k.fs) (hclosed : ∀ g, (k.ftable g).ref = 0)
    (hcwds : ∀ c, c ≠ 0 → ∀ p, (k.procs p).cwd ≠ some c)
    (hrun : fileCreateDev 0 junk consolePath major minor k = .ok (f, k')) :
    ∃ c, Broken c f 1 k' := by
  unfold fileCreateDev at hrun
  rw [liftFs_bind_eq_ok] at hrun
  obtain ⟨devInode, created, hcreate, hrun⟩ := hrun
  rcases consoleCreated hroot hcreate with rfl |
    ⟨c, hc, rfl, hnum, href, hnlink⟩
  · cases hrun
  · have hlocked : lockedInode (some c) = pure c := rfl
    rw [hlocked, pure_bind, liftFs_bind_eq_ok] at hrun
    obtain ⟨_, freed, hfree, hrun⟩ := hrun
    unfold inodeUnlockFree at hfree
    rw [Exec.bind_eq_ok] at hfree
    obtain ⟨_, unlocked, hunlock, hfree⟩ := hfree
    obtain ⟨_, _, hunlocked⟩ := inodeUnlock_eq_ok hunlock
    have hnode : unlocked.icache c = { created.icache c with
        locked := false } := by
      rw [hunlocked, FsState.setSlot_icache, Function.update_self]
    -- the inode has a link, so only its count drops
    have hdies : ¬(unlocked.icache c).Dies := by
      rw [hnode]
      intro hdies
      have hzero := hdies.2.2
      rw [hnlink] at hzero
      exact absurd hzero (by decide)
    obtain ⟨_, rfl⟩ := inodeFree_of_not_dies hdies hfree
    rw [Exec.bind_eq_ok] at hrun
    obtain ⟨g, filed, halloc, hrun⟩ := hrun
    obtain ⟨_, rfl⟩ := fileAlloc_eq_ok halloc
    rw [readFile_bind, writeFile_bind] at hrun
    cases hrun
    have hslot : (Function.update unlocked.icache c { unlocked.icache c with
        ref := (unlocked.icache c).ref - 1 }) c = { created.icache c with
          locked := false, ref := 0 } := by
      rw [Function.update_self, hnode, href]
      rfl
    refine ⟨c, ?_, hcwds c hc, ?_, ?_⟩
    · change Barred (Function.update unlocked.icache c _ c)
      rw [hslot]
      exact ⟨hnum, rfl, .inl rfl⟩
    · intro g hg hopen
      change (Function.update (Function.update k.ftable f _) f _ g).ref ≠ 0
        at hopen
      rw [Function.update_of_ne hg, Function.update_of_ne hg] at hopen
      exact absurd (hclosed g) hopen
    · left
      change (Function.update unlocked.icache c _ c).ref = 0 ∧
        (Function.update (Function.update k.ftable f _) f _ f).ref ≠ 0 ∧
        (Function.update (Function.update k.ftable f _) f _ f).ip = some c ∧
        (Function.update (Function.update k.ftable f _) f _ f).type ≠ fdPipe ∧
        (Function.update (Function.update k.ftable f _) f _ f).ref.toNat ≤ 1
      rw [hslot, Function.update_self, KernelState.setFile_ftable,
        Function.update_self]
      refine ⟨rfl, ?_, rfl, ?_, ?_⟩
      · change (1 : UInt32) ≠ 0
        decide
      · change fdDevice ≠ fdPipe
        decide
      · change (1 : UInt32).toNat ≤ 1
        decide

/-- After boot the console is open and its inode counts no reference. -/
theorem bootFirst_broken {disk : Disk} {junk : Junk} {value : Unit}
    (hrun : bootFirst junk (.booted disk) = .ok (value, k)) :
    ∃ c f, Broken c f 2 k := by
  unfold bootFirst at hrun
  rw [Exec.bind_eq_ok] at hrun
  obtain ⟨p, allocated, halloc, hrun⟩ := hrun
  obtain ⟨hfs, hftable, hcwds⟩ := procAlloc_frame halloc
  have hnone : ∀ q, (allocated.procs q).cwd = none := by
    intro q
    rw [hcwds]
    rfl
  rw [readProc_bind, writeProc_bind, Exec.bind_of_ok (m := modify _) rfl,
    liftFs_bind_eq_ok] at hrun
  obtain ⟨_, fs, hinit, hrun⟩ := hrun
  have hsame := fsInit_eq_ok hinit
  subst hsame
  rw [liftFs_bind_eq_ok] at hrun
  obtain ⟨root, rooted, hwalk, hrun⟩ := hrun
  change pathToInode 0 junk [slash] allocated.fs = _ at hwalk
  rw [hfs] at hwalk
  obtain ⟨rfl, hroot⟩ := rootWalk hwalk
  rw [deref_bind_eq_ok] at hrun
  obtain ⟨cwd, hcwd, hrun⟩ := hrun
  cases hcwd
  rw [readProc_bind, writeProc_bind, Exec.bind_eq_ok] at hrun
  obtain ⟨f, opened, hopen, hrun⟩ := hrun
  obtain ⟨c, hopened⟩ := fileCreateDev_broken (by exact hroot)
    (by
      intro g
      change (allocated.ftable g).ref = 0
      rw [hftable]
      rfl)
    (by
      intro c hc q
      change (Function.update (Function.update allocated.procs p _) p _ q).cwd ≠
        some c
      by_cases hq : q = p
      · subst hq
        rw [Function.update_self]
        exact fun h => hc (Option.some.inj h).symm
      · rw [Function.update_of_ne hq, Function.update_of_ne hq, hnone]
        exact fun h => by cases h) hopen
  rw [Exec.bind_eq_ok] at hrun
  obtain ⟨f', dupped, hdup, hrun⟩ := hrun
  obtain ⟨hdupped, _⟩ := fileDup_broken hopened (by decide) hdup
  rw [readProc_bind] at hrun
  cases hrun
  exact ⟨c, f, hdupped.setProc (by exact hdupped.cwds p)⟩

/-- The counts are exact in every state of the run, the first included. -/
def ExactThroughout (k : KernelState) (ops : List Op) : Prop :=
  ∀ n k', run step k (ops.take n) = some k' → RefsExact k'

/-- In no run are the counts exact throughout, and in no state that a run of
fewer than 2²⁸ calls reaches are they exact. -/
theorem inode_refs_never_exact (junk : Junk) (disk : Disk) (k : KernelState)
    (hboot : bootFirst junk (.booted disk) = .ok ((), k)) :
    (∀ ops, ¬ExactThroughout k ops) ∧
      ∀ ops k', ops.length < 2 ^ 28 → run step k ops = some k' →
        ¬RefsExact k' := by
  obtain ⟨c, f, hbroken⟩ := bootFirst_broken hboot
  refine ⟨?_, ?_⟩
  · intro ops hexact
    exact hbroken.not_exact (hexact 0 k rfl)
  · intro ops k' hlength hrun
    have hbound : 2 + 10 * ops.length < 2 ^ 32 := by omega
    exact (run_broken hbroken hbound hrun).not_exact

theorem inode_refs_never_exact_fresh :
    ∃ k, bootFirst ⟨0, 0, 0⟩ (.booted Mkfs.freshImage) = .ok ((), k) ∧
      ∀ ops, ¬ExactThroughout k ops := by
  have hcheck : (match bootFirst ⟨0, 0, 0⟩ (.booted Mkfs.freshImage) with
      | .ok _ => true
      | .error _ => false) = true := by decide +kernel
  cases hboot : bootFirst ⟨0, 0, 0⟩ (.booted Mkfs.freshImage) with
  | error reason => simp [hboot] at hcheck
  | ok pair =>
      exact ⟨pair.2, rfl, (inode_refs_never_exact _ _ _ hboot).1⟩

/-- Right after boot two descriptors share the open console, and its inode
counts no reference. -/
theorem console_inode_unreferenced :
    ∃ k, bootFirst ⟨0, 0, 0⟩ (.booted Mkfs.freshImage) = .ok ((), k) ∧
      (k.fs.icache 1).ref = 0 ∧ (k.ftable 0).ref = 2 ∧
      (k.ftable 0).ip = some 1 ∧ ¬RefsExact k := by
  have hcheck : (match bootFirst ⟨0, 0, 0⟩ (.booted Mkfs.freshImage) with
      | .ok (_, k) => decide ((k.fs.icache 1).ref = 0 ∧
          (k.ftable 0).ref = 2 ∧ (k.ftable 0).ip = some 1)
      | .error _ => false) = true := by decide +kernel
  cases hboot : bootFirst ⟨0, 0, 0⟩ (.booted Mkfs.freshImage) with
  | error reason => simp [hboot] at hcheck
  | ok pair =>
      simp only [hboot, decide_eq_true_eq] at hcheck
      obtain ⟨href, hopen, hip⟩ := hcheck
      refine ⟨pair.2, rfl, href, hopen, hip, ?_⟩
      intro hexact
      have hcount := hexact 1
      have hmem : (0 : FileId) ∈ Finset.univ.filter fun f =>
          0 < (pair.2.ftable f).ref ∧ (pair.2.ftable f).ip = some 1 := by
        rw [Finset.mem_filter, hopen, hip]
        exact ⟨Finset.mem_univ 0, by decide, rfl⟩
      have hpos := Finset.card_pos.mpr ⟨0, hmem⟩
      rw [href] at hcount
      change 0 = _ at hcount
      omega

end

end RefRun

end UnoOS.Kernel
