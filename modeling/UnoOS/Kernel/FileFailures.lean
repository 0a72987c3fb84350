import UnoOS.Fs.Failures
import UnoOS.Kernel.Proc

namespace UnoOS.Kernel

open UnoOS.Lib
open UnoOS.Fs
open UnoOS.Lib.Exec (StopsWith)

/-! The assertions on the counts of open files, and what cannot hit them. -/

def FileAssertion (reason : Stop) : Prop :=
  reason = .panic "file_read: file has already been closed" ∨
    reason = .panic "file_dup: ref"

namespace OpenRun

def Quiet (reason : Stop) : Prop := ¬ FileAssertion reason

theorem FsStop.quiet {reason : Stop} (h : FsStop reason) : Quiet reason := by
  intro hassert
  rcases hassert with hassert | hassert <;>
    simp [hassert, FsStop, fsMessages] at h

theorem quiet_liftFs {α : Type} {m : FsM α} (h : StopsWith FsStop m) :
    StopsWith Quiet (liftFs m) := by
  intro k reason hrun
  unfold liftFs at hrun
  cases hm : m k.fs with
  | ok pair =>
      rw [hm] at hrun
      cases hrun
  | error reason' =>
      rw [hm] at hrun
      cases hrun
      exact FsStop.quiet (h _ _ hm)

theorem quiet_kassert {condition : Prop} [Decidable condition] {message : String}
    (h : Quiet (.panic message)) : StopsWith Quiet (kassert condition message) :=
  .require_intro h

theorem quiet_readFile (f : FileId) : StopsWith Quiet (readFile f) :=
  .bind .get_intro fun _ => .pure_intro _

theorem quiet_writeFile (f : FileId) (file : File) :
    StopsWith Quiet (writeFile f file) :=
  .modify_intro _

theorem quiet_readProc (p : ProcId) : StopsWith Quiet (readProc p) :=
  .bind .get_intro fun _ => .pure_intro _

theorem quiet_writeProc (p : ProcId) (proc : Proc) :
    StopsWith Quiet (writeProc p proc) :=
  .modify_intro _

theorem quiet_deref {α : Type} (pointer : Option α) :
    StopsWith Quiet (deref pointer) := by
  cases pointer with
  | none => exact .stop_intro (by simp [Quiet, FileAssertion])
  | some x => exact .pure_intro _

theorem quiet_fileAlloc : StopsWith Quiet fileAlloc := by
  refine StopsWith.bind (m := get) .get_intro ?_
  intro k
  dsimp only
  split
  · exact (quiet_writeFile _ _).bind fun _ => .pure_intro _
  · exact .stop_intro (by simp [Quiet, FileAssertion])

theorem quiet_openInode (cwd : Slot) (junk : Junk) (path : List UInt8)
    (openMode : UInt32) : StopsWith FsStop (openInode cwd junk path openMode) := by
  apply StopsWith.ite
  · exact stops_pathCreateInode _ _ _ _ _ _
  · apply (stops_pathToInode _ _ _).bind
    intro found
    cases found with
    | none => exact .pure_intro _
    | some ip => exact (stops_inodeLock ip).bind fun _ => .pure_intro _

theorem quiet_fileOpen (cwd : Slot) (junk : Junk) (path : List UInt8)
    (openMode : UInt32) : StopsWith Quiet (fileOpen cwd junk path openMode) := by
  apply (quiet_liftFs (quiet_openInode cwd junk path openMode)).bind
  intro found
  cases found with
  | none => exact .pure_intro _
  | some ip =>
      apply (quiet_liftFs (stops_readSlot ip)).bind
      intro node
      apply (quiet_kassert (by simp [Quiet, FileAssertion])).bind
      intro _
      apply quiet_fileAlloc.bind
      intro f
      apply (quiet_readFile f).bind
      intro file
      have hfill : ∀ _ : Unit, StopsWith Quiet (do
          liftFs (inodeUnlock ip)
          let file ← readFile f
          writeFile f { file with
            readable := openMode &&& modeRead ≠ 0
            writable := openMode &&& modeWrite ≠ 0 }
          return some f) := by
        intro _
        apply (quiet_liftFs (stops_inodeUnlock ip)).bind
        intro _
        apply (quiet_readFile f).bind
        intro file
        exact (quiet_writeFile _ _).bind fun _ => .pure_intro _
      apply StopsWith.ite
      · exact (quiet_writeFile _ _).bind hfill
      · exact (quiet_writeFile _ _).bind hfill

theorem quiet_pipeAlloc (page : PipeId) : StopsWith Quiet (pipeAlloc page) := by
  refine StopsWith.bind (m := modify _) (.modify_intro _) ?_
  intro _
  apply quiet_fileAlloc.bind
  intro f1
  apply quiet_fileAlloc.bind
  intro f2
  apply (quiet_readFile f1).bind
  intro file
  apply (quiet_writeFile _ _).bind
  intro _
  apply (quiet_readFile f2).bind
  intro file
  exact (quiet_writeFile _ _).bind fun _ => .pure_intro _

theorem quiet_pipeClose (page : PipeId) (writable : Bool) :
    StopsWith Quiet (pipeClose page writable) :=
  .modify_intro _

theorem quiet_argFd (p : ProcId) (fd : UInt32) : StopsWith Quiet (argFd p fd) := by
  unfold argFd
  split
  · apply (quiet_readProc p).bind
    intro proc
    split
    · exact .pure_intro _
    · exact .pure_intro _
  · exact .pure_intro _

theorem quiet_fdAlloc (p : ProcId) (f : FileId) : StopsWith Quiet (fdAlloc p f) := by
  apply (quiet_readProc p).bind
  intro proc
  split
  · exact .pure_intro _
  · exact (quiet_writeProc _ _).bind fun _ => .pure_intro _

theorem quiet_procCwd (p : ProcId) : StopsWith Quiet (procCwd p) :=
  (quiet_readProc p).bind fun proc => quiet_deref proc.cwd

theorem quiet_procAlloc : StopsWith Quiet procAlloc := by
  apply StopsWith.bind
  · refine StopsWith.bind (m := get) .get_intro ?_
    intro k
    apply (quiet_kassert (by simp [Quiet, FileAssertion])).bind
    intro _
    exact (StopsWith.modify_intro _).bind fun _ => .pure_intro _
  · intro pid
    refine StopsWith.bind (m := get) .get_intro ?_
    intro k
    dsimp only
    split
    · exact (quiet_writeProc _ _).bind fun _ => .pure_intro _
    · exact .stop_intro (by simp [Quiet, FileAssertion])

theorem quiet_procExit (p : ProcId) : StopsWith Quiet (procExit p) := by
  apply (quiet_readProc p).bind
  intro proc
  apply (quiet_kassert (by simp [Quiet, FileAssertion])).bind
  intro _
  apply (quiet_deref proc.parent).bind
  intro _
  refine StopsWith.bind (m := procReparent p) (.modify_intro _) ?_
  intro _
  exact (quiet_readProc p).bind fun _ => quiet_writeProc _ _

theorem quiet_storeFd (p : ProcId) (f : FileId) (fd : Option (Fin filePerProc)) :
    StopsWith Quiet (storeFd p f fd) := by
  cases fd with
  | none => exact .pure_intro _
  | some free => exact (quiet_readProc p).bind fun _ => quiet_writeProc _ _

end OpenRun

end UnoOS.Kernel
