import UnoOS.Fs.Dir

namespace UnoOS.Fs

open UnoOS.Lib
open UnoOS.Lib.Exec (StopsWith)

/-! What the calls of the file system can fail with on the way to an inode. -/

def fsMessages : List String :=
  ["bitmap_search_and_set: invalid bitmap block",
    "data_free: block_num = 0",
    "dir_add_entry: lock",
    "dir_add_entry: no free block",
    "dir_search_entry: lock",
    "ilock: invalid inode or ref=0",
    "inode_create: invalid or reserved type id",
    "inode_free: unexpectedly hold sleeplock",
    "inode_free_data: not holding slk",
    "inode_get: no empty inode",
    "inode_lock: invalid or reserved type id",
    "inode_unlock: invalid inode or not holding lock",
    "path_creat_inode: . and .. fail",
    "path_creat_inode: add ip to pip failed"]

def FsStop : Stop → Prop
  | .panic message => message ∈ fsMessages
  | _ => True

theorem stops_assertThat {condition : Prop} [Decidable condition]
    {message : String} (h : message ∈ fsMessages) :
    StopsWith FsStop (assertThat condition message) :=
  .require_intro h

theorem stops_readSlot (i : Slot) : StopsWith FsStop (readSlot i) :=
  .bind .get_intro fun _ => .pure_intro _

theorem stops_writeSlot (i : Slot) (node : Inode) :
    StopsWith FsStop (writeSlot i node) :=
  .modify_intro _

theorem stops_bufRead (blockNum : UInt32) : StopsWith FsStop (bufRead blockNum) :=
  .bind (.require_intro trivial) fun _ =>
    .bind .get_intro fun _ => .pure_intro _

theorem stops_bufWrite (blockNum : UInt32) (b : Block) :
    StopsWith FsStop (bufWrite blockNum b) :=
  .modify_intro _

/-! Bitmaps. -/

theorem stops_bitmapSearchAndSet (bitmapBlock : UInt32) :
    StopsWith FsStop (bitmapSearchAndSet bitmapBlock) := by
  apply (stops_bufRead _).bind
  intro bp
  cases bp.firstClear (sb.blockSize.toNat * 8) 0 with
  | none => exact .pure_intro _
  | some bi =>
      apply (stops_bufWrite _ _).bind
      intro _
      have hread : ∀ blockNum : UInt32, StopsWith FsStop (do
          let _ ← bufRead blockNum
          return blockNum) := by
        intro blockNum
        exact (stops_bufRead _).bind fun _ => .pure_intro _
      apply StopsWith.ite
      · exact (StopsWith.pure_intro _).bind hread
      · apply StopsWith.ite
        · exact (StopsWith.pure_intro _).bind hread
        · apply StopsWith.bind _ hread
          exact .stop_intro (by simp [FsStop, fsMessages])

theorem stops_bitmapAllocInode : StopsWith FsStop bitmapAllocInode :=
  (stops_bitmapSearchAndSet _).bind fun _ => .pure_intro _

theorem stops_bitmapUnset (bitmapBlock num : UInt32) :
    StopsWith FsStop (bitmapUnset bitmapBlock num) := by
  apply (stops_bufRead _).bind
  intro buf
  have hbound : FsStop .outOfBounds := trivial
  apply (StopsWith.require_intro hbound).bind
  intro _
  exact (StopsWith.modify_intro _).bind fun _ => stops_bufWrite _ _

/-! Inodes. -/

theorem stops_inodeRw (i : Slot) (writeback : Bool) :
    StopsWith FsStop (inodeRw i writeback) := by
  apply (stops_readSlot i).bind
  intro ip
  apply (stops_bufRead _).bind
  intro b
  exact .ite (stops_bufWrite _ _) (stops_writeSlot _ _)

theorem stops_inodeGet (inodeNum : UInt16) :
    StopsWith FsStop (inodeGet inodeNum) := by
  refine StopsWith.bind (m := get) .get_intro ?_
  intro s
  dsimp only
  split
  · exact (stops_writeSlot _ _).bind fun _ => .pure_intro _
  · split
    · exact (stops_writeSlot _ _).bind fun _ => .pure_intro _
    · exact .stop_intro (by simp [FsStop, fsMessages])

theorem stops_inodeCreate (type major minor : UInt16) :
    StopsWith FsStop (inodeCreate type major minor) := by
  apply (stops_assertThat (by simp [fsMessages])).bind
  intro _
  apply stops_bitmapAllocInode.bind
  intro inodeNum
  apply (stops_bufRead _).bind
  intro b
  exact (stops_bufWrite _ _).bind fun _ => stops_inodeGet _

theorem stops_freeEntries {free : UInt32 → FsM Unit}
    (hfree : ∀ blockNum, StopsWith FsStop (free blockNum)) (table : Block)
    (fuel index : Nat) : StopsWith FsStop (freeEntries free table fuel index) := by
  induction fuel generalizing index with
  | zero => exact .pure_intro _
  | succ fuel ih =>
      apply StopsWith.ite
      · exact .pure_intro _
      · exact (hfree _).bind fun _ => ih _

theorem stops_dataFree (level : Nat) (blockNum : UInt32) :
    StopsWith FsStop (dataFree level blockNum) := by
  induction level generalizing blockNum with
  | zero =>
      exact (stops_assertThat (by simp [fsMessages])).bind fun _ =>
        stops_bitmapUnset _ _
  | succ level ih =>
      apply (stops_assertThat (by simp [fsMessages])).bind
      intro _
      apply (stops_bufRead _).bind
      intro table
      exact (stops_freeEntries ih table _ _).bind fun _ => stops_bitmapUnset _ _

theorem stops_freeAddrs (i : Slot) (js : List (Fin nAddrs)) :
    StopsWith FsStop (freeAddrs i js) := by
  induction js with
  | nil => exact .pure_intro _
  | cons j js ih =>
      refine StopsWith.bind ?_ fun _ => ih
      apply (stops_readSlot i).bind
      intro ip
      apply StopsWith.ite
      · exact (stops_dataFree _ _).bind fun _ => stops_writeSlot _ _
      · exact .pure_intro _

theorem stops_inodeDestroy (i : Slot) : StopsWith FsStop (inodeDestroy i) := by
  apply StopsWith.bind
  · apply (stops_readSlot i).bind
    intro ip
    exact (stops_assertThat (by simp [fsMessages])).bind fun _ =>
      stops_freeAddrs i _
  · intro _
    exact (stops_readSlot i).bind fun _ => stops_bitmapUnset _ _

theorem stops_inodeFreeLast (i : Slot) : StopsWith FsStop (inodeFreeLast i) := by
  apply (stops_readSlot i).bind
  intro ip
  apply (stops_writeSlot _ _).bind
  intro _
  apply (stops_inodeDestroy i).bind
  intro _
  apply (stops_readSlot i).bind
  intro ip
  apply (stops_writeSlot _ _).bind
  intro _
  apply (stops_inodeRw i true).bind
  intro _
  exact (stops_readSlot i).bind fun _ => stops_writeSlot _ _

theorem stops_inodeFree (i : Slot) : StopsWith FsStop (inodeFree i) := by
  apply (stops_readSlot i).bind
  intro ip
  apply (stops_assertThat (by simp [fsMessages])).bind
  intro _
  have hdrop : ∀ _ : Unit, StopsWith FsStop (do
      let ip ← readSlot i
      writeSlot i { ip with ref := ip.ref - 1 }) := by
    intro _
    exact (stops_readSlot i).bind fun _ => stops_writeSlot _ _
  apply StopsWith.ite
  · exact (stops_inodeFreeLast i).bind hdrop
  · exact hdrop ()

theorem stops_inodeDup (i : Slot) : StopsWith FsStop (inodeDup i) := by
  apply (stops_readSlot i).bind
  intro ip
  exact (stops_writeSlot _ _).bind fun _ => .pure_intro _

theorem stops_inodeLock (i : Slot) : StopsWith FsStop (inodeLock i) := by
  apply (stops_readSlot i).bind
  intro ip
  apply (stops_assertThat (by simp [fsMessages])).bind
  intro _
  have hlocked : FsStop .deadlock := trivial
  apply (StopsWith.require_intro hlocked).bind
  intro _
  apply (stops_writeSlot _ _).bind
  intro _
  apply StopsWith.ite
  · apply (stops_inodeRw i false).bind
    intro _
    apply (stops_readSlot i).bind
    intro ip
    exact (stops_writeSlot _ _).bind fun _ =>
      stops_assertThat (by simp [fsMessages])
  · exact .pure_intro _

theorem stops_inodeUnlock (i : Slot) : StopsWith FsStop (inodeUnlock i) := by
  apply (stops_readSlot i).bind
  intro ip
  exact (stops_assertThat (by simp [fsMessages])).bind fun _ =>
    stops_writeSlot _ _

theorem stops_inodeUnlockFree (i : Slot) : StopsWith FsStop (inodeUnlockFree i) :=
  (stops_inodeUnlock i).bind fun _ => stops_inodeFree i

/-! Directories and paths. -/

theorem stops_dirSearchEntry (pip : Slot) (name : Name) :
    StopsWith FsStop (dirSearchEntry pip name) := by
  apply (stops_readSlot pip).bind
  intro dp
  apply (stops_assertThat (by simp [fsMessages])).bind
  intro _
  apply StopsWith.ite
  · exact .pure_intro _
  · apply (stops_bufRead _).bind
    intro buf
    split
    · exact .pure_intro _
    · exact .pure_intro _

/-- The end of `dir_add_entry`, once the directory has a block. -/
theorem stops_storeEntry (pip : Slot) (inodeNum : UInt16) (name : Name) :
    StopsWith FsStop (do
      let dp ← readSlot pip
      assertThat (dp.diskInode.addrs 0 ≠ 0) "dir_add_entry: no free block"
      let buf ← bufRead (dp.diskInode.addrs 0)
      match findDirent (fun de => de.name.get 0 == 0) buf direntPerBlock 0 with
      | none => return blockSize
      | some index =>
          writeSlot pip { dp with diskInode := { dp.diskInode with
            size := dp.diskInode.size + UInt32.ofNat direntSize } }
          bufWrite (dp.diskInode.addrs 0)
            (Dirent.store ⟨inodeNum, name⟩ buf (direntSize * index))
          inodeRw pip true
          return direntSize * index) := by
  apply (stops_readSlot pip).bind
  intro dp
  apply (stops_assertThat (by simp [fsMessages])).bind
  intro _
  apply (stops_bufRead _).bind
  intro buf
  split
  · exact .pure_intro _
  · apply (stops_writeSlot _ _).bind
    intro _
    apply (stops_bufWrite _ _).bind
    intro _
    exact (stops_inodeRw pip true).bind fun _ => .pure_intro _

theorem stops_dirAddEntry (pip : Slot) (inodeNum : UInt16) (name : Name) :
    StopsWith FsStop (dirAddEntry pip inodeNum name) := by
  apply (stops_readSlot pip).bind
  intro dp
  apply (stops_assertThat (by simp [fsMessages])).bind
  intro _
  apply (stops_dirSearchEntry pip name).bind
  intro found
  apply StopsWith.ite
  · exact .pure_intro _
  · apply (stops_readSlot pip).bind
    intro dp
    apply StopsWith.ite
    · apply (stops_bitmapSearchAndSet _).bind
      intro fresh
      exact (stops_writeSlot _ _).bind fun _ =>
        stops_storeEntry pip inodeNum name
    · exact stops_storeEntry pip inodeNum name

theorem stops_searchLoop (findParent : Bool) (fuel : Nat) (ip : Slot)
    (path : List UInt8) (name : Name) :
    StopsWith FsStop (searchLoop findParent fuel ip path name) := by
  induction fuel generalizing ip path name with
  | zero => exact .pure_intro _
  | succ fuel ih =>
      unfold searchLoop
      split
      · apply StopsWith.ite
        · exact (stops_inodeFree ip).bind fun _ => .pure_intro _
        · exact .pure_intro _
      · apply (stops_inodeLock ip).bind
        intro _
        apply (stops_readSlot ip).bind
        intro node
        apply StopsWith.ite
        · exact (stops_inodeUnlockFree ip).bind fun _ => .pure_intro _
        · apply StopsWith.ite
          · exact (stops_inodeUnlock ip).bind fun _ => .pure_intro _
          · apply (stops_dirSearchEntry ip _).bind
            intro inodeNum
            apply (stops_inodeGet inodeNum).bind
            intro next
            exact (stops_inodeUnlockFree ip).bind fun _ => ih next _ _

theorem stops_searchInode (cwd : Slot) (path : List UInt8) (name : Name)
    (findParent : Bool) :
    StopsWith FsStop (searchInode cwd path name findParent) := by
  apply StopsWith.ite
  · exact (stops_inodeGet _).bind fun ip => stops_searchLoop _ _ ip _ _
  · exact (stops_inodeDup cwd).bind fun ip => stops_searchLoop _ _ ip _ _

theorem stops_pathToInode (cwd : Slot) (junk : Junk) (path : List UInt8) :
    StopsWith FsStop (pathToInode cwd junk path) :=
  (stops_searchInode cwd path junk.name false).bind fun _ => .pure_intro _

theorem stops_setNlink (i : Slot) (update : UInt16 → UInt16) :
    StopsWith FsStop (setNlink i update) := by
  apply (stops_readSlot i).bind
  intro ip
  exact (stops_writeSlot _ _).bind fun _ => stops_inodeRw i true

theorem stops_linkNewInode (dp ip : Slot) (name : Name) (junk : Junk)
    (type : UInt16) : StopsWith FsStop (linkNewInode dp ip name junk type) := by
  apply (stops_inodeLock ip).bind
  intro _
  apply (stops_setNlink ip _).bind
  intro _
  apply (stops_readSlot ip).bind
  intro self
  apply (stops_readSlot dp).bind
  intro parent
  have hname : ∀ _ : Unit, StopsWith FsStop (do
      let added ← dirAddEntry dp self.inodeNum name
      assertThat (added ≠ blockSize) "path_creat_inode: add ip to pip failed"
      inodeUnlockFree dp) := by
    intro _
    apply (stops_dirAddEntry dp _ name).bind
    intro added
    exact (stops_assertThat (by simp [fsMessages])).bind fun _ =>
      stops_inodeUnlockFree dp
  apply StopsWith.ite
  · apply (stops_setNlink dp _).bind
    intro _
    apply (stops_dirAddEntry ip _ _).bind
    intro first
    apply (stops_assertThat (by simp [fsMessages])).bind
    intro _
    apply (stops_dirAddEntry ip _ _).bind
    intro second
    exact (stops_assertThat (by simp [fsMessages])).bind hname
  · exact hname ()

theorem stops_pathCreateInode (cwd : Slot) (junk : Junk) (path : List UInt8)
    (type major minor : UInt16) :
    StopsWith FsStop (pathCreateInode cwd junk path type major minor) := by
  apply (stops_searchInode cwd path junk.name true).bind
  intro found
  split
  · exact .pure_intro _
  · next dp name =>
    apply (stops_inodeLock dp).bind
    intro _
    apply (stops_dirSearchEntry dp name).bind
    intro inodeNum
    apply (stops_inodeGet inodeNum).bind
    intro ip
    apply (stops_readSlot ip).bind
    intro node
    apply StopsWith.ite
    · apply (stops_inodeUnlockFree dp).bind
      intro _
      apply (stops_inodeLock ip).bind
      intro _
      apply (stops_readSlot ip).bind
      intro node
      apply StopsWith.ite
      · exact .pure_intro _
      · exact (stops_inodeUnlockFree ip).bind fun _ => .pure_intro _
    · apply (stops_inodeCreate type major minor).bind
      intro ip
      apply (stops_readSlot ip).bind
      intro node
      apply StopsWith.ite
      · exact (stops_inodeUnlockFree dp).bind fun _ => .pure_intro _
      · exact (stops_linkNewInode dp ip name junk type).bind fun _ =>
          .pure_intro _

end UnoOS.Fs
