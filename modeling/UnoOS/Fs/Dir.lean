import UnoOS.Fs.Inode

namespace UnoOS.Fs

open UnoOS.Lib

/-! Directories and paths (`dir.c`).  A directory is one block of 32 entries.
A path is the list of its bytes before the NUL. -/

def strncmp (p q : Name) : (fuel i : Nat) → Int
  | 0, _ => 0
  | fuel + 1, i =>
      if p.get i ≠ 0 ∧ p.get i = q.get i then strncmp p q fuel (i + 1)
      else (p.get i).toNat - (q.get i).toNat

def sameName (p q : Name) : Bool := strncmp p q dirNameLen 0 == 0

def copyString (bytes : List UInt8) (buffer : Name) : Name :=
  buffer.patch 0 (bytes.length + 1) fun k => bytes.getD k 0

/-- Bytes that the source leaves uninitialised or reads past a terminator: the
`name` buffer on the stack and what follows the literals `"."` and `".."`. -/
structure Junk where
  name : Name
  dot : Name
  dotDot : Name

def dotName (junk : Junk) : Name := copyString [46] junk.dot

def dotDotName (junk : Junk) : Name := copyString [46, 46] junk.dotDot

def direntAt (b : Block) (index : Nat) : Dirent :=
  Dirent.load b (direntSize * index)

/-- The first entry from `index` on that satisfies a test. -/
def findDirent (test : Dirent → Bool) (b : Block) :
    (fuel index : Nat) → Option Nat
  | 0, _ => none
  | fuel + 1, index =>
      if test (direntAt b index) then some index
      else findDirent test b fuel (index + 1)

def Dirent.matches (name : Name) (de : Dirent) : Bool :=
  de.name.get 0 != 0 && sameName de.name name

def dirSearchEntry (pip : Slot) (name : Name) : FsM UInt16 := do
  let dp ← readSlot pip
  assertThat dp.locked "dir_search_entry: lock"
  if dp.diskInode.addrs 0 = 0 then
    return inodeNumUnused
  else
    let buf ← bufRead (dp.diskInode.addrs 0)
    match findDirent (Dirent.matches name) buf direntPerBlock 0 with
    | some index => return (direntAt buf index).inodeNum
    | none => return inodeNumUnused

def dirAddEntry (pip : Slot) (inodeNum : UInt16) (name : Name) : FsM Nat := do
  let dp ← readSlot pip
  assertThat dp.locked "dir_add_entry: lock"
  let found ← dirSearchEntry pip name
  if found ≠ inodeNumUnused then
    return blockSize
  else
    let dp ← readSlot pip
    if dp.diskInode.addrs 0 = 0 then
      let fresh ← bitmapAllocBlock
      writeSlot pip { dp with diskInode := { dp.diskInode with
        addrs := Function.update dp.diskInode.addrs 0 fresh } }
    let dp ← readSlot pip
    assertThat (dp.diskInode.addrs 0 ≠ 0) "dir_add_entry: no free block"
    let buf ← bufRead (dp.diskInode.addrs 0)
    match findDirent (fun de => de.name.get 0 == 0) buf direntPerBlock 0 with
    | none => return blockSize
    | some index =>
        writeSlot pip { dp with diskInode := { dp.diskInode with
          size := dp.diskInode.size + UInt32.ofNat direntSize } }
        bufWrite (dp.diskInode.addrs 0)
          (Dirent.store ⟨inodeNum, name⟩ buf (direntSize * index))
        inodeRw pip true
        return direntSize * index

def dirDeleteEntry (pip : Slot) (name : Name) : FsM UInt16 := do
  let dp ← readSlot pip
  assertThat dp.locked "dir_delete_entry: lock"
  let buf ← bufRead (dp.diskInode.addrs 0)
  match findDirent (Dirent.matches name) buf direntPerBlock 0 with
  | none => return inodeNumUnused
  | some index =>
      let de := direntAt buf index
      let cleared : Dirent :=
        ⟨inodeNumUnused, de.name.patch 0 1 fun _ => 0⟩
      writeSlot pip { dp with diskInode := { dp.diskInode with
        size := dp.diskInode.size - UInt32.ofNat direntSize } }
      bufWrite (dp.diskInode.addrs 0)
        (cleared.store buf (direntSize * index))
      return de.inodeNum

/-- The loop of `dir_get_entries`: `bytes_read` and the entries copied. -/
def entriesLoop (b : Block) (len : Nat) :
    (fuel index bytesRead : Nat) → Nat × List Dirent
  | 0, _, bytesRead => (bytesRead, [])
  | fuel + 1, index, bytesRead =>
      if len ≤ bytesRead then (bytesRead, [])
      else
        let de := direntAt b index
        if de.name.get 0 = 0 then entriesLoop b len fuel (index + 1) bytesRead
        else if len < bytesRead + direntSize then (bytesRead, [])
        else
          let (count, rest) :=
            entriesLoop b len fuel (index + 1) (bytesRead + direntSize)
          (count, de :: rest)

/-- `dir_get_entries`: the count it returns and the entries copied to `dst`. -/
def dirGetEntriesLoop (pip : Slot) (len : Nat) : FsM (Nat × List Dirent) := do
  let dp ← readSlot pip
  assertThat dp.locked "dir_get_entries: lock"
  if dp.diskInode.addrs 0 = 0 then
    return (0, [])
  else
    let buf ← bufRead (dp.diskInode.addrs 0)
    return entriesLoop buf len direntPerBlock 0 0

/-- What the loop copies, at once. -/
def dirGetEntries (pip : Slot) (len : Nat) : FsM (List Dirent) := do
  let dp ← readSlot pip
  assertThat dp.locked "dir_get_entries: lock"
  if dp.diskInode.addrs 0 = 0 then
    return []
  else
    let buf ← bufRead (dp.diskInode.addrs 0)
    let used := ((List.range direntPerBlock).map (direntAt buf)).filter
      fun de => de.name.get 0 != 0
    return used.take (len / direntSize)

def slash : UInt8 := 47

/-- `skip_element`: the path after its first element, or `none` if it has no
element, and the name buffer afterwards. -/
def skipElement (path : List UInt8) (name : Name) :
    Option (List UInt8) × Name :=
  let path := path.dropWhile (· = slash)
  if path = [] then (none, name)
  else
    let element := path.takeWhile (· ≠ slash)
    let rest := path.dropWhile (· ≠ slash)
    (some (rest.dropWhile (· = slash)),
      copyString (element.take (dirNameLen - 1)) name)

/-- The loop of `search_inode`.  Every round consumes a byte of the path. -/
def searchLoop (findParent : Bool) :
    (fuel : Nat) → Slot → List UInt8 → Name → FsM (Option Slot × Name)
  | 0, ip, _, name => return (some ip, name)
  | fuel + 1, ip, path, name =>
      match skipElement path name with
      | (none, name) => do
          if findParent then
            inodeFree ip
            return (none, name)
          else
            return (some ip, name)
      | (some path, name) => do
          inodeLock ip
          let node ← readSlot ip
          if node.diskInode.type ≠ ftDir then
            inodeUnlockFree ip
            return (none, name)
          else if findParent ∧ path = [] then
            inodeUnlock ip
            return (some ip, name)
          else
            let inodeNum ← dirSearchEntry ip name
            let next ← inodeGet inodeNum
            inodeUnlockFree ip
            searchLoop findParent fuel next path name

def searchInode (cwd : Slot) (path : List UInt8) (name : Name)
    (findParent : Bool) : FsM (Option Slot × Name) := do
  let ip ← if path.head? = some slash then inodeGet inodeRoot else inodeDup cwd
  searchLoop findParent (path.length + 1) ip path name

def pathToInode (cwd : Slot) (junk : Junk) (path : List UInt8) :
    FsM (Option Slot) := do
  return (← searchInode cwd path junk.name false).1

def pathToPinode (cwd : Slot) (junk : Junk) (path : List UInt8) :
    FsM (Option Slot × Name) :=
  searchInode cwd path junk.name true

/-- Set `nlink` of an inode and write the record back. -/
def setNlink (i : Slot) (update : UInt16 → UInt16) : FsM Unit := do
  let ip ← readSlot i
  writeSlot i { ip with diskInode := { ip.diskInode with
    nlink := update ip.diskInode.nlink } }
  inodeRw i true

/-- The part of `path_create_inode` that fills a new inode and names it. -/
def linkNewInode (dp ip : Slot) (name : Name) (junk : Junk) (type : UInt16) :
    FsM Unit := do
  inodeLock ip
  setNlink ip fun _ => 1
  let self := (← readSlot ip).inodeNum
  let parent := (← readSlot dp).inodeNum
  if type = ftDir then
    setNlink dp (· + 1)
    let first ← dirAddEntry ip self (dotName junk)
    assertThat (first ≠ blockSize) "path_creat_inode: . and .. fail"
    let second ← dirAddEntry ip parent (dotDotName junk)
    assertThat (second ≠ blockSize) "path_creat_inode: . and .. fail"
  let added ← dirAddEntry dp self name
  assertThat (added ≠ blockSize) "path_creat_inode: add ip to pip failed"
  inodeUnlockFree dp

def pathCreateInode (cwd : Slot) (junk : Junk) (path : List UInt8)
    (type major minor : UInt16) : FsM (Option Slot) := do
  match ← pathToPinode cwd junk path with
  | (none, _) => return none
  | (some dp, name) =>
      inodeLock dp
      let ip ← inodeGet (← dirSearchEntry dp name)
      if (← readSlot ip).inodeNum ≠ inodeNumUnused then
        inodeUnlockFree dp
        inodeLock ip
        let found := (← readSlot ip).diskInode.type
        if type = ftFile ∧ (found = ftFile ∨ found = ftDevice) then
          return some ip
        else
          inodeUnlockFree ip
          return none
      else
        let ip ← inodeCreate type major minor
        if (← readSlot ip).inodeNum = inodeNumUnused then
          inodeUnlockFree dp
          return none
        else
          linkNewInode dp ip name junk type
          return some ip

/-- `path_link`: `true` is the return value 0, `false` is -1. -/
def pathLink (cwd : Slot) (junk : Junk) (oldPath newPath : List UInt8) :
    FsM Bool := do
  match ← pathToInode cwd junk oldPath with
  | none => return false
  | some ip =>
      if (← readSlot ip).inodeNum = inodeNumUnused then
        return false
      else
        inodeLock ip
        if (← readSlot ip).diskInode.type = ftDir then
          inodeUnlockFree ip
          return false
        else
          setNlink ip (· + 1)
          inodeUnlock ip
          match ← pathToPinode cwd junk newPath with
          | (none, _) =>
              inodeLock ip
              setNlink ip (· - 1)
              inodeUnlockFree ip
              return false
          | (some dp, name) =>
              inodeLock dp
              let self := (← readSlot ip).inodeNum
              let added ← dirAddEntry dp self name
              if added = blockSize then
                inodeUnlockFree dp
                inodeLock ip
                -- the record is not written back here
                let node ← readSlot ip
                writeSlot ip { node with diskInode := { node.diskInode with
                  nlink := node.diskInode.nlink - 1 } }
                inodeUnlockFree ip
                return false
              else
                inodeUnlockFree dp
                inodeFree ip
                return true

/-- `check_unlink`: the directory holds nothing but `.` and `..`. -/
def checkUnlink (ip : Slot) : FsM Bool := do
  let node ← readSlot ip
  assertThat node.locked "check_unlink: slk"
  let entries ← dirGetEntries ip (direntSize * 3)
  if entries.length = 3 then
    return false
  else if entries.length = 2 then
    return true
  else
    Exec.stop (.panic "check_unlink: read_len")

/-- `nlink >= 1` of a signed `short`. -/
def nlinkPositive (nlink : UInt16) : Prop := nlink ≠ 0 ∧ nlink < 0x8000

instance (nlink : UInt16) : Decidable (nlinkPositive nlink) :=
  inferInstanceAs (Decidable (_ ∧ _))

def unlinkEntry (dp ip : Slot) (name : Name) : FsM Bool := do
  let inodeNum ← dirDeleteEntry dp name
  if inodeNum = inodeNumUnused then
    inodeUnlockFree ip
    return false
  else
    if (← readSlot ip).diskInode.type = ftDir then
      setNlink dp (· - 1)
    inodeUnlockFree dp
    setNlink ip (· - 1)
    inodeUnlockFree ip
    return true

def unlinkInode (dp ip : Slot) (name : Name) : FsM Bool := do
  let node ← readSlot ip
  assertThat (nlinkPositive node.diskInode.nlink) "path_unlink: nlink < 1"
  let removable ←
    if node.diskInode.type = ftDir then checkUnlink ip else pure true
  if removable then
    unlinkEntry dp ip name
  else
    inodeUnlockFree ip
    inodeUnlockFree dp
    return false

/-- `path_unlink`: `true` is the return value 0, `false` is -1. -/
def pathUnlink (cwd : Slot) (junk : Junk) (path : List UInt8) : FsM Bool := do
  match ← pathToPinode cwd junk path with
  | (none, _) => return false
  | (some dp, name) =>
      inodeLock dp
      if sameName name (dotName junk) ∨ sameName name (dotDotName junk) then
        inodeUnlockFree dp
        return false
      else
        let inodeNum ← dirSearchEntry dp name
        if inodeNum = inodeNumUnused then
          inodeUnlockFree dp
          return false
        else
          let ip ← inodeGet inodeNum
          inodeLock ip
          unlinkInode dp ip name

def dirChange (cwd : Slot) (junk : Junk) (path : List UInt8) :
    FsM (Bool × Slot) := do
  match ← pathToInode cwd junk path with
  | none => return (false, cwd)
  | some ip =>
      if (← readSlot ip).inodeNum = inodeNumUnused then
        return (false, cwd)
      else
        inodeLock ip
        if (← readSlot ip).diskInode.type ≠ ftDir then
          inodeUnlockFree ip
          return (false, cwd)
        else
          inodeUnlockFree ip
          return (true, ip)

end UnoOS.Fs
