import UnoOS.Fs.Dir
import UnoOS.Fs.InodeLaws

namespace UnoOS.Fs

open UnoOS.Lib
open UnoOS.Lib.Exec (Keeps)

/-! Operations on one slot of the icache leave the other slots alone. -/

abbrev KeepsSlot {α : Type} (c : Slot) (m : FsM α) : Prop :=
  Keeps (fun s => s.icache c) m

section

variable {α : Type} {c i : Slot}

theorem keepsSlot_of_icache {m : FsM α} (h : KeepsIcache m) :
    KeepsSlot c m := by
  intro s value s' hrun
  exact congrFun (h s value s' hrun) c

theorem keepsSlot_writeSlot (hne : c ≠ i) (node : Inode) :
    KeepsSlot c (writeSlot i node) := by
  apply Keeps.modify_intro
  intro s
  exact Function.update_of_ne hne _ _

theorem keepsIcache_bitmapSearchAndSet (bitmapBlock : UInt32) :
    KeepsIcache (bitmapSearchAndSet bitmapBlock) := by
  apply Keeps.bind (keeps_bufRead _)
  intro bp
  cases bp.firstClear (sb.blockSize.toNat * 8) 0 with
  | none => exact Keeps.pure_intro _
  | some bi =>
      apply Keeps.bind (keepsIcache_bufWrite _ _)
      intro _
      have hload : ∀ blockNum, KeepsIcache (do
          let _ ← bufRead blockNum
          return blockNum) :=
        fun _ => (keeps_bufRead _).bind fun _ => Keeps.pure_intro _
      exact .ite ((Keeps.pure_intro _).bind hload)
        (.ite ((Keeps.pure_intro _).bind hload)
          ((Keeps.stop_intro _).bind hload))

theorem keepsIcache_bitmapAllocInode : KeepsIcache bitmapAllocInode :=
  (keepsIcache_bitmapSearchAndSet _).bind fun _ => Keeps.pure_intro _

theorem keepsSlot_inodeRw (hne : c ≠ i) (writeback : Bool) :
    KeepsSlot c (inodeRw i writeback) := by
  apply Keeps.bind (keeps_readSlot i)
  intro ip
  apply Keeps.bind (keeps_bufRead _)
  intro b
  exact .ite (keepsSlot_of_icache (keepsIcache_bufWrite _ _))
    (keepsSlot_writeSlot hne _)

theorem keepsSlot_inodeDup (hne : c ≠ i) : KeepsSlot c (inodeDup i) :=
  (keeps_readSlot i).bind fun _ => (keepsSlot_writeSlot hne _).bind
    fun _ => Keeps.pure_intro _

theorem keepsSlot_inodeLock (hne : c ≠ i) : KeepsSlot c (inodeLock i) := by
  apply Keeps.bind (keeps_readSlot i)
  intro ip
  apply Keeps.bind (keeps_assertThat _ _)
  intro _
  apply Keeps.bind (Keeps.require_intro _ _)
  intro _
  apply Keeps.bind (keepsSlot_writeSlot hne _)
  intro _
  refine .ite ?_ (Keeps.pure_intro _)
  exact (keepsSlot_inodeRw hne _).bind fun _ => (keeps_readSlot i).bind
    fun _ => (keepsSlot_writeSlot hne _).bind fun _ => keeps_assertThat _ _

theorem keepsSlot_inodeUnlock (hne : c ≠ i) : KeepsSlot c (inodeUnlock i) :=
  (keeps_readSlot i).bind fun _ => (keeps_assertThat _ _).bind
    fun _ => keepsSlot_writeSlot hne _

theorem keepsSlot_inodeFree (hne : c ≠ i) : KeepsSlot c (inodeFree i) := by
  intro s value s' hrun
  by_cases hdies : (s.icache i).Dies
  · exact (inodeFree_of_dies hdies hrun).1 c hne
  · rw [(inodeFree_of_not_dies hdies hrun).2]
    exact Function.update_of_ne hne _ _

theorem keepsSlot_inodeUnlockFree (hne : c ≠ i) :
    KeepsSlot c (inodeUnlockFree i) :=
  (keepsSlot_inodeUnlock hne).bind fun _ => keepsSlot_inodeFree hne

theorem keepsSlot_setNlink (hne : c ≠ i) (update : UInt16 → UInt16) :
    KeepsSlot c (setNlink i update) :=
  (keeps_readSlot i).bind fun _ => (keepsSlot_writeSlot hne _).bind
    fun _ => keepsSlot_inodeRw hne _

theorem keepsIcache_dirSearchEntry (i : Slot) (name : Name) :
    KeepsIcache (dirSearchEntry i name) := by
  apply Keeps.bind (keeps_readSlot i)
  intro dp
  apply Keeps.bind (keeps_assertThat _ _)
  intro _
  refine .ite (Keeps.pure_intro _) ?_
  apply Keeps.bind (keeps_bufRead _)
  intro buf
  cases findDirent (Dirent.matches name) buf direntPerBlock 0 <;>
    exact Keeps.pure_intro _

/-- The end of `dir_add_entry`, once the directory has a block. -/
theorem keepsSlot_storeEntry (hne : c ≠ i) (inodeNum : UInt16) (name : Name) :
    KeepsSlot c (do
      let dp ← readSlot i
      assertThat (dp.diskInode.addrs 0 ≠ 0) "dir_add_entry: no free block"
      let buf ← bufRead (dp.diskInode.addrs 0)
      match findDirent (fun de => de.name.get 0 == 0) buf direntPerBlock 0 with
      | none => return blockSize
      | some index =>
          writeSlot i { dp with diskInode := { dp.diskInode with
            size := dp.diskInode.size + UInt32.ofNat direntSize } }
          bufWrite (dp.diskInode.addrs 0)
            (Dirent.store ⟨inodeNum, name⟩ buf (direntSize * index))
          inodeRw i true
          return direntSize * index) := by
  apply Keeps.bind (keeps_readSlot i)
  intro dp
  apply Keeps.bind (keeps_assertThat _ _)
  intro _
  apply Keeps.bind (keeps_bufRead _)
  intro buf
  cases findDirent (fun de => de.name.get 0 == 0) buf direntPerBlock 0 with
  | none => exact Keeps.pure_intro _
  | some index =>
      exact (keepsSlot_writeSlot hne _).bind fun _ =>
        (keepsSlot_of_icache (keepsIcache_bufWrite _ _)).bind
          fun _ => (keepsSlot_inodeRw hne _).bind
            fun _ => Keeps.pure_intro _

theorem keepsSlot_dirAddEntry (hne : c ≠ i) (inodeNum : UInt16)
    (name : Name) : KeepsSlot c (dirAddEntry i inodeNum name) := by
  apply Keeps.bind (keeps_readSlot i)
  intro dp
  apply Keeps.bind (keeps_assertThat _ _)
  intro _
  apply Keeps.bind (keepsSlot_of_icache (keepsIcache_dirSearchEntry i name))
  intro found
  refine .ite (Keeps.pure_intro _) ?_
  apply Keeps.bind (keeps_readSlot i)
  intro dp
  refine .ite ?_ (keepsSlot_storeEntry hne inodeNum name)
  exact (keepsSlot_of_icache (keepsIcache_bitmapSearchAndSet _)).bind
    fun _ => (keepsSlot_writeSlot hne _).bind
      fun _ => keepsSlot_storeEntry hne inodeNum name

theorem keepsSlot_dirDeleteEntry (hne : c ≠ i) (name : Name) :
    KeepsSlot c (dirDeleteEntry i name) := by
  apply Keeps.bind (keeps_readSlot i)
  intro dp
  apply Keeps.bind (keeps_assertThat _ _)
  intro _
  apply Keeps.bind (keeps_bufRead _)
  intro buf
  cases findDirent (Dirent.matches name) buf direntPerBlock 0 with
  | none => exact Keeps.pure_intro _
  | some index =>
      exact (keepsSlot_writeSlot hne _).bind fun _ =>
        (keepsSlot_of_icache (keepsIcache_bufWrite _ _)).bind
          fun _ => Keeps.pure_intro _

theorem keepsIcache_dirGetEntries (i : Slot) (len : Nat) :
    KeepsIcache (dirGetEntries i len) := by
  apply Keeps.bind (keeps_readSlot i)
  intro dp
  apply Keeps.bind (keeps_assertThat _ _)
  intro _
  exact .ite (Keeps.pure_intro _)
    ((keeps_bufRead _).bind fun _ => Keeps.pure_intro _)

theorem keepsIcache_checkUnlink (i : Slot) : KeepsIcache (checkUnlink i) := by
  apply Keeps.bind (keeps_readSlot i)
  intro node
  apply Keeps.bind (keeps_assertThat _ _)
  intro _
  apply Keeps.bind (keepsIcache_dirGetEntries i _)
  intro entries
  exact .ite (Keeps.pure_intro _)
    (.ite (Keeps.pure_intro _) (Keeps.stop_intro _))

end

/-! A slot whose reference count is zero while its number is in use, or has
wrapped around.  `inode_get` reaches it only in the second case, and then the
count is zero again and the lock that follows stops the kernel. -/

structure Barred (node : Inode) : Prop where
  inodeNum : node.inodeNum ≠ inodeNumUnused
  locked : node.locked = false
  ref : node.ref = 0 ∨ node.ref = 0xFFFFFFFF

/-- A walk holds slot `i`, and slot `c` is as it was or just overflowed. -/
def Avoids (c : Slot) (node : Inode) (i : Slot) (s : FsState) : Prop :=
  (c ≠ i ∧ s.icache c = node) ∨
    (c = i ∧ node.ref = 0xFFFFFFFF ∧ s.icache c = { node with ref := 0 })

def AvoidsResult (c : Slot) (node : Inode) (result : Option Slot)
    (s : FsState) : Prop :=
  match result with
  | none => s.icache c = node
  | some i => Avoids c node i s

section

variable {c i : Slot} {node : Inode} {s s' : FsState}

theorem inodeGet_avoids (hbarred : Barred node) (hs : s.icache c = node)
    {inodeNum : UInt16} (hrun : inodeGet inodeNum s = .ok (i, s')) :
    Avoids c node i s' ∧ (inodeNum = inodeNumUnused → c ≠ i) := by
  rcases inodeGet_cases inodeNum s with ⟨j, hholds, heq⟩ |
    ⟨_, ⟨j, hunused, heq⟩ | ⟨_, heq⟩⟩
  · rw [heq] at hrun
    cases hrun
    by_cases hj : c = i
    · subst hj
      have hpos := hholds.2
      rw [hs] at hpos
      have hwrapped : node.ref = 0xFFFFFFFF := by
        rcases hbarred.ref with hzero | hmax
        · rw [hzero] at hpos
          exact absurd hpos (UInt32.lt_irrefl 0)
        · exact hmax
      refine ⟨.inr ⟨rfl, hwrapped, ?_⟩, ?_⟩
      · rw [FsState.setSlot_icache, Function.update_self, hs, hwrapped]
        rfl
      · intro hnum
        have hnumber := hholds.1
        rw [hs, hnum] at hnumber
        exact absurd hnumber hbarred.inodeNum
    · refine ⟨.inl ⟨hj, ?_⟩, fun _ => hj⟩
      rw [FsState.setSlot_icache, Function.update_of_ne hj, hs]
  · rw [heq] at hrun
    cases hrun
    have hj : c ≠ i := by
      intro hc
      subst hc
      rw [hs] at hunused
      exact hbarred.inodeNum hunused
    refine ⟨.inl ⟨hj, ?_⟩, fun _ => hj⟩
    rw [FsState.setSlot_icache, Function.update_of_ne hj, hs]
  · rw [heq] at hrun
    cases hrun

theorem inodeLock_avoids (h : Avoids c node i s) {value : Unit}
    (hrun : inodeLock i s = .ok (value, s')) :
    c ≠ i ∧ s'.icache c = node := by
  rcases h with ⟨hne, hs⟩ | ⟨rfl, _, hs⟩
  · refine ⟨hne, ?_⟩
    rw [← hs]
    exact keepsSlot_inodeLock hne s value s' hrun
  · unfold inodeLock at hrun
    rw [readSlot_bind, assertThat_bind_eq_ok, hs] at hrun
    exact absurd hrun.1 (by change ¬(1 : UInt32) ≤ 0; decide)

theorem inodeFree_avoids (h : Avoids c node i s) {value : Unit}
    (hrun : inodeFree i s = .ok (value, s')) :
    s'.icache c = node := by
  rcases h with ⟨hne, hs⟩ | ⟨rfl, hwrapped, hs⟩
  · rw [← hs]
    exact keepsSlot_inodeFree hne s value s' hrun
  · have hdies : ¬(s.icache c).Dies := by
      intro hdies
      have href := hdies.1
      rw [hs] at href
      exact absurd href (by change ¬(0 : UInt32) = 1; decide)
    rw [(inodeFree_of_not_dies hdies hrun).2, FsState.setSlot_icache,
      Function.update_self, hs]
    change { node with ref := 0xFFFFFFFF } = node
    rw [← hwrapped]

theorem searchLoop_avoids (hbarred : Barred node) {findParent : Bool}
    {fuel : Nat} {path : List UInt8} {name name' : Name}
    {result : Option Slot} (h : Avoids c node i s)
    (hrun : searchLoop findParent fuel i path name s =
      .ok ((result, name'), s')) :
    AvoidsResult c node result s' := by
  induction fuel generalizing i path name s with
  | zero =>
      cases hrun
      exact h
  | succ fuel ih =>
      unfold searchLoop at hrun
      cases hskip : skipElement path name with
      | mk next name =>
          rw [hskip] at hrun
          cases next with
          | none =>
              dsimp only at hrun
              cases findParent with
              | false =>
                  cases hrun
                  exact h
              | true =>
                  rw [if_pos rfl, Exec.bind_eq_ok] at hrun
                  obtain ⟨_, freed, hfree, hend⟩ := hrun
                  cases hend
                  exact inodeFree_avoids h hfree
          | some path =>
              dsimp only at hrun
              rw [Exec.bind_eq_ok] at hrun
              obtain ⟨_, locked, hlock, hrun⟩ := hrun
              obtain ⟨hne, hs⟩ := inodeLock_avoids h hlock
              rw [readSlot_bind] at hrun
              split at hrun
              · rw [Exec.bind_eq_ok] at hrun
                obtain ⟨_, freed, hfree, hend⟩ := hrun
                cases hend
                change _ = node
                rw [← hs]
                exact keepsSlot_inodeUnlockFree hne _ _ _ hfree
              · split at hrun
                · rw [Exec.bind_eq_ok] at hrun
                  obtain ⟨_, unlocked, hunlock, hend⟩ := hrun
                  cases hend
                  refine .inl ⟨hne, ?_⟩
                  rw [← hs]
                  exact keepsSlot_inodeUnlock hne _ _ _ hunlock
                · rw [Exec.bind_eq_ok] at hrun
                  obtain ⟨inodeNum, searched, hsearch, hrun⟩ := hrun
                  rw [Exec.bind_eq_ok] at hrun
                  obtain ⟨child, got, hget, hrun⟩ := hrun
                  rw [Exec.bind_eq_ok] at hrun
                  obtain ⟨_, freed, hfree, hrun⟩ := hrun
                  have hsearched : searched.icache c = node := by
                    rw [keepsIcache_dirSearchEntry i name _ _ _ hsearch, hs]
                  have hchild := (inodeGet_avoids hbarred hsearched hget).1
                  have hkept := keepsSlot_inodeUnlockFree hne _ _ _ hfree
                  refine ih ?_ hrun
                  rcases hchild with ⟨hother, hgot⟩ | ⟨hself, href, hgot⟩
                  · exact .inl ⟨hother, hkept.trans hgot⟩
                  · exact .inr ⟨hself, href, hkept.trans hgot⟩

theorem searchInode_avoids (hbarred : Barred node) (hs : s.icache c = node)
    {cwd : Slot} (hcwd : c ≠ cwd) {findParent : Bool} {path : List UInt8}
    {name name' : Name} {result : Option Slot}
    (hrun : searchInode cwd path name findParent s =
      .ok ((result, name'), s')) :
    AvoidsResult c node result s' := by
  unfold searchInode at hrun
  split at hrun
  · rw [Exec.bind_eq_ok] at hrun
    obtain ⟨root, got, hget, hloop⟩ := hrun
    exact searchLoop_avoids hbarred (inodeGet_avoids hbarred hs hget).1 hloop
  · rw [Exec.bind_eq_ok] at hrun
    obtain ⟨start, got, hdup, hloop⟩ := hrun
    have hkept := keepsSlot_inodeDup hcwd _ _ _ hdup
    have hstart : start = cwd := by
      cases hdup
      rfl
    subst hstart
    exact searchLoop_avoids hbarred (.inl ⟨hcwd, hkept.trans hs⟩) hloop

theorem pathToInode_avoids (hbarred : Barred node) (hs : s.icache c = node)
    {cwd : Slot} (hcwd : c ≠ cwd) {junk : Junk} {path : List UInt8}
    {result : Option Slot}
    (hrun : pathToInode cwd junk path s = .ok (result, s')) :
    AvoidsResult c node result s' := by
  unfold pathToInode at hrun
  rw [Exec.bind_eq_ok] at hrun
  obtain ⟨⟨found, name⟩, searched, hsearch, hend⟩ := hrun
  cases hend
  exact searchInode_avoids hbarred hs hcwd hsearch

theorem keepsSlot_linkNewInode {dp ip : Slot} (hdp : c ≠ dp) (hip : c ≠ ip)
    (name : Name) (junk : Junk) (type : UInt16) :
    KeepsSlot c (linkNewInode dp ip name junk type) := by
  have hend : ∀ self : UInt16, KeepsSlot c (do
      let added ← dirAddEntry dp self name
      assertThat (added ≠ blockSize) "path_creat_inode: add ip to pip failed"
      inodeUnlockFree dp) := by
    intro self
    apply Keeps.bind (keepsSlot_dirAddEntry hdp _ _)
    intro added
    apply Keeps.bind (keeps_assertThat _ _)
    intro _
    exact keepsSlot_inodeUnlockFree hdp
  apply Keeps.bind (keepsSlot_inodeLock hip)
  intro _
  apply Keeps.bind (keepsSlot_setNlink hip _)
  intro _
  apply Keeps.bind (keeps_readSlot _)
  intro self
  apply Keeps.bind (keeps_readSlot _)
  intro parent
  refine .ite ?_ (hend _)
  apply Keeps.bind (keepsSlot_setNlink hdp _)
  intro _
  apply Keeps.bind (keepsSlot_dirAddEntry hip _ _)
  intro first
  apply Keeps.bind (keeps_assertThat _ _)
  intro _
  apply Keeps.bind (keepsSlot_dirAddEntry hip _ _)
  intro second
  exact (keeps_assertThat _ _).bind fun _ => hend _

theorem keepsSlot_unlinkEntry {dp ip : Slot} (hdp : c ≠ dp) (hip : c ≠ ip)
    (name : Name) : KeepsSlot c (unlinkEntry dp ip name) := by
  have hend : KeepsSlot c (do
      inodeUnlockFree dp
      setNlink ip (· - 1)
      inodeUnlockFree ip
      return true) :=
    (keepsSlot_inodeUnlockFree hdp).bind fun _ => (keepsSlot_setNlink hip _).bind
      fun _ => (keepsSlot_inodeUnlockFree hip).bind fun _ => Keeps.pure_intro _
  apply Keeps.bind (keepsSlot_dirDeleteEntry hdp _)
  intro inodeNum
  refine .ite ?_ ?_
  · exact (keepsSlot_inodeUnlockFree hip).bind fun _ => Keeps.pure_intro _
  · apply Keeps.bind (keeps_readSlot _)
    intro node
    exact .ite ((keepsSlot_setNlink hdp _).bind fun _ => hend) hend

theorem keepsSlot_unlinkInode {dp ip : Slot} (hdp : c ≠ dp) (hip : c ≠ ip)
    (name : Name) : KeepsSlot c (unlinkInode dp ip name) := by
  have hend : ∀ removable : Bool, KeepsSlot c (
      if removable then unlinkEntry dp ip name
      else do
        inodeUnlockFree ip
        inodeUnlockFree dp
        return false) := by
    intro removable
    refine .ite (keepsSlot_unlinkEntry hdp hip name) ?_
    exact (keepsSlot_inodeUnlockFree hip).bind fun _ =>
      (keepsSlot_inodeUnlockFree hdp).bind fun _ => Keeps.pure_intro _
  apply Keeps.bind (keeps_readSlot _)
  intro node
  apply Keeps.bind (keeps_assertThat _ _)
  intro _
  exact .ite ((keepsSlot_of_icache (keepsIcache_checkUnlink ip)).bind hend)
    ((Keeps.pure_intro _).bind hend)

theorem inodeCreate_avoids (hbarred : Barred node) (hs : s.icache c = node)
    {type major minor : UInt16}
    (hrun : inodeCreate type major minor s = .ok (i, s')) :
    Avoids c node i s' := by
  unfold inodeCreate at hrun
  rw [assertThat_bind_eq_ok] at hrun
  obtain ⟨_, hrun⟩ := hrun
  rw [Exec.bind_eq_ok] at hrun
  obtain ⟨inodeNum, marked, halloc, hrun⟩ := hrun
  rw [bufRead_bind_eq_ok, bufWrite_bind] at hrun
  have hmarked : marked.icache c = node := by
    rw [keepsIcache_bitmapAllocInode _ _ _ halloc, hs]
  exact (inodeGet_avoids hbarred (by exact hmarked) hrun.2).1

theorem pathCreateInode_avoids (hbarred : Barred node)
    (hs : s.icache c = node) {cwd : Slot} (hcwd : c ≠ cwd) {junk : Junk}
    {path : List UInt8} {type major minor : UInt16} {result : Option Slot}
    (hrun : pathCreateInode cwd junk path type major minor s =
      .ok (result, s')) :
    s'.icache c = node ∧ ∀ ip, result = some ip → c ≠ ip := by
  unfold pathCreateInode pathToPinode at hrun
  rw [Exec.bind_eq_ok] at hrun
  obtain ⟨⟨parent, name⟩, walked, hwalk, hrun⟩ := hrun
  have hparent := searchInode_avoids hbarred hs hcwd hwalk
  cases parent with
  | none =>
      cases hrun
      exact ⟨hparent, fun _ h => by cases h⟩
  | some dp =>
      dsimp only at hrun
      rw [Exec.bind_eq_ok] at hrun
      obtain ⟨_, locked, hlock, hrun⟩ := hrun
      obtain ⟨hdp, hlocked⟩ := inodeLock_avoids hparent hlock
      rw [Exec.bind_eq_ok] at hrun
      obtain ⟨inodeNum, searched, hsearch, hrun⟩ := hrun
      have hsearched : searched.icache c = node := by
        rw [keepsIcache_dirSearchEntry dp name _ _ _ hsearch, hlocked]
      rw [Exec.bind_eq_ok] at hrun
      obtain ⟨ip, got, hget, hrun⟩ := hrun
      have hip := (inodeGet_avoids hbarred hsearched hget).1
      rw [readSlot_bind] at hrun
      split at hrun
      · -- the name exists
        rw [Exec.bind_eq_ok] at hrun
        obtain ⟨_, freed, hfree, hrun⟩ := hrun
        have hkept := keepsSlot_inodeUnlockFree hdp _ _ _ hfree
        rw [Exec.bind_eq_ok] at hrun
        obtain ⟨_, held, hhold, hrun⟩ := hrun
        have hfreed : Avoids c node ip freed := by
          rcases hip with ⟨hother, hgot⟩ | ⟨hself, href, hgot⟩
          · exact .inl ⟨hother, hkept.trans hgot⟩
          · exact .inr ⟨hself, href, hkept.trans hgot⟩
        obtain ⟨hne, hheld⟩ := inodeLock_avoids hfreed hhold
        rw [readSlot_bind] at hrun
        split at hrun
        · cases hrun
          refine ⟨hheld, ?_⟩
          intro found hfound
          cases hfound
          exact hne
        · rw [Exec.bind_eq_ok] at hrun
          obtain ⟨_, dropped, hdrop, hend⟩ := hrun
          cases hend
          refine ⟨?_, fun _ h => by cases h⟩
          rw [← hheld]
          exact keepsSlot_inodeUnlockFree hne _ _ _ hdrop
      · -- a new inode is created
        next hunused =>
        have hgot : got.icache c = node := by
          rcases hip with ⟨_, hgot⟩ | ⟨hself, _, hgot⟩
          · exact hgot
          · subst hself
            rw [hgot] at hunused
            exact absurd hbarred.inodeNum hunused
        rw [Exec.bind_eq_ok] at hrun
        obtain ⟨new, made, hcreate, hrun⟩ := hrun
        have hnew := inodeCreate_avoids hbarred hgot hcreate
        rw [readSlot_bind] at hrun
        split at hrun
        · next hfailed =>
          have hmade : made.icache c = node := by
            rcases hnew with ⟨_, hmade⟩ | ⟨hself, _, hmade⟩
            · exact hmade
            · subst hself
              rw [hmade] at hfailed
              exact absurd hfailed hbarred.inodeNum
          rw [Exec.bind_eq_ok] at hrun
          obtain ⟨_, freed, hfree, hend⟩ := hrun
          cases hend
          refine ⟨?_, fun _ h => by cases h⟩
          rw [← hmade]
          exact keepsSlot_inodeUnlockFree hdp _ _ _ hfree
        · -- the new inode is locked at once
          rw [Exec.bind_eq_ok] at hrun
          obtain ⟨_, linked, hlink, hend⟩ := hrun
          cases hend
          have hne : c ≠ new ∧ made.icache c = node := by
            unfold linkNewInode at hlink
            rw [Exec.bind_eq_ok] at hlink
            obtain ⟨_, held, hhold, _⟩ := hlink
            have hother := (inodeLock_avoids hnew hhold).1
            rcases hnew with ⟨_, hmade⟩ | ⟨hself, _⟩
            · exact ⟨hother, hmade⟩
            · exact absurd hself hother
          refine ⟨?_, ?_⟩
          · rw [← hne.2]
            exact keepsSlot_linkNewInode hdp hne.1 _ _ _ _ _ _ hlink
          · intro found hfound
            cases hfound
            exact hne.1

theorem dirChange_avoids (hbarred : Barred node) (hs : s.icache c = node)
    {cwd cwd' : Slot} (hcwd : c ≠ cwd) {junk : Junk} {path : List UInt8}
    {changed : Bool}
    (hrun : dirChange cwd junk path s = .ok ((changed, cwd'), s')) :
    s'.icache c = node ∧ c ≠ cwd' := by
  unfold dirChange at hrun
  rw [Exec.bind_eq_ok] at hrun
  obtain ⟨found, walked, hwalk, hrun⟩ := hrun
  have hfound := pathToInode_avoids hbarred hs hcwd hwalk
  cases found with
  | none =>
      cases hrun
      exact ⟨hfound, hcwd⟩
  | some ip =>
      dsimp only at hrun
      rw [readSlot_bind] at hrun
      split at hrun
      · next hunused =>
        cases hrun
        rcases hfound with ⟨_, hwalked⟩ | ⟨hself, _, hwalked⟩
        · exact ⟨hwalked, hcwd⟩
        · subst hself
          rw [hwalked] at hunused
          exact absurd hunused hbarred.inodeNum
      · rw [Exec.bind_eq_ok] at hrun
        obtain ⟨_, locked, hlock, hrun⟩ := hrun
        obtain ⟨hne, hlocked⟩ := inodeLock_avoids hfound hlock
        rw [readSlot_bind] at hrun
        split at hrun
        · rw [Exec.bind_eq_ok] at hrun
          obtain ⟨_, freed, hfree, hend⟩ := hrun
          cases hend
          rw [← hlocked]
          exact ⟨keepsSlot_inodeUnlockFree hne _ _ _ hfree, hcwd⟩
        · rw [Exec.bind_eq_ok] at hrun
          obtain ⟨_, freed, hfree, hend⟩ := hrun
          cases hend
          rw [← hlocked]
          exact ⟨keepsSlot_inodeUnlockFree hne _ _ _ hfree, hne⟩

theorem pathUnlink_avoids (hbarred : Barred node) (hs : s.icache c = node)
    {cwd : Slot} (hcwd : c ≠ cwd) {junk : Junk} {path : List UInt8}
    {done : Bool} (hrun : pathUnlink cwd junk path s = .ok (done, s')) :
    s'.icache c = node := by
  unfold pathUnlink pathToPinode at hrun
  rw [Exec.bind_eq_ok] at hrun
  obtain ⟨⟨parent, name⟩, walked, hwalk, hrun⟩ := hrun
  have hparent := searchInode_avoids hbarred hs hcwd hwalk
  cases parent with
  | none =>
      cases hrun
      exact hparent
  | some dp =>
      dsimp only at hrun
      rw [Exec.bind_eq_ok] at hrun
      obtain ⟨_, locked, hlock, hrun⟩ := hrun
      obtain ⟨hdp, hlocked⟩ := inodeLock_avoids hparent hlock
      have hstop : KeepsSlot c (do
          inodeUnlockFree dp
          return false) :=
        (keepsSlot_inodeUnlockFree hdp).bind fun _ => Keeps.pure_intro _
      split at hrun
      · rw [← hlocked]
        exact hstop _ _ _ hrun
      · rw [Exec.bind_eq_ok] at hrun
        obtain ⟨inodeNum, searched, hsearch, hrun⟩ := hrun
        have hsearched : searched.icache c = node := by
          rw [keepsIcache_dirSearchEntry dp name _ _ _ hsearch, hlocked]
        split at hrun
        · rw [← hsearched]
          exact hstop _ _ _ hrun
        · rw [Exec.bind_eq_ok] at hrun
          obtain ⟨ip, got, hget, hrun⟩ := hrun
          have hgot := (inodeGet_avoids hbarred hsearched hget).1
          rw [Exec.bind_eq_ok] at hrun
          obtain ⟨_, held, hhold, hrun⟩ := hrun
          obtain ⟨hip, hheld⟩ := inodeLock_avoids hgot hhold
          rw [← hheld]
          exact keepsSlot_unlinkInode hdp hip name _ _ _ hrun

theorem pathLink_avoids (hbarred : Barred node) (hs : s.icache c = node)
    {cwd : Slot} (hcwd : c ≠ cwd) {junk : Junk} {oldPath newPath : List UInt8}
    {done : Bool}
    (hrun : pathLink cwd junk oldPath newPath s = .ok (done, s')) :
    s'.icache c = node := by
  unfold pathLink pathToPinode at hrun
  rw [Exec.bind_eq_ok] at hrun
  obtain ⟨found, walked, hwalk, hrun⟩ := hrun
  have hfound := pathToInode_avoids hbarred hs hcwd hwalk
  cases found with
  | none =>
      cases hrun
      exact hfound
  | some ip =>
      dsimp only at hrun
      rw [readSlot_bind] at hrun
      split at hrun
      · next hunused =>
        cases hrun
        rcases hfound with ⟨_, hwalked⟩ | ⟨hself, _, hwalked⟩
        · exact hwalked
        · subst hself
          rw [hwalked] at hunused
          exact absurd hunused hbarred.inodeNum
      · rw [Exec.bind_eq_ok] at hrun
        obtain ⟨_, locked, hlock, hrun⟩ := hrun
        obtain ⟨hip, hlocked⟩ := inodeLock_avoids hfound hlock
        have hdrop := keepsSlot_inodeUnlockFree hip
        rw [readSlot_bind] at hrun
        split at hrun
        · rw [← hlocked]
          exact (hdrop.bind fun _ => Keeps.pure_intro _) _ _ _ hrun
        · rw [Exec.bind_eq_ok] at hrun
          obtain ⟨_, raised, hraise, hrun⟩ := hrun
          have hraised := keepsSlot_setNlink hip _ _ _ _ hraise
          rw [Exec.bind_eq_ok] at hrun
          obtain ⟨_, unlocked, hunlock, hrun⟩ := hrun
          have hunlocked : unlocked.icache c = node :=
            (keepsSlot_inodeUnlock hip _ _ _ hunlock).trans
              (hraised.trans hlocked)
          rw [Exec.bind_eq_ok] at hrun
          obtain ⟨⟨parent, name⟩, rewalked, hrewalk, hrun⟩ := hrun
          have hparent := searchInode_avoids hbarred hunlocked hcwd hrewalk
          cases parent with
          | none =>
              change rewalked.icache c = node at hparent
              rw [← hparent]
              refine ((keepsSlot_inodeLock hip).bind fun _ =>
                (keepsSlot_setNlink hip _).bind fun _ =>
                  hdrop.bind fun _ => Keeps.pure_intro _) _ _ _ hrun
          | some dp =>
              dsimp only at hrun
              rw [Exec.bind_eq_ok] at hrun
              obtain ⟨_, held, hhold, hrun⟩ := hrun
              obtain ⟨hdp, hheld⟩ := inodeLock_avoids hparent hhold
              have hdropParent := keepsSlot_inodeUnlockFree hdp
              rw [readSlot_bind, Exec.bind_eq_ok] at hrun
              obtain ⟨added, entered, hadd, hrun⟩ := hrun
              have hentered : entered.icache c = node :=
                (keepsSlot_dirAddEntry hdp _ _ _ _ _ hadd).trans hheld
              rw [← hentered]
              split at hrun
              · exact (hdropParent.bind fun _ =>
                  (keepsSlot_inodeLock hip).bind fun _ =>
                    (keeps_readSlot _).bind fun _ =>
                      (keepsSlot_writeSlot hip _).bind fun _ =>
                        hdrop.bind fun _ => Keeps.pure_intro _) _ _ _ hrun
              · exact (hdropParent.bind fun _ =>
                  (keepsSlot_inodeFree hip).bind fun _ =>
                    Keeps.pure_intro _) _ _ _ hrun

end

end UnoOS.Fs
