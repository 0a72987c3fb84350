import UnoOS.Uvm.Elsewhere
import UnoOS.Uvm.ForkRuns
import UnoOS.Uvm.ProcExec

namespace UnoOS.Uvm

open UnoOS.Lib
open UnoOS.Fs (Stop)
open UnoOS.Kernel (ProcId)
open UnoOS.Mem

/-! `sys_exec`, with the pages that it takes and gives back and the entries of `argv`
that it touches. -/

/-- The stack of the kernel when `sys_exec` starts: where `path` and `str_addr` are, and
what is in `argv` and in the words behind it. -/
structure ExecFrame where
  path : UInt64
  strAddr : UInt64
  argv : Nat → UInt64

/-- `argv` during the call, with the entries written so far, those that `proc_exec` may
read, and the pages that were allocated for strings. -/
structure ArgArray where
  cells : Nat → UInt64
  written : List Nat
  read : List Nat
  pages : List UInt64

namespace ArgArray

def start (cells : Nat → UInt64) : ArgArray where
  cells := cells
  written := []
  read := []
  pages := []

def putPage (argv : ArgArray) (i : Nat) (page : UInt64) : ArgArray where
  cells := Function.update argv.cells i page
  written := argv.written ++ [i]
  read := argv.read
  pages := argv.pages ++ [page]

/-- `argv[i] = NULL`, which is the last entry that `proc_exec` reads. -/
def putNull (argv : ArgArray) (i : Nat) : ArgArray where
  cells := Function.update argv.cells i 0
  written := argv.written ++ [i]
  read := List.range (i + 1)
  pages := argv.pages

end ArgArray

/-- What a return from `sys_exec` tells about the call. -/
structure ExecCall where
  ret : UInt64
  argv : ArgArray
  freed : List UInt64
  read : List Nat

def cString (m : Memory) : (room : Nat) → (addr : Nat) → List UInt8
  | 0, _ => []
  | room + 1, addr => if m addr = 0 then [] else m addr :: cString m room (addr + 1)

def stringAt (m : Memory) (addr : UInt64) : List UInt8 :=
  cString m (2 ^ 64 - addr.toNat) addr.toNat

def argRaw (p : ProcId) (n : Fin 6) : UvmM UInt64 := do
  let space ← readSpace p
  return (← get).mem.mem.load64 (space.tf.toNat + tfA0 + 8 * n.val)

/-- `str_addr` gets a word of the user.  The stack of the kernel is one page with an
unmapped page behind it, so a copy of a whole page to the variable does not return. -/
def copyinWord (p : ProcId) (strAddr argAddr : UInt64) : UvmM UInt64 := do
  let space ← readSpace p
  let n ← liftMem (copyinWrites space.pgtbl strAddr argAddr 8)
  if 8 < n then
    Exec.stop .outOfBounds
  else
    return (← get).mem.mem.load64 strAddr.toNat

/-- `(uint64)-1` -/
abbrev execFailed : UInt64 := 0xFFFFFFFFFFFFFFFF

def argAddrAt (argBase : UInt64) (i : Nat) : UInt64 := argBase + UInt64.ofNat i * 8

/-- The loop of `sys_exec` over the words of the user's array.  `files` has the file that
a path leads to. -/
def fetchArgs (files : List UInt8 → Option ExecFile) (p : ProcId) (frame : ExecFrame)
    (argBase : UInt64) : (turns : Nat) → (i : Nat) → ArgArray → UvmM (ArgArray × UInt64)
  | 0, _, argv => return (argv, execFailed)
  | turns + 1, i, argv => do
      let argAddr := argAddrAt argBase i
      liftMem (updateMem fun m => m.store64 frame.strAddr.toNat 0)
      if (← isValidAddr p argAddr) = 0 then
        return (argv, execFailed)
      else
        let strAddr ← copyinWord p frame.strAddr argAddr
        if strAddr = 0 then
          let m := (← get).mem.mem
          let ret ← procExec p (files (stringAt m frame.path))
            ((List.range i).map fun j => stringAt m (argv.cells j))
          return (argv.putNull i, UInt64.ofInt ret)
        else if (← isValidAddr p argAddr) = 0 then
          return (argv, execFailed)
        else
          let page ← liftMem (pmemAlloc true)
          let space ← readSpace p
          liftMem (uvmCopyinStr space.pgtbl page strAddr elfMaxargLen)
          fetchArgs files p frame argBase turns (i + 1) (argv.putPage i page)

/-- The loop of `sys_exec` that cleans up; its index is an `int`. -/
def freeArgs (cells : Nat → UInt64) : (turns : Nat) → (i : Nat) →
    UvmM (List UInt64 × List Nat)
  | 0, _ => Exec.stop .outOfBounds
  | turns + 1, i =>
      if cells i = 0 then
        return ([], [i])
      else do
        liftMem (pmemFree (cells i) true)
        let (freed, read) ← freeArgs cells turns (i + 1)
        return (cells i :: freed, i :: read)

def sysExec (files : List UInt8 → Option ExecFile) (p : ProcId) (frame : ExecFrame) :
    UvmM ExecCall := do
  let space ← readSpace p
  let path ← argRaw p 0
  liftMem (uvmCopyinStr space.pgtbl frame.path path dirPathLen)
  let argBase ← argRaw p 1
  let (argv, ret) ← fetchArgs files p frame argBase elfMaxargs 0 (.start frame.argv)
  let (freed, read) ← freeArgs argv.cells (2 ^ 31) 0
  return ⟨ret, argv, freed, argv.read ++ read⟩

/-- The pages given back are those taken, each once, and nothing of `argv` is read that
was not written or is not there. -/
structure CleansUp (call : ExecCall) : Prop where
  freed : call.freed.Perm call.argv.pages
  once : call.freed.Nodup
  read : ∀ i ∈ call.read, i ∈ call.argv.written ∧ i < elfMaxargs

/-! When the array of the user ends. -/

def userWord (st : UvmState) (p : ProcId) (addr : UInt64) : UInt64 :=
  Memory.load64 (fun i => (st.readByte p (addr + UInt64.ofNat i)).getD 0) 0

/-- The word that `sys_exec` takes from an address; behind the last place for a word
`uvm_copyin` copies nothing. -/
def argWord (st : UvmState) (p : ProcId) (addr : UInt64) : UInt64 :=
  if addr.toNat + 8 < 2 ^ 64 then userWord st p addr else 0

/-- `is_valid_addr` accepts the word. -/
def Accepts (st : UvmState) (p : ProcId) (addr : UInt64) : Prop :=
  isValidAddr p addr st = .ok (1, st)

/-- The array has its first 0 at `n`, and `is_valid_addr` accepts the words up to it. -/
def EndsAt (st : UvmState) (p : ProcId) (argBase : UInt64) (n : Nat) : Prop :=
  ∀ i, i ≤ n → Accepts st p (argAddrAt argBase i) ∧
    (argWord st p (argAddrAt argBase i) = 0 ↔ i = n)

/-- One of the first 32 words ends the array. -/
def ArgvEnds (st : UvmState) (p : ProcId) : Prop :=
  ∃ n, n < elfMaxargs ∧
    EndsAt st p (st.mem.mem.load64 ((st.procs p).tf.toNat + tfA1)) n

/-! The loop that cleans up. -/

variable {st st₀ st' : UvmState} {p : ProcId}

/-- The loop stops at the first entry that is 0. -/
theorem freeArgs_eq_ok {cells : Nat → UInt64} {turns i : Nat} {freed : List UInt64}
    {read : List Nat} (hrun : freeArgs cells turns i st = .ok ((freed, read), st')) :
    ∃ n, cells (i + n) = 0 ∧ (∀ j, j < n → cells (i + j) ≠ 0) ∧
      freed = (List.range' i n).map cells ∧ read = List.range' i (n + 1) := by
  induction turns generalizing i st freed read with
  | zero => cases hrun
  | succ turns ih =>
      unfold freeArgs at hrun
      by_cases hnull : cells i = 0
      · rw [if_pos hnull] at hrun
        cases hrun
        exact ⟨0, hnull, fun j hj => absurd hj (Nat.not_lt_zero j), rfl, rfl⟩
      · rw [if_neg hnull] at hrun
        obtain ⟨_, mem, _, hrun⟩ := liftMem_bind_eq_ok.mp hrun
        obtain ⟨⟨freed', read'⟩, st₁, hrest, hend⟩ := Exec.bind_eq_ok.mp hrun
        cases hend
        obtain ⟨n, hlast, hbefore, rfl, rfl⟩ := ih hrest
        refine ⟨n + 1, ?_, ?_, ?_, ?_⟩
        · rw [← hlast]
          congr 1
          omega
        · intro j hj
          cases j with
          | zero => exact hnull
          | succ j =>
              have hnext := hbefore j (by omega)
              rwa [show i + 1 + j = i + (j + 1) by omega] at hnext
        · rw [List.range'_succ, List.map_cons]
        · rw [List.range'_succ (n := n + 1)]

/-! `is_valid_addr` looks at the process and its regions. -/

theorem inFreeRegion_reads {addr : UInt64} {steps : Nat} {id : Option MmapId} {found : Bool}
    {st₁ : UvmState} (hregions : st'.regions = st.regions)
    (hrun : inFreeRegion addr steps id st = .ok (found, st₁)) :
    st₁ = st ∧ inFreeRegion addr steps id st' = .ok (found, st') := by
  induction steps generalizing id with
  | zero =>
      cases id with
      | none =>
          cases hrun
          exact ⟨rfl, rfl⟩
      | some node => cases hrun
  | succ steps ih =>
      cases id with
      | none =>
          cases hrun
          exact ⟨rfl, rfl⟩
      | some node =>
          rw [inFreeRegion, readRegion_bind] at hrun
          rw [inFreeRegion, readRegion_bind, hregions]
          split at hrun
          · next hin =>
            cases hrun
            rw [if_pos hin]
            exact ⟨rfl, rfl⟩
          · next hout =>
            rw [if_neg hout]
            exact ih hrun

theorem isValidAddr_reads {addr : UInt64} {result : Int} {st₁ : UvmState}
    (hprocs : st'.procs = st.procs) (hregions : st'.regions = st.regions)
    (hrun : isValidAddr p addr st = .ok (result, st₁)) :
    st₁ = st ∧ isValidAddr p addr st' = .ok (result, st') := by
  unfold isValidAddr at hrun ⊢
  rw [readSpace_bind] at hrun ⊢
  rw [hprocs]
  split at hrun
  · next hheap =>
    cases hrun
    rw [if_pos hheap]
    exact ⟨rfl, rfl⟩
  · next hheap =>
    rw [if_neg hheap]
    cases hfirst : (st.procs p).mmap with
    | none =>
        rw [hfirst] at hrun
        cases hrun
    | some first =>
        rw [hfirst] at hrun
        unfold deref at hrun ⊢
        rw [pure_bind, readRegion_bind, Exec.bind_eq_ok] at hrun
        obtain ⟨found, st₂, hfree, hrun⟩ := hrun
        obtain ⟨rfl, hfree'⟩ := inFreeRegion_reads hregions hfree
        dsimp only
        rw [pure_bind, readRegion_bind, hregions, Exec.bind_of_ok hfree']
        split at hrun
        · next hfound =>
          cases hrun
          rw [if_pos hfound]
          exact ⟨rfl, rfl⟩
        · next hfound =>
          rw [if_neg hfound]
          split at hrun
          · next hmmap =>
            cases hrun
            rw [if_pos hmmap]
            exact ⟨rfl, rfl⟩
          · next hmmap =>
            rw [if_neg hmmap]
            split at hrun
            · next hstack =>
              cases hrun
              rw [if_pos hstack]
              exact ⟨rfl, rfl⟩
            · next hstack =>
              cases hrun
              rw [if_neg hstack]
              exact ⟨rfl, rfl⟩

theorem isValidAddr_result {addr : UInt64} {result : Int} {st₁ : UvmState}
    (hheap : (st.procs p).heapTop ≤ trapframe)
    (hrun : isValidAddr p addr st = .ok (result, st₁)) :
    result = 0 ∨ result = 1 ∧ addr + 8 < trapframe := by
  have hmmap : mmapEnd ≤ trapframe := by decide
  have hstack : userStackBottom ≤ trapframe := by decide
  unfold isValidAddr at hrun
  rw [readSpace_bind] at hrun
  split at hrun
  · next hin =>
    cases hrun
    exact .inr ⟨rfl, UInt64.lt_of_lt_of_le hin.2 hheap⟩
  · cases hfirst : (st.procs p).mmap with
    | none =>
        rw [hfirst] at hrun
        cases hrun
    | some first =>
        rw [hfirst] at hrun
        unfold deref at hrun
        rw [pure_bind, readRegion_bind, Exec.bind_eq_ok] at hrun
        obtain ⟨found, st₂, _, hrun⟩ := hrun
        split at hrun
        · cases hrun
          exact .inl rfl
        · split at hrun
          · next hin =>
            cases hrun
            exact .inr ⟨rfl, UInt64.lt_of_lt_of_le hin.2 hmmap⟩
          · split at hrun
            · next hin =>
              cases hrun
              exact .inr ⟨rfl, UInt64.lt_of_lt_of_le hin.2 hstack⟩
            · cases hrun
              exact .inl rfl

/-! The loop that fetches the arguments. -/

/-- The variables of `sys_exec` are on the stack of the kernel, away from all pages. -/
structure OnStack (st : UvmState) (frame : ExecFrame) : Prop where
  path : OffPages st.mem st.roots frame.path 128
  strAddr : OffPages st.mem st.roots frame.strAddr 8

structure Fetching (st₀ st : UvmState) (pages : List UInt64) : Prop where
  procs : st.procs = st₀.procs
  regions : st.regions = st₀.regions
  spaces : ∃ lk lu, Spaces st.mem st₀.roots lk lu st₀.trapframes ∅ ∧ ∀ page ∈ pages, page ∉ lk
  nodup : pages.Nodup
  nonzero : ∀ page ∈ pages, page ≠ 0
  elsewhere : Elsewhere st₀.mem st.mem st₀.roots

variable {frame : ExecFrame} {pages : List UInt64} {addr : UInt64}

theorem Fetching.readByte (h : Fetching st₀ st pages) (hp : st₀.Used p) {va : UInt64}
    (hva : va < vaMax) : st.readByte p va = st₀.readByte p va := by
  unfold UvmState.readByte
  rw [h.procs]
  exact (h.elsewhere.spares _ (UvmState.mem_roots hp)).userByte hva

theorem Fetching.put (h : Fetching st₀ st pages) (hstack : OnStack st₀ frame) {m : Memory}
    (honly : ∀ x, x < frame.strAddr.toNat ∨ frame.strAddr.toNat + 8 ≤ x →
      m x = st.mem.mem x) :
    Fetching st₀ { st with mem := st.mem.setMem m } pages := by
  obtain ⟨lk, lu, hspaces, hpages⟩ := h.spaces
  obtain ⟨hspaces', helse, _⟩ := (hstack.strAddr.keep h.elsewhere).write hspaces honly
  exact ⟨h.procs, h.regions, ⟨lk, lu, hspaces', hpages⟩, h.nodup, h.nonzero,
    h.elsewhere.trans helse⟩

theorem Fetching.copyinWord (h : Fetching st₀ st pages) (hstack : OnStack st₀ frame)
    (hp : st₀.Used p) (hbelow : addr + 8 < trapframe)
    (hzero : st.mem.mem.load64 frame.strAddr.toNat = 0) {word : UInt64}
    (hrun : copyinWord p frame.strAddr addr st = .ok (word, st')) :
    word = argWord st₀ p addr ∧ Fetching st₀ st' pages := by
  have hroot := UvmState.mem_roots hp
  unfold Uvm.copyinWord at hrun
  rw [readSpace_bind, h.procs] at hrun
  obtain ⟨n, mem, hcopy, hrun⟩ := liftMem_bind_eq_ok.mp hrun
  split at hrun
  · cases hrun
  next hfew =>
  rw [Exec.bind_of_ok (m := get) rfl] at hrun
  obtain ⟨rfl, rfl⟩ := Prod.mk.inj (Except.ok.inj hrun)
  have hmem : mem = st.mem.setMem mem.mem := eachPage_setMem hcopy
  unfold argWord
  by_cases hroom : addr.toNat + 8 < 2 ^ 64
  · rw [if_pos hroom]
    have hle : addr.toNat + 8 ≤ trapframe.toNat := by
      rw [UInt64.lt_iff_toNat_lt, addr_add_eight hroom] at hbelow
      exact le_of_lt hbelow
    obtain ⟨lk, lu, hspaces, _⟩ := h.spaces
    obtain ⟨hbytes, honly⟩ := copyinWrites_word hspaces hroot
      (hstack.strAddr.keep h.elsewhere) hle (not_lt.mp hfew) hcopy
    refine ⟨?_, ?_⟩
    · refine Memory.load64_congr fun k hk => ?_
      have hva : addr + UInt64.ofNat k < vaMax := by
        rw [trapframe_toNat] at hle
        rw [UInt64.lt_iff_toNat_lt, vaMax_toNat, UInt64.toNat_add,
          UInt64.toNat_ofNat_of_lt' (show k < 2 ^ 64 by omega)]
        omega
      have hbyte := h.readByte hp hva
      unfold UvmState.readByte at hbyte
      rw [h.procs, hbytes k hk] at hbyte
      unfold UvmState.readByte
      rw [Nat.zero_add, ← hbyte]
      rfl
    · rw [hmem]
      exact h.put hstack honly
  · rw [if_neg hroom]
    have hturns : pagesMeeting addr 8 = 0 := by
      have hwraps := addr_add_eight_wraps hroom
      have hdown := pgrounddown_toNat addr
      have hlt := addr.toNat_lt
      unfold pagesMeeting
      change ((addr + 8).toNat - _ + 4095) / 4096 = 0
      omega
    unfold copyinWrites at hcopy
    rw [hturns] at hcopy
    cases hcopy
    refine ⟨hzero, ?_⟩
    exact h.put hstack fun _ _ => rfl

theorem Fetching.take (h : Fetching st₀ st pages) {page root src : UInt64}
    {mem₁ mem₂ : MemState} {value : Unit} (halloc : pmemAlloc true st.mem = .ok (page, mem₁))
    (hcopy : uvmCopyinStr root page src elfMaxargLen mem₁ = .ok (value, mem₂)) :
    Fetching st₀ { st with mem := mem₂ } (pages ++ [page]) := by
  obtain ⟨lk, lu, hspaces, hpages⟩ := h.spaces
  obtain ⟨rest, rfl, hspaces₁, helse₁, hown⟩ := allocOwn hspaces halloc
  have hlen : elfMaxargLen.toNat = 4096 := rfl
  have hroom : page.toNat + elfMaxargLen.toNat ≤ 2 ^ 64 := by
    have haligned := hown.aligned
    have hlt := page.toNat_lt
    omega
  obtain ⟨m, rfl, honly⟩ := copyinStrLoop_writes hroom hcopy
  have hpage : OnlyPage page mem₁.mem m := by
    intro x hx
    refine honly x ?_
    unfold InPage at hx
    omega
  obtain ⟨hspaces₂, helse₂⟩ := hown.write hspaces₁ hpage
  refine ⟨h.procs, h.regions, ⟨rest, lu, hspaces₂, ?_⟩, ?_, ?_,
    h.elsewhere.trans (helse₁.trans helse₂)⟩
  · intro q hq hmem
    rcases List.mem_append.mp hq with hq | hq
    · exact hpages q hq (List.mem_cons_of_mem _ hmem)
    · rw [List.mem_singleton.mp hq] at hmem
      exact hown.free hmem
  · refine List.nodup_append.mpr ⟨h.nodup, List.nodup_singleton _, ?_⟩
    rintro q hq q' hq' rfl
    rw [List.mem_singleton.mp hq'] at hq
    exact hpages page hq List.mem_cons_self
  · intro q hq
    rcases List.mem_append.mp hq with hq | hq
    · exact h.nonzero q hq
    · rw [List.mem_singleton.mp hq]
      exact hown.nonzero

theorem fetchArgs_succ {files : List UInt8 → Option ExecFile} {argBase : UInt64}
    {turns i : Nat} {argv : ArgArray} {result : ArgArray × UInt64}
    (h : Fetching st₀ st argv.pages) (hstack : OnStack st₀ frame) (hp : st₀.Used p)
    (hheap : (st₀.procs p).heapTop ≤ trapframe)
    (hrun : fetchArgs files p frame argBase (turns + 1) i argv st = .ok (result, st')) :
    (¬ Accepts st₀ p (argAddrAt argBase i) ∧ result.1 = argv) ∨
    (Accepts st₀ p (argAddrAt argBase i) ∧ argWord st₀ p (argAddrAt argBase i) = 0 ∧
      result.1 = argv.putNull i) ∨
    (Accepts st₀ p (argAddrAt argBase i) ∧ argWord st₀ p (argAddrAt argBase i) ≠ 0 ∧
      ∃ page st₁, Fetching st₀ st₁ (argv.pages ++ [page]) ∧
        fetchArgs files p frame argBase turns (i + 1) (argv.putPage i page) st₁ =
          .ok (result, st')) := by
  unfold fetchArgs at hrun
  dsimp only at hrun
  generalize argAddrAt argBase i = addr at hrun ⊢
  obtain ⟨_, mem₁, hput, hrun⟩ := liftMem_bind_eq_ok.mp hrun
  cases hput
  have h₁ := h.put hstack (m := st.mem.mem.store64 frame.strAddr.toNat 0) fun x hx =>
    Memory.write_of_not_mem hx
  obtain ⟨valid, st₁, hvalid, hrun⟩ := Exec.bind_eq_ok.mp hrun
  obtain ⟨rfl, hvalid₀⟩ : _ ∧ isValidAddr p addr st₀ = .ok (valid, st₀) :=
    isValidAddr_reads h₁.procs.symm h₁.regions.symm hvalid
  rcases isValidAddr_result hheap hvalid₀ with rfl | ⟨rfl, hbelow⟩
  · rw [if_pos rfl] at hrun
    refine .inl ⟨?_, ?_⟩
    · intro haccepts
      cases hvalid₀.symm.trans haccepts
    · exact (congrArg Prod.fst (Prod.mk.inj (Except.ok.inj hrun)).1).symm
  · rw [if_neg (by decide), Exec.bind_eq_ok] at hrun
    obtain ⟨word, st₂, hword, hrun⟩ := hrun
    obtain ⟨hwordEq, h₂⟩ := h₁.copyinWord hstack hp hbelow
      (Memory.load64_store64_self _ _ _) hword
    by_cases hnull : word = 0
    · rw [if_pos hnull, Exec.bind_of_ok (m := get) rfl] at hrun
      obtain ⟨ret, st₃, _, hrun⟩ := Exec.bind_eq_ok.mp hrun
      refine .inr (.inl ⟨hvalid₀, hwordEq.symm.trans hnull, ?_⟩)
      exact (congrArg Prod.fst (Prod.mk.inj (Except.ok.inj hrun)).1).symm
    · rw [if_neg hnull] at hrun
      obtain ⟨valid', st₃, hvalid', hrun⟩ := Exec.bind_eq_ok.mp hrun
      obtain ⟨rfl, hvalid₃⟩ : _ ∧ isValidAddr p addr st₀ = .ok (valid', st₀) :=
        isValidAddr_reads h₂.procs.symm h₂.regions.symm hvalid'
      obtain ⟨rfl, _⟩ := Prod.mk.inj (Except.ok.inj (hvalid₃.symm.trans hvalid₀))
      rw [if_neg (by decide)] at hrun
      obtain ⟨page, mem₄, halloc, hrun⟩ := liftMem_bind_eq_ok.mp hrun
      rw [readSpace_bind] at hrun
      obtain ⟨_, mem₅, hcopy, hrun⟩ := liftMem_bind_eq_ok.mp hrun
      exact .inr (.inr ⟨hvalid₀, hwordEq ▸ hnull, page, _, h₂.take halloc hcopy, hrun⟩)

structure Filled (n : Nat) (argv : ArgArray) : Prop where
  pages : argv.pages = (List.range n).map argv.cells
  written : argv.written = List.range n
  read : argv.read = []
  nonzero : ∀ page ∈ argv.pages, page ≠ 0
  nodup : argv.pages.Nodup

theorem Filled.putPage {n : Nat} {argv : ArgArray} {page : UInt64} (h : Filled n argv)
    (hfetching : Fetching st₀ st (argv.pages ++ [page])) :
    Filled (n + 1) (argv.putPage n page) := by
  refine ⟨?_, ?_, h.read, hfetching.nonzero, hfetching.nodup⟩
  · change argv.pages ++ [page] =
      (List.range (n + 1)).map (Function.update argv.cells n page)
    rw [List.range_succ, List.map_append, List.map_singleton, Function.update_self, h.pages]
    congr 1
    refine List.map_congr_left fun j hj => ?_
    rw [Function.update_of_ne (Nat.ne_of_lt (List.mem_range.mp hj))]
  · change argv.written ++ [n] = _
    rw [h.written, List.range_succ]

/-- The loop ends at the first word that is 0 or not accepted, or behind the last turn. -/
theorem fetchArgs_eq_ok {files : List UInt8 → Option ExecFile} {argBase : UInt64}
    {turns i : Nat} {argv : ArgArray} {result : ArgArray × UInt64}
    (h : Fetching st₀ st argv.pages) (hstack : OnStack st₀ frame) (hp : st₀.Used p)
    (hheap : (st₀.procs p).heapTop ≤ trapframe) (hfilled : Filled i argv)
    (hrun : fetchArgs files p frame argBase turns i argv st = .ok (result, st')) :
    ∃ n argv', i ≤ n ∧ Filled n argv' ∧
      (∀ k, i ≤ k → k < n → Accepts st₀ p (argAddrAt argBase k) ∧
        argWord st₀ p (argAddrAt argBase k) ≠ 0) ∧
      ((n < i + turns ∧ Accepts st₀ p (argAddrAt argBase n) ∧
          argWord st₀ p (argAddrAt argBase n) = 0 ∧ result.1 = argv'.putNull n) ∨
        ((n = i + turns ∨ ¬ Accepts st₀ p (argAddrAt argBase n)) ∧ result.1 = argv')) := by
  induction turns generalizing i argv st with
  | zero =>
      cases hrun
      exact ⟨i, argv, le_refl i, hfilled, fun k hlow hhigh => by omega, .inr ⟨.inl rfl, rfl⟩⟩
  | succ turns ih =>
      rcases fetchArgs_succ h hstack hp hheap hrun with
        ⟨hrefused, hend⟩ | ⟨haccepts, hword, hend⟩ | ⟨haccepts, hword, page, st₁, h₁, hrest⟩
      · exact ⟨i, argv, le_refl i, hfilled, fun k hlow hhigh => by omega,
          .inr ⟨.inr hrefused, hend⟩⟩
      · exact ⟨i, argv, le_refl i, hfilled, fun k hlow hhigh => by omega,
          .inl ⟨by omega, haccepts, hword, hend⟩⟩
      · obtain ⟨n, argv', hlow, hfilled', hbefore, hcases⟩ := ih h₁ (hfilled.putPage h₁) hrest
        refine ⟨n, argv', by omega, hfilled', ?_, ?_⟩
        · intro k hk hkn
          by_cases hfirst : k = i
          · rw [hfirst]
            exact ⟨haccepts, hword⟩
          · exact hbefore k (by omega) hkn
        · rcases hcases with ⟨hlt, hrest⟩ | ⟨hor, hrest⟩
          · exact .inl ⟨by omega, hrest⟩
          · exact .inr ⟨hor.imp_left fun heq => by omega, hrest⟩

/-! What the loop that cleans up meets. -/

theorem Filled.cleansUp {n : Nat} {argv : ArgArray} {ret : UInt64} {freed : List UInt64}
    {read : List Nat} (h : Filled n argv) (hn : n < elfMaxargs)
    (hrun : freeArgs (argv.putNull n).cells (2 ^ 31) 0 st = .ok ((freed, read), st')) :
    CleansUp ⟨ret, argv.putNull n, freed, (argv.putNull n).read ++ read⟩ := by
  obtain ⟨k, hlast, hbefore, rfl, rfl⟩ := freeArgs_eq_ok hrun
  have hcells : ∀ j, j < n → (argv.putNull n).cells j = argv.cells j := fun j hj =>
    Function.update_of_ne (Nat.ne_of_lt hj) _ _
  have hnull : (argv.putNull n).cells n = 0 := Function.update_self _ _ _
  have hk : k = n := by
    rcases Nat.lt_trichotomy k n with hless | heq | hmore
    · rw [Nat.zero_add, hcells k hless] at hlast
      refine absurd hlast (h.nonzero _ ?_)
      rw [h.pages]
      exact List.mem_map_of_mem (List.mem_range.mpr hless)
    · exact heq
    · have hnext := hbefore n hmore
      rw [Nat.zero_add] at hnext
      exact absurd hnull hnext
  subst hk
  have hfreed : (List.range' 0 k).map (argv.putNull k).cells = argv.pages := by
    rw [h.pages, ← List.range_eq_range']
    exact List.map_congr_left fun j hj => hcells j (List.mem_range.mp hj)
  refine ⟨?_, ?_, ?_⟩
  · rw [hfreed]
    exact .refl _
  · rw [hfreed]
    exact h.nodup
  · intro i hi
    have hle : i < k + 1 := by
      rcases List.mem_append.mp hi with hi | hi
      · exact List.mem_range.mp hi
      · rw [← List.range_eq_range'] at hi
        exact List.mem_range.mp hi
    refine ⟨?_, by omega⟩
    change i ∈ argv.written ++ [k]
    rw [h.written, ← List.range_succ]
    exact List.mem_range.mpr hle

theorem Filled.not_cleansUp {n : Nat} {argv : ArgArray} {ret : UInt64}
    {freed : List UInt64} {read : List Nat} (h : Filled n argv)
    (hrun : freeArgs argv.cells (2 ^ 31) 0 st = .ok ((freed, read), st')) :
    ¬ CleansUp ⟨ret, argv, freed, argv.read ++ read⟩ := by
  intro hclean
  obtain ⟨k, hlast, _, rfl, rfl⟩ := freeArgs_eq_ok hrun
  rw [Nat.zero_add] at hlast
  have hle : n ≤ k := by
    by_contra hless
    refine h.nonzero _ ?_ hlast
    rw [h.pages]
    exact List.mem_map_of_mem (List.mem_range.mpr (by omega))
  have hread : n ∈ argv.read ++ List.range' 0 (k + 1) := by
    rw [← List.range_eq_range']
    exact List.mem_append_right _ (List.mem_range.mpr (by omega))
  have hwritten := (hclean.read n hread).1
  change n ∈ argv.written at hwritten
  rw [h.written] at hwritten
  exact absurd (List.mem_range.mp hwritten) (Nat.lt_irrefl n)

/-! The call. -/

/-- The copy of the path leaves the array and the registers of the process alone. -/
theorem copyinPath_spec {root src : UInt64} {mem : MemState} {value : Unit}
    (h : st.Isolated) (hp : st.Used p) (hstack : OnStack st frame)
    (hrun : uvmCopyinStr root frame.path src dirPathLen st.mem = .ok (value, mem)) :
    Fetching st { st with mem := mem } [] ∧
      mem.mem.load64 ((st.procs p).tf.toNat + tfA1) =
        st.mem.mem.load64 ((st.procs p).tf.toNat + tfA1) := by
  obtain ⟨lk, lu, hspaces⟩ := h.spaces
  have hroom := hstack.path.room
  obtain ⟨m, rfl, honly⟩ := copyinStrLoop_writes (by
    change frame.path.toNat + 128 ≤ 2 ^ 64
    omega) hrun
  obtain ⟨hspaces', helse, hpages⟩ := hstack.path.write hspaces honly
  have hin := hspaces.frames.held_in _ (.inl (UvmState.mem_trapframes hp))
  refine ⟨⟨rfl, rfl, ⟨lk, lu, hspaces', ?_⟩, List.nodup_nil, ?_, helse⟩, ?_⟩
  · exact fun page hpage => absurd hpage List.not_mem_nil
  · exact fun page hpage => absurd hpage List.not_mem_nil
  · exact (hpages false _ hin).load64 tfA1 (by decide)

/-- `sys_exec` cleans up if and only if one of the first 32 words of the array is its
terminator and `is_valid_addr` accepts all words up to it. -/
theorem exec_cleans_up_iff {files : List UInt8 → Option ExecFile} {call : ExecCall}
    (h : st.Isolated) (hp : st.Used p) (hheap : (st.procs p).heapTop ≤ trapframe)
    (hstack : OnStack st frame) (hrun : sysExec files p frame st = .ok (call, st')) :
    CleansUp call ↔ ArgvEnds st p := by
  unfold sysExec argRaw at hrun
  rw [readSpace_bind, bind_assoc, readSpace_bind, bind_assoc,
    Exec.bind_of_ok (m := get) rfl] at hrun
  rw [pure_bind] at hrun
  obtain ⟨_, mem, hcopy, hrun⟩ := liftMem_bind_eq_ok.mp hrun
  obtain ⟨h₁, hbase⟩ := copyinPath_spec h hp hstack hcopy
  rw [bind_assoc, readSpace_bind, bind_assoc, Exec.bind_of_ok (m := get) rfl, pure_bind,
    Exec.bind_eq_ok] at hrun
  obtain ⟨⟨argv, ret⟩, st₁, hfetch, hrun⟩ := hrun
  obtain ⟨⟨freed, read⟩, st₂, hfree, hend⟩ := Exec.bind_eq_ok.mp hrun
  cases hend
  change fetchArgs files p frame
    (mem.mem.load64 ((st.procs p).tf.toNat + tfA1)) _ _ _ _ = _ at hfetch
  rw [hbase] at hfetch
  unfold ArgvEnds
  generalize st.mem.mem.load64 ((st.procs p).tf.toNat + tfA1) = argBase at hfetch ⊢
  have hstart : Filled 0 (.start frame.argv) :=
    ⟨rfl, rfl, rfl, fun page hpage => absurd hpage List.not_mem_nil, List.nodup_nil⟩
  obtain ⟨n, argv', _, hfilled, hbefore, hcases⟩ :=
    fetchArgs_eq_ok h₁ hstack hp hheap hstart hfetch
  rcases hcases with ⟨hn, haccepts, hword, rfl⟩ | ⟨hstop, rfl⟩
  · refine iff_of_true (hfilled.cleansUp (by omega) hfree) ⟨n, by omega, ?_⟩
    intro i hi
    by_cases hlast : i = n
    · rw [hlast]
      exact ⟨haccepts, iff_of_true hword rfl⟩
    · obtain ⟨hvalid, hne⟩ := hbefore i (Nat.zero_le i) (by omega)
      exact ⟨hvalid, iff_of_false hne hlast⟩
  · refine iff_of_false (hfilled.not_cleansUp hfree) ?_
    rintro ⟨k, hk, hends⟩
    by_cases hless : k < n
    · exact (hbefore k (Nat.zero_le k) hless).2 ((hends k (le_refl k)).2.mpr rfl)
    · rcases hstop with hfull | hrefused
      · omega
      · exact hrefused (hends n (by omega)).1

/-! The first process, whose page has a path and an array with the path in it. -/

theorem links_of_even {m : Memory} {t : UInt64} {idx : Vpn} (h : m (entryAddr t idx) = 0) :
    links m t idx = none := by
  have heven : m.number (entryAddr t idx) 8 % 2 = 0 := by
    simp only [Memory.number, Nat.add_zero, Nat.pow_zero, Nat.one_mul, Nat.zero_add]
    rw [h]
    change (0 + _ + _ + _ + _ + _ + _ + _) % 2 = 0
    omega
  have hinvalid : pteValid (entry m t idx) = false := by
    unfold pteValid entry Memory.load64
    rw [bne_eq_false_iff_eq, ← UInt64.toNat_inj, UInt64.toNat_and, UInt64.toNat_ofNat']
    change _ &&& 1 = 0
    rw [Nat.and_one_is_mod]
    omega
  unfold links
  rw [hinvalid]
  rfl

def LeadsTo (m : Memory) (t : UInt64) (next : List (Option UInt64)) : Prop :=
  ∀ idx : Vpn, m (entryAddr t idx) = 0 ∨ links m t idx ∈ next

instance (m : Memory) (t : UInt64) (next : List (Option UInt64)) :
    Decidable (LeadsTo m t next) :=
  inferInstanceAs (Decidable (∀ _ : Vpn, _))

theorem LeadsTo.mem {m : Memory} {t t' : UInt64} {next : List (Option UInt64)} {idx : Vpn}
    (h : LeadsTo m t next) (hlink : links m t idx = some t') : some t' ∈ next := by
  rcases h idx with hzero | hmem
  · rw [links_of_even hzero] at hlink
    cases hlink
  · rwa [hlink] at hmem

structure FirstTables (m : Memory) : Prop where
  top : LeadsTo m 0x10000 [some 0x11000, some 0x13000]
  upper : LeadsTo m 0x11000 [some 0x12000]
  lower : LeadsTo m 0x13000 [some 0x14000]

theorem FirstTables.mem {m : Memory} (h : FirstTables m) {t : UInt64}
    (ht : IsTable m {0x10000} t) :
    t ∈ ([0x10000, 0x11000, 0x12000, 0x13000, 0x14000] : List UInt64) := by
  obtain ⟨r, rfl, path, hpath, hwalk⟩ := ht
  cases path with
  | nil =>
      cases hwalk
      decide
  | cons i path =>
      rw [Radix.walk, Option.bind_eq_some_iff] at hwalk
      obtain ⟨t₁, hlink, hwalk⟩ := hwalk
      have ht₁ := h.top.mem hlink
      simp only [List.mem_cons, Option.some.injEq, List.not_mem_nil, or_false] at ht₁
      cases path with
      | nil =>
          cases hwalk
          rcases ht₁ with rfl | rfl
          · decide
          · decide
      | cons j path =>
          rw [Radix.walk, Option.bind_eq_some_iff] at hwalk
          obtain ⟨t₂, hlink₂, hwalk⟩ := hwalk
          have ht₂ : t₂ = 0x12000 ∨ t₂ = 0x14000 := by
            rcases ht₁ with rfl | rfl
            · exact .inl (by simpa using h.upper.mem hlink₂)
            · exact .inr (by simpa using h.lower.mem hlink₂)
          cases path with
          | nil =>
              cases hwalk
              rcases ht₂ with rfl | rfl
              · decide
              · decide
          | cons k path =>
              simp only [List.length_cons, pgtableToplevel] at hpath
              omega

theorem FirstTables.le {m : Memory} (h : FirstTables m) {t : UInt64}
    (ht : IsTable m {0x10000} t) : t ≤ 0x14000 := by
  have hmem := h.mem ht
  simp only [List.mem_cons, List.not_mem_nil, or_false] at hmem
  rcases hmem with rfl | rfl | rfl | rfl | rfl
  · decide
  · decide
  · decide
  · decide
  · decide

def execImage : List UInt8 := [47, 0, 0, 0, 0, 0, 0, 0, 0, 16]

/-- The registers at the call, `a0` and `a1`. -/
def execRegs (array : UInt64) : Nat → UInt8 := fun i =>
  if 112 ≤ i ∧ i < 120 then Memory.digit 0x1000 (i - 112)
  else if 120 ≤ i ∧ i < 128 then Memory.digit array.toNat (i - 120)
  else 0

/-- The stack of the kernel behind the memory of the small machine, with the address of a
table where `argv` will be. -/
def execStack : ExecFrame where
  path := 0x100000
  strAddr := 0x100100
  argv := fun i => if i = 0 then 0x10000 else 0

structure AtExec (st : UvmState) : Prop where
  used : st.Used 0
  heap : (st.procs 0).heapTop ≤ trapframe
  root : ∀ q, st.Used q → (st.procs q).pgtbl = 0x10000
  tables : FirstTables st.mem.mem
  regions : ∀ k, (st.mem.region k).end_ ≤ 0x30000

instance (m : Memory) : Decidable (FirstTables m) :=
  decidable_of_iff (LeadsTo m 0x10000 [some 0x11000, some 0x13000] ∧
      LeadsTo m 0x11000 [some 0x12000] ∧ LeadsTo m 0x13000 [some 0x14000])
    ⟨fun ⟨htop, hupper, hlower⟩ => ⟨htop, hupper, hlower⟩,
      fun h => ⟨h.top, h.upper, h.lower⟩⟩

instance (st : UvmState) : Decidable (AtExec st) :=
  decidable_of_iff (st.Used 0 ∧ (st.procs 0).heapTop ≤ trapframe ∧
      (∀ q, st.Used q → (st.procs q).pgtbl = 0x10000) ∧ FirstTables st.mem.mem ∧
      ∀ k, (st.mem.region k).end_ ≤ 0x30000)
    ⟨fun ⟨hused, hheap, hroot, htables, hregions⟩ =>
        ⟨hused, hheap, hroot, htables, hregions⟩,
      fun h => ⟨h.used, h.heap, h.root, h.tables, h.regions⟩⟩

theorem AtExec.onStack (h : AtExec st) : OnStack st execStack := by
  have hoff : ∀ (a : UInt64) (n : Nat), 0x100000 ≤ a.toNat → a.toNat + n < 2 ^ 64 →
      OffPages st.mem st.roots a n := by
    intro a n hlow hroom
    refine ⟨by omega, hroom, ?_, ?_⟩
    · intro j _ t ht hin
      have hroots : st.roots ⊆ {0x10000} := by
        rintro r ⟨q, hq, rfl⟩
        exact h.root q hq
      have htable := UInt64.le_iff_toNat_le.mp (h.tables.le (ht.mono hroots))
      change _ ≤ 0x14000 at htable
      unfold InPage at hin
      omega
    · intro j _ k page hpage hin
      have hend := UInt64.lt_of_lt_of_le hpage.2.2 (h.regions k)
      rw [UInt64.lt_iff_toNat_lt] at hend
      change _ < 0x30000 at hend
      unfold InPage at hin
      omega
  exact ⟨hoff _ _ (by decide) (by decide), hoff _ _ (by decide) (by decide)⟩

/-- The pages taken and those given back in a call for a path that leads to no file. -/
def execPages (st : UvmState) : Option (List UInt64 × List UInt64) :=
  (sysExec (fun _ => none) 0 execStack st).toOption.map fun result =>
    (result.1.argv.pages, result.1.freed)

theorem execPages_eq_some {taken freed : List UInt64}
    (h : execPages st = some (taken, freed)) :
    ∃ call st', sysExec (fun _ => none) 0 execStack st = .ok (call, st') ∧
      call.argv.pages = taken ∧ call.freed = freed := by
  unfold execPages at h
  cases hrun : sysExec (fun _ => none) 0 execStack st with
  | error reason =>
      rw [hrun] at h
      cases h
  | ok result =>
      rw [hrun] at h
      obtain ⟨call, st'⟩ := result
      cases h
      exact ⟨call, st', rfl, rfl, rfl⟩

/-- An array with one argument. -/
theorem exec_cleans_up_iff_path : ∃ st call st',
    run UvmState.step UvmState.unborn [.first execImage, .fault 0 (execRegs 0x1008) 0x3000] =
      some st ∧
    sysExec (fun _ => none) 0 execStack st = .ok (call, st') ∧
    call.argv.pages = [0x15000] ∧ (CleansUp call ↔ ArgvEnds st 0) := by
  have hall : (run UvmState.step UvmState.unborn
      [.first execImage, .fault 0 (execRegs 0x1008) 0x3000]).map (fun st =>
        (decide (AtExec st), execPages st)) = some (true, some ([0x15000], [0x15000])) := by
    decide +kernel
  obtain ⟨st, hrun, hall⟩ := Option.map_eq_some_iff.mp hall
  obtain ⟨hat, hpages⟩ := Prod.mk.inj hall
  have hat := of_decide_eq_true hat
  obtain ⟨call, st', hexec, htaken, _⟩ := execPages_eq_some hpages
  have hisolated := UvmState.isolated_run UvmState.unborn_isolated hrun
  exact ⟨st, call, st', hrun, hexec, htaken,
    exec_cleans_up_iff hisolated hat.used hat.heap hat.onStack hexec⟩

/-- A call without an array gives the table of the process to `pmem_free`, whose address
was on the stack. -/
theorem exec_frees_table : ∃ st call st',
    run UvmState.step UvmState.unborn [.first execImage, .fault 0 (execRegs 0) 0x3000] =
      some st ∧
    sysExec (fun _ => none) 0 execStack st = .ok (call, st') ∧
    call.argv.pages = [] ∧ call.freed = [(st.procs 0).pgtbl] ∧ ¬ CleansUp call := by
  have hall : (run UvmState.step UvmState.unborn
      [.first execImage, .fault 0 (execRegs 0) 0x3000]).map (fun st =>
        ((st.procs 0).pgtbl, execPages st)) = some (0x10000, some ([], [0x10000])) := by
    decide +kernel
  obtain ⟨st, hrun, hall⟩ := Option.map_eq_some_iff.mp hall
  obtain ⟨hroot, hpages⟩ := Prod.mk.inj hall
  obtain ⟨call, st', hexec, htaken, hfreed⟩ := execPages_eq_some hpages
  refine ⟨st, call, st', hrun, hexec, htaken, hfreed.trans (by rw [hroot]), ?_⟩
  intro hclean
  have hperm := hclean.freed
  rw [htaken, hfreed] at hperm
  exact absurd hperm.length_eq (by decide)

end UnoOS.Uvm
