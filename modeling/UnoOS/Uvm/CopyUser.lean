import UnoOS.Mem.KvmLaws
import UnoOS.Uvm.Uvm

namespace UnoOS.Uvm

open UnoOS.Lib
open UnoOS.Mem

/-! `uvm_copyin` and `uvm_copyout` over any number of pages.  Both go through
the pages of a range of user memory from its first byte `a` on; `copy` is what
they do with the bytes in a frame. -/

/-- Where in its frame the part of a page starts that a turn copies, and how
many bytes it has.  Behind the first page the physical address decides. -/
def pageChunk (a : UInt64) (len : UInt32) (beg paddr : UInt64) : Nat × Nat :=
  if beg ≤ a then (a.toNat % 4096, min (4096 - a.toNat % 4096) len.toNat)
  else if a + len.toUInt64 ≤ paddr + pgsize then
    (0, (a + len.toUInt64 - beg).toUInt32.toNat)
  else (0, 4096)

def eachPage (pgtbl a : UInt64) (len : UInt32) (message : String)
    (copy : (at_ n done : Nat) → Memory → Memory) :
    (turns : Nat) → (beg : UInt64) → (done : Nat) → MemM Nat
  | 0, _, done => return done
  | turns + 1, beg, done => do
      match ← vmGetpte pgtbl beg false with
      | none => Exec.stop (.panic message)
      | some pte => do
          let pte := (← readMem).load64 pte
          massert (pteValid pte) message
          let chunk := pageChunk a len beg (pteToPa pte)
          updateMem (copy ((pteToPa pte).toNat + chunk.1) chunk.2 done)
          eachPage pgtbl a len message copy turns (beg + pgsize) (done + chunk.2)

def pagesMeeting (a : UInt64) (len : UInt32) : Nat :=
  ((a + len.toUInt64).toNat - (pgrounddown a).toNat + 4095) / 4096

def storeBytes (src : Nat → UInt8) (at_ n done : Nat) (m : Memory) : Memory :=
  m.write at_ n fun i => src (done + i)

def loadBytes (dst : UInt64) (at_ n done : Nat) (m : Memory) : Memory :=
  m.memcpy (dst + UInt64.ofNat done).toNat at_ n

/-- `uvm_copyout`, with the number of bytes it has read from the kernel. -/
def copyoutReads (pgtbl dst : UInt64) (src : Nat → UInt8) (len : UInt32) : MemM Nat :=
  eachPage pgtbl dst len "uvm_copyout: can't find page contains address %p"
    (storeBytes src) (pagesMeeting dst len) (pgrounddown dst) 0

/-- `uvm_copyin`, with the number of bytes it has written to the kernel. -/
def copyinWrites (pgtbl dst src : UInt64) (len : UInt32) : MemM Nat :=
  eachPage pgtbl src len "uvm_copyin: can't find page contains address %p"
    (loadBytes dst) (pagesMeeting src len) (pgrounddown src) 0

theorem copyoutLoop_eq (pgtbl dst : UInt64) (src : Nat → UInt8) (len : UInt32)
    (turns : Nat) (beg : UInt64) (done : Nat) :
    copyoutLoop pgtbl dst src len turns beg done = (do
      let _ ← eachPage pgtbl dst len
        "uvm_copyout: can't find page contains address %p" (storeBytes src) turns beg
        done
      return) := by
  induction turns generalizing beg done with
  | zero => rfl
  | succ turns ih =>
      rw [copyoutLoop, eachPage, bind_assoc]
      apply bind_congr
      intro result
      cases result with
      | none => rfl
      | some pte =>
          simp only [bind_assoc]
          apply bind_congr
          intro m
          apply bind_congr
          intro _
          unfold pageChunk
          split
          · simp only [ih]
            rfl
          · split
            · simp only [ih, Nat.add_zero]
              rfl
            · simp only [ih, Nat.add_zero]
              rfl

theorem uvmCopyout_eq (pgtbl dst : UInt64) (src : Nat → UInt8) (len : UInt32) :
    uvmCopyout pgtbl dst src len = (do
      let _ ← copyoutReads pgtbl dst src len
      return) :=
  copyoutLoop_eq pgtbl dst src len _ _ _

theorem copyinLoop_eq (pgtbl dst src : UInt64) (len : UInt32)
    (turns : Nat) (beg : UInt64) (done : Nat) :
    copyinLoop pgtbl dst src len turns beg done = (do
      let _ ← eachPage pgtbl src len
        "uvm_copyin: can't find page contains address %p" (loadBytes dst) turns beg
        done
      return) := by
  induction turns generalizing beg done with
  | zero => rfl
  | succ turns ih =>
      rw [copyinLoop, eachPage, bind_assoc]
      apply bind_congr
      intro result
      cases result with
      | none => rfl
      | some pte =>
          simp only [bind_assoc]
          apply bind_congr
          intro m
          apply bind_congr
          intro _
          unfold pageChunk
          split
          · simp only [ih]
            rfl
          · split
            · simp only [ih, Nat.add_zero]
              rfl
            · simp only [ih, Nat.add_zero]
              rfl

theorem uvmCopyin_eq (pgtbl dst src : UInt64) (len : UInt32) :
    uvmCopyin pgtbl dst src len = (do
      let _ ← copyinWrites pgtbl dst src len
      return) :=
  copyinLoop_eq pgtbl dst src len _ _ _

/-! How the turns split the range. -/

def frameOf (m : Memory) (pgtbl va : UInt64) : UInt64 :=
  pteToPa ((translate m pgtbl va).getD 0)

/-- Where byte `i` of the range is in physical memory. -/
def placeOf (m : Memory) (pgtbl a : UInt64) (i : Nat) : Nat :=
  (frameOf m pgtbl (a + UInt64.ofNat i)).toNat + (a.toNat + i) % 4096

/-- The comparison of the loops tells the last page from those before it. -/
def FrameFits (a : UInt64) (len : UInt32) (beg paddr : UInt64) : Prop :=
  a < beg →
    (a.toNat + len.toNat < beg.toNat + 4096 →
      a + len.toUInt64 ≤ paddr + pgsize) ∧
    (beg.toNat + 4096 < a.toNat + len.toNat →
      ¬ a + len.toUInt64 ≤ paddr + pgsize)

instance (a : UInt64) (len : UInt32) (beg paddr : UInt64) :
    Decidable (FrameFits a len beg paddr) :=
  inferInstanceAs (Decidable (_ → _ ∧ _))

section

variable {pgtbl a beg paddr : UInt64} {len : UInt32} {turns done n : Nat}
  {message : String} {copy : (at_ n done : Nat) → Memory → Memory}
  {s s' : MemState} {m₀ : Memory}

theorem end_toNat (hroom : a.toNat + len.toNat < 2 ^ 64) :
    (a + len.toUInt64).toNat = a.toNat + len.toNat := by
  rw [UInt64.toNat_add, UInt32.toNat_toUInt64]
  exact Nat.mod_eq_of_lt hroom

theorem rest_toNat (hroom : a.toNat + len.toNat < 2 ^ 64) (hbeg : a < beg)
    (hend : beg.toNat < a.toNat + len.toNat) :
    (a + len.toUInt64 - beg).toUInt32.toNat = a.toNat + len.toNat - beg.toNat := by
  have hlen := len.toNat_lt
  rw [UInt64.lt_iff_toNat_lt] at hbeg
  rw [UInt64.toNat_toUInt32, UInt64.toNat_sub_of_le, end_toNat hroom]
  · exact Nat.mod_eq_of_lt (by omega)
  · rw [UInt64.le_iff_toNat_le, end_toNat hroom]
    omega

theorem pageChunk_of_fits (hroom : a.toNat + len.toNat < 2 ^ 64)
    (haligned : beg.toNat % 4096 = 0) (hnear : a.toNat < beg.toNat + 4096)
    (hend : a < beg → beg.toNat < a.toNat + len.toNat)
    (hfits : FrameFits a len beg paddr) :
    pageChunk a len beg paddr =
      (max a.toNat beg.toNat - beg.toNat,
        min (a.toNat + len.toNat) (beg.toNat + 4096) - max a.toNat beg.toNat) := by
  unfold pageChunk
  by_cases hfirst : beg ≤ a
  · rw [if_pos hfirst]
    rw [UInt64.le_iff_toNat_le] at hfirst
    apply Prod.ext
    · dsimp only
      omega
    · dsimp only
      omega
  · have hlater : a < beg := UInt64.not_le.mp hfirst
    obtain ⟨hlast, hmiddle⟩ := hfits hlater
    have hrest := rest_toNat hroom hlater (hend hlater)
    have hend := hend hlater
    have hlt := UInt64.lt_iff_toNat_lt.mp hlater
    rw [if_neg hfirst]
    by_cases htest : a + len.toUInt64 ≤ paddr + pgsize
    · have hnot : ¬ beg.toNat + 4096 < a.toNat + len.toNat :=
        fun hmore => hmiddle hmore htest
      rw [if_pos htest, hrest]
      apply Prod.ext
      · dsimp only
        omega
      · dsimp only
        omega
    · have hnot : ¬ a.toNat + len.toNat < beg.toNat + 4096 :=
        fun hless => htest (hlast hless)
      rw [if_neg htest]
      apply Prod.ext
      · dsimp only
        omega
      · dsimp only
        omega

/-- A turn never copies less than its part of the range. -/
theorem le_pageChunk (hroom : a.toNat + len.toNat < 2 ^ 64)
    (haligned : beg.toNat % 4096 = 0) (hnear : a.toNat < beg.toNat + 4096)
    (hend : a < beg → beg.toNat < a.toNat + len.toNat) :
    min (a.toNat + len.toNat) (beg.toNat + 4096) - max a.toNat beg.toNat ≤
      (pageChunk a len beg paddr).2 := by
  unfold pageChunk
  by_cases hfirst : beg ≤ a
  · rw [if_pos hfirst]
    rw [UInt64.le_iff_toNat_le] at hfirst
    dsimp only
    omega
  · have hlater : a < beg := UInt64.not_le.mp hfirst
    have hrest := rest_toNat hroom hlater (hend hlater)
    have hlt := UInt64.lt_iff_toNat_lt.mp hlater
    rw [if_neg hfirst]
    split
    · rw [hrest]
      omega
    · dsimp only
      omega

theorem lt_pageChunk (hroom : a.toNat + len.toNat < 2 ^ 64)
    (hend : a < beg → beg.toNat < a.toNat + len.toNat)
    (hfits : ¬ FrameFits a len beg paddr) :
    min (a.toNat + len.toNat) (beg.toNat + 4096) - max a.toNat beg.toNat <
      (pageChunk a len beg paddr).2 := by
  unfold FrameFits at hfits
  rw [Classical.not_imp] at hfits
  obtain ⟨hlater, hwrong⟩ := hfits
  have hrest := rest_toNat hroom hlater (hend hlater)
  have hend := hend hlater
  have hlt := UInt64.lt_iff_toNat_lt.mp hlater
  unfold pageChunk
  rw [if_neg (UInt64.not_le.mpr hlater)]
  by_cases htest : a + len.toUInt64 ≤ paddr + pgsize
  · have hmore : beg.toNat + 4096 < a.toNat + len.toNat := by
      by_contra hnot
      exact hwrong ⟨fun _ => htest, fun hmore => absurd hmore hnot⟩
    rw [if_pos htest, hrest]
    omega
  · have hless : a.toNat + len.toNat < beg.toNat + 4096 := by
      by_contra hnot
      exact hwrong ⟨fun hless => absurd hless hnot, fun _ => htest⟩
    rw [if_neg htest]
    dsimp only
    omega

/-! One turn. -/

theorem eachPage_succ_eq_ok :
    eachPage pgtbl a len message copy (turns + 1) beg done s = .ok (n, s') ↔
      (beg ≤ vaMax ∧ pgtbl ≠ 0) ∧ ∃ pte, translate s.mem pgtbl beg = some pte ∧
        eachPage pgtbl a len message copy turns (beg + pgsize)
          (done + (pageChunk a len beg (pteToPa pte)).2)
          (s.setMem (copy
            ((pteToPa pte).toNat + (pageChunk a len beg (pteToPa pte)).1)
            (pageChunk a len beg (pteToPa pte)).2 done s.mem)) = .ok (n, s') := by
  rw [eachPage, Exec.bind_eq_ok]
  constructor
  · intro hrun
    obtain ⟨result, s₁, hgetpte, hrun⟩ := hrun
    obtain ⟨hguard, rfl, rfl⟩ := vmGetpte_reads_eq_ok.mp hgetpte
    refine ⟨hguard, ?_⟩
    unfold Mem.translate validEntry
    cases hleaf : leafTable s₁.mem pgtbl beg with
    | none =>
        rw [hleaf] at hrun
        cases hrun
    | some t =>
        rw [hleaf] at hrun
        dsimp only [Option.map_some] at hrun
        rw [readMem_bind, massert_bind_eq_ok] at hrun
        obtain ⟨hvalid, hrun⟩ := hrun
        exact ⟨entry s₁.mem t (vpn beg 0), if_pos hvalid, hrun⟩
  · intro h
    obtain ⟨hguard, pte, hpte, hrun⟩ := h
    refine ⟨_, s, vmGetpte_reads_eq_ok.mpr ⟨hguard, rfl, rfl⟩, ?_⟩
    unfold Mem.translate validEntry at hpte
    cases hleaf : leafTable s.mem pgtbl beg with
    | none =>
        rw [hleaf] at hpte
        cases hpte
    | some t =>
        rw [hleaf, Option.bind_some] at hpte
        split at hpte
        · next hvalid =>
          cases hpte
          dsimp only [Option.map_some]
          rw [readMem_bind, massert_bind_eq_ok]
          exact ⟨hvalid, hrun⟩
        · cases hpte

/-! All turns from a page on. -/

/-- The next turn starts at `beg`, and the bytes of the range before it are
copied. -/
structure AtPage (a : UInt64) (len : UInt32) (turns : Nat) (beg : UInt64)
    (done : Nat) : Prop where
  aligned : beg.toNat % 4096 = 0
  near : a.toNat < beg.toNat + 4096
  turns : turns = (a.toNat + len.toNat - beg.toNat + 4095) / 4096
  done : done = min (a.toNat + len.toNat) (max a.toNat beg.toNat) - a.toNat

theorem AtPage.more (h : AtPage a len (turns + 1) beg done) :
    beg.toNat < a.toNat + len.toNat := by
  have hturns := h.turns
  omega

theorem AtPage.next (h : AtPage a len (turns + 1) beg done) (hbeg : beg ≤ vaMax) :
    AtPage a len turns (beg + pgsize)
      (done + (min (a.toNat + len.toNat) (beg.toNat + 4096) -
        max a.toNat beg.toNat)) := by
  have hmore := h.more
  obtain ⟨haligned, hnear, hturns, hdone⟩ := h
  rw [UInt64.le_iff_toNat_le] at hbeg
  have hmax : vaMax.toNat = 2 ^ 38 := rfl
  have hnext : (beg + pgsize).toNat = beg.toNat + 4096 :=
    add_pgsize_toNat (by omega)
  constructor
  · omega
  · omega
  · omega
  · omega

theorem AtPage.start (hroom : a.toNat + len.toNat < 2 ^ 64) :
    AtPage a len (pagesMeeting a len) (pgrounddown a) 0 := by
  unfold pagesMeeting
  have hdown := pgrounddown_toNat a
  rw [end_toNat hroom]
  constructor
  · omega
  · omega
  · rfl
  · omega

/-- However the range is split, the turns to come copy the rest of it. -/
theorem le_copied (hroom : a.toNat + len.toNat < 2 ^ 64)
    (hpage : AtPage a len turns beg done) {extra : Nat}
    (hrun : eachPage pgtbl a len message copy turns beg (done + extra) s =
      .ok (n, s')) :
    len.toNat + extra ≤ n := by
  induction turns generalizing beg done extra s with
  | zero =>
      cases hrun
      obtain ⟨haligned, hnear, hturns, hdone⟩ := hpage
      omega
  | succ turns ih =>
      obtain ⟨⟨hbeg, _⟩, pte, _, hrest⟩ := eachPage_succ_eq_ok.mp hrun
      have hmore := hpage.more
      have hle : min (a.toNat + len.toNat) (beg.toNat + 4096) - max a.toNat beg.toNat ≤
          (pageChunk a len beg (pteToPa pte)).2 :=
        le_pageChunk hroom hpage.aligned hpage.near fun _ => hmore
      obtain ⟨excess, hexcess⟩ := Nat.exists_eq_add_of_le hle
      have hcount : done + extra + (pageChunk a len beg (pteToPa pte)).2 =
          done + (min (a.toNat + len.toNat) (beg.toNat + 4096) -
            max a.toNat beg.toNat) + (extra + excess) := by
        omega
      rw [hcount] at hrest
      have hrest := ih (hpage.next hbeg) hrest
      omega

def PageFits (m : Memory) (pgtbl a : UInt64) (len : UInt32) (va : UInt64) : Prop :=
  va ≤ vaMax ∧ (translate m pgtbl va).isSome ∧
    FrameFits a len va (frameOf m pgtbl va)

/-- `Inv done m` says that `m` is the memory `m₀` after `done` bytes were copied. -/
structure Copying (pgtbl a : UInt64) (len : UInt32)
    (copy : (at_ n done : Nat) → Memory → Memory) (m₀ : Memory)
    (Inv : Nat → Memory → Prop) : Prop where
  tables : ∀ done m, done ≤ len.toNat → Inv done m →
    ∀ va, translate m pgtbl va = translate m₀ pgtbl va
  step : ∀ at_ n done m, Inv done m → done + n ≤ len.toNat →
    (∀ i, i < n → placeOf m₀ pgtbl a (done + i) = at_ + i) →
    Inv (done + n) (copy at_ n done m)

variable {Inv : Nat → Memory → Prop}

theorem placeOf_page (hmax : a.toNat + len.toNat ≤ 2 ^ 38)
    (hpage : AtPage a len (turns + 1) beg done) (hbeg : beg ≤ vaMax) {i : Nat}
    (hi : i < min (a.toNat + len.toNat) (beg.toNat + 4096) -
      max a.toNat beg.toNat) :
    placeOf m₀ pgtbl a (done + i) =
      (frameOf m₀ pgtbl beg).toNat + (max a.toNat beg.toNat - beg.toNat) + i := by
  have hmore := hpage.more
  obtain ⟨haligned, hnear, _, hdone⟩ := hpage
  have haddr : (a + UInt64.ofNat (done + i)).toNat = a.toNat + (done + i) := by
    rw [UInt64.toNat_add, UInt64.toNat_ofNat_of_lt' (show done + i < 2 ^ 64 by omega)]
    exact Nat.mod_eq_of_lt (by omega)
  have hlt : a + UInt64.ofNat (done + i) < vaMax := by
    rw [UInt64.lt_iff_toNat_lt, haddr]
    change _ < 2 ^ 38
    omega
  have hsame : frameOf m₀ pgtbl (a + UInt64.ofNat (done + i)) =
      frameOf m₀ pgtbl beg := by
    unfold frameOf
    rw [translate_same_page hlt hbeg (by rw [haddr]; omega)]
  unfold placeOf
  rw [hsame]
  omega

theorem Copying.turn (h : Copying pgtbl a len copy m₀ Inv)
    (hroom : a.toNat + len.toNat < 2 ^ 64)
    (hmax : 0 < len.toNat → a.toNat + len.toNat ≤ 2 ^ 38)
    (hpage : AtPage a len (turns + 1) beg done) (hbeg : beg ≤ vaMax)
    (hfits : FrameFits a len beg (frameOf m₀ pgtbl beg))
    (hinv : Inv done s.mem) :
    pageChunk a len beg (frameOf m₀ pgtbl beg) =
        (max a.toNat beg.toNat - beg.toNat,
          min (a.toNat + len.toNat) (beg.toNat + 4096) - max a.toNat beg.toNat) ∧
      Inv (done + (min (a.toNat + len.toNat) (beg.toNat + 4096) -
          max a.toNat beg.toNat))
        (copy ((frameOf m₀ pgtbl beg).toNat + (max a.toNat beg.toNat - beg.toNat))
          (min (a.toNat + len.toNat) (beg.toNat + 4096) - max a.toNat beg.toNat)
          done s.mem) := by
  have hmore := hpage.more
  refine ⟨pageChunk_of_fits hroom hpage.aligned hpage.near (fun _ => hmore) hfits, ?_⟩
  apply h.step
  · exact hinv
  · have hdone := hpage.done
    omega
  · intro i hi
    exact placeOf_page (hmax (by omega)) hpage hbeg hi

theorem frameOf_of_translate {m : Memory} {va pte : UInt64}
    (hpte : translate m pgtbl va = some pte) : frameOf m pgtbl va = pteToPa pte := by
  unfold frameOf
  rw [hpte, Option.getD_some]

/-- The loops copy the range if they split it right everywhere. -/
theorem Copying.copies (h : Copying pgtbl a len copy m₀ Inv) (hpgtbl : pgtbl ≠ 0)
    (hroom : a.toNat + len.toNat < 2 ^ 64)
    (hmax : 0 < len.toNat → a.toNat + len.toNat ≤ 2 ^ 38)
    (hpage : AtPage a len turns beg done) (hinv : Inv done s.mem)
    (hfits : ∀ va : UInt64, va.toNat % 4096 = 0 → beg.toNat ≤ va.toNat →
      va.toNat < a.toNat + len.toNat → PageFits m₀ pgtbl a len va) :
    ∃ s', eachPage pgtbl a len message copy turns beg done s =
      .ok (len.toNat, s') ∧ Inv len.toNat s'.mem := by
  induction turns generalizing beg done s with
  | zero =>
      obtain ⟨haligned, hnear, hturns, hdone⟩ := hpage
      have hall : done = len.toNat := by omega
      subst hall
      exact ⟨s, rfl, hinv⟩
  | succ turns ih =>
      have hmore := hpage.more
      obtain ⟨hbeg, hmapped, hfit⟩ := hfits beg hpage.aligned (le_refl _) hmore
      obtain ⟨pte, hpte⟩ := Option.isSome_iff_exists.mp hmapped
      obtain ⟨hchunk, hinv'⟩ := h.turn hroom hmax hpage hbeg hfit hinv
      rw [frameOf_of_translate hpte] at hchunk hinv'
      have hnow : translate s.mem pgtbl beg = some pte := by
        have hdone := hpage.done
        rw [h.tables done s.mem (by omega) hinv beg]
        exact hpte
      have hnext : (beg + pgsize).toNat = beg.toNat + 4096 := by
        rw [UInt64.le_iff_toNat_le] at hbeg
        change _ ≤ 2 ^ 38 at hbeg
        exact add_pgsize_toNat (by omega)
      obtain ⟨s', hrest, hend⟩ := ih (hpage.next hbeg)
        (s := s.setMem (copy
          ((pteToPa pte).toNat + (max a.toNat beg.toNat - beg.toNat))
          (min (a.toNat + len.toNat) (beg.toNat + 4096) - max a.toNat beg.toNat)
          done s.mem)) hinv' (by
          intro va haligned hlow hhigh
          exact hfits va haligned (by omega) hhigh)
      refine ⟨s', eachPage_succ_eq_ok.mpr ⟨⟨hbeg, hpgtbl⟩, pte, hnow, ?_⟩, hend⟩
      rw [hchunk]
      exact hrest

/-- If the loops copy no more than the range, they split it right everywhere. -/
theorem Copying.fits (h : Copying pgtbl a len copy m₀ Inv)
    (hroom : a.toNat + len.toNat < 2 ^ 64)
    (hmax : 0 < len.toNat → a.toNat + len.toNat ≤ 2 ^ 38)
    (hpage : AtPage a len turns beg done) (hinv : Inv done s.mem)
    (hrun : eachPage pgtbl a len message copy turns beg done s = .ok (n, s'))
    (hn : n ≤ len.toNat) {va : UInt64} (haligned : va.toNat % 4096 = 0)
    (hlow : beg.toNat ≤ va.toNat) (hhigh : va.toNat < a.toNat + len.toNat) :
    PageFits m₀ pgtbl a len va := by
  induction turns generalizing beg done s with
  | zero =>
      obtain ⟨_, _, hturns, _⟩ := hpage
      omega
  | succ turns ih =>
      have hmore := hpage.more
      have hdone := hpage.done
      obtain ⟨⟨hbeg, _⟩, pte, hpte, hrest⟩ := eachPage_succ_eq_ok.mp hrun
      rw [h.tables done s.mem (by omega) hinv beg] at hpte
      have hframe := frameOf_of_translate hpte
      -- a turn that copies too much is never made up for
      have hfit : FrameFits a len beg (frameOf m₀ pgtbl beg) := by
        by_contra hwrong
        rw [hframe] at hwrong
        have hlt := lt_pageChunk hroom (fun _ => hmore) hwrong
        obtain ⟨excess, hexcess⟩ := Nat.exists_eq_add_of_lt hlt
        have hcount : done + (pageChunk a len beg (pteToPa pte)).2 =
            done + (min (a.toNat + len.toNat) (beg.toNat + 4096) -
              max a.toNat beg.toNat) + (excess + 1) := by
          omega
        rw [hcount] at hrest
        have hcopied := le_copied hroom (hpage.next hbeg) hrest
        omega
      obtain ⟨hchunk, hinv'⟩ := h.turn hroom hmax hpage hbeg hfit hinv
      have hnext : (beg + pgsize).toNat = beg.toNat + 4096 := by
        rw [UInt64.le_iff_toNat_le] at hbeg
        change _ ≤ 2 ^ 38 at hbeg
        exact add_pgsize_toNat (by omega)
      rw [hframe] at hchunk hinv'
      rw [hchunk] at hrest
      by_cases hhere : va = beg
      · subst hhere
        exact ⟨hbeg, Option.isSome_iff_exists.mpr ⟨pte, hpte⟩, hfit⟩
      · have hne : va.toNat ≠ beg.toNat := fun heq => hhere (UInt64.toNat_inj.mp heq)
        have hpageAligned := hpage.aligned
        exact ih (hpage.next hbeg) hinv' hrest (by omega)

end

end UnoOS.Uvm
