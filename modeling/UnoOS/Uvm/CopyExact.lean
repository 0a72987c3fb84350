import UnoOS.Uvm.CopyUser

namespace UnoOS.Uvm

open UnoOS.Lib
open UnoOS.Mem

/-! When `uvm_copyout` and `uvm_copyin` copy exactly the range they are given. -/

def byteAt (m : Memory) (pgtbl va : UInt64) : Option UInt8 :=
  (translate m pgtbl va).map fun pte => m ((pteToPa pte).toNat + va.toNat % 4096)

structure UserRange (m : Memory) (pgtbl a : UInt64) (len : UInt32) : Prop where
  aligned : pgtbl.toNat % 4096 = 0
  nonzero : pgtbl ≠ 0
  mapped : ∀ i, i < len.toNat → a.toNat + i < vaMax.toNat ∧
    (translate m pgtbl (a + UInt64.ofNat i)).isSome

/-- The pages of the range have frames of their own, which hold no tables. -/
structure OwnFrames (m : Memory) (pgtbl a : UInt64) (len : UInt32) : Prop where
  distinct : ∀ i j, i < len.toNat → j < len.toNat →
    frameOf m pgtbl (a + UInt64.ofNat i) = frameOf m pgtbl (a + UInt64.ofNat j) →
    (a.toNat + i) / 4096 = (a.toNat + j) / 4096
  apart : ∀ i, i < len.toNat →
    ¬ IsTable m {pgtbl} (frameOf m pgtbl (a + UInt64.ofNat i))

/-- The kernel's buffer is neither in the tables nor in the frames of the range. -/
structure OwnBuffer (m : Memory) (pgtbl a : UInt64) (len : UInt32)
    (buffer : UInt64) : Prop where
  room : buffer.toNat + len.toNat < 2 ^ 64
  tables : ∀ j, j < len.toNat → ∀ t, IsTable m {pgtbl} t →
    ¬ InPage t (buffer.toNat + j)
  frames : ∀ i j, i < len.toNat → j < len.toNat →
    placeOf m pgtbl a i ≠ buffer.toNat + j

/-- All pages from that of `a` on up to the end of the range fit. -/
def PagesFit (m : Memory) (pgtbl a : UInt64) (len : UInt32) : Prop :=
  ∀ va : UInt64, va.toNat % 4096 = 0 → (pgrounddown a).toNat ≤ va.toNat →
    va.toNat < a.toNat + len.toNat → PageFits m pgtbl a len va

/-- `uvm_copyout` returns, with the range stored and nothing else touched or
read. -/
def CopiesOut (s : MemState) (pgtbl dst : UInt64) (len : UInt32) : Prop :=
  ∀ src : Nat → UInt8, ∃ n s', copyoutReads pgtbl dst src len s = .ok (n, s') ∧
    uvmCopyout pgtbl dst src len s = .ok ((), s') ∧ n ≤ len.toNat ∧
    (∀ i, i < len.toNat →
      byteAt s'.mem pgtbl (dst + UInt64.ofNat i) = some (src i)) ∧
    ∀ x, (∀ i, i < len.toNat → placeOf s.mem pgtbl dst i ≠ x) →
      s'.mem x = s.mem x

/-- `uvm_copyin` returns, with the range in the buffer and nothing written
elsewhere. -/
def CopiesIn (s : MemState) (pgtbl dst src : UInt64) (len : UInt32) : Prop :=
  ∃ n s', copyinWrites pgtbl dst src len s = .ok (n, s') ∧
    uvmCopyin pgtbl dst src len s = .ok ((), s') ∧ n ≤ len.toNat ∧
    (∀ i, i < len.toNat →
      byteAt s.mem pgtbl (src + UInt64.ofNat i) = some (s'.mem (dst.toNat + i))) ∧
    ∀ x, x < dst.toNat ∨ dst.toNat + len.toNat ≤ x → s'.mem x = s.mem x

variable {s s' : MemState} {m : Memory} {pgtbl a dst : UInt64} {len : UInt32}

namespace UserRange

theorem room (h : UserRange m pgtbl a len) :
    (0 < len.toNat → a.toNat + len.toNat ≤ 2 ^ 38) ∧
      a.toNat + len.toNat < 2 ^ 64 := by
  have hmax : 0 < len.toNat → a.toNat + len.toNat ≤ 2 ^ 38 := by
    intro hpos
    have hlast := (h.mapped (len.toNat - 1) (by omega)).1
    change _ < 2 ^ 38 at hlast
    omega
  have ha := a.toNat_lt
  refine ⟨hmax, ?_⟩
  by_cases hpos : 0 < len.toNat
  · have hle := hmax hpos
    omega
  · omega

theorem addr_toNat (h : UserRange m pgtbl a len) {i : Nat} (hi : i < len.toNat) :
    (a + UInt64.ofNat i).toNat = a.toNat + i := by
  have hroom := h.room.2
  rw [UInt64.toNat_add, UInt64.toNat_ofNat_of_lt' (show i < 2 ^ 64 by omega)]
  exact Nat.mod_eq_of_lt (by omega)

theorem byteAt_eq (h : UserRange m pgtbl a len) {i : Nat} (hi : i < len.toNat)
    {m' : Memory}
    (htables : ∀ va, translate m' pgtbl va = translate m pgtbl va) :
    byteAt m' pgtbl (a + UInt64.ofNat i) = some (m' (placeOf m pgtbl a i)) := by
  obtain ⟨pte, hpte⟩ := Option.isSome_iff_exists.mp (h.mapped i hi).2
  unfold byteAt placeOf
  rw [htables, hpte, Option.map_some, frameOf_of_translate hpte, h.addr_toNat hi]

theorem tables_aligned (h : UserRange m pgtbl a len) {t : UInt64}
    (ht : IsTable m {pgtbl} t) : t.toNat % 4096 = 0 := by
  refine isTable_aligned ?_ ht
  intro root hroot
  rw [Set.mem_singleton_iff.mp hroot]
  exact h.aligned

end UserRange

theorem inPage_placeOf (m : Memory) (pgtbl a : UInt64) (i : Nat) :
    InPage (frameOf m pgtbl (a + UInt64.ofNat i)) (placeOf m pgtbl a i) := by
  unfold InPage placeOf
  omega

theorem frameOf_aligned (m : Memory) (pgtbl va : UInt64) :
    (frameOf m pgtbl va).toNat % 4096 = 0 :=
  pteToPa_aligned _

theorem OwnFrames.placeOf_inj (h : OwnFrames m pgtbl a len) {i j : Nat}
    (hi : i < len.toNat) (hj : j < len.toNat)
    (heq : placeOf m pgtbl a i = placeOf m pgtbl a j) : i = j := by
  have hframe : frameOf m pgtbl (a + UInt64.ofNat i) =
      frameOf m pgtbl (a + UInt64.ofNat j) := by
    by_contra hne
    have hin := inPage_placeOf m pgtbl a i
    rw [heq] at hin
    exact pages_apart (frameOf_aligned m pgtbl _) (frameOf_aligned m pgtbl _) hne hin
      (inPage_placeOf m pgtbl a j)
  have hpage := h.distinct i j hi hj hframe
  unfold placeOf at heq
  rw [hframe] at heq
  omega

/-! A table with three pages, whose frames are not in the order of the pages. -/

def threePages : MemState where
  mem := (((((Memory.store64 (fun _ => 0) 0x1000 (paToPte 0x2000 ||| pteV)).store64
    0x2000 (paToPte 0x3000 ||| pteV)).store64 0x3028 (paToPte 0x8000 ||| 0x17)).store64
    0x3030 (paToPte 0x4000 ||| 0x17)).store64 0x3038 (paToPte 0x9000 ||| 0x17))
  kernRegion := ⟨0, 0, 0, 0⟩
  userRegion := ⟨0, 0, 0, 0⟩
  kernelPgtbl := 0
  freed := []

/-- The table at `0x1000` has one table under it, and that one the last. -/
def OneBranch (m : Memory) : Prop :=
  ∀ idx : Vpn, links m 0x1000 idx = (if idx = 0 then some 0x2000 else none) ∧
    links m 0x2000 idx = if idx = 0 then some 0x3000 else none

instance (m : Memory) : Decidable (OneBranch m) :=
  inferInstanceAs (Decidable (∀ _, _))

theorem OneBranch.isTable (hlinks : OneBranch m) {t : UInt64}
    (h : IsTable m {0x1000} t) : t ∈ [(0x1000 : UInt64), 0x2000, 0x3000] := by
  obtain ⟨r, hr, p, hp, hwalk⟩ := h
  rw [Set.mem_singleton_iff.mp hr] at hwalk
  cases p with
  | nil =>
      cases hwalk
      decide
  | cons i p =>
      rw [Radix.walk, (hlinks i).1] at hwalk
      split at hwalk
      case isFalse => cases hwalk
      case isTrue =>
        rw [Option.bind_some] at hwalk
        cases p with
        | nil =>
            cases hwalk
            decide
        | cons j p =>
            rw [Radix.walk, (hlinks j).2] at hwalk
            split at hwalk
            case isFalse => cases hwalk
            case isTrue =>
              rw [Option.bind_some] at hwalk
              cases p with
              | nil =>
                  cases hwalk
                  decide
              | cons k p =>
                  simp only [List.length_cons, pgtableToplevel] at hp
                  omega

/-- A buffer behind the tables is in none of them. -/
theorem OneBranch.apart (hlinks : OneBranch m) {t : UInt64} {x : Nat}
    (h : IsTable m {0x1000} t) (hx : 0x4000 ≤ x) : ¬ InPage t x := by
  have hmem := hlinks.isTable h
  simp only [List.mem_cons, List.not_mem_nil, or_false] at hmem
  intro hin
  change t.toNat ≤ x ∧ x < t.toNat + 4096 at hin
  rcases hmem with rfl | rfl | rfl
  · change 0x1000 ≤ _ ∧ _ < 0x1000 + 4096 at hin
    omega
  · change 0x2000 ≤ _ ∧ _ < 0x2000 + 4096 at hin
    omega
  · change 0x3000 ≤ _ ∧ _ < 0x3000 + 4096 at hin
    omega

theorem threePages_branch : OneBranch threePages.mem := by
  decide +kernel

theorem threePages_range {dst f f' : UInt64}
    (hdst : dst = 0x5ff8 ∧ f = 0x8000 ∧ f' = 0x4000 ∨
      dst = 0x6ff8 ∧ f = 0x4000 ∧ f' = 0x9000) :
    UserRange threePages.mem 0x1000 dst 16 ∧
      ∀ i, i < 16 → frameOf threePages.mem 0x1000 (dst + UInt64.ofNat i) =
        if i < 8 then f else f' := by
  refine ⟨⟨by decide, by decide, ?_⟩, ?_⟩
  · rcases hdst with ⟨rfl, rfl, rfl⟩ | ⟨rfl, rfl, rfl⟩
    · decide +kernel
    · decide +kernel
  · rcases hdst with ⟨rfl, rfl, rfl⟩ | ⟨rfl, rfl, rfl⟩
    · decide +kernel
    · decide +kernel

theorem threePages_frames {dst f f' : UInt64}
    (hdst : dst = 0x5ff8 ∧ f = 0x8000 ∧ f' = 0x4000 ∨
      dst = 0x6ff8 ∧ f = 0x4000 ∧ f' = 0x9000) :
    OwnFrames threePages.mem 0x1000 dst 16 := by
  have hframe := (threePages_range hdst).2
  constructor
  · intro i j hi hj heq
    change i < 16 at hi
    change j < 16 at hj
    rw [hframe i hi, hframe j hj] at heq
    rcases hdst with ⟨rfl, rfl, rfl⟩ | ⟨rfl, rfl, rfl⟩
    · change (0x5ff8 + i) / 4096 = (0x5ff8 + j) / 4096
      split at heq <;> split at heq <;> first | omega | exact absurd heq (by decide)
    · change (0x6ff8 + i) / 4096 = (0x6ff8 + j) / 4096
      split at heq <;> split at heq <;> first | omega | exact absurd heq (by decide)
  · intro i hi htable
    have hmem := threePages_branch.isTable htable
    rw [hframe i hi] at hmem
    rcases hdst with ⟨rfl, rfl, rfl⟩ | ⟨rfl, rfl, rfl⟩
    · split at hmem <;> exact absurd hmem (by decide)
    · split at hmem <;> exact absurd hmem (by decide)

theorem threePages_buffer {src f f' : UInt64}
    (hsrc : src = 0x5ff8 ∧ f = 0x8000 ∧ f' = 0x4000 ∨
      src = 0x6ff8 ∧ f = 0x4000 ∧ f' = 0x9000) :
    OwnBuffer threePages.mem 0x1000 src 16 0xb000 := by
  refine ⟨by decide, ?_, ?_⟩
  · intro j hj t ht
    exact threePages_branch.apart ht (show 0x4000 ≤ 0xb000 + j by omega)
  · intro i j hi hj heq
    have hframe := (threePages_range hsrc).2 i hi
    have hle : (frameOf threePages.mem 0x1000 (src + UInt64.ofNat i)).toNat ≤
        0x9000 := by
      rw [hframe]
      rcases hsrc with ⟨rfl, rfl, rfl⟩ | ⟨rfl, rfl, rfl⟩
      · split <;> decide
      · split <;> decide
    unfold placeOf at heq
    change _ = 0xb000 + j at heq
    omega

/-- Bytes that go from the page at `0x6000` into the next one arrive. -/
theorem threePages_fit : PagesFit threePages.mem 0x1000 0x6ff8 16 := by
  intro va haligned hlow hhigh
  change 0x6000 ≤ va.toNat at hlow
  change va.toNat < 0x6ff8 + 16 at hhigh
  have hva : va = 0x6000 ∨ va = 0x7000 := by
    rw [← UInt64.toNat_inj, ← UInt64.toNat_inj]
    change _ = 0x6000 ∨ _ = 0x7000
    omega
  unfold PageFits
  rcases hva with rfl | rfl
  · decide +kernel
  · decide +kernel

/-! `uvm_copyout` -/

structure Stored (m₀ : Memory) (pgtbl a : UInt64) (src : Nat → UInt8) (done : Nat)
    (m : Memory) : Prop where
  copied : ∀ i, i < done → m (placeOf m₀ pgtbl a i) = src i
  frame : ∀ x, (∀ i, i < done → placeOf m₀ pgtbl a i ≠ x) → m x = m₀ x

theorem Stored.tables {src : Nat → UInt8} {done : Nat} {m₀ : Memory}
    (hrange : UserRange m₀ pgtbl a len) (hframes : OwnFrames m₀ pgtbl a len)
    (hdone : done ≤ len.toNat) (h : Stored m₀ pgtbl a src done m) (va : UInt64) :
    translate m pgtbl va = translate m₀ pgtbl va := by
  refine translate_of_samePages (Set.mem_singleton pgtbl) ?_ va
  intro t ht x hx
  apply h.frame
  intro i hi hplace
  refine pages_apart (hrange.tables_aligned ht) (frameOf_aligned m₀ pgtbl _) ?_ hx
    (hplace ▸ inPage_placeOf m₀ pgtbl a i)
  intro heq
  exact hframes.apart i (by omega) (heq ▸ ht)

theorem copying_storeBytes {src : Nat → UInt8} (hrange : UserRange m pgtbl a len)
    (hframes : OwnFrames m pgtbl a len) :
    Copying pgtbl a len (storeBytes src) m (Stored m pgtbl a src) := by
  refine ⟨fun done m' hdone h va => h.tables hrange hframes hdone va, ?_⟩
  intro at_ n done m' h hdone hplaces
  unfold storeBytes
  constructor
  · intro i hi
    by_cases hnew : done ≤ i
    · have hplace := hplaces (i - done) (by omega)
      rw [Nat.add_sub_cancel' hnew] at hplace
      rw [hplace, Memory.write_of_mem (by omega) (by omega)]
      congr 1
      omega
    · rw [Memory.write_of_not_mem, h.copied i (by omega)]
      -- an older byte is in none of the new places
      by_contra hin
      have hplace := hplaces (placeOf m pgtbl a i - at_) (by omega)
      have heq : placeOf m pgtbl a i =
          placeOf m pgtbl a (done + (placeOf m pgtbl a i - at_)) := by
        omega
      have hsame := hframes.placeOf_inj (by omega) (by omega) heq
      omega
  · intro x hx
    rw [Memory.write_of_not_mem]
    · apply h.frame
      intro i hi
      exact hx i (by omega)
    · by_contra hin
      refine hx (done + (x - at_)) (by omega) ?_
      rw [hplaces (x - at_) (by omega)]
      omega

/-- `uvm_copyout` is exact if and only if behind the first page the end of the
range is above the frames of the pages it goes through, and not above the frame
of the page it ends in. -/
theorem copyout_exact_iff (hrange : UserRange s.mem pgtbl dst len)
    (hframes : OwnFrames s.mem pgtbl dst len) :
    CopiesOut s pgtbl dst len ↔ PagesFit s.mem pgtbl dst len := by
  obtain ⟨hmax, hroom⟩ := hrange.room
  have hpage := AtPage.start hroom
  have hstart : ∀ src, Stored s.mem pgtbl dst src 0 s.mem :=
    fun src => ⟨fun i hi => absurd hi (Nat.not_lt_zero i), fun _ _ => rfl⟩
  constructor
  · intro hcopies va haligned hlow hhigh
    obtain ⟨n, s', hreads, _, hn, _⟩ := hcopies fun _ => 0
    exact (copying_storeBytes hrange hframes).fits hroom hmax hpage (hstart _) hreads
      hn haligned hlow hhigh
  · intro hfits src
    obtain ⟨s', hreads, hstored⟩ :=
      (copying_storeBytes hrange hframes).copies hrange.nonzero hroom hmax hpage
        (hstart src) hfits
    refine ⟨len.toNat, s', hreads, ?_, le_refl _, ?_, hstored.frame⟩
    · rw [uvmCopyout_eq]
      exact Exec.bind_of_ok hreads
    · intro i hi
      rw [hrange.byteAt_eq hi fun va => hstored.tables hrange hframes (le_refl _) va,
        hstored.copied i hi]

theorem copyout_exact_fits : CopiesOut threePages 0x1000 0x6ff8 16 :=
  (copyout_exact_iff (threePages_range (.inr ⟨rfl, rfl, rfl⟩)).1
    (threePages_frames (.inr ⟨rfl, rfl, rfl⟩))).mpr threePages_fit

/-- The frame of the page at `0x6000` ends below the page: all of it is filled. -/
theorem copyout_overruns :
    ¬ ∀ (s : MemState) (pgtbl dst : UInt64) (len : UInt32),
      UserRange s.mem pgtbl dst len → OwnFrames s.mem pgtbl dst len →
      CopiesOut s pgtbl dst len := by
  intro h
  obtain ⟨n, s', hreads, _, hn, _⟩ := h threePages 0x1000 0x5ff8 16
    (threePages_range (.inl ⟨rfl, rfl, rfl⟩)).1
    (threePages_frames (.inl ⟨rfl, rfl, rfl⟩)) fun _ => 0
  have hcount : ((copyoutReads 0x1000 0x5ff8 (fun _ => 0) 16 threePages).map
      Prod.fst).toOption = some 4104 := by
    decide +kernel
  rw [hreads] at hcount
  cases hcount
  exact absurd hn (by decide)

/-! `uvm_copyin` -/

/-- The memory after `uvm_copyin` has filled some bytes of the buffer. -/
structure Loaded (m₀ : Memory) (pgtbl a buffer : UInt64) (done : Nat)
    (m : Memory) : Prop where
  copied : ∀ i, i < done → m (buffer.toNat + i) = m₀ (placeOf m₀ pgtbl a i)
  frame : ∀ x, x < buffer.toNat ∨ buffer.toNat + done ≤ x → m x = m₀ x

theorem Loaded.tables {done : Nat} {m₀ : Memory} {buffer : UInt64}
    (hbuffer : OwnBuffer m₀ pgtbl a len buffer) (hdone : done ≤ len.toNat)
    (h : Loaded m₀ pgtbl a buffer done m) (va : UInt64) :
    translate m pgtbl va = translate m₀ pgtbl va := by
  refine translate_of_samePages (Set.mem_singleton pgtbl) ?_ va
  intro t ht x hx
  apply h.frame
  by_contra hin
  refine hbuffer.tables (x - buffer.toNat) (by omega) t ht ?_
  rw [Nat.add_sub_cancel' (by omega)]
  exact hx

theorem copying_loadBytes {buffer : UInt64}
    (hbuffer : OwnBuffer m pgtbl a len buffer) :
    Copying pgtbl a len (loadBytes buffer) m (Loaded m pgtbl a buffer) := by
  refine ⟨fun done m' hdone h va => h.tables hbuffer hdone va, ?_⟩
  intro at_ n done m' h hdone hplaces
  have hroom := hbuffer.room
  have haddr : (buffer + UInt64.ofNat done).toNat = buffer.toNat + done := by
    rw [UInt64.toNat_add, UInt64.toNat_ofNat_of_lt' (show done < 2 ^ 64 by omega)]
    exact Nat.mod_eq_of_lt (by omega)
  -- a byte of the range is not in the buffer
  have hout : ∀ i, i < n →
      at_ + i < buffer.toNat ∨ buffer.toNat + len.toNat ≤ at_ + i := by
    intro i hi
    by_contra hin
    refine hbuffer.frames (done + i) (at_ + i - buffer.toNat) (by omega) (by omega) ?_
    rw [hplaces i hi]
    omega
  have hdisjoint : at_ + n ≤ buffer.toNat + done ∨ buffer.toNat + done + n ≤ at_ := by
    by_contra hmeet
    by_cases hless : at_ < buffer.toNat + done
    · have hfirst := hout (buffer.toNat + done - at_) (by omega)
      omega
    · have hfirst := hout 0 (by omega)
      omega
  unfold loadBytes
  rw [haddr]
  constructor
  · intro i hi
    by_cases hnew : done ≤ i
    · rw [Memory.memcpy_of_mem hdisjoint (by omega) (by omega)]
      have hplace := hplaces (i - done) (by omega)
      rw [Nat.add_sub_cancel' hnew] at hplace
      have hsource : at_ + (buffer.toNat + i - (buffer.toNat + done)) =
          placeOf m pgtbl a i := by
        omega
      have hkept := hout (i - done) (by omega)
      rw [hsource, h.frame _ (by omega)]
    · rw [Memory.memcpy_of_not_mem (by omega), h.copied i (by omega)]
  · intro x hx
    rw [Memory.memcpy_of_not_mem (by omega), h.frame x (by omega)]

/-- `uvm_copyin` is exact under the condition of `uvm_copyout`. -/
theorem copyin_exact_iff {src : UInt64} (hrange : UserRange s.mem pgtbl src len)
    (hbuffer : OwnBuffer s.mem pgtbl src len dst) :
    CopiesIn s pgtbl dst src len ↔ PagesFit s.mem pgtbl src len := by
  obtain ⟨hmax, hroom⟩ := hrange.room
  have hpage := AtPage.start hroom
  have hstart : Loaded s.mem pgtbl src dst 0 s.mem :=
    ⟨fun i hi => absurd hi (Nat.not_lt_zero i), fun _ _ => rfl⟩
  constructor
  · intro hcopies va haligned hlow hhigh
    obtain ⟨n, s', hwrites, _, hn, _⟩ := hcopies
    exact (copying_loadBytes hbuffer).fits hroom hmax hpage hstart hwrites hn haligned
      hlow hhigh
  · intro hfits
    obtain ⟨s', hwrites, hloaded⟩ :=
      (copying_loadBytes hbuffer).copies hrange.nonzero hroom hmax hpage hstart hfits
    refine ⟨len.toNat, s', hwrites, ?_, le_refl _, ?_, hloaded.frame⟩
    · rw [uvmCopyin_eq]
      exact Exec.bind_of_ok hwrites
    · intro i hi
      rw [hrange.byteAt_eq hi fun _ => rfl, hloaded.copied i hi]

theorem copyin_exact_fits : CopiesIn threePages 0x1000 0xb000 0x6ff8 16 :=
  (copyin_exact_iff (threePages_range (.inr ⟨rfl, rfl, rfl⟩)).1
    (threePages_buffer (.inr ⟨rfl, rfl, rfl⟩))).mpr threePages_fit

/-- A whole frame is written behind the first eight bytes of the buffer. -/
theorem copyin_overruns :
    ¬ ∀ (s : MemState) (pgtbl dst src : UInt64) (len : UInt32),
      UserRange s.mem pgtbl src len → OwnBuffer s.mem pgtbl src len dst →
      CopiesIn s pgtbl dst src len := by
  intro h
  obtain ⟨n, s', hwrites, _, hn, _⟩ := h threePages 0x1000 0xb000 0x5ff8 16
    (threePages_range (.inl ⟨rfl, rfl, rfl⟩)).1
    (threePages_buffer (.inl ⟨rfl, rfl, rfl⟩))
  have hcount : ((copyinWrites 0x1000 0xb000 0x5ff8 16 threePages).map
      Prod.fst).toOption = some 4104 := by
    decide +kernel
  rw [hwrites] at hcount
  cases hcount
  exact absurd hn (by decide)

end UnoOS.Uvm
