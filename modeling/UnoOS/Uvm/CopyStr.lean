import UnoOS.Uvm.CopyExact

namespace UnoOS.Uvm

open UnoOS.Lib
open UnoOS.Mem

/-! `uvm_copyin_str`.  Its offset counts on at the end of a page and is added to
the frame of every page. -/

def strPage (src : UInt64) (i : Nat) : UInt64 :=
  pgrounddown src + UInt64.ofNat ((src.toNat % 4096 + i) / 4096 * 4096)

def strPlace (m : Memory) (pgtbl src : UInt64) (i : Nat) : Nat :=
  (frameOf m pgtbl (strPage src i) + UInt64.ofNat (src.toNat % 4096 + i)).toNat

def copyinStrReads (pgtbl : UInt64) :
    (turns : Nat) → (dstbeg offset srcbeg paddr : UInt64) → MemM (List Nat)
  | 0, _, _, _, _ => return []
  | turns + 1, dstbeg, offset, srcbeg, paddr => do
      let (srcbeg, paddr) ← copyinStrPage pgtbl offset srcbeg paddr
      let c := (← readMem) (paddr + offset).toNat
      updateMem fun m => m.write dstbeg.toNat 1 fun _ => c
      if c ≠ 0 then do
        let places ← copyinStrReads pgtbl turns (dstbeg + 1) (offset + 1) srcbeg paddr
        return (paddr + offset).toNat :: places
      else
        return [(paddr + offset).toNat]

theorem copyinStrLoop_eq (pgtbl : UInt64) (turns : Nat)
    (dstbeg offset srcbeg paddr : UInt64) :
    copyinStrLoop pgtbl turns dstbeg offset srcbeg paddr = (do
      let _ ← copyinStrReads pgtbl turns dstbeg offset srcbeg paddr
      return) := by
  induction turns generalizing dstbeg offset srcbeg paddr with
  | zero => rfl
  | succ turns ih =>
      rw [copyinStrLoop, copyinStrReads, bind_assoc]
      apply bind_congr
      intro page
      rw [bind_assoc]
      apply bind_congr
      intro m
      rw [bind_assoc]
      apply bind_congr
      intro _
      split
      · rw [ih, bind_assoc]
        rfl
      · rfl

/-- No page of the table has frame 0, which is no memory. -/
def Framed (m : Memory) (pgtbl : UInt64) : Prop :=
  ∀ va, (translate m pgtbl va).isSome → frameOf m pgtbl va ≠ 0

/-- The string at `src`, whose NUL is the last of its `len` bytes. -/
structure UserString (m : Memory) (pgtbl src : UInt64) (len : UInt32) : Prop extends
    UserRange m pgtbl src len where
  framed : Framed m pgtbl
  chars : ∀ i, i + 1 < len.toNat → byteAt m pgtbl (src + UInt64.ofNat i) ≠ some 0
  nonempty : 0 < len.toNat
  nul : byteAt m pgtbl (src + UInt64.ofNat (len.toNat - 1)) = some 0

/-- A buffer of the kernel that is not in the tables. -/
structure TextBuffer (m : Memory) (pgtbl dst : UInt64) (maxlen : UInt32) : Prop where
  room : dst.toNat + maxlen.toNat < 2 ^ 64
  tables : ∀ j, j < maxlen.toNat → ∀ t, IsTable m {pgtbl} t →
    ¬ InPage t (dst.toNat + j)

def InFrames (m : Memory) (pgtbl src : UInt64) (len : UInt32) (x : Nat) : Prop :=
  ∃ i, i < len.toNat ∧ InPage (frameOf m pgtbl (src + UInt64.ofNat i)) x

/-- `uvm_copyin_str` returns, with the string and its NUL in the buffer, nothing
written elsewhere, and nothing read but bytes of the frames. -/
def CopiesStr (s : MemState) (pgtbl dst src : UInt64) (maxlen len : UInt32) : Prop :=
  ∃ places s', copyinStrReads pgtbl maxlen.toNat dst (src &&& 0xfff)
      (pgrounddown src) 0 s = .ok (places, s') ∧
    uvmCopyinStr pgtbl dst src maxlen s = .ok ((), s') ∧
    (∀ x ∈ places, InFrames s.mem pgtbl src len x) ∧
    (∀ i, i < len.toNat →
      byteAt s.mem pgtbl (src + UInt64.ofNat i) = some (s'.mem (dst.toNat + i))) ∧
    ∀ x, x < dst.toNat ∨ dst.toNat + len.toNat ≤ x → s'.mem x = s.mem x

/-- Behind its first page, what the copy reads is in the frames too and is the same
byte as that of the string. -/
def FramesRepeat (m : Memory) (pgtbl src : UInt64) (len : UInt32) : Prop :=
  ∀ i, i < len.toNat → 4096 ≤ src.toNat % 4096 + i →
    InFrames m pgtbl src len (strPlace m pgtbl src i) ∧
      byteAt m pgtbl (src + UInt64.ofNat i) = some (m (strPlace m pgtbl src i))

variable {s s' : MemState} {m m₀ : Memory} {pgtbl src dst srcbeg paddr : UInt64}
  {maxlen len : UInt32} {turns i : Nat} {places : List Nat}

/-! One turn. -/

def StrMapped (m : Memory) (pgtbl src : UInt64) (i : Nat) : Prop :=
  (strPage src i ≤ vaMax ∧ pgtbl ≠ 0) ∧ (translate m pgtbl (strPage src i)).isSome

structure AtByte (m : Memory) (pgtbl src : UInt64) (i : Nat)
    (srcbeg paddr : UInt64) : Prop where
  enters : paddr = 0 ∨ (src.toNat % 4096 + i) % 4096 = 0 → srcbeg = strPage src i
  stays : ¬ (paddr = 0 ∨ (src.toNat % 4096 + i) % 4096 = 0) →
    StrMapped m pgtbl src i ∧ srcbeg = strPage src i + pgsize ∧
      paddr = frameOf m pgtbl (strPage src i)

theorem offset_mask {n : Nat} (h : n < 2 ^ 64) :
    UInt64.ofNat n &&& 0xfff = 0 ↔ n % 4096 = 0 := by
  have hand : (UInt64.ofNat n &&& 0xfff).toNat = n % 4096 := by
    rw [UInt64.toNat_and, UInt64.toNat_ofNat_of_lt' h]
    exact Nat.and_two_pow_sub_one_eq_mod _ 12
  rw [← UInt64.toNat_inj, hand]
  rfl

theorem copyinStrPage_eq_ok {page : UInt64 × UInt64} (hroom : i < 2 ^ 32)
    (hat : AtByte m pgtbl src i srcbeg paddr)
    (htables : ∀ va, translate s.mem pgtbl va = translate m pgtbl va) :
    copyinStrPage pgtbl (UInt64.ofNat (src.toNat % 4096 + i)) srcbeg paddr s =
        .ok (page, s') ↔
      StrMapped m pgtbl src i ∧ s' = s ∧
        page = (strPage src i + pgsize, frameOf m pgtbl (strPage src i)) := by
  have hmask := offset_mask (show src.toNat % 4096 + i < 2 ^ 64 by omega)
  unfold copyinStrPage
  by_cases hnew : paddr = 0 ∨ (src.toNat % 4096 + i) % 4096 = 0
  · obtain rfl := hat.enters hnew
    rw [if_pos (hnew.imp_right hmask.mpr), Exec.bind_eq_ok]
    have hlookup := htables (strPage src i)
    unfold Mem.translate validEntry at hlookup
    unfold StrMapped frameOf Mem.translate validEntry
    rw [← hlookup]
    constructor
    · rintro ⟨result, s₁, hgetpte, hrun⟩
      obtain ⟨hguard, rfl, rfl⟩ := vmGetpte_reads_eq_ok.mp hgetpte
      cases hleaf : leafTable s₁.mem pgtbl (strPage src i) with
      | none =>
          rw [hleaf] at hrun
          cases hrun
      | some t =>
          rw [hleaf] at hrun
          dsimp only [Option.map_some] at hrun
          rw [readMem_bind, massert_bind_eq_ok] at hrun
          obtain ⟨hvalid, hrun⟩ := hrun
          obtain ⟨hpage, rfl⟩ := Prod.mk.inj (Except.ok.inj hrun)
          change pteValid (entry s₁.mem t (vpn (strPage src i) 0)) at hvalid
          rw [Option.bind_some, if_pos hvalid]
          exact ⟨⟨hguard, rfl⟩, rfl, hpage.symm⟩
    · rintro ⟨⟨hguard, hmapped⟩, rfl, rfl⟩
      refine ⟨_, s', vmGetpte_reads_eq_ok.mpr ⟨hguard, rfl, rfl⟩, ?_⟩
      cases hleaf : leafTable s'.mem pgtbl (strPage src i) with
      | none =>
          rw [hleaf] at hmapped
          cases hmapped
      | some t =>
          rw [hleaf, Option.bind_some] at hmapped
          by_cases hvalid : pteValid (entry s'.mem t (vpn (strPage src i) 0))
          · dsimp only [Option.map_some]
            rw [readMem_bind, massert_bind_eq_ok, Option.bind_some, if_pos hvalid]
            exact ⟨hvalid, rfl⟩
          · rw [if_neg hvalid] at hmapped
            cases hmapped
  · obtain ⟨hmapped, rfl, rfl⟩ := hat.stays hnew
    rw [if_neg fun hmeets => hnew (hmeets.imp_right hmask.mp)]
    constructor
    · intro hrun
      obtain ⟨hpage, rfl⟩ := Prod.mk.inj (Except.ok.inj hrun)
      exact ⟨hmapped, rfl, hpage.symm⟩
    · rintro ⟨_, rfl, rfl⟩
      rfl

theorem AtByte.start : AtByte m pgtbl src 0 (pgrounddown src) 0 := by
  refine ⟨fun _ => ?_, fun hnot => absurd (.inl rfl) hnot⟩
  have hfirst : (src.toNat % 4096 + 0) / 4096 * 4096 = 0 := by omega
  unfold strPage
  rw [hfirst]
  exact (UInt64.add_zero _).symm

theorem strPage_succ (src : UInt64) (i : Nat) :
    strPage src (i + 1) = if (src.toNat % 4096 + (i + 1)) % 4096 = 0 then
      strPage src i + pgsize else strPage src i := by
  unfold strPage
  split
  · next hend =>
    have hnext : (src.toNat % 4096 + (i + 1)) / 4096 * 4096 =
        (src.toNat % 4096 + i) / 4096 * 4096 + 4096 := by
      omega
    rw [hnext, UInt64.ofNat_add, UInt64.add_assoc]
    rfl
  · next hend =>
    have hsame : (src.toNat % 4096 + (i + 1)) / 4096 =
        (src.toNat % 4096 + i) / 4096 := by
      omega
    rw [hsame]

theorem StrMapped.next (hmapped : StrMapped m pgtbl src i)
    (hframe : frameOf m pgtbl (strPage src i) ≠ 0) :
    AtByte m pgtbl src (i + 1) (strPage src i + pgsize)
      (frameOf m pgtbl (strPage src i)) := by
  have hpage := strPage_succ src i
  constructor
  · intro hnew
    rw [hpage, if_pos (hnew.resolve_left hframe)]
  · intro hold
    rw [if_neg fun hnew => hold (.inr hnew)] at hpage
    unfold StrMapped
    rw [hpage]
    exact ⟨hmapped, rfl, rfl⟩

def putByte (s : MemState) (m : Memory) (pgtbl dst src : UInt64) (i : Nat) : MemState :=
  s.setMem (s.mem.write (dst + UInt64.ofNat i).toNat 1 fun _ =>
    s.mem (strPlace m pgtbl src i))

theorem copyinStrReads_succ_eq_ok (hroom : i < 2 ^ 32)
    (hat : AtByte m pgtbl src i srcbeg paddr)
    (htables : ∀ va, translate s.mem pgtbl va = translate m pgtbl va) :
    copyinStrReads pgtbl (turns + 1) (dst + UInt64.ofNat i)
        (UInt64.ofNat (src.toNat % 4096 + i)) srcbeg paddr s = .ok (places, s') ↔
      StrMapped m pgtbl src i ∧
        if s.mem (strPlace m pgtbl src i) ≠ 0 then
          ∃ rest, places = strPlace m pgtbl src i :: rest ∧
            copyinStrReads pgtbl turns (dst + UInt64.ofNat (i + 1))
              (UInt64.ofNat (src.toNat % 4096 + (i + 1))) (strPage src i + pgsize)
              (frameOf m pgtbl (strPage src i)) (putByte s m pgtbl dst src i) =
                .ok (rest, s')
        else
          places = [strPlace m pgtbl src i] ∧ s' = putByte s m pgtbl dst src i := by
  have hdst : dst + UInt64.ofNat i + 1 = dst + UInt64.ofNat (i + 1) := by
    rw [UInt64.ofNat_add, UInt64.add_assoc]
    rfl
  have hoffset : UInt64.ofNat (src.toNat % 4096 + i) + 1 =
      UInt64.ofNat (src.toNat % 4096 + (i + 1)) := by
    rw [← Nat.add_assoc, UInt64.ofNat_add _ 1]
    rfl
  rw [copyinStrReads, Exec.bind_eq_ok, ← hdst, ← hoffset]
  constructor
  · rintro ⟨page, s₁, hpage, hrun⟩
    obtain ⟨hmapped, rfl, rfl⟩ := (copyinStrPage_eq_ok hroom hat htables).mp hpage
    refine ⟨hmapped, ?_⟩
    dsimp only at hrun
    rw [readMem_bind, updateMem_bind] at hrun
    change (if s₁.mem (strPlace m pgtbl src i) ≠ 0 then _ else _ : MemM (List Nat))
      (putByte s₁ m pgtbl dst src i) = _ at hrun
    split
    · next hchar =>
      rw [if_pos hchar] at hrun
      obtain ⟨rest, s₂, hrest, hend⟩ := Exec.bind_eq_ok.mp hrun
      cases hend
      exact ⟨rest, rfl, hrest⟩
    · next hnul =>
      rw [if_neg hnul] at hrun
      cases hrun
      exact ⟨rfl, rfl⟩
  · rintro ⟨hmapped, hrun⟩
    refine ⟨_, s, (copyinStrPage_eq_ok hroom hat htables).mpr ⟨hmapped, rfl, rfl⟩, ?_⟩
    dsimp only
    rw [readMem_bind, updateMem_bind]
    change (if s.mem (strPlace m pgtbl src i) ≠ 0 then _ else _ : MemM (List Nat))
      (putByte s m pgtbl dst src i) = _
    split at hrun
    · next hchar =>
      obtain ⟨rest, rfl, hrest⟩ := hrun
      rw [if_pos hchar]
      exact Exec.bind_of_ok hrest
    · next hnul =>
      obtain ⟨rfl, rfl⟩ := hrun
      rw [if_neg hnul]
      rfl

/-! The memory during the copy. -/

structure Taken (m₀ : Memory) (pgtbl src dst : UInt64) (done : Nat)
    (m : Memory) : Prop where
  copied : ∀ i, i < done → m (dst.toNat + i) = m₀ (strPlace m₀ pgtbl src i)
  frame : ∀ x, x < dst.toNat ∨ dst.toNat + done ≤ x → m x = m₀ x

theorem Taken.start : Taken m₀ pgtbl src dst 0 m₀ :=
  ⟨fun i hi => absurd hi (Nat.not_lt_zero i), fun _ _ => rfl⟩

theorem Taken.tables (hbuffer : TextBuffer m₀ pgtbl dst maxlen)
    (hi : i ≤ maxlen.toNat) (h : Taken m₀ pgtbl src dst i m) (va : UInt64) :
    translate m pgtbl va = translate m₀ pgtbl va := by
  refine translate_of_samePages (Set.mem_singleton pgtbl) ?_ va
  intro t ht x hx
  apply h.frame
  by_contra hin
  refine hbuffer.tables (x - dst.toNat) (by omega) t ht ?_
  rw [Nat.add_sub_cancel' (by omega)]
  exact hx

theorem Taken.put (hbuffer : TextBuffer m₀ pgtbl dst maxlen) (hi : i < maxlen.toNat)
    (h : Taken m₀ pgtbl src dst i s.mem)
    (hplace : ∀ j, j < i → strPlace m₀ pgtbl src i ≠ dst.toNat + j) :
    Taken m₀ pgtbl src dst (i + 1) (putByte s m₀ pgtbl dst src i).mem := by
  have hroom := hbuffer.room
  have haddr : (dst + UInt64.ofNat i).toNat = dst.toNat + i := by
    rw [UInt64.toNat_add, UInt64.toNat_ofNat_of_lt' (show i < 2 ^ 64 by omega)]
    exact Nat.mod_eq_of_lt (by omega)
  have hread : s.mem (strPlace m₀ pgtbl src i) = m₀ (strPlace m₀ pgtbl src i) := by
    apply h.frame
    by_contra hin
    refine hplace (strPlace m₀ pgtbl src i - dst.toNat) (by omega) ?_
    omega
  change Taken m₀ pgtbl src dst (i + 1)
    (s.mem.write (dst + UInt64.ofNat i).toNat 1 fun _ => s.mem (strPlace m₀ pgtbl src i))
  rw [haddr, hread]
  constructor
  · intro j hj
    by_cases hlast : j = i
    · subst hlast
      exact Memory.write_of_mem (le_refl _) (by omega)
    · rw [Memory.write_of_not_mem (by omega)]
      exact h.copied j (by omega)
  · intro x hx
    rw [Memory.write_of_not_mem (by omega)]
    exact h.frame x (by omega)

/-- A copy that returns has stopped behind the first NUL that it read, or when the
buffer was full. -/
theorem copyinStr_stops (hbuffer : TextBuffer m₀ pgtbl dst maxlen)
    (hframed : Framed m₀ pgtbl)
    (hat : AtByte m₀ pgtbl src i srcbeg paddr) (hturns : i + turns = maxlen.toNat)
    (htaken : Taken m₀ pgtbl src dst i s.mem)
    (hrun : copyinStrReads pgtbl turns (dst + UInt64.ofNat i)
      (UInt64.ofNat (src.toNat % 4096 + i)) srcbeg paddr s = .ok (places, s'))
    (hplaces : ∀ j, j < maxlen.toNat → strPlace m₀ pgtbl src j ∈ places →
      ∀ k, k < maxlen.toNat → strPlace m₀ pgtbl src j ≠ dst.toNat + k) :
    ∃ done, i ≤ done ∧ done ≤ maxlen.toNat ∧ Taken m₀ pgtbl src dst done s'.mem ∧
      (∀ j, i ≤ j → j < done → strPlace m₀ pgtbl src j ∈ places) ∧
      (∀ j, i ≤ j → j + 1 < done → m₀ (strPlace m₀ pgtbl src j) ≠ 0) ∧
      (done < maxlen.toNat → 0 < done ∧ m₀ (strPlace m₀ pgtbl src (done - 1)) = 0) := by
  induction turns generalizing i srcbeg paddr s places with
  | zero =>
      cases hrun
      refine ⟨i, le_refl i, by omega, htaken, ?_, ?_, fun hmore => by omega⟩
      · intro j hlow hhigh
        omega
      · intro j hlow hhigh
        omega
  | succ turns ih =>
      have hlen := maxlen.toNat_lt
      have htables := htaken.tables hbuffer (show i ≤ maxlen.toNat by omega)
      obtain ⟨hmapped, hrest⟩ :=
        (copyinStrReads_succ_eq_ok (by omega) hat htables).mp hrun
      have hhere : strPlace m₀ pgtbl src i ∈ places := by
        split at hrest
        · obtain ⟨rest, rfl, _⟩ := hrest
          exact List.mem_cons_self
        · rw [hrest.1]
          exact List.mem_cons_self
      have hapart := hplaces i (by omega) hhere
      have hread : s.mem (strPlace m₀ pgtbl src i) = m₀ (strPlace m₀ pgtbl src i) := by
        apply htaken.frame
        by_contra hin
        refine hapart (strPlace m₀ pgtbl src i - dst.toNat) (by omega) ?_
        omega
      have hput := htaken.put hbuffer (by omega) fun j hj => hapart j (by omega)
      rw [hread] at hrest
      split at hrest
      · next hchar =>
        obtain ⟨rest, rfl, hrest⟩ := hrest
        obtain ⟨done, hlow, hhigh, htaken', hin, hchars, hstop⟩ :=
          ih (hmapped.next (hframed _ hmapped.2))
            (by omega) hput hrest fun j hj hmem =>
              hplaces j hj (List.mem_cons_of_mem _ hmem)
        refine ⟨done, by omega, hhigh, htaken', ?_, ?_, hstop⟩
        · intro j hfrom hto
          by_cases hfirst : j = i
          · rw [hfirst]
            exact List.mem_cons_self
          · exact List.mem_cons_of_mem _ (hin j (by omega) hto)
        · intro j hfrom hto
          by_cases hfirst : j = i
          · rw [hfirst]
            exact hchar
          · exact hchars j (by omega) hto
      · next hnul =>
        obtain ⟨rfl, rfl⟩ := hrest
        refine ⟨i + 1, by omega, by omega, hput, ?_, ?_, ?_⟩
        · intro j hfrom hto
          rw [show j = i by omega]
          exact List.mem_cons_self
        · intro j hfrom hto
          omega
        · intro _
          exact ⟨by omega, not_not.mp hnul⟩

/-- If the first NUL that is to be read is byte `n`, the copy stops behind it. -/
theorem copyinStr_returns {n : Nat} (hbuffer : TextBuffer m₀ pgtbl dst maxlen)
    (hat : AtByte m₀ pgtbl src i srcbeg paddr) (hi : i ≤ n) (hturns : n < i + turns)
    (hmax : n < maxlen.toNat)
    (hmapped : ∀ j, j ≤ n → StrMapped m₀ pgtbl src j ∧
      frameOf m₀ pgtbl (strPage src j) ≠ 0)
    (hplaces : ∀ j, j ≤ n → ∀ k, k < n → strPlace m₀ pgtbl src j ≠ dst.toNat + k)
    (hchars : ∀ j, j < n → m₀ (strPlace m₀ pgtbl src j) ≠ 0)
    (hnul : m₀ (strPlace m₀ pgtbl src n) = 0)
    (htaken : Taken m₀ pgtbl src dst i s.mem) :
    ∃ places s', copyinStrReads pgtbl turns (dst + UInt64.ofNat i)
        (UInt64.ofNat (src.toNat % 4096 + i)) srcbeg paddr s = .ok (places, s') ∧
      (∀ x ∈ places, ∃ j, j ≤ n ∧ x = strPlace m₀ pgtbl src j) ∧
      Taken m₀ pgtbl src dst (n + 1) s'.mem := by
  induction turns generalizing i srcbeg paddr s with
  | zero => omega
  | succ turns ih =>
      have hlen := maxlen.toNat_lt
      have htables := htaken.tables hbuffer (show i ≤ maxlen.toNat by omega)
      obtain ⟨hhere, hframe⟩ := hmapped i hi
      have hread : s.mem (strPlace m₀ pgtbl src i) = m₀ (strPlace m₀ pgtbl src i) := by
        apply htaken.frame
        by_contra hin
        refine hplaces i hi (strPlace m₀ pgtbl src i - dst.toNat) (by omega) ?_
        omega
      have hput := htaken.put hbuffer (by omega) fun j hj => hplaces i hi j (by omega)
      by_cases hlast : i = n
      · subst hlast
        refine ⟨[strPlace m₀ pgtbl src i], putByte s m₀ pgtbl dst src i, ?_, ?_, hput⟩
        · refine (copyinStrReads_succ_eq_ok (by omega) hat htables).mpr ⟨hhere, ?_⟩
          rw [if_neg fun hchar => hchar (hread.trans hnul)]
          exact ⟨rfl, rfl⟩
        · intro x hx
          exact ⟨i, le_refl i, List.mem_singleton.mp hx⟩
      · obtain ⟨rest, s', hrest, hin, htaken'⟩ :=
          ih (hhere.next hframe) (by omega) (by omega) hput
        refine ⟨strPlace m₀ pgtbl src i :: rest, s', ?_, ?_, htaken'⟩
        · refine (copyinStrReads_succ_eq_ok (by omega) hat htables).mpr ⟨hhere, ?_⟩
          rw [hread, if_pos (hchars i (by omega))]
          exact ⟨rest, rfl, hrest⟩
        · intro x hx
          rcases List.mem_cons.mp hx with rfl | hx
          · exact ⟨i, hi, rfl⟩
          · exact hin x hx

/-! A string of the user. -/

theorem strPage_toNat (hroom : src.toNat + i < 2 ^ 64) :
    (strPage src i).toNat = (src.toNat + i) / 4096 * 4096 := by
  unfold strPage
  rw [UInt64.toNat_add, pgrounddown_toNat,
    UInt64.toNat_ofNat_of_lt' (show _ < 2 ^ 64 by omega)]
  omega

namespace UserString

theorem page (h : UserString m pgtbl src len) (hi : i < len.toNat) :
    StrMapped m pgtbl src i ∧
      frameOf m pgtbl (strPage src i) = frameOf m pgtbl (src + UInt64.ofNat i) := by
  obtain ⟨hlt, hmapped⟩ := h.mapped i hi
  have haddr := h.addr_toNat hi
  change _ < 2 ^ 38 at hlt
  have hpage := strPage_toNat (show src.toNat + i < 2 ^ 64 by omega)
  have hbelow : src + UInt64.ofNat i < vaMax := by
    rw [UInt64.lt_iff_toNat_lt, haddr]
    exact hlt
  have hle : strPage src i ≤ vaMax := by
    rw [UInt64.le_iff_toNat_le, hpage]
    change _ ≤ 2 ^ 38
    omega
  have hsame : translate m pgtbl (src + UInt64.ofNat i) =
      translate m pgtbl (strPage src i) :=
    translate_same_page hbelow hle (by omega)
  unfold StrMapped frameOf
  rw [← hsame]
  exact ⟨⟨⟨hle, h.nonzero⟩, hmapped⟩, rfl⟩

theorem strPlace_first (h : UserString m pgtbl src len) (hi : i < len.toNat)
    (hfirst : src.toNat % 4096 + i < 4096) :
    strPlace m pgtbl src i = placeOf m pgtbl src i := by
  have haligned := frameOf_aligned m pgtbl (src + UInt64.ofNat i)
  have hlt := (frameOf m pgtbl (src + UInt64.ofNat i)).toNat_lt
  unfold strPlace placeOf
  rw [(h.page hi).2, UInt64.toNat_add,
    UInt64.toNat_ofNat_of_lt' (show _ < 2 ^ 64 by omega)]
  omega

theorem byte (h : UserString m pgtbl src len) (hi : i < len.toNat) :
    byteAt m pgtbl (src + UInt64.ofNat i) = some (m (placeOf m pgtbl src i)) :=
  h.byteAt_eq hi fun _ => rfl

/-- If the frames repeat, the copy reads the string to its end. -/
theorem reads (h : UserString m pgtbl src len) (hrepeat : FramesRepeat m pgtbl src len)
    (i : Nat) (hi : i < len.toNat) :
    InFrames m pgtbl src len (strPlace m pgtbl src i) ∧
      byteAt m pgtbl (src + UInt64.ofNat i) = some (m (strPlace m pgtbl src i)) := by
  by_cases hfirst : src.toNat % 4096 + i < 4096
  · rw [h.strPlace_first hi hfirst, h.byte hi]
    exact ⟨⟨i, hi, inPage_placeOf m pgtbl src i⟩, rfl⟩
  · exact hrepeat i hi (by omega)

end UserString

theorem uvmCopyinStr_eq (pgtbl dst src : UInt64) (maxlen : UInt32) :
    uvmCopyinStr pgtbl dst src maxlen = (do
      let _ ← copyinStrReads pgtbl maxlen.toNat dst (src &&& 0xfff) (pgrounddown src) 0
      return) :=
  copyinStrLoop_eq pgtbl _ _ _ _ _

/-- Before its first turn the loop is at byte 0. -/
theorem copyinStr_start (dst src : UInt64) :
    dst = dst + UInt64.ofNat 0 ∧
      src &&& 0xfff = UInt64.ofNat (src.toNat % 4096 + 0) := by
  refine ⟨(UInt64.add_zero dst).symm, ?_⟩
  rw [← UInt64.toNat_inj, UInt64.toNat_and,
    UInt64.toNat_ofNat_of_lt' (show _ < 2 ^ 64 by omega)]
  exact Nat.and_two_pow_sub_one_eq_mod _ 12

/-- A string is copied exactly if and only if all that lies behind its first page is
also found one page and more behind its frames, in frames of the string. -/
theorem copyinStr_exact_iff (hstring : UserString s.mem pgtbl src len)
    (hlen : len ≤ maxlen) (hbuffer : TextBuffer s.mem pgtbl dst maxlen)
    (hframes : ∀ j, j < maxlen.toNat →
      ¬ InFrames s.mem pgtbl src len (dst.toNat + j)) :
    CopiesStr s pgtbl dst src maxlen len ↔ FramesRepeat s.mem pgtbl src len := by
  have hpos := hstring.nonempty
  have hle : len.toNat ≤ maxlen.toNat := UInt32.le_iff_toNat_le.mp hlen
  obtain ⟨hdst, hoffset⟩ := copyinStr_start dst src
  have hapart : ∀ {x}, InFrames s.mem pgtbl src len x →
      ∀ k, k < maxlen.toNat → x ≠ dst.toNat + k := by
    intro x hx k hk heq
    exact hframes k hk (heq ▸ hx)
  constructor
  · rintro ⟨places, s', hreads, _, hin, hcopied, _⟩
    rw [hdst, hoffset] at hreads
    obtain ⟨done, _, hdone, htaken, hplaces, _, hstop⟩ :=
      copyinStr_stops hbuffer hstring.framed AtByte.start (Nat.zero_add _) Taken.start hreads
        fun j _ hmem => hapart (hin _ hmem)
    -- the copy has not stopped inside the string
    have hall : len.toNat ≤ done := by
      by_contra hless
      obtain ⟨hfirst, hnul⟩ := hstop (by omega)
      refine hstring.chars (done - 1) (by omega) ?_
      rw [hcopied (done - 1) (by omega), htaken.copied (done - 1) (by omega), hnul]
    intro i hi _
    refine ⟨hin _ (hplaces i (Nat.zero_le i) (by omega)), ?_⟩
    rw [hcopied i hi, htaken.copied i (by omega)]
  · intro hrepeat
    have hreads := hstring.reads hrepeat
    have hmapped := fun i hi => (hstring.page (i := i) hi).1
    obtain ⟨places, s', hrun, hin, htaken⟩ :=
      copyinStr_returns (n := len.toNat - 1) hbuffer AtByte.start (Nat.zero_le _)
        (show len.toNat - 1 < 0 + maxlen.toNat by omega) (by omega)
        (fun j hj => ⟨hmapped j (by omega), hstring.framed _ (hmapped j (by omega)).2⟩)
        (fun j hj k hk => hapart (hreads j (by omega)).1 k (by omega))
        (fun j hj hnul => hstring.chars j (by omega)
          ((hreads j (by omega)).2.trans (congrArg some hnul)))
        (Option.some.inj ((hreads _ (by omega)).2.symm.trans hstring.nul))
        Taken.start
    rw [← hdst, ← hoffset] at hrun
    rw [Nat.sub_add_cancel hpos] at htaken
    refine ⟨places, s', hrun, ?_, ?_, ?_, htaken.frame⟩
    · rw [uvmCopyinStr_eq]
      exact Exec.bind_of_ok hrun
    · intro x hx
      obtain ⟨j, hj, rfl⟩ := hin x hx
      exact (hreads j (by omega)).1
    · intro i hi
      rw [(hreads i hi).2, htaken.copied i hi]

/-! Eight letters at the end of a page, whose frame is behind that of the next page,
and one letter there.  The copy reads the letter `c` in its place. -/

theorem OneBranch.framed (hlinks : OneBranch m) (hentries : ∀ idx : Vpn,
    pteValid (entry m 0x3000 idx) → pteToPa (entry m 0x3000 idx) ≠ 0) :
    Framed m 0x1000 := by
  intro va hmapped
  have hleaf : leafTable m 0x1000 va = some 0x3000 ∨ leafTable m 0x1000 va = none := by
    unfold leafTable vpns vpns vpns
    rw [Radix.walk, (hlinks _).1]
    split
    · rw [Option.bind_some, Radix.walk, (hlinks _).2]
      split
      · exact .inl rfl
      · exact .inr rfl
    · exact .inr rfl
  unfold frameOf
  unfold Mem.translate validEntry at hmapped ⊢
  rcases hleaf with hleaf | hleaf
  · rw [hleaf, Option.bind_some] at hmapped ⊢
    split at hmapped
    · next hvalid =>
      rw [if_pos hvalid]
      exact hentries _ hvalid
    · cases hmapped
  · rw [hleaf] at hmapped
    cases hmapped

def letterPages (c : UInt8) : MemState where
  mem := ((((((Memory.store64 (fun _ => 0) 0x1000 (paToPte 0x2000 ||| pteV)).store64
    0x2000 (paToPte 0x3000 ||| pteV)).store64 0x3028 (paToPte 0x9000 ||| 0x17)).store64
    0x3030 (paToPte 0x8000 ||| 0x17)).memset 0x9ff8 65 8).memset 0x8000 66 1).memset
    0x9000 c 1
  kernRegion := ⟨0, 0, 0, 0⟩
  userRegion := ⟨0, 0, 0, 0⟩
  kernelPgtbl := 0
  freed := []

theorem letterPages_branch {c : UInt8} (hc : c = 66 ∨ c = 67) :
    OneBranch (letterPages c).mem ∧ Framed (letterPages c).mem 0x1000 := by
  rcases hc with rfl | rfl
  · have hlinks : OneBranch (letterPages 66).mem := by decide +kernel
    exact ⟨hlinks, hlinks.framed (by decide +kernel)⟩
  · have hlinks : OneBranch (letterPages 67).mem := by decide +kernel
    exact ⟨hlinks, hlinks.framed (by decide +kernel)⟩

theorem letterPages_string {c : UInt8} (hc : c = 66 ∨ c = 67) :
    UserString (letterPages c).mem 0x1000 0x5ff8 10 := by
  have hmapped : ∀ i, i < 10 → (0x5ff8 : UInt64).toNat + i < vaMax.toNat ∧
      (Mem.translate (letterPages c).mem 0x1000 (0x5ff8 + UInt64.ofNat i)).isSome := by
    rcases hc with rfl | rfl
    · decide +kernel
    · decide +kernel
  have hchars : ∀ i, i < 9 →
      byteAt (letterPages c).mem 0x1000 (0x5ff8 + UInt64.ofNat i) ≠ some 0 := by
    rcases hc with rfl | rfl
    · decide +kernel
    · decide +kernel
  refine ⟨⟨by decide, by decide, hmapped⟩, (letterPages_branch hc).2, ?_, by decide, ?_⟩
  · intro i hi
    change i + 1 < 10 at hi
    exact hchars i (by omega)
  · rcases hc with rfl | rfl
    · decide +kernel
    · decide +kernel

theorem letterPages_buffer {c : UInt8} (hc : c = 66 ∨ c = 67) :
    TextBuffer (letterPages c).mem 0x1000 0xb000 128 ∧ ∀ j, j < 128 →
      ¬ InFrames (letterPages c).mem 0x1000 0x5ff8 10 (0xb000 + j) := by
  refine ⟨⟨by decide, ?_⟩, ?_⟩
  · intro j hj t ht
    exact (letterPages_branch hc).1.apart ht (show 0x4000 ≤ 0xb000 + j by omega)
  · rintro j hj ⟨i, hi, hin⟩
    change i < 10 at hi
    have hle : ∀ i, i < 10 →
        (frameOf (letterPages c).mem 0x1000 (0x5ff8 + UInt64.ofNat i)).toNat ≤ 0x9000 := by
      rcases hc with rfl | rfl
      · decide +kernel
      · decide +kernel
    have hframe := hle i hi
    unfold InPage at hin
    omega

theorem copyinStr_exact_letter : CopiesStr (letterPages 66) 0x1000 0xb000 0x5ff8 128 10 := by
  refine (copyinStr_exact_iff (letterPages_string (.inl rfl)) (by decide)
    (letterPages_buffer (.inl rfl)).1 (letterPages_buffer (.inl rfl)).2).mpr ?_
  intro i hi hbehind
  change i < 10 at hi
  change 4096 ≤ 0xff8 + i at hbehind
  have hi : i = 8 ∨ i = 9 := by omega
  refine ⟨⟨0, by decide, ?_⟩, ?_⟩
  · have hframe : frameOf (letterPages 66).mem 0x1000 (0x5ff8 + UInt64.ofNat 0) =
        0x9000 := by
      decide +kernel
    have hplace : strPlace (letterPages 66).mem 0x1000 0x5ff8 i = 0x9000 + (i - 8) := by
      rcases hi with rfl | rfl
      · decide +kernel
      · decide +kernel
    rw [hframe, hplace]
    change 0x9000 ≤ 0x9000 + (i - 8) ∧ 0x9000 + (i - 8) < 0x9000 + 4096
    omega
  · rcases hi with rfl | rfl
    · decide +kernel
    · decide +kernel

/-- The ninth letter comes from the first frame. -/
theorem copyinStr_misreads :
    ¬ ∀ (s : MemState) (pgtbl dst src : UInt64) (maxlen len : UInt32),
      UserString s.mem pgtbl src len → len ≤ maxlen →
      TextBuffer s.mem pgtbl dst maxlen →
      (∀ j, j < maxlen.toNat → ¬ InFrames s.mem pgtbl src len (dst.toNat + j)) →
      CopiesStr s pgtbl dst src maxlen len := by
  intro h
  obtain ⟨_, s', _, hrun, _, hcopied, _⟩ := h (letterPages 67) 0x1000 0xb000 0x5ff8 128 10
    (letterPages_string (.inr rfl)) (by decide) (letterPages_buffer (.inr rfl)).1
    (letterPages_buffer (.inr rfl)).2
  have hread : ((uvmCopyinStr 0x1000 0xb000 0x5ff8 128 (letterPages 67)).map
      fun result => result.2.mem 0xb008).toOption = some 67 := by
    decide +kernel
  rw [hrun] at hread
  have hletter : byteAt (letterPages 67).mem 0x1000 (0x5ff8 + UInt64.ofNat 8) =
      some 66 := by
    decide +kernel
  have hcopy := hcopied 8 (by decide)
  rw [hletter] at hcopy
  exact absurd (hcopy.trans hread) (by decide)

end UnoOS.Uvm
