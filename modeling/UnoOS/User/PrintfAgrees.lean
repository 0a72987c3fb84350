import UnoOS.User.Userlib

namespace UnoOS.User

open UnoOS.Kernel

/-! The kernel's `vprintf` and the library's `printf` write the same bytes. -/

def numeral (base : Base) (x : UInt32) : List UInt8 :=
  if x / base.value ≠ 0 then
    numeral base (x / base.value) ++ [digits (x % base.value).toNat]
  else [digits (x % base.value).toNat]
termination_by x.toNat
decreasing_by exact div_base_lt base (by assumption)

theorem consputc_byte (c : UInt8) : consputc c.toUInt32 = [c] := by
  have hne : c.toUInt32 ≠ 0x100 := by
    intro heq
    have hnat := congrArg UInt32.toNat heq
    rw [UInt8.toNat_toUInt32] at hnat
    have hlt := c.toNat_lt
    change c.toNat = 256 at hnat
    omega
  unfold consputc
  rw [if_neg hne, UInt8.toUInt8_toUInt32]

/-! Numbers. -/

theorem drain_update (buf : Nat → UInt8) (c : UInt8) {i len : Nat} (h : len ≤ i) :
    drain (Function.update buf i c) len = drain buf len := by
  induction len with
  | zero => rfl
  | succ len ih =>
      rw [drain, drain, ih (by omega), Function.update_of_ne (by omega)]

theorem drain_fillUp (base : Base) (x : UInt32) (buf : Nat → UInt8) (len : Nat) :
    drain (fillUp base x buf len).1 (fillUp base x buf len).2 =
      numeral base x ++ drain buf len := by
  have hfirst : ∀ c, drain (Function.update buf len c) (len + 1) = c :: drain buf len := by
    intro c
    rw [drain, Function.update_self, consputc_byte, drain_update _ _ (le_refl len)]
    rfl
  induction hcount : x.toNat using Nat.strongRecOn generalizing x buf len with
  | ind count ih =>
      rw [fillUp, numeral]
      by_cases hmore : x / base.value ≠ 0
      · rw [if_pos hmore, if_pos hmore, ih _ (hcount ▸ div_base_lt base hmore) _ _ _ ?_ rfl,
          hfirst, List.append_assoc]
        · rfl
        · intro c
          rw [drain, Function.update_self, consputc_byte, drain_update _ _ (le_refl _)]
          rfl
      · rw [if_neg hmore, if_neg hmore]
        exact hfirst _

theorem slice_succ (buf : Int → UInt8) (i : Int) (len : Nat) :
    slice buf i (len + 1) = buf i :: slice buf (i + 1) len := by
  unfold slice
  rw [List.range_succ_eq_map, List.map_cons, List.map_map]
  congr 1
  · simp
  · apply List.map_congr_left
    intro k _
    change buf (i + ((k + 1 : Nat) : Int)) = _
    congr 1
    omega

theorem slice_update (buf : Int → UInt8) (c : UInt8) {i j : Int} (len : Nat) (h : j < i) :
    slice (Function.update buf j c) i len = slice buf i len := by
  apply List.map_congr_left
  intro k _
  exact Function.update_of_ne (by omega) _ _

/-- The digits stand before what was in the buffer up to its end. -/
theorem slice_fillDown (base : Base) (x : UInt32) (buf : Int → UInt8) {i e : Int}
    (h : i ≤ e) :
    (fillDown base x buf i).2 = i - (numeral base x).length ∧
    slice (fillDown base x buf i).1 ((fillDown base x buf i).2 + 1)
        (e - (fillDown base x buf i).2).toNat =
      numeral base x ++ slice buf (i + 1) (e - i).toNat := by
  induction hcount : x.toNat using Nat.strongRecOn generalizing x buf i with
  | ind count ih =>
      have hfirst : ∀ c, slice (Function.update buf i c) i (e - (i - 1)).toNat =
          c :: slice buf (i + 1) (e - i).toNat := by
        intro c
        rw [show (e - (i - 1)).toNat = (e - i).toNat + 1 by omega, slice_succ,
          Function.update_self, slice_update _ _ _ (by omega)]
      rw [fillDown, numeral]
      by_cases hmore : x / base.value ≠ 0
      · obtain ⟨hpos, hslice⟩ := ih _ (hcount ▸ div_base_lt base hmore) (x / base.value)
          (Function.update buf i (digits (x % base.value).toNat)) (i := i - 1) (by omega) rfl
        rw [if_pos hmore, if_pos hmore]
        refine ⟨?_, ?_⟩
        · rw [hpos, List.length_append, List.length_singleton]
          omega
        · rw [hslice, Int.sub_add_cancel, hfirst, List.append_assoc]
          rfl
      · rw [if_neg hmore, if_neg hmore]
        refine ⟨rfl, ?_⟩
        rw [Int.sub_add_cancel]
        exact hfirst _

theorem length_numeral (base : Base) {n : Nat} {x : UInt32} (hn : 0 < n)
    (hx : x.toNat < 10 ^ n) : (numeral base x).length ≤ n := by
  have hbase : 10 ≤ base.value.toNat := by cases base <;> decide
  induction n generalizing x with
  | zero => omega
  | succ n ih =>
      rw [numeral]
      by_cases hmore : x / base.value ≠ 0
      · rw [if_pos hmore, List.length_append, List.length_singleton]
        have hdiv : (x / base.value).toNat < 10 ^ n := by
          rw [UInt32.toNat_div]
          apply Nat.div_lt_of_lt_mul
          calc x.toNat < 10 * 10 ^ n := by rw [← Nat.pow_succ']; exact hx
            _ ≤ base.value.toNat * 10 ^ n := Nat.mul_le_mul_right _ hbase
        have hpos : 0 < n := by
          by_contra hzero
          rw [show n = 0 by omega, pow_zero] at hdiv
          apply hmore
          apply UInt32.toNat_inj.mp
          change _ = 0
          omega
        have hle := ih hpos hdiv
        omega
      · rw [if_neg hmore, List.length_singleton]
        omega

theorem printint_agrees (junk : Int → UInt8) (junk' : Nat → UInt8) (xx : Int32)
    (base : Base) :
    (printint junk xx base true).flatten = Kernel.printint junk' xx base true := by
  obtain ⟨hpos, hslice⟩ := slice_fillDown base (magnitude xx true)
    (Function.update junk 16 0) (i := 15) (e := 15) (le_refl _)
  have hlength : (numeral base (magnitude xx true)).length ≤ 10 := by
    refine length_numeral base (by omega) ?_
    have hlt := (magnitude xx true).toNat_lt
    omega
  have hempty : slice (Function.update junk 16 0) (15 + 1) ((15 : Int) - 15).toNat = [] := rfl
  rw [hempty, List.append_nil] at hslice
  have hkernel := drain_fillUp base (magnitude xx true) junk' 0
  rw [drain, List.append_nil] at hkernel
  unfold printint Kernel.printint
  dsimp only
  rw [hkernel]
  generalize fillDown base (magnitude xx true) (Function.update junk 16 0) 15 = filled at *
  obtain ⟨buf, i⟩ := filled
  dsimp only at hpos hslice ⊢
  by_cases hneg : xx < 0
  · have hsign : true = true ∧ xx < 0 := ⟨rfl, hneg⟩
    rw [if_pos hsign, if_pos hneg, consputc_byte]
    dsimp only
    rw [if_neg (by omega), Int.sub_add_cancel, List.nil_append, List.flatten_singleton,
      show (16 - i).toNat = (15 - i).toNat + 1 by omega, slice_succ, Function.update_self,
      slice_update _ _ _ (by omega), hslice]
    rfl
  · have hsign : ¬ (true = true ∧ xx < 0) := fun h => hneg h.2
    rw [if_neg hsign, if_neg hneg]
    dsimp only
    rw [if_neg (by omega), List.nil_append, List.flatten_singleton,
      show (16 - (i + 1)).toNat = (15 - i).toNat by omega, hslice]
    rfl

/-! Pointers and conversions. -/

theorem ptrBuffer_eq (turns : Nat) (x : UInt64) (buf : List UInt8) :
    ptrBuffer turns x buf = buf ++ ptrDigits turns x := by
  induction turns generalizing x buf with
  | zero => exact (List.append_nil buf).symm
  | succ turns ih =>
      rw [ptrBuffer, ih, ptrDigits, consputc_byte, List.append_assoc]

theorem printptr_agrees (x : UInt64) : (printptr x).flatten = Kernel.printptr x := by
  unfold printptr Kernel.printptr
  rw [List.flatten_singleton, ptrBuffer_eq]
  rfl

theorem flatMap_consputc (s : List UInt8) :
    (s.flatMap fun byte => consputc byte.toUInt32) = s := by
  induction s with
  | nil => rfl
  | cons byte s ih => rw [List.flatMap_cons, consputc_byte, ih, List.singleton_append]

/-- A pair of percent signs never gets to the library's branches. -/
theorem conversion_agrees (junk : Int → UInt8) (junk' : Nat → UInt8) (strings : Strings)
    {c : UInt8} (hc : c ≠ percent) (ap : VaList) :
    (printfConversion junk strings c ap).1.flatten =
        (vprintfConversion junk' strings c ap).1 ∧
      (printfConversion junk strings c ap).2 =
        (vprintfConversion junk' strings c ap).2 := by
  unfold printfConversion vprintfConversion
  rw [if_neg hc]
  split
  · exact ⟨printint_agrees _ _ _ _, rfl⟩
  · split
    · exact ⟨printint_agrees _ _ _ _, rfl⟩
    · split
      · exact ⟨printptr_agrees _, rfl⟩
      · split
        · dsimp only
          rw [flatMap_consputc, List.flatten_singleton]
          exact ⟨rfl, rfl⟩
        · dsimp only
          rw [consputc_byte, consputc_byte]
          exact ⟨rfl, rfl⟩

/-! The scanners. -/

section

variable (junk : Int → UInt8) (junk' : Nat → UInt8) (strings : Strings)

theorem vprintf_of_ne {c : UInt8} (h : c ≠ percent) (rest : List UInt8) (ap : VaList) :
    vprintf junk' strings (c :: rest) ap = c :: vprintf junk' strings rest ap := by
  rw [vprintf.eq_def]
  dsimp only
  rw [if_pos h, consputc_byte, List.singleton_append]

theorem vprintf_percent (c : UInt8) (rest : List UInt8) (ap : VaList) :
    vprintf junk' strings (percent :: c :: rest) ap =
      (vprintfConversion junk' strings c ap).1 ++
        vprintf junk' strings rest (vprintfConversion junk' strings c ap).2 := by
  rw [vprintf.eq_def]
  rfl

/-- Bytes in front of the first percent sign go to the console as they are. -/
theorem vprintf_literal {text : List UInt8} (h : ∀ c ∈ text, c ≠ percent)
    (rest : List UInt8) (ap : VaList) :
    vprintf junk' strings (text ++ rest) ap = text ++ vprintf junk' strings rest ap := by
  induction text with
  | nil => rfl
  | cons c text ih =>
      rw [List.cons_append, vprintf_of_ne _ _ (h c List.mem_cons_self),
        ih fun d hd => h d (List.mem_cons_of_mem _ hd), List.cons_append]

theorem skipPairs_eq (s : List UInt8) :
    List.replicate (2 * (skipPairs s).1) percent ++ (skipPairs s).2 = s := by
  induction s using skipPairs.induct with
  | case1 c d s hpair pairs rest heq ih =>
      rw [heq] at ih
      rw [skipPairs, if_pos hpair, heq, hpair.1, hpair.2]
      change List.replicate (2 * (pairs + 1)) percent ++ rest = _
      rw [show 2 * (pairs + 1) = 2 * pairs + 1 + 1 by omega, List.replicate_succ,
        List.replicate_succ, List.cons_append, List.cons_append, ih]
  | case2 c d s hnot =>
      rw [skipPairs, if_neg hnot]
      rfl
  | case3 s hshort =>
      rw [skipPairs]
      · rfl
      · exact hshort

theorem vprintf_pairs (pairs : Nat) (s : List UInt8) (ap : VaList) :
    vprintf junk' strings (List.replicate (2 * pairs) percent ++ s) ap =
      List.replicate pairs percent ++ vprintf junk' strings s ap := by
  induction pairs with
  | zero => rfl
  | succ pairs ih =>
      rw [show 2 * (pairs + 1) = 2 * pairs + 1 + 1 by omega, List.replicate_succ,
        List.replicate_succ, List.cons_append, List.cons_append, vprintf_percent,
        List.replicate_succ, List.cons_append, ← ih]
      unfold vprintfConversion
      rw [if_neg (by decide), if_neg (by decide), if_neg (by decide), if_neg (by decide),
        if_pos rfl, consputc_byte]
      rfl

theorem take_literalLength (s : List UInt8) :
    s.take (literalLength s) = s.takeWhile (· ≠ percent) ++
      List.replicate (skipPairs (behindLiteral s)).1 percent := by
  have hsplit : s.takeWhile (· ≠ percent) ++ behindLiteral s = s :=
    List.takeWhile_append_dropWhile
  have hhalf : ∀ (pairs : Nat) (rest : List UInt8),
      (List.replicate (2 * pairs) percent ++ rest).take pairs =
        List.replicate pairs percent := by
    intro pairs rest
    rw [List.take_append_of_le_length (by rw [List.length_replicate]; omega),
      List.take_replicate, Nat.min_eq_left (by omega)]
  have hpairs := hhalf (skipPairs (behindLiteral s)).1 (skipPairs (behindLiteral s)).2
  rw [skipPairs_eq] at hpairs
  calc s.take (literalLength s)
      = (s.takeWhile (· ≠ percent) ++ behindLiteral s).take (literalLength s) := by
        rw [hsplit]
    _ = s.takeWhile (· ≠ percent) ++
          (behindLiteral s).take (skipPairs (behindLiteral s)).1 :=
        List.take_length_add_append _
    _ = _ := by rw [hpairs]

theorem vprintf_behindLiteral (s : List UInt8) (ap : VaList) :
    vprintf junk' strings s ap =
      s.take (literalLength s) ++ vprintf junk' strings (skipPairs (behindLiteral s)).2 ap := by
  have hsplit := List.takeWhile_append_dropWhile (p := fun c => decide (c ≠ percent)) (l := s)
  have hliteral : ∀ c ∈ s.takeWhile (· ≠ percent), c ≠ percent :=
    fun c hc => by simpa using List.mem_takeWhile_imp hc
  rw [take_literalLength, List.append_assoc, ← vprintf_pairs, skipPairs_eq,
    ← vprintf_literal _ _ hliteral]
  exact congrArg (fun text => vprintf junk' strings text ap) hsplit.symm

/-- Where nothing is written first there is a percent sign, and no second one. -/
theorem skipPairs_of_literalLength {s : List UInt8} (hs : s ≠ []) (h : literalLength s = 0) :
    ∃ rest, (skipPairs (behindLiteral s)).2 = percent :: rest ∧
      ∀ c ∈ rest.head?, c ≠ percent := by
  unfold literalLength at h
  obtain ⟨hliteral, hpairs⟩ := Nat.add_eq_zero_iff.mp h
  cases s with
  | nil => exact absurd rfl hs
  | cons first rest =>
      have hfirst : first = percent := by
        by_contra hne
        rw [List.takeWhile_cons_of_pos (by simpa using hne)] at hliteral
        cases hliteral
      subst hfirst
      have hbehind : behindLiteral (percent :: rest) = percent :: rest :=
        List.dropWhile_cons_of_neg (by simp)
      have heq := skipPairs_eq (behindLiteral (percent :: rest))
      rw [hpairs, hbehind] at heq
      refine ⟨rest, ?_, ?_⟩
      · rw [hbehind]
        exact heq
      · rintro c hc rfl
        cases rest with
        | nil => cases hc
        | cons d rest =>
            cases hc
            rw [hbehind, skipPairs, if_pos ⟨rfl, rfl⟩] at hpairs
            cases hpairs

/-- The kernel sends the same bytes to the console as the library passes to the standard
output, for every format and all arguments. -/
theorem printf_agrees (fmt : List UInt8) (ap : VaList) :
    (printf junk strings fmt ap).flatten = vprintf junk' strings fmt ap := by
  induction hcount : fmt.length using Nat.strongRecOn generalizing fmt ap with
  | ind count ih =>
      by_cases hs : fmt = []
      · subst hs
        rw [printf, if_pos rfl]
        rfl
      · have hlength := length_behind fmt
        rw [vprintf_behindLiteral, printf, if_neg hs, List.flatten_cons]
        congr 1
        by_cases hl : literalLength fmt ≠ 0
        · rw [if_pos hl]
          exact ih _ (by omega) _ _ rfl
        · obtain ⟨rest, hrest, hhead⟩ := skipPairs_of_literalLength hs (not_not.mp hl)
          rw [if_neg hl]
          rw [hrest, List.length_cons] at hlength
          cases rest with
          | nil =>
              rw [hrest]
              rfl
          | cons c rest =>
              obtain ⟨hout, hap⟩ :=
                conversion_agrees junk junk' strings (hhead c rfl) ap
              rw [List.length_cons] at hlength
              rw [hrest, vprintf_percent, ← hout, ← hap]
              dsimp only
              rw [List.flatten_append, ih _ (by omega) _ _ rfl]

end

end UnoOS.User
