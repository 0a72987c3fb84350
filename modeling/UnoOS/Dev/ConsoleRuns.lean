import UnoOS.Dev.Console

namespace UnoOS.Dev

open UnoOS.Lib
open UnoOS.Kernel (SectionEnd)

/-! The buffer and its three indices are the two queues. -/

namespace Console

/-- The indices follow each other around the ring; the differences are those of
`uint32`. -/
structure Ordered (s : Console) : Prop where
  write : (s.writeIdx - s.readIdx).toNat ≤ (s.editIdx - s.readIdx).toNat
  edit : (s.editIdx - s.readIdx).toNat ≤ consoleInputBuf

def unread (s : Console) : List UInt8 :=
  window consoleInputBuf s.buf.get s.readIdx.toNat (s.writeIdx - s.readIdx).toNat

def editing (s : Console) : List UInt8 :=
  window consoleInputBuf s.buf.get s.writeIdx.toNat (s.editIdx - s.writeIdx).toNat

structure Shows (s : Console) (a : Lines) : Prop where
  ordered : s.Ordered
  unread : a.unread = s.unread
  edit : a.edit = s.editing

variable {s s' : Console} {a : Lines}

/-! Indices that run around.  The buffer has 64 places and 64 divides 2^32. -/

theorem split (h : s.Ordered) :
    (s.editIdx - s.readIdx).toNat =
      (s.writeIdx - s.readIdx).toNat + (s.editIdx - s.writeIdx).toNat := by
  have hwrite := h.write
  simp only [UInt32.toNat_sub] at hwrite ⊢
  have hr := s.readIdx.toNat_lt
  have hw := s.writeIdx.toNat_lt
  have he := s.editIdx.toNat_lt
  omega

theorem place (i j : UInt32) :
    (i.toNat + (j - i).toNat) % consoleInputBuf = j.toNat % consoleInputBuf := by
  have hi := i.toNat_lt
  have hj := j.toNat_lt
  rw [UInt32.toNat_sub]
  unfold consoleInputBuf
  omega

theorem succ_sub {i j : UInt32} (h : (j - i).toNat ≤ 64) :
    (j + 1 - i).toNat = (j - i).toNat + 1 := by
  have hi := i.toNat_lt
  have hj := j.toNat_lt
  simp only [UInt32.toNat_sub, UInt32.toNat_add] at h ⊢
  have hone : (1 : UInt32).toNat = 1 := rfl
  omega

theorem pred_sub {i j : UInt32} (h : j ≠ i) :
    (j - 1 - i).toNat + 1 = (j - i).toNat := by
  have hi := i.toNat_lt
  have hj := j.toNat_lt
  have hne : j.toNat ≠ i.toNat := fun heq => h (UInt32.toNat_inj.mp heq)
  simp only [UInt32.toNat_sub] at h ⊢
  have hone : (1 : UInt32).toNat = 1 := rfl
  omega

theorem sub_succ {i j : UInt32} (h : i ≠ j) :
    (j - (i + 1)).toNat + 1 = (j - i).toNat := by
  have hi := i.toNat_lt
  have hj := j.toNat_lt
  have hne : j.toNat ≠ i.toNat := fun heq => h (UInt32.toNat_inj.mp heq).symm
  simp only [UInt32.toNat_sub, UInt32.toNat_add] at h ⊢
  have hone : (1 : UInt32).toNat = 1 := rfl
  omega

theorem sub_eq_zero_iff {i j : UInt32} : (j - i).toNat = 0 ↔ j = i := by
  rw [← UInt32.toNat_inj]
  have hi := i.toNat_lt
  have hj := j.toNat_lt
  simp only [UInt32.toNat_sub]
  omega

theorem length_unread : s.unread.length = (s.writeIdx - s.readIdx).toNat :=
  length_window

theorem length_editing : s.editing.length = (s.editIdx - s.writeIdx).toNat :=
  length_window

theorem Shows.pending (h : s.Shows a) :
    a.pending = (s.editIdx - s.readIdx).toNat := by
  rw [Lines.pending, h.unread, h.edit, length_unread, length_editing,
    split h.ordered]

/-! The interrupt handler. -/

theorem Shows.backspace (h : s.Shows a) (hne : s.editIdx ≠ s.writeIdx) :
    (putBackspace { s with editIdx := s.editIdx - 1 }).Shows
      { a with edit := a.edit.dropLast } := by
  have hsplit := split h.ordered
  have hpred := pred_sub hne
  have hread : s.editIdx ≠ s.readIdx := by
    intro heq
    have hzero := sub_eq_zero_iff.mpr heq
    omega
  have hpred' := pred_sub hread
  have hbound := h.ordered.edit
  refine ⟨⟨?_, ?_⟩, h.unread, ?_⟩
  · change (s.writeIdx - s.readIdx).toNat ≤ (s.editIdx - 1 - s.readIdx).toNat
    omega
  · change (s.editIdx - 1 - s.readIdx).toNat ≤ consoleInputBuf
    omega
  · change a.edit.dropLast = window consoleInputBuf s.buf.get s.writeIdx.toNat
      (s.editIdx - 1 - s.writeIdx).toNat
    rw [h.edit, editing, ← hpred, window_concat, List.dropLast_concat]

/-- The character is behind the edit line; whether it is committed comes next. -/
def appended (s : Console) (c : UInt8) : Console :=
  { consolePutchar c s with
    buf := s.buf.patch (s.editIdx.toNat % consoleInputBuf) 1 fun _ => c
    editIdx := s.editIdx + 1 }

theorem appended_get_self (s : Console) (c : UInt8) :
    (s.appended c).buf.get (s.editIdx.toNat % consoleInputBuf) = c :=
  Bytes.get_patch_of_mem s.buf (fun _ => c) (Nat.mod_lt _ (by decide)) (le_refl _)
    (by omega)

theorem appended_get_of_ne (s : Console) (c : UInt8) {i : Nat}
    (h : i ≠ s.editIdx.toNat % consoleInputBuf) :
    (s.appended c).buf.get i = s.buf.get i :=
  Bytes.get_patch_of_not_mem s.buf (fun _ => c) (by omega)

theorem Shows.append (h : s.Shows a) (c : UInt8) (hroom : a.pending < 64) :
    (s.appended c).Shows (a.append c) := by
  rw [h.pending] at hroom
  have hsize : consoleInputBuf = 64 := rfl
  have hsplit := split h.ordered
  have hsucc := succ_sub (i := s.readIdx) (le_of_lt hroom)
  have hsucc' : (s.editIdx + 1 - s.writeIdx).toNat =
      (s.editIdx - s.writeIdx).toNat + 1 := succ_sub (by omega)
  refine ⟨⟨?_, ?_⟩, ?_, ?_⟩
  · change (s.writeIdx - s.readIdx).toNat ≤ (s.editIdx + 1 - s.readIdx).toNat
    omega
  · change (s.editIdx + 1 - s.readIdx).toNat ≤ consoleInputBuf
    omega
  · have hother : ∀ i, i < consoleInputBuf →
        i ≠ (s.readIdx.toNat + (s.editIdx - s.readIdx).toNat) % consoleInputBuf →
        (s.appended c).buf.get i = s.buf.get i := by
      intro i _ hi
      rw [place] at hi
      exact appended_get_of_ne s c hi
    exact h.unread.trans (window_write h.ordered.write hroom hother).symm
  · have hline : (s.appended c).editing = s.editing ++ [c] := by
      change window consoleInputBuf (s.appended c).buf.get s.writeIdx.toNat
        (s.editIdx + 1 - s.writeIdx).toNat = _
      have hother : ∀ i, i < consoleInputBuf →
          i ≠ (s.writeIdx.toNat + (s.editIdx - s.writeIdx).toNat) % consoleInputBuf →
          (s.appended c).buf.get i = s.buf.get i := by
        intro i _ hi
        rw [place] at hi
        exact appended_get_of_ne s c hi
      rw [hsucc', window_push (by omega) hother, place, appended_get_self]
      rfl
    rw [hline, ← h.edit]
    rfl

theorem Shows.commit (h : s.Shows a) :
    Shows { s with writeIdx := s.editIdx } a.commit := by
  have hsplit := split h.ordered
  refine ⟨⟨le_refl _, h.ordered.edit⟩, ?_, ?_⟩
  · change a.unread ++ a.edit = window consoleInputBuf s.buf.get s.readIdx.toNat
      (s.editIdx - s.readIdx).toNat
    rw [hsplit, window_add, h.unread, h.edit]
    congr 1
    exact window_congr_start (place s.readIdx s.writeIdx).symm
  · change [] = window consoleInputBuf s.buf.get s.editIdx.toNat
      (s.editIdx - s.editIdx).toNat
    rw [sub_eq_zero_iff.mpr rfl]
    rfl

theorem full_iff (i j : UInt32) : j = i + 64 ↔ (j - i).toNat = 64 := by
  rw [← UInt32.toNat_inj]
  have hi := i.toNat_lt
  have hj := j.toNat_lt
  have hsize : (64 : UInt32).toNat = 64 := rfl
  simp only [UInt32.toNat_sub, UInt32.toNat_add]
  omega

theorem storeChar_eq (s : Console) (c : UInt8) :
    storeChar c s =
      if c = newline ∨ c = controlD ∨ s.editIdx + 1 = s.readIdx + 64 then
        { s.appended c with writeIdx := s.editIdx + 1 }
      else s.appended c := rfl

theorem Shows.intr (h : s.Shows a) (c : UInt8) :
    (consoleIntr c s).Shows (a.input c) := by
  unfold consoleIntr Lines.input
  split
  · split
    · next hne => exact h.backspace hne
    · next heq =>
      have hempty : a.edit = [] := by
        apply List.eq_nil_of_length_eq_zero
        rw [h.edit, length_editing]
        exact sub_eq_zero_iff.mpr (not_not.mp heq)
      rw [hempty]
      exact ⟨h.ordered, h.unread, hempty.symm.trans h.edit⟩
  · have hroom : s.editIdx - s.readIdx < 64 ↔ a.pending < 64 := by
      rw [h.pending]
      exact UInt32.lt_iff_toNat_lt
    by_cases hstore : c ≠ 0 ∧ a.pending < 64
    · rw [if_pos ⟨hstore.1, hroom.mpr hstore.2⟩, if_pos hstore]
      generalize (if c = carriageReturn then newline else c) = c'
      have happend := h.append c' hstore.2
      have hfull : s.editIdx + 1 = s.readIdx + 64 ↔ (a.append c').pending = 64 := by
        rw [happend.pending]
        exact full_iff _ _
      rw [storeChar_eq]
      dsimp only
      by_cases hcommit : c' = newline ∨ c' = controlD ∨ (a.append c').pending = 64
      · rw [if_pos hcommit, if_pos (by rwa [hfull])]
        exact happend.commit
      · rw [if_neg hcommit, if_neg (by rwa [hfull])]
        exact happend
    · rw [if_neg hstore, if_neg fun hand => hstore ⟨hand.1, hroom.mp hand.2⟩]
      exact h

/-! Readers. -/

theorem Shows.next (h : s.Shows a) (hne : s.readIdx ≠ s.writeIdx) :
    a.unread = s.buf.get (s.readIdx.toNat % consoleInputBuf) :: a.unread.tail ∧
      Shows { s with readIdx := s.readIdx + 1 }
        (a.take [s.buf.get (s.readIdx.toNat % consoleInputBuf)]) := by
  have hwrite := sub_succ hne
  have hne' : s.readIdx ≠ s.editIdx := by
    intro heq
    have hzero := sub_eq_zero_iff.mpr heq.symm
    have hle := h.ordered.write
    omega
  have hedit := sub_succ hne'
  have hplace : (s.readIdx + 1).toNat % consoleInputBuf =
      (s.readIdx.toNat + 1) % consoleInputBuf := by
    have hr := s.readIdx.toNat_lt
    have hone : (1 : UInt32).toNat = 1 := rfl
    rw [UInt32.toNat_add]
    unfold consoleInputBuf
    omega
  have hunread : a.unread = s.buf.get (s.readIdx.toNat % consoleInputBuf) ::
      Console.unread { s with readIdx := s.readIdx + 1 } := by
    rw [h.unread]
    unfold Console.unread
    rw [← hwrite, window_succ]
    congr 1
    exact window_congr_start hplace.symm
  refine ⟨?_, ⟨⟨?_, ?_⟩, ?_, h.edit⟩⟩
  · rw [hunread, List.tail_cons]
  · change (s.writeIdx - (s.readIdx + 1)).toNat ≤ (s.editIdx - (s.readIdx + 1)).toNat
    have hle := h.ordered.write
    omega
  · change (s.editIdx - (s.readIdx + 1)).toNat ≤ consoleInputBuf
    have hle := h.ordered.edit
    omega
  · change a.unread.drop 1 = _
    rw [hunread]
    rfl

theorem take_take (a : Lines) (c : UInt8) (chars : List UInt8) :
    (a.take [c]).take chars = a.take (c :: chars) := by
  simp [Lines.take]

theorem Shows.readLoop (h : s.Shows a) (turns : Nat) (readLen : UInt32) :
    ∃ chars, (consoleReadLoop turns readLen s).2.1 = chars ∧
      Lines.line turns readLen a.unread =
        ((consoleReadLoop turns readLen s).1, chars) ∧
      (consoleReadLoop turns readLen s).2.2.Shows (a.take chars) := by
  have hnone : s.Shows (a.take []) := by
    simpa [Lines.take] using h
  induction turns generalizing s a readLen with
  | zero => exact ⟨[], rfl, rfl, hnone⟩
  | succ turns ih =>
      rw [consoleReadLoop]
      split
      · next hempty =>
        have hunread : a.unread = [] := by
          apply List.eq_nil_of_length_eq_zero
          rw [h.unread, length_unread]
          exact sub_eq_zero_iff.mpr hempty.symm
        rw [hunread]
        exact ⟨[], rfl, rfl, hnone⟩
      · next hne =>
        obtain ⟨hunread, hnext⟩ := h.next hne
        generalize s.buf.get (s.readIdx.toNat % consoleInputBuf) = c at hunread hnext
        rw [hunread, Lines.line]
        dsimp only
        split
        · split
          · refine ⟨[], rfl, rfl, ?_⟩
            rw [UInt32.add_sub_cancel]
            exact hnone
          · exact ⟨[c], rfl, rfl, hnext⟩
        · split
          · exact ⟨[c], rfl, rfl, hnext⟩
          · have hnone' : Shows { s with readIdx := s.readIdx + 1 }
                ((a.take [c]).take []) := by
              simpa [Lines.take] using hnext
            obtain ⟨chars, hchars, hline, hshows⟩ := ih hnext (readLen + 1) hnone'
            have htail : (a.take [c]).unread = a.unread.tail := by
              simp [Lines.take]
            rw [htail] at hline
            refine ⟨c :: chars, ?_, ?_, ?_⟩
            · rw [hchars]
            · rw [hline]
            · rw [← take_take]
              exact hshows

end Console

/-! What one call takes. -/

namespace Lines

/-- A reader that is not done has met neither the end of a line nor a
control-D. -/
structure MidLine (len readLen : UInt32) (chars : List UInt8) : Prop where
  count : readLen.toNat = chars.length
  room : chars.length ≤ len.toNat
  controlD : controlD ∉ chars
  newline : newline ∉ chars

/-- How a call ends: with a control-D that came first, or with enough
characters, a newline, or a control-D that it leaves in the queue. -/
inductive LineEnd (len readLen : UInt32) (chars unread : List UInt8) : Prop
  | eof (first : chars = [controlD]) (value : readLen = 0)
  | line (value : readLen.toNat = chars.length) (controlD : controlD ∉ chars)
      (newline : newline ∉ chars.dropLast)
      (stop : chars.length = len.toNat ∨ chars.getLast? = some Dev.newline ∨
        chars ≠ [] ∧ unread.head? = some Dev.controlD)

variable {len readLen : UInt32} {chars : List UInt8}

theorem line_prefix (turns : Nat) (readLen : UInt32) (unread : List UInt8) :
    (line turns readLen unread).2 ++ unread.drop (line turns readLen unread).2.length =
      unread := by
  induction turns generalizing readLen unread with
  | zero => rfl
  | succ turns ih =>
      cases unread with
      | nil => rfl
      | cons c unread =>
          rw [line]
          split
          · split
            · rfl
            · rfl
          · split
            · rfl
            · exact congrArg (c :: ·) (ih (readLen + 1) unread)

def AfterLine (len : UInt32) (chars unread : List UInt8) : SectionEnd → Prop
  | .sleeps readLen => MidLine len readLen chars
  | .returns readLen => LineEnd len readLen chars unread

theorem MidLine.count_succ (h : MidLine len readLen chars)
    (hroom : chars.length < len.toNat) (c : UInt8) :
    (readLen + 1).toNat = (chars ++ [c]).length := by
  have hlen := len.toNat_lt
  have hone : (1 : UInt32).toNat = 1 := rfl
  rw [UInt32.toNat_add, h.count, List.length_append, List.length_singleton]
  omega

theorem MidLine.push (h : MidLine len readLen chars) {c : UInt8}
    (hroom : chars.length < len.toNat) (hc : c ≠ Dev.controlD)
    (hn : c ≠ Dev.newline) : MidLine len (readLen + 1) (chars ++ [c]) := by
  refine ⟨h.count_succ hroom c, ?_, ?_, ?_⟩
  · rw [List.length_append, List.length_singleton]
    omega
  · simpa [h.controlD] using Ne.symm hc
  · simpa [h.newline] using Ne.symm hn

theorem MidLine.line (h : MidLine len readLen chars) {turns : Nat}
    (hturns : turns = len.toNat - readLen.toNat) (unread : List UInt8) :
    AfterLine len (chars ++ (Lines.line turns readLen unread).2)
      (unread.drop (Lines.line turns readLen unread).2.length)
      (Lines.line turns readLen unread).1 := by
  have hcount := h.count
  have hroom := h.room
  induction turns generalizing readLen chars unread with
  | zero =>
      rw [Lines.line, List.append_nil]
      exact .line hcount h.controlD
        (fun hmem => h.newline (List.dropLast_subset _ hmem)) (.inl (by omega))
  | succ turns ih =>
      cases unread with
      | nil =>
          rw [Lines.line, List.append_nil]
          exact h
      | cons c unread =>
          have hmore : chars.length < len.toNat := by
            omega
          rw [Lines.line]
          split
          · next hd =>
            by_cases hpos : 0 < readLen
            · rw [if_pos hpos, List.append_nil]
              refine .line hcount h.controlD
                (fun hmem => h.newline (List.dropLast_subset _ hmem))
                (.inr (.inr ⟨?_, ?_⟩))
              · rintro rfl
                rw [UInt32.lt_iff_toNat_lt, hcount] at hpos
                exact absurd hpos (lt_irrefl _)
              · rw [hd]
                rfl
            · have hzero : readLen = 0 := by
                apply UInt32.toNat_inj.mp
                rw [UInt32.lt_iff_toNat_lt] at hpos
                exact Nat.eq_zero_of_not_pos hpos
              have hnil : chars = [] := by
                apply List.eq_nil_of_length_eq_zero
                rw [← hcount, hzero]
                rfl
              rw [if_neg hpos, hnil]
              exact .eof (by rw [hd]; rfl) hzero
          · next hd =>
            split
            · next hn =>
              refine .line (h.count_succ hmore c) ?_ ?_ (.inr (.inl ?_))
              · simpa [h.controlD] using Ne.symm hd
              · rw [List.dropLast_concat]
                exact h.newline
              · rw [List.getLast?_concat, hn]
            · next hn =>
              have hpush := h.push hmore hd hn
              have hrest := ih hpush (by
                have hcount' := hpush.count
                rw [List.length_append, List.length_singleton] at hcount'
                omega) unread hpush.count hpush.room
              rw [List.append_assoc] at hrest
              exact hrest

end Lines

/-! Runs. -/

structure Simulates {τ : Type} (st : ConsoleSystem τ) (a : LineSystem τ) : Prop where
  shows : st.cons.Shows a.lines
  calls : a.calls = st.calls
  taken : a.lines.taken = st.taken
  text : a.lines.text = a.lines.taken ++ a.lines.unread
  midLine : ∀ t len readLen chars, st.calls t = .reading len readLen chars →
    Lines.MidLine len readLen chars

namespace ConsoleSystem

variable {τ : Type} [DecidableEq τ] {st st' : ConsoleSystem τ} {a : LineSystem τ}

omit [DecidableEq τ] in
theorem simulates_init (buf : Bytes consoleInputBuf) :
    Simulates (init buf : ConsoleSystem τ) LineSystem.init := by
  have hzero : ((0 : UInt32) - 0).toNat = 0 := rfl
  refine ⟨⟨⟨le_refl _, ?_⟩, ?_, ?_⟩, rfl, rfl, rfl, ?_⟩
  · change ((0 : UInt32) - 0).toNat ≤ consoleInputBuf
    rw [hzero]
    exact Nat.zero_le _
  · exact (List.eq_nil_of_length_eq_zero (Console.length_unread.trans hzero)).symm
  · exact (List.eq_nil_of_length_eq_zero (Console.length_editing.trans hzero)).symm
  · intro t len readLen chars h
    cases h

theorem text_input {lines : Lines} (h : lines.text = lines.taken ++ lines.unread)
    (c : UInt8) :
    (lines.input c).taken = lines.taken ∧
      (lines.input c).text = (lines.input c).taken ++ (lines.input c).unread := by
  unfold Lines.input
  by_cases hback : c = controlH ∨ c = delete
  · rw [if_pos hback]
    exact ⟨rfl, h⟩
  · rw [if_neg hback]
    by_cases hstore : c ≠ 0 ∧ lines.pending < 64
    · rw [if_pos hstore]
      generalize (if c = carriageReturn then newline else c) = c'
      dsimp only
      split
      · refine ⟨rfl, ?_⟩
        change lines.text ++ _ = lines.taken ++ (lines.unread ++ _)
        rw [h, List.append_assoc]
      · exact ⟨rfl, h⟩
    · rw [if_neg hstore]
      exact ⟨rfl, h⟩

theorem midLine_update {calls : τ → ConsoleCall} {t : τ} {call : ConsoleCall}
    (h : ∀ t len readLen chars, calls t = .reading len readLen chars →
      Lines.MidLine len readLen chars)
    (hcall : ∀ len readLen chars, call = .reading len readLen chars →
      Lines.MidLine len readLen chars) :
    ∀ t' len readLen chars,
      Function.update calls t call t' = .reading len readLen chars →
        Lines.MidLine len readLen chars := by
  intro t' len readLen chars hread
  by_cases ht : t' = t
  · subst ht
    rw [Function.update_self] at hread
    exact hcall len readLen chars hread
  · rw [Function.update_of_ne ht] at hread
    exact h t' len readLen chars hread

theorem midLine_afterSection {len : UInt32} {chars unread : List UInt8}
    {end_ : SectionEnd} (h : Lines.AfterLine len chars unread end_) :
    ∀ len' readLen chars', afterSection len chars end_ = .reading len' readLen chars' →
      Lines.MidLine len' readLen chars' := by
  intro len' readLen chars' hread
  cases end_ with
  | sleeps n =>
      cases hread
      exact h
  | returns n => cases hread

theorem simulates_turn {t : τ} {len readLen : UInt32} {chars : List UInt8}
    (h : Simulates st a) (hread : st.calls t = .reading len readLen chars)
    (hstep : st.step (.turn t) = some st') :
    (∃ a', a.step (.turn t) = some a' ∧ Simulates st' a') ∧
      ∃ more end_, st'.calls t = afterSection len (chars ++ more) end_ ∧
        Lines.AfterLine len (chars ++ more) st'.cons.unread end_ := by
  have hmid := h.midLine t len readLen chars hread
  obtain ⟨more, hmore, hline, hshows⟩ :=
    h.shows.readLoop (len.toNat - readLen.toNat) readLen
  have hafter := hmid.line rfl a.lines.unread
  rw [hline] at hafter
  unfold step at hstep
  dsimp only at hstep
  rw [hread] at hstep
  dsimp only at hstep
  rw [hmore] at hstep
  cases hstep
  have habstract : a.step (.turn t) = some {
      lines := a.lines.take more
      calls := Function.update a.calls t (afterSection len (chars ++ more)
        (consoleReadLoop (len.toNat - readLen.toNat) readLen st.cons).1) } := by
    unfold LineSystem.step
    dsimp only
    rw [h.calls, hread]
    dsimp only
    rw [hline]
  refine ⟨⟨_, habstract, ⟨hshows, ?_, ?_, ?_, ?_⟩⟩, more, _, Function.update_self ..,
    ?_⟩
  · dsimp only
    rw [h.calls]
  · exact congrArg (· ++ more) h.taken
  · have hprefix := Lines.line_prefix (len.toNat - readLen.toNat) readLen a.lines.unread
    rw [hline] at hprefix
    refine h.text.trans ?_
    change _ = (a.lines.taken ++ more) ++ a.lines.unread.drop more.length
    rw [List.append_assoc]
    exact congrArg (a.lines.taken ++ ·) hprefix.symm
  · exact midLine_update h.midLine (midLine_afterSection hafter)
  · rw [← hshows.unread]
    exact hafter

theorem simulates_step {op : ConsoleOp τ} (h : Simulates st a)
    (hstep : st.step op = some st') :
    ∃ a', a.step op = some a' ∧ Simulates st' a' := by
  cases op with
  | intr c =>
      cases hstep
      obtain ⟨htaken, htext⟩ := text_input h.text c
      exact ⟨_, rfl, ⟨h.shows.intr c, h.calls, htaken.trans h.taken, htext, h.midLine⟩⟩
  | read t len =>
      have hstart : ∀ len' readLen chars,
          ConsoleCall.reading len 0 [] = .reading len' readLen chars →
            Lines.MidLine len' readLen chars := by
        intro len' readLen chars heq
        cases heq
        exact ⟨rfl, Nat.zero_le _, List.not_mem_nil, List.not_mem_nil⟩
      have hcalls := h.calls
      unfold step at hstep
      unfold LineSystem.step
      dsimp only at hstep ⊢
      rw [hcalls]
      cases hcall : st.calls t with
      | reading len readLen chars =>
          rw [hcall] at hstep
          cases hstep
      | idle =>
          rw [hcall] at hstep
          cases hstep
          exact ⟨_, rfl, ⟨h.shows, rfl, h.taken, h.text,
            midLine_update h.midLine hstart⟩⟩
      | returned len' readLen chars =>
          rw [hcall] at hstep
          cases hstep
          exact ⟨_, rfl, ⟨h.shows, rfl, h.taken, h.text,
            midLine_update h.midLine hstart⟩⟩
  | turn t =>
      have hstep' := hstep
      unfold step at hstep'
      dsimp only at hstep'
      cases hcall : st.calls t with
      | reading len readLen chars => exact (simulates_turn h hcall hstep).1
      | idle =>
          rw [hcall] at hstep'
          cases hstep'
      | returned len readLen chars =>
          rw [hcall] at hstep'
          cases hstep'

theorem lineEnd_of_return {op : ConsoleOp τ} {t : τ} {len readLen len' readLen' : UInt32}
    {chars chars' : List UInt8} (h : Simulates st a)
    (hstep : st.step op = some st') (hread : st.calls t = .reading len readLen chars)
    (hreturn : st'.calls t = .returned len' readLen' chars') :
    Lines.LineEnd len readLen' chars' st'.cons.unread := by
  have hmoved : st'.calls t ≠ st.calls t := by
    rw [hread, hreturn]
    exact fun heq => by cases heq
  have hstep' := hstep
  unfold step at hstep'
  cases op with
  | intr c =>
      cases hstep'
      exact absurd rfl hmoved
  | read t' len'' =>
      dsimp only at hstep'
      by_cases ht : t = t'
      · rw [← ht, hread] at hstep'
        cases hstep'
      · split at hstep'
        · cases hstep'
        · cases hstep'
          exact absurd (Function.update_of_ne ht _ _) hmoved
  | turn t' =>
      dsimp only at hstep'
      by_cases ht : t = t'
      · subst ht
        obtain ⟨_, more, end_, hcalls, hafter⟩ := simulates_turn h hread hstep
        rw [hreturn] at hcalls
        cases end_ with
        | sleeps n => cases hcalls
        | returns n =>
            cases hcalls
            exact hafter
      · split at hstep'
        · cases hstep'
          exact absurd (Function.update_of_ne ht _ _) hmoved
        · cases hstep'

/-- After any run the indices are in order, and the buffer, the readers and what
they took are those of the two queues; readers take lines. -/
theorem console_keeps_lines {buf : Bytes consoleInputBuf} {ops : List (ConsoleOp τ)}
    (hrun : run step (init buf) ops = some st) :
    st.cons.Ordered ∧
      (∃ a, run LineSystem.step LineSystem.init ops = some a ∧
        a.calls = st.calls ∧ a.lines.taken = st.taken ∧
        a.lines.unread = st.cons.unread ∧ a.lines.edit = st.cons.editing ∧
        a.lines.text = st.taken ++ st.cons.unread) ∧
      (∀ t len readLen chars, st.calls t = .reading len readLen chars →
        Lines.MidLine len readLen chars) ∧
      ∀ op st' t len readLen chars len' readLen' chars', st.step op = some st' →
        st.calls t = .reading len readLen chars →
        st'.calls t = .returned len' readLen' chars' →
        Lines.LineEnd len readLen' chars' st'.cons.unread := by
  have hstep : ∀ (st : ConsoleSystem τ) (a : LineSystem τ) op st', Simulates st a →
      st.step op = some st' → ∃ a', a.step op = some a' ∧ Simulates st' a' :=
    fun _ _ _ _ h hop => simulates_step h hop
  obtain ⟨a, hrun', h⟩ := run_simulates hstep (simulates_init buf) hrun
  refine ⟨h.shows.ordered, ⟨a, hrun', h.calls, h.taken, h.shows.unread, h.shows.edit,
    ?_⟩, h.midLine, ?_⟩
  · rw [← h.taken, ← h.shows.unread]
    exact h.text
  · intro op st' t len readLen chars len' readLen' chars' hstep hread hreturn
    exact lineEnd_of_return h hstep hread hreturn

/-- A typing error is corrected before the line is read. -/
theorem console_keeps_lines_corrected :
    ∃ st : ConsoleSystem Unit,
      run step (init 0) [.intr 97, .intr 98, .intr delete, .intr carriageReturn,
        .read () 5, .turn ()] = some st ∧
      st.taken = [97, newline] ∧ st.cons.unread = [] := by
  have hend : (run step (init 0 : ConsoleSystem Unit) [.intr 97, .intr 98,
      .intr delete, .intr carriageReturn, .read () 5, .turn ()]).map
        (fun st => st.taken) = some [97, newline] := by
    decide +kernel
  have hlines : (run LineSystem.step (LineSystem.init : LineSystem Unit) [.intr 97,
      .intr 98, .intr delete, .intr carriageReturn, .read () 5, .turn ()]).map
        (fun a => a.lines.unread) = some [] := by
    decide +kernel
  obtain ⟨st, hrun, htaken⟩ := Option.map_eq_some_iff.mp hend
  obtain ⟨_, ⟨a, hrun', _, _, hunread, _⟩, _⟩ := console_keeps_lines hrun
  rw [hrun', Option.map_some, Option.some_inj] at hlines
  exact ⟨st, hrun, htaken, hunread.symm.trans hlines⟩

end ConsoleSystem

end UnoOS.Dev
