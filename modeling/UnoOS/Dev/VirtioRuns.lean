import UnoOS.Dev.VirtioChains
import UnoOS.Lib.Window

namespace UnoOS.Dev

open UnoOS.Lib

/-! The requests on their way through the two rings.  The indices of the rings wrap
around, but no more than two requests can be on their way at once. -/

namespace Virtio

variable {π β : Type}

def queued (s : Virtio π β) : List Nat :=
  window num s.avail s.fetched (s.sent.length - s.fetched)

def posted (s : Virtio π β) : List Nat :=
  window num s.elems s.cleared.length (s.done.length - s.cleared.length)

def pending (s : Virtio π β) : List Nat := s.queued ++ s.working ++ s.posted

structure Counted (s : Virtio π β) : Prop where
  availIdx : s.availIdx.toNat = s.sent.length % 2 ^ 16
  lastAvail : s.lastAvail.toNat = s.fetched % 2 ^ 16
  usedId : s.usedId.toNat = s.done.length % 2 ^ 16
  usedIdx : s.usedIdx.toNat = s.cleared.length % num
  fetched : s.fetched ≤ s.sent.length
  cleared : s.cleared.length ≤ s.done.length

structure Tracked (s : Virtio π β) : Prop where
  nodup : s.pending.Nodup
  pending : ∀ h, h ∈ s.pending ↔
    ∃ p f, s.flight p = some f ∧ f.idx0 = h ∧ s.disk f.b = true
  numbered : ∀ p f, s.flight p = some f → s.sent[s.tag f.idx0]? = some f.b
  all : (s.done ++ (s.queued ++ s.working).map s.tag).Perm (List.range s.sent.length)
  order : s.done = s.cleared.map Prod.fst ++ s.posted.map s.tag
  cleared : ∀ x ∈ s.cleared, s.sent[x.1]? = some x.2
  finished : ∀ p f, s.flight p = some f → s.disk f.b = false →
    s.tag f.idx0 ∈ s.cleared.map Prod.fst
  returned : ∀ k ∈ s.returned, k ∈ s.cleared.map Prod.fst

theorem counted_init (blockNum : β → UInt32) : (init blockNum : Virtio π β).Counted := by
  constructor <;> simp [init]

theorem tracked_init (blockNum : β → UInt32) : (init blockNum : Virtio π β).Tracked := by
  have hflight : ∀ p, (init blockNum : Virtio π β).flight p = none := fun _ => rfl
  have hpending : (init blockNum : Virtio π β).pending = [] := rfl
  constructor
  · rw [hpending]
    exact List.nodup_nil
  · simp [hpending, hflight]
  · simp [hflight]
  · exact List.Perm.refl []
  · rfl
  · simp [init]
  · simp [hflight]
  · simp [init]

variable {s s' : Virtio π β} {p : π} {f : Flight β} {h : Nat}

def chainFrom (s : Virtio π β) (h : Nat) : List Nat :=
  [h, (s.desc h).next, (s.desc (s.desc h).next).next]

theorem chainFrom_eq (hlinked : Linked s f) : s.chainFrom f.idx0 = f.chain := by
  simp only [chainFrom, hlinked.next0, hlinked.next1, Flight.chain]

theorem Tracked.length_pending (ht : s.Tracked) (hp : s.Placed) :
    s.pending.length ≤ 2 := by
  have hchain : ∀ h ∈ s.pending, ∃ p f, s.flight p = some f ∧ f.idx0 = h ∧
      s.chainFrom h = f.chain := by
    intro h hh
    obtain ⟨p, f, hf, hidx, _⟩ := (ht.pending h).mp hh
    exact ⟨p, f, hf, hidx, hidx ▸ chainFrom_eq (hp.linked p f hf)⟩
  have hle : s.pending.length * 3 ≤ num := by
    apply length_mul_le_of_shares (fun h _ => rfl : ∀ h ∈ s.pending,
      (s.chainFrom h).length = 3)
    · rw [List.nodup_flatMap]
      constructor
      · intro h hh
        obtain ⟨p, f, hf, _, heq⟩ := hchain h hh
        rw [heq]
        exact hp.nodup p f hf
      · apply ht.nodup.imp_of_mem
        intro a b ha hb hne
        obtain ⟨p, f, hf, hfa, hca⟩ := hchain a ha
        obtain ⟨q, g, hg, hgb, hcb⟩ := hchain b hb
        intro i hi hi'
        rw [hca] at hi
        rw [hcb] at hi'
        have heq := hp.flight_eq hf hg hi hi'
        exact hne (by rw [← hfa, ← hgb, heq])
    · intro i hi
      obtain ⟨h, hh, hi⟩ := List.mem_flatMap.mp hi
      obtain ⟨p, f, hf, _, heq⟩ := hchain h hh
      rw [heq] at hi
      exact (hp.used p f hf i hi).1
  simp only [num] at hle
  omega

theorem Counted.calm (hc : s.Counted) (hcalm : Calm s s') : s'.Counted := by
  rw [hcalm.frame]
  exact { hc with }

theorem Tracked.calm (ht : s.Tracked) (hcalm : Calm s s') : s'.Tracked := by
  have hflight := hcalm.flight
  have hqueued : s'.queued = s.queued := by rw [hcalm.frame]; rfl
  have hposted : s'.posted = s.posted := by rw [hcalm.frame]; rfl
  have hpending : s'.pending = s.pending := by rw [hcalm.frame]; rfl
  have hdisk : s'.disk = s.disk := by rw [hcalm.frame]
  have hghost : s'.sent = s.sent ∧ s'.tag = s.tag ∧ s'.done = s.done ∧
      s'.cleared = s.cleared ∧ s'.returned = s.returned ∧ s'.working = s.working := by
    rw [hcalm.frame]
    exact ⟨rfl, rfl, rfl, rfl, rfl, rfl⟩
  obtain ⟨hsent, htag, hdone, hcleared, hreturned, hworking⟩ := hghost
  constructor
  · rw [hpending]
    exact ht.nodup
  · rw [hpending, hflight, hdisk]
    exact ht.pending
  · rw [hflight, hsent, htag]
    exact ht.numbered
  · rw [hdone, hqueued, hworking, htag, hsent]
    exact ht.all
  · rw [hdone, hcleared, hposted, htag]
    exact ht.order
  · rw [hcleared, hsent]
    exact ht.cleared
  · rw [hflight, hdisk, htag, hcleared]
    exact ht.finished
  · rw [hreturned, hcleared]
    exact ht.returned

/-- The handler compares the numbers of completions modulo the size of the ring. -/
theorem Counted.more_iff (hc : s.Counted) :
    s.More ↔ s.cleared.length % 8 ≠ s.done.length % 8 := by
  have height : (8 : UInt16).toNat = 8 := rfl
  simp only [More, ne_eq, ← UInt16.toNat_inj, UInt16.toNat_mod, height, hc.usedIdx,
    hc.usedId, num]
  rw [Nat.mod_mod, Nat.mod_mod_of_dvd _ (by decide : 8 ∣ 2 ^ 16)]

theorem toNat_succ {x : UInt16} {n : Nat} (hx : x.toNat = n % 2 ^ 16) :
    (x + 1).toNat = (n + 1) % 2 ^ 16 := by
  rw [UInt16.toNat_add, hx, Nat.mod_add_mod]
  rfl

theorem Counted.fetched_lt (hc : s.Counted) (hmore : s.lastAvail ≠ s.availIdx) :
    s.fetched < s.sent.length := by
  apply Nat.lt_of_le_of_ne hc.fetched
  intro heq
  apply hmore
  rw [← UInt16.toNat_inj, hc.lastAvail, hc.availIdx, heq]

theorem queued_succ (hc : s.Counted) (hmore : s.lastAvail ≠ s.availIdx) :
    s.queued = s.avail (s.lastAvail.toNat % num) ::
      window num s.avail (s.fetched + 1) (s.sent.length - (s.fetched + 1)) := by
  have hlt := hc.fetched_lt hmore
  have hlength : s.sent.length - s.fetched = s.sent.length - (s.fetched + 1) + 1 := by
    omega
  have hcell : s.lastAvail.toNat % num = s.fetched % num := by
    rw [hc.lastAvail, Nat.mod_mod_of_dvd _ (by decide : num ∣ 2 ^ 16)]
  rw [queued, hlength, window_succ, hcell]

theorem posted_succ (hc : s.Counted) (hmore : s.More) :
    s.posted = s.elems s.usedIdx.toNat ::
      window num s.elems (s.cleared.length + 1)
        (s.done.length - (s.cleared.length + 1)) := by
  have hlt : s.cleared.length < s.done.length := by
    apply Nat.lt_of_le_of_ne hc.cleared
    intro heq
    exact hc.more_iff.mp hmore (by rw [heq])
  have hlength : s.done.length - s.cleared.length =
      s.done.length - (s.cleared.length + 1) + 1 := by
    omega
  rw [posted, hlength, window_succ, hc.usedIdx]

theorem posted_nil (hc : s.Counted) (ht : s.Tracked) (hp : s.Placed) (hmore : ¬ s.More) :
    s.posted = [] := by
  have hlength := ht.length_pending hp
  have hposted : s.posted.length = s.done.length - s.cleared.length := by
    simp [posted]
  simp only [Virtio.pending, List.length_append] at hlength
  rw [hc.more_iff, not_not] at hmore
  apply List.eq_nil_of_length_eq_zero
  have hle := hc.cleared
  omega

/-- Steps of the device move the chains between the places where they wait. -/
theorem Tracked.device (ht : s.Tracked) (hperm : s'.pending.Perm s.pending)
    (hflight : s'.flight = s.flight) (hdisk : s'.disk = s.disk) (hsent : s'.sent = s.sent)
    (htag : s'.tag = s.tag) (hcleared : s'.cleared = s.cleared)
    (hreturned : s'.returned = s.returned)
    (hall : (s'.done ++ (s'.queued ++ s'.working).map s.tag).Perm
      (s.done ++ (s.queued ++ s.working).map s.tag))
    (horder : s'.done = s.cleared.map Prod.fst ++ s'.posted.map s.tag) : s'.Tracked := by
  constructor
  · exact hperm.nodup_iff.mpr ht.nodup
  · intro h
    rw [hperm.mem_iff, hflight, hdisk]
    exact ht.pending h
  · rw [hflight, hsent, htag]
    exact ht.numbered
  · rw [htag, hsent]
    exact hall.trans ht.all
  · rw [hcleared, htag]
    exact horder
  · rw [hcleared, hsent]
    exact ht.cleared
  · rw [hflight, hdisk, htag, hcleared]
    exact ht.finished
  · rw [hreturned, hcleared]
    exact ht.returned

theorem Tracked.fetchNext (ht : s.Tracked) (hc : s.Counted)
    (hmore : s.lastAvail ≠ s.availIdx) : s.fetchNext.Tracked := by
  have hsucc := queued_succ hc hmore
  have hmove : (s.fetchNext.queued ++ s.fetchNext.working).Perm (s.queued ++ s.working) := by
    rw [hsucc, List.cons_append]
    refine List.Perm.trans ?_ (List.perm_append_singleton _ _)
    rw [List.append_assoc]
    exact List.Perm.refl _
  apply ht.device (hmove.append_right s.posted) rfl rfl rfl rfl rfl rfl
  · exact (hmove.map s.tag).append_left s.done
  · exact ht.order

theorem Counted.fetchNext (hc : s.Counted) (hmore : s.lastAvail ≠ s.availIdx) :
    s.fetchNext.Counted :=
  { hc with
    lastAvail := toNat_succ hc.lastAvail
    fetched := hc.fetched_lt hmore }

/-- No cell that is still to be read is written again. -/
theorem posted_complete (hc : s.Counted) (hlength : s.posted.length < num) :
    (s.complete h).posted = s.posted ++ [h] := by
  have hcell : s.usedId.toNat % num = s.done.length % num := by
    rw [hc.usedId, Nat.mod_mod_of_dvd _ (by decide : num ∣ 2 ^ 16)]
  have hshort : s.done.length - s.cleared.length < num := by
    simpa [posted] using hlength
  simp only [posted, complete, List.length_append, List.length_singleton, hcell]
  rw [window_push_stop hc.cleared hshort, Function.update_self]
  intro i hne
  rw [Function.update_of_ne hne]

theorem Tracked.complete (ht : s.Tracked) (hc : s.Counted) (hp : s.Placed)
    (hworking : h ∈ s.working) : (s.complete h).Tracked := by
  have hlength := ht.length_pending hp
  have hposted : (s.complete h).posted = s.posted ++ [h] := by
    apply posted_complete hc
    simp only [Virtio.pending, List.length_append] at hlength
    simp only [num]
    omega
  have herase : (h :: s.working.erase h).Perm s.working :=
    (List.perm_cons_erase hworking).symm
  have hmove : ((s.complete h).queued ++ (s.complete h).working ++ [h]).Perm
      (s.queued ++ s.working) := by
    refine List.Perm.trans (List.perm_append_singleton h _) ?_
    exact List.perm_middle.symm.trans (herase.append_left s.queued)
  refine ht.device ?_ rfl rfl rfl rfl rfl rfl ?_ ?_
  · calc
      (s.complete h).pending = (s.complete h).queued ++ (s.complete h).working ++ [] ++
          (s.posted ++ [h]) := by rw [Virtio.pending, hposted, List.append_nil]
      _ |>.Perm (s.queued ++ s.working ++ s.posted) := by
        rw [List.append_nil]
        refine ((List.perm_append_singleton h s.posted).append_left _).trans ?_
        rw [List.append_cons]
        exact hmove.append_right s.posted
  · calc
      (s.complete h).done ++ ((s.complete h).queued ++ (s.complete h).working).map s.tag =
          s.done ++ s.tag h ::
            ((s.complete h).queued ++ (s.complete h).working).map s.tag := by
        simp [Virtio.complete]
      _ |>.Perm (s.done ++ (s.queued ++ s.working).map s.tag) := by
        apply List.Perm.append_left
        rw [← List.map_cons]
        exact ((List.perm_append_singleton h _).symm.trans hmove).map s.tag
  · rw [hposted, List.map_append, ← List.append_assoc, ← ht.order]
    rfl

theorem Counted.complete (hc : s.Counted) : (s.complete h).Counted :=
  { hc with
    usedId := by
      simp only [Virtio.complete, List.length_append, List.length_singleton]
      exact toNat_succ hc.usedId
    cleared := by
      simp only [Virtio.complete, List.length_append, List.length_singleton]
      exact Nat.le_succ_of_le hc.cleared }

theorem Tracked.next_posted (ht : s.Tracked) (hc : s.Counted) (hmore : s.More) :
    ∃ p f, s.flight p = some f ∧ f.idx0 = s.elems s.usedIdx.toNat ∧
      s.disk f.b = true := by
  apply (ht.pending _).mp
  rw [Virtio.pending, posted_succ hc hmore]
  simp

section

variable [DecidableEq β]

theorem queued_submit {write : Bool} (hc : s.Counted) (htaken : Taken f.chain s s')
    (hlength : s.queued.length < num) :
    (s'.submit f write).queued = s.queued ++ [f.idx0] := by
  have hcell : s.availIdx.toNat % num = s.sent.length % num := by
    rw [hc.availIdx, Nat.mod_mod_of_dvd _ (by decide : num ∣ 2 ^ 16)]
  have hshort : s.sent.length - s.fetched < num := by
    simpa [queued] using hlength
  rw [htaken.frame]
  simp only [queued, submit, List.length_append, List.length_singleton, hcell]
  rw [window_push_stop hc.fetched hshort, Function.update_self]
  intro i hne
  rw [Function.update_of_ne hne]

def clear (s : Virtio π β) (b : β) : Virtio π β :=
  ({ s with
    disk := Function.update s.disk b false
    usedIdx := (s.usedIdx + 1) % 8
    cleared := s.cleared ++ [(s.tag (s.elems s.usedIdx.toNat), b)] }).wakeupBuf b

theorem flight_clear (b : β) : (s.clear b).flight = s.flight := by
  funext p
  simp only [flight, clear, wakeupBuf]
  cases s.pc p with
  | sleepingBuf f =>
      simp only
      split <;> rfl
  | _ => rfl

theorem buffer_clear (b : β) (p : π) : ((s.clear b).pc p).buffer = (s.pc p).buffer := by
  simp only [clear, wakeupBuf]
  cases s.pc p with
  | sleepingBuf f =>
      simp only
      split <;> rfl
  | _ => rfl

theorem intrTurn_eq (hp : s.Placed) (hf : s.flight p = some f)
    (hidx : f.idx0 = s.elems s.usedIdx.toNat) : s.intrTurn = s.clear f.b := by
  obtain ⟨hb, hzero⟩ := hp.info p f hf
  rw [hidx] at hb hzero
  simp only [intrTurn, hzero, hb]
  rfl

theorem posted_clear (hc : s.Counted) (hmore : s.More) (b : β) :
    s.posted = s.elems s.usedIdx.toNat :: (s.clear b).posted := by
  rw [posted_succ hc hmore]
  simp only [posted, clear, wakeupBuf, List.length_append, List.length_singleton]

theorem Counted.clear (hc : s.Counted) (hmore : s.More) (b : β) : (s.clear b).Counted := by
  have hlt : s.cleared.length < s.done.length := by
    apply Nat.lt_of_le_of_ne hc.cleared
    intro heq
    exact hc.more_iff.mp hmore (by rw [heq])
  exact { hc with
    usedIdx := by
      have height : (8 : UInt16).toNat = 8 := rfl
      have hidx := hc.usedIdx
      simp only [Virtio.clear, wakeupBuf, List.length_append, List.length_singleton,
        UInt16.toNat_mod, UInt16.toNat_add, height]
      simp only [num] at hidx ⊢
      rw [hidx]
      change (s.cleared.length % 8 + 1) % 65536 % 8 = _
      omega
    cleared := by
      simp only [Virtio.clear, wakeupBuf, List.length_append, List.length_singleton]
      exact hlt }

theorem Tracked.clear (ht : s.Tracked) (hc : s.Counted) (hp : s.Placed) (hmore : s.More)
    (hf : s.flight p = some f) (hidx : f.idx0 = s.elems s.usedIdx.toNat) :
    (s.clear f.b).Tracked := by
  have hflight := flight_clear (s := s) f.b
  have hposted := posted_clear hc hmore f.b
  have hpending : s.pending = s.queued ++ s.working ++ f.idx0 :: (s.clear f.b).posted := by
    rw [Virtio.pending, hposted, hidx]
  have hperm : s.pending.Perm (f.idx0 :: (s.clear f.b).pending) := by
    rw [hpending]
    exact List.perm_middle
  have hnodup := hperm.nodup_iff.mp ht.nodup
  obtain ⟨hgone, hnodup⟩ := List.nodup_cons.mp hnodup
  constructor
  · exact hnodup
  · intro h
    have hmem := hperm.mem_iff (a := h)
    rw [ht.pending, List.mem_cons] at hmem
    rw [hflight]
    have hdisk : ∀ b, (s.clear f.b).disk b = if b = f.b then false else s.disk b :=
      fun b => Function.update_apply s.disk f.b false b
    simp only [hdisk]
    constructor
    · intro hh
      have hne : h ≠ f.idx0 := fun heq => hgone (heq ▸ hh)
      obtain ⟨q, g, hg, hgh, hd⟩ := hmem.mpr (Or.inr hh)
      refine ⟨q, g, hg, hgh, ?_⟩
      rw [if_neg, hd]
      intro hb
      exact hne (by rw [← hgh, hp.flight_of_buffer hg hf hb])
    · intro hold
      obtain ⟨q, g, hg, hgh, hd⟩ := hold
      split at hd
      · cases hd
      · rename_i hb
        rcases hmem.mp ⟨q, g, hg, hgh, hd⟩ with heq | hh
        · have hsame := hp.flight_eq hg hf g.mem_chain (hgh.trans heq ▸ f.mem_chain)
          exact absurd (by rw [hsame]) hb
        · exact hh
  · rw [hflight]
    exact ht.numbered
  · exact ht.all
  · change s.done = _
    rw [ht.order, hposted]
    simp [Virtio.clear, wakeupBuf]
  · intro x hx
    rcases List.mem_append.mp hx with hx | hx
    · exact ht.cleared x hx
    · rw [List.mem_singleton.mp hx, ← hidx]
      exact ht.numbered p f hf
  · rw [hflight]
    intro q g hg hd
    simp only [Virtio.clear, wakeupBuf, Function.update_apply, List.map_append,
      List.mem_append] at hd ⊢
    split at hd
    · rename_i hb
      rw [hp.flight_of_buffer hg hf hb, hidx]
      simp
    · exact Or.inl (ht.finished q g hg hd)
  · intro k hk
    have hold := ht.returned k hk
    simp only [Virtio.clear, wakeupBuf, List.map_append, List.mem_append]
    exact Or.inl hold

end

section

variable [DecidableEq π]

theorem Tracked.tearDown {lock : Option (DiskHolder π)} (ht : s.Tracked)
    (hf : s.flight p = some f) (hdisk : s.disk f.b = false)
    (hfreed : Freed f.chain { s with infoB := Function.update s.infoB f.idx0 none } s') :
    Tracked { s'.setPc p .outside with
      lock := lock, returned := s.returned ++ [s.tag f.idx0] } := by
  have hflight : ({ s'.setPc p .outside with
      lock := lock, returned := s.returned ++ [s.tag f.idx0] } : Virtio π β).flight =
      Function.update s.flight p none := by
    change (s'.setPc p .outside).flight = _
    rw [flight_setPc]
    congr 1
    funext q
    exact (hfreed.pc q).1
  have hold : ∀ q g, Function.update s.flight p none q = some g → s.flight q = some g := by
    intro q g hg
    rw [Function.update_apply] at hg
    grind
  rw [hfreed.frame] at hflight ⊢
  constructor
  · exact ht.nodup
  · intro h
    rw [hflight]
    refine (ht.pending h).trans ?_
    constructor
    · intro hpending
      obtain ⟨q, g, hg, hgh, hd⟩ := hpending
      refine ⟨q, g, ?_, hgh, hd⟩
      rw [Function.update_of_ne, hg]
      intro heq
      rw [heq, hf] at hg
      cases hg
      exact absurd hd (by simp [hdisk])
    · intro hpending
      obtain ⟨q, g, hg, hgh, hd⟩ := hpending
      exact ⟨q, g, hold q g hg, hgh, hd⟩
  · rw [hflight]
    exact fun q g hg => ht.numbered q g (hold q g hg)
  · exact ht.all
  · exact ht.order
  · exact ht.cleared
  · rw [hflight]
    exact fun q g hg hd => ht.finished q g (hold q g hg) hd
  · intro k hk
    rcases List.mem_append.mp hk with hk | hk
    · exact ht.returned k hk
    · rw [List.mem_singleton.mp hk]
      exact ht.finished p f hf hdisk

variable [DecidableEq β]

theorem Counted.submit {write : Bool} (hc : s.Counted) (htaken : Taken f.chain s s') :
    ((s'.submit f write).setPc p (.testing f)).Counted := by
  rw [htaken.frame]
  exact { hc with
    availIdx := by
      simp only [setPc, Virtio.submit, List.length_append, List.length_singleton]
      exact toNat_succ hc.availIdx
    fetched := by
      simp only [setPc, Virtio.submit, List.length_append, List.length_singleton]
      exact Nat.le_succ_of_le hc.fetched }

theorem perm_pending_submit {write : Bool} (htaken : Taken f.chain s s')
    (hqueued : ((s'.submit f write).setPc p (.testing f)).queued = s.queued ++ [f.idx0]) :
    ((s'.submit f write).setPc p (.testing f)).pending.Perm (f.idx0 :: s.pending) := by
  have hrest : ((s'.submit f write).setPc p (.testing f)).working = s.working ∧
      ((s'.submit f write).setPc p (.testing f)).posted = s.posted := by
    rw [htaken.frame]
    exact ⟨rfl, rfl⟩
  rw [Virtio.pending, hqueued, hrest.1, hrest.2, List.append_assoc, List.append_assoc,
    List.singleton_append, Virtio.pending, List.append_assoc]
  exact List.perm_middle

theorem Tracked.submit {write : Bool} (ht : s.Tracked) (hc : s.Counted) (hp : s.Placed)
    (hpc : s.pc p = .allocating f.b write) (htaken : Taken f.chain s s') :
    ((s'.submit f write).setPc p (.testing f)).Tracked := by
  have hlength := ht.length_pending hp
  have hqueued : ((s'.submit f write).setPc p (.testing f)).queued =
      s.queued ++ [f.idx0] := by
    change (s'.submit f write).queued = _
    apply queued_submit hc htaken
    simp only [Virtio.pending, List.length_append] at hlength
    simp only [num]
    omega
  have hflight : ((s'.submit f write).setPc p (.testing f)).flight =
      Function.update s.flight p (some f) := flight_submit htaken
  have hnone : s.flight p = none := by simp [flight, hpc, RwPc.flight]
  have hidx : ∀ q g, s.flight q = some g → g.idx0 ≠ f.idx0 :=
    fun q g hg => hp.idx0_ne htaken hg
  have hbuf : ∀ q g, s.flight q = some g → g.b ≠ f.b :=
    fun q g hg => hp.b_ne hpc hg
  have hnew : f.idx0 ∉ s.pending := by
    intro hmem
    obtain ⟨q, g, hg, hgh, _⟩ := (ht.pending _).mp hmem
    exact hidx q g hg hgh
  have hperm : ((s'.submit f write).setPc p (.testing f)).pending.Perm
      (f.idx0 :: s.pending) := perm_pending_submit htaken hqueued
  have htag : ∀ l : List Nat, f.idx0 ∉ l →
      l.map (Function.update s.tag f.idx0 s.sent.length) = l.map s.tag := by
    intro l hl
    apply List.map_congr_left
    intro i hi
    have hne : i ≠ f.idx0 := fun heq => hl (heq ▸ hi)
    rw [Function.update_of_ne hne]
  have hold : ∀ q g, Function.update s.flight p (some f) q = some g →
      q = p ∧ g = f ∨ s.flight q = some g := by
    intro q g hg
    rw [Function.update_apply] at hg
    grind
  have hparts := hnew
  simp only [Virtio.pending, List.mem_append, not_or] at hparts
  have hlater : ∀ (k : Nat) (b : β), s.sent[k]? = some b →
      (s.sent ++ [f.b])[k]? = some b := by
    intro k b hk
    obtain ⟨hlt, _⟩ := List.getElem?_eq_some_iff.mp hk
    rw [List.getElem?_append_left hlt, hk]
  rw [htaken.frame] at hqueued hflight hperm ⊢
  constructor
  · rw [hperm.nodup_iff, List.nodup_cons]
    exact ⟨hnew, ht.nodup⟩
  · intro h
    rw [hperm.mem_iff, List.mem_cons, ht.pending, hflight]
    simp only [setPc, Virtio.submit, Function.update_apply]
    constructor
    · intro hmem
      rcases hmem with heq | ⟨q, g, hg, hgh, hd⟩
      · exact ⟨p, f, by simp, heq.symm, by simp⟩
      · have hne : q ≠ p := by
          intro heq
          rw [heq, hnone] at hg
          cases hg
        exact ⟨q, g, by simpa [hne] using hg, hgh, by simp [hbuf q g hg, hd]⟩
    · intro hmem
      obtain ⟨q, g, hg, hgh, hd⟩ := hmem
      rw [← Function.update_apply] at hg
      rcases hold q g hg with ⟨_, rfl⟩ | hg
      · exact Or.inl hgh.symm
      · rw [if_neg (hbuf q g hg)] at hd
        exact Or.inr ⟨q, g, hg, hgh, hd⟩
  · rw [hflight]
    intro q g hg
    simp only [setPc, Virtio.submit]
    rcases hold q g hg with ⟨_, rfl⟩ | hg
    · simp
    · rw [Function.update_of_ne (hidx q g hg)]
      exact hlater _ _ (ht.numbered q g hg)
  · rw [hqueued]
    simp only [setPc, Virtio.submit, List.map_append, htag _ hparts.1.1, htag _ hparts.1.2,
      List.map_singleton, Function.update_self, List.length_append, List.length_singleton,
      List.range_succ]
    have hall := ht.all
    rw [List.map_append] at hall
    refine List.Perm.trans ?_ (hall.append_right [s.sent.length])
    simp only [List.append_assoc]
    apply List.Perm.append_left
    apply List.Perm.append_left
    exact List.perm_append_comm
  · change s.done = s.cleared.map Prod.fst ++
      s.posted.map (Function.update s.tag f.idx0 s.sent.length)
    rw [htag _ hparts.2]
    exact ht.order
  · exact fun x hx => hlater _ _ (ht.cleared x hx)
  · rw [hflight]
    intro q g hg hd
    simp only [setPc, Virtio.submit] at hd ⊢
    rcases hold q g hg with ⟨_, rfl⟩ | hg
    · simp at hd
    · rw [Function.update_of_ne (hbuf q g hg)] at hd
      rw [Function.update_of_ne (hidx q g hg)]
      exact ht.finished q g hg hd
  · exact ht.returned

end

end Virtio

end UnoOS.Dev
