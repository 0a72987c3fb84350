import UnoOS.Fs.BufCacheLaws
import UnoOS.Lib.Transition

namespace UnoOS.Fs

open UnoOS.Lib

/-! `buf_read` loads `head_buf.prev` before it acquires `lk_buf_cache`, so the
scan may start at a buffer that others have moved since. -/

/-- A process that got a buffer for a block number from `buf_read`. -/
structure BufHold (P : Type) where
  holder : P
  buf : BufId
  blockNum : UInt32
  deriving DecidableEq

structure StaleSystem (P : Type) where
  cache : BufCache
  /-- The start and the block number of the calls before their section. -/
  loaded : P → Option (BufPtr × UInt32)
  holds : List (BufHold P)

inductive StaleStep (P : Type) where
  | load (p : P) (n : UInt32)
  | locked (p : P)
  | release (hold : BufHold P)

namespace StaleSystem

variable {P : Type} [DecidableEq P]

def init : StaleSystem P where
  cache := BufCache.bufInit
  loaded := fun _ => none
  holds := []

def take (s : StaleSystem P) (p : P) (n : UInt32) (b : BufId)
    (c : BufCache) : StaleSystem P where
  cache := c
  loaded := Function.update s.loaded p none
  holds := ⟨p, b, n⟩ :: s.holds

def step (s : StaleSystem P) : StaleStep P → Option (StaleSystem P)
  | .load p n =>
      if s.loaded p = none ∧ n ≠ blockNumUnused then
        some { s with
          loaded := Function.update s.loaded p
            (some (s.cache.links.prev .head, n)) }
      else none
  | .locked p =>
      match s.loaded p with
      | none => none
      | some (start, n) =>
          match s.cache.lookup start n with
          | some (.hit (.buf b), c) | some (.miss (.buf b), c) =>
              some (s.take p n b c)
          -- `buf_read: no buf available`
          | _ => none
  | .release hold =>
      if hold ∈ s.holds then
        some { s with
          cache := s.cache.releaseRef (.buf hold.buf)
          holds := s.holds.erase hold }
      else none

/-- No block is cached twice and every holder's buffer still carries the block
it was asked for. -/
def Intact (s : StaleSystem P) : Prop :=
  (∀ a b : BufId, s.cache.blockNum (.buf a) = s.cache.blockNum (.buf b) →
    s.cache.blockNum (.buf a) ≠ blockNumUnused → a = b) ∧
  ∀ hold ∈ s.holds, s.cache.blockNum (.buf hold.buf) = hold.blockNum

def SafeStep (s : StaleSystem P) (op : StaleStep P) : Prop :=
  (∀ p start n node c, op = .locked p → s.loaded p = some (start, n) →
    s.cache.lookup start n = some (.miss node, c) → s.cache.bufRef node = 0) ∧
  ∀ s', s.step op = some s' → s'.Intact

/-- What a scan from `start` needs of the ring: the block is cached up to the
start, or it is not cached behind the buffer a miss takes, which is unused. -/
def StartGood (c : BufCache) (start : BufId) (n : UInt32) : Prop :=
  ∃ pre post, c.links.Ring .head ((pre ++ start :: post).map .buf) ∧
    ((∃ b ∈ pre ++ [start], c.blockNum (.buf b) = n) ∨
      (c.bufRef (.buf start) = 0 ∧ ∀ b ∈ post, c.blockNum (.buf b) ≠ n) ∨
      (0 < c.bufRef (.buf start) ∧ ∀ b rest, post = b :: rest →
        c.bufRef (.buf b) = 0 ∧ ∀ a ∈ rest, c.blockNum (.buf a) ≠ n))

/-- The start a process has loaded is still good when its section begins. -/
def StartsGood (s : StaleSystem P) (op : StaleStep P) : Prop :=
  ∀ p start n, op = .locked p → s.loaded p = some (.buf start, n) →
    StartGood s.cache start n

/-! How the section ends from a start anywhere in the ring. -/

section

variable {c : BufCache} {used free pre post : List BufId} {start : BufId}

theorem split_free (hwf : c.Wf used free)
    (hsplit : used ++ free = pre ++ start :: post)
    (href : c.bufRef (.buf start) = 0) :
    ∃ middle, pre = used ++ middle ∧ free = middle ++ start :: post := by
  rcases List.append_eq_append_iff.mp hsplit with
    ⟨middle, hpre, hfree⟩ | ⟨tail, hused, hpost⟩
  · exact ⟨middle, hpre, hfree⟩
  · cases tail with
    | nil => exact ⟨[], by simpa using hused.symm, by simpa using hpost.symm⟩
    | cons x tail =>
        have hx : start = x := (List.cons.inj hpost).1
        have hpos := hwf.used_ref start (by simp [hused, hx])
        omega

theorem split_used (hwf : c.Wf used free)
    (hsplit : used ++ free = pre ++ start :: post)
    (href : 0 < c.bufRef (.buf start)) :
    ∃ rest, used = pre ++ start :: rest ∧ post = rest ++ free := by
  have hstart : start ∉ free := by
    intro hmem
    rw [hwf.free_ref start hmem] at href
    exact absurd href (Nat.lt_irrefl 0)
  rcases List.append_eq_append_iff.mp hsplit with
    ⟨middle, _, hfree⟩ | ⟨tail, hused, hpost⟩
  · exact absurd (by simp [hfree]) hstart
  · cases tail with
    | nil =>
        have hfree : free = start :: post := by simpa using hpost.symm
        exact absurd (by simp [hfree]) hstart
    | cons x tail =>
        obtain ⟨rfl, hrest⟩ := List.cons.inj hpost
        exact ⟨tail, hused, hrest⟩

theorem locked_cases (hwf : c.Wf used free)
    (hsplit : used ++ free = pre ++ start :: post) (n : UInt32) :
    (∃ b ∈ pre ++ [start], c.blockNum (.buf b) = n ∧
        c.lookup (.buf start) n = some (.hit (.buf b), c.takeHit (.buf b))) ∨
      (∀ b ∈ pre ++ [start], c.blockNum (.buf b) ≠ n) ∧
        ((c.bufRef (.buf start) = 0 ∧ ∃ b rest, free = b :: rest ∧ b ∉ post ∧
            c.lookup (.buf start) n =
              some (.miss (.buf b), c.takeMiss n (.buf b))) ∨
          0 < c.bufRef (.buf start) ∧
            ((∃ b rest, post = b :: rest ∧ c.lookup (.buf start) n =
                some (.miss (.buf b), c.takeMiss n (.buf b))) ∨
              post = [] ∧
                c.lookup (.buf start) n = some (.exhausted, c))) := by
  have hring := hwf.ring
  have hnodup := hwf.nodup
  rcases Nat.eq_zero_or_pos (c.bufRef (.buf start)) with href | href
  · -- the scan runs back over the unused buffers to the last one in use
    obtain ⟨middle, hpre, hfree⟩ := split_free hwf hsplit href
    have hall : used ++ (middle ++ [start]) ++ post = used ++ free := by
      simp [hfree]
    have hfront : used ++ (middle ++ [start]) = pre ++ [start] := by
      simp [hpre]
    have hcases := BufCache.lookup_cases (c := c) used (middle ++ [start])
      post (by rwa [hall])
      (fun b hb => hwf.free_ref b (by
        rw [hfree]
        rcases List.mem_append.mp hb with hb | hb
        · simp [hb]
        · simp [List.mem_singleton.mp hb]))
      (fun b hb => hwf.used_ref b (List.mem_of_getLast? hb)) n
      (.buf start) (by simp)
    rw [hfront] at hcases
    rcases hcases with hhit | ⟨hnone, ⟨b, rest, hrest, hmiss⟩ | ⟨hrest, _⟩⟩
    · exact .inl hhit
    · refine .inr ⟨hnone, .inl ⟨href, b, rest, by simpa [hfree] using hrest,
        ?_, hmiss⟩⟩
      intro hb
      have hmem : b ∈ middle ++ [start] := by
        cases middle with
        | nil => simp_all
        | cons x middle => simp_all
      rw [← hall] at hnodup
      exact (List.nodup_append.mp hnodup).2.2 b (by simp [hmem]) b hb rfl
    · simp at hrest
  · -- the scan stops at once
    have hall : pre ++ [start] ++ [] ++ post = used ++ free := by
      simp [hsplit]
    have hcases := BufCache.lookup_cases (c := c) (pre ++ [start]) [] post
      (by rwa [hall]) (by simp)
      (by
        intro b hb
        rw [List.getLast?_concat, Option.mem_some_iff] at hb
        rwa [← hb]) n
      (.buf start) (by simp)
    rw [List.append_nil, List.nil_append] at hcases
    rcases hcases with hhit | ⟨hnone, hrest⟩
    · exact .inl hhit
    · exact .inr ⟨hnone, .inr ⟨href, hrest⟩⟩

/-- From a good start a miss takes the first unused buffer, and no other buffer
carries the block. -/
theorem miss_of_good (hwf : c.Wf used free) {n : UInt32}
    (hgood : StartGood c start n) {node : BufPtr} {c' : BufCache}
    (hmiss : c.lookup (.buf start) n = some (.miss node, c')) :
    ∃ b rest, node = .buf b ∧ free = b :: rest ∧
      c' = c.takeMiss n (.buf b) ∧
      ∀ a, a ≠ b → c.blockNum (.buf a) ≠ n := by
  obtain ⟨pre, post, hring, hcond⟩ := hgood
  have hsplit : used ++ free = pre ++ start :: post :=
    List.map_injective_iff.mpr BufCache.buf_injective
      (hwf.ring.unique hring)
  have hmem : ∀ a, a ∈ pre ++ [start] ∨ a ∈ post := by
    intro a
    have ha := hwf.all a
    rw [hsplit] at ha
    simpa [or_assoc] using ha
  rcases locked_cases hwf hsplit n with
    ⟨b, hb, hlabel, hhit⟩ | ⟨hnone, hrest⟩
  · rw [hhit] at hmiss
    cases hmiss
  · -- the block is not cached up to the start
    have hcond := hcond.resolve_left fun ⟨b, hb, hlabel⟩ => hnone b hb hlabel
    rcases hrest with ⟨href, b, rest, hfree, hb, hlookup⟩ |
      ⟨href, ⟨b, rest, hpost, hlookup⟩ | ⟨_, hlookup⟩⟩
    · rw [hlookup] at hmiss
      cases hmiss
      have hpost : ∀ a ∈ post, c.blockNum (.buf a) ≠ n := by
        rcases hcond with hcond | hcond
        · exact hcond.2
        · omega
      refine ⟨b, rest, rfl, hfree, rfl, ?_⟩
      intro a _
      rcases hmem a with ha | ha
      · exact hnone a ha
      · exact hpost a ha
    · rw [hlookup] at hmiss
      cases hmiss
      have hpost' : c.bufRef (.buf b) = 0 ∧
          ∀ a ∈ rest, c.blockNum (.buf a) ≠ n := by
        rcases hcond with hcond | hcond
        · omega
        · exact hcond.2 b rest hpost
      -- the buffer behind the start is unused, so it is the first such one
      obtain ⟨tail, hused, htail⟩ := split_used hwf hsplit href
      have hfree : free = b :: rest := by
        cases tail with
        | nil => simpa [hpost] using htail.symm
        | cons x tail =>
            have hx : b = x := by
              rw [hpost] at htail
              exact (List.cons.inj htail).1
            have hpos := hwf.used_ref b (by simp [hused, hx])
            omega
      refine ⟨b, rest, rfl, hfree, rfl, ?_⟩
      intro a hab
      rcases hmem a with ha | ha
      · exact hnone a ha
      · rw [hpost] at ha
        exact hpost'.2 a (by simpa [hab] using ha)
    · rw [hlookup] at hmiss
      cases hmiss

end

/-! The invariant of the runs whose sections start well. -/

structure Sound (s : StaleSystem P) : Prop where
  wf : ∃ used free, s.cache.Wf used free
  count : ∀ b, s.cache.bufRef (.buf b) = s.holds.countP (·.buf = b)
  labels : ∀ hold ∈ s.holds,
    s.cache.blockNum (.buf hold.buf) = hold.blockNum
  starts : ∀ p start n, s.loaded p = some (start, n) →
    (∃ b, start = .buf b) ∧ n ≠ blockNumUnused

variable {s : StaleSystem P}

omit [DecidableEq P] in
theorem sound_init : (init : StaleSystem P).Sound := by
  refine ⟨⟨_, _, BufCache.wf_bufInit⟩, ?_, by simp [init], ?_⟩
  · intro b
    exact BufCache.wf_bufInit.free_ref b (by simp)
  · intro p start n hloaded
    cases hloaded

theorem Sound.load (h : s.Sound) {p : P} {n : UInt32}
    (hn : n ≠ blockNumUnused) :
    Sound { s with
      loaded := Function.update s.loaded p
        (some (s.cache.links.prev .head, n)) } := by
  refine ⟨h.wf, h.count, h.labels, ?_⟩
  intro q start m hloaded
  by_cases hq : q = p
  · simp only [hq, Function.update_self, Option.some.injEq,
      Prod.mk.injEq] at hloaded
    obtain ⟨rfl, rfl⟩ := hloaded
    obtain ⟨used, free, hwf⟩ := h.wf
    -- the ring is not empty: its last node is a buffer
    have hlast := Links.prev_mem hwf.ring.path
    rcases List.mem_cons.mp hlast with hhead | hmem
    · have hinverse := (hwf.ring.inverse (p := .head) (by simp)).2
      rw [hhead] at hinverse
      have hnil : used ++ free = [] := by
        have hpath := hwf.ring.path
        cases hlist : used ++ free with
        | nil => rfl
        | cons b l =>
            rw [hlist] at hpath
            have hb : BufPtr.head = .buf b := hinverse.symm.trans hpath.1
            cases hb
      exact absurd (hwf.all 0) (by simp [hnil])
    · obtain ⟨b, _, hb⟩ := List.mem_map.mp hmem
      exact ⟨⟨b, hb.symm⟩, hn⟩
  · simp only [Function.update_of_ne hq] at hloaded
    exact h.starts q start m hloaded

theorem Sound.starts_take (h : s.Sound) {p q : P} {n m : UInt32} {b : BufId}
    {c : BufCache} {start : BufPtr}
    (hloaded : (s.take p n b c).loaded q = some (start, m)) :
    (∃ b, start = .buf b) ∧ m ≠ blockNumUnused := by
  by_cases hq : q = p
  · simp [take, hq] at hloaded
  · simp only [take, Function.update_of_ne hq] at hloaded
    exact h.starts q start m hloaded

theorem Sound.hit (h : s.Sound) (p : P) {n : UInt32} {b : BufId}
    (hlabel : s.cache.blockNum (.buf b) = n) :
    (s.take p n b (s.cache.takeHit (.buf b))).Sound := by
  obtain ⟨used, free, hwf⟩ := h.wf
  refine ⟨⟨_, _, hwf.takeHit b⟩, ?_, ?_, fun _ _ _ => h.starts_take⟩
  · intro a
    have hcount := h.count a
    by_cases hab : a = b
    · subst hab
      simp [take, BufCache.takeHit, BufCache.insertHead, hcount]
    · have hba : b ≠ a := Ne.symm hab
      simpa [take, BufCache.takeHit, BufCache.insertHead, hab, hba]
        using hcount
  · intro hold hmem
    rcases List.mem_cons.mp hmem with rfl | hmem
    · exact hlabel
    · exact h.labels hold hmem

theorem Sound.miss (h : s.Sound) (p : P) {n : UInt32} {b : BufId}
    {used free : List BufId} (hwf : s.cache.Wf used (b :: free))
    (hfresh : ∀ a, a ≠ b → s.cache.blockNum (.buf a) ≠ n) :
    (s.take p n b (s.cache.takeMiss n (.buf b))).Sound := by
  have href := hwf.free_ref b (by simp)
  have hnobody : s.holds.countP (·.buf = b) = 0 := by rw [← h.count, href]
  refine ⟨⟨_, _, hwf.takeMiss hfresh⟩, ?_, ?_, fun _ _ _ => h.starts_take⟩
  · intro a
    have hcount := h.count a
    by_cases hab : a = b
    · subst hab
      simp [take, BufCache.takeMiss, hnobody]
    · have hba : b ≠ a := Ne.symm hab
      simpa [take, BufCache.takeMiss, hab, hba] using hcount
  · intro hold hmem
    rcases List.mem_cons.mp hmem with rfl | hmem
    · simp [take, BufCache.takeMiss]
    · have hne : hold.buf ≠ b := by
        simpa using List.countP_eq_zero.mp hnobody hold hmem
      simpa [take, BufCache.takeMiss, hne] using h.labels hold hmem

theorem Sound.release (h : s.Sound) {hold : BufHold P}
    (hmem : hold ∈ s.holds) :
    Sound { s with
      cache := s.cache.releaseRef (.buf hold.buf)
      holds := s.holds.erase hold } := by
  obtain ⟨used, free, hwf⟩ := h.wf
  have hpos : 0 < s.cache.bufRef (.buf hold.buf) := by
    rw [h.count]
    exact List.countP_pos_iff.mpr ⟨hold, hmem, by simp⟩
  refine ⟨hwf.releaseRef hpos, ?_, ?_, h.starts⟩
  · intro a
    have hcount := h.count a
    simp only
    rw [BufCache.releaseRef_bufRef, List.countP_erase, ← hcount]
    by_cases hab : a = hold.buf
    · simp [hab, hmem]
    · have hba : hold.buf ≠ a := Ne.symm hab
      simp [hab, hba]
  · intro hold' hmem'
    simp only
    rw [(s.cache.releaseRef_frame _).1]
    exact h.labels hold' (List.mem_of_mem_erase hmem')

theorem Sound.locked_miss (h : s.Sound) (p : P) {used free : List BufId}
    (hwf : s.cache.Wf used free) {start b : BufId} {n : UInt32}
    (hgood : StartGood s.cache start n)
    (hmiss : s.cache.lookup (.buf start) n =
      some (.miss (.buf b), s.cache.takeMiss n (.buf b))) :
    (s.take p n b (s.cache.takeMiss n (.buf b))).Sound := by
  obtain ⟨b', rest, hnode, rfl, _, hfresh⟩ := miss_of_good hwf hgood hmiss
  cases hnode
  exact h.miss p hwf hfresh

theorem Sound.locked (h : s.Sound) {p : P} {s' : StaleSystem P}
    (hgood : s.StartsGood (.locked p))
    (hstep : s.step (.locked p) = some s') : s'.Sound := by
  simp only [StaleSystem.step] at hstep
  cases hloaded : s.loaded p with
  | none =>
      rw [hloaded] at hstep
      cases hstep
  | some call =>
      obtain ⟨node, n⟩ := call
      obtain ⟨⟨start, rfl⟩, _⟩ := h.starts p node n hloaded
      have hstart := hgood p start n rfl hloaded
      obtain ⟨used, free, hwf⟩ := h.wf
      obtain ⟨pre, post, hsplit⟩ := List.append_of_mem (hwf.all start)
      rw [hloaded] at hstep
      rcases locked_cases hwf hsplit n with ⟨b, _, hlabel, hhit⟩ |
        ⟨_, ⟨_, b, rest, _, _, hmiss⟩ |
          ⟨_, ⟨b, rest, _, hmiss⟩ | ⟨_, hfull⟩⟩⟩
      · simp only [hhit] at hstep
        cases hstep
        exact h.hit p hlabel
      · simp only [hmiss] at hstep
        cases hstep
        exact h.locked_miss p hwf hstart hmiss
      · simp only [hmiss] at hstep
        cases hstep
        exact h.locked_miss p hwf hstart hmiss
      · simp only [hfull] at hstep
        cases hstep

theorem Sound.step (h : s.Sound) {op : StaleStep P} {s' : StaleSystem P}
    (hgood : s.StartsGood op) (hstep : s.step op = some s') : s'.Sound := by
  cases op with
  | load p n =>
      simp only [StaleSystem.step] at hstep
      split at hstep
      · next hguard =>
        cases hstep
        exact h.load hguard.2
      · cases hstep
  | locked p => exact h.locked hgood hstep
  | release hold =>
      simp only [StaleSystem.step] at hstep
      split at hstep
      · next hmem =>
        cases hstep
        exact h.release hmem
      · cases hstep

omit [DecidableEq P] in
theorem Sound.intact (h : s.Sound) : s.Intact :=
  ⟨h.wf.choose_spec.choose_spec.labels, h.labels⟩

theorem Sound.safe_of_good (h : s.Sound) {op : StaleStep P}
    (hgood : s.StartsGood op) : s.SafeStep op := by
  refine ⟨?_, fun s' hstep => (h.step hgood hstep).intact⟩
  intro p node n node' c hop hloaded hmiss
  obtain ⟨⟨start, rfl⟩, _⟩ := h.starts p node n hloaded
  obtain ⟨used, free, hwf⟩ := h.wf
  obtain ⟨b, rest, rfl, hfree, _, _⟩ :=
    miss_of_good hwf (hgood p start n hop hloaded) hmiss
  exact hwf.free_ref b (by simp [hfree])

/-- A miss that finds the block cached behind what it scanned caches it
twice. -/
theorem Sound.not_cached_of_safe (h : s.Sound) {p : P} {start a b : BufId}
    {n : UInt32} (hsafe : s.SafeStep (.locked p))
    (hloaded : s.loaded p = some (.buf start, n))
    (hmiss : s.cache.lookup (.buf start) n =
      some (.miss (.buf b), s.cache.takeMiss n (.buf b)))
    (hab : a ≠ b) : s.cache.blockNum (.buf a) ≠ n := by
  intro hlabel
  have hstep : s.step (.locked p) =
      some (s.take p n b (s.cache.takeMiss n (.buf b))) := by
    simp only [StaleSystem.step, hloaded, hmiss]
  have honce := (hsafe.2 _ hstep).1 a b
  simp only [take, BufCache.takeMiss, Function.update_self, ne_eq,
    BufPtr.buf.injEq, hab, not_false_eq_true, Function.update_of_ne]
    at honce
  refine honce hlabel ?_
  rw [hlabel]
  exact (h.starts p _ n hloaded).2

theorem Sound.good_of_safe (h : s.Sound) {op : StaleStep P}
    (hsafe : s.SafeStep op) : s.StartsGood op := by
  rintro p start n rfl hloaded
  obtain ⟨used, free, hwf⟩ := h.wf
  obtain ⟨pre, post, hsplit⟩ := List.append_of_mem (hwf.all start)
  have hnodup := hwf.nodup
  refine ⟨pre, post, by rw [← hsplit]; exact hwf.ring, ?_⟩
  rcases locked_cases hwf hsplit n with ⟨b, hb, hlabel, _⟩ |
    ⟨_, ⟨href, b, rest, _, hb, hmiss⟩ |
      ⟨href, ⟨b, rest, hpost, hmiss⟩ | ⟨hpost, _⟩⟩⟩
  · exact .inl ⟨b, hb, hlabel⟩
  · refine .inr (.inl ⟨href, ?_⟩)
    intro a ha
    exact h.not_cached_of_safe hsafe hloaded hmiss fun hab => hb (hab ▸ ha)
  · refine .inr (.inr ⟨href, ?_⟩)
    intro b' rest' hpost'
    rw [hpost] at hpost'
    obtain ⟨rfl, rfl⟩ := List.cons.inj hpost'
    refine ⟨hsafe.1 p _ n _ _ rfl hloaded hmiss, ?_⟩
    intro a ha
    refine h.not_cached_of_safe hsafe hloaded hmiss ?_
    rintro rfl
    rw [hsplit, hpost] at hnodup
    have htail := (List.nodup_cons.mp (List.nodup_append.mp hnodup).2.1).2
    exact (List.nodup_cons.mp htail).1 ha
  · refine .inr (.inr ⟨href, ?_⟩)
    intro b rest hpost'
    rw [hpost] at hpost'
    cases hpost'

/-- The interleavings in which no buffer in use is recycled and no block is
cached twice are those in which every section still starts well. -/
theorem safe_iff_starts_good (ops : List (StaleStep P)) :
    Along step SafeStep init ops ↔
      Along step StartsGood (init : StaleSystem P) ops := by
  constructor
  · exact along_of_along (I := Sound)
      (fun _ _ _ h hsafe hstep => h.step (h.good_of_safe hsafe) hstep)
      (fun _ _ h hsafe => h.good_of_safe hsafe) sound_init
  · exact along_of_along (I := Sound)
      (fun _ _ _ h hgood hstep => h.step hgood hstep)
      (fun _ _ h hgood => h.safe_of_good hgood) sound_init

/-! Two interleavings of two processes in which a section starts badly. -/

/-- The second process caches block 5 behind the start of the first. -/
def cachedBehindStart : List (StaleStep Bool) :=
  [.load false 5, .load true 5, .locked true, .release ⟨true, 63, 5⟩,
    .locked false]

/-- The start of the first process becomes the first buffer of the ring, with
another buffer in use behind it. -/
def startInUse : List (StaleStep Bool) :=
  [.load true 5, .locked true, .release ⟨true, 63, 5⟩, .load false 7,
    .load true 5, .locked true, .load true 6, .locked true, .locked false]

theorem stale_start_recycles :
    (run step (init : StaleSystem Bool) cachedBehindStart).map (fun s =>
        (s.cache.blockNum (.buf 62), s.cache.blockNum (.buf 63))) =
      some (5, 5) ∧
    (run step (init : StaleSystem Bool) startInUse).map (fun s =>
        (s.holds, s.cache.blockNum (.buf 62))) =
      some ([⟨false, 62, 7⟩, ⟨true, 62, 6⟩, ⟨true, 63, 5⟩], 7) ∧
    ¬ ∀ ops s, run step (init : StaleSystem Bool) ops = some s →
      s.Intact := by
  have hbehind : (run step (init : StaleSystem Bool) cachedBehindStart).map
      (fun s => (s.cache.blockNum (.buf 62), s.cache.blockNum (.buf 63))) =
      some (5, 5) := by decide +kernel
  refine ⟨hbehind, by decide +kernel, ?_⟩
  intro hintact
  obtain ⟨s, hrun, hlabels⟩ := Option.map_eq_some_iff.mp hbehind
  simp only [Prod.mk.injEq] at hlabels
  have hsame := (hintact _ s hrun).1 62 63 (by rw [hlabels.1, hlabels.2])
    (by rw [hlabels.1]; decide)
  exact absurd hsame (by decide)

end StaleSystem

end UnoOS.Fs
