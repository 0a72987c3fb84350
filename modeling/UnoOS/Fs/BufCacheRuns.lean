import UnoOS.Fs.BufCacheLaws
import UnoOS.Lib.Transition

namespace UnoOS.Fs

open UnoOS.Lib

/-! Runs of whole `buf_read`, `buf_write` and `buf_release` calls. -/

structure CacheRun where
  cache : BufCache
  disk : Disk
  /-- The data was changed and not yet written. -/
  dirty : BufId → Bool
  /-- When the buffer was last released, counted from 1; 0 before that. -/
  released : BufId → Nat
  releases : Nat

inductive CacheOp where
  | read (n : UInt32)
  /-- A holder stores into `data`. -/
  | store (b : BufId) (block : Block)
  | write (b : BufId)
  | release (b : BufId)

namespace CacheRun

def init (disk : Disk) : CacheRun where
  cache := BufCache.bufInit
  disk := disk
  dirty := fun _ => false
  released := fun _ => 0
  releases := 0

/-- `buf_read`: the section under `lk_buf_cache`, then `virtio_disk_rw` on a
miss. -/
def read (s : CacheRun) (n : UInt32) : Option (BufCache.Lookup × CacheRun) :=
  match s.cache.lookup (s.cache.links.prev .head) n with
  | none => none
  | some (.hit node, c) => some (.hit node, { s with cache := c })
  | some (.miss node, c) =>
      some (.miss node, { s with
        cache := { c with data := Function.update c.data node (s.disk n) } })
  | some (.exhausted, c) => some (.exhausted, { s with cache := c })

/-- `buf_write` -/
def write (s : CacheRun) (b : BufId) : CacheRun :=
  { s with
    disk := Function.update s.disk (s.cache.blockNum (.buf b))
      (s.cache.data (.buf b))
    dirty := Function.update s.dirty b false }

def store (s : CacheRun) (b : BufId) (block : Block) : CacheRun :=
  { s with
    cache := { s.cache with data := Function.update s.cache.data (.buf b) block }
    dirty := Function.update s.dirty b true }

/-- `buf_release` -/
def release (s : CacheRun) (b : BufId) : CacheRun :=
  { s with
    cache := s.cache.releaseRef (.buf b)
    released := Function.update s.released b (s.releases + 1)
    releases := s.releases + 1 }

/-- One call.  Only held buffers are stored to, written and released, and a
holder that stored calls `buf_write` before it releases.  `buf_read` without a
free buffer panics. -/
def step (s : CacheRun) : CacheOp → Option CacheRun
  | .read n =>
      if n = blockNumUnused then none
      else
        match s.read n with
        | some (.hit _, s') | some (.miss _, s') => some s'
        | some (.exhausted, _) | none => none
  | .store b block =>
      if 0 < s.cache.bufRef (.buf b) then some (s.store b block) else none
  | .write b => if 0 < s.cache.bufRef (.buf b) then some (s.write b) else none
  | .release b =>
      if 0 < s.cache.bufRef (.buf b) ∧ s.dirty b = false then some (s.release b)
      else none

structure Wf (s : CacheRun) (used free : List BufId) : Prop where
  cache : s.cache.Wf used free
  clean : ∀ b, s.cache.blockNum (.buf b) ≠ blockNumUnused →
    s.dirty b = false → s.cache.data (.buf b) = s.disk (s.cache.blockNum (.buf b))
  labelled : ∀ b ∈ used, s.cache.blockNum (.buf b) ≠ blockNumUnused
  dirty_used : ∀ b ∈ free, s.dirty b = false
  aged : free.Pairwise fun a b => s.released a ≤ s.released b
  past : ∀ b, s.released b ≤ s.releases
  never : ∀ b ∈ free,
    s.released b = 0 ↔ s.cache.blockNum (.buf b) = blockNumUnused

variable {s : CacheRun} {used free : List BufId}

theorem wf_init (disk : Disk) :
    (init disk).Wf [] (List.finRange nBlockBuf).reverse := by
  have hlabel : ∀ b : BufId, BufCache.bufInit.blockNum (.buf b) =
      blockNumUnused := by decide +kernel
  refine ⟨BufCache.wf_bufInit, ?_, by simp, fun _ _ => rfl, ?_, fun _ => le_rfl, ?_⟩
  · intro b hused
    exact absurd (hlabel b) hused
  · exact List.Pairwise.imp (fun _ => le_rfl) (List.nodup_reverse.mpr
      (List.nodup_finRange _))
  · intro b _
    exact ⟨fun _ => hlabel b, fun _ => rfl⟩

theorem Wf.hit (h : s.Wf used free) {b : BufId}
    (hlabel : s.cache.blockNum (.buf b) ≠ blockNumUnused) :
    Wf { s with cache := s.cache.takeHit (.buf b) }
      (b :: used.erase b) (free.erase b) := by
  have hsub : (free.erase b).Sublist free := List.erase_sublist
  refine ⟨h.cache.takeHit b, h.clean, ?_, ?_, h.aged.sublist hsub, h.past, ?_⟩
  · intro a ha
    rcases List.mem_cons.mp ha with rfl | ha
    · exact hlabel
    · exact h.labelled a (List.mem_of_mem_erase ha)
  · intro a ha
    exact h.dirty_used a (hsub.subset ha)
  · intro a ha
    exact h.never a (hsub.subset ha)

theorem Wf.miss {b : BufId} (h : s.Wf used (b :: free)) {n : UInt32}
    (hn : n ≠ blockNumUnused) (hfresh : ∀ a, s.cache.blockNum (.buf a) ≠ n) :
    let c := s.cache.takeMiss n (.buf b)
    Wf { s with cache := { c with
      data := Function.update c.data (.buf b) (s.disk n) } }
      (used ++ [b]) free := by
  have hcache := h.cache.takeMiss (n := n) fun a _ => hfresh a
  have hb : b ∉ free :=
    (List.nodup_cons.mp (List.nodup_append.mp h.cache.nodup).2.1).1
  refine ⟨⟨hcache.ring, hcache.all, hcache.used_ref, hcache.free_ref,
    hcache.labels⟩, ?_, ?_, ?_, (List.pairwise_cons.mp h.aged).2, h.past, ?_⟩
  · intro a hlabel hclean
    by_cases hab : a = b
    · simp [BufCache.takeMiss, hab]
    · simp only [BufCache.takeMiss, ne_eq, BufPtr.buf.injEq, hab,
        not_false_eq_true, Function.update_of_ne] at hlabel ⊢
      exact h.clean a hlabel hclean
  · intro a ha
    by_cases hab : a = b
    · simpa [BufCache.takeMiss, hab] using hn
    · have ha : a ∈ used := by simpa [hab] using ha
      simpa [BufCache.takeMiss, hab] using h.labelled a ha
  · intro a ha
    exact h.dirty_used a (by simp [ha])
  · intro a ha
    have hab : a ≠ b := fun heq => hb (heq ▸ ha)
    simpa [BufCache.takeMiss, hab] using h.never a (by simp [ha])

theorem Wf.store (h : s.Wf used free) {b : BufId}
    (href : 0 < s.cache.bufRef (.buf b)) (block : Block) :
    (s.store b block).Wf used free := by
  refine ⟨⟨h.cache.ring, h.cache.all, h.cache.used_ref, h.cache.free_ref,
    h.cache.labels⟩, ?_, h.labelled, ?_, h.aged, h.past, h.never⟩
  · intro a hlabel hclean
    by_cases hab : a = b
    · simp [CacheRun.store, hab] at hclean
    · simp only [CacheRun.store, ne_eq, hab, not_false_eq_true,
        Function.update_of_ne, BufPtr.buf.injEq] at hclean hlabel ⊢
      exact h.clean a hlabel hclean
  · intro a ha
    have hab : a ≠ b := by
      rintro rfl
      rw [h.cache.free_ref a ha] at href
      exact absurd href (Nat.lt_irrefl 0)
    simpa [CacheRun.store, hab] using h.dirty_used a ha

theorem Wf.write (h : s.Wf used free) {b : BufId}
    (href : 0 < s.cache.bufRef (.buf b)) : (s.write b).Wf used free := by
  have hlabel := h.labelled b (h.cache.mem_used href)
  refine ⟨h.cache, ?_, h.labelled, ?_, h.aged, h.past, h.never⟩
  · intro a hused hclean
    by_cases hab : a = b
    · simp [CacheRun.write, hab]
    · -- another buffer carries another block
      have hne : s.cache.blockNum (.buf a) ≠ s.cache.blockNum (.buf b) := by
        intro heq
        exact hab (h.cache.labels a b heq hused)
      simp only [CacheRun.write, ne_eq, hab, not_false_eq_true,
        Function.update_of_ne, hne] at hclean hused ⊢
      exact h.clean a hused hclean
  · intro a ha
    by_cases hab : a = b
    · simp [CacheRun.write, hab]
    · simpa [CacheRun.write, hab] using h.dirty_used a ha

theorem Wf.release (h : s.Wf used free) {b : BufId}
    (href : 0 < s.cache.bufRef (.buf b)) (hclean : s.dirty b = false) :
    ∃ used' free', (s.release b).Wf used' free' := by
  have hb := h.cache.mem_used href
  have hout : b ∉ free := by
    intro hb'
    rw [h.cache.free_ref b hb'] at href
    exact absurd href (Nat.lt_irrefl 0)
  obtain ⟨hblockNum, hdata⟩ := s.cache.releaseRef_frame (.buf b)
  have hpast : ∀ a, (s.release b).released a ≤ (s.release b).releases := by
    intro a
    by_cases hab : a = b
    · simp [CacheRun.release, hab]
    · simpa [CacheRun.release, hab] using Nat.le_succ_of_le (h.past a)
  have hclean' : ∀ a, (s.release b).cache.blockNum (.buf a) ≠ blockNumUnused →
      (s.release b).dirty a = false → (s.release b).cache.data (.buf a) =
        (s.release b).disk ((s.release b).cache.blockNum (.buf a)) := by
    simp only [CacheRun.release, hblockNum, hdata]
    exact h.clean
  have haged : free.Pairwise fun a a' =>
      (s.release b).released a ≤ (s.release b).released a' := by
    refine h.aged.imp_of_mem ?_
    intro a a' ha ha' hle
    have hab : a ≠ b := fun heq => hout (heq ▸ ha)
    have hab' : a' ≠ b := fun heq => hout (heq ▸ ha')
    simpa [CacheRun.release, hab, hab'] using hle
  have hnever : ∀ a ∈ free, (s.release b).released a = 0 ↔
      (s.release b).cache.blockNum (.buf a) = blockNumUnused := by
    intro a ha
    have hab : a ≠ b := fun heq => hout (heq ▸ ha)
    simpa [CacheRun.release, hblockNum, hab] using h.never a ha
  have hlabelled : ∀ a ∈ used,
      (s.release b).cache.blockNum (.buf a) ≠ blockNumUnused := by
    simp only [CacheRun.release, hblockNum]
    exact h.labelled
  by_cases hone : s.cache.bufRef (.buf b) = 1
  · -- the last holder: the buffer becomes the youngest unused one
    refine ⟨used.erase b, free ++ [b], h.cache.releaseRef_last hone, hclean',
      ?_, ?_, ?_, hpast, ?_⟩
    · intro a ha
      exact hlabelled a (List.mem_of_mem_erase ha)
    · intro a ha
      rcases List.mem_append.mp ha with ha | ha
      · exact h.dirty_used a ha
      · rw [List.mem_singleton.mp ha]
        exact hclean
    · refine List.pairwise_append.mpr ⟨haged, by simp, ?_⟩
      intro a _ a' ha'
      rw [List.mem_singleton.mp ha']
      simpa [CacheRun.release] using hpast a
    · intro a ha
      rcases List.mem_append.mp ha with ha | ha
      · exact hnever a ha
      · rw [List.mem_singleton.mp ha]
        have hne := hlabelled b hb
        simpa [CacheRun.release] using hne
  · exact ⟨used, free, h.cache.releaseRef_other (by omega), hclean', hlabelled,
      h.dirty_used, haged, hpast, hnever⟩

/-- What `buf_read` can do: the buffer it returns and the state it leaves. -/
theorem Wf.read_cases (h : s.Wf used free) (n : UInt32) :
    (∃ b, s.cache.blockNum (.buf b) = n ∧ s.read n = some (.hit (.buf b),
        { s with cache := s.cache.takeHit (.buf b) })) ∨
      (∀ b, s.cache.blockNum (.buf b) ≠ n) ∧
        ((∃ b rest, free = b :: rest ∧ s.read n = some (.miss (.buf b),
            let c := s.cache.takeMiss n (.buf b)
            { s with cache := { c with
              data := Function.update c.data (.buf b) (s.disk n) } })) ∨
          free = [] ∧ s.read n = some (.exhausted, s)) := by
  rcases h.cache.lookup_fresh n with
    ⟨b, hlabel, hhit⟩ | ⟨hnone, ⟨b, rest, hfree, hmiss⟩ | ⟨hfree, hfull⟩⟩
  · exact .inl ⟨b, hlabel, by simp only [read, hhit]⟩
  · exact .inr ⟨hnone, .inl ⟨b, rest, hfree, by simp only [read, hmiss]⟩⟩
  · exact .inr ⟨hnone, .inr ⟨hfree, by simp only [read, hfull]⟩⟩

theorem Wf.step (h : s.Wf used free) {op : CacheOp} {s' : CacheRun}
    (hstep : s.step op = some s') : ∃ used' free', s'.Wf used' free' := by
  cases op with
  | read n =>
      simp only [CacheRun.step] at hstep
      split at hstep
      · cases hstep
      · next hn =>
        rcases h.read_cases n with
          ⟨b, hlabel, hread⟩ | ⟨hnone, ⟨b, rest, rfl, hread⟩ | ⟨_, hread⟩⟩
        all_goals
          rw [hread] at hstep
          cases hstep
        · exact ⟨_, _, h.hit (hlabel ▸ hn)⟩
        · exact ⟨_, _, h.miss hn hnone⟩
  | store b block =>
      simp only [CacheRun.step] at hstep
      split at hstep
      · next href =>
        cases hstep
        exact ⟨used, free, h.store href block⟩
      · cases hstep
  | write b =>
      simp only [CacheRun.step] at hstep
      split at hstep
      · next href =>
        cases hstep
        exact ⟨used, free, h.write href⟩
      · cases hstep
  | release b =>
      simp only [CacheRun.step] at hstep
      split at hstep
      · next hguard =>
        cases hstep
        exact h.release hguard.1 hguard.2
      · cases hstep

theorem wf_of_run {disk : Disk} {ops : List CacheOp} {s : CacheRun}
    (hrun : run step (init disk) ops = some s) :
    ∃ used free, s.Wf used free :=
  run_invariant_of_step (I := fun s => ∃ used free, s.Wf used free)
    (fun _ _ _ hwf hstep => hwf.choose_spec.choose_spec.step hstep)
    ⟨_, _, wf_init disk⟩ hrun

/-! The parts of the cache's contract. -/

/-- The list through `head_buf` has every buffer once and `next` and `prev`
undo each other on it; the buffers in use come before the unused ones. -/
def Ordered (c : BufCache) : Prop :=
  ∃ order : List BufId,
    c.links.Path .head (order.map .buf) .head ∧
    (∀ b, order.count b = 1) ∧
    (∀ p ≠ BufPtr.null,
      c.links.prev (c.links.next p) = p ∧ c.links.next (c.links.prev p) = p) ∧
    order.Pairwise fun a b =>
      c.bufRef (.buf a) = 0 → c.bufRef (.buf b) = 0

def CachedOnce (c : BufCache) : Prop :=
  ∀ a b : BufId, c.blockNum (.buf a) = c.blockNum (.buf b) →
    c.blockNum (.buf a) ≠ blockNumUnused → a = b

def ReadMeets (s : CacheRun) (n : UInt32) : Prop :=
  match s.read n with
  | none => False
  | some (.hit node, s') =>
      ∃ b, node = .buf b ∧ s'.cache.blockNum node = n ∧
        (s.dirty b = false → s'.cache.data node = s.disk n)
  | some (.miss node, s') =>
      ∃ b, node = .buf b ∧ s'.cache.blockNum node = n ∧
        s'.cache.data node = s.disk n ∧
        s.cache.bufRef node = 0 ∧
        (∀ a, s.cache.bufRef (.buf a) = 0 → s.released b ≤ s.released a) ∧
        (s.released b = 0 ↔ s.cache.blockNum node = blockNumUnused)
  | some (.exhausted, _) => ∀ b, 0 < s.cache.bufRef (.buf b)

theorem Wf.ordered (h : s.Wf used free) : Ordered s.cache := by
  refine ⟨used ++ free, h.cache.ring.path, ?_, ?_, ?_⟩
  · intro b
    exact List.count_eq_one_of_mem h.cache.nodup (h.cache.all b)
  · intro p hp
    have hmem : p ∈ BufPtr.head :: (used ++ free).map BufPtr.buf := by
      cases p with
      | null => exact absurd rfl hp
      | head => simp
      | buf b =>
          rw [List.mem_cons, BufCache.mem_map_buf]
          exact .inr (h.cache.all b)
    exact h.cache.ring.inverse hmem
  · refine List.pairwise_append.mpr ⟨?_, ?_, ?_⟩
    · refine List.Pairwise.imp_of_mem ?_ (List.nodup_append.mp h.cache.nodup).1
      intro a b ha _ _ hzero
      exact absurd hzero (Nat.pos_iff_ne_zero.mp (h.cache.used_ref a ha))
    · refine List.Pairwise.imp_of_mem ?_ (List.nodup_append.mp h.cache.nodup).2.1
      intro a b _ hb _ _
      exact h.cache.free_ref b hb
    · intro a ha b _ hzero
      exact absurd hzero (Nat.pos_iff_ne_zero.mp (h.cache.used_ref a ha))

theorem Wf.readMeets (h : s.Wf used free) {n : UInt32}
    (hn : n ≠ blockNumUnused) : s.ReadMeets n := by
  unfold ReadMeets
  rcases h.read_cases n with
    ⟨b, hlabel, hread⟩ | ⟨hnone, ⟨b, rest, rfl, hread⟩ | ⟨rfl, hread⟩⟩
  all_goals rw [hread]
  · refine ⟨b, rfl, hlabel, ?_⟩
    intro hclean
    rw [← hlabel]
    exact h.clean b (hlabel ▸ hn) hclean
  · have hb := h.cache.free_ref b (by simp)
    refine ⟨b, rfl, by simp [BufCache.takeMiss], by simp, hb, ?_,
      h.never b (by simp)⟩
    intro a ha
    rcases List.mem_cons.mp (h.cache.mem_free ha) with rfl | ha
    · exact le_rfl
    · exact (List.pairwise_cons.mp h.aged).1 a ha
  · intro b
    exact h.cache.used_ref b (by simpa using h.cache.all b)

/-- The buffer cache keeps its contract over every run of whole calls. -/
theorem atomic_runs_keep_the_contract (disk : Disk) (ops : List CacheOp)
    (s : CacheRun) (hrun : run step (init disk) ops = some s) :
    Ordered s.cache ∧ CachedOnce s.cache ∧
      ∀ n, n ≠ blockNumUnused → s.ReadMeets n := by
  obtain ⟨used, free, hwf⟩ := wf_of_run hrun
  exact ⟨hwf.ordered, hwf.cache.labels, fun n hn => hwf.readMeets hn⟩

theorem atomic_runs_keep_the_contract_written :
    ∃ s, run step (init fun _ => 0)
        [.read 5, .store 63 1, .write 63, .read 6, .release 63] = some s ∧
      Ordered s.cache ∧ CachedOnce s.cache ∧
        ∀ n, n ≠ blockNumUnused → s.ReadMeets n := by
  have hsome : (run step (init fun _ => 0) [.read 5, .store 63 1, .write 63,
      .read 6, .release 63]).isSome := by decide +kernel
  obtain ⟨s, hs⟩ := Option.isSome_iff_exists.mp hsome
  exact ⟨s, hs, atomic_runs_keep_the_contract _ _ s hs⟩

end CacheRun

end UnoOS.Fs
