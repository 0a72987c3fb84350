import UnoOS.Lib.Tenancy
import UnoOS.Mem.KvmLaws

namespace UnoOS.Mem

open UnoOS.Lib

/-! Frames of user memory: which page of which table user code reaches them
through, and what the calls of the memory layer do to that. -/

def userEntry (pte : UInt64) : Option UInt64 :=
  if pte &&& pteU ≠ 0 then some (pteToPa pte) else none

def userFrame (m : Memory) (root va : UInt64) : Option UInt64 :=
  (translate m root va).bind userEntry

def userByte (m : Memory) (root va : UInt64) : Option UInt8 :=
  (userFrame m root va).map fun f => m (f.toNat + va.toNat % 4096)

/-- A page of a page table owns the frame that user code reaches through it. -/
def Owns (m : Memory) (roots : Set UInt64) (place : UInt64 × Nat)
    (f : UInt64) : Prop :=
  place.1 ∈ roots ∧ ∃ va, va < vaMax ∧ va.toNat / 4096 = place.2 ∧
    userFrame m place.1 va = some f

structure Frames (s : MemState) (roots : Set UInt64) (lk lu : List UInt64)
    (held : Set UInt64) : Prop where
  tables : PageTables s.mem roots
  kern : FreshFrames s roots lk
  user : FreeList s false lu
  nonzero : ∀ page, s.userRegion.Contains page → page ≠ 0
  tables_apart : ∀ page, IsTable s.mem roots page → ¬ s.userRegion.Contains page
  kern_apart : ∀ page ∈ lk, ¬ s.userRegion.Contains page
  owned_in : ∀ place f, Owns s.mem roots place f → s.userRegion.Contains f
  held_in : ∀ f ∈ held, s.userRegion.Contains f
  tenancy : Tenancy (Owns s.mem roots) {f | f ∈ lu} held

def Spares (root : UInt64) (s s' : MemState) : Prop :=
  ∀ va, va < vaMax → userFrame s'.mem root va = userFrame s.mem root va ∧
    ∀ f, userFrame s.mem root va = some f → SamePage f s.mem s'.mem

variable {s s' s'' : MemState} {roots : Set UInt64} {lk lk' lu lu' : List UInt64}
  {held held' : Set UInt64} {root page va : UInt64}
  {map : UInt64 → Option UInt64}

theorem Spares.refl (root : UInt64) (s : MemState) : Spares root s s :=
  fun _ _ => ⟨rfl, fun _ _ _ _ => rfl⟩

theorem Spares.trans (h : Spares root s s') (h' : Spares root s' s'') :
    Spares root s s'' := by
  intro va hva
  obtain ⟨hframe, hsame⟩ := h va hva
  obtain ⟨hframe', hsame'⟩ := h' va hva
  refine ⟨hframe'.trans hframe, ?_⟩
  intro f hf
  exact (hsame f hf).trans (hsame' f (hframe.trans hf))

theorem inPage_offset (f : UInt64) (x : Nat) : InPage f (f.toNat + x % 4096) := by
  unfold InPage
  omega

theorem userByte_of_frame {m : Memory} {f : UInt64}
    (hf : userFrame m root va = some f) :
    userByte m root va = some (m (f.toNat + va.toNat % 4096)) := by
  unfold userByte
  rw [hf, Option.map_some]

theorem userFrame_same_page {m : Memory} {x : UInt64} (hx : x < vaMax)
    (hva : va < vaMax) (hpage : x.toNat / 4096 = va.toNat / 4096) :
    userFrame m root x = userFrame m root va := by
  unfold userFrame
  rw [translate_same_page hx (UInt64.le_of_lt hva) hpage]

theorem Spares.userByte (h : Spares root s s') (hva : va < vaMax) :
    userByte s'.mem root va = userByte s.mem root va := by
  obtain ⟨hframe, hsame⟩ := h va hva
  unfold Mem.userByte
  rw [hframe]
  cases hf : userFrame s.mem root va with
  | none => rfl
  | some f =>
      rw [Option.map_some, Option.map_some,
        hsame f hf _ (inPage_offset f va.toNat)]

namespace Frames

theorem frame_apart (h : Frames s roots lk lu held) {f : UInt64}
    (hf : s.userRegion.Contains f) :
    ¬ IsTable s.mem roots f ∧ f ∉ lk :=
  ⟨fun htable => h.tables_apart f htable hf, fun hmem => h.kern_apart f hmem hf⟩

theorem owns_of_userFrame (hroot : root ∈ roots) (hva : va < vaMax) {f : UInt64}
    (hf : userFrame s.mem root va = some f) :
    Owns s.mem roots (root, va.toNat / 4096) f :=
  ⟨hroot, va, hva, rfl, hf⟩

theorem userFrame_in (h : Frames s roots lk lu held) (hroot : root ∈ roots)
    (hva : va < vaMax) {f : UInt64} (hf : userFrame s.mem root va = some f) :
    s.userRegion.Contains f :=
  h.owned_in _ f (owns_of_userFrame hroot hva hf)

theorem held_mono (h : Frames s roots lk lu held) (hsub : held' ⊆ held) :
    Frames s roots lk lu held' :=
  { h with
    held_in := fun f hf => h.held_in f (hsub hf)
    tenancy := h.tenancy.mono (fun _ _ hb => hb) (fun _ hq => hq) hsub }

/-! Writes to one page of the user region. -/

section

variable (h : Frames s roots lk lu held) (hpage : s.userRegion.Contains page)
  (honly : OnlyPage page s.mem s'.mem)

include h hpage honly

theorem touch_table {t : UInt64} (ht : IsTable s.mem roots t) :
    SamePage t s.mem s'.mem := by
  refine honly.samePage hpage.aligned (IsTable.aligned h.tables ht) ?_
  rintro rfl
  exact h.tables_apart t ht hpage

theorem touch_userFrame (hroot : root ∈ roots) (va : UInt64) :
    userFrame s'.mem root va = userFrame s.mem root va := by
  unfold userFrame
  rw [translate_of_samePages hroot fun t ht => touch_table h hpage honly ht]

theorem touch_owns : Owns s'.mem roots = Owns s.mem roots := by
  funext place f
  apply propext
  constructor
  · rintro ⟨hroot, va, hva, hplace, hf⟩
    exact ⟨hroot, va, hva, hplace,
      (touch_userFrame h hpage honly hroot va).symm.trans hf⟩
  · rintro ⟨hroot, va, hva, hplace, hf⟩
    exact ⟨hroot, va, hva, hplace,
      (touch_userFrame h hpage honly hroot va).trans hf⟩

/-- What the write leaves to say about the free list and who has which frame. -/
theorem touch (hkern : s'.kernRegion = s.kernRegion)
    (hbounds : ∀ q, s'.userRegion.Contains q ↔ s.userRegion.Contains q)
    (hlist : FreeList s' false lu')
    (hheld : ∀ f ∈ held', s.userRegion.Contains f)
    (htenancy : Tenancy (Owns s.mem roots) {f | f ∈ lu'} held') :
    Frames s' roots lk lu' held' := by
  have hsame : ∀ t, IsTable s.mem roots t → SamePage t s.mem s'.mem :=
    fun t ht => touch_table h hpage honly ht
  have howns := touch_owns h hpage honly
  refine ⟨h.tables.of_samePages hsame, ⟨?_, ?_⟩, hlist, ?_, ?_, ?_, ?_, ?_, ?_⟩
  · refine h.kern.list.congr hkern ?_
    intro q hq
    refine honly.samePage hpage.aligned (h.kern.list.inRegion q hq).aligned ?_
    rintro rfl
    exact h.kern_apart q hq hpage
  · intro q hq htable
    exact h.kern.fresh q hq ((isTable_of_samePages hsame).mp htable)
  · intro q hq
    exact h.nonzero q ((hbounds q).mp hq)
  · intro q htable hq
    exact h.tables_apart q ((isTable_of_samePages hsame).mp htable)
      ((hbounds q).mp hq)
  · intro q hq hin
    exact h.kern_apart q hq ((hbounds q).mp hin)
  · intro place f hf
    rw [howns] at hf
    exact (hbounds f).mpr (h.owned_in place f hf)
  · intro f hf
    exact (hbounds f).mpr (hheld f hf)
  · rw [howns]
    exact htenancy

/-- Tables that do not own the page do not notice. -/
theorem touch_spares (hroot : root ∈ roots)
    (hnot : ∀ va, va < vaMax → userFrame s.mem root va ≠ some page) :
    Spares root s s' := by
  intro va hva
  refine ⟨touch_userFrame h hpage honly hroot va, ?_⟩
  intro f hf
  refine honly.samePage hpage.aligned (h.userFrame_in hroot hva hf).aligned ?_
  rintro rfl
  exact hnot va hva hf

end

theorem write (h : Frames s roots lk lu held) {m : Memory}
    (hpage : s.userRegion.Contains page) (hnot : page ∉ lu)
    (honly : OnlyPage page s.mem m) : Frames (s.setMem m) roots lk lu held := by
  refine h.touch hpage honly rfl (fun _ => Iff.rfl) ?_ h.held_in h.tenancy
  refine h.user.congr rfl ?_
  intro q hq
  refine honly.samePage hpage.aligned (h.user.inRegion q hq).aligned ?_
  rintro rfl
  exact hnot hq

theorem not_held (h : Frames s roots lk lu held) (hpage : page ∈ held)
    (hroot : root ∈ roots) (hva : va < vaMax) :
    userFrame s.mem root va ≠ some page :=
  fun hf => h.tenancy.owned_held (owns_of_userFrame hroot hva hf) hpage

theorem write_held (h : Frames s roots lk lu held) {m : Memory}
    (hpage : page ∈ held) (honly : OnlyPage page s.mem m) :
    Frames (s.setMem m) roots lk lu held ∧
      ∀ root ∈ roots, Spares root s (s.setMem m) := by
  have hin := h.held_in page hpage
  refine ⟨h.write hin (h.tenancy.held_free hpage) honly, ?_⟩
  intro root hroot
  exact h.touch_spares hin honly hroot fun va hva => h.not_held hpage hroot hva

/-! `pmem_alloc`. -/

theorem bounds_taken (q : UInt64) :
    (s.taken false).userRegion.Contains q ↔ s.userRegion.Contains q := by
  change ((s.taken false).region false).Contains q ↔ _
  rw [region_taken]
  exact Region.contains_congr rfl rfl

theorem alloc (h : Frames s roots lk lu held)
    (hrun : pmemAlloc false s = .ok (page, s')) :
    ∃ rest, page ∈ lu ∧ Frames s' roots lk rest (insert page held) ∧
      (∀ x, InPage page x → s'.mem x = 0) ∧
      OnlyPage page s.mem s'.mem ∧
      (∀ q, s'.userRegion.Contains q ↔ s.userRegion.Contains q) ∧
      ∀ root ∈ roots, Spares root s s' := by
  obtain ⟨rest, rfl, hrest⟩ := h.user.alloc hrun
  obtain ⟨_, _, rfl, rfl⟩ := pmemAlloc_eq_ok.mp hrun
  have hmem : (s.region false).next ∈ (s.region false).next :: rest := by simp
  have hin : s.userRegion.Contains (s.region false).next :=
    h.user.inRegion _ hmem
  have honly := onlyPage_taken (s := s) (k := false)
  obtain ⟨hnot, _⟩ := List.nodup_cons.mp h.user.nodup
  refine ⟨rest, hmem, ?_, fun x hx => taken_zero hx, honly, bounds_taken, ?_⟩
  · have hkern : (s.taken false).region true = s.region true :=
      region_taken_of_ne (by decide)
    refine h.touch hin honly hkern bounds_taken hrest ?_ ?_
    · intro f hf
      rcases Set.mem_insert_iff.mp hf with rfl | hf
      · exact hin
      · exact h.held_in f hf
    · refine h.tenancy.take hmem ?_ hnot
      intro q hq
      exact List.mem_cons_of_mem _ hq
  · intro root hroot
    refine h.touch_spares hin honly hroot ?_
    intro va hva hf
    exact h.tenancy.owned_free (owns_of_userFrame hroot hva hf) hmem

/-! Changed translations. -/

theorem owns_remapped (hmap : Remapped s s' roots lk lk' root map)
    {place : UInt64 × Nat} {f : UInt64} (hf : Owns s'.mem roots place f) :
    Owns s.mem roots place f ∨ ∃ va, va < vaMax ∧
      place = (root, va.toNat / 4096) ∧ (map va).bind userEntry = some f := by
  obtain ⟨r, n⟩ := place
  obtain ⟨hr, va, hva, hn, hf⟩ := hf
  dsimp only at hr hn hf
  subst hn
  by_cases hne : r = root
  · subst hne
    refine .inr ⟨va, hva, rfl, ?_⟩
    rw [← hmap.translate va hva]
    exact hf
  · refine .inl ⟨hr, va, hva, rfl, ?_⟩
    unfold userFrame at hf ⊢
    rwa [hmap.others r hr hne va hva] at hf

theorem remapped_same (h : Frames s roots lk lu held)
    (hmap : Remapped s s' roots lk lk' root map) {f : UInt64}
    (hf : s.userRegion.Contains f) : SamePage f s.mem s'.mem :=
  hmap.mem f hf.aligned (h.frame_apart hf).1 (h.frame_apart hf).2

theorem remapped (h : Frames s roots lk lu held)
    (hmap : Remapped s s' roots lk lk' root map)
    (hnew : ∀ place f, Owns s'.mem roots place f → s.userRegion.Contains f)
    (hheld : ∀ f ∈ held', s.userRegion.Contains f)
    (htenancy : Tenancy (Owns s'.mem roots) {f | f ∈ lu} held') :
    Frames s' roots lk' lu held' := by
  obtain ⟨taken, hlk⟩ := hmap.suffix
  refine ⟨hmap.tables, hmap.frames, ?_, ?_, ?_, ?_, ?_, ?_, htenancy⟩
  · exact h.user.congr hmap.userRegion fun q hq =>
      h.remapped_same hmap (h.user.inRegion q hq)
  · rw [hmap.userRegion]
    exact h.nonzero
  · intro q hq
    rw [hmap.userRegion]
    rcases hmap.added q hq with hq | hq
    · exact h.tables_apart q hq
    · exact h.kern_apart q hq
  · intro q hq
    rw [hmap.userRegion]
    refine h.kern_apart q ?_
    rw [hlk]
    exact List.mem_append_right _ hq
  · intro place f hf
    rw [hmap.userRegion]
    exact hnew place f hf
  · intro f hf
    rw [hmap.userRegion]
    exact hheld f hf

theorem remapped_spares (h : Frames s roots lk lu held)
    (hmap : Remapped s s' roots lk lk' root map) {r : UInt64} (hr : r ∈ roots)
    (hne : r ≠ root) : Spares r s s' := by
  intro va hva
  refine ⟨?_, ?_⟩
  · unfold userFrame
    rw [hmap.others r hr hne va hva]
  · intro f hf
    exact h.remapped_same hmap (h.userFrame_in hr hva hf)

/-- Neither does the table itself if user code reaches the same frames. -/
theorem remapped_spares_root (h : Frames s roots lk lu held)
    (hmap : Remapped s s' roots lk lk' root map) (hroot : root ∈ roots)
    (hsame : ∀ va, va < vaMax →
      (map va).bind userEntry = userFrame s.mem root va) : Spares root s s' := by
  intro va hva
  refine ⟨?_, ?_⟩
  · rw [← hsame va hva, ← hmap.translate va hva]
    rfl
  · intro f hf
    exact h.remapped_same hmap (h.userFrame_in hroot hva hf)

theorem remapped_shrink (h : Frames s roots lk lu held) (hroot : root ∈ roots)
    (hmap : Remapped s s' roots lk lk' root map)
    (hsub : ∀ va, va < vaMax → ∀ f, (map va).bind userEntry = some f →
      userFrame s.mem root va = some f) : Frames s' roots lk' lu held := by
  have howns : ∀ place f, Owns s'.mem roots place f → Owns s.mem roots place f := by
    intro place f howned
    rcases owns_remapped hmap howned with hf | ⟨va, hva, rfl, hf⟩
    · exact hf
    · exact owns_of_userFrame hroot hva (hsub va hva f hf)
  refine h.remapped hmap ?_ h.held_in
    (h.tenancy.mono howns (fun _ hq => hq) (fun _ hq => hq))
  intro place f hf
  exact h.owned_in place f (howns place f hf)

theorem set_entry (h : Frames s roots lk lu held) (hroot : root ∈ roots)
    (hva : va ≤ vaMax) {t pte : UInt64} (hleaf : leafTable s.mem root va = some t)
    (hsame : ∀ x, x < vaMax → x.toNat / 4096 = va.toNat / 4096 →
      (validEntry pte).bind userEntry = userFrame s.mem root x) :
    Frames (s.setMem (setEntry s.mem t (vpn va 0) pte)) roots lk lu held ∧
      Remapped s (s.setMem (setEntry s.mem t (vpn va 0) pte)) roots lk lk root
        (setPage (translate s.mem root) va (validEntry pte)) ∧
      ∀ r ∈ roots, Spares r s (s.setMem (setEntry s.mem t (vpn va 0) pte)) := by
  have hmap := remapped_setEntry h.tables h.kern hroot hva hleaf pte
  have hframe : ∀ x, x < vaMax →
      (setPage (translate s.mem root) va (validEntry pte) x).bind userEntry =
        userFrame s.mem root x := by
    intro x hx
    unfold setPage
    split
    · next hpage => exact hsame x hx hpage
    · rfl
  refine ⟨?_, hmap, ?_⟩
  · refine h.remapped_shrink hroot hmap ?_
    intro x hx f hf
    rw [← hframe x hx]
    exact hf
  · intro r hr
    by_cases hne : r = root
    · subst hne
      exact h.remapped_spares_root hmap hr hframe
    · exact h.remapped_spares hmap hr hne

theorem remapped_settle (h : Frames s roots lk lu held) (hroot : root ∈ roots)
    (hmap : Remapped s s' roots lk lk' root map) (hpage : page ∈ held)
    (hsub : ∀ x, x < vaMax → ∀ f, (map x).bind userEntry = some f →
      userFrame s.mem root x = some f ∨
        (x.toNat / 4096 = va.toNat / 4096 ∧ f = page))
    (hheld : held' ⊆ held) (hgone : page ∉ held') :
    Frames s' roots lk' lu held' := by
  have howns : ∀ place f, Owns s'.mem roots place f →
      Owns s.mem roots place f ∨ (place = (root, va.toNat / 4096) ∧ f = page) := by
    intro place f howned
    rcases owns_remapped hmap howned with hf | ⟨x, hx, rfl, hf⟩
    · exact .inl hf
    · rcases hsub x hx f hf with hf | ⟨hsame, rfl⟩
      · exact .inl (owns_of_userFrame hroot hx hf)
      · exact .inr ⟨by rw [hsame], rfl⟩
  refine h.remapped hmap ?_ (fun f hf => h.held_in f (hheld hf))
    (h.tenancy.settle hpage howns hheld hgone)
  intro place f hf
  rcases howns place f hf with hf | ⟨_, rfl⟩
  · exact h.owned_in place f hf
  · exact h.held_in _ hpage

theorem remapped_vacate (h : Frames s roots lk lu held) (hroot : root ∈ roots)
    (hmap : Remapped s s' roots lk lk' root map) (hva : va < vaMax)
    (hpage : userFrame s.mem root va = some page)
    (hsub : ∀ x, x < vaMax → ∀ f, (map x).bind userEntry = some f →
      userFrame s.mem root x = some f ∧ x.toNat / 4096 ≠ va.toNat / 4096) :
    Frames s' roots lk' lu (insert page held) := by
  have howner := owns_of_userFrame hroot hva hpage
  have howns : ∀ place f, Owns s'.mem roots place f →
      Owns s.mem roots place f ∧ place ≠ (root, va.toNat / 4096) := by
    intro place f howned
    obtain ⟨r, n⟩ := place
    by_cases hne : r = root
    · subst hne
      obtain ⟨hr, x, hx, hn, hf⟩ := howned
      have htranslate : (map x).bind userEntry = some f := by
        rw [← hmap.translate x hx]
        exact hf
      obtain ⟨hold, hapart⟩ := hsub x hx f htranslate
      refine ⟨⟨hr, x, hx, hn, hold⟩, ?_⟩
      intro hplace
      rw [Prod.mk.injEq] at hplace
      exact hapart (hn.trans hplace.2)
    · rcases owns_remapped hmap howned with hf | ⟨x, _, hplace, _⟩
      · exact ⟨hf, fun hplace => hne (Prod.mk.inj hplace).1⟩
      · exact absurd (Prod.mk.inj hplace).1 hne
  refine h.remapped hmap ?_ ?_ (h.tenancy.vacate howner howns)
  · intro place f hf
    exact h.owned_in place f (howns place f hf).1
  · intro f hf
    rcases Set.mem_insert_iff.mp hf with rfl | hf
    · exact h.userFrame_in hroot hva hpage
    · exact h.held_in f hf

/-! `pmem_free`. -/

/-- A held page is given back.  Whether it gets on the free list depends on the
count in it. -/
theorem free (h : Frames s roots lk lu held) {value : Unit} (hpage : page ∈ held)
    (hsub : held' ⊆ held) (hgone : page ∉ held')
    (hrun : pmemFree page false s = .ok (value, s')) :
    ∃ lu', Frames s' roots lk lu' held' ∧ OnlyPage page s.mem s'.mem ∧
      (∀ q, s'.userRegion.Contains q ↔ s.userRegion.Contains q) := by
  have hin := h.held_in page hpage
  have honly := pmemFree_onlyPage hrun
  have hnot := h.tenancy.held_free hpage
  have hheld : ∀ f ∈ held', s.userRegion.Contains f :=
    fun f hf => h.held_in f (hsub hf)
  obtain ⟨_, rfl⟩ := pmemFree_eq_ok.mp hrun
  by_cases hone : refCnt s.mem page = 1
  · rw [if_pos hone] at honly ⊢
    have hbounds : ∀ q, (s.pushed page false).userRegion.Contains q ↔
        s.userRegion.Contains q := by
      intro q
      change ((s.pushed page false).region false).Contains q ↔ _
      rw [region_pushed]
      exact Region.contains_congr rfl rfl
    refine ⟨page :: lu, ?_, honly, hbounds⟩
    have hkern : (s.pushed page false).region true = s.region true :=
      region_pushed_of_ne (by decide)
    have hset : {f | f ∈ page :: lu} = insert page {f | f ∈ lu} := by
      ext f
      simp
    refine h.touch hin honly hkern hbounds (h.user.pushed hnot hin
      (h.nonzero page hin)) hheld ?_
    rw [hset]
    exact h.tenancy.release hpage hsub hgone
  · rw [if_neg hone] at honly ⊢
    refine ⟨lu, ?_, honly, fun _ => Iff.rfl⟩
    exact h.touch hin honly rfl (fun _ => Iff.rfl)
      (h.user.counted hnot hin.aligned) hheld
      (h.tenancy.mono (fun _ _ hb => hb) (fun _ hq => hq) hsub)

/-! `vm_mappages` with one page. -/

theorem userEntry_of_flags {pte pa flags : UInt64} (hpa : pteToPa pte = pa)
    (hflags : pte &&& pteU = flags &&& pteU) :
    userEntry pte = if flags &&& pteU ≠ 0 then some pa else none := by
  unfold userEntry
  rw [hflags, hpa]

theorem userEntry_mapped {pa perm : UInt64} (hpa : pa.toNat % 4096 = 0)
    (hperm : perm.toNat < 1024) :
    userEntry (paToPte pa ||| perm ||| pteV) =
      if perm &&& pteU ≠ 0 then some pa else none := by
  have hflags : (perm ||| pteV).toNat < 1024 := flags_or_lt hperm (by decide)
  apply userEntry_of_flags
  · rw [UInt64.or_assoc]
    exact pteToPa_entry hpa hflags
  · rw [or_and_of_disjoint (by decide), entry_and hperm (by decide)]

def mappedFrame (s : MemState) (root va page perm x : UInt64) : Option UInt64 :=
  if x.toNat / 4096 = va.toNat / 4096 then
    if perm &&& pteU ≠ 0 then some page else none
  else userFrame s.mem root x

theorem mapPage_guard {perm : UInt64} {value : Unit}
    (hrun : vmMappages root va page pgsize perm s = .ok (value, s')) :
    va.toNat % 4096 = 0 ∧ page.toNat % 4096 = 0 ∧ va.toNat + 4096 ≤ 2 ^ 38 ∧
      vmMappagesLoop root page perm 1 va page s = .ok (value, s') := by
  unfold vmMappages at hrun
  rw [massert_bind_eq_ok, massert_bind_eq_ok, massert_bind_eq_ok] at hrun
  obtain ⟨⟨haligned, hpage⟩, hlen, hmax, hrun⟩ := hrun
  have hva := (aligned_iff va).mp haligned
  have hpgsize : pgsize.toNat = 4096 := rfl
  have hlt := va.toNat_lt
  have hwrap : va.toNat + pgsize.toNat < 2 ^ 64 := by
    -- an address in the last page would wrap to the end of memory
    by_contra hnot
    have htop : va = 0xFFFFFFFFFFFFF000 := by
      apply UInt64.toNat_inj.mp
      change _ = 0xFFFFFFFFFFFFF000
      omega
    rw [htop] at hmax
    revert hmax
    decide
  have hroom := pageCount_room haligned hlen hwrap hmax
  have hcount : pageCount va pgsize = 1 := pageCount_spec haligned hlen hwrap
  rw [hcount] at hroom hrun
  exact ⟨hva, (aligned_iff page).mp hpage, by omega, hrun⟩

theorem mapPage_spec (h : Frames s roots lk lu held) (hroot : root ∈ roots)
    {perm : UInt64} {value : Unit} (hperm : perm.toNat < 1024)
    (hrun : vmMappages root va page pgsize perm s = .ok (value, s')) :
    ∃ lk' map, Remapped s s' roots lk lk' root map ∧
      map = setPage (translate s.mem root) va
        (some (paToPte page ||| perm ||| pteV)) ∧
      ∀ x, x < vaMax → (map x).bind userEntry = mappedFrame s root va page perm x := by
  obtain ⟨_, hpage, hroom, hrun⟩ := mapPage_guard hrun
  obtain ⟨lk', hmap⟩ := vmMappagesLoop_spec h.tables h.kern hroot
    (by omega) hrun
  have hentry : ∀ x, setPages (translate s.mem root) va 1
      (mappedEntry page perm) x = setPage (translate s.mem root) va
        (some (paToPte page ||| perm ||| pteV)) x := by
    intro x
    unfold setPages setPage
    by_cases hx : x.toNat / 4096 = va.toNat / 4096
    · rw [if_pos (by omega), if_pos hx, hx, Nat.sub_self]
      unfold mappedEntry
      simp
    · rw [if_neg (by omega), if_neg hx]
  refine ⟨lk', _, hmap.congr fun x _ => hentry x, rfl, ?_⟩
  intro x _
  unfold setPage mappedFrame
  by_cases hx : x.toNat / 4096 = va.toNat / 4096
  · rw [if_pos hx, if_pos hx]
    exact userEntry_mapped hpage hperm
  · rw [if_neg hx, if_neg hx]
    rfl

/-- `vm_mappages` puts a page only where there was none, or the same one. -/
theorem mapPage_check (h : Frames s roots lk lu held) (hroot : root ∈ roots)
    {perm : UInt64} {value : Unit}
    (hrun : vmMappages root va page pgsize perm s = .ok (value, s')) {pte : UInt64}
    (hpte : translate s.mem root va = some pte) : pteToPa pte = page := by
  obtain ⟨_, _, _, hrun⟩ := mapPage_guard hrun
  rw [vmMappagesLoop, Exec.bind_eq_ok] at hrun
  obtain ⟨result, s₁, hgetpte, hrun⟩ := hrun
  obtain ⟨t, l₁, rfl, hgrown, hleaf⟩ :=
    vmGetpte_grows h.tables h.kern hroot hgetpte
  dsimp only at hrun
  rw [readMem_bind, massert_bind_eq_ok] at hrun
  obtain ⟨hcheck, _⟩ := hrun
  rw [← hgrown.translate root hroot va] at hpte
  unfold translate validEntry at hpte
  rw [hleaf, Option.bind_some] at hpte
  split at hpte
  · next hvalid =>
    cases hpte
    exact hcheck.resolve_left fun hnot => hnot hvalid
  · cases hpte

/-- The translations of a page for a valid entry in its last table. -/
theorem translate_of_entry {t : UInt64} (hva : va < vaMax)
    (hleaf : leafTable s.mem root va = some t)
    (hvalid : pteValid (entry s.mem t (vpn va 0))) {x : UInt64} (hx : x < vaMax)
    (hpage : x.toNat / 4096 = va.toNat / 4096) :
    translate s.mem root x = some (entry s.mem t (vpn va 0)) := by
  rw [translate_same_page hx (UInt64.le_of_lt hva) hpage]
  unfold translate validEntry
  rw [hleaf, Option.bind_some, if_pos hvalid]

theorem set_flags (h : Frames s roots lk lu held) (hroot : root ∈ roots)
    (hva : va < vaMax) {t pte : UInt64} (hleaf : leafTable s.mem root va = some t)
    (hvalid : pteValid (entry s.mem t (vpn va 0))) (hpte : pteValid pte)
    (hpa : pteToPa pte = pteToPa (entry s.mem t (vpn va 0)))
    (hflag : pte &&& pteU = entry s.mem t (vpn va 0) &&& pteU) :
    Frames (s.setMem (setEntry s.mem t (vpn va 0) pte)) roots lk lu held ∧
      Remapped s (s.setMem (setEntry s.mem t (vpn va 0) pte)) roots lk lk root
        (setPage (translate s.mem root) va (validEntry pte)) ∧
      ∀ r ∈ roots, Spares r s (s.setMem (setEntry s.mem t (vpn va 0) pte)) := by
  refine h.set_entry hroot (UInt64.le_of_lt hva) hleaf ?_
  intro x hx hpage
  unfold userFrame
  rw [translate_of_entry hva hleaf hvalid hx hpage]
  unfold validEntry userEntry
  rw [if_pos hpte, Option.bind_some, Option.bind_some, hflag, hpa]

/-! A new page table. -/

theorem new_root {t : UInt64} (h : Frames s roots lk lu held)
    (hrun : pmemAlloc true s = .ok (t, s')) :
    ∃ rest, t ∉ roots ∧ s'.userRegion = s.userRegion ∧
      Frames (s'.setMem (s'.mem.memset t.toNat 0 4096)) (insert t roots) rest lu
        held ∧
      (∀ va, translate (s'.mem.memset t.toNat 0 4096) t va = none) ∧
      (∀ r ∈ roots, ∀ va, translate (s'.mem.memset t.toNat 0 4096) r va =
        translate s.mem r va) ∧
      (∀ q, IsTable s.mem roots q →
        SamePage q s.mem (s'.mem.memset t.toNat 0 4096)) ∧
      ∀ r ∈ roots, Spares r s (s'.setMem (s'.mem.memset t.toNat 0 4096)) := by
  obtain ⟨rest, rfl, hrest⟩ := h.kern.list.alloc hrun
  obtain ⟨_, _, rfl, rfl⟩ := pmemAlloc_eq_ok.mp hrun
  generalize ht : (s.region true).next = t at *
  have hmem : t ∈ t :: rest := List.mem_cons_self
  have hin := h.kern.list.inRegion t hmem
  have hfresh := h.kern.fresh t hmem
  obtain ⟨hnot, _⟩ := List.nodup_cons.mp h.kern.list.nodup
  have htaken : OnlyPage t s.mem (s.taken true).mem := by
    have honly := onlyPage_taken (s := s) (k := true)
    rwa [ht] at honly
  generalize hm : (s.taken true).mem.memset t.toNat 0 4096 = m
  have hclear : OnlyPage t (s.taken true).mem m := by
    rw [← hm]
    exact onlyPage_memset t _ 0
  have honly : OnlyPage t s.mem m := htaken.trans hclear
  have hsame : ∀ q, q.toNat % 4096 = 0 → q ≠ t → SamePage q s.mem m :=
    fun q hq hne => honly.samePage hin.aligned hq hne
  have htables : ∀ q, IsTable s.mem roots q → SamePage q s.mem m := by
    intro q hq
    refine hsame q (IsTable.aligned h.tables hq) ?_
    rintro rfl
    exact hfresh hq
  have hentry : ∀ idx, entry m t idx = 0 := by
    intro idx
    apply Memory.load64_of_zero
    intro k hk
    rw [← hm]
    unfold entryAddr
    exact Memory.write_of_mem (by omega) (by omega)
  have hbare : ∀ idx, links m t idx = none := by
    intro idx
    unfold links
    rw [hentry idx]
    rfl
  have hroots : t ∉ roots := fun hroot => hfresh ⟨t, hroot, [], by simp, rfl⟩
  have hnone : ∀ va, translate m t va = none := by
    intro va
    unfold translate
    cases hleaf : leafTable m t va with
    | none => rfl
    | some q =>
        have hpath := (Radix.walk_of_bare hbare hleaf).1
        have hlength := congrArg List.length hpath
        rw [length_vpns] at hlength
        cases hlength
  have hothers : ∀ r ∈ roots, ∀ va, translate m r va = translate s.mem r va :=
    fun r hr va => translate_of_samePages hr htables va
  have htable : ∀ q, IsTable m (insert t roots) q → q = t ∨ IsTable s.mem roots q := by
    intro q hq
    refine (Radix.reached_insert hbare hq).imp id ?_
    exact (isTable_of_samePages htables).mp
  have howns : ∀ place f, Owns m (insert t roots) place f →
      Owns s.mem roots place f := by
    rintro ⟨r, n⟩ f ⟨hr, va, hva, hn, hf⟩
    rcases Set.mem_insert_iff.mp hr with hr | hr
    · dsimp only at hr hf
      unfold userFrame at hf
      rw [hr, hnone va] at hf
      cases hf
    · refine ⟨hr, va, hva, hn, ?_⟩
      unfold userFrame at hf ⊢
      rwa [hothers r hr va] at hf
  have huser : (s.taken true).region false = s.region false :=
    region_taken_of_ne (by decide)
  have hbounds : ∀ q, (s.taken true).userRegion.Contains q ↔
      s.userRegion.Contains q := by
    intro q
    change ((s.taken true).region false).Contains q ↔ _
    rw [huser]
    exact Iff.rfl
  refine ⟨rest, hroots, huser, ?_, hnone, hothers, htables, ?_⟩
  · refine ⟨⟨?_, ?_, ?_⟩, ⟨?_, ?_⟩, ?_, ?_, ?_, ?_, ?_, ?_, ?_⟩
    · refine (h.tables.of_samePages htables).distinct.insert hbare ?_
      intro hreached
      exact hfresh ((isTable_of_samePages htables).mp hreached)
    · intro r hr
      rcases Set.mem_insert_iff.mp hr with rfl | hr
      · exact hin.aligned
      · exact h.tables.aligned r hr
    · intro r hr
      rcases Set.mem_insert_iff.mp hr with rfl | hr
      · exact h.kern.list.chain.2.1
      · exact h.tables.nonzero r hr
    · refine hrest.congr rfl ?_
      intro q hq
      refine hclear.samePage hin.aligned
        (h.kern.list.inRegion q (List.mem_cons_of_mem _ hq)).aligned ?_
      rintro rfl
      exact hnot hq
    · intro q hq hq'
      rcases htable q hq' with rfl | hq'
      · exact hnot hq
      · exact h.kern.fresh q (List.mem_cons_of_mem _ hq) hq'
    · refine h.user.congr huser ?_
      intro q hq
      refine hsame q (h.user.inRegion q hq).aligned ?_
      rintro rfl
      exact h.kern_apart q hmem (h.user.inRegion q hq)
    · intro q hq
      exact h.nonzero q ((hbounds q).mp hq)
    · intro q hq hin'
      rcases htable q hq with rfl | hq
      · exact h.kern_apart q hmem ((hbounds q).mp hin')
      · exact h.tables_apart q hq ((hbounds q).mp hin')
    · intro q hq hin'
      exact h.kern_apart q (List.mem_cons_of_mem _ hq) ((hbounds q).mp hin')
    · intro place f hf
      exact (hbounds f).mpr (h.owned_in place f (howns place f hf))
    · intro f hf
      exact (hbounds f).mpr (h.held_in f hf)
    · exact h.tenancy.mono howns (fun _ hq => hq) (fun _ hq => hq)
  · intro r hr va hva
    refine ⟨?_, ?_⟩
    · unfold userFrame
      rw [MemState.mem_setMem, hothers r hr va]
    · intro f hf
      refine hsame f (h.userFrame_in hr hva hf).aligned ?_
      rintro rfl
      exact h.kern_apart _ hmem (h.userFrame_in hr hva hf)

end Frames

end UnoOS.Mem
