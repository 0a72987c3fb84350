import UnoOS.Mem.PmemLaws

namespace UnoOS.Mem

open UnoOS.Lib

/-! The two regions that `pmem_init` sets up. -/

namespace KernelImage

/-- A kernel image of 128 KiB. -/
def small : KernelImage := ⟨0x80020000, by decide, by decide, by decide⟩

variable (image : KernelImage)

def begin : Bool → UInt64
  | true => image.allocBegin
  | false => image.middle

def end_ : Bool → UInt64
  | true => image.middle
  | false => allocEnd

def pages : Bool → Nat
  | true => kernPages
  | false => (allocEnd.toNat - image.allocBegin.toNat) / 4096 - kernPages

theorem middle_toNat :
    image.middle.toNat = image.allocBegin.toNat + kernPages * 4096 := by
  have hroom := image.room
  have hend : allocEnd.toNat < 2 ^ 64 := allocEnd.toNat_lt
  unfold middle
  rw [UInt64.toNat_add]
  exact Nat.mod_eq_of_lt (by
    change _ + kernPages * 4096 < _
    omega)

theorem end_toNat (k : Bool) :
    (image.end_ k).toNat = (image.begin k).toNat + image.pages k * 4096 := by
  have hmiddle := image.middle_toNat
  have hroom := image.room
  have haligned := image.aligned
  cases k
  · change allocEnd.toNat = image.middle.toNat +
      ((allocEnd.toNat - image.allocBegin.toNat) / 4096 - kernPages) * 4096
    rw [show allocEnd.toNat = 0x88000000 from rfl] at hroom ⊢
    rw [show kernPages = 1024 from rfl] at *
    omega
  · exact hmiddle

theorem begin_aligned (k : Bool) : (image.begin k).toNat % 4096 = 0 := by
  have hmiddle := image.middle_toNat
  have haligned := image.aligned
  cases k
  · change image.middle.toNat % 4096 = 0
    omega
  · exact haligned

theorem begin_ge (k : Bool) : kernelBase.toNat ≤ (image.begin k).toNat := by
  have hmiddle := image.middle_toNat
  have hbase := image.base
  cases k
  · change _ ≤ image.middle.toNat
    omega
  · exact hbase

theorem end_le (k : Bool) : (image.end_ k).toNat ≤ allocEnd.toNat := by
  have hmiddle := image.middle_toNat
  have hroom := image.room
  cases k
  · exact le_refl _
  · change image.middle.toNat ≤ _
    omega

theorem pages_lt (k : Bool) : image.pages k < 2 ^ 31 := by
  have hend := image.end_toNat k
  have hle := image.end_le k
  rw [show allocEnd.toNat = 0x88000000 from rfl] at hle
  omega

theorem one_region {page : UInt64} {k k' : Bool}
    (h : image.begin k ≤ page ∧ page < image.end_ k)
    (h' : image.begin k' ≤ page ∧ page < image.end_ k') : k = k' := by
  simp only [UInt64.le_iff_toNat_le, UInt64.lt_iff_toNat_lt] at h h'
  cases k <;> cases k'
  · rfl
  · change image.middle.toNat ≤ _ ∧ _ at h
    change _ ∧ _ < image.middle.toNat at h'
    omega
  · change _ ∧ _ < image.middle.toNat at h
    change image.middle.toNat ≤ _ ∧ _ at h'
    omega
  · rfl

end KernelImage

theorem pgroundup_of_aligned {p : UInt64} (haligned : p.toNat % 4096 = 0)
    (h : p.toNat + 4095 < 2 ^ 64) : pgroundup p = p := by
  apply UInt64.toNat_inj.mp
  rw [pgroundup_toNat h]
  omega

theorem freeRange_spec (image : KernelImage) {s : MemState} {k : Bool}
    (hbegin : (s.region k).begin = image.begin k)
    (hend : (s.region k).end_ = image.end_ k)
    (hempty : (s.region k).next = 0) :
    ∃ s', freeRange (image.begin k) (image.end_ k) k s = .ok ((), s') ∧
      FreeList s' k (pageRun (image.begin k) (image.pages k)).reverse ∧
      RangeFreed s s' k (pageRun (image.begin k) (image.pages k)) := by
  have haligned := image.begin_aligned k
  have hbase := image.begin_ge k
  have hsize := image.end_toNat k
  have hle := image.end_le k
  have hlimit : allocEnd.toNat = 0x88000000 := rfl
  have hroom : (image.begin k).toNat + image.pages k * 4096 < 2 ^ 64 := by omega
  have hlist : FreeList s k [] :=
    ⟨hempty, List.nodup_nil, fun _ hmem => absurd hmem List.not_mem_nil⟩
  obtain ⟨s', hrun, hlist', hfreed⟩ := freeRangeLoop_spec hlist
    (nodup_pageRun hroom) (by
      intro q hq
      obtain ⟨i, hi, hqi⟩ := (mem_pageRun hroom).mp hq
      have hmul : i * 4096 + 4096 ≤ image.pages k * 4096 := by
        have := Nat.mul_le_mul_right 4096 (Nat.succ_le_of_lt hi)
        omega
      refine ⟨⟨(aligned_iff q).mpr (by omega), ?_, ?_⟩, List.not_mem_nil, ?_⟩
      · rw [hbegin, UInt64.le_iff_toNat_le]
        omega
      · rw [hend, UInt64.lt_iff_toNat_lt]
        omega
      · rintro rfl
        have hzero : (0 : UInt64).toNat = 0 := rfl
        have hpos : kernelBase.toNat = 0x80000000 := rfl
        omega)
  refine ⟨s', ?_, by simpa using hlist', hfreed⟩
  unfold freeRange
  rw [pgroundup_of_aligned haligned (by omega)]
  rw [show ((image.end_ k).toNat - (image.begin k).toNat) / 4096 =
    image.pages k by omega]
  exact hrun

/-- What `pmem_init` leaves: every page of a region is on its free list, and
each is counted twice. -/
structure Initialised (image : KernelImage) (s : MemState) (k : Bool) : Prop where
  begin : (s.region k).begin = image.begin k
  end_ : (s.region k).end_ = image.end_ k
  list : FreeList s k (pageRun (image.begin k) (image.pages k)).reverse
  allocable : (s.region k).allocable.toNat = image.pages k + image.pages k

theorem user_allocable (image : KernelImage) :
    ((allocEnd - image.allocBegin) / pgsize -
      UInt64.ofNat kernPages).toUInt32 = UInt32.ofNat (image.pages false) := by
  have hroom := image.room
  have hlimit : allocEnd.toNat = 0x88000000 := rfl
  have hkern : kernPages = 1024 := rfl
  have hspan : (allocEnd - image.allocBegin).toNat =
      allocEnd.toNat - image.allocBegin.toNat := by
    rw [UInt64.toNat_sub_of_le]
    rw [UInt64.le_iff_toNat_le]
    omega
  have hcount : ((allocEnd - image.allocBegin) / pgsize).toNat =
      (allocEnd.toNat - image.allocBegin.toNat) / 4096 := by
    rw [UInt64.toNat_div, hspan]
    rfl
  have hsub : ((allocEnd - image.allocBegin) / pgsize -
      UInt64.ofNat kernPages).toNat = image.pages false := by
    rw [UInt64.toNat_sub_of_le]
    · rw [hcount]
      rfl
    · rw [UInt64.le_iff_toNat_le, hcount]
      change 1024 ≤ _
      omega
  apply UInt32.toNat_inj.mp
  rw [UInt64.toNat_toUInt32, hsub, UInt32.toNat_ofNat']

theorem counted_twice (image : KernelImage) (k : Bool) :
    (UInt32.ofNat (image.pages k) +
      UInt32.ofNat (pageRun (image.begin k) (image.pages k)).length).toNat =
      image.pages k + image.pages k := by
  have hlt := image.pages_lt k
  rw [length_pageRun, ← UInt32.ofNat_add, UInt32.toNat_ofNat']
  omega

theorem pmemInit_spec (image : KernelImage) (s : MemState) :
    ∃ s', pmemInit image s = .ok ((), s') ∧ ∀ k, Initialised image s' k := by
  let s₁ := s.setRegion true
    { begin := image.begin true, end_ := image.end_ true,
      allocable := UInt32.ofNat kernPages, next := 0 }
  have hregion₁ : s₁.region true =
      { begin := image.begin true, end_ := image.end_ true,
        allocable := UInt32.ofNat kernPages, next := 0 } := rfl
  obtain ⟨s₂, hrun₁, hlist₁, hfreed₁⟩ := freeRange_spec image (s := s₁)
    (by rw [hregion₁]) (by rw [hregion₁]) (by rw [hregion₁])
  let s₃ := s₂.setRegion false
    { begin := image.begin false, end_ := image.end_ false,
      allocable := UInt32.ofNat (image.pages false), next := 0 }
  have hregion₃ : s₃.region false =
      { begin := image.begin false, end_ := image.end_ false,
        allocable := UInt32.ofNat (image.pages false), next := 0 } := rfl
  obtain ⟨s₄, hrun₃, hlist₃, hfreed₃⟩ := freeRange_spec image (s := s₃)
    (by rw [hregion₃]) (by rw [hregion₃]) (by rw [hregion₃])
  refine ⟨s₄, ?_, ?_⟩
  · unfold pmemInit
    rw [user_allocable]
    rw [writeRegion_bind]
    refine (Exec.bind_of_ok hrun₁).trans ?_
    rw [writeRegion_bind]
    exact hrun₃
  · intro k
    cases k
    · refine ⟨?_, ?_, hlist₃, ?_⟩
      · rw [hfreed₃.begin, hregion₃]
      · rw [hfreed₃.end_, hregion₃]
      · rw [hfreed₃.allocable, hregion₃]
        exact counted_twice image false
    · have hregion : s₄.region true = s₂.region true := by
        rw [hfreed₃.other true (by decide)]
        exact MemState.region_setRegion_of_ne _ _ _ _ (by decide)
      refine ⟨?_, ?_, ?_, ?_⟩
      · rw [hregion, hfreed₁.begin, hregion₁]
      · rw [hregion, hfreed₁.end_, hregion₁]
      · -- the pages of the user lie elsewhere
        refine hlist₁.congr hregion ?_
        intro page hpage x hx
        refine (hfreed₃.mem x ?_).trans rfl
        intro other hother hin
        have hcontains := hlist₁.inRegion page hpage
        have hcontains' := hlist₃.inRegion other (by simpa using hother)
        have hdiff : page ≠ other := by
          rintro rfl
          rw [Region.contains_congr hfreed₁.begin hfreed₁.end_, hregion₁]
            at hcontains
          rw [Region.contains_congr hfreed₃.begin hfreed₃.end_, hregion₃]
            at hcontains'
          have hin₁ : image.begin true ≤ page ∧ page < image.end_ true :=
            hcontains.2
          have hin₃ : image.begin false ≤ page ∧ page < image.end_ false :=
            hcontains'.2
          cases image.one_region hin₁ hin₃
        exact pages_apart hcontains.aligned hcontains'.aligned hdiff hx hin
      · rw [hregion, hfreed₁.allocable, hregion₁]
        exact counted_twice image true

end UnoOS.Mem
