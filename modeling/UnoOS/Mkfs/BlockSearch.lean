import UnoOS.Mkfs.AllocLaws

namespace UnoOS.Mkfs

open UnoOS.Lib
open UnoOS.Fs

/-! The two searches of the data bitmap, and blocks that are taken one after the
other. -/

def allocBlocks : Nat → FsM (List UInt32)
  | 0 => return []
  | n + 1 => do
      let num ← bitmapAllocBlock
      let rest ← allocBlocks n
      return num :: rest

variable {s s' : FsState} {n : Nat} {nums : List UInt32}

theorem length_allocBlocks (hrun : allocBlocks n s = .ok (nums, s')) :
    nums.length = n := by
  induction n generalizing s nums with
  | zero =>
      cases hrun
      rfl
  | succ n ih =>
      rw [allocBlocks, Exec.bind_eq_ok] at hrun
      obtain ⟨num, s₁, _, hrun⟩ := hrun
      rw [Exec.bind_eq_ok] at hrun
      obtain ⟨rest, s₂, hrest, hrun⟩ := hrun
      cases hrun
      rw [List.length_cons, ih hrest]

theorem returnsAfter_of_mem (hrun : allocBlocks n s = .ok (nums, s')) {num : UInt32}
    (hmem : num ∈ nums) : ∃ k, BitmapKind.block.ReturnsAfter num k s := by
  induction n generalizing s nums with
  | zero =>
      cases hrun
      cases hmem
  | succ n ih =>
      rw [allocBlocks, Exec.bind_eq_ok] at hrun
      obtain ⟨first, s₁, halloc, hrun⟩ := hrun
      rw [Exec.bind_eq_ok] at hrun
      obtain ⟨rest, s₂, hrest, hrun⟩ := hrun
      cases hrun
      rcases List.mem_cons.mp hmem with rfl | hmem
      · exact ⟨0, s₁, halloc⟩
      · obtain ⟨k, hk⟩ := ih hrest hmem
        exact ⟨k + 1, first, s₁, halloc, hk⟩

theorem nodup_allocBlocks (hrun : allocBlocks n s = .ok (nums, s'))
    (hnone : 0xFFFFFFFF ∉ nums) : nums.Nodup := by
  induction n generalizing s nums with
  | zero =>
      cases hrun
      exact List.nodup_nil
  | succ n ih =>
      rw [allocBlocks, Exec.bind_eq_ok] at hrun
      obtain ⟨first, s₁, halloc, hrun⟩ := hrun
      rw [Exec.bind_eq_ok] at hrun
      obtain ⟨rest, s₂, hrest, hrun⟩ := hrun
      cases hrun
      rw [List.mem_cons, not_or] at hnone
      refine List.nodup_cons.mpr ⟨?_, ih hrest hnone.2⟩
      intro hmem
      obtain ⟨k, hk⟩ := returnsAfter_of_mem hrest hmem
      -- the bit of the first number is set from now on
      rw [bitmapAllocBlock_eq] at halloc
      cases hfind : lowestClear (s.disk sb.dataBitmapStart) with
      | none =>
          rw [hfind] at halloc
          cases halloc
          exact hnone.1 rfl
      | some bi =>
          rw [hfind] at halloc
          cases halloc
          have hbi := (lowestClear_spec hfind).1
          refine BitmapKind.block.not_returnsAfter hbi k ?_ hk
          unfold BitmapKind.bits
          rw [FsState.setBlock_disk]
          change ((Function.update s.disk sb.dataBitmapStart _) sb.dataBitmapStart).bit bi = _
          rw [Function.update_self, Bytes.bit_setBit _ (by unfold blockSize; omega)]
          simp

/-- The kernel takes the lowest clear bit of the data bitmap, and the image maker takes
the same one. -/
theorem block_search (s : FsState) :
    ((∃ s', bitmapSearchAndSet sb.dataBitmapStart s = .ok (0xFFFFFFFF, s')) ↔
      ∀ j, j < 8192 → (s.disk sb.dataBitmapStart).bit j = true) ∧
    (∀ s', bitmapSearchAndSet sb.dataBitmapStart s = .ok (0xFFFFFFFF, s') → s' = s) ∧
    (∀ b, b < 8192 → (s.disk sb.dataBitmapStart).bit b = false →
      (∀ j, j < b → (s.disk sb.dataBitmapStart).bit j = true) →
      ∃ s', bitmapSearchAndSet sb.dataBitmapStart s =
          .ok (UInt32.ofNat b + sb.dataStart, s') ∧
        (UInt32.ofNat b + sb.dataStart).toNat = b + sb.dataStart.toNat ∧
        (∀ j, (s'.disk sb.dataBitmapStart).bit j =
          ((s.disk sb.dataBitmapStart).bit j || decide (b = j))) ∧
        s' = s.setBlock sb.dataBitmapStart (s'.disk sb.dataBitmapStart) ∧
        blockAlloc s.disk = .ok (UInt32.ofNat b + sb.dataStart, s'.disk)) ∧
    ∀ n nums s', allocBlocks n s = .ok (nums, s') → 0xFFFFFFFF ∉ nums →
      nums.length = n ∧ nums.Nodup := by
  have hsearch : bitmapSearchAndSet sb.dataBitmapStart s = _ := bitmapAllocBlock_eq s
  refine ⟨?_, ?_, ?_, fun n nums s' hrun hnone =>
    ⟨length_allocBlocks hrun, nodup_allocBlocks hrun hnone⟩⟩
  · rw [hsearch, ← lowestClear_eq_none]
    cases hfind : lowestClear (s.disk sb.dataBitmapStart) with
    | none => exact iff_of_true ⟨s, rfl⟩ rfl
    | some bi =>
        refine iff_of_false ?_ (by simp)
        rintro ⟨s', hrun⟩
        exact BitmapKind.block.number_ne_failed (lowestClear_spec hfind).1
          (Prod.mk.inj (Except.ok.inj hrun)).1
  · intro s' hrun
    rw [hsearch] at hrun
    cases hfind : lowestClear (s.disk sb.dataBitmapStart) with
    | none =>
        rw [hfind] at hrun
        exact (Prod.mk.inj (Except.ok.inj hrun)).2.symm
    | some bi =>
        rw [hfind] at hrun
        exact absurd (Prod.mk.inj (Except.ok.inj hrun)).1
          (BitmapKind.block.number_ne_failed (lowestClear_spec hfind).1)
  · intro b hb hclear hbelow
    have hfind := lowestClear_of_least hb hclear hbelow
    have hmkfs := blockAlloc_eq s.disk
    rw [hfind] at hmkfs hsearch
    have hbits : (s.setBlock sb.dataBitmapStart
        ((s.disk sb.dataBitmapStart).setBit b)).disk sb.dataBitmapStart =
          (s.disk sb.dataBitmapStart).setBit b := by
      rw [FsState.setBlock_disk, Function.update_self]
    refine ⟨_, hsearch, BitmapKind.block.number_toNat hb, ?_, ?_, hmkfs⟩
    · intro j
      have hbyte : b / 8 < blockSize := by
        unfold blockSize
        omega
      rw [hbits, Bytes.bit_setBit _ hbyte]
    · rw [hbits]

end UnoOS.Mkfs
