import SgxUtils.Elf2Sgxs.Dynamic

/-!
# `check_relocs`: the relocations

`check_relocs` collects the `virtual_addr..virtual_addr + mem_size` ranges of the writable
`PT_LOAD` segments, then walks every `SHT_RELA` section: it adds the section's length to a
count and requires each entry to be `R_X86_64_RELATIVE` against symbol `0`, with its 8 target
bytes inside one of the ranges. The count must equal `DT_RELACOUNT`, `0` without a dynamic
entry pair.

Both ends of the range test are `u64` sums, `offset + 8` and `virtual_addr + mem_size`, and
wrap near `2^64`. `checkRelocs_eq_ok` states the test as the code computes it;
`checkRelocs_ok_iff_of_no_wrap` is the test on unbounded integers, which it is exactly when no
sum wraps.
-/

namespace SgxUtils.Elf2Sgxs
open SgxUtils.Elf

/-- `R_X86_64_RELATIVE`. -/
def rX86_64Relative : BitVec 32 := 8

/-- `writable_ranges`: `virtual_addr..virtual_addr + mem_size` of each writable `PT_LOAD`, the
end computed in `u64`. -/
def writableRanges (elf : ElfFile) : List (BitVec 64 × BitVec 64) :=
  elf.programs.filterMap fun ph =>
    if ph.phType = .load ∧ ph.flags &&& flagW = flagW then
      some (ph.virtualAddr, ph.virtualAddr + ph.memSize)
    else none

/-- The checks on one relocation: type `R_X86_64_RELATIVE` against symbol `0`, then a range
with `offset >= r.start && offset + 8 <= r.end`, in `u64`. -/
def checkRela (ranges : List (BitVec 64 × BitVec 64)) (rela : Rela) : Except Error Unit :=
  let shind := rela.getSymbolTableIndex
  let rtype := rela.getType
  if (shind, rtype) ≠ (0, rX86_64Relative) then .error (.relocationInvalid shind rtype)
  else if (ranges.find? fun r => decide (rela.offset ≥ r.1 ∧ rela.offset + 8 ≤ r.2)).isNone then
    .error (.relocationOutsideWritableSegment rela.offset)
  else .ok ()

/-- One section of the loop: a `Rela64` section adds its length to the count and checks its
entries in order; any other section is skipped. -/
def checkRelocsSection (ranges : List (BitVec 64 × BitVec 64)) (count : ℕ) (sec : Section) :
    Except Error ℕ :=
  match sec.data with
  | .rela64 relas => do
    relas.forM (checkRela ranges)
    pure (count + relas.length)
  | _ => .ok count

/-- `check_relocs`: the loop over the sections, then the count against `DT_RELACOUNT`. -/
def checkRelocs (elf : ElfFile) (dynamic : Option Dynamic) : Except Error Unit := do
  let ranges := writableRanges elf
  let count ← elf.sections.foldlM (checkRelocsSection ranges) 0
  let target := (dynamic.map (·.relacount.un)).getD 0
  if BitVec.ofNat 64 count ≠ target then .error (.relocationInvalidCount target count)
  else .ok ()

/-- The entries of a `Rela64` section; none for any other. -/
def relasOf (sec : Section) : List Rela :=
  match sec.data with
  | .rela64 relas => relas
  | _ => []

/-- Every entry of every `Rela64` section, in section order: what `check_relocs` inspects. -/
def relocEntries (elf : ElfFile) : List Rela := elf.sections.flatMap relasOf

theorem mem_writableRanges {elf : ElfFile} {rg : BitVec 64 × BitVec 64} :
    rg ∈ writableRanges elf ↔ ∃ ph ∈ elf.programs, ph.phType = .load ∧
      ph.flags &&& flagW = flagW ∧ rg = (ph.virtualAddr, ph.virtualAddr + ph.memSize) := by
  simp only [writableRanges, List.mem_filterMap]
  constructor
  · rintro ⟨ph, hph, h⟩
    split at h
    · next hw => cases h; exact ⟨ph, hph, hw.1, hw.2, rfl⟩
    · cases h
  · rintro ⟨ph, hph, hl, hw, rfl⟩
    exact ⟨ph, hph, by simp [hl, hw]⟩

/-- One relocation passes exactly when it is `R_X86_64_RELATIVE` against symbol `0` and a
writable range holds it in the `u64` test. -/
theorem checkRela_eq_ok {ranges : List (BitVec 64 × BitVec 64)} {r : Rela} :
    checkRela ranges r = .ok () ↔ r.getSymbolTableIndex = 0 ∧ r.getType = rX86_64Relative ∧
      ∃ rg ∈ ranges, rg.1 ≤ r.offset ∧ r.offset + 8 ≤ rg.2 := by
  have hfind : (ranges.find? fun rg => decide (r.offset ≥ rg.1 ∧ r.offset + 8 ≤ rg.2)).isNone ↔
      ¬ ∃ rg ∈ ranges, rg.1 ≤ r.offset ∧ r.offset + 8 ≤ rg.2 := by
    simp [Option.isNone_iff_eq_none, List.find?_eq_none]
  unfold checkRela
  by_cases ht : (r.getSymbolTableIndex, r.getType) = (0, rX86_64Relative)
  · simp only [Prod.mk.injEq] at ht
    simp only [ht, ne_eq, not_true_eq_false, if_false, true_and]
    split
    · next hn => simp only [reduceCtorEq, false_iff]; exact hfind.1 hn
    · next hn => simp only [true_iff]; by_contra hne; exact hn (hfind.2 hne)
  · rw [if_pos ht]
    simp only [reduceCtorEq, false_iff, not_and]
    intro h1 h2
    exact absurd (by rw [h1, h2]) ht

/-- One section passes and adds its length exactly when each of its entries passes. -/
theorem checkRelocsSection_eq_ok {ranges : List (BitVec 64 × BitVec 64)} {c m : ℕ}
    {sec : Section} :
    checkRelocsSection ranges c sec = .ok m ↔
      (∀ r ∈ relasOf sec, checkRela ranges r = .ok ()) ∧ m = c + (relasOf sec).length := by
  unfold checkRelocsSection relasOf
  split
  · rw [except_bind_eq_ok, ← except_forM_eq_ok]
    constructor
    · rintro ⟨⟨⟩, hf, hm⟩; cases hm; exact ⟨hf, rfl⟩
    · rintro ⟨hf, rfl⟩; exact ⟨(), hf, rfl⟩
  · simp [eq_comm]

/-- The section loop returns the number of entries exactly when every entry passes. -/
theorem foldlM_checkRelocsSection_eq_ok {ranges : List (BitVec 64 × BitVec 64)}
    {secs : List Section} {c n : ℕ} :
    secs.foldlM (checkRelocsSection ranges) c = .ok n ↔
      (∀ r ∈ secs.flatMap relasOf, checkRela ranges r = .ok ()) ∧
        n = c + (secs.flatMap relasOf).length := by
  induction secs generalizing c with
  | nil =>
    simp only [List.foldlM_nil, List.flatMap_nil, List.not_mem_nil, false_imp_iff,
      implies_true, true_and, List.length_nil, Nat.add_zero]
    exact ⟨fun h => by cases h; rfl, fun h => by subst h; rfl⟩
  | cons sec secs ih =>
    simp only [List.foldlM_cons, except_bind_eq_ok, checkRelocsSection_eq_ok, ih,
      List.flatMap_cons, List.mem_append, List.length_append]
    constructor
    · rintro ⟨m, ⟨h1, rfl⟩, h2, rfl⟩
      exact ⟨fun r hr => hr.elim (h1 r) (h2 r), by omega⟩
    · rintro ⟨hall, rfl⟩
      exact ⟨c + (relasOf sec).length, ⟨fun r hr => hall r (.inl hr), rfl⟩,
        fun r hr => hall r (.inr hr), by omega⟩

/-- **`check_relocs` as the code computes it.** It returns `Ok(())` exactly when every
inspected entry passes the `u64` test and the number of entries, as a `u64`, is
`DT_RELACOUNT` (`0` without the pair). -/
theorem checkRelocs_eq_ok {elf : ElfFile} {dyn : Option Dynamic} :
    checkRelocs elf dyn = .ok () ↔
      (∀ r ∈ relocEntries elf, checkRela (writableRanges elf) r = .ok ()) ∧
        BitVec.ofNat 64 (relocEntries elf).length = (dyn.map (·.relacount.un)).getD 0 := by
  simp only [checkRelocs, except_bind_eq_ok, foldlM_checkRelocsSection_eq_ok, relocEntries]
  constructor
  · rintro ⟨n, ⟨hall, rfl⟩, h⟩
    refine ⟨hall, ?_⟩
    rw [Nat.zero_add] at h
    by_contra hne
    rw [if_pos hne] at h
    cases h
  · rintro ⟨hall, hcount⟩
    refine ⟨_, ⟨hall, rfl⟩, ?_⟩
    rw [Nat.zero_add, if_neg (not_not.2 hcount)]

/-! ## The test on unbounded integers -/

/-- Entry `r` keeps the rules on unbounded integers: `R_X86_64_RELATIVE` against symbol `0`,
with `[r_offset, r_offset + 8)` inside `[p_vaddr, p_vaddr + p_memsz)` of a writable
`PT_LOAD`. -/
def RelaValid (elf : ElfFile) (r : Rela) : Prop :=
  r.getSymbolTableIndex = 0 ∧ r.getType = rX86_64Relative ∧
    ∃ ph ∈ elf.programs, ph.phType = .load ∧ ph.flags &&& flagW = flagW ∧
      ph.virtualAddr.toNat ≤ r.offset.toNat ∧
      r.offset.toNat + 8 ≤ ph.virtualAddr.toNat + ph.memSize.toNat

instance (elf : ElfFile) (r : Rela) : Decidable (RelaValid elf r) :=
  inferInstanceAs (Decidable (_ ∧ _ ∧ ∃ ph ∈ elf.programs, _))

/-- Every inspected entry keeps the rules, and there are `DT_RELACOUNT` of them (`0` without
the pair). -/
def RelocsValid (elf : ElfFile) (dyn : Option Dynamic) : Prop :=
  (∀ r ∈ relocEntries elf, RelaValid elf r) ∧
  (relocEntries elf).length = ((dyn.map fun d : Dynamic => d.relacount.un).getD 0).toNat

instance (elf : ElfFile) (dyn : Option Dynamic) : Decidable (RelocsValid elf dyn) :=
  inferInstanceAs (Decidable ((∀ r ∈ relocEntries elf, RelaValid elf r) ∧ _))

/-- Without wrapping, the `u64` range test is the test on unbounded integers. -/
theorem range_test_iff {v m off : BitVec 64} (hoff : off.toNat + 8 < 2 ^ 64)
    (hseg : v.toNat + m.toNat < 2 ^ 64) :
    (v ≤ off ∧ off + 8 ≤ v + m) ↔ (v.toNat ≤ off.toNat ∧ off.toNat + 8 ≤ v.toNat + m.toNat) := by
  constructor <;> intro h <;> bv_omega

/-- Without wrapping, one entry passes `check_relocs` exactly when it keeps the rules. -/
theorem checkRela_eq_ok_iff_relaValid {elf : ElfFile} {r : Rela}
    (hoff : r.offset.toNat + 8 < 2 ^ 64)
    (hseg : ∀ ph ∈ elf.programs, ph.phType = .load → ph.flags &&& flagW = flagW →
      ph.virtualAddr.toNat + ph.memSize.toNat < 2 ^ 64) :
    checkRela (writableRanges elf) r = .ok () ↔ RelaValid elf r := by
  rw [checkRela_eq_ok, RelaValid]
  refine and_congr_right fun _ => and_congr_right fun _ => ⟨?_, ?_⟩
  · rintro ⟨rg, hrg, h⟩
    obtain ⟨ph, hph, hl, hw, rfl⟩ := mem_writableRanges.1 hrg
    exact ⟨ph, hph, hl, hw, (range_test_iff hoff (hseg ph hph hl hw)).1 h⟩
  · rintro ⟨ph, hph, hl, hw, h⟩
    exact ⟨_, mem_writableRanges.2 ⟨ph, hph, hl, hw, rfl⟩,
      (range_test_iff hoff (hseg ph hph hl hw)).2 h⟩

/-- **Without wrapping, `check_relocs` decides the rules on unbounded integers.** When no
relocation offset is within 8 of `2^64`, no writable segment ends past `2^64` and the number of
entries fits a `u64`, `check_relocs` returns `Ok(())` exactly when `RelocsValid` holds. -/
theorem checkRelocs_ok_iff_of_no_wrap (elf : ElfFile) (dyn : Option Dynamic)
    (hoff : ∀ r ∈ relocEntries elf, r.offset.toNat + 8 < 2 ^ 64)
    (hseg : ∀ ph ∈ elf.programs, ph.phType = .load → ph.flags &&& flagW = flagW →
      ph.virtualAddr.toNat + ph.memSize.toNat < 2 ^ 64)
    (hcount : (relocEntries elf).length < 2 ^ 64) :
    checkRelocs elf dyn = .ok () ↔ RelocsValid elf dyn := by
  have hcnt : ∀ t : BitVec 64, BitVec.ofNat 64 (relocEntries elf).length = t ↔
      (relocEntries elf).length = t.toNat := fun t => by
    rw [BitVec.toNat_eq, BitVec.toNat_ofNat, Nat.mod_eq_of_lt hcount]
  rw [checkRelocs_eq_ok, RelocsValid, hcnt]
  exact and_congr_left' (forall₂_congr fun r hr => checkRela_eq_ok_iff_relaValid (hoff r hr) hseg)

/-- The `DT_RELA`/`DT_RELACOUNT` pair of the files below: one relocation. -/
def oneRelaDyn : Dynamic := ⟨⟨.rela, 0x3000⟩, ⟨dtRelacount, 1⟩⟩

/-- One writable page at `0x1000` and one relocation on its second word. -/
def writableWordElf : ElfFile :=
  ⟨.sixtyFour, [⟨".rela.dyn", .rela64 [⟨0x1008, 8, 0⟩]⟩],
    [⟨.load, 6, 0x1000, 0x1000, .undefined []⟩,
      ⟨.dynamic, 6, 0, 0, .dynamic64 [oneRelaDyn.rela, oneRelaDyn.relacount]⟩]⟩

/-- Nothing in `writableWordElf` is near `2^64`, so the two tests agree on it. -/
theorem checkRelocs_ok_iff_of_no_wrap_writableWord :
    (∀ r ∈ relocEntries writableWordElf, r.offset.toNat + 8 < 2 ^ 64) ∧
      (∀ ph ∈ writableWordElf.programs, ph.phType = .load → ph.flags &&& flagW = flagW →
        ph.virtualAddr.toNat + ph.memSize.toNat < 2 ^ 64) ∧
      (relocEntries writableWordElf).length < 2 ^ 64 ∧
      (checkRelocs writableWordElf (some oneRelaDyn) = .ok () ↔
        RelocsValid writableWordElf (some oneRelaDyn)) :=
  ⟨by decide, by decide, by decide,
    checkRelocs_ok_iff_of_no_wrap _ _ (by decide) (by decide) (by decide)⟩

/-- A writable segment ending exactly at `2^64`, with one relocation on its first word. -/
def topSegmentElf : ElfFile :=
  ⟨.sixtyFour, [⟨".rela.dyn", .rela64 [⟨0xfffffffffffff000, 8, 0⟩]⟩],
    [⟨.load, 6, 0xfffffffffffff000, 0x1000, .undefined []⟩,
      ⟨.dynamic, 6, 0, 0, .dynamic64 [oneRelaDyn.rela, oneRelaDyn.relacount]⟩]⟩

/-- **A relocation inside a writable segment that ends at `2^64` is rejected**: the segment's
end `virtual_addr + mem_size` wraps to `0`. -/
theorem checkRelocs_rejects_segment_at_top :
    checkDynamic topSegmentElf = .ok (some oneRelaDyn) ∧ RelocsValid topSegmentElf (some oneRelaDyn) ∧
      checkRelocs topSegmentElf (some oneRelaDyn) =
        .error (.relocationOutsideWritableSegment 0xfffffffffffff000) :=
  ⟨rfl, by decide, rfl⟩

/-- A writable segment at `0x1000` and a relocation 4 bytes below `2^64`. -/
def wrappedOffsetElf : ElfFile :=
  ⟨.sixtyFour, [⟨".rela.dyn", .rela64 [⟨0xfffffffffffffffc, 8, 0⟩]⟩],
    [⟨.load, 6, 0x1000, 0x1000, .undefined []⟩,
      ⟨.dynamic, 6, 0, 0, .dynamic64 [oneRelaDyn.rela, oneRelaDyn.relacount]⟩]⟩

/-- **A relocation outside every segment is accepted**: `offset + 8` wraps to `4`. -/
theorem checkRelocs_accepts_wrapped_offset :
    checkDynamic wrappedOffsetElf = .ok (some oneRelaDyn) ∧
      ¬ RelocsValid wrappedOffsetElf (some oneRelaDyn) ∧
      checkRelocs wrappedOffsetElf (some oneRelaDyn) = .ok () :=
  ⟨rfl, by decide, rfl⟩

end SgxUtils.Elf2Sgxs
