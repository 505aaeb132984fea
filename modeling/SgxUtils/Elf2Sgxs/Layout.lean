import SgxUtils.Elf2Sgxs.Symbols
import SgxUtils.Elf2Sgxs.Relocs

/-!
# `LayoutInfo::new`: the accepted files

`LayoutInfo::new` accepts a 64-bit file whose symbols, dynamic entries and relocations pass
`check_symbols`, `check_dynamic` and `check_relocs`, tried in that order, and keeps what they
found together with the configuration.

None of the three checks reads the value of a dynamic symbol: `new` accepts a file exactly when
it accepts the same file with any other symbol values (`new_ok_revalue_iff`). In particular
nothing keeps the five spliced symbols apart (`new_accepts_aliased_splices`).

## Main results

* `new_eq_ok`: what an accepted file has passed, and what `new` keeps of it.
* `new_ok_revalue_iff`: acceptance does not depend on the symbol values.
-/

namespace SgxUtils.Elf2Sgxs
open SgxUtils.Elf

/-- `LayoutInfo`: the file, what the checks found, and the configuration. -/
structure LayoutInfo where
  elf : ElfFile
  sym : Symbols
  dyn : Option Dynamic
  ssaframesize : BitVec 32
  heapSize : BitVec 64
  stackSize : BitVec 64
  debug : Bool
  deriving DecidableEq, Repr

/-- `LayoutInfo::new`: the class, then the three checks in order. -/
def LayoutInfo.new (elf : ElfFile) (ssaframesize : BitVec 32) (heapSize stackSize : BitVec 64)
    (debug : Bool) : Except Error LayoutInfo := do
  if elf.headerClass ≠ .sixtyFour then throw .elfClassNot64
  let sym ← checkSymbols elf
  let dyn ← checkDynamic elf
  checkRelocs elf dyn
  pure ⟨elf, sym, dyn, ssaframesize, heapSize, stackSize, debug⟩

/-- A file is accepted exactly when it is 64-bit and passes the three checks; the layout holds
the file, what the checks returned and the configuration. -/
theorem new_eq_ok {elf : ElfFile} {ssa : BitVec 32} {hs ss : BitVec 64} {dbg : Bool}
    {li : LayoutInfo} :
    LayoutInfo.new elf ssa hs ss dbg = .ok li ↔
      elf.headerClass = .sixtyFour ∧ ∃ sym dyn, checkSymbols elf = .ok sym ∧
        checkDynamic elf = .ok dyn ∧ checkRelocs elf dyn = .ok () ∧
        li = ⟨elf, sym, dyn, ssa, hs, ss, dbg⟩ := by
  unfold LayoutInfo.new
  by_cases hc : elf.headerClass = .sixtyFour
  · simp only [hc, ne_eq, not_true_eq_false, if_false, true_and]
    simp only [except_bind_eq_ok, pure, Except.pure, Except.ok.injEq]
    constructor
    · rintro ⟨_, -, sym, hsym, dyn, hdyn, ⟨⟩, hrel, rfl⟩
      exact ⟨sym, dyn, hsym, hdyn, hrel, rfl⟩
    · rintro ⟨sym, dyn, hsym, hdyn, hrel, rfl⟩
      exact ⟨(), trivial, sym, hsym, dyn, hdyn, (), hrel, rfl⟩
  · exact iff_of_false (by rw [if_pos hc]; intro h; cases h) (fun h => hc h.1)

/-- A file is accepted exactly when it is 64-bit and passes the three checks. -/
theorem new_ok_iff {elf : ElfFile} {ssa : BitVec 32} {hs ss : BitVec 64} {dbg : Bool} :
    (∃ li, LayoutInfo.new elf ssa hs ss dbg = .ok li) ↔
      elf.headerClass = .sixtyFour ∧ (∃ sym, checkSymbols elf = .ok sym) ∧
        ∃ dyn, checkDynamic elf = .ok dyn ∧ checkRelocs elf dyn = .ok () := by
  simp only [new_eq_ok]
  constructor
  · rintro ⟨_, hc, sym, dyn, hsym, hdyn, hrel, -⟩
    exact ⟨hc, ⟨sym, hsym⟩, dyn, hdyn, hrel⟩
  · rintro ⟨hc, ⟨sym, hsym⟩, dyn, hdyn, hrel⟩
    exact ⟨_, hc, sym, dyn, hsym, hdyn, hrel, rfl⟩

/-! ## Symbol values are never read -/

/-- `check_relocs` reads no symbol table. -/
theorem checkRelocs_revalue (f : DynSym → BitVec 64) (elf : ElfFile) (dyn : Option Dynamic) :
    checkRelocs (elf.revalue f) dyn = checkRelocs elf dyn := by
  have hsec : ∀ sec : Section, ∀ c, checkRelocsSection (writableRanges elf) c (sec.revalue f) =
      checkRelocsSection (writableRanges elf) c sec := by
    intro sec c
    rcases sec with ⟨name, _ | _ | _⟩ <;> rfl
  have hw : writableRanges (elf.revalue f) = writableRanges elf := rfl
  unfold checkRelocs
  rw [hw, show (elf.revalue f).sections = elf.sections.map (Section.revalue f) from rfl]
  simp only [List.foldlM_map, hsec]

/-- **`new` never reads a symbol value**: it accepts a file exactly when it accepts the file
with every dynamic symbol value replaced. -/
theorem new_ok_revalue_iff (elf : ElfFile) (f : DynSym → BitVec 64) (ssa : BitVec 32)
    (hs ss : BitVec 64) (dbg : Bool) :
    (∃ li, LayoutInfo.new (elf.revalue f) ssa hs ss dbg = .ok li) ↔
      ∃ li, LayoutInfo.new elf ssa hs ss dbg = .ok li := by
  rw [new_ok_iff, new_ok_iff, checkSymbols_value_indep]
  simp only [checkRelocs_revalue]
  rfl

/-- The five spliced symbols have pairwise disjoint 8-byte ranges `[value, value + 8)`. -/
def SplicedDisjoint (s : Symbols) : Prop :=
  (SymName.sized.map s.get).Pairwise fun a b =>
    a.value.toNat + 8 ≤ b.value.toNat ∨ b.value.toNat + 8 ≤ a.value.toNat

instance (s : Symbols) : Decidable (SplicedDisjoint s) :=
  inferInstanceAs (Decidable (List.Pairwise _ _))

/-- A `.dynsym` section: the reserved entry, `sgx_entry` at `0x1000`, and the five spliced
symbols, 8 bytes each, at the given addresses. -/
def dynsymAt (heapBase heapSize rela relacount enclaveSize : BitVec 64) : Section :=
  ⟨".dynsym", .dynSymbolTable64
    [⟨"", 0, 0, 0⟩, ⟨"sgx_entry", 1, 0x1000, 0⟩, ⟨"HEAP_BASE", 2, heapBase, 8⟩,
      ⟨"HEAP_SIZE", 2, heapSize, 8⟩, ⟨"RELA", 2, rela, 8⟩, ⟨"RELACOUNT", 2, relacount, 8⟩,
      ⟨"ENCLAVE_SIZE", 2, enclaveSize, 8⟩]⟩

/-- A `PT_DYNAMIC` segment with no entries: a file without relocations. -/
def emptyDynamic : ProgramHeader := ⟨.dynamic, 6, 0, 0, .dynamic64 []⟩

/-- `HEAP_BASE` and `HEAP_SIZE` at the same address, in a file with no relocations. -/
def aliasedElf : ElfFile :=
  ⟨.sixtyFour, [dynsymAt 0x2000 0x2000 0x2010 0x2018 0x2020],
    [⟨.load, 5, 0x1000, 0x1000, .undefined []⟩, ⟨.load, 6, 0x2000, 0x1000, .undefined []⟩,
      emptyDynamic]⟩

/-- **`new` accepts two spliced symbols at one address.** -/
theorem new_accepts_aliased_splices :
    ∃ li, LayoutInfo.new aliasedElf 1 0x1000 0x1000 false = .ok li ∧ ¬ SplicedDisjoint li.sym :=
  ⟨_, rfl, by decide⟩

end SgxUtils.Elf2Sgxs
