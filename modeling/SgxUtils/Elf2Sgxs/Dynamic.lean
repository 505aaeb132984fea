import SgxUtils.Elf.File
import SgxUtils.Lib.Scan

/-!
# `check_dynamic`: the entries of the dynamic segment

`check_dynamic` finds the first `PT_DYNAMIC` program header and walks all of its entries with
two slots, `rela` and `relacount`. An entry for PLT/GOT, `.init`, `.fini` or implicit-addend
relocations fails at once; a second `DT_RELA` or `DT_RELACOUNT` fails as a duplicate; any other
tag is ignored. After the walk the two slots must be both full or both empty.

`checkDynamic_spec` gives the result for every list of entries.
-/

namespace SgxUtils.Elf2Sgxs
open SgxUtils.Elf

/-- `DT_RELACOUNT`, an OS-specific tag. -/
def dtRelacount : Tag := .osSpecific 0x6ffffff9

/-- `DT_RELCOUNT`, an OS-specific tag. -/
def dtRelcount : Tag := .osSpecific 0x6ffffffa

/-- `Dynamic`: the `DT_RELA` and `DT_RELACOUNT` entries. -/
structure Dynamic where
  rela : DynEntry
  relacount : DynEntry
  deriving DecidableEq, Repr

/-- One pass of the loop: the arms of the `match` on the entry's tag, in order. -/
def checkDynamicStep (slots : Option DynEntry × Option DynEntry) (dyn : DynEntry) :
    Except Error (Option DynEntry × Option DynEntry) :=
  match dyn.tag with
  | .pltRelSize | .pltRel | .jmpRel => .error .dynEntryUnsupportedPLTGOT
  | .init | .initArray | .initArraySize => .error .dynEntryUnsupportedInitFunction
  | .fini | .finiArray | .finiArraySize => .error .dynEntryUnsupportedFiniFunction
  | .rel | .relSize | .relEnt => .error .dynEntryUnsupportedImplicitReloc
  | .rela =>
    if slots.1.isSome then .error .dynEntryDuplicateDtRela else .ok (some dyn, slots.2)
  | tag =>
    if tag = dtRelcount then .error .dynEntryUnsupportedImplicitReloc
    else if tag = dtRelacount then
      if slots.2.isSome then .error .dynEntryDuplicateDtRelacount else .ok (slots.1, some dyn)
    else .ok slots

/-- The loop over the entries of the dynamic segment, then the final `match` on the slots. -/
def checkDynEntries (dyns : List DynEntry) : Except Error (Option Dynamic) := do
  let slots ← dyns.foldlM checkDynamicStep (none, none)
  match slots with
  | (some rela, some relacount) => .ok (some ⟨rela, relacount⟩)
  | (none, none) => .ok none
  | (_, none) => .error .dynEntryFoundDtRelaButNotDtRelacount
  | (none, _) => .error .dynEntryFoundDtRelacountButNotDtRela

/-- `check_dynamic`: the first `PT_DYNAMIC` header, whose data must be a dynamic section. -/
def checkDynamic (elf : ElfFile) : Except Error (Option Dynamic) :=
  match elf.programs.find? (·.phType = .dynamic) with
  | some dynh =>
    match dynh.data with
    | .dynamic64 dyns => checkDynEntries dyns
    | _ => .error .dynamicSectionNotInPtDynamicSegment
  | none => .error .dynamicSectionNotFound

/-! ## The rules -/

/-- The tags `check_dynamic` rejects outright. -/
def forbiddenTags : List Tag :=
  [.pltRelSize, .pltRel, .jmpRel, .init, .initArray, .initArraySize, .fini, .finiArray,
    .finiArraySize, .rel, .relSize, .relEnt, dtRelcount]

/-- The error for a rejected tag: its group in the `match`. -/
def forbiddenError (t : Tag) : Error :=
  if t ∈ [.pltRelSize, .pltRel, .jmpRel] then .dynEntryUnsupportedPLTGOT
  else if t ∈ [.init, .initArray, .initArraySize] then .dynEntryUnsupportedInitFunction
  else if t ∈ [.fini, .finiArray, .finiArraySize] then .dynEntryUnsupportedFiniFunction
  else .dynEntryUnsupportedImplicitReloc

/-- The step, arm by arm: a rejected tag, then `DT_RELA`, then `DT_RELACOUNT`, then the rest. -/
theorem checkDynamicStep_eq (r c : Option DynEntry) (x : DynEntry) :
    checkDynamicStep (r, c) x =
      if x.tag ∈ forbiddenTags then .error (forbiddenError x.tag)
      else if x.tag = .rela then
        (if r.isSome then .error .dynEntryDuplicateDtRela else .ok (some x, c))
      else if x.tag = dtRelacount then
        (if c.isSome then .error .dynEntryDuplicateDtRelacount else .ok (r, some x))
      else .ok (r, c) := by
  rcases x with ⟨t, u⟩
  cases t <;> simp [checkDynamicStep, forbiddenTags, forbiddenError, dtRelcount, dtRelacount]

/-- Entry `x`, after the entries `p` before it, is rejected: its tag is forbidden, or it is a
second `DT_RELA` or a second `DT_RELACOUNT`. -/
def EntryOffends (p : List DynEntry) (x : DynEntry) : Prop :=
  x.tag ∈ forbiddenTags ∨ (x.tag = .rela ∧ ∃ y ∈ p, y.tag = .rela) ∨
    (x.tag = dtRelacount ∧ ∃ y ∈ p, y.tag = dtRelacount)

/-- The error for a rejected entry. -/
def entryOffenceError (x : DynEntry) : Error :=
  if x.tag ∈ forbiddenTags then forbiddenError x.tag
  else if x.tag = .rela then .dynEntryDuplicateDtRela else .dynEntryDuplicateDtRelacount

/-- No entry is rejected after the entries before it. -/
def NoEntryOffence (l : List DynEntry) : Prop := ∀ p x q, l = p ++ x :: q → ¬ EntryOffends p x

/-- The slots after a prefix with no rejected entry: the first `DT_RELA` and `DT_RELACOUNT`. -/
def slotsAfter (p : List DynEntry) : Option DynEntry × Option DynEntry :=
  (p.find? (·.tag == .rela), p.find? (·.tag == dtRelacount))

theorem find?_tag_isSome {p : List DynEntry} {t : Tag} :
    (p.find? (·.tag == t)).isSome ↔ ∃ y ∈ p, y.tag = t := by
  simp

/-- The loop's step follows `EntryOffends`, `slotsAfter` and `entryOffenceError`. -/
theorem checkDynamicStep_spec :
    StepSpec checkDynamicStep slotsAfter (fun p x => ¬ EntryOffends p x)
      (fun _ x => entryOffenceError x) where
  ok p x hx := by
    simp only [EntryOffends, not_or, not_and] at hx
    obtain ⟨hf, hr, hc⟩ := hx
    have hrc : dtRelacount ≠ .rela := by decide
    rw [slotsAfter, checkDynamicStep_eq, if_neg hf]
    by_cases htr : x.tag = .rela
    · have hnone := mt find?_tag_isSome.1 (hr htr)
      rw [if_pos htr, if_neg hnone]
      simp [slotsAfter, htr, hrc.symm, Option.not_isSome_iff_eq_none.1 hnone]
    · by_cases htc : x.tag = dtRelacount
      · have hnone := mt find?_tag_isSome.1 (hc htc)
        rw [if_neg htr, if_pos htc, if_neg hnone]
        simp [slotsAfter, htc, hrc, Option.not_isSome_iff_eq_none.1 hnone]
      · rw [if_neg htr, if_neg htc]
        simp [slotsAfter, htr, htc]
  error p x hx := by
    rw [not_not] at hx
    rw [slotsAfter, checkDynamicStep_eq, entryOffenceError]
    rcases hx with hf | ⟨htr, hy⟩ | ⟨htc, hy⟩
    · simp [hf]
    · have hf : Tag.rela ∉ forbiddenTags := by decide
      simp [hf, htr, find?_tag_isSome.2 hy]
    · have hf : dtRelacount ∉ forbiddenTags := by decide
      have hrc : dtRelacount ≠ .rela := by decide
      simp [hf, hrc, htc, find?_tag_isSome.2 hy]

/-- A rejected entry's tag is not repeated after a prefix it is not rejected after. -/
theorem not_repeat_of_not_entryOffends (t : Tag) (ht : t = .rela ∨ t = dtRelacount)
    (p : List DynEntry) (x : DynEntry) (hx : ¬ EntryOffends p x) (hxt : (x.tag == t) = true) :
    ∀ y ∈ p, ¬ (y.tag == t) = true := by
  simp only [beq_iff_eq] at hxt ⊢
  intro y hy hyt
  rcases ht with rfl | rfl
  · exact hx (.inr (.inl ⟨hxt, y, hy, hyt⟩))
  · exact hx (.inr (.inr ⟨hxt, y, hy, hyt⟩))

/-- Over a table with no rejected entry, the loop keeps the first `DT_RELA` and
`DT_RELACOUNT`. -/
theorem foldlM_checkDynamicStep {l : List DynEntry} (h : NoEntryOffence l) :
    l.foldlM checkDynamicStep (none, none) = .ok (slotsAfter l) :=
  checkDynamicStep_spec.foldlM_of_goodFrom (c := []) (goodFrom_iff.2 (by simpa using h))

/-- The final `match` on the two slots. -/
theorem checkDynEntries_of_noEntryOffence {l : List DynEntry} (h : NoEntryOffence l) :
    checkDynEntries l = match slotsAfter l with
      | (some rela, some relacount) => .ok (some ⟨rela, relacount⟩)
      | (none, none) => .ok none
      | (_, none) => .error .dynEntryFoundDtRelaButNotDtRelacount
      | (none, _) => .error .dynEntryFoundDtRelacountButNotDtRela := by
  simp only [checkDynEntries, foldlM_checkDynamicStep h]
  rfl

/-- A table with no forbidden tag and at most one `DT_RELA` and one `DT_RELACOUNT` has no
rejected entry. -/
theorem noEntryOffence_of_counts {l : List DynEntry} (hf : ∀ x ∈ l, x.tag ∉ forbiddenTags)
    (hr : l.countP (·.tag == .rela) ≤ 1) (hc : l.countP (·.tag == dtRelacount) ≤ 1) :
    NoEntryOffence l := by
  rintro p x q rfl (hx | ⟨htr, y, hy, hyt⟩ | ⟨htc, y, hy, hyt⟩)
  · exact hf x (by simp) hx
  · have : 0 < p.countP (·.tag == .rela) := List.countP_pos_iff.2 ⟨y, hy, by simp [hyt]⟩
    rw [List.countP_append, List.countP_cons_of_pos _ _ (by simp [htr])] at hr
    omega
  · have : 0 < p.countP (·.tag == dtRelacount) := List.countP_pos_iff.2 ⟨y, hy, by simp [hyt]⟩
    rw [List.countP_append, List.countP_cons_of_pos _ _ (by simp [htc])] at hc
    omega

/-- A check that returns normally saw no rejected entry. -/
theorem noEntryOffence_of_ok {l : List DynEntry} {r : Option Dynamic}
    (h : checkDynEntries l = .ok r) : NoEntryOffence l := by
  obtain ⟨slots, hloop, -⟩ := except_bind_eq_ok.1 h
  simpa using goodFrom_iff.1 (checkDynamicStep_spec.goodFrom_of_foldlM_ok (c := []) hloop)

theorem countP_tag_le_one {l : List DynEntry} (h : NoEntryOffence l) {t : Tag}
    (ht : t = .rela ∨ t = dtRelacount) : l.countP (·.tag == t) ≤ 1 :=
  countP_le_one_of_noRepeat (not_repeat_of_not_entryOffends t ht) h

theorem find?_tag_eq {l : List DynEntry} (h : NoEntryOffence l) {t : Tag}
    (ht : t = .rela ∨ t = dtRelacount) {x : DynEntry} (hx : x ∈ l) (hxt : x.tag = t) :
    l.find? (·.tag == t) = some x :=
  find?_eq_of_noRepeat (not_repeat_of_not_entryOffends t ht) h hx (by simp [hxt])

theorem find?_tag_eq_none {l : List DynEntry} {t : Tag} :
    l.find? (·.tag == t) = none ↔ ∀ x ∈ l, x.tag ≠ t := by
  simp

theorem tag_rela_or : Tag.rela = .rela ∨ Tag.rela = dtRelacount := .inl rfl

theorem tag_relacount_or : dtRelacount = .rela ∨ dtRelacount = dtRelacount := .inr rfl

theorem not_forbidden_of_noEntryOffence {l : List DynEntry} (h : NoEntryOffence l) :
    ∀ x ∈ l, x.tag ∉ forbiddenTags := fun x hx hf => by
  obtain ⟨p, q, rfl⟩ := List.append_of_mem hx
  exact h p x q rfl (.inl hf)

/-- The walk returns `Some(d)` exactly when no tag is forbidden and exactly one entry is
`DT_RELA` and one `DT_RELACOUNT`, `d` holding those two. -/
theorem checkDynEntries_eq_ok_some {dyns : List DynEntry} {d : Dynamic} :
    checkDynEntries dyns = .ok (some d) ↔
      (∀ x ∈ dyns, x.tag ∉ forbiddenTags) ∧ dyns.countP (·.tag == .rela) = 1 ∧
        dyns.countP (·.tag == dtRelacount) = 1 ∧ d.rela ∈ dyns ∧ d.rela.tag = .rela ∧
        d.relacount ∈ dyns ∧ d.relacount.tag = dtRelacount := by
  constructor
  · intro h
    have hno := noEntryOffence_of_ok h
    rw [checkDynEntries_of_noEntryOffence hno, slotsAfter] at h
    cases hr : dyns.find? (·.tag == .rela) <;> cases hc : dyns.find? (·.tag == dtRelacount) <;>
      simp only [hr, hc] at h <;> cases h
    next r c =>
      have hrt : r.tag = .rela := by simpa using List.find?_some hr
      have hct : c.tag = dtRelacount := by simpa using List.find?_some hc
      have hrm := List.mem_of_find?_eq_some hr
      have hcm := List.mem_of_find?_eq_some hc
      have hr1 := countP_tag_le_one hno tag_rela_or
      have hc1 := countP_tag_le_one hno tag_relacount_or
      have hr0 : 0 < dyns.countP (·.tag == .rela) := List.countP_pos_iff.2 ⟨r, hrm, by simp [hrt]⟩
      have hc0 : 0 < dyns.countP (·.tag == dtRelacount) :=
        List.countP_pos_iff.2 ⟨c, hcm, by simp [hct]⟩
      exact ⟨not_forbidden_of_noEntryOffence hno, by omega, by omega, hrm, hrt, hcm, hct⟩
  · rintro ⟨hf, hr1, hc1, hrm, hrt, hcm, hct⟩
    have hno := noEntryOffence_of_counts hf hr1.le hc1.le
    rw [checkDynEntries_of_noEntryOffence hno, slotsAfter, find?_tag_eq hno tag_rela_or hrm hrt,
      find?_tag_eq hno tag_relacount_or hcm hct]

/-- The walk returns `None` exactly when no tag is forbidden, `DT_RELA` or `DT_RELACOUNT`. -/
theorem checkDynEntries_eq_ok_none {dyns : List DynEntry} :
    checkDynEntries dyns = .ok none ↔
      ∀ x ∈ dyns, x.tag ∉ forbiddenTags ∧ x.tag ≠ .rela ∧ x.tag ≠ dtRelacount := by
  constructor
  · intro h
    have hno := noEntryOffence_of_ok h
    rw [checkDynEntries_of_noEntryOffence hno, slotsAfter] at h
    cases hr : dyns.find? (·.tag == .rela) <;> cases hc : dyns.find? (·.tag == dtRelacount) <;>
      simp only [hr, hc] at h <;> cases h
    intro x hx
    exact ⟨not_forbidden_of_noEntryOffence hno x hx, find?_tag_eq_none.1 hr x hx,
      find?_tag_eq_none.1 hc x hx⟩
  · intro h
    have hno : NoEntryOffence dyns := by
      rintro p x q rfl (hx | ⟨htr, -⟩ | ⟨htc, -⟩)
      · exact (h x (by simp)).1 hx
      · exact (h x (by simp)).2.1 htr
      · exact (h x (by simp)).2.2 htc
    rw [checkDynEntries_of_noEntryOffence hno, slotsAfter,
      find?_tag_eq_none.2 fun x hx => (h x hx).2.1, find?_tag_eq_none.2 fun x hx => (h x hx).2.2]

/-- The walk fails with the error of the first rejected entry. -/
theorem checkDynEntries_of_first_offence {dyns p q : List DynEntry} {x : DynEntry}
    (hl : dyns = p ++ x :: q) (hp : NoEntryOffence p) (hx : EntryOffends p x) :
    checkDynEntries dyns = .error (entryOffenceError x) := by
  have hloop := checkDynamicStep_spec.foldlM_of_first_bad (c := []) (q := q)
    (goodFrom_iff.2 (by simpa using hp)) (by simpa using hx)
  rw [hl]
  simp only [checkDynEntries]
  show (List.foldlM checkDynamicStep (slotsAfter []) (p ++ x :: q) >>= _) = _
  rw [hloop]
  rfl

/-- **`check_dynamic` on every dynamic segment.** It returns `Some(d)` exactly when no tag is
forbidden and exactly one entry is `DT_RELA` and one `DT_RELACOUNT`, `d` holding those two;
it returns `None` exactly when no tag is forbidden, `DT_RELA` or `DT_RELACOUNT`. Otherwise it
fails with the error of the first entry with a forbidden tag or a second `DT_RELA` or
`DT_RELACOUNT`, or, with no such entry, with the error naming the one of the pair found. -/
theorem checkDynamic_spec (elf : ElfFile) (dyns : List DynEntry)
    (hdyn : (elf.programs.find? (·.phType = .dynamic)).map ProgramHeader.data =
      some (.dynamic64 dyns)) :
    (∀ d, checkDynamic elf = .ok (some d) ↔
      (∀ x ∈ dyns, x.tag ∉ forbiddenTags) ∧ dyns.countP (·.tag == .rela) = 1 ∧
        dyns.countP (·.tag == dtRelacount) = 1 ∧ d.rela ∈ dyns ∧ d.rela.tag = .rela ∧
        d.relacount ∈ dyns ∧ d.relacount.tag = dtRelacount) ∧
    (checkDynamic elf = .ok none ↔
      ∀ x ∈ dyns, x.tag ∉ forbiddenTags ∧ x.tag ≠ .rela ∧ x.tag ≠ dtRelacount) ∧
    (∀ p x q, dyns = p ++ x :: q → NoEntryOffence p → EntryOffends p x →
      checkDynamic elf = .error (entryOffenceError x)) ∧
    (NoEntryOffence dyns → (∃ x ∈ dyns, x.tag = .rela) → (∀ x ∈ dyns, x.tag ≠ dtRelacount) →
      checkDynamic elf = .error .dynEntryFoundDtRelaButNotDtRelacount) ∧
    (NoEntryOffence dyns → (∀ x ∈ dyns, x.tag ≠ .rela) → (∃ x ∈ dyns, x.tag = dtRelacount) →
      checkDynamic elf = .error .dynEntryFoundDtRelacountButNotDtRela) := by
  obtain ⟨ph, hph, hdata⟩ := Option.map_eq_some'.1 hdyn
  have hcheck : checkDynamic elf = checkDynEntries dyns := by
    simp [checkDynamic, hph, hdata]
  rw [hcheck]
  refine ⟨fun d => checkDynEntries_eq_ok_some, checkDynEntries_eq_ok_none,
    fun p x q => checkDynEntries_of_first_offence, fun hno ⟨r, hr, hrt⟩ hc => ?_,
    fun hno hr ⟨c, hc, hct⟩ => ?_⟩
  · rw [checkDynEntries_of_noEntryOffence hno, slotsAfter, find?_tag_eq hno tag_rela_or hr hrt,
      find?_tag_eq_none.2 hc]
  · rw [checkDynEntries_of_noEntryOffence hno, slotsAfter, find?_tag_eq_none.2 hr,
      find?_tag_eq hno tag_relacount_or hc hct]

/-- A dynamic segment with one `DT_RELA` and one `DT_RELACOUNT`. -/
def relaPair : List DynEntry := [⟨.rela, 0x3000⟩, ⟨dtRelacount, 1⟩]

/-- An ELF file whose only program header is a `PT_DYNAMIC` holding `relaPair`. -/
def relaPairElf : ElfFile := ⟨.sixtyFour, [], [⟨.dynamic, 0, 0, 0, .dynamic64 relaPair⟩]⟩

theorem checkDynamic_spec_relaPair :
    (relaPairElf.programs.find? (·.phType = .dynamic)).map ProgramHeader.data =
      some (.dynamic64 relaPair) ∧
    checkDynamic relaPairElf = .ok (some ⟨⟨.rela, 0x3000⟩, ⟨dtRelacount, 1⟩⟩) :=
  ⟨rfl, ((checkDynamic_spec relaPairElf relaPair rfl).1 _).2
    ⟨by decide, rfl, rfl, by decide, rfl, by decide, rfl⟩⟩

end SgxUtils.Elf2Sgxs
