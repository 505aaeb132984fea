import SgxUtils.Elf.File
import SgxUtils.Lib.Scan

/-!
# `check_symbols`: the required dynamic symbols

`check_symbols` finds `.dynsym`, walks its entries after the reserved first one and fills six
slots, one per required name (the macro `read_syms!`): an undefined entry fails at once, and so
does a second entry with a required name. Then an empty slot fails with the list of missing
names, and the five symbols that are spliced must be 8 bytes long (`check_size!`).

`checkSymbols_spec` gives the result for every table without the loop: when it succeeds, and
otherwise which error it returns, in the order the rules are tried. `checkSymbols_value_indep`
gives what it leaves unchecked: the symbols' values.
-/

namespace SgxUtils.Elf2Sgxs
open SgxUtils.Elf

/-- The six names `read_syms!` collects, in field order. -/
inductive SymName
  | sgxEntry | heapBase | heapSize | rela | relacount | enclaveSize
  deriving DecidableEq, Repr

namespace SymName

/-- The symbol name, `stringify!` of the field. -/
def str : SymName → String
  | sgxEntry => "sgx_entry"
  | heapBase => "HEAP_BASE"
  | heapSize => "HEAP_SIZE"
  | rela => "RELA"
  | relacount => "RELACOUNT"
  | enclaveSize => "ENCLAVE_SIZE"

/-- All six, in field order. -/
def all : List SymName := [sgxEntry, heapBase, heapSize, rela, relacount, enclaveSize]

/-- The five spliced symbols, in the order of the `check_size!` lines. -/
def sized : List SymName := [heapBase, heapSize, rela, relacount, enclaveSize]

/-- The required name spelled `s`, looked for in field order as the `else if` chain does. -/
def ofStr (s : String) : Option SymName := all.find? (·.str == s)

theorem mem_all (n : SymName) : n ∈ all := by cases n <;> decide

theorem str_injective : Function.Injective str := by
  intro a b h; cases a <;> cases b <;> first | rfl | exact absurd h (by decide)

theorem ofStr_eq_some {s : String} {n : SymName} : ofStr s = some n ↔ n.str = s := by
  constructor
  · intro h; simpa using List.find?_some h
  · rintro rfl; cases n <;> rfl

end SymName

/-- `Symbols`: the entry found for each required name. -/
structure Symbols where
  sgxEntry : DynSym
  heapBase : DynSym
  heapSize : DynSym
  rela : DynSym
  relacount : DynSym
  enclaveSize : DynSym
  deriving DecidableEq, Repr

/-- The field of a required name. -/
def Symbols.get (s : Symbols) : SymName → DynSym
  | .sgxEntry => s.sgxEntry
  | .heapBase => s.heapBase
  | .heapSize => s.heapSize
  | .rela => s.rela
  | .relacount => s.relacount
  | .enclaveSize => s.enclaveSize

/-- The six `let mut $name = None` slots of `read_syms!`. -/
abbrev Slots := SymName → Option DynSym

/-- The `if let (Some(..), ..)` of `read_syms!`: the six slots as `Symbols` when all are full. -/
def collect (slots : Slots) : Option Symbols := do
  pure ⟨← slots .sgxEntry, ← slots .heapBase, ← slots .heapSize, ← slots .rela,
    ← slots .relacount, ← slots .enclaveSize⟩

theorem collect_eq_some {slots : Slots} {s : Symbols} :
    collect slots = some s ↔ ∀ n, slots n = some (s.get n) := by
  constructor
  · intro h n
    simp only [collect, Option.bind_eq_bind, Option.bind_eq_some, Option.pure_def,
      Option.some.injEq] at h
    obtain ⟨a, ha, b, hb, c, hc, d, hd, e, he, f, hf, rfl⟩ := h
    cases n <;> assumption
  · intro h
    simp [collect, h .sgxEntry, h .heapBase, h .heapSize, h .rela, h .relacount,
      h .enclaveSize, Symbols.get]

theorem collect_eq_none {slots : Slots} : collect slots = none ↔ ∃ n, slots n = none := by
  constructor
  · intro h
    by_contra hall
    push_neg at hall
    choose f hf using fun n => Option.ne_none_iff_exists'.1 (hall n)
    have hs : collect slots = some ⟨f .sgxEntry, f .heapBase, f .heapSize, f .rela,
        f .relacount, f .enclaveSize⟩ :=
      collect_eq_some.2 fun n => by cases n <;> exact hf _
    rw [h] at hs
    cases hs
  · rintro ⟨n, hn⟩
    cases n <;> simp [collect, hn]

/-- One pass of `read_syms!`'s loop: an undefined entry fails; an entry with a required name
fills its slot, or fails if the slot is already full; any other entry is skipped. -/
def readSymsStep (slots : Slots) (sym : DynSym) : Except Error Slots :=
  if sym.shndx = shnUndef then .error (.dynamicSymbolUndefined sym.name)
  else match SymName.ofStr sym.name with
    | some n =>
      if (slots n).isSome then .error (.dynamicSymbolDuplicate n.str)
      else .ok (Function.update slots n (some sym))
    | none => .ok slots

/-- `read_syms!`: the loop over every entry after the first, then the six slots as `Symbols`,
or `DynamicSymbolMissing` with the names of the empty slots in field order. -/
def readSyms (syms : List DynSym) : Except Error Symbols := do
  let slots ← (syms.drop 1).foldlM readSymsStep (fun _ => none)
  match collect slots with
  | some s => .ok s
  | none => .error (.dynamicSymbolMissing ((SymName.all.filter (slots · |>.isNone)).map SymName.str))

/-- `check_size!`: the symbol in field `n` must have size `size`. -/
def checkSize (syms : Symbols) (n : SymName) (size : BitVec 64) : Except Error Unit :=
  let actual := (syms.get n).size
  if actual ≠ size then .error (.dynamicSymbolIncorrectSize n.str size actual) else .ok ()

/-- The body of `check_symbols` once `.dynsym` is found: read the six symbols, then the five
`check_size!` lines in order. -/
def checkSymbolTable (syms : List DynSym) : Except Error Symbols := do
  let syms ← readSyms syms
  SymName.sized.foldlM (fun _ n => checkSize syms n 8) ()
  pure syms

/-- `check_symbols`: find `.dynsym` and check its table. -/
def checkSymbols (elf : ElfFile) : Except Error Symbols :=
  match elf.findSectionByName ".dynsym" with
  | some dynsym =>
    match dynsym.data with
    | .dynSymbolTable64 syms => checkSymbolTable syms
    | _ => .error .dynamicSymbolTableNotInDynsymSection
  | none => .error .dynamicSymbolTableNotFound

/-! ## The loop as a scan -/

/-- Entry `x`, after the entries `p` before it, breaks a rule of `read_syms!`: it is undefined,
or it repeats a required name. -/
def Offends (p : List DynSym) (x : DynSym) : Prop :=
  x.shndx = shnUndef ∨ ((SymName.ofStr x.name).isSome ∧ x.name ∈ p.map DynSym.name)

/-- The error `read_syms!` raises for an offending entry. -/
def offenceError (x : DynSym) : Error :=
  if x.shndx = shnUndef then .dynamicSymbolUndefined x.name else .dynamicSymbolDuplicate x.name

/-- The slots after a prefix with no offence: each holds the entry of its name. -/
def slotsOf (p : List DynSym) : Slots := fun n => p.find? (·.name == n.str)

theorem slotsOf_isSome {p : List DynSym} {n : SymName} :
    (slotsOf p n).isSome ↔ n.str ∈ p.map DynSym.name := by
  simp only [slotsOf, List.find?_isSome, beq_iff_eq, List.mem_map]

/-- `read_syms!`'s step follows `Offends`, `slotsOf` and `offenceError`. -/
theorem readSymsStep_spec :
    StepSpec readSymsStep slotsOf (fun p x => ¬ Offends p x) (fun _ x => offenceError x) where
  ok p x hx := by
    simp only [Offends, not_or, not_and] at hx
    obtain ⟨hund, hrep⟩ := hx
    simp only [readSymsStep, hund, if_false]
    cases hn : SymName.ofStr x.name with
    | some n =>
      have hstr := SymName.ofStr_eq_some.1 hn
      have hnot : ¬ (slotsOf p n).isSome := by
        rw [slotsOf_isSome, hstr]; exact hrep (by simp [hn])
      dsimp only
      rw [if_neg hnot]
      congr 1
      funext m
      by_cases hm : m = n
      · subst hm
        rw [Function.update_same]
        simp only [slotsOf] at hnot ⊢
        rw [List.find?_append, Option.not_isSome_iff_eq_none.1 hnot]
        simp [hstr]
      · simp only [Function.update_noteq hm, slotsOf, List.find?_append]
        have : (x.name == m.str) = false := by
          rw [← hstr]; simpa using fun h => hm (SymName.str_injective h).symm
        simp [this]
    | none =>
      dsimp only
      congr 1
      funext m
      have : (x.name == m.str) = false := by
        simpa using fun h => by rw [h, SymName.ofStr_eq_some.2 rfl] at hn; cases hn
      simp [slotsOf, List.find?_append, this]
  error p x hx := by
    rw [not_not] at hx
    simp only [offenceError]
    by_cases hund : x.shndx = shnUndef
    · simp [readSymsStep, hund]
    · simp only [Offends, hund, false_or] at hx
      obtain ⟨hreq, hmem⟩ := hx
      obtain ⟨n, hn⟩ := Option.isSome_iff_exists.1 hreq
      have hstr := SymName.ofStr_eq_some.1 hn
      have hfull : (slotsOf p n).isSome := slotsOf_isSome.2 (hstr ▸ hmem)
      simp [readSymsStep, hund, hn, hfull, hstr]

/-! ## The result for every table -/

/-- No entry offends after the entries before it. -/
def NoOffence (l : List DynSym) : Prop := ∀ p x q, l = p ++ x :: q → ¬ Offends p x

/-- The rules as they read for the entries after the first: none undefined, each required name
on exactly one entry, and the five spliced symbols 8 bytes long. -/
def TableOk (l : List DynSym) : Prop :=
  (∀ x ∈ l, x.shndx ≠ shnUndef) ∧
  (∀ n : SymName, l.countP (·.name == n.str) = 1) ∧
  (∀ n ∈ SymName.sized, ∀ x ∈ l, x.name = n.str → x.size = 8)

/-- The required names no entry carries, in field order. -/
def missingNames (l : List DynSym) : List String :=
  (SymName.all.filter (fun n => n.str ∉ l.map DynSym.name)).map SymName.str

theorem noOffence_iff {l : List DynSym} :
    NoOffence l ↔ GoodFrom (fun p x => ¬ Offends p x) [] l := by
  rw [goodFrom_iff]; simp [NoOffence]

/-- A slot is empty exactly when no entry carries its name. -/
theorem slotsOf_isNone {l : List DynSym} {n : SymName} :
    (slotsOf l n).isNone ↔ n.str ∉ l.map DynSym.name := by
  rw [← slotsOf_isSome]; cases slotsOf l n <;> simp

theorem missingNames_eq_nil {l : List DynSym} :
    missingNames l = [] ↔ ∀ n : SymName, n.str ∈ l.map DynSym.name := by
  simp [missingNames, List.filter_eq_nil_iff, SymName.mem_all]

theorem collect_slotsOf_eq_none {l : List DynSym} :
    collect (slotsOf l) = none ↔ missingNames l ≠ [] := by
  rw [collect_eq_none, Ne, missingNames_eq_nil]
  push_neg
  simp only [← slotsOf_isNone, Option.isNone_iff_eq_none]

/-- Over a table with no offence the loop fills each slot with the entry of its name. -/
theorem foldlM_readSymsStep {l : List DynSym} (h : NoOffence l) :
    l.foldlM readSymsStep (fun _ => none) = .ok (slotsOf l) :=
  readSymsStep_spec.foldlM_of_goodFrom (c := []) (noOffence_iff.1 h)

/-- An entry with a required name is not repeated after a prefix it does not offend. -/
theorem not_repeat_of_not_offends (n : SymName) (p : List DynSym) (x : DynSym)
    (hx : ¬ Offends p x) (hxn : (x.name == n.str) = true) :
    ∀ y ∈ p, ¬ (y.name == n.str) = true := by
  intro y hy hyn
  simp only [beq_iff_eq] at hxn hyn
  exact hx (.inr ⟨by simp [hxn, SymName.ofStr_eq_some.2 rfl],
    List.mem_map.2 ⟨y, hy, hyn.trans hxn.symm⟩⟩)

/-- With no offence, an entry with a required name is the one in that name's slot. -/
theorem slotsOf_eq_of_mem {l : List DynSym} (h : NoOffence l) {x : DynSym} (hx : x ∈ l)
    {n : SymName} (hn : x.name = n.str) : slotsOf l n = some x :=
  find?_eq_of_noRepeat (not_repeat_of_not_offends n) h hx (by simp [hn])

/-- With no offence, no required name is on two entries. -/
theorem countP_le_one {l : List DynSym} (h : NoOffence l) (n : SymName) :
    l.countP (·.name == n.str) ≤ 1 :=
  countP_le_one_of_noRepeat (not_repeat_of_not_offends n) h

/-- A table that keeps the rules has no offence. -/
theorem noOffence_of_tableOk {l : List DynSym} (h : TableOk l) : NoOffence l := by
  rintro p x q rfl (hund | ⟨hreq, hmem⟩)
  · exact h.1 x (by simp) hund
  · obtain ⟨n, hn⟩ := Option.isSome_iff_exists.1 hreq
    have hstr := SymName.ofStr_eq_some.1 hn
    obtain ⟨y, hy, hyx⟩ := List.mem_map.1 hmem
    have hcount := h.2.1 n
    have hpos : 0 < p.countP (·.name == n.str) := List.countP_pos_iff.2 ⟨y, hy, by simp [hyx, hstr]⟩
    rw [List.countP_append, List.countP_cons_of_pos _ _ (by simp [hstr])] at hcount
    omega

/-- `read_syms!` succeeds exactly on a table with no offence and no missing name, with the
entries of the six names. -/
theorem readSyms_eq_ok {syms : List DynSym} {s : Symbols} :
    readSyms syms = .ok s ↔ NoOffence (syms.drop 1) ∧ collect (slotsOf (syms.drop 1)) = some s := by
  constructor
  · intro h
    obtain ⟨slots, hloop, hcol⟩ := except_bind_eq_ok.1 h
    have hgood := readSymsStep_spec.goodFrom_of_foldlM_ok (c := []) hloop
    have hno := noOffence_iff.2 hgood
    rw [foldlM_readSymsStep hno] at hloop
    cases hloop
    refine ⟨hno, ?_⟩
    revert hcol
    cases collect (slotsOf (syms.drop 1)) <;> simp
  · rintro ⟨hno, hcol⟩
    simp only [readSyms, foldlM_readSymsStep hno]
    show (match collect (slotsOf (syms.drop 1)) with | some s => _ | none => _) = _
    rw [hcol]

/-- `read_syms!` on a table with no offence but a missing name. -/
theorem readSyms_of_missing {syms : List DynSym} (hno : NoOffence (syms.drop 1))
    (hmiss : missingNames (syms.drop 1) ≠ []) :
    readSyms syms = .error (.dynamicSymbolMissing (missingNames (syms.drop 1))) := by
  simp only [readSyms, foldlM_readSymsStep hno]
  show (match collect (slotsOf (syms.drop 1)) with | some s => _ | none => _) = _
  rw [collect_slotsOf_eq_none.2 hmiss]
  simp only [missingNames]
  congr 3
  exact List.filter_congr fun n _ => by
    rw [Bool.eq_iff_iff, decide_eq_true_iff]; exact slotsOf_isNone

/-- The `check_size!` lines follow the scan pattern, with no state. -/
theorem checkSize_spec (s : Symbols) :
    StepSpec (fun _ n => checkSize s n 8) (fun _ => ()) (fun _ n => (s.get n).size = 8)
      (fun _ n => .dynamicSymbolIncorrectSize n.str 8 (s.get n).size) where
  ok _ n h := by simp only [checkSize, h, ne_eq, not_true_eq_false, if_false]
  error _ n h := by simp only [checkSize, ne_eq, h, not_false_eq_true, if_true]

theorem checkSizes_eq_ok (s : Symbols) :
    SymName.sized.foldlM (fun _ n => checkSize s n 8) () = .ok () ↔
      ∀ n ∈ SymName.sized, (s.get n).size = 8 := by
  rw [← goodFrom_const_iff (c := [])]
  exact ⟨(checkSize_spec s).goodFrom_of_foldlM_ok, (checkSize_spec s).foldlM_of_goodFrom⟩

theorem checkSymbolTable_eq_ok {syms : List DynSym} {s : Symbols} :
    checkSymbolTable syms = .ok s ↔
      readSyms syms = .ok s ∧ ∀ n ∈ SymName.sized, (s.get n).size = 8 := by
  simp only [checkSymbolTable, except_bind_eq_ok, ← checkSizes_eq_ok]
  constructor
  · rintro ⟨s', hs', u, hu, hpure⟩
    cases hpure
    exact ⟨hs', hu⟩
  · rintro ⟨hs, hsz⟩
    exact ⟨s, hs, (), hsz, rfl⟩

/-- Over a table with an offence, the loop fails with the error of the first one. -/
theorem readSyms_of_offence {syms p q : List DynSym} {x : DynSym}
    (htail : syms.drop 1 = p ++ x :: q) (hp : NoOffence p) (hx : Offends p x) :
    readSyms syms = .error (offenceError x) := by
  have hloop : (syms.drop 1).foldlM readSymsStep (fun _ => none) = .error (offenceError x) := by
    rw [htail]
    exact readSymsStep_spec.foldlM_of_first_bad (c := []) (noOffence_iff.1 hp)
      (by simpa using hx)
  simp only [readSyms, hloop]
  rfl

/-- `check_symbols`'s table succeeds exactly when the table keeps the rules. -/
theorem checkSymbolTable_ok_iff (syms : List DynSym) :
    (∃ s, checkSymbolTable syms = .ok s) ↔ TableOk (syms.drop 1) := by
  constructor
  · rintro ⟨s, hs⟩
    obtain ⟨hread, hsz⟩ := checkSymbolTable_eq_ok.1 hs
    obtain ⟨hno, hcol⟩ := readSyms_eq_ok.1 hread
    have hslot := collect_eq_some.1 hcol
    simp only [slotsOf] at hslot
    refine ⟨fun x hx hund => ?_, fun n => ?_, fun n hn x hx hxn => ?_⟩
    · obtain ⟨p, q, hpq⟩ := List.append_of_mem hx
      exact hno p x q hpq (.inl hund)
    · have hpos : 0 < (syms.drop 1).countP (·.name == n.str) :=
        List.countP_pos_iff.2 ⟨s.get n, List.mem_of_find?_eq_some (hslot n),
          by simpa using List.find?_some (hslot n)⟩
      have := countP_le_one hno n
      omega
    · have hx' := slotsOf_eq_of_mem hno hx hxn
      simp only [slotsOf, hslot n, Option.some.injEq] at hx'
      exact hx' ▸ hsz n hn
  · intro h
    have hno := noOffence_of_tableOk h
    have hcol : collect (slotsOf (syms.drop 1)) ≠ none := by
      rw [Ne, collect_slotsOf_eq_none, not_not, missingNames_eq_nil]
      intro n
      obtain ⟨x, hx, hxn⟩ := List.countP_pos_iff.1 (by rw [h.2.1 n]; exact Nat.one_pos)
      exact List.mem_map.2 ⟨x, hx, by simpa using hxn⟩
    obtain ⟨s, hs⟩ := Option.ne_none_iff_exists'.1 hcol
    refine ⟨s, checkSymbolTable_eq_ok.2 ⟨readSyms_eq_ok.2 ⟨hno, hs⟩, fun n hn => ?_⟩⟩
    have hslot := collect_eq_some.1 hs n
    simp only [slotsOf] at hslot
    exact h.2.2 n hn _ (List.mem_of_find?_eq_some hslot) (by simpa using List.find?_some hslot)

/-- With no entry rejected and no name missing, the table fails with the first wrong size in
the order of the `check_size!` lines. -/
theorem checkSymbolTable_of_bad_size {syms : List DynSym} (hno : NoOffence (syms.drop 1))
    (hmiss : missingNames (syms.drop 1) = []) {pre post : List SymName} {n : SymName}
    {x : DynSym} (hsized : SymName.sized = pre ++ n :: post)
    (hpre : ∀ m ∈ pre, ∀ y, (syms.drop 1).find? (·.name == m.str) = some y → y.size = 8)
    (hn : (syms.drop 1).find? (·.name == n.str) = some x) (hsz : x.size ≠ 8) :
    checkSymbolTable syms = .error (.dynamicSymbolIncorrectSize n.str 8 x.size) := by
  have hcol : collect (slotsOf (syms.drop 1)) ≠ none := by
    rwa [Ne, collect_slotsOf_eq_none, not_not]
  obtain ⟨s, hs⟩ := Option.ne_none_iff_exists'.1 hcol
  have hslot := collect_eq_some.1 hs
  have hx : s.get n = x := Option.some.inj ((hslot n).symm.trans hn)
  have hgood : GoodFrom (fun _ m => (s.get m).size = 8) [] pre :=
    goodFrom_const_iff.2 fun m hm => hpre m hm _ (hslot m)
  have hsizes := (checkSize_spec s).foldlM_of_first_bad (x := n) (q := post) hgood
    (by simpa [hx] using hsz)
  rw [← hsized] at hsizes
  simp only [checkSymbolTable, readSyms_eq_ok.2 ⟨hno, hs⟩]
  show (SymName.sized.foldlM (fun _ n => checkSize s n 8) () >>= fun _ => pure s) = _
  rw [hsizes, hx]
  rfl

/-- **`check_symbols` on every `.dynsym` table.** It succeeds exactly when no entry after the
first is undefined, each required name is on exactly one of them and the five spliced
symbols are 8 bytes long, and then each field is the entry of its name. Otherwise it fails
with the error of the first entry that is undefined or repeats a required name; failing that,
with the required names no entry carries, in field order; failing that, with the first wrong
size in the order of the `check_size!` lines. -/
theorem checkSymbols_spec (elf : ElfFile) (syms : List DynSym)
    (hdyn : (elf.findSectionByName ".dynsym").map Section.data = some (.dynSymbolTable64 syms)) :
    ((∃ s, checkSymbols elf = .ok s) ↔ TableOk (syms.drop 1)) ∧
    (∀ s, checkSymbols elf = .ok s →
      ∀ n, (syms.drop 1).find? (·.name == n.str) = some (s.get n)) ∧
    (∀ p x q, syms.drop 1 = p ++ x :: q → NoOffence p → Offends p x →
      checkSymbols elf = .error (offenceError x)) ∧
    (NoOffence (syms.drop 1) → missingNames (syms.drop 1) ≠ [] →
      checkSymbols elf = .error (.dynamicSymbolMissing (missingNames (syms.drop 1)))) ∧
    (NoOffence (syms.drop 1) → missingNames (syms.drop 1) = [] →
      ∀ pre n post x, SymName.sized = pre ++ n :: post →
        (∀ m ∈ pre, ∀ y, (syms.drop 1).find? (·.name == m.str) = some y → y.size = 8) →
        (syms.drop 1).find? (·.name == n.str) = some x → x.size ≠ 8 →
        checkSymbols elf = .error (.dynamicSymbolIncorrectSize n.str 8 x.size)) := by
  obtain ⟨sec, hsec, hdata⟩ := Option.map_eq_some'.1 hdyn
  have hcheck : checkSymbols elf = checkSymbolTable syms := by
    simp [checkSymbols, hsec, hdata]
  rw [hcheck]
  refine ⟨checkSymbolTable_ok_iff syms, fun s hs n => ?_, fun p x q htail hp hx => ?_,
    fun hno hmiss => ?_, fun hno hmiss pre n post x hsized hpre hn hsz => ?_⟩
  · obtain ⟨hread, -⟩ := checkSymbolTable_eq_ok.1 hs
    exact collect_eq_some.1 (readSyms_eq_ok.1 hread).2 n
  · simp only [checkSymbolTable, readSyms_of_offence htail hp hx]
    rfl
  · simp only [checkSymbolTable, readSyms_of_missing hno hmiss]
    rfl
  · exact checkSymbolTable_of_bad_size hno hmiss hsized hpre hn hsz

/-! ## What the checks leave open -/

theorem tableOk_map_revalue {f : DynSym → BitVec 64} {l : List DynSym} :
    TableOk (l.map (DynSym.revalue f)) ↔ TableOk l := by
  simp [TableOk, List.countP_map, Function.comp_def, DynSym.revalue]

/-- **`check_symbols` never reads a value**: it succeeds on a file exactly when it succeeds
on the file with every dynamic symbol value replaced. -/
theorem checkSymbols_value_indep (elf : ElfFile) (f : DynSym → BitVec 64) :
    (∃ s, checkSymbols (elf.revalue f) = .ok s) ↔ ∃ s, checkSymbols elf = .ok s := by
  have hfind : (elf.revalue f).findSectionByName ".dynsym" =
      (elf.findSectionByName ".dynsym").map (Section.revalue f) := by
    simp [ElfFile.findSectionByName, ElfFile.revalue, Function.comp_def]
  unfold checkSymbols
  rw [hfind]
  rcases elf.findSectionByName ".dynsym" with _ | ⟨name, data⟩
  · rfl
  · cases data <;>
      simp [Section.revalue, checkSymbolTable_ok_iff, ← List.map_tail, tableOk_map_revalue]

/-- A `.dynsym` table: the reserved entry, then the six required symbols. -/
def sixSymbols : List DynSym :=
  [⟨"", 0, 0, 0⟩, ⟨"sgx_entry", 1, 0x1000, 0⟩, ⟨"HEAP_BASE", 2, 0x2000, 8⟩,
    ⟨"HEAP_SIZE", 2, 0x2008, 8⟩, ⟨"RELA", 2, 0x2010, 8⟩, ⟨"RELACOUNT", 2, 0x2018, 8⟩,
    ⟨"ENCLAVE_SIZE", 2, 0x2020, 8⟩]

/-- An ELF file whose `.dynsym` is `sixSymbols`. -/
def sixSymbolsElf : ElfFile := ⟨.sixtyFour, [⟨".dynsym", .dynSymbolTable64 sixSymbols⟩], []⟩

theorem checkSymbols_spec_sixSymbols :
    (sixSymbolsElf.findSectionByName ".dynsym").map Section.data =
      some (.dynSymbolTable64 sixSymbols) ∧
    ((∃ s, checkSymbols sixSymbolsElf = .ok s) ↔ TableOk (sixSymbols.drop 1)) :=
  ⟨rfl, (checkSymbols_spec sixSymbolsElf sixSymbols rfl).1⟩

end SgxUtils.Elf2Sgxs
