import SgxUtils.Elf2Sgxs.Splice
import SgxUtils.Elf2Sgxs.Layout
import SgxUtils.Elf2Sgxs.Arith
import Mathlib.Data.List.Sort

/-!
# `write_elf_segments`: the pages of the loadable segments

`write_elf_segments` sorts the five splices by address, then walks the `PT_LOAD` headers in file
order. For each it makes one `write_pages` call at the page base `p_vaddr & !0xfff`, for
`size_align_page_size(end - base) / 0x1000` pages, with the stream of `Splice.lean` as data; the
splices not consumed by one segment wait, in order, for the next. The writer is a recorder of
these calls.

`writeSegments_run` is the run over all segments: when the segments are in ascending,
page-disjoint order and every splice lies strictly inside the file bytes of one of them, each
call streams its segment's memory image with that segment's splices written over it in address
order, as `Overlays` of `Splice.lean` says; splices may overlap. `writeElfSegments_pages` states
it of `LayoutInfo` and of the bytes the writer pads to whole pages for splices that do not meet,
and `writeElfSegments_overlaid` for splices that may. Outside these conditions the loop goes
wrong: `writeElfSegments_splice_at_base` and `writeElfSegments_bss_splice` are two files on
which it does.

## Main results

* `writeSegment_step`: one segment, as the step lemma of the run.
* `writeSegments_run`: the run over the segments.
* `writeElfSegments_pages`: the pages of every segment, padded by the writer.
* `writeElfSegments_overlaid`: the same when the splices overlap.
-/

namespace SgxUtils.Elf2Sgxs
open SgxUtils.Elf

/-! ## The writer's interface -/

/-- The SGX page types the converter emits. -/
inductive PageType
  | reg | tcs
  deriving DecidableEq, Repr

/-- `SecinfoTruncated`: the page type and the `R`, `W`, `X` permission flags. -/
structure Secinfo where
  pageType : PageType
  r : Bool
  w : Bool
  x : Bool
  deriving DecidableEq, Repr

/-- The fields of the `Tcs` that `write` sets; every other field is `Tcs::default()`. -/
structure Tcs where
  ossa : BitVec 64
  nssa : BitVec 32
  oentry : BitVec 64
  ofsbasgx : BitVec 64
  ogsbasgx : BitVec 64
  fslimit : BitVec 32
  gslimit : BitVec 32
  deriving DecidableEq, Repr

/-- A call on the `CanonicalSgxsWriter`. `writePages data count address secinfo` emits `count`
pages from `address`, or from the writer's cursor without one, filled from `data` and padded
with zeros; `writePage` emits the TCS page. -/
inductive Call
  | writePages (data : Option (List UInt8)) (count : ℕ) (address : Option (BitVec 64))
      (secinfo : Secinfo)
  | writePage (tcs : Tcs) (address : Option (BitVec 64)) (secinfo : Secinfo)
  deriving DecidableEq, Repr

/-- The bytes `count` pages get from a stream: its first `count * 0x1000` bytes, padded with
zeros. -/
def padTo (n : ℕ) (data : List UInt8) : List UInt8 := (data ++ List.replicate n 0).take n

theorem padTo_eq_map_getD (n : ℕ) (data : List UInt8) :
    padTo n data = (List.range n).map fun i => data.getD i 0 := by
  apply List.ext_getElem (by simp [padTo])
  intro i h₁ h₂
  simp only [List.length_map, List.length_range] at h₂
  simp only [padTo, List.getElem_take, List.getElem_map, List.getElem_range,
    List.getD_eq_getElem?_getD]
  by_cases hi : i < data.length
  · simp [List.getElem_append_left hi, List.getElem?_eq_getElem hi]
  · simp [List.getElem_append_right (Nat.le_of_not_lt hi), List.getElem?_eq_none (Nat.le_of_not_lt hi)]

theorem getD_padTo {n i : ℕ} (data : List UInt8) (h : i < n) :
    (padTo n data).getD i 0 = data.getD i 0 := by
  rw [padTo_eq_map_getD, List.getD_eq_getElem?_getD, List.getElem?_map, List.getElem?_range h]
  rfl

/-! ## The code -/

/-- The SECINFO of a segment's pages: `REG`, with `R`, `W` and `X` set as in the segment's
flags. -/
def secinfoOf (flags : BitVec 32) : Secinfo :=
  ⟨.reg, decide (flags &&& flagR ≠ 0), decide (flags &&& flagW ≠ 0), decide (flags &&& flagX ≠ 0)⟩

/-- One pass of the `for` loop: the segment's `write_pages` call and the splices left. -/
def writeSegment (q : List Splice) (ph : ProgramHeader) : Except Panic (Call × List Splice) :=
  let start := ph.virtualAddr
  let base := start &&& ~~~0xfff
  let end_ := start + ph.memSize
  match ph.data with
  | .undefined baseData =>
    let (data, q) := initialData base start baseData q
    match spliceLoop base start end_ baseData data q with
    | .ok (data, q) =>
      .ok (.writePages (some data) (sizeAlignPageSize (end_ - base) / 0x1000).toNat (some base)
        (secinfoOf ph.flags), q)
    | .error p => .error p
  | _ => .error .unreachable

/-- The five `Splice`s of `write_elf_segments`, in the source's order. -/
def LayoutInfo.splices (li : LayoutInfo) (heapAddr enclaveSize : BitVec 64) : List Splice :=
  [⟨li.sym.heapBase.value, heapAddr⟩, ⟨li.sym.heapSize.value, li.heapSize⟩,
    ⟨li.sym.rela.value, (li.dyn.map fun d => d.rela.un).getD 0⟩,
    ⟨li.sym.relacount.value, (li.dyn.map fun d => d.relacount.un).getD 0⟩,
    ⟨li.sym.enclaveSize.value, enclaveSize⟩]

/-- `splices.sort()`: a stable sort by address. -/
def sortSplices (sp : List Splice) : List Splice := sp.insertionSort fun s t => s.addr ≤ t.addr

/-- The `for` loop over the `PT_LOAD` headers: the calls made, and the panic that ended the
loop early, if any. -/
def writeSegments : List Splice → List ProgramHeader → List Call × Option Panic
  | _, [] => ([], none)
  | q, ph :: phs =>
    match writeSegment q ph with
    | .ok (c, q) => let r := writeSegments q phs; (c :: r.1, r.2)
    | .error p => ([], some p)

/-- The `PT_LOAD` headers, in file order. -/
def loads (elf : ElfFile) : List ProgramHeader := elf.programs.filter fun ph => ph.phType == .load

/-- `write_elf_segments`. -/
def LayoutInfo.writeElfSegments (li : LayoutInfo) (heapAddr enclaveSize : BitVec 64) :
    List Call × Option Panic :=
  writeSegments (sortSplices (li.splices heapAddr enclaveSize)) (loads li.elf)

/-! ## Segments and where splices lie -/

/-- The file bytes of a segment. -/
def fileBytes (ph : ProgramHeader) : List UInt8 :=
  match ph.data with
  | .undefined d => d
  | _ => []

/-- `p_vaddr & !0xfff`, as a number. -/
def pageBaseNat (ph : ProgramHeader) : ℕ := ph.virtualAddr.toNat / 0x1000 * 0x1000

/-- `p_vaddr + p_memsz`, as a number. -/
def segEnd (ph : ProgramHeader) : ℕ := ph.virtualAddr.toNat + ph.memSize.toNat

/-- `ceil4k(end - base) / 0x1000`: the number of pages from the page base to the end. -/
def pageSpan (ph : ProgramHeader) : ℕ := (segEnd ph - pageBaseNat ph + 0xfff) / 0x1000

/-- Splice `s` lies in the segment's pages: `base <= A` and `A + 8 <= end`. -/
def InSegment (ph : ProgramHeader) (s : Splice) : Prop :=
  pageBaseNat ph ≤ s.addr.toNat ∧ s.addr.toNat + 8 ≤ segEnd ph

instance (ph : ProgramHeader) (s : Splice) : Decidable (InSegment ph s) :=
  inferInstanceAs (Decidable (_ ∧ _))

/-- Splice `s` lies strictly inside the segment: above its page base, ending before the
segment does and within the file bytes. -/
def StrictlyIn (ph : ProgramHeader) (s : Splice) : Prop :=
  pageBaseNat ph < s.addr.toNat ∧ s.addr.toNat + 8 < segEnd ph ∧
    s.addr.toNat + 8 ≤ ph.virtualAddr.toNat + (fileBytes ph).length

instance (ph : ProgramHeader) (s : Splice) : Decidable (StrictlyIn ph s) :=
  inferInstanceAs (Decidable (_ ∧ _ ∧ _))

/-- Segment `a` ends, rounded up to a page, at or below the page base of `b`. -/
def PageBefore (a b : ProgramHeader) : Prop := (segEnd a + 0xfff) / 0x1000 * 0x1000 ≤ pageBaseNat b

instance (a b : ProgramHeader) : Decidable (PageBefore a b) := inferInstanceAs (Decidable (_ ≤ _))

/-- The bytes the pages of a segment should hold: its memory image from the page base, with
the splices `sp` that are in the segment written over it. -/
def segmentPages (sp : List Splice) (ph : ProgramHeader) : List UInt8 :=
  (List.range (pageSpan ph * 0x1000)).map fun i =>
    splicedByte ph.virtualAddr.toNat (fileBytes ph) (sp.filter fun s => decide (InSegment ph s))
      (pageBaseNat ph + i)

theorem getD_segmentPages {sp : List Splice} {ph : ProgramHeader} {i : ℕ}
    (h : i < pageSpan ph * 0x1000) :
    (segmentPages sp ph).getD i 0 = splicedByte ph.virtualAddr.toNat (fileBytes ph)
      (sp.filter fun s => decide (InSegment ph s)) (pageBaseNat ph + i) := by
  rw [segmentPages, List.getD_eq_getElem?_getD, List.getElem?_map, List.getElem?_range h]
  rfl

/-! ## One segment -/

theorem toNat_pageBase (ph : ProgramHeader) :
    (ph.virtualAddr &&& ~~~(0xfff : BitVec 64)).toNat = pageBaseNat ph :=
  toNat_and_not_fff _

theorem pageBaseNat_le (ph : ProgramHeader) : pageBaseNat ph ≤ ph.virtualAddr.toNat := by
  unfold pageBaseNat; omega

/-- A segment's pages start on a page boundary at or below its end, and end at its end rounded
up to a page. -/
theorem pageBaseNat_spec (ph : ProgramHeader) :
    pageBaseNat ph % 0x1000 = 0 ∧ pageBaseNat ph ≤ segEnd ph ∧
      pageBaseNat ph + 0x1000 * pageSpan ph = (segEnd ph + 0xfff) / 0x1000 * 0x1000 := by
  have := pageBaseNat_le ph
  unfold pageSpan pageBaseNat segEnd at *
  omega

/-- Without wrapping, the `u64` end is `segEnd`. -/
theorem toNat_segEnd {ph : ProgramHeader} (h : segEnd ph < 2 ^ 64) :
    (ph.virtualAddr + ph.memSize).toNat = segEnd ph :=
  BitVec.toNat_add_of_lt h

/-- Without wrapping, the page count of the code is `pageSpan`. -/
theorem pageCount_eq (ph : ProgramHeader) (hnw : segEnd ph + 0xfff < 2 ^ 64) :
    (sizeAlignPageSize (ph.virtualAddr + ph.memSize - (ph.virtualAddr &&& ~~~0xfff)) /
      0x1000).toNat = pageSpan ph := by
  have hb := pageBaseNat_le ph
  have hend : (ph.virtualAddr + ph.memSize).toNat = segEnd ph := toNat_segEnd (by omega)
  have hsub : (ph.virtualAddr + ph.memSize - (ph.virtualAddr &&& ~~~0xfff)).toNat =
      segEnd ph - pageBaseNat ph := by
    rw [BitVec.toNat_sub_of_le (BitVec.le_def.2 (by rw [hend, toNat_pageBase]; unfold segEnd; omega)),
      hend, toNat_pageBase]
  rw [BitVec.toNat_udiv, toNat_sizeAlignPageSize, hsub, pageSpan]
  simp only [BitVec.ofNat_eq_ofNat, BitVec.toNat_ofNat, Nat.reducePow, Nat.reduceMod]
  omega

/-- **One segment.** Over splices sorted by address above the page base, with no sum near `2^64`
and each one that ends before the segment ending inside the file bytes, the segment gets one
call at its page base for `pageSpan` pages, whose stream is the image with the splices that end
before the segment written over it in order; the others are left. -/
theorem writeSegment_of_fits {q : List Splice} {ph : ProgramHeader} {d : List UInt8}
    (hd : ph.data = .undefined d) (hnw : segEnd ph + 0xfff < 2 ^ 64)
    (hq : q.Pairwise fun s t => s.addr.toNat ≤ t.addr.toNat)
    (hin : ∀ s ∈ q, pageBaseNat ph < s.addr.toNat ∧ s.addr.toNat + 8 < 2 ^ 64 ∧
      (s.addr.toNat + 8 < segEnd ph → s.addr.toNat + 8 ≤ ph.virtualAddr.toNat + d.length)) :
    ∃ data, writeSegment q ph =
        .ok (.writePages (some data) (pageSpan ph) (some (ph.virtualAddr &&& ~~~0xfff))
          (secinfoOf ph.flags), q.dropWhile (endsBefore (ph.virtualAddr + ph.memSize))) ∧
      Overlays (pageBaseNat ph) ph.virtualAddr.toNat d
        (q.takeWhile (endsBefore (ph.virtualAddr + ph.memSize))) data := by
  have hb := pageBaseNat_le ph
  have hend : (ph.virtualAddr + ph.memSize).toNat = segEnd ph := toNat_segEnd (by omega)
  have hinit : initialData (ph.virtualAddr &&& ~~~0xfff) ph.virtualAddr d q =
      (leadIn (ph.virtualAddr &&& ~~~0xfff) ph.virtualAddr d, q) := by
    rcases q with _ | ⟨s, rest⟩
    · rfl
    · have hne : (ph.virtualAddr &&& ~~~0xfff) ≠ s.addr := fun h => by
        have := (hin s (List.mem_cons_self _ _)).1
        rw [← h, toNat_pageBase] at this
        omega
      rw [initialData, if_neg hne]
  have hstart : Overlays (pageBaseNat ph) ph.virtualAddr.toNat d []
      (leadIn (ph.virtualAddr &&& ~~~0xfff) ph.virtualAddr d) := by
    constructor
    · rw [length_leadIn (by rw [toNat_pageBase]; exact hb), toNat_pageBase]
    · intro i
      rw [getD_leadIn (by rw [toNat_pageBase]; exact hb), toNat_pageBase]
      rfl
  obtain ⟨data, hrun, hdata⟩ := @spliceLoop_run (ph.virtualAddr &&& ~~~0xfff) ph.virtualAddr
    (ph.virtualAddr + ph.memSize) d (by rw [toNat_pageBase]; exact hb) q [] _ hq
    (fun s hs => by
      obtain ⟨h1, h2, h3⟩ := hin s hs
      exact ⟨by rw [toNat_pageBase]; omega, h2, by rw [hend]; exact h3⟩)
    (by rw [toNat_pageBase]; exact hstart)
  rw [toNat_pageBase, List.nil_append] at hdata
  refine ⟨data, ?_, hdata⟩
  simp only [writeSegment, hd, hinit, hrun, pageCount_eq ph hnw]

/-- The shape of the call a pass makes: `write_pages` with data, at the page base, for the
code's page count, with the segment's SECINFO. -/
def SegmentCall (c : Call) (ph : ProgramHeader) : Prop :=
  ∃ data, c = .writePages (some data)
    (sizeAlignPageSize (ph.virtualAddr + ph.memSize - (ph.virtualAddr &&& ~~~0xfff)) / 0x1000).toNat
    (some (ph.virtualAddr &&& ~~~0xfff)) (secinfoOf ph.flags)

theorem writeSegment_call {q q' : List Splice} {ph : ProgramHeader} {c : Call}
    (h : writeSegment q ph = .ok (c, q')) : SegmentCall c ph := by
  unfold writeSegment at h
  split at h
  · dsimp only at h
    split at h
    · cases h; exact ⟨_, rfl⟩
    · cases h
  · cases h

/-- **The calls of any run.** Whatever the splices, the loop makes one call of the shape
`SegmentCall` for each segment of a prefix of the headers, all of them unless it panics. -/
theorem writeSegments_prefix :
    ∀ (q : List Splice) (phs : List ProgramHeader), ∃ pre, pre <+: phs ∧
      ((writeSegments q phs).2 = none → pre = phs) ∧
      List.Forall₂ SegmentCall (writeSegments q phs).1 pre
  | _, [] => ⟨[], List.prefix_refl _, fun _ => rfl, .nil⟩
  | q, ph :: phs => by
    unfold writeSegments
    split
    · next c q' hseg =>
      obtain ⟨pre, hpre, hnone, hcalls⟩ := writeSegments_prefix q' phs
      exact ⟨ph :: pre, List.cons_prefix_cons.2 ⟨rfl, hpre⟩, fun h => by rw [hnone h],
        .cons (writeSegment_call hseg) hcalls⟩
    · exact ⟨[], List.nil_prefix, fun h => (by cases h), .nil⟩

/-! ## The run over the segments -/

/-- Over a list sorted by `R`, a test that passes on an element whenever it passes on one
`R`-after it holds on a prefix: `takeWhile` and `dropWhile` are the two `filter`s. -/
theorem takeWhile_dropWhile_eq_filter {α : Type} {R : α → α → Prop} {p : α → Bool}
    {l : List α} (hl : l.Pairwise R) (hp : ∀ a b, R a b → p b → p a) :
    l.takeWhile p = l.filter p ∧ l.dropWhile p = l.filter fun a => !p a := by
  induction l with
  | nil => simp
  | cons x xs ih =>
    rw [List.pairwise_cons] at hl
    obtain ⟨ht, hd⟩ := ih hl.2
    by_cases hx : p x
    · simp [List.takeWhile_cons, List.dropWhile_cons, hx, ht, hd]
    · have hall : ∀ y ∈ xs, p y = false := fun y hy => by
        by_contra h
        exact hx (hp x y (hl.1 y hy) (by simpa using h))
      simp only [List.takeWhile_cons, List.dropWhile_cons, List.filter_cons, hx, if_false,
        Bool.not_false, if_true, Bool.false_eq_true]
      refine ⟨(List.filter_eq_nil_iff.2 fun y hy => by simp [hall y hy]).symm, ?_⟩
      rw [List.filter_eq_self.2 fun y hy => by simp [hall y hy]]

/-- A `PT_LOAD` the loop streams without trouble: its data is the file bytes, and its end
rounded up to a page is below `2^64`. -/
structure Streamable (ph : ProgramHeader) : Prop where
  data_eq : ph.data = .undefined (fileBytes ph)
  no_wrap : segEnd ph + 0xfff < 2 ^ 64

instance (ph : ProgramHeader) : Decidable (Streamable ph) :=
  decidable_of_iff (ph.data = .undefined (fileBytes ph) ∧ segEnd ph + 0xfff < 2 ^ 64)
    ⟨fun h => ⟨h.1, h.2⟩, fun h => ⟨h.1, h.2⟩⟩

theorem Streamable.toNat_end {ph : ProgramHeader} (h : Streamable ph) :
    (ph.virtualAddr + ph.memSize).toNat = segEnd ph :=
  toNat_segEnd (by have := h.no_wrap; omega)

/-- A splice strictly inside a segment ends before it does. -/
theorem endsBefore_of_strictlyIn {ph : ProgramHeader} {s : Splice} (hph : Streamable ph)
    (hs : StrictlyIn ph s) : endsBefore (ph.virtualAddr + ph.memSize) s = true := by
  simp only [endsBefore, hph.toNat_end, decide_eq_true_eq]
  exact hs.2.1

/-- A splice strictly inside a later segment lies above this segment's pages. -/
theorem later_of_strictlyIn {ph ph' : ProgramHeader} {s : Splice} (hph : Streamable ph)
    (hb : PageBefore ph ph') (hs : StrictlyIn ph' s) :
    pageBaseNat ph < s.addr.toNat ∧ endsBefore (ph.virtualAddr + ph.memSize) s = false := by
  have := pageBaseNat_le ph
  unfold PageBefore at hb
  unfold StrictlyIn at hs
  simp only [endsBefore, hph.toNat_end, decide_eq_false_iff_not]
  unfold segEnd at hb ⊢
  omega

/-- What `write_elf_segments` should do for one segment, given all the splices `sp`: one
`write_pages` call at the page base for `pageSpan` pages, streaming the image with the splices
of `sp` strictly inside the segment written over it. -/
def SegmentWritten (sp : List Splice) (c : Call) (ph : ProgramHeader) : Prop :=
  ∃ data, c = .writePages (some data) (pageSpan ph) (some (ph.virtualAddr &&& ~~~0xfff))
      (secinfoOf ph.flags) ∧
    Streams (pageBaseNat ph) ph.virtualAddr.toNat (fileBytes ph)
      (sp.filter fun s => decide (StrictlyIn ph s)) data

/-- `Forall₂.imp`, where the new relation may use that the right element is a member. -/
theorem forall₂_imp_of_mem {α β : Type} {R S : α → β → Prop} {l₁ : List α} {l₂ : List β}
    (h : List.Forall₂ R l₁ l₂) (hS : ∀ a b, b ∈ l₂ → R a b → S a b) : List.Forall₂ S l₁ l₂ := by
  induction h with
  | nil => exact .nil
  | cons hab _ ih =>
    exact .cons (hS _ _ (List.mem_cons_self _ _) hab)
      (ih fun a b hb => hS a b (List.mem_cons_of_mem _ hb))

/-- What `write_elf_segments` does for one segment, given the sorted queue `q` of all the
splices: one `write_pages` call at the page base for `pageSpan` pages, streaming the image with
the splices of `q` strictly inside the segment written over it in the queue's order. -/
def SegmentOverlaid (q : List Splice) (c : Call) (ph : ProgramHeader) : Prop :=
  ∃ data, c = .writePages (some data) (pageSpan ph) (some (ph.virtualAddr &&& ~~~0xfff))
      (secinfoOf ph.flags) ∧
    Overlays (pageBaseNat ph) ph.virtualAddr.toNat (fileBytes ph)
      (q.filter fun s => decide (StrictlyIn ph s)) data

/-- **One pass of the segment loop.** Take a segment before the segments `phs`, and a queue of
splices sorted by address, each strictly inside one of them. The pass streams the segment with
the queued splices strictly inside it, in the queue's order, and leaves the others queued. -/
theorem writeSegment_step {ph : ProgramHeader} {phs : List ProgramHeader} {q : List Splice}
    (hph : Streamable ph) (hst : ∀ ph' ∈ phs, Streamable ph')
    (hbefore : ∀ ph' ∈ phs, PageBefore ph ph')
    (hq : q.Pairwise fun s t => s.addr.toNat ≤ t.addr.toNat)
    (hplaced : ∀ s ∈ q, ∃ ph' ∈ ph :: phs, StrictlyIn ph' s) :
    ∃ data, writeSegment q ph = .ok (.writePages (some data) (pageSpan ph)
        (some (ph.virtualAddr &&& ~~~0xfff)) (secinfoOf ph.flags),
          q.filter fun s => !decide (StrictlyIn ph s)) ∧
      Overlays (pageBaseNat ph) ph.virtualAddr.toNat (fileBytes ph)
        (q.filter fun s => decide (StrictlyIn ph s)) data := by
  -- where each queued splice stands relative to this segment
  have hwhere : ∀ s ∈ q, StrictlyIn ph s ∨
      (pageBaseNat ph < s.addr.toNat ∧ endsBefore (ph.virtualAddr + ph.memSize) s = false ∧
        ∃ ph' ∈ phs, StrictlyIn ph' s) := fun s hs => by
    obtain ⟨ph', hph', hin⟩ := hplaced s hs
    rcases List.mem_cons.1 hph' with rfl | hph'
    · exact .inl hin
    · exact .inr ⟨(later_of_strictlyIn hph (hbefore ph' hph') hin).1,
        (later_of_strictlyIn hph (hbefore ph' hph') hin).2, ph', hph', hin⟩
  have heb : ∀ s ∈ q, endsBefore (ph.virtualAddr + ph.memSize) s = decide (StrictlyIn ph s) :=
    fun s hs => by
      rcases hwhere s hs with hin | ⟨-, hnot, -⟩
      · rw [endsBefore_of_strictlyIn hph hin, decide_eq_true hin]
      · rw [hnot, eq_comm, decide_eq_false_iff_not]
        exact fun hin => by rw [endsBefore_of_strictlyIn hph hin] at hnot; cases hnot
  obtain ⟨data, hseg, hdata⟩ := writeSegment_of_fits (q := q) hph.data_eq hph.no_wrap hq
    fun s hs => by
      have hE : (ph.virtualAddr + ph.memSize).toNat = segEnd ph := hph.toNat_end
      rcases hwhere s hs with hin | ⟨hb, hnot, ph', hph', hin⟩
      · exact ⟨hin.1, by have := hph.no_wrap; unfold StrictlyIn at hin; omega, fun _ => hin.2.2⟩
      · have := (hst ph' hph').no_wrap
        unfold StrictlyIn at hin
        simp only [endsBefore, hE, decide_eq_false_iff_not] at hnot
        exact ⟨hb, by omega, fun h => absurd h hnot⟩
  obtain ⟨htw, hdw⟩ := takeWhile_dropWhile_eq_filter (p := endsBefore (ph.virtualAddr + ph.memSize))
    hq fun a b hab hb => by simp only [endsBefore, decide_eq_true_eq] at hb ⊢; omega
  rw [htw, List.filter_congr heb] at hdata
  rw [hdw, List.filter_congr fun s hs => by rw [heb s hs]] at hseg
  exact ⟨data, hseg, hdata⟩

/-- **The run over the segments.** Take segments in ascending, page-disjoint order, and a queue
of splices sorted by address, each strictly inside one of the segments; they may overlap. Then
no pass panics and each segment gets the call `SegmentOverlaid` describes. -/
theorem writeSegments_run :
    ∀ (phs : List ProgramHeader) (q : List Splice),
      (∀ ph ∈ phs, Streamable ph) → phs.Pairwise PageBefore →
      q.Pairwise (fun s t => s.addr.toNat ≤ t.addr.toNat) →
      (∀ s ∈ q, ∃ ph ∈ phs, StrictlyIn ph s) →
      (writeSegments q phs).2 = none ∧ List.Forall₂ (SegmentOverlaid q) (writeSegments q phs).1 phs
  | [], _, _, _, _, _ => ⟨rfl, .nil⟩
  | ph :: phs, q, hst, hord, hq, hplaced => by
    rw [List.pairwise_cons] at hord
    have hph := hst ph (List.mem_cons_self _ _)
    obtain ⟨data, hseg, hdata⟩ := writeSegment_step hph
      (fun ph' h => hst ph' (List.mem_cons_of_mem _ h)) hord.1 hq hplaced
    -- the splices strictly inside a later segment are not inside this one
    have hsame : ∀ ph' ∈ phs, (q.filter fun s => !decide (StrictlyIn ph s)).filter
        (fun s => decide (StrictlyIn ph' s)) = q.filter fun s => decide (StrictlyIn ph' s) :=
      fun ph' hph' => by
        rw [List.filter_filter]
        refine List.filter_congr fun s _ => ?_
        by_cases hin : StrictlyIn ph' s
        · have hlater := (later_of_strictlyIn hph (hord.1 ph' hph') hin).2
          have hnot : ¬ StrictlyIn ph s := fun h => by
            rw [endsBefore_of_strictlyIn hph h] at hlater; cases hlater
          simp [hin, hnot]
        · simp [hin]
    obtain ⟨hnone, hcalls⟩ := writeSegments_run phs (q.filter fun s => !decide (StrictlyIn ph s))
      (fun ph' h => hst ph' (List.mem_cons_of_mem _ h)) hord.2 (hq.sublist (List.filter_sublist _))
      (fun s hs => by
        rw [List.mem_filter, Bool.not_eq_true', decide_eq_false_iff_not] at hs
        obtain ⟨ph', hph', hin⟩ := hplaced s hs.1
        rcases List.mem_cons.1 hph' with rfl | hph'
        · exact absurd hin hs.2
        · exact ⟨ph', hph', hin⟩)
    simp only [writeSegments, hseg]
    exact ⟨hnone, .cons ⟨data, rfl, hdata⟩ (forall₂_imp_of_mem hcalls
      fun c ph' hph' ⟨d', hc, hd'⟩ => ⟨d', hc, hsame ph' hph' ▸ hd'⟩)⟩

/-! ## The pages of `LayoutInfo`'s segments -/

/-- Two members of a list sorted by `R` are equal or related one way. -/
theorem rel_or_rel_of_mem {α : Type} {R : α → α → Prop} {l : List α} (h : l.Pairwise R)
    {a b : α} (ha : a ∈ l) (hb : b ∈ l) : a = b ∨ R a b ∨ R b a := by
  induction l with
  | nil => cases ha
  | cons x xs ih =>
    rw [List.pairwise_cons] at h
    rcases List.mem_cons.1 ha with rfl | ha' <;> rcases List.mem_cons.1 hb with rfl | hb'
    · exact .inl rfl
    · exact .inr (.inl (h.1 b hb'))
    · exact .inr (.inr (h.1 a ha'))
    · exact ih h.2 ha' hb'

theorem pageBefore_trans {a b c : ProgramHeader} (hab : PageBefore a b)
    (hbc : PageBefore b c) : PageBefore a c := by
  have := pageBaseNat_le b
  unfold PageBefore segEnd at *
  omega

instance : IsTrans ProgramHeader PageBefore := ⟨fun _ _ _ => pageBefore_trans⟩

/-- Among page-disjoint segments, a splice strictly inside one of them is in a segment's pages
exactly when it is strictly inside that segment. -/
theorem inSegment_iff_strictlyIn {phs : List ProgramHeader} (hord : phs.Pairwise PageBefore)
    {ph ph' : ProgramHeader} (hph : ph ∈ phs) (hph' : ph' ∈ phs) {s : Splice}
    (hs : StrictlyIn ph' s) : InSegment ph s ↔ StrictlyIn ph s := by
  refine ⟨fun hin => ?_, fun h => ⟨h.1.le, h.2.1.le⟩⟩
  have h1 := pageBaseNat_le ph
  have h2 := pageBaseNat_le ph'
  rcases rel_or_rel_of_mem hord hph hph' with rfl | hb | hb
  · exact hs
  all_goals
    exfalso
    unfold PageBefore at hb
    unfold StrictlyIn at hs
    unfold InSegment at hin
    unfold segEnd at *
    omega

/-- `sortSplices` orders by address. -/
theorem sortSplices_sorted (sp : List Splice) :
    (sortSplices sp).Sorted fun s t => s.addr ≤ t.addr := by
  haveI : IsTotal Splice fun s t => s.addr ≤ t.addr :=
    ⟨fun a b => by simp only [BitVec.le_def]; omega⟩
  haveI : IsTrans Splice fun s t => s.addr ≤ t.addr :=
    ⟨fun a b c => by simp only [BitVec.le_def]; omega⟩
  exact List.sorted_insertionSort _ sp

/-- `sortSplices` orders by address, as numbers. -/
theorem sortSplices_sorted_toNat (sp : List Splice) :
    (sortSplices sp).Pairwise fun s t => s.addr.toNat ≤ t.addr.toNat :=
  (sortSplices_sorted sp).imp fun h => BitVec.le_def.1 h

/-- The run over `LayoutInfo`'s segments: under the conditions of `writeElfSegments_pages`, no
pass panics and each segment gets its call. -/
theorem writeElfSegments_run (li : LayoutInfo) (heapAddr enclaveSize : BitVec 64)
    (hload : ∀ ph ∈ loads li.elf, Streamable ph) (hpw : (loads li.elf).Pairwise PageBefore)
    (hdisj : (li.splices heapAddr enclaveSize).Pairwise Splice.Apart)
    (hplaced : ∀ s ∈ li.splices heapAddr enclaveSize, ∃ ph ∈ loads li.elf, StrictlyIn ph s) :
    (li.writeElfSegments heapAddr enclaveSize).2 = none ∧
      List.Forall₂ (SegmentWritten (li.splices heapAddr enclaveSize))
        (li.writeElfSegments heapAddr enclaveSize).1 (loads li.elf) := by
  have hperm := List.perm_insertionSort (fun s t : Splice => s.addr ≤ t.addr)
    (li.splices heapAddr enclaveSize)
  have happ : (sortSplices (li.splices heapAddr enclaveSize)).Pairwise Splice.Apart :=
    (hperm.pairwise_iff fun h => h.symm).2 hdisj
  obtain ⟨hnone, hcalls⟩ := writeSegments_run (loads li.elf) _ hload hpw
    (sortSplices_sorted_toNat _) fun s hs => hplaced s (hperm.mem_iff.1 hs)
  refine ⟨hnone, forall₂_imp_of_mem hcalls fun c ph _ ⟨data, hc, hdata⟩ => ⟨data, hc,
    (hdata.streams (happ.sublist (List.filter_sublist _))).congr
      (happ.sublist (List.filter_sublist _)) (hdisj.sublist (List.filter_sublist _)) fun t => ?_⟩⟩
  simp only [List.mem_filter]
  exact and_congr_left' hperm.mem_iff

/-- A stream of a segment with the splices strictly inside it, padded to the segment's pages,
is the segment's memory image with its splices written over it. -/
theorem padTo_of_streams {phs : List ProgramHeader} (hpw : phs.Pairwise PageBefore)
    {sp : List Splice} (hdisj : sp.Pairwise Splice.Apart)
    (hplaced : ∀ s ∈ sp, ∃ ph ∈ phs, StrictlyIn ph s) {ph : ProgramHeader} (hph : ph ∈ phs)
    {data : List UInt8} (hdata : Streams (pageBaseNat ph) ph.virtualAddr.toNat (fileBytes ph)
      (sp.filter fun s => decide (StrictlyIn ph s)) data) :
    padTo (pageSpan ph * 0x1000) data = segmentPages sp ph := by
  rw [padTo_eq_map_getD, segmentPages]
  refine List.map_congr_left fun i _ => (hdata.getD_eq i).trans (splicedByte_congr
    (hdisj.sublist (List.filter_sublist _)) (hdisj.sublist (List.filter_sublist _))
    fun t _ => ?_)
  simp only [List.mem_filter, decide_eq_true_eq]
  exact and_congr_right fun ht => by
    obtain ⟨ph', hph', hin⟩ := hplaced t ht
    exact (inSegment_iff_strictlyIn hpw hph hph' hin).symm

/-- **The pages of every segment.** When the `PT_LOAD` headers are in ascending, page-disjoint
order with no end near `2^64`, and the five spliced symbols have disjoint ranges, each strictly
inside the file bytes of a segment (above its page base, and ending before the segment does),
`write_elf_segments` does not panic, makes one `write_pages` call per segment in header order at
its page base for `ceil4k(end - base) / 0x1000` pages, and the pages hold the segment's memory
image with the splices in them written over it. The stream is no longer than the pages when
the file bytes are no longer than the segment. -/
theorem writeElfSegments_pages (li : LayoutInfo) (heapAddr enclaveSize : BitVec 64)
    (hload : ∀ ph ∈ loads li.elf, Streamable ph) (hord : (loads li.elf).Chain' PageBefore)
    (hdisj : (li.splices heapAddr enclaveSize).Pairwise Splice.Apart)
    (hplaced : ∀ s ∈ li.splices heapAddr enclaveSize, ∃ ph ∈ loads li.elf, StrictlyIn ph s) :
    (li.writeElfSegments heapAddr enclaveSize).2 = none ∧
      List.Forall₂ (fun c ph => ∃ data,
          c = .writePages (some data) (pageSpan ph) (some (ph.virtualAddr &&& ~~~0xfff))
            (secinfoOf ph.flags) ∧
          padTo (pageSpan ph * 0x1000) data = segmentPages (li.splices heapAddr enclaveSize) ph ∧
          ((fileBytes ph).length ≤ ph.memSize.toNat → data.length ≤ pageSpan ph * 0x1000))
        (li.writeElfSegments heapAddr enclaveSize).1 (loads li.elf) := by
  have hpw : (loads li.elf).Pairwise PageBefore := List.chain'_iff_pairwise.1 hord
  obtain ⟨hnone, hcalls⟩ := writeElfSegments_run li heapAddr enclaveSize hload hpw hdisj hplaced
  refine ⟨hnone, forall₂_imp_of_mem hcalls fun c ph hph ⟨data, hc, hdata⟩ =>
    ⟨data, hc, padTo_of_streams hpw hdisj hplaced hph hdata, fun hfile => ?_⟩⟩
  have := pageBaseNat_le ph
  rw [hdata.length_eq]
  unfold pageSpan segEnd
  omega

/-- A text page at `0x1000` and a data page at `0x2000` with the five spliced symbols strictly
inside its file bytes. -/
def twoPageElf : ElfFile :=
  ⟨.sixtyFour, [dynsymAt 0x2008 0x2010 0x2018 0x2020 0x2028],
    [⟨.load, 5, 0x1000, 0x20, .undefined (List.replicate 0x20 0xaa)⟩,
      ⟨.load, 6, 0x2000, 0x100, .undefined (List.replicate 0x40 0)⟩, emptyDynamic]⟩

/-- The symbols `check_symbols` finds in `dynsymAt 0x2008 0x2010 0x2018 0x2020 0x2028`. -/
def spacedSymbols : Symbols :=
  ⟨⟨"sgx_entry", 1, 0x1000, 0⟩, ⟨"HEAP_BASE", 2, 0x2008, 8⟩, ⟨"HEAP_SIZE", 2, 0x2010, 8⟩,
    ⟨"RELA", 2, 0x2018, 8⟩, ⟨"RELACOUNT", 2, 0x2020, 8⟩, ⟨"ENCLAVE_SIZE", 2, 0x2028, 8⟩⟩

/-- What `new` keeps of `twoPageElf`. -/
def twoPageLayout : LayoutInfo := ⟨twoPageElf, spacedSymbols, none, 1, 0x1000, 0x1000, false⟩

theorem writeElfSegments_pages_twoPage :
    LayoutInfo.new twoPageElf 1 0x1000 0x1000 false = .ok twoPageLayout ∧
    (∀ ph ∈ loads twoPageLayout.elf, Streamable ph) ∧ (loads twoPageLayout.elf).Chain' PageBefore ∧
    (twoPageLayout.splices 0x3000 0x10000).Pairwise Splice.Apart ∧
    (∀ s ∈ twoPageLayout.splices 0x3000 0x10000, ∃ ph ∈ loads twoPageLayout.elf, StrictlyIn ph s) ∧
    (twoPageLayout.writeElfSegments 0x3000 0x10000).2 = none :=
  ⟨rfl, by decide, .cons (by decide) .nil, by decide, by decide,
    (writeElfSegments_pages twoPageLayout 0x3000 0x10000 (by decide) (.cons (by decide) .nil)
      (by decide) (by decide)).1⟩

/-! ## Splices that overlap -/

/-- The bytes the pages of a segment get when splices may overlap: its memory image from the
page base, with the splices in the segment written over it in `sortSplices` order, so that
where two meet the one at the higher address wins, and of two at one address the later. -/
def overlaidPages (sp : List Splice) (ph : ProgramHeader) : List UInt8 :=
  (List.range (pageSpan ph * 0x1000)).map fun i =>
    overlaidByte ph.virtualAddr.toNat (fileBytes ph)
      ((sortSplices sp).filter fun s => decide (InSegment ph s)) (pageBaseNat ph + i)

/-- **The pages of every segment, splices overlapping or not.** Under the conditions of
`writeElfSegments_pages` but with no condition on how the five spliced symbols meet,
`write_elf_segments` does not panic, makes one `write_pages` call per segment at its page base,
and the pages hold the segment's memory image with its splices written over it in address
order. -/
theorem writeElfSegments_overlaid (li : LayoutInfo) (heapAddr enclaveSize : BitVec 64)
    (hload : ∀ ph ∈ loads li.elf, Streamable ph) (hord : (loads li.elf).Chain' PageBefore)
    (hplaced : ∀ s ∈ li.splices heapAddr enclaveSize, ∃ ph ∈ loads li.elf, StrictlyIn ph s) :
    (li.writeElfSegments heapAddr enclaveSize).2 = none ∧
      List.Forall₂ (fun c ph => ∃ data,
          c = .writePages (some data) (pageSpan ph) (some (ph.virtualAddr &&& ~~~0xfff))
            (secinfoOf ph.flags) ∧
          padTo (pageSpan ph * 0x1000) data = overlaidPages (li.splices heapAddr enclaveSize) ph)
        (li.writeElfSegments heapAddr enclaveSize).1 (loads li.elf) := by
  have hpw : (loads li.elf).Pairwise PageBefore := List.chain'_iff_pairwise.1 hord
  have hperm := List.perm_insertionSort (fun s t : Splice => s.addr ≤ t.addr)
    (li.splices heapAddr enclaveSize)
  obtain ⟨hnone, hcalls⟩ := writeSegments_run (loads li.elf) _ hload hpw
    (sortSplices_sorted_toNat _) fun s hs => hplaced s (hperm.mem_iff.1 hs)
  refine ⟨hnone, forall₂_imp_of_mem hcalls fun c ph hph ⟨data, hc, hdata⟩ => ⟨data, hc, ?_⟩⟩
  -- among the sorted splices, those in the segment's pages are those strictly inside it
  have hin : ((sortSplices (li.splices heapAddr enclaveSize)).filter
      fun s => decide (StrictlyIn ph s)) = (sortSplices (li.splices heapAddr enclaveSize)).filter
      fun s => decide (InSegment ph s) := List.filter_congr fun t ht => by
    obtain ⟨ph', hph', hs⟩ := hplaced t (hperm.mem_iff.1 ht)
    exact decide_eq_decide.2 (inSegment_iff_strictlyIn hpw hph hph' hs).symm
  rw [padTo_eq_map_getD, overlaidPages, ← hin]
  exact List.map_congr_left fun i _ => hdata.getD_eq i

/-- `HEAP_BASE` at `0x2008` and `HEAP_SIZE` at `0x200c`, overlapping by 4 bytes, in the data
page of `twoPageElf`. -/
def overlapElf : ElfFile :=
  ⟨.sixtyFour, [dynsymAt 0x2008 0x200c 0x2018 0x2020 0x2028],
    [⟨.load, 5, 0x1000, 0x20, .undefined (List.replicate 0x20 0xaa)⟩,
      ⟨.load, 6, 0x2000, 0x100, .undefined (List.replicate 0x40 0)⟩, emptyDynamic]⟩

/-- The symbols `check_symbols` finds in `dynsymAt 0x2008 0x200c 0x2018 0x2020 0x2028`. -/
def overlapLayout : LayoutInfo :=
  ⟨overlapElf, ⟨⟨"sgx_entry", 1, 0x1000, 0⟩, ⟨"HEAP_BASE", 2, 0x2008, 8⟩,
    ⟨"HEAP_SIZE", 2, 0x200c, 8⟩, ⟨"RELA", 2, 0x2018, 8⟩, ⟨"RELACOUNT", 2, 0x2020, 8⟩,
    ⟨"ENCLAVE_SIZE", 2, 0x2028, 8⟩⟩, none, 1, 0x1000, 0x1000, false⟩

theorem writeElfSegments_overlaid_overlap :
    LayoutInfo.new overlapElf 1 0x1000 0x1000 false = .ok overlapLayout ∧
    ¬ (overlapLayout.splices 0x3000 0x10000).Pairwise Splice.Apart ∧
    (∀ ph ∈ loads overlapLayout.elf, Streamable ph) ∧ (loads overlapLayout.elf).Chain' PageBefore ∧
    (∀ s ∈ overlapLayout.splices 0x3000 0x10000, ∃ ph ∈ loads overlapLayout.elf, StrictlyIn ph s) ∧
    (overlapLayout.writeElfSegments 0x3000 0x10000).2 = none :=
  ⟨rfl, by decide, by decide, .cons (by decide) .nil, by decide,
    (writeElfSegments_overlaid overlapLayout 0x3000 0x10000 (by decide) (.cons (by decide) .nil)
      (by decide)).1⟩

/-! ## Files outside those conditions -/

/-- 32 bytes `0xaa` at `0x1000`, read-execute. -/
def textPage : ProgramHeader := ⟨.load, 5, 0x1000, 0x20, .undefined (List.replicate 0x20 0xaa)⟩

/-- `HEAP_BASE` on the first byte of `textPage`, the other four spliced symbols in a data page. -/
def spliceAtBaseElf : ElfFile :=
  ⟨.sixtyFour, [dynsymAt 0x1000 0x2010 0x2018 0x2020 0x2028],
    [textPage, ⟨.load, 6, 0x2000, 0x100, .undefined (List.replicate 0x40 0)⟩, emptyDynamic]⟩

/-- **A splice on a page base replaces the segment's stream.** `new` accepts the file and the
splices' ranges are disjoint, yet the stream of the text page is the 8 bytes of `heap_addr`
alone: byte 8 of the page should be the file's `0xaa`, and is the writer's zero padding. -/
theorem writeElfSegments_splice_at_base :
    ∃ li, LayoutInfo.new spliceAtBaseElf 1 0x1000 0x1000 false = .ok li ∧
      (li.splices 0x3000 0x10000).Pairwise Splice.Apart ∧
      ∃ rest, li.writeElfSegments 0x3000 0x10000 =
          (.writePages (some (valueBytes 0x3000)) 1 (some 0x1000) (secinfoOf 5) :: rest, none) ∧
        (padTo 0x1000 (valueBytes 0x3000)).getD 8 0 = 0 ∧
        (segmentPages (li.splices 0x3000 0x10000) textPage).getD 8 0 = 0xaa :=
  ⟨_, rfl, by decide, _, rfl, by rw [getD_padTo _ (by decide)]; rfl,
    by rw [getD_segmentPages (by decide)]; decide⟩

/-- 48 zero bytes at `0x2000`, read-write. -/
def dataTail : ProgramHeader := ⟨.load, 6, 0x2000, 0x30, .undefined (List.replicate 0x30 0)⟩

/-- The five spliced symbols in `dataTail`, `ENCLAVE_SIZE` on its last 8 bytes. -/
def spliceAtEndElf : ElfFile :=
  ⟨.sixtyFour, [dynsymAt 0x2004 0x200c 0x2014 0x201c 0x2028], [dataTail, emptyDynamic]⟩

/-- **A splice on a segment's last 8 bytes is not written**: the loop asks `s.0 + 8 < end`.
Byte `0x2a` of the page should be byte 2 of `enclave_size = 0x10000`, and is the file's zero. -/
theorem writeElfSegments_splice_at_end :
    ∃ li, LayoutInfo.new spliceAtEndElf 1 0x1000 0x1000 false = .ok li ∧
      (li.splices 0x3000 0x10000).Pairwise Splice.Apart ∧
      ∃ data, li.writeElfSegments 0x3000 0x10000 =
          ([.writePages (some data) 1 (some 0x2000) (secinfoOf 6)], none) ∧
        (padTo 0x1000 data).getD 0x2a 0 = 0 ∧
        (segmentPages (li.splices 0x3000 0x10000) dataTail).getD 0x2a 0 = 1 :=
  ⟨_, rfl, by decide, _, rfl, by rw [getD_padTo _ (by decide)]; decide,
    by rw [getD_segmentPages (by decide)]; decide⟩

/-- 64 file bytes in a page at `0x2000`, with `HEAP_BASE` at `0x2100`, in the zero-filled rest
of the segment. -/
def bssElf : ElfFile :=
  ⟨.sixtyFour, [dynsymAt 0x2100 0x2008 0x2010 0x2018 0x2020],
    [⟨.load, 6, 0x2000, 0x1000, .undefined (List.replicate 0x40 0)⟩, emptyDynamic]⟩

/-- **A splice past the file bytes panics**: after it, the loop slices the 64 file bytes from
`0x2108 - 0x2000`, before any call. -/
theorem writeElfSegments_bss_splice :
    ∃ li, LayoutInfo.new bssElf 1 0x1000 0x1000 false = .ok li ∧
      li.writeElfSegments 0x3000 0x10000 = ([], some (.sliceIndex 0x108 0x40)) :=
  ⟨_, rfl, rfl⟩

/-- A data page as in `twoPageElf`, then a segment of 8 file bytes and no memory. -/
def overlongElf : ElfFile :=
  ⟨.sixtyFour, [dynsymAt 0x2008 0x2010 0x2018 0x2020 0x2028],
    [⟨.load, 6, 0x2000, 0x100, .undefined (List.replicate 0x40 0)⟩,
      ⟨.load, 4, 0x3000, 0, .undefined (List.replicate 8 0x11)⟩, emptyDynamic]⟩

/-- **A segment with more file bytes than memory streams more than its pages**: 8 bytes for
no page. -/
theorem writeElfSegments_overlong_stream :
    ∃ li, LayoutInfo.new overlongElf 1 0x1000 0x1000 false = .ok li ∧
      ∃ c, li.writeElfSegments 0x3000 0x10000 =
        ([c, .writePages (some (List.replicate 8 0x11)) 0 (some 0x3000) (secinfoOf 4)], none) :=
  ⟨_, rfl, _, rfl⟩

end SgxUtils.Elf2Sgxs
