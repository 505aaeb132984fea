import SgxUtils.Elf2Sgxs.Image
import SgxUtils.Elf2Sgxs.Write

/-!
# The pages `write` emits and the image they load

The canonical writer wants strictly ascending page addresses. `pageAddrs` lists the address of
every page the writer took. `write_pages_ascending` names them: when the segments are in
ascending, page-disjoint order, the heap and stack sizes are whole pages and no sum reaches
`2^64`, they are the segments' pages, then the heap, the stack after a 64 KiB guard, the TLS and
TCS pages and the SSA frames, ascending, page-aligned and below the enclave size, and the writer
refuses a call only when its sink fails. `write_pages_wrap` is a file with a segment at the top
of the address space, whose end wraps: the enclave size is computed from the other segment, the
writer takes the top page above it, and `write` fails only later, with `StreamNotCanonical`.

The TCS declares its SSA frames, and the splices tell the enclave its layout:
`write_ssa_frames` and `write_image` check both against what the calls emit and load.

## Main results

* `pairwise_flatMap_pageRun`: blocks of pages, each ending before the next starts, ascend.
* `pageAddrs_write`: what `write` emits, in blocks of pages.
* `write_pages_ascending`: the pages of `write`, which ascend and fit the enclave.
* `write_ssa_frames`: the SSA frames the TCS declares are among the pages emitted.
* `write_image`: on the segments' pages, the image `write` loads is their memory image with the
  splices written over it.
-/

namespace SgxUtils.Elf2Sgxs
open SgxUtils.Elf

/-! ## The pages the calls emit -/

/-- `n` pages from `a`. -/
def pageRun (a n : ℕ) : List ℕ := (List.range n).map fun k => a + 0x1000 * k

/-- The address of every page the calls emit, in order: `count` pages from the call's address,
or without one from the writer's cursor `cur`, the address after the last page emitted. -/
def pageAddrs : ℕ → List Call → List ℕ
  | _, [] => []
  | cur, c :: cs => pageRun (c.start cur) c.count ++ pageAddrs (c.start cur + 0x1000 * c.count) cs

/-! ## Blocks of pages -/

theorem mem_pageRun {a n x : ℕ} : x ∈ pageRun a n ↔ ∃ k < n, x = a + 0x1000 * k := by
  simp [pageRun, eq_comm]

theorem pageRun_one (a : ℕ) : pageRun a 1 = [a] := rfl

theorem pairwise_pageRun (a n : ℕ) : (pageRun a n).Pairwise (· < ·) := by
  rw [pageRun, List.pairwise_map]
  exact (List.pairwise_lt_range n).imp fun h => by omega

/-- Block `b`, of `b.2` pages from `b.1`, ends at or before block `c` starts. -/
def BlockBefore (b c : ℕ × ℕ) : Prop := b.1 + 0x1000 * b.2 ≤ c.1

theorem blockBefore_trans {b c d : ℕ × ℕ} (hbc : BlockBefore b c) (hcd : BlockBefore c d) :
    BlockBefore b d := by
  unfold BlockBefore at *; omega

instance : IsTrans (ℕ × ℕ) BlockBefore := ⟨fun _ _ _ => blockBefore_trans⟩

/-- **Blocks of pages, each ending before the next starts, give ascending pages.** -/
theorem pairwise_flatMap_pageRun {bs : List (ℕ × ℕ)} (h : bs.Pairwise BlockBefore) :
    (bs.flatMap fun b => pageRun b.1 b.2).Pairwise (· < ·) := by
  induction bs with
  | nil => exact List.Pairwise.nil
  | cons b bs ih =>
    rw [List.pairwise_cons] at h
    rw [List.flatMap_cons, List.pairwise_append]
    refine ⟨pairwise_pageRun _ _, ih h.2, fun x hx y hy => ?_⟩
    obtain ⟨k, hk, rfl⟩ := mem_pageRun.1 hx
    obtain ⟨c, hc, hy⟩ := List.mem_flatMap.1 hy
    obtain ⟨j, -, rfl⟩ := mem_pageRun.1 hy
    have := h.1 c hc
    unfold BlockBefore at this
    omega

theorem mem_flatMap_pageRun {bs : List (ℕ × ℕ)} {x : ℕ} :
    x ∈ bs.flatMap (fun b => pageRun b.1 b.2) ↔ ∃ b ∈ bs, ∃ k < b.2, x = b.1 + 0x1000 * k := by
  simp only [List.mem_flatMap, mem_pageRun]

/-- The block of a segment: `pageSpan` pages from its page base. -/
def segBlock (ph : ProgramHeader) : ℕ × ℕ := (pageBaseNat ph, pageSpan ph)

/-- The blocks of the calls after the segments. -/
def LayoutInfo.tailBlocks (li : LayoutInfo) (p : Plan) : List (ℕ × ℕ) :=
  [(p.heapAddr.toNat, li.heapSize.toNat / 0x1000), (p.stackAddr.toNat, li.stackSize.toNat / 0x1000),
    (p.tlsAddr.toNat, 1), (p.tcsAddr.toNat, 1), (p.tcsAddr.toNat + 0x1000, 2 * li.ssaframesize.toNat)]

theorem pageAddrs_tailCalls (li : LayoutInfo) (p : Plan) (cur : ℕ) :
    pageAddrs cur (li.tailCalls p) = (li.tailBlocks p).flatMap fun b => pageRun b.1 b.2 := by
  simp [pageAddrs, LayoutInfo.tailCalls, LayoutInfo.tailBlocks, Call.start, Call.address,
    Call.count, pageRun_one]

/-- The pages of the segment calls are the segments' blocks. -/
theorem pageAddrs_segments {calls : List Call} {pre : List ProgramHeader}
    (h : List.Forall₂ SegmentCall calls pre) (hnw : ∀ ph ∈ pre, segEnd ph + 0xfff < 2 ^ 64)
    (cur : ℕ) (rest : List Call) : ∃ cur', pageAddrs cur (calls ++ rest) =
      (pre.map segBlock).flatMap (fun b => pageRun b.1 b.2) ++ pageAddrs cur' rest := by
  induction h generalizing cur with
  | nil => exact ⟨cur, rfl⟩
  | @cons c ph cs phs hc _ ih =>
    obtain ⟨data, rfl⟩ := hc
    obtain ⟨cur', h'⟩ := ih (fun ph hph => hnw ph (List.mem_cons_of_mem _ hph)) _
    refine ⟨cur', ?_⟩
    rw [List.cons_append, pageAddrs, h']
    simp only [Call.start, Call.address, Call.count, pageCount_eq _ (hnw _ (List.mem_cons_self _ _)),
      List.map_cons, List.flatMap_cons, Option.map_some', Option.getD_some, toNat_pageBase,
      segBlock, List.append_assoc]

/-- Pages from blocks that follow one another, each starting on a page and ending by `top`,
ascend, are page-aligned and lie below `top`. -/
theorem pages_of_blocks {bs : List (ℕ × ℕ)} {top : ℕ} (hpw : bs.Pairwise BlockBefore)
    (hb : ∀ b ∈ bs, b.1 % 0x1000 = 0 ∧ b.1 + 0x1000 * b.2 ≤ top) :
    (bs.flatMap fun b => pageRun b.1 b.2).Pairwise (· < ·) ∧
      ∀ a ∈ bs.flatMap (fun b => pageRun b.1 b.2), a % 0x1000 = 0 ∧ a < top := by
  refine ⟨pairwise_flatMap_pageRun hpw, fun a ha => ?_⟩
  obtain ⟨b, hb', k, hk, rfl⟩ := mem_flatMap_pageRun.1 ha
  have := hb b hb'
  omega

/-- Page-disjoint segments in order give blocks in order. -/
theorem pairwise_segBlock {phs : List ProgramHeader} (h : phs.Pairwise PageBefore) :
    (phs.map segBlock).Pairwise BlockBefore :=
  List.pairwise_map.2 (h.imp fun hab => (pageBaseNat_spec _).2.2.trans_le hab)

/-- The blocks above the segments as the layout describes them, from the highest segment end
`e`: the heap from the next page boundary, after a 64 KiB guard the stack, then the TLS page,
the TCS page and the SSA frames. -/
def LayoutInfo.layoutBlocks (li : LayoutInfo) (e : ℕ) : List (ℕ × ℕ) :=
  let heap := (e + 0xfff) / 0x1000 * 0x1000
  let tls := heap + li.heapSize.toNat + 0x10000 + li.stackSize.toNat
  [(heap, li.heapSize.toNat / 0x1000), (heap + li.heapSize.toNat + 0x10000,
    li.stackSize.toNat / 0x1000), (tls, 1), (tls + 0x1000, 1), (tls + 0x2000, 2 * li.ssaframesize.toNat)]

/-- Without wrapping, the blocks of the calls above the segments are those of the layout. -/
theorem tailBlocks_eq_layoutBlocks (li : LayoutInfo) (m : BitVec 64)
    (hfit : (m.toNat + 0xfff) / 0x1000 * 0x1000 + li.heapSize.toNat + li.stackSize.toNat +
      (0x12000 + 2 * li.ssaframesize.toNat * 0x1000) < 2 ^ 64) :
    li.tailBlocks (li.plan m) = li.layoutBlocks m.toNat := by
  obtain ⟨hH, hS, hT, hL, hC, -⟩ := plan_toNat li m hfit
  rw [hL] at hC
  simp only [LayoutInfo.tailBlocks, LayoutInfo.layoutBlocks, hL, hC, hT, hS, hH, Nat.add_assoc]

/-- With heap and stack sizes of whole pages, the blocks of the layout follow one another,
start on pages at or above the heap, and end by the end of the last SSA page. -/
theorem layoutBlocks_spec (li : LayoutInfo) (e : ℕ) (hheap : li.heapSize.toNat % 0x1000 = 0)
    (hstack : li.stackSize.toNat % 0x1000 = 0) :
    (li.layoutBlocks e).Pairwise BlockBefore ∧ ∀ b ∈ li.layoutBlocks e,
      (e + 0xfff) / 0x1000 * 0x1000 ≤ b.1 ∧ b.1 % 0x1000 = 0 ∧
        b.1 + 0x1000 * b.2 ≤ (e + 0xfff) / 0x1000 * 0x1000 + li.heapSize.toNat + 0x10000 +
          li.stackSize.toNat + 0x1000 + (1 + 2 * li.ssaframesize.toNat) * 0x1000 := by
  refine ⟨List.chain'_iff_pairwise.1 ?_, ?_⟩
  · simp only [LayoutInfo.layoutBlocks, List.chain'_cons, List.chain'_singleton, BlockBefore,
      and_true]
    omega
  · simp only [LayoutInfo.layoutBlocks, List.mem_cons, List.mem_singleton, List.not_mem_nil,
      or_false]
    rintro b (rfl | rfl | rfl | rfl | rfl) <;> dsimp only <;> omega

/-- **What `write` emits, in blocks of pages**: those of the segments, then the heap, stack,
TLS, TCS and SSA blocks. -/
theorem pageAddrs_write {li : LayoutInfo} {sink : Sink} {em : Emission}
    (hw : li.write sink = .ok em) (hnw : ∀ ph ∈ loads li.elf, segEnd ph + 0xfff < 2 ^ 64) :
    ∃ m, maxEnd (loads li.elf) = some m ∧ enclaveSize (li.lastPageEnd (li.plan m)) = .ok em.size ∧
      pageAddrs 0 em.calls = ((loads li.elf).map segBlock ++ li.tailBlocks (li.plan m)).flatMap
        fun b => pageRun b.1 b.2 := by
  obtain ⟨m, hm, hsize, -, calls, hws, hcalls⟩ := write_eq_ok hw
  obtain ⟨pre, -, hall, hseg⟩ :=
    writeSegments_prefix (sortSplices (li.splices (li.plan m).heapAddr em.size)) (loads li.elf)
  rw [← LayoutInfo.writeElfSegments, hws] at hall hseg
  obtain rfl := hall rfl
  obtain ⟨_, h⟩ := pageAddrs_segments hseg hnw 0 (li.tailCalls (li.plan m))
  exact ⟨m, hm, hsize, by rw [hcalls, h, pageAddrs_tailCalls, List.flatMap_append]⟩

/-- **The pages of `write`.** When the `PT_LOAD` segments are in ascending, page-disjoint order,
the heap and stack sizes are whole pages, and no sum of the layout reaches `2^64`, the writer
refuses a call of `write` only when its sink fails; and when `write` returns `Ok`, the pages it
emitted are each segment's pages from its page base, then, above the highest segment end, the
heap from the next page boundary, the stack after a 64 KiB guard, the TLS and TCS pages and the
SSA frames. They ascend, are page-aligned, and lie below the enclave size. -/
theorem write_pages_ascending (li : LayoutInfo) (sink : Sink)
    (hord : (loads li.elf).Chain' PageBefore)
    (hfit : ∀ ph ∈ loads li.elf, (segEnd ph + 0xfff) / 0x1000 * 0x1000 + li.heapSize.toNat +
      li.stackSize.toNat + (0x12000 + 2 * li.ssaframesize.toNat * 0x1000) < 2 ^ 64)
    (hheap : li.heapSize.toNat % 0x1000 = 0) (hstack : li.stackSize.toNat % 0x1000 = 0) :
    (∀ e, li.write sink = .error (.sgxs e) → e = .io) ∧ ∀ em, li.write sink = .ok em →
      ∃ ph₁ ∈ loads li.elf, (∀ ph ∈ loads li.elf, segEnd ph ≤ segEnd ph₁) ∧
        pageAddrs 0 em.calls = ((loads li.elf).map segBlock ++ li.layoutBlocks (segEnd ph₁)).flatMap
          (fun b => pageRun b.1 b.2) ∧
        (pageAddrs 0 em.calls).Pairwise (· < ·) ∧
        ∀ a ∈ pageAddrs 0 em.calls, a % 0x1000 = 0 ∧ a < em.size.toNat := by
  refine ⟨fun e he => ?_, fun em hw => ?_⟩
  · obtain ⟨m, size, hm, -, he⟩ := write_eq_error_sgxs he
    exact emit_error_io hm hord hfit hheap hstack he
  obtain ⟨m, hm, hsize, hpages⟩ := pageAddrs_write hw fun ph h => by have := hfit ph h; omega
  obtain ⟨ph₁, hph₁, hm₁, hfit₁, hle⟩ := maxEnd_fits hm hfit
  rw [tailBlocks_eq_layoutBlocks li m hfit₁, hm₁] at hpages
  obtain ⟨hH, hS, hT, hL, hC, hE⟩ := plan_toNat li m hfit₁
  rw [hC, hL, hT, hS, hH, hm₁] at hE
  have hsz := le_of_enclaveSize_eq_ok hsize
  obtain ⟨hlpw, hlb⟩ := layoutBlocks_spec li (segEnd ph₁) hheap hstack
  -- a segment's block ends by the heap, where the blocks of the layout start
  have hseg : ∀ ph ∈ loads li.elf, pageBaseNat ph % 0x1000 = 0 ∧
      pageBaseNat ph + 0x1000 * pageSpan ph ≤ (segEnd ph₁ + 0xfff) / 0x1000 * 0x1000 := by
    intro ph h
    have := pageBaseNat_spec ph
    have := hle ph h
    omega
  have hblocks : ((loads li.elf).map segBlock ++ li.layoutBlocks (segEnd ph₁)).Pairwise
      BlockBefore := by
    refine List.pairwise_append.2 ⟨pairwise_segBlock (List.chain'_iff_pairwise.1 hord), hlpw, ?_⟩
    rintro _ hb c hc
    obtain ⟨ph, hph, rfl⟩ := List.mem_map.1 hb
    exact (hseg ph hph).2.trans (hlb c hc).1
  obtain ⟨hasc, hal⟩ := @pages_of_blocks _ em.size.toNat hblocks fun b hb => by
    rcases List.mem_append.1 hb with hb | hb
    · obtain ⟨ph, hph, rfl⟩ := List.mem_map.1 hb
      have := hseg ph hph
      simp only [segBlock]
      omega
    · have := hlb b hb
      omega
  exact ⟨ph₁, hph₁, hle, hpages, hpages ▸ hasc, hpages ▸ hal⟩

/-- `write` on `twoPageLayout`: `max_addr` is `0x2100` and the enclave size `0x20000`, and the
writer takes every call. -/
theorem twoPageLayout_write_ok : ∃ em, twoPageLayout.write acceptAll = .ok em :=
  ⟨_, (write_eq_emit (show maxEnd (loads twoPageLayout.elf) = some 0x2100 from rfl)
    (enclaveSize_of_pow_lt (k := 16) (by decide) (by decide) (by decide)) acceptAll).trans rfl⟩

theorem write_pages_ascending_twoPage :
    ∃ em, twoPageLayout.write acceptAll = .ok em ∧ (loads twoPageLayout.elf).Chain' PageBefore ∧
      (∀ ph ∈ loads twoPageLayout.elf, (segEnd ph + 0xfff) / 0x1000 * 0x1000 +
        twoPageLayout.heapSize.toNat + twoPageLayout.stackSize.toNat +
        (0x12000 + 2 * twoPageLayout.ssaframesize.toNat * 0x1000) < 2 ^ 64) ∧
      twoPageLayout.heapSize.toNat % 0x1000 = 0 ∧ twoPageLayout.stackSize.toNat % 0x1000 = 0 ∧
      ∃ ph₁ ∈ loads twoPageLayout.elf, (∀ ph ∈ loads twoPageLayout.elf, segEnd ph ≤ segEnd ph₁) ∧
        pageAddrs 0 em.calls = ((loads twoPageLayout.elf).map segBlock ++
          twoPageLayout.layoutBlocks (segEnd ph₁)).flatMap (fun b => pageRun b.1 b.2) ∧
        (pageAddrs 0 em.calls).Pairwise (· < ·) ∧
        ∀ a ∈ pageAddrs 0 em.calls, a % 0x1000 = 0 ∧ a < em.size.toNat := by
  obtain ⟨em, hw⟩ := twoPageLayout_write_ok
  exact ⟨em, hw, .cons (by decide) .nil, by decide, rfl, rfl,
    (write_pages_ascending twoPageLayout acceptAll (.cons (by decide) .nil) (by decide) rfl rfl).2
      em hw⟩

/-! ## The TCS and its SSA frames -/

/-- **The SSA frames the TCS declares are emitted.** When `write` returns `Ok` and no sum of the
layout reaches `2^64`, it emitted the TCS page with `OSSA` the page after it and `NSSA` one, or
two for a debug enclave, and each of the `NSSA * ssaframesize` pages from `OSSA` is among the
pages it emitted. -/
theorem write_ssa_frames (li : LayoutInfo) (sink : Sink) (em : Emission)
    (hw : li.write sink = .ok em)
    (hfit : ∀ ph ∈ loads li.elf, (segEnd ph + 0xfff) / 0x1000 * 0x1000 + li.heapSize.toNat +
      li.stackSize.toNat + (0x12000 + 2 * li.ssaframesize.toNat * 0x1000) < 2 ^ 64) :
    ∃ tcs a, Call.writePage tcs (some a) ⟨.tcs, false, false, false⟩ ∈ em.calls ∧
      tcs.ossa = a + 0x1000 ∧ tcs.nssa = (if li.debug then 2 else 1) ∧
      ∀ k < tcs.nssa.toNat * em.ssaframesize.toNat,
        tcs.ossa.toNat + 0x1000 * k ∈ pageAddrs 0 em.calls := by
  obtain ⟨m, hm, -, hssa, calls, -, hcalls⟩ := write_eq_ok hw
  obtain ⟨m', hm', -, hpages⟩ := pageAddrs_write hw fun ph h => by have := hfit ph h; omega
  rw [Option.some.inj (hm'.symm.trans hm)] at hpages
  obtain ⟨-, -, -, hfit₁, -⟩ := maxEnd_fits hm hfit
  have hE := (plan_toNat li m hfit₁).2.2.2.2.2
  have hlt := (li.lastPageEnd (li.plan m)).isLt
  have hossa : ((li.plan m).tcsAddr + 0x1000).toNat = (li.plan m).tcsAddr.toNat + 0x1000 :=
    toNat_add_eq rfl rfl (by omega)
  have hnssa : (if li.debug then 2 else 1 : BitVec 32).toNat ≤ 2 := by split <;> decide
  refine ⟨⟨(li.plan m).tcsAddr + 0x1000, if li.debug then 2 else 1, li.sym.sgxEntry.value,
    (li.plan m).tlsAddr, (li.plan m).stackTos, 0xfff, 0xfff⟩, (li.plan m).tcsAddr, ?_, rfl, rfl,
    fun k hk => ?_⟩
  · rw [hcalls]
    simp [LayoutInfo.tailCalls]
  · rw [hpages, mem_flatMap_pageRun, hossa]
    refine ⟨((li.plan m).tcsAddr.toNat + 0x1000, 2 * li.ssaframesize.toNat),
      List.mem_append_right _ (by simp [LayoutInfo.tailBlocks]), k, ?_, rfl⟩
    rw [hssa] at hk
    exact hk.trans_le (Nat.mul_le_mul_right _ hnssa)

theorem write_ssa_frames_twoPage :
    ∃ em, twoPageLayout.write acceptAll = .ok em ∧
      (∀ ph ∈ loads twoPageLayout.elf, (segEnd ph + 0xfff) / 0x1000 * 0x1000 +
        twoPageLayout.heapSize.toNat + twoPageLayout.stackSize.toNat +
        (0x12000 + 2 * twoPageLayout.ssaframesize.toNat * 0x1000) < 2 ^ 64) ∧
      ∃ tcs a, Call.writePage tcs (some a) ⟨.tcs, false, false, false⟩ ∈ em.calls ∧
        tcs.ossa = a + 0x1000 ∧ tcs.nssa = (if twoPageLayout.debug then 2 else 1) ∧
        ∀ k < tcs.nssa.toNat * em.ssaframesize.toNat,
          tcs.ossa.toNat + 0x1000 * k ∈ pageAddrs 0 em.calls := by
  obtain ⟨em, hw⟩ := twoPageLayout_write_ok
  exact ⟨em, hw, by decide, write_ssa_frames twoPageLayout acceptAll em hw (by decide)⟩

/-! ## The enclave image of the segments -/

/-- **The image `write` loads on the segments' pages.** When the `PT_LOAD` headers are in
ascending, page-disjoint order with no end near `2^64`, and the five spliced symbols have
disjoint ranges, each strictly inside the file bytes of a segment (conditions on the symbol
addresses alone, whatever the spliced values), every byte of a segment's pages in the image
`write` loads is the byte of the segment's memory image with the splices written over it, the
splices carrying `heap_addr` and the enclave size `write` computed. -/
theorem write_image (li : LayoutInfo) (sink : Sink) (em : Emission) (hw : li.write sink = .ok em)
    (hload : ∀ ph ∈ loads li.elf, Streamable ph) (hord : (loads li.elf).Chain' PageBefore)
    (hdisj : ∀ heapAddr enclaveSize, (li.splices heapAddr enclaveSize).Pairwise Splice.Apart)
    (hplaced : ∀ heapAddr enclaveSize, ∀ s ∈ li.splices heapAddr enclaveSize,
      ∃ ph ∈ loads li.elf, StrictlyIn ph s) :
    ∃ m, maxEnd (loads li.elf) = some m ∧ ∀ ph ∈ loads li.elf, ∀ i < pageSpan ph * 0x1000,
      loadedByte em.calls (pageBaseNat ph + i) =
        some ((segmentPages (li.splices (li.plan m).heapAddr em.size) ph).getD i 0) := by
  obtain ⟨m, hm, -, -, calls, hws, hcalls⟩ := write_eq_ok hw
  have hpw : (loads li.elf).Pairwise PageBefore := List.chain'_iff_pairwise.1 hord
  obtain ⟨-, hrun⟩ := writeElfSegments_run li _ _ hload hpw (hdisj _ _) (hplaced _ _)
  rw [hws] at hrun
  refine ⟨m, hm, fun ph hph i hi => ?_⟩
  obtain ⟨data, hdata, hbyte⟩ := loadedByte_of_segmentWritten hrun hpw _ ph hph i hi
  rw [hcalls, hbyte, ← padTo_of_streams hpw (hdisj _ _) (hplaced _ _) hph hdata, getD_padTo _ hi]

theorem write_image_twoPage :
    ∃ em, twoPageLayout.write acceptAll = .ok em ∧
      (∀ ph ∈ loads twoPageLayout.elf, Streamable ph) ∧
      (loads twoPageLayout.elf).Chain' PageBefore ∧
      (∀ heapAddr enclaveSize,
        (twoPageLayout.splices heapAddr enclaveSize).Pairwise Splice.Apart) ∧
      (∀ heapAddr enclaveSize, ∀ s ∈ twoPageLayout.splices heapAddr enclaveSize,
        ∃ ph ∈ loads twoPageLayout.elf, StrictlyIn ph s) ∧
      ∃ m, maxEnd (loads twoPageLayout.elf) = some m ∧
        ∀ ph ∈ loads twoPageLayout.elf, ∀ i < pageSpan ph * 0x1000,
          loadedByte em.calls (pageBaseNat ph + i) =
            some ((segmentPages (twoPageLayout.splices (twoPageLayout.plan m).heapAddr em.size)
              ph).getD i 0) := by
  obtain ⟨em, hw⟩ := twoPageLayout_write_ok
  have hdisj : ∀ heapAddr enclaveSize,
      (twoPageLayout.splices heapAddr enclaveSize).Pairwise Splice.Apart := spacedSymbols_apart rfl
  have hplaced : ∀ heapAddr enclaveSize, ∀ s ∈ twoPageLayout.splices heapAddr enclaveSize,
      ∃ ph ∈ loads twoPageLayout.elf, StrictlyIn ph s := spacedSymbols_placed rfl (by decide)
  exact ⟨em, hw, by decide, .cons (by decide) .nil, hdisj, hplaced,
    write_image twoPageLayout acceptAll em hw (by decide) (.cons (by decide) .nil) hdisj hplaced⟩

/-! ## A segment at the top of the address space -/

/-- A data page at `0x2000` holding the five spliced symbols, and a page at `2^64 - 0x1000`. -/
def topPageElf : ElfFile :=
  ⟨.sixtyFour, [dynsymAt 0x2008 0x2010 0x2018 0x2020 0x2028],
    [⟨.load, 6, 0x2000, 0x100, .undefined (List.replicate 0x40 0)⟩,
      ⟨.load, 4, 0xfffffffffffff000, 0x1000, .undefined []⟩, emptyDynamic]⟩

/-- What `new` keeps of `topPageElf`, with no heap or stack. -/
def topPageLayout : LayoutInfo := ⟨topPageElf, spacedSymbols, none, 1, 0, 0, false⟩

/-- **A segment ending at `2^64` defeats the enclave size.** Its end wraps to `0`, so `max_addr`
is the end of the other segment and the enclave size `0x20000`; the writer takes the top page,
far above that size, and `write` fails only at the heap, below the pages taken, with
`StreamNotCanonical`. -/
theorem write_pages_wrap :
    LayoutInfo.new topPageElf 1 0 0 false = .ok topPageLayout ∧
      (loads topPageLayout.elf).Chain' PageBefore ∧
      maxEnd (loads topPageLayout.elf) = some 0x2100 ∧
      enclaveSize (topPageLayout.lastPageEnd (topPageLayout.plan 0x2100)) = .ok 0x20000 ∧
      (∃ em, topPageLayout.segmentsTaken acceptAll (topPageLayout.plan 0x2100) 0x20000 = .ok em ∧
        pageAddrs 0 em.calls = [0x2000, 0xfffffffffffff000]) ∧
      topPageLayout.write acceptAll = .error (.sgxs .streamNotCanonical) := by
  have hsize : enclaveSize (topPageLayout.lastPageEnd (topPageLayout.plan 0x2100)) = .ok 0x20000 :=
    enclaveSize_of_pow_lt (k := 16) (by decide) (by decide) (by decide)
  have hm : maxEnd (loads topPageLayout.elf) = some 0x2100 := rfl
  exact ⟨rfl, .cons (by decide) .nil, hm, hsize, ⟨_, rfl, rfl⟩,
    (write_eq_emit hm hsize acceptAll).trans rfl⟩

end SgxUtils.Elf2Sgxs
