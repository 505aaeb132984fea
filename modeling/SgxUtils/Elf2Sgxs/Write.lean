import SgxUtils.Elf2Sgxs.Writer

/-!
# `write`: the layout of the enclave

`write` lays the enclave out above the highest `PT_LOAD` end: the heap from the next page
boundary, a 64 KiB guard, the stack, one TLS page, one TCS page, and `2 * ssaframesize` SSA
pages. It sizes the enclave with `enclave_size` of the end of the last SSA page, starts the
canonical writer with that ECREATE record, writes the segments, then the pages above them,
passing up with `try!` every error of the writer. Every address is a `u64` sum, as in the
code.

## Main results

* `maxEnd_spec`, `plan_toNat`: `max_addr` and, without wrapping, the addresses above it.
* `write_eq_ok`: what a successful `write` is made of.
* `canonical_segments`, `canonical_tailCalls`: the calls give the addresses the writer wants.
* `write_eq_error_iff`: over a sink that takes everything and segments that stream, `write`
  does not panic, and fails only without a `PT_LOAD`, with the last SSA page ending at or above
  `2^53`, or with a heap or stack size that is not whole pages.
-/

namespace SgxUtils.Elf2Sgxs
open SgxUtils.Elf

/-- One step of `.max()` over the `PT_LOAD` ends `virtual_addr + mem_size`: the later of two
equal ends wins, as in `cmp::max_by`. -/
def maxStep (m : Option (BitVec 64)) (ph : ProgramHeader) : Option (BitVec 64) :=
  let e := ph.virtualAddr + ph.memSize
  some (match m with
    | none => e
    | some m => if m ≤ e then e else m)

/-- The `.max()` of the `PT_LOAD` ends, in `u64`. -/
def maxEnd (phs : List ProgramHeader) : Option (BitVec 64) := phs.foldl maxStep none

/-- The addresses `write` computes above the segments, from their highest end. -/
structure Plan where
  heapAddr : BitVec 64
  stackAddr : BitVec 64
  stackTos : BitVec 64
  tlsAddr : BitVec 64
  tcsAddr : BitVec 64
  deriving DecidableEq, Repr

/-- `heap_addr`, `stack_addr`, `stack_tos`, `tls_addr` and `tcs_addr` from `max_addr`. -/
def LayoutInfo.plan (li : LayoutInfo) (maxAddr : BitVec 64) : Plan :=
  let heapAddr := sizeAlignPageSize maxAddr
  let stackAddr := heapAddr + li.heapSize + 0x10000
  let stackTos := stackAddr + li.stackSize
  ⟨heapAddr, stackAddr, stackTos, stackTos, stackTos + 0x1000⟩

/-- The argument of `enclave_size`: the end of the last SSA page. -/
def LayoutInfo.lastPageEnd (li : LayoutInfo) (p : Plan) : BitVec 64 :=
  p.tcsAddr + (1 + 2 * li.ssaframesize.setWidth 64) * 0x1000

/-- SECINFO `R | W | REG`. -/
def rwReg : Secinfo := ⟨.reg, true, true, false⟩

/-- The calls after the segments: heap, stack, TLS, TCS and SSA. -/
def LayoutInfo.tailCalls (li : LayoutInfo) (p : Plan) : List Call :=
  [.writePages none (li.heapSize.toNat / 0x1000) (some p.heapAddr) rwReg,
    .writePages none (li.stackSize.toNat / 0x1000) (some p.stackAddr) rwReg,
    .writePages (some (valueBytes p.stackTos ++ valueBytes 0)) 1 (some p.tlsAddr) rwReg,
    .writePage ⟨p.tcsAddr + 0x1000, if li.debug then 2 else 1, li.sym.sgxEntry.value, p.tlsAddr,
      p.stackTos, 0xfff, 0xfff⟩ (some p.tcsAddr) ⟨.tcs, false, false, false⟩,
    .writePages none (2 * li.ssaframesize.toNat) none rwReg]

/-- What `write` comes to: `Ok` with what the writer took, an `Err`, or a panic of
`write_elf_segments`, which nothing catches. -/
inductive WriteResult
  | ok (em : Emission)
  | error (e : Error)
  | panic (p : Panic)
  deriving DecidableEq, Repr

/-- `CanonicalSgxsWriter::new`, then the calls `write_elf_segments` makes, each taken by the
writer as it is made. -/
def LayoutInfo.segmentsTaken (li : LayoutInfo) (sink : Sink) (p : Plan) (size : BitVec 64) :
    Except SgxsError Emission :=
  Emission.begin sink size li.ssaframesize >>= fun em =>
    em.takeAll sink (li.writeElfSegments p.heapAddr size).1

/-- `write` from `CanonicalSgxsWriter::new` on. `write_elf_segments` builds the stream of a
segment before its `write_pages` call, so every call before a panic reaches the writer, and a
refusal among them comes first. `try!` turns an error of the writer into `Error::Sgxs`. -/
def LayoutInfo.emit (li : LayoutInfo) (sink : Sink) (p : Plan) (size : BitVec 64) :
    WriteResult :=
  match li.segmentsTaken sink p size, (li.writeElfSegments p.heapAddr size).2 with
  | .error e, _ => .error (.sgxs e)
  | .ok _, some pn => .panic pn
  | .ok em, none =>
    match em.takeAll sink (li.tailCalls p) with
    | .error e => .error (.sgxs e)
    | .ok em => .ok em

/-- `write`, over a sink. -/
def LayoutInfo.write (li : LayoutInfo) (sink : Sink) : WriteResult :=
  match maxEnd (loads li.elf) with
  | none => .error .noLoadableSegments
  | some maxAddr =>
    let p := li.plan maxAddr
    match enclaveSize (li.lastPageEnd p) with
    | .error e => .error e
    | .ok size => li.emit sink p size

/-! ## The addresses `write` computes -/

/-- One step of `.max()`: the new maximum is the segment's end or the old maximum, and is at
least both. -/
theorem maxStep_spec (o : Option (BitVec 64)) (ph : ProgramHeader) :
    ∃ v, maxStep o ph = some v ∧ (v = ph.virtualAddr + ph.memSize ∨ o = some v) ∧
      (ph.virtualAddr + ph.memSize).toNat ≤ v.toNat ∧ ∀ m₀ ∈ o, m₀.toNat ≤ v.toNat := by
  rcases o with _ | m₀
  · exact ⟨_, rfl, .inl rfl, le_refl _, fun _ h => nomatch h⟩
  · by_cases hle : m₀ ≤ ph.virtualAddr + ph.memSize
    · exact ⟨_, by simp [maxStep, hle], .inl rfl, le_refl _,
        fun _ h => by cases h; exact BitVec.le_def.1 hle⟩
    · refine ⟨m₀, by simp [maxStep, hle], .inr rfl, ?_, fun _ h => by cases h; exact le_refl _⟩
      rw [BitVec.le_def] at hle
      omega

theorem foldl_maxStep_spec : ∀ (phs : List ProgramHeader) (o : Option (BitVec 64)) {m : BitVec 64},
    phs.foldl maxStep o = some m →
      (o = some m ∨ ∃ ph ∈ phs, m = ph.virtualAddr + ph.memSize) ∧ (∀ m₀ ∈ o, m₀.toNat ≤ m.toNat) ∧
        ∀ ph ∈ phs, (ph.virtualAddr + ph.memSize).toNat ≤ m.toNat
  | [], o, m, h => by
    rw [List.foldl_nil] at h
    subst h
    exact ⟨.inl rfl, fun m₀ hm₀ => by cases Option.mem_def.1 hm₀; exact le_refl _,
      fun _ h => nomatch h⟩
  | ph :: phs, o, m, h => by
    obtain ⟨v, hv, hvwho, hvle, hvprev⟩ := maxStep_spec o ph
    rw [List.foldl_cons, hv] at h
    obtain ⟨hwho, hprev, hall⟩ := foldl_maxStep_spec phs (some v) h
    have hvm : v.toNat ≤ m.toNat := hprev v rfl
    refine ⟨?_, fun m₀ hm₀ => (hvprev m₀ hm₀).trans hvm, fun ph' hph' => ?_⟩
    · rcases hwho with hwho | ⟨ph', hph', rfl⟩
      · obtain rfl := Option.some.inj hwho
        rcases hvwho with rfl | hov
        · exact .inr ⟨ph, List.mem_cons_self _ _, rfl⟩
        · exact .inl hov
      · exact .inr ⟨ph', List.mem_cons_of_mem _ hph', rfl⟩
    · rcases List.mem_cons.1 hph' with rfl | hph'
      · exact hvle.trans hvm
      · exact hall ph' hph'

/-- `max_addr` is the end of one of the segments, and no segment ends above it. -/
theorem maxEnd_spec {phs : List ProgramHeader} {m : BitVec 64} (h : maxEnd phs = some m) :
    (∃ ph ∈ phs, m = ph.virtualAddr + ph.memSize) ∧
      ∀ ph ∈ phs, (ph.virtualAddr + ph.memSize).toNat ≤ m.toNat := by
  obtain ⟨hwho, -, hall⟩ := foldl_maxStep_spec phs none h
  exact ⟨hwho.resolve_left (by simp), hall⟩

theorem plan_heapAddr (li : LayoutInfo) (m : BitVec 64) :
    (li.plan m).heapAddr = sizeAlignPageSize m := rfl

theorem plan_stackAddr (li : LayoutInfo) (m : BitVec 64) :
    (li.plan m).stackAddr = (li.plan m).heapAddr + li.heapSize + 0x10000 := rfl

theorem plan_stackTos (li : LayoutInfo) (m : BitVec 64) :
    (li.plan m).stackTos = (li.plan m).stackAddr + li.stackSize := rfl

theorem plan_tcsAddr (li : LayoutInfo) (m : BitVec 64) :
    (li.plan m).tcsAddr = (li.plan m).tlsAddr + 0x1000 := rfl

theorem toNat_add_eq {a b : BitVec 64} {x y : ℕ} (ha : a.toNat = x) (hb : b.toNat = y)
    (h : x + y < 2 ^ 64) : (a + b).toNat = x + y := by
  rw [BitVec.toNat_add_of_lt (by omega), ha, hb]

theorem toNat_mul_eq {a b : BitVec 64} {x y : ℕ} (ha : a.toNat = x) (hb : b.toNat = y)
    (h : x * y < 2 ^ 64) : (a * b).toNat = x * y := by
  rw [BitVec.toNat_mul_of_lt (by rw [ha, hb]; exact h), ha, hb]

/-- Without wrapping, the addresses of `write` are sums of numbers: the heap from the next page
boundary above `max_addr`, the guard, the stack, the TLS and TCS pages, and the SSA frames. -/
theorem plan_toNat (li : LayoutInfo) (m : BitVec 64)
    (hfit : (m.toNat + 0xfff) / 0x1000 * 0x1000 + li.heapSize.toNat + li.stackSize.toNat +
      (0x12000 + 2 * li.ssaframesize.toNat * 0x1000) < 2 ^ 64) :
    (li.plan m).heapAddr.toNat = (m.toNat + 0xfff) / 0x1000 * 0x1000 ∧
      (li.plan m).stackAddr.toNat = (li.plan m).heapAddr.toNat + li.heapSize.toNat + 0x10000 ∧
      (li.plan m).stackTos.toNat = (li.plan m).stackAddr.toNat + li.stackSize.toNat ∧
      (li.plan m).tlsAddr = (li.plan m).stackTos ∧
      (li.plan m).tcsAddr.toNat = (li.plan m).tlsAddr.toNat + 0x1000 ∧
      (li.lastPageEnd (li.plan m)).toNat =
        (li.plan m).tcsAddr.toNat + (1 + 2 * li.ssaframesize.toNat) * 0x1000 := by
  have := li.ssaframesize.isLt
  have hheap : (li.plan m).heapAddr.toNat = (m.toNat + 0xfff) / 0x1000 * 0x1000 := by
    rw [plan_heapAddr, toNat_sizeAlignPageSize]; exact Nat.mod_eq_of_lt (by omega)
  have hstack : (li.plan m).stackAddr.toNat =
      (li.plan m).heapAddr.toNat + li.heapSize.toNat + 0x10000 := by
    rw [plan_stackAddr]; exact toNat_add_eq (toNat_add_eq rfl rfl (by omega)) rfl (by omega)
  have htos : (li.plan m).stackTos.toNat = (li.plan m).stackAddr.toNat + li.stackSize.toNat := by
    rw [plan_stackTos]; exact toNat_add_eq rfl rfl (by omega)
  have htls : (li.plan m).tlsAddr = (li.plan m).stackTos := rfl
  have htcs : (li.plan m).tcsAddr.toNat = (li.plan m).tlsAddr.toNat + 0x1000 := by
    rw [plan_tcsAddr]; exact toNat_add_eq rfl rfl (by rw [htls]; omega)
  have hw : (li.ssaframesize.setWidth 64).toNat = li.ssaframesize.toNat := by
    rw [BitVec.toNat_setWidth]; exact Nat.mod_eq_of_lt (by omega)
  have hssa : ((1 + 2 * li.ssaframesize.setWidth 64) * 0x1000 : BitVec 64).toNat =
      (1 + 2 * li.ssaframesize.toNat) * 0x1000 :=
    have h2 : (2 * li.ssaframesize.setWidth 64).toNat = 2 * li.ssaframesize.toNat :=
      toNat_mul_eq rfl hw (by omega)
    have h12 : (1 + 2 * li.ssaframesize.setWidth 64).toNat = 1 + 2 * li.ssaframesize.toNat :=
      toNat_add_eq rfl h2 (by omega)
    toNat_mul_eq h12 rfl (by omega)
  refine ⟨hheap, hstack, htos, htls, htcs, ?_⟩
  rw [LayoutInfo.lastPageEnd]
  exact toNat_add_eq rfl hssa (by rw [htcs, htls]; omega)

/-! ## What `write` does -/

/-- `write` on a layout whose highest end and enclave size are known is the emission from them. -/
theorem write_eq_emit {li : LayoutInfo} {m size : BitVec 64} (hm : maxEnd (loads li.elf) = some m)
    (hsize : enclaveSize (li.lastPageEnd (li.plan m)) = .ok size) (sink : Sink) :
    li.write sink = li.emit sink (li.plan m) size := by
  simp only [LayoutInfo.write, hm, hsize]

theorem segmentsTaken_eq_ok {li : LayoutInfo} {sink : Sink} {p : Plan} {size : BitVec 64}
    {em : Emission} (h : li.segmentsTaken sink p size = .ok em) :
    em.calls = (li.writeElfSegments p.heapAddr size).1 ∧ em.size = size ∧
      em.ssaframesize = li.ssaframesize := by
  obtain ⟨em₀, h₀, h⟩ := except_bind_eq_ok.1 h
  obtain rfl := begin_eq_ok h₀
  obtain ⟨h₁, h₂, h₃, -⟩ := takeAll_eq_ok h
  exact ⟨h₁, h₂, h₃⟩

/-- What a successful emission is made of: the calls of `write_elf_segments`, which did not
panic, then the calls above the segments, under the ECREATE record. -/
theorem emit_eq_ok {li : LayoutInfo} {sink : Sink} {p : Plan} {size : BitVec 64} {em : Emission}
    (h : li.emit sink p size = .ok em) :
    em.size = size ∧ em.ssaframesize = li.ssaframesize ∧ ∃ calls,
      li.writeElfSegments p.heapAddr size = (calls, none) ∧ em.calls = calls ++ li.tailCalls p := by
  unfold LayoutInfo.emit at h
  rcases hws : li.writeElfSegments p.heapAddr size with ⟨calls, _ | pn⟩
  all_goals rcases hseg : li.segmentsTaken sink p size with e | em₁
  all_goals simp only [hws, hseg] at h
  · cases h
  · split at h
    · cases h
    · next em₂ htail =>
      cases h
      obtain ⟨hc₁, hs₁, hf₁⟩ := segmentsTaken_eq_ok hseg
      obtain ⟨hc₂, hs₂, hf₂, -⟩ := takeAll_eq_ok htail
      rw [hws] at hc₁
      exact ⟨hs₂.trans hs₁, hf₂.trans hf₁, calls, rfl, hc₂.trans (by rw [hc₁])⟩
  · cases h
  · cases h

/-- What a successful `write` is made of: `max_addr`, the enclave size of the end of the last
SSA page, the calls of `write_elf_segments`, which did not panic, and the calls after them. -/
theorem write_eq_ok {li : LayoutInfo} {sink : Sink} {em : Emission}
    (hw : li.write sink = .ok em) :
    ∃ m, maxEnd (loads li.elf) = some m ∧ enclaveSize (li.lastPageEnd (li.plan m)) = .ok em.size ∧
      em.ssaframesize = li.ssaframesize ∧ ∃ calls,
        li.writeElfSegments (li.plan m).heapAddr em.size = (calls, none) ∧
        em.calls = calls ++ li.tailCalls (li.plan m) := by
  unfold LayoutInfo.write at hw
  split at hw
  · cases hw
  next m hm =>
  dsimp only at hw
  split at hw
  · cases hw
  next size hsize =>
  obtain ⟨rfl, hssa, hcalls⟩ := emit_eq_ok hw
  exact ⟨m, hm, hsize, hssa, hcalls⟩

theorem foldl_maxStep_ne_none :
    ∀ (phs : List ProgramHeader) (o : Option (BitVec 64)), o ≠ none → phs.foldl maxStep o ≠ none
  | [], _, h => h
  | ph :: phs, o, _ => by
    obtain ⟨v, hv, -⟩ := maxStep_spec o ph
    rw [List.foldl_cons, hv]
    exact foldl_maxStep_ne_none phs _ (Option.some_ne_none v)

/-- `.max()` is `None` only on no segment. -/
theorem maxEnd_eq_none_iff {phs : List ProgramHeader} : maxEnd phs = none ↔ phs = [] := by
  cases phs with
  | nil => exact iff_of_true rfl rfl
  | cons ph phs =>
    obtain ⟨v, hv, -⟩ := maxStep_spec none ph
    refine iff_of_false ?_ (List.cons_ne_nil ph phs)
    rw [maxEnd, List.foldl_cons, hv]
    exact foldl_maxStep_ne_none phs _ (Option.some_ne_none v)

/-! ## The addresses the writer is given -/

/-- The call of a segment gives its page base, and leaves the cursor at the segment's end
rounded up to a page. -/
theorem SegmentCall.address_cursor {c : Call} {ph : ProgramHeader} (hc : SegmentCall c ph)
    (hnw : segEnd ph + 0xfff < 2 ^ 64) (cur : ℕ) :
    (∀ a ∈ c.address, a.toNat = pageBaseNat ph) ∧
      c.start cur + 0x1000 * c.count = (segEnd ph + 0xfff) / 0x1000 * 0x1000 := by
  obtain ⟨data, rfl⟩ := hc
  refine ⟨fun a ha => by cases ha; exact toNat_pageBase ph, ?_⟩
  simp only [Call.start, Call.address, Call.count, Option.map_some', Option.getD_some,
    toNat_pageBase, pageCount_eq ph hnw]
  exact (pageBaseNat_spec ph).2.2

/-- **The segments' calls give the addresses the writer wants**, in ascending, page-disjoint
order from a cursor at or below every page base, and leave the cursor at or below any bound of
the segments' ends rounded up to a page. -/
theorem canonical_segments {calls : List Call} {phs : List ProgramHeader}
    (h : List.Forall₂ SegmentCall calls phs) (hpw : phs.Pairwise PageBefore)
    (hnw : ∀ ph ∈ phs, segEnd ph + 0xfff < 2 ^ 64) {cur : ℕ}
    (hcur : ∀ ph ∈ phs, cur ≤ pageBaseNat ph) :
    Canonical cur calls ∧ ∀ top, cur ≤ top →
      (∀ ph ∈ phs, (segEnd ph + 0xfff) / 0x1000 * 0x1000 ≤ top) → cursorAfter cur calls ≤ top := by
  induction h generalizing cur with
  | nil => exact ⟨trivial, fun _ h _ => h⟩
  | @cons c ph cs phs hc _ ih =>
    rw [List.pairwise_cons] at hpw
    obtain ⟨haddr, hnext⟩ := hc.address_cursor (hnw ph (List.mem_cons_self _ _)) cur
    obtain ⟨hcan, htop⟩ := ih hpw.2 (fun ph' h => hnw ph' (List.mem_cons_of_mem _ h))
      fun ph' h => (hnext ▸ hpw.1 ph' h : c.start cur + 0x1000 * c.count ≤ pageBaseNat ph')
    refine ⟨⟨fun a ha => ?_, hcan⟩, fun top _ htop' => ?_⟩
    · rw [haddr a ha]
      exact ⟨(pageBaseNat_spec ph).1, hcur ph (List.mem_cons_self _ _)⟩
    · exact htop top (hnext ▸ htop' ph (List.mem_cons_self _ _))
        fun ph' h => htop' ph' (List.mem_cons_of_mem _ h)

/-- With heap and stack sizes of whole pages and no sum of the layout reaching `2^64`, the
calls above the segments give the addresses the writer wants from any cursor at or below the
heap. -/
theorem canonical_tailCalls (li : LayoutInfo) (m : BitVec 64)
    (hfit : (m.toNat + 0xfff) / 0x1000 * 0x1000 + li.heapSize.toNat + li.stackSize.toNat +
      (0x12000 + 2 * li.ssaframesize.toNat * 0x1000) < 2 ^ 64)
    (hheap : li.heapSize.toNat % 0x1000 = 0) (hstack : li.stackSize.toNat % 0x1000 = 0)
    {cur : ℕ} (hcur : cur ≤ (li.plan m).heapAddr.toNat) :
    Canonical cur (li.tailCalls (li.plan m)) := by
  obtain ⟨hH, hS, hT, hL, hC, -⟩ := plan_toNat li m hfit
  rw [hL] at hC
  simp only [LayoutInfo.tailCalls, Canonical, Call.address, Call.start, Call.count,
    Option.mem_def, Option.some.injEq, forall_eq', Option.map_some', Option.getD_some, hL, hC,
    hT, hS, hH, Option.map_none', Option.getD_none, reduceCtorEq, false_implies, implies_true,
    and_true]
  omega

/-- The first call above the segments that gives an address off a page boundary: the stack's,
when the heap size is not whole pages, else the TLS page's, when the stack size is not. -/
theorem tailCalls_misaligned (li : LayoutInfo) (m : BitVec 64)
    (hfit : (m.toNat + 0xfff) / 0x1000 * 0x1000 + li.heapSize.toNat + li.stackSize.toNat +
      (0x12000 + 2 * li.ssaframesize.toNat * 0x1000) < 2 ^ 64)
    (hsizes : ¬ (li.heapSize.toNat % 0x1000 = 0 ∧ li.stackSize.toNat % 0x1000 = 0))
    {cur : ℕ} (hcur : cur ≤ (li.plan m).heapAddr.toNat) :
    ∃ l₁ c a l₂, li.tailCalls (li.plan m) = l₁ ++ c :: l₂ ∧ Canonical cur l₁ ∧
      c.address = some a ∧ a.toNat % 0x1000 ≠ 0 := by
  obtain ⟨hH, hS, hT, hL, -, -⟩ := plan_toNat li m hfit
  by_cases hheap : li.heapSize.toNat % 0x1000 = 0
  · refine ⟨(li.tailCalls (li.plan m)).take 2, _, (li.plan m).tlsAddr,
      (li.tailCalls (li.plan m)).drop 3, rfl, ?_, rfl, ?_⟩
    · simp only [LayoutInfo.tailCalls, List.take, Canonical, Call.address, Call.start,
        Call.count, Option.mem_def, Option.some.injEq, forall_eq', Option.map_some',
        Option.getD_some, hS, hH, and_true]
      omega
    · rw [hL, hT, hS, hH]
      omega
  · refine ⟨(li.tailCalls (li.plan m)).take 1, _, (li.plan m).stackAddr,
      (li.tailCalls (li.plan m)).drop 2, rfl, ?_, rfl, ?_⟩
    · simp only [LayoutInfo.tailCalls, List.take, Canonical, Call.address, Option.mem_def,
        Option.some.injEq, forall_eq', and_true]
      omega
    · rw [hS, hH]
      omega

/-! ## When `write` fails -/

section Fits

variable {li : LayoutInfo} {m : BitVec 64} (hm : maxEnd (loads li.elf) = some m)
  (hord : (loads li.elf).Chain' PageBefore)
  (hfit : ∀ ph ∈ loads li.elf, (segEnd ph + 0xfff) / 0x1000 * 0x1000 + li.heapSize.toNat +
    li.stackSize.toNat + (0x12000 + 2 * li.ssaframesize.toNat * 0x1000) < 2 ^ 64)
include hm hfit

/-- Without wrapping, `max_addr` is the highest segment end, as a number. -/
theorem maxEnd_fits :
    ∃ ph₁ ∈ loads li.elf, m.toNat = segEnd ph₁ ∧
      (m.toNat + 0xfff) / 0x1000 * 0x1000 + li.heapSize.toNat + li.stackSize.toNat +
        (0x12000 + 2 * li.ssaframesize.toNat * 0x1000) < 2 ^ 64 ∧
      ∀ ph ∈ loads li.elf, segEnd ph ≤ segEnd ph₁ := by
  obtain ⟨⟨ph₁, hph₁, rfl⟩, hle⟩ := maxEnd_spec hm
  have hm₁ : (ph₁.virtualAddr + ph₁.memSize).toNat = segEnd ph₁ :=
    toNat_segEnd (by have := hfit ph₁ hph₁; omega)
  refine ⟨ph₁, hph₁, hm₁, hm₁ ▸ hfit ph₁ hph₁, fun ph hph => ?_⟩
  rw [← hm₁, ← toNat_segEnd (by have := hfit ph hph; omega)]
  exact hle ph hph

include hord

/-- Over segments in ascending, page-disjoint order, whatever the splices, the writer refuses
the calls of `write_elf_segments` only when the sink fails, and takes them all over a sink that
takes everything, leaving its cursor at or below the heap. -/
theorem segmentsTaken_canonical (sink : Sink) (size : BitVec 64) :
    (∀ e, li.segmentsTaken sink (li.plan m) size = .error e → e = .io) ∧
      ((∀ n, sink.takes n = true) → ∃ em, li.segmentsTaken sink (li.plan m) size = .ok em) ∧
      ∀ em, li.segmentsTaken sink (li.plan m) size = .ok em →
        em.cursor ≤ (li.plan m).heapAddr.toNat := by
  obtain ⟨ph₁, -, hm₁, hfit₁, hle⟩ := maxEnd_fits hm hfit
  have hheap : ∀ ph ∈ loads li.elf,
      (segEnd ph + 0xfff) / 0x1000 * 0x1000 ≤ (li.plan m).heapAddr.toNat := fun ph hph => by
    rw [(plan_toNat li m hfit₁).1, hm₁]
    have := hle ph hph
    omega
  have hpw : (loads li.elf).Pairwise PageBefore := List.chain'_iff_pairwise.1 hord
  have hnw : ∀ ph ∈ loads li.elf, segEnd ph + 0xfff < 2 ^ 64 := fun ph h => by
    have := hfit ph h; omega
  obtain ⟨pre, hpre, -, hshape⟩ :=
    writeSegments_prefix (sortSplices (li.splices (li.plan m).heapAddr size)) (loads li.elf)
  rw [← LayoutInfo.writeElfSegments] at hshape
  obtain ⟨hcan, htop⟩ := canonical_segments hshape (hpw.sublist hpre.sublist)
    (fun ph h => hnw ph (hpre.subset h)) fun ph _ => Nat.zero_le (pageBaseNat ph)
  have hcan₀ : Canonical (⟨size, li.ssaframesize, [], 0⟩ : Emission).cursor
      (li.writeElfSegments (li.plan m).heapAddr size).1 := hcan
  unfold LayoutInfo.segmentsTaken
  refine ⟨fun e he => ?_, fun hall => ?_, fun em he => ?_⟩
  · unfold Emission.begin at he
    split at he
    · exact (takeAll_of_canonical hcan₀).1 e he
    · exact (Except.error.inj he).symm
  · obtain ⟨em, hem, -⟩ := (takeAll_of_canonical hcan₀).2 hall
    refine ⟨em, ?_⟩
    simp only [Emission.begin, hall, if_true]
    exact hem
  · obtain ⟨em₀, h₀, h⟩ := except_bind_eq_ok.1 he
    obtain rfl := begin_eq_ok h₀
    rw [(takeAll_eq_ok h).2.2.2]
    exact htop _ (Nat.zero_le _) fun ph h => hheap ph (hpre.subset h)

/-- Over a sink that takes everything, with the segments streaming and the splices in place,
the writer takes every call when the heap and stack sizes are whole pages, and otherwise
refuses the first call above the segments that gives an address off a page boundary. -/
theorem emit_acceptAll (hload : ∀ ph ∈ loads li.elf, Streamable ph) {size : BitVec 64}
    (hplaced : ∀ s ∈ li.splices (li.plan m).heapAddr size, ∃ ph ∈ loads li.elf, StrictlyIn ph s) :
    (li.heapSize.toNat % 0x1000 = 0 ∧ li.stackSize.toNat % 0x1000 = 0 →
      ∃ em, li.emit acceptAll (li.plan m) size = .ok em) ∧
    (¬ (li.heapSize.toNat % 0x1000 = 0 ∧ li.stackSize.toNat % 0x1000 = 0) →
      li.emit acceptAll (li.plan m) size = .error (.sgxs .invalidPageOffset)) := by
  obtain ⟨-, -, -, hfit₁, -⟩ := maxEnd_fits hm hfit
  have hperm := List.perm_insertionSort (fun s t : Splice => s.addr ≤ t.addr)
    (li.splices (li.plan m).heapAddr size)
  have hnone := (writeSegments_run (loads li.elf) _ hload (List.chain'_iff_pairwise.1 hord)
    (sortSplices_sorted_toNat _) fun s hs => hplaced s (hperm.mem_iff.1 hs)).1
  rw [← LayoutInfo.writeElfSegments] at hnone
  obtain ⟨-, hall, hcur⟩ := segmentsTaken_canonical hm hord hfit acceptAll size
  obtain ⟨em₁, hem₁⟩ := hall acceptAll_takes
  have hcur₁ := hcur em₁ hem₁
  unfold LayoutInfo.emit
  rw [hem₁, hnone]
  refine ⟨fun hal => ?_, fun hal => ?_⟩
  · obtain ⟨em, hem, -⟩ :=
      (takeAll_of_canonical (canonical_tailCalls li m hfit₁ hal.1 hal.2 hcur₁)).2 acceptAll_takes
    exact ⟨em, by simp only [hem]⟩
  · obtain ⟨l₁, c, a, l₂, htail, hl₁, hc, ha⟩ := tailCalls_misaligned li m hfit₁ hal hcur₁
    simp only [htail, takeAll_misaligned acceptAll_takes hl₁ hc ha]

/-- With heap and stack sizes of whole pages, the writer refuses a call of `write` only when
the sink fails. -/
theorem emit_error_io (hheap : li.heapSize.toNat % 0x1000 = 0)
    (hstack : li.stackSize.toNat % 0x1000 = 0) {sink : Sink} {size : BitVec 64} {e : SgxsError}
    (h : li.emit sink (li.plan m) size = .error (.sgxs e)) : e = .io := by
  obtain ⟨herr, -, hcur⟩ := segmentsTaken_canonical hm hord hfit sink size
  obtain ⟨-, -, -, hfit₁, -⟩ := maxEnd_fits hm hfit
  unfold LayoutInfo.emit at h
  rcases hseg : li.segmentsTaken sink (li.plan m) size with e' | em₁
  · simp only [hseg, WriteResult.error.injEq, Error.sgxs.injEq] at h
    exact h ▸ herr e' hseg
  rcases hp : (li.writeElfSegments (li.plan m).heapAddr size).2 with _ | pn
  · simp only [hseg, hp] at h
    split at h
    · next e' htail =>
      simp only [WriteResult.error.injEq, Error.sgxs.injEq] at h
      exact h ▸ (takeAll_of_canonical
        (canonical_tailCalls li m hfit₁ hheap hstack (hcur em₁ hseg))).1 e' htail
    · cases h
  · simp only [hseg, hp] at h
    cases h

end Fits

/-- An error of the writer reaches `write` only from the emission. -/
theorem write_eq_error_sgxs {li : LayoutInfo} {sink : Sink} {e : SgxsError}
    (h : li.write sink = .error (.sgxs e)) : ∃ m size, maxEnd (loads li.elf) = some m ∧
      enclaveSize (li.lastPageEnd (li.plan m)) = .ok size ∧
      li.emit sink (li.plan m) size = .error (.sgxs e) := by
  unfold LayoutInfo.write at h
  split at h
  · cases h
  next m hm =>
  dsimp only at h
  split at h
  · next e' hsize =>
    obtain ⟨-, rfl⟩ := enclaveSize_eq_error_iff.1 hsize
    cases h
  next size hsize =>
  exact ⟨m, size, hm, hsize, h⟩

/-- **When `write` fails.** Over a sink that takes everything, with the `PT_LOAD` segments
streaming in ascending, page-disjoint order, the splices strictly inside them, and no sum of the
layout reaching `2^64`: `write` does not panic, and it fails with `NoLoadableSegments` on a file
without a `PT_LOAD` header, with `EnclaveSizeTooBig` when the end of the last SSA page is at or
above `2^53`, and otherwise with the writer's `InvalidPageOffset` when the heap or stack size is
not whole pages; it fails in no other case. -/
theorem write_eq_error_iff (li : LayoutInfo) (hload : ∀ ph ∈ loads li.elf, Streamable ph)
    (hord : (loads li.elf).Chain' PageBefore)
    (hplaced : ∀ heapAddr enclaveSize, ∀ s ∈ li.splices heapAddr enclaveSize,
      ∃ ph ∈ loads li.elf, StrictlyIn ph s)
    (hfit : ∀ ph ∈ loads li.elf, (segEnd ph + 0xfff) / 0x1000 * 0x1000 + li.heapSize.toNat +
      li.stackSize.toNat + (0x12000 + 2 * li.ssaframesize.toNat * 0x1000) < 2 ^ 64) :
    (∀ pn, li.write acceptAll ≠ .panic pn) ∧ ∀ e, li.write acceptAll = .error e ↔
      (loads li.elf = [] ∧ e = .noLoadableSegments) ∨ ∃ m, maxEnd (loads li.elf) = some m ∧
        ((2 ^ 53 ≤ (li.lastPageEnd (li.plan m)).toNat ∧ e = .enclaveSizeTooBig) ∨
          ((li.lastPageEnd (li.plan m)).toNat < 2 ^ 53 ∧
            ¬ (li.heapSize.toNat % 0x1000 = 0 ∧ li.stackSize.toNat % 0x1000 = 0) ∧
            e = .sgxs .invalidPageOffset)) := by
  rcases hm : maxEnd (loads li.elf) with _ | m
  · have hw : li.write acceptAll = .error .noLoadableSegments := by
      simp only [LayoutInfo.write, hm]
    simp only [hw, maxEnd_eq_none_iff.1 hm, WriteResult.error.injEq, true_and, reduceCtorEq,
      false_and, exists_false, or_false]
    exact ⟨fun _ h => (nomatch h), fun _ => eq_comm⟩
  have hne : loads li.elf ≠ [] := fun h => by rw [← maxEnd_eq_none_iff, hm] at h; cases h
  simp only [hne, false_and, false_or, Option.some.injEq, exists_eq_left']
  rcases hsz : enclaveSize (li.lastPageEnd (li.plan m)) with e' | size
  · -- the last SSA page ends at or above `2^53`
    obtain ⟨hge, rfl⟩ := enclaveSize_eq_error_iff.1 hsz
    have hw : li.write acceptAll = .error .enclaveSizeTooBig := by
      simp only [LayoutInfo.write, hm, hsz]
    refine ⟨fun _ h => by rw [hw] at h; contradiction, fun e => ?_⟩
    rw [hw, WriteResult.error.injEq]
    exact ⟨fun h => .inl ⟨hge, h.symm⟩,
      fun h => h.elim (fun h => h.2.symm) fun h => absurd h.1 (not_lt.2 hge)⟩
  have hlt : (li.lastPageEnd (li.plan m)).toNat < 2 ^ 53 :=
    not_le.1 fun h => nomatch (enclaveSize_eq_error_iff.2 ⟨h, rfl⟩).symm.trans hsz
  obtain ⟨hok, hbad⟩ := emit_acceptAll hm hord hfit hload (hplaced (li.plan m).heapAddr size)
  rw [write_eq_emit hm hsz]
  by_cases hal : li.heapSize.toNat % 0x1000 = 0 ∧ li.stackSize.toNat % 0x1000 = 0
  · -- the writer takes every call
    obtain ⟨em, hem⟩ := hok hal
    rw [hem]
    exact ⟨fun _ h => (nomatch h), fun e => ⟨fun h => (nomatch h),
      fun h => h.elim (fun h => absurd h.1 (not_le.2 hlt)) fun h => absurd hal h.2.1⟩⟩
  · -- the writer refuses the stack or the TLS address
    rw [hbad hal]
    refine ⟨fun _ h => (nomatch h), fun e => ?_⟩
    rw [WriteResult.error.injEq]
    exact ⟨fun h => .inr ⟨hlt, hal, h.symm⟩,
      fun h => h.elim (fun h => absurd h.1 (not_le.2 hlt)) fun h => h.2.2.symm⟩

/-- The five splices of a layout with `spacedSymbols` lie strictly inside a segment that holds
`0x2008` to `0x2030` in its file bytes and ends past them, whatever they carry. -/
theorem spacedSymbols_placed {li : LayoutInfo} (hsym : li.sym = spacedSymbols)
    (hseg : ∃ ph ∈ loads li.elf, pageBaseNat ph < 0x2008 ∧ 0x2030 < segEnd ph ∧
      0x2030 ≤ ph.virtualAddr.toNat + (fileBytes ph).length) (heapAddr enclaveSize : BitVec 64) :
    ∀ s ∈ li.splices heapAddr enclaveSize, ∃ ph ∈ loads li.elf, StrictlyIn ph s := by
  obtain ⟨ph, hph, hin⟩ := hseg
  intro s hs
  simp only [LayoutInfo.splices, hsym, List.mem_cons, List.mem_singleton, List.not_mem_nil,
    or_false] at hs
  refine ⟨ph, hph, ?_⟩
  rcases hs with rfl | rfl | rfl | rfl | rfl <;>
    simp only [StrictlyIn, spacedSymbols, BitVec.ofNat_eq_ofNat, BitVec.toNat_ofNat, Nat.reducePow,
      Nat.reduceMod] <;>
    exact ⟨by omega, by omega, by omega⟩

/-- The five splices of a layout with `spacedSymbols` have disjoint ranges, whatever they
carry. -/
theorem spacedSymbols_apart {li : LayoutInfo} (hsym : li.sym = spacedSymbols)
    (heapAddr enclaveSize : BitVec 64) :
    (li.splices heapAddr enclaveSize).Pairwise Splice.Apart := by
  simp [LayoutInfo.splices, hsym, spacedSymbols, Splice.Apart]

/-- What `new` keeps of `twoPageElf` with a heap of one and a half pages. -/
def halfPageHeapLayout : LayoutInfo :=
  ⟨twoPageElf, spacedSymbols, none, 1, 0x1800, 0x1000, false⟩

theorem write_eq_error_iff_halfPageHeap :
    LayoutInfo.new twoPageElf 1 0x1800 0x1000 false = .ok halfPageHeapLayout ∧
      halfPageHeapLayout.write acceptAll = .error (.sgxs .invalidPageOffset) :=
  ⟨rfl, ((write_eq_error_iff halfPageHeapLayout (by decide) (.cons (by decide) .nil)
    (spacedSymbols_placed rfl (by decide)) (by decide)).2 _).2
      (.inr ⟨0x2100, rfl, .inr ⟨by decide, by decide, rfl⟩⟩)⟩

end SgxUtils.Elf2Sgxs
