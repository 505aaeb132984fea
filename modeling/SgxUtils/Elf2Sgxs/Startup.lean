import SgxUtils.Elf2Sgxs.Pages

/-!
# What the enclave finds at start-up

The enclave learns its layout from its own image. It reads `HEAP_BASE`, `HEAP_SIZE`, `RELA`,
`RELACOUNT` and `ENCLAVE_SIZE` as 8-byte little-endian words at the symbols' addresses, takes
its stack from the first word of the TLS page that the TCS names as its `FS` base, and applies
each `R_X86_64_RELATIVE` relocation by writing the 8 bytes at its `r_offset`.

`wordAt` reads such a word back from the image the writer's calls load. `write_startup_words`
proves that each splice reads back as its value and that the TCS names the TLS page, which holds
the stack top. `new` does not keep the five symbols apart, and where they meet the splice
written last, the one at the higher address, wins: `write_startup_words_overlaid` says which
splices still read back. `write_relocs_writable` proves that every relocation `check_relocs`
accepted targets 8 bytes of pages that `write` emits writable. `new_relocation_splices` states
what the checks guarantee of the relocation table the enclave is told about, and
`new_publishes_uninspected_table` is an accepted file whose table at `DT_RELA` is not the
inspected one.

## Main results

* `loadedByte_segments_append`: above the segments, their calls load nothing.
* `loadedByte_tls`: the TLS page holds the stack top, then `0`.
* `wordAt_of_overlaid`: a splice that no splice above it meets reads back.
* `write_startup_words`: the words the enclave reads at start-up.
* `write_startup_words_overlaid`: the splices that read back when the symbols overlap.
* `write_relocs_writable`: the targets of the accepted relocations are in writable pages.
* `new_relocation_splices`: the count and the table address the enclave reads.
-/

namespace SgxUtils.Elf2Sgxs
open SgxUtils.Elf

/-! ## Reading a word back -/

/-- The 8-byte little-endian word at address `a`, or `none` where a byte of it is not loaded. -/
def wordAt (byteAt : ℕ → Option UInt8) (a : ℕ) : Option ℕ :=
  ((List.range 8).mapM fun i => byteAt (a + i)).map leWord

theorem mapM_eq_some_map {α β : Type} {f : α → Option β} {g : α → β} :
    ∀ {l : List α}, (∀ x ∈ l, f x = some (g x)) → l.mapM f = some (l.map g)
  | [], _ => rfl
  | x :: l, h => by
    rw [List.mapM_cons, h x (List.mem_cons_self _ _),
      mapM_eq_some_map fun y hy => h y (List.mem_cons_of_mem _ hy)]
    rfl

theorem map_getD_range_length {α : Type} (l : List α) (d : α) :
    (List.range l.length).map (fun j => l.getD j d) = l := by
  refine List.ext_getElem (by simp) fun j h₁ h₂ => ?_
  simp [List.getD_eq_getElem?_getD, List.getElem?_eq_getElem h₂]

/-- A word whose 8 bytes are loaded as those of `v` reads back as `v`. -/
theorem wordAt_eq_of_bytes {byteAt : ℕ → Option UInt8} {a : ℕ} {v : BitVec 64}
    (h : ∀ j < 8, byteAt (a + j) = some ((valueBytes v).getD j 0)) :
    wordAt byteAt a = some v.toNat := by
  rw [wordAt, mapM_eq_some_map fun j hj => h j (List.mem_range.1 hj)]
  have hmap := map_getD_range_length (valueBytes v) 0
  rw [length_valueBytes] at hmap
  rw [Option.map_some', hmap, valueBytes, leWord_leBytes, Nat.mod_eq_of_lt (show v.toNat < 256 ^ 8 from v.isLt)]

/-! ## The image above the segments -/

/-- **Above the segments, their calls load nothing**: at an address at or above every segment's
end rounded up to a page, the image is that of the calls after them. -/
theorem loadedByte_segments_append {calls : List Call} {pre : List ProgramHeader}
    (h : List.Forall₂ SegmentCall calls pre) (hnw : ∀ ph ∈ pre, segEnd ph + 0xfff < 2 ^ 64)
    {a : ℕ} (ha : ∀ ph ∈ pre, (segEnd ph + 0xfff) / 0x1000 * 0x1000 ≤ a) (rest : List Call) :
    loadedByte (calls ++ rest) a = loadedByte rest a := by
  induction h with
  | nil => rfl
  | @cons c ph cs phs hc _ ih =>
    obtain ⟨data, rfl⟩ := hc
    have hph := ha ph (List.mem_cons_self _ _)
    have := (pageBaseNat_spec ph).2.2
    simp only [List.cons_append, loadedByte, toNat_pageBase,
      pageCount_eq ph (hnw ph (List.mem_cons_self _ _))]
    rw [if_neg (by omega)]
    exact ih (fun ph h => hnw ph (List.mem_cons_of_mem _ h))
      fun ph h => ha ph (List.mem_cons_of_mem _ h)

/-- The TLS page of the calls after the segments holds the stack top, then `0`. -/
theorem loadedByte_tailCalls_tls (li : LayoutInfo) (p : Plan) {j : ℕ} (hj : j < 0x1000) :
    loadedByte (li.tailCalls p) (p.tlsAddr.toNat + j) =
      some ((valueBytes p.stackTos ++ valueBytes 0).getD j 0) := by
  simp only [LayoutInfo.tailCalls, loadedByte]
  rw [if_pos (by omega), Nat.add_sub_cancel_left]

/-- **The TLS page holds the stack top.** When no sum of the layout reaches `2^64`, the page
`write` emits at `tls_addr`, above every segment, loads the stack top and then `0`, whatever the
segments' calls before it. -/
theorem loadedByte_tls {li : LayoutInfo} {m : BitVec 64} (hm : maxEnd (loads li.elf) = some m)
    {calls : List Call} (hshape : List.Forall₂ SegmentCall calls (loads li.elf))
    (hnw : ∀ ph ∈ loads li.elf, segEnd ph + 0xfff < 2 ^ 64)
    (hfit : ∀ ph ∈ loads li.elf, (segEnd ph + 0xfff) / 0x1000 * 0x1000 + li.heapSize.toNat +
      li.stackSize.toNat + (0x12000 + 2 * li.ssaframesize.toNat * 0x1000) < 2 ^ 64) :
    ∀ j < 16, loadedByte (calls ++ li.tailCalls (li.plan m)) ((li.plan m).tlsAddr.toNat + j) =
      some ((valueBytes (li.plan m).stackTos ++ valueBytes 0).getD j 0) := by
  obtain ⟨⟨ph₁, hph₁, rfl⟩, hle⟩ := maxEnd_spec hm
  have hm₁ : (ph₁.virtualAddr + ph₁.memSize).toNat = segEnd ph₁ :=
    toNat_segEnd (by have := hfit ph₁ hph₁; omega)
  obtain ⟨hH, hS, hT, hL, -, -⟩ := plan_toNat li _ (by rw [hm₁]; exact hfit ph₁ hph₁)
  intro j hj
  refine (loadedByte_segments_append hshape hnw (fun ph hph => ?_) _).trans
    (loadedByte_tailCalls_tls li _ (by omega))
  have := hle ph hph
  rw [toNat_segEnd (by have := hfit ph hph; omega)] at this
  rw [hL, hT, hS, hH, hm₁]
  omega

/-! ## The words the enclave reads -/

/-- The calls of a successful `write` over streamable, page-disjoint segments that hold the
splices: each segment's call overlays its splices in address order, and the calls after the
segments follow. -/
theorem write_calls_overlaid {li : LayoutInfo} {sink : Sink} {em : Emission}
    (hw : li.write sink = .ok em)
    (hload : ∀ ph ∈ loads li.elf, Streamable ph) (hpw : (loads li.elf).Pairwise PageBefore)
    (hplaced : ∀ heapAddr enclaveSize, ∀ s ∈ li.splices heapAddr enclaveSize,
      ∃ ph ∈ loads li.elf, StrictlyIn ph s) :
    ∃ m, maxEnd (loads li.elf) = some m ∧ ∃ calls, em.calls = calls ++ li.tailCalls (li.plan m) ∧
      List.Forall₂ (SegmentOverlaid (sortSplices (li.splices (li.plan m).heapAddr em.size)))
        calls (loads li.elf) ∧ List.Forall₂ SegmentCall calls (loads li.elf) := by
  obtain ⟨m, hm, -, -, calls, hws, hcalls⟩ := write_eq_ok hw
  have hperm := List.perm_insertionSort (fun s t : Splice => s.addr ≤ t.addr)
    (li.splices (li.plan m).heapAddr em.size)
  obtain ⟨-, hrun⟩ := writeSegments_run (loads li.elf) _ hload hpw
    (sortSplices_sorted_toNat _) fun s hs => hplaced _ _ s (hperm.mem_iff.1 hs)
  obtain ⟨pre, -, hall, hshape⟩ :=
    writeSegments_prefix (sortSplices (li.splices (li.plan m).heapAddr em.size)) (loads li.elf)
  rw [← LayoutInfo.writeElfSegments, hws] at hrun hall hshape
  obtain rfl := hall rfl
  exact ⟨m, hm, calls, hcalls, hrun, hshape⟩

/-- **A splice that no splice above it meets reads back.** After segment calls that overlay a
sorted queue of splices, a splice of the queue strictly inside a segment, below which lies
every other queued splice that meets it, reads back as its value, whatever calls follow. -/
theorem wordAt_of_overlaid {q : List Splice} {calls : List Call} {phs : List ProgramHeader}
    (hrun : List.Forall₂ (SegmentOverlaid q) calls phs) (hpw : phs.Pairwise PageBefore)
    (hq : q.Pairwise fun s t => s.addr.toNat ≤ t.addr.toNat) (rest : List Call) {s : Splice}
    (hs : s ∈ q) {ph : ProgramHeader} (hph : ph ∈ phs) (hin : StrictlyIn ph s)
    (hmax : ∀ t ∈ q, ¬ s.Apart t → t.addr.toNat < s.addr.toNat ∨ t = s) :
    wordAt (loadedByte (calls ++ rest)) s.addr.toNat = some s.value.toNat := by
  refine wordAt_eq_of_bytes fun j hj => ?_
  have hlo : pageBaseNat ph < s.addr.toNat := hin.1
  have hhi : s.addr.toNat + 8 < segEnd ph := hin.2.1
  have := (pageBaseNat_spec ph).2.2
  obtain ⟨data, hdata, hbyte⟩ := loadedByte_of_forall₂ hrun hpw rest ph hph
    (s.addr.toNat + j - pageBaseNat ph) (by omega)
  rw [show s.addr.toNat + j = pageBaseNat ph + (s.addr.toNat + j - pageBaseNat ph) by omega,
    hbyte, hdata.getD_eq, show pageBaseNat ph + (s.addr.toNat + j - pageBaseNat ph) =
      s.addr.toNat + j by omega,
    overlaidByte_of_max (hq.sublist (List.filter_sublist _))
      (List.mem_filter.2 ⟨hs, decide_eq_true hin⟩) ⟨by omega, by omega⟩
      fun u hu hcu => hmax u (List.mem_filter.1 hu).1 fun hap => by
        unfold Splice.Apart at hap
        unfold Splice.Covers at hcu
        omega,
    Nat.add_sub_cancel_left]

/-- Under the conditions of `write_image`, each of the five splices reads back as its value. -/
theorem write_splices_read_back {li : LayoutInfo} {sink : Sink} {em : Emission}
    (hw : li.write sink = .ok em)
    (hload : ∀ ph ∈ loads li.elf, Streamable ph) (hord : (loads li.elf).Chain' PageBefore)
    (hdisj : ∀ heapAddr enclaveSize, (li.splices heapAddr enclaveSize).Pairwise Splice.Apart)
    (hplaced : ∀ heapAddr enclaveSize, ∀ s ∈ li.splices heapAddr enclaveSize,
      ∃ ph ∈ loads li.elf, StrictlyIn ph s) :
    ∃ m, maxEnd (loads li.elf) = some m ∧ ∀ s ∈ li.splices (li.plan m).heapAddr em.size,
      wordAt (loadedByte em.calls) s.addr.toNat = some s.value.toNat := by
  have hpw : (loads li.elf).Pairwise PageBefore := List.chain'_iff_pairwise.1 hord
  obtain ⟨m, hm, calls, hcalls, hrun, -⟩ := write_calls_overlaid hw hload hpw hplaced
  have hperm := List.perm_insertionSort (fun s t : Splice => s.addr ≤ t.addr)
    (li.splices (li.plan m).heapAddr em.size)
  refine ⟨m, hm, fun s hs => ?_⟩
  -- a splice is read from the pages of the segment it lies in, and no other splice meets it
  obtain ⟨ph, hph, hin⟩ := hplaced _ _ s hs
  rw [hcalls]
  refine wordAt_of_overlaid hrun hpw (sortSplices_sorted_toNat _) _ (hperm.mem_iff.2 hs) hph hin
    fun t ht hst => ?_
  rcases rel_or_rel_of_mem (hdisj _ _) hs (hperm.mem_iff.1 ht) with rfl | h | h
  · exact .inr rfl
  · exact absurd h hst
  · exact absurd (h.elim .inr .inl) hst

/-- **The words the enclave reads at start-up.** Under the conditions of `write_image` and with no
sum of the layout reaching `2^64`: each of the five splices, carrying `heap_addr` and the enclave
size `write` computed, reads back as its value at its address; and `write` emits the TCS at
`tcs_addr`, whose `FS` base is `tls_addr` and whose `GS` base is the stack top, and the page at
its `FS` base holds the stack top, then `0`. -/
theorem write_startup_words (li : LayoutInfo) (sink : Sink) (em : Emission)
    (hw : li.write sink = .ok em)
    (hload : ∀ ph ∈ loads li.elf, Streamable ph) (hord : (loads li.elf).Chain' PageBefore)
    (hdisj : ∀ heapAddr enclaveSize, (li.splices heapAddr enclaveSize).Pairwise Splice.Apart)
    (hplaced : ∀ heapAddr enclaveSize, ∀ s ∈ li.splices heapAddr enclaveSize,
      ∃ ph ∈ loads li.elf, StrictlyIn ph s)
    (hfit : ∀ ph ∈ loads li.elf, (segEnd ph + 0xfff) / 0x1000 * 0x1000 + li.heapSize.toNat +
      li.stackSize.toNat + (0x12000 + 2 * li.ssaframesize.toNat * 0x1000) < 2 ^ 64) :
    ∃ m, maxEnd (loads li.elf) = some m ∧
      (∀ s ∈ li.splices (li.plan m).heapAddr em.size,
        wordAt (loadedByte em.calls) s.addr.toNat = some s.value.toNat) ∧
      ∃ tcs a, Call.writePage tcs (some a) ⟨.tcs, false, false, false⟩ ∈ em.calls ∧
        a = (li.plan m).tcsAddr ∧ tcs.ofsbasgx = (li.plan m).tlsAddr ∧
        tcs.ogsbasgx = (li.plan m).stackTos ∧
        wordAt (loadedByte em.calls) tcs.ofsbasgx.toNat = some tcs.ogsbasgx.toNat ∧
        wordAt (loadedByte em.calls) (tcs.ofsbasgx.toNat + 8) = some 0 := by
  obtain ⟨m, hm, hread⟩ := write_splices_read_back hw hload hord hdisj hplaced
  obtain ⟨m', hm', calls, hcalls, -, hshape⟩ :=
    write_calls_overlaid hw hload (List.chain'_iff_pairwise.1 hord) hplaced
  rw [Option.some.inj (hm'.symm.trans hm)] at hcalls
  refine ⟨m, hm, hread, ?_⟩
  -- the TLS page lies above every segment
  have hbyte := loadedByte_tls hm hshape (fun ph h => (hload ph h).no_wrap) hfit
  rw [hcalls]
  refine ⟨⟨(li.plan m).tcsAddr + 0x1000, if li.debug then 2 else 1, li.sym.sgxEntry.value,
    (li.plan m).tlsAddr, (li.plan m).stackTos, 0xfff, 0xfff⟩, (li.plan m).tcsAddr,
    by simp [LayoutInfo.tailCalls], rfl, rfl, rfl, ?_, ?_⟩
  · refine wordAt_eq_of_bytes fun j hj => ?_
    rw [hbyte j (by omega), List.getD_append _ _ _ _ (by rw [length_valueBytes]; exact hj)]
  · refine wordAt_eq_of_bytes (v := 0) fun j hj => ?_
    rw [Nat.add_assoc, hbyte (8 + j) (by omega),
      List.getD_append_right _ _ _ _ (by rw [length_valueBytes]; omega), length_valueBytes,
      Nat.add_sub_cancel_left]

theorem write_startup_words_twoPage :
    ∃ em, twoPageLayout.write acceptAll = .ok em ∧
      (∀ ph ∈ loads twoPageLayout.elf, Streamable ph) ∧
      (loads twoPageLayout.elf).Chain' PageBefore ∧
      (∀ heapAddr enclaveSize,
        (twoPageLayout.splices heapAddr enclaveSize).Pairwise Splice.Apart) ∧
      (∀ heapAddr enclaveSize, ∀ s ∈ twoPageLayout.splices heapAddr enclaveSize,
        ∃ ph ∈ loads twoPageLayout.elf, StrictlyIn ph s) ∧
      (∀ ph ∈ loads twoPageLayout.elf, (segEnd ph + 0xfff) / 0x1000 * 0x1000 +
        twoPageLayout.heapSize.toNat + twoPageLayout.stackSize.toNat +
        (0x12000 + 2 * twoPageLayout.ssaframesize.toNat * 0x1000) < 2 ^ 64) ∧
      ∃ m, maxEnd (loads twoPageLayout.elf) = some m ∧
        (∀ s ∈ twoPageLayout.splices (twoPageLayout.plan m).heapAddr em.size,
          wordAt (loadedByte em.calls) s.addr.toNat = some s.value.toNat) ∧
        ∃ tcs a, Call.writePage tcs (some a) ⟨.tcs, false, false, false⟩ ∈ em.calls ∧
          a = (twoPageLayout.plan m).tcsAddr ∧ tcs.ofsbasgx = (twoPageLayout.plan m).tlsAddr ∧
          tcs.ogsbasgx = (twoPageLayout.plan m).stackTos ∧
          wordAt (loadedByte em.calls) tcs.ofsbasgx.toNat = some tcs.ogsbasgx.toNat ∧
          wordAt (loadedByte em.calls) (tcs.ofsbasgx.toNat + 8) = some 0 := by
  obtain ⟨em, hw⟩ := twoPageLayout_write_ok
  have hdisj : ∀ heapAddr enclaveSize,
      (twoPageLayout.splices heapAddr enclaveSize).Pairwise Splice.Apart := spacedSymbols_apart rfl
  have hplaced : ∀ heapAddr enclaveSize, ∀ s ∈ twoPageLayout.splices heapAddr enclaveSize,
      ∃ ph ∈ loads twoPageLayout.elf, StrictlyIn ph s := spacedSymbols_placed rfl (by decide)
  exact ⟨em, hw, by decide, .cons (by decide) .nil, hdisj, hplaced, by decide,
    write_startup_words twoPageLayout acceptAll em hw (by decide) (.cons (by decide) .nil) hdisj
      hplaced (by decide)⟩

/-- **The words the enclave reads, when the splices overlap.** Under the conditions of
`write_image` but with no condition on how the five spliced symbols meet: a splice, every other
splice meeting which lies at a lower address, reads back as its value at its address. -/
theorem write_startup_words_overlaid (li : LayoutInfo) (sink : Sink) (em : Emission)
    (hw : li.write sink = .ok em)
    (hload : ∀ ph ∈ loads li.elf, Streamable ph) (hord : (loads li.elf).Chain' PageBefore)
    (hplaced : ∀ heapAddr enclaveSize, ∀ s ∈ li.splices heapAddr enclaveSize,
      ∃ ph ∈ loads li.elf, StrictlyIn ph s) :
    ∃ m, maxEnd (loads li.elf) = some m ∧
      ∀ s ∈ li.splices (li.plan m).heapAddr em.size,
        (∀ t ∈ li.splices (li.plan m).heapAddr em.size, ¬ s.Apart t →
          t.addr.toNat < s.addr.toNat ∨ t = s) →
        wordAt (loadedByte em.calls) s.addr.toNat = some s.value.toNat := by
  have hpw : (loads li.elf).Pairwise PageBefore := List.chain'_iff_pairwise.1 hord
  obtain ⟨m, hm, calls, hcalls, hrun, -⟩ := write_calls_overlaid hw hload hpw hplaced
  have hperm := List.perm_insertionSort (fun s t : Splice => s.addr ≤ t.addr)
    (li.splices (li.plan m).heapAddr em.size)
  refine ⟨m, hm, fun s hs hmax => ?_⟩
  obtain ⟨ph, hph, hin⟩ := hplaced _ _ s hs
  rw [hcalls]
  exact wordAt_of_overlaid hrun hpw (sortSplices_sorted_toNat _) _ (hperm.mem_iff.2 hs) hph hin
    fun t ht => hmax t (hperm.mem_iff.1 ht)

/-- `new` accepts `overlapElf`, where `HEAP_SIZE` at `0x200c` overlaps the top half of
`HEAP_BASE` at `0x2008`: `HEAP_SIZE` reads back as the heap size, while `HEAP_BASE` does not read
back as `heap_addr`. -/
theorem write_startup_words_overlaid_overlap :
    LayoutInfo.new overlapElf 1 0x1000 0x1000 false = .ok overlapLayout ∧
    ∃ em, overlapLayout.write acceptAll = .ok em ∧
      (∀ ph ∈ loads overlapLayout.elf, Streamable ph) ∧
      (loads overlapLayout.elf).Chain' PageBefore ∧
      (∀ heapAddr enclaveSize, ∀ s ∈ overlapLayout.splices heapAddr enclaveSize,
        ∃ ph ∈ loads overlapLayout.elf, StrictlyIn ph s) ∧
      wordAt (loadedByte em.calls) 0x200c = some 0x1000 ∧
      wordAt (loadedByte em.calls) 0x2008 ≠ some 0x3000 := by
  have hm : maxEnd (loads overlapLayout.elf) = some 0x2100 := rfl
  have hw := write_eq_emit hm
    (enclaveSize_of_pow_lt (k := 16) (by decide) (by decide) (by decide)) acceptAll
  have hplaced : ∀ heapAddr enclaveSize, ∀ s ∈ overlapLayout.splices heapAddr enclaveSize,
      ∃ ph ∈ loads overlapLayout.elf, StrictlyIn ph s := fun _ _ s hs => by
    simp only [LayoutInfo.splices, List.mem_cons, List.mem_singleton, List.not_mem_nil,
      or_false] at hs
    refine ⟨⟨.load, 6, 0x2000, 0x100, .undefined (List.replicate 0x40 0)⟩, by decide, ?_⟩
    rcases hs with rfl | rfl | rfl | rfl | rfl <;> simp only [StrictlyIn] <;> decide
  obtain ⟨em, hw, hbase⟩ : ∃ em, overlapLayout.write acceptAll = .ok em ∧
      wordAt (loadedByte em.calls) 0x2008 ≠ some 0x3000 := ⟨_, hw.trans rfl, by decide⟩
  obtain ⟨m, hm', hword⟩ := write_startup_words_overlaid overlapLayout acceptAll em hw
    (by decide) (.cons (by decide) .nil) hplaced
  cases hm.symm.trans hm'
  refine ⟨rfl, em, hw, by decide, .cons (by decide) .nil, hplaced, ?_, hbase⟩
  refine hword ⟨0x200c, 0x1000⟩ (List.mem_cons_of_mem _ (List.mem_cons_self _ _)) fun t ht hst => ?_
  simp only [LayoutInfo.splices, List.mem_cons, List.mem_singleton, List.not_mem_nil,
    or_false] at ht
  rcases ht with rfl | rfl | rfl | rfl | rfl
  · exact .inl (by decide)
  · exact .inr rfl
  all_goals exact absurd (Or.inl (by dsimp only; decide)) hst

/-! ## The relocations -/

/-- Each right element of `Forall₂ R` has a related left element. -/
theorem exists_mem_of_forall₂ {α β : Type} {R : α → β → Prop} {l₁ : List α} {l₂ : List β}
    (h : List.Forall₂ R l₁ l₂) {b : β} (hb : b ∈ l₂) : ∃ a ∈ l₁, R a b := by
  induction h with
  | nil => cases hb
  | @cons a b' _ _ hab _ ih =>
    rcases List.mem_cons.1 hb with rfl | hb
    · exact ⟨a, List.mem_cons_self _ _, hab⟩
    · obtain ⟨a', ha', h'⟩ := ih hb
      exact ⟨a', List.mem_cons_of_mem _ ha', h'⟩

/-- **Every accepted relocation targets writable pages.** For a file `new` accepts, when
`write` returns `Ok`, no `PT_LOAD` ends within a page of `2^64` and no relocation offset within
8 of it, the 8 bytes at each `r_offset` that `check_relocs` inspected lie in the pages of one
`write_pages` call that `write` makes with `W` set: that of the writable segment holding them,
from its page base. -/
theorem write_relocs_writable {elf : ElfFile} {ssa : BitVec 32} {hs ss : BitVec 64} {dbg : Bool}
    {li : LayoutInfo} (h : LayoutInfo.new elf ssa hs ss dbg = .ok li) {sink : Sink}
    {em : Emission} (hw : li.write sink = .ok em)
    (hnw : ∀ ph ∈ loads li.elf, segEnd ph + 0xfff < 2 ^ 64)
    (hoff : ∀ r ∈ relocEntries li.elf, r.offset.toNat + 8 < 2 ^ 64) :
    ∀ r ∈ relocEntries li.elf, ∃ data count addr secinfo,
      Call.writePages data count (some addr) secinfo ∈ em.calls ∧ secinfo.w = true ∧
        addr.toNat ≤ r.offset.toNat ∧ r.offset.toNat + 8 ≤ addr.toNat + count * 0x1000 := by
  intro r hr
  obtain ⟨-, sym, dyn, -, -, hrel, rfl⟩ := new_eq_ok.1 h
  have hload : ∀ ph ∈ elf.programs, ph.phType = .load → ph ∈ loads elf := fun ph hph hl =>
    List.mem_filter.2 ⟨hph, by simp [hl]⟩
  -- without wrapping, the accepted entry keeps the rules on unbounded integers
  obtain ⟨-, -, ph, hph, hl, hW, hlo, hhi⟩ := (checkRela_eq_ok_iff_relaValid (hoff r hr)
    fun ph hph hl _ => by have := hnw ph (hload ph hph hl); unfold segEnd at this; omega).1
    ((checkRelocs_eq_ok.1 hrel).1 r hr)
  -- and the segment holding it got its call
  obtain ⟨m, -, -, -, calls, hws, hcalls⟩ := write_eq_ok hw
  obtain ⟨pre, -, hall, hshape⟩ := writeSegments_prefix
    (sortSplices ((LayoutInfo.mk elf sym dyn ssa hs ss dbg).splices
      ((LayoutInfo.mk elf sym dyn ssa hs ss dbg).plan m).heapAddr em.size)) (loads elf)
  rw [← LayoutInfo.writeElfSegments, hws] at hall hshape
  obtain rfl := hall rfl
  obtain ⟨c, hc, data, rfl⟩ := exists_mem_of_forall₂ hshape (hload ph hph hl)
  have hspan := (pageBaseNat_spec ph).2.2
  have hbase := pageBaseNat_le ph
  refine ⟨some data,
    (sizeAlignPageSize (ph.virtualAddr + ph.memSize - (ph.virtualAddr &&& ~~~0xfff)) / 0x1000).toNat,
    ph.virtualAddr &&& ~~~0xfff, secinfoOf ph.flags, ?_, ?_, ?_, ?_⟩
  · rw [hcalls]
    exact List.mem_append_left _ hc
  · show decide (ph.flags &&& flagW ≠ 0) = true
    rw [hW]
    decide
  · rw [toNat_pageBase]
    omega
  · rw [toNat_pageBase, pageCount_eq ph (hnw ph (hload ph hph hl))]
    unfold segEnd at hspan
    omega

/-- One relocation of `0x2100` in a data page at `0x2000`, but `DT_RELA` at `0x2040`, where
the page holds zeros. -/
def strayRelaElf : ElfFile :=
  ⟨.sixtyFour, [dynsymAt 0x2008 0x2010 0x2018 0x2020 0x2028,
      ⟨".rela.dyn", .rela64 [⟨0x2100, 8, 0x1000⟩]⟩],
    [⟨.load, 6, 0x2000, 0x1000, .undefined (List.replicate 0x80 0)⟩,
      ⟨.dynamic, 6, 0, 0, .dynamic64 [⟨.rela, 0x2040⟩, ⟨dtRelacount, 1⟩]⟩]⟩

/-- What `new` keeps of `strayRelaElf`. -/
def strayRelaLayout : LayoutInfo :=
  ⟨strayRelaElf, spacedSymbols, some ⟨⟨.rela, 0x2040⟩, ⟨dtRelacount, 1⟩⟩, 1, 0x1000, 0x1000, false⟩

/-- `write` on `strayRelaLayout`: `max_addr` is `0x3000` and the enclave size `0x20000`. -/
theorem strayRelaLayout_write :
    strayRelaLayout.write acceptAll =
      strayRelaLayout.emit acceptAll (strayRelaLayout.plan 0x3000) 0x20000 :=
  write_eq_emit (show maxEnd (loads strayRelaLayout.elf) = some 0x3000 from rfl)
    (enclaveSize_of_pow_lt (k := 16) (by decide) (by decide) (by decide)) acceptAll

set_option maxRecDepth 4000 in
theorem write_relocs_writable_strayRela :
    ∃ em, LayoutInfo.new strayRelaElf 1 0x1000 0x1000 false = .ok strayRelaLayout ∧
      strayRelaLayout.write acceptAll = .ok em ∧
      (∀ ph ∈ loads strayRelaLayout.elf, segEnd ph + 0xfff < 2 ^ 64) ∧
      (∀ r ∈ relocEntries strayRelaLayout.elf, r.offset.toNat + 8 < 2 ^ 64) ∧
      ∀ r ∈ relocEntries strayRelaLayout.elf, ∃ data count addr secinfo,
        Call.writePages data count (some addr) secinfo ∈ em.calls ∧ secinfo.w = true ∧
          addr.toNat ≤ r.offset.toNat ∧ r.offset.toNat + 8 ≤ addr.toNat + count * 0x1000 := by
  obtain ⟨em, hw⟩ : ∃ em, strayRelaLayout.write acceptAll = .ok em :=
    ⟨_, strayRelaLayout_write.trans rfl⟩
  exact ⟨em, rfl, hw, by decide, by decide,
    @write_relocs_writable strayRelaElf 1 0x1000 0x1000 false strayRelaLayout rfl acceptAll em hw
      (by decide) (by decide)⟩

/-- **What the relocation splices publish.** For a file `new` accepts with a `DT_RELA` and
`DT_RELACOUNT` pair: the count of `DT_RELACOUNT` is, as a `u64`, the number of `Rela64` entries
`check_relocs` inspected; when no offset is within 8 of `2^64` and no writable `PT_LOAD` ends
past it, each of them is `R_X86_64_RELATIVE` against symbol `0` with its 8 bytes inside a
writable `PT_LOAD`; and under the conditions of `write_image`, the image `write` loads reads back
`DT_RELA` at `RELA` and `DT_RELACOUNT` at `RELACOUNT`. -/
theorem new_relocation_splices {elf : ElfFile} {ssa : BitVec 32} {hs ss : BitVec 64}
    {dbg : Bool} {li : LayoutInfo} (h : LayoutInfo.new elf ssa hs ss dbg = .ok li) {d : Dynamic}
    (hd : li.dyn = some d) :
    d.relacount.un = BitVec.ofNat 64 (relocEntries li.elf).length ∧
      ((∀ r ∈ relocEntries li.elf, r.offset.toNat + 8 < 2 ^ 64) →
        (∀ ph ∈ li.elf.programs, ph.phType = .load → ph.flags &&& flagW = flagW →
          ph.virtualAddr.toNat + ph.memSize.toNat < 2 ^ 64) →
        ∀ r ∈ relocEntries li.elf, RelaValid li.elf r) ∧
      ∀ sink em, li.write sink = .ok em → (∀ ph ∈ loads li.elf, Streamable ph) →
        (loads li.elf).Chain' PageBefore →
        (∀ heapAddr enclaveSize, (li.splices heapAddr enclaveSize).Pairwise Splice.Apart) →
        (∀ heapAddr enclaveSize, ∀ s ∈ li.splices heapAddr enclaveSize,
          ∃ ph ∈ loads li.elf, StrictlyIn ph s) →
        wordAt (loadedByte em.calls) li.sym.rela.value.toNat = some d.rela.un.toNat ∧
          wordAt (loadedByte em.calls) li.sym.relacount.value.toNat = some d.relacount.un.toNat := by
  obtain ⟨-, sym, dyn, -, -, hrel, rfl⟩ := new_eq_ok.1 h
  cases hd
  obtain ⟨hall, hcount⟩ := checkRelocs_eq_ok.1 hrel
  refine ⟨hcount.symm, fun hoff hseg r hr =>
    (checkRela_eq_ok_iff_relaValid (hoff r hr) hseg).1 (hall r hr),
    fun sink em hw hload hord hdisj hplaced => ?_⟩
  obtain ⟨m, -, hread⟩ := write_splices_read_back hw hload hord hdisj hplaced
  exact ⟨hread ⟨sym.rela.value, d.rela.un⟩ (by simp [LayoutInfo.splices]),
    hread ⟨sym.relacount.value, d.relacount.un⟩ (by simp [LayoutInfo.splices])⟩

set_option maxRecDepth 4000 in
theorem new_relocation_splices_strayRela :
    ∃ em, LayoutInfo.new strayRelaElf 1 0x1000 0x1000 false = .ok strayRelaLayout ∧
      strayRelaLayout.dyn = some ⟨⟨.rela, 0x2040⟩, ⟨dtRelacount, 1⟩⟩ ∧
      strayRelaLayout.write acceptAll = .ok em ∧
      (∀ r ∈ relocEntries strayRelaLayout.elf, r.offset.toNat + 8 < 2 ^ 64) ∧
      (∀ ph ∈ strayRelaLayout.elf.programs, ph.phType = .load → ph.flags &&& flagW = flagW →
        ph.virtualAddr.toNat + ph.memSize.toNat < 2 ^ 64) ∧
      (∀ ph ∈ loads strayRelaLayout.elf, Streamable ph) ∧
      (loads strayRelaLayout.elf).Chain' PageBefore ∧
      (∀ heapAddr enclaveSize,
        (strayRelaLayout.splices heapAddr enclaveSize).Pairwise Splice.Apart) ∧
      (∀ heapAddr enclaveSize, ∀ s ∈ strayRelaLayout.splices heapAddr enclaveSize,
        ∃ ph ∈ loads strayRelaLayout.elf, StrictlyIn ph s) ∧
      (1 : BitVec 64) = BitVec.ofNat 64 (relocEntries strayRelaLayout.elf).length ∧
      (∀ r ∈ relocEntries strayRelaLayout.elf, RelaValid strayRelaLayout.elf r) ∧
      wordAt (loadedByte em.calls) 0x2018 = some 0x2040 ∧
      wordAt (loadedByte em.calls) 0x2020 = some 1 := by
  obtain ⟨em, hw⟩ : ∃ em, strayRelaLayout.write acceptAll = .ok em :=
    ⟨_, strayRelaLayout_write.trans rfl⟩
  have hdisj : ∀ heapAddr enclaveSize,
      (strayRelaLayout.splices heapAddr enclaveSize).Pairwise Splice.Apart :=
    spacedSymbols_apart rfl
  have hplaced : ∀ heapAddr enclaveSize, ∀ s ∈ strayRelaLayout.splices heapAddr enclaveSize,
      ∃ ph ∈ loads strayRelaLayout.elf, StrictlyIn ph s := spacedSymbols_placed rfl (by decide)
  obtain ⟨hcount, hvalid, hread⟩ :=
    @new_relocation_splices strayRelaElf 1 0x1000 0x1000 false strayRelaLayout rfl _ rfl
  exact ⟨em, rfl, rfl, hw, by decide, by decide, by decide, .nil, hdisj, hplaced, hcount,
    hvalid (by decide) (by decide), hread acceptAll em hw (by decide) .nil hdisj hplaced⟩

set_option maxRecDepth 4000 in
/-- **The table at `DT_RELA` need not be the inspected one.** `new` accepts `strayRelaElf`; the
enclave is told of one entry at `0x2040`, where the image `write` loads holds an all-zero
`Elf64_Rela`, while the entry `check_relocs` inspected is
`{r_offset 0x2100, r_info 8, r_addend 0x1000}`. -/
theorem new_publishes_uninspected_table :
    ∃ li em, LayoutInfo.new strayRelaElf 1 0x1000 0x1000 false = .ok li ∧
      li.dyn = some ⟨⟨.rela, 0x2040⟩, ⟨dtRelacount, 1⟩⟩ ∧
      relocEntries li.elf = [⟨0x2100, 8, 0x1000⟩] ∧ li.write acceptAll = .ok em ∧
      publishedTable em.calls 0x2040 1 = some [⟨0, 0, 0⟩] :=
  ⟨_, _, rfl, rfl, rfl, strayRelaLayout_write.trans rfl, rfl⟩

end SgxUtils.Elf2Sgxs
