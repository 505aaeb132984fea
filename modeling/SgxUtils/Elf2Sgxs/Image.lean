import SgxUtils.Elf2Sgxs.Segments

/-!
# The relocation table the enclave is told about

`write_elf_segments` splices `RELA` with the word of `DT_RELA` and `RELACOUNT` with that of
`DT_RELACOUNT`: inside the enclave, these say where the relocation table is and how many
24-byte `Elf64_Rela` entries it has. `check_relocs` inspected the entries of the `SHT_RELA`
sections and counted them against `DT_RELACOUNT`, but never compared `DT_RELA` with them.

`loadedByte` reads the enclave image back from the writer's calls, and `publishedTable`
decodes the table at `DT_RELA` from it; `Startup.lean` states what the checks guarantee of the
two words and that the table there need not be the inspected one.

## Main results

* `loadedByte_of_forall₂`: on a segment's pages, the image is the data of the segment's call.
* `leWord_leBytes`: decoding a little-endian word undoes `leBytes`.
-/

namespace SgxUtils.Elf2Sgxs
open SgxUtils.Elf

/-- The byte the calls load at address `a`: that of the first `write_pages` call with data
whose pages hold `a`. -/
def loadedByte : List Call → ℕ → Option UInt8
  | [], _ => none
  | .writePages (some data) count (some addr) _ :: cs, a =>
    if addr.toNat ≤ a ∧ a < addr.toNat + count * 0x1000 then some (data.getD (a - addr.toNat) 0)
    else loadedByte cs a
  | _ :: cs, a => loadedByte cs a

/-- **What a run over page-disjoint segments loads.** In the pages of each segment, the first
call that holds an address is the segment's own: it loads the byte of the segment's data,
whatever calls follow. `P` says what the data of each segment's call is. -/
theorem loadedByte_of_forall₂ {P : ProgramHeader → List UInt8 → Prop} {calls : List Call}
    {phs : List ProgramHeader}
    (h : List.Forall₂ (fun c ph => ∃ data, c = .writePages (some data) (pageSpan ph)
      (some (ph.virtualAddr &&& ~~~0xfff)) (secinfoOf ph.flags) ∧ P ph data) calls phs)
    (hpw : phs.Pairwise PageBefore) (rest : List Call) :
    ∀ ph ∈ phs, ∀ i < pageSpan ph * 0x1000, ∃ data, P ph data ∧
      loadedByte (calls ++ rest) (pageBaseNat ph + i) = some (data.getD i 0) := by
  induction h with
  | nil => exact fun _ h => nomatch h
  | @cons c ph' cs phs hc _ ih =>
    obtain ⟨data, rfl, hdata⟩ := hc
    rw [List.pairwise_cons] at hpw
    intro ph hph i hi
    rcases List.mem_cons.1 hph with rfl | hph
    · refine ⟨data, hdata, ?_⟩
      simp only [List.cons_append, loadedByte, toNat_pageBase]
      rw [if_pos (by omega), Nat.add_sub_cancel_left]
    · obtain ⟨data', hdata', hload⟩ := ih hpw.2 ph hph i hi
      refine ⟨data', hdata', ?_⟩
      have hbefore := hpw.1 ph hph
      have := pageBaseNat_spec ph'
      unfold PageBefore at hbefore
      simp only [List.cons_append, loadedByte, toNat_pageBase]
      rw [if_neg (by omega)]
      exact hload

/-- On a segment's pages, the image is the segment's stream. -/
theorem loadedByte_of_segmentWritten {sp : List Splice} {calls : List Call}
    {phs : List ProgramHeader} (h : List.Forall₂ (SegmentWritten sp) calls phs)
    (hpw : phs.Pairwise PageBefore) (rest : List Call) :
    ∀ ph ∈ phs, ∀ i < pageSpan ph * 0x1000,
      ∃ data, Streams (pageBaseNat ph) ph.virtualAddr.toNat (fileBytes ph)
        (sp.filter fun s => decide (StrictlyIn ph s)) data ∧
        loadedByte (calls ++ rest) (pageBaseNat ph + i) = some (data.getD i 0) :=
  loadedByte_of_forall₂ (P := fun ph data => Streams (pageBaseNat ph) ph.virtualAddr.toNat
    (fileBytes ph) (sp.filter fun s => decide (StrictlyIn ph s)) data) h hpw rest

/-- The number whose little-endian bytes these are. -/
def leWord (bytes : List UInt8) : ℕ := bytes.foldr (fun b n => b.toNat + 256 * n) 0

theorem leWord_leBytes (w n : ℕ) : leWord (leBytes w n) = n % 256 ^ w := by
  induction w generalizing n with
  | zero => simp [leWord, leBytes, Nat.mod_one]
  | succ w ih =>
    have hb : (UInt8.ofNat n).toNat = n % 256 := rfl
    simp only [leBytes, leWord, List.foldr_cons] at ih ⊢
    rw [ih, hb, Nat.pow_succ', Nat.mod_mul]

/-- The `Elf64_Rela` at address `a`: `r_offset`, `r_info` and `r_addend`, 8 little-endian bytes
each, or `none` where nothing is loaded. -/
def relaAt (byteAt : ℕ → Option UInt8) (a : ℕ) : Option Rela := do
  let bytes ← (List.range 24).mapM fun i => byteAt (a + i)
  pure ⟨BitVec.ofNat 64 (leWord (bytes.take 8)), BitVec.ofNat 64 (leWord ((bytes.drop 8).take 8)),
    BitVec.ofNat 64 (leWord (bytes.drop 16))⟩

/-- The table the enclave finds from the two splices: `count` entries from `addr`. -/
def publishedTable (calls : List Call) (addr count : ℕ) : Option (List Rela) :=
  (List.range count).mapM fun k => relaAt (loadedByte calls) (addr + 24 * k)

end SgxUtils.Elf2Sgxs
