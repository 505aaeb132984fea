import SgxUtils.Elf.File

/-!
# The splice loop of one segment

`write_elf_segments` streams each `PT_LOAD` segment from its page base `base = start & !0xfff`
and overwrites, on the way, the 8 bytes of every spliced symbol that falls in the segment with
the symbol's new value. The stream is a chain of readers; here it is the list of bytes the
chain yields, so that `Read::take` is `List.take` and `chain` is `++`.

The stream starts as the file bytes after `start - base` zeros (`leadIn`), unless the next
splice sits exactly at `base`: then it is that splice's 8 bytes alone. The `while` loop then
consumes splices while the next one has `s.0 >= base && s.0 + 8 < end`: it keeps the first
`s.0 - base` bytes of the stream, appends the value, and continues with the segment from
`s.0 + 8`. That slice `&base_data[(s.0 + 8 - start)..]` panics past the file bytes.

`Overlays` is what the loop keeps: the stream, read from the page base, is the memory image
with the splices consumed so far written over it one after another, each over what the ones
before it wrote. `spliceLoop_run` proves it of a whole run of the loop over splices sorted by
address, which may overlap, from the step lemma `overlays_patch`. When no two splices meet, the
order does not matter and the image is `Streams`.

## Main results

* `overlaidByte_eq_splicedByte`: for splices that do not meet, the order of writing is
  irrelevant.
* `spliceLoop_cons_consume`: one iteration, as the image from `s.0 + 8` on.
* `spliceLoop_run`: the loop consumes the splices that end before the segment does and leaves
  the stream equal to the image with them written over it in order.
-/

namespace SgxUtils.Elf2Sgxs
open SgxUtils.Elf

/-- `Splice(address, value)`; its `Ord` compares the address only. -/
structure Splice where
  addr : BitVec 64
  value : BitVec 64
  deriving DecidableEq, Repr

/-- A panic of `write_elf_segments`. -/
inductive Panic
  /-- `unreachable!()`: a `PT_LOAD` whose data is not `SegmentData::Undefined`. -/
  | unreachable
  /-- "range start index {index} out of range for slice of length {len}", from
  `&base_data[index..]`. -/
  | sliceIndex (index len : ℕ)
  deriving DecidableEq, Repr

/-- The 8 bytes `transmute::<&u64, &[u8; 8]>` reads from a value on x86-64. -/
def valueBytes (v : BitVec 64) : List UInt8 := leBytes 8 v.toNat

@[simp] theorem length_valueBytes (v : BitVec 64) : (valueBytes v).length = 8 :=
  length_leBytes 8 _

/-- The stream from the page base with no splice there: the file bytes, after `start - base`
zeros unless the segment starts on its page base. -/
def leadIn (base start : BitVec 64) (baseData : List UInt8) : List UInt8 :=
  if base = start then baseData else List.replicate (start - base).toNat 0 ++ baseData

/-- The stream before the loop, and the splices left: the next splice's value alone when it
sits at the page base, `leadIn` otherwise. -/
def initialData (base start : BitVec 64) (baseData : List UInt8) :
    List Splice → List UInt8 × List Splice
  | s :: rest =>
    if base = s.addr then (valueBytes s.value, rest) else (leadIn base start baseData, s :: rest)
  | [] => (leadIn base start baseData, [])

/-- The `while` loop of one segment, over the sorted splices. The stream is read from the page
base, so the bytes before a splice are its first `s.0 - base`. -/
def spliceLoop (base start end_ : BitVec 64) (baseData : List UInt8) :
    List UInt8 → List Splice → Except Panic (List UInt8 × List Splice)
  | data, [] => .ok (data, [])
  | data, s :: rest =>
    if s.addr ≥ base ∧ s.addr + 8 < end_ then
      let nd := data.take (s.addr - base).toNat ++ valueBytes s.value
      let curPtr := s.addr + 8
      if curPtr < start then
        spliceLoop base start end_ baseData
          (nd ++ (List.replicate (start - curPtr).toNat 0 ++ baseData)) rest
      else if (curPtr - start).toNat ≤ baseData.length then
        spliceLoop base start end_ baseData (nd ++ baseData.drop (curPtr - start).toNat) rest
      else .error (.sliceIndex (curPtr - start).toNat baseData.length)
    else .ok (data, s :: rest)

/-! ## The memory image with splices applied -/

/-- Byte `a` of a segment's memory image: zeros below `p_vaddr`, then the file bytes, then
zeros. -/
def memByte (start : ℕ) (fileBytes : List UInt8) (a : ℕ) : UInt8 :=
  if a < start then 0 else fileBytes.getD (a - start) 0

/-- Splice `s` writes address `a`. -/
def Splice.Covers (s : Splice) (a : ℕ) : Prop := s.addr.toNat ≤ a ∧ a < s.addr.toNat + 8

instance (s : Splice) (a : ℕ) : Decidable (s.Covers a) := inferInstanceAs (Decidable (_ ∧ _))

/-- The 8-byte ranges of two splices do not meet. -/
def Splice.Apart (s t : Splice) : Prop :=
  s.addr.toNat + 8 ≤ t.addr.toNat ∨ t.addr.toNat + 8 ≤ s.addr.toNat

instance (s t : Splice) : Decidable (s.Apart t) := inferInstanceAs (Decidable (_ ∨ _))

/-- Byte `a` of the memory image with the splices `sp` written over it. -/
def splicedByte (start : ℕ) (fileBytes : List UInt8) (sp : List Splice) (a : ℕ) : UInt8 :=
  match sp.find? (fun s => decide (s.Covers a)) with
  | some s => (valueBytes s.value).getD (a - s.addr.toNat) 0
  | none => memByte start fileBytes a

/-- `data`, read from the page base `base`, is the memory image with the splices `done`
written over it, and as long as the image up to the end of the file bytes. -/
structure Streams (base start : ℕ) (fileBytes : List UInt8) (done : List Splice)
    (data : List UInt8) : Prop where
  length_eq : data.length = start - base + fileBytes.length
  getD_eq : ∀ i, data.getD i 0 = splicedByte start fileBytes done (base + i)

/-- Byte `a` of the memory image after the splices `sp` are written over it one after another:
the last splice of `sp` that writes `a` decides. -/
def overlaidByte (start : ℕ) (fileBytes : List UInt8) (sp : List Splice) (a : ℕ) : UInt8 :=
  sp.foldl (fun b s => if s.Covers a then (valueBytes s.value).getD (a - s.addr.toNat) 0 else b)
    (memByte start fileBytes a)

/-- `data`, read from the page base `base`, is the memory image with the splices `done` written
over it in order, and as long as the image up to the end of the file bytes. -/
structure Overlays (base start : ℕ) (fileBytes : List UInt8) (done : List Splice)
    (data : List UInt8) : Prop where
  length_eq : data.length = start - base + fileBytes.length
  getD_eq : ∀ i, data.getD i 0 = overlaidByte start fileBytes done (base + i)

section Image

variable {start : ℕ} {fileBytes : List UInt8} {a : ℕ}

theorem splicedByte_of_not_covers {sp : List Splice} (h : ∀ t ∈ sp, ¬ t.Covers a) :
    splicedByte start fileBytes sp a = memByte start fileBytes a := by
  rw [splicedByte, List.find?_eq_none.2 (by simpa using h)]

/-- Among splices whose ranges do not meet, the one that writes `a` is the one `find?`
returns. -/
theorem find?_covers_eq {l : List Splice} {t : Splice} (hl : l.Pairwise Splice.Apart)
    (ht : t ∈ l) (hc : t.Covers a) : l.find? (fun s => decide (s.Covers a)) = some t := by
  induction l with
  | nil => cases ht
  | cons x xs ih =>
    rw [List.pairwise_cons] at hl
    rcases List.mem_cons.1 ht with rfl | ht
    · simp [hc]
    · have hx : ¬ x.Covers a := fun hx => by
        have := hl.1 t ht
        simp only [Splice.Apart, Splice.Covers] at this hx hc
        omega
      simp [hx, ih hl.2 ht]

/-- Two lists of splices whose ranges do not meet, with the same splices writing `a`, give
byte `a` the same value. -/
theorem splicedByte_congr {l₁ l₂ : List Splice} (h₁ : l₁.Pairwise Splice.Apart)
    (h₂ : l₂.Pairwise Splice.Apart) (h : ∀ t, t.Covers a → (t ∈ l₁ ↔ t ∈ l₂)) :
    splicedByte start fileBytes l₁ a = splicedByte start fileBytes l₂ a := by
  by_cases hex : ∃ t ∈ l₁, t.Covers a
  · obtain ⟨t, ht, hc⟩ := hex
    simp only [splicedByte, find?_covers_eq h₁ ht hc, find?_covers_eq h₂ ((h t hc).1 ht) hc]
  · push_neg at hex
    rw [splicedByte_of_not_covers hex,
      splicedByte_of_not_covers fun t ht hc => hex t ((h t hc).2 ht) hc]

/-- `Streams` depends only on which splices were written, when their ranges do not meet. -/
theorem Streams.congr {b st : ℕ} {d : List UInt8} {done₁ done₂ : List Splice}
    {data : List UInt8} (h : Streams b st d done₁ data) (h₁ : done₁.Pairwise Splice.Apart)
    (h₂ : done₂.Pairwise Splice.Apart) (hmem : ∀ t, t ∈ done₁ ↔ t ∈ done₂) :
    Streams b st d done₂ data :=
  ⟨h.length_eq, fun i => (h.getD_eq i).trans (splicedByte_congr h₁ h₂ fun t _ => hmem t)⟩

theorem overlaidByte_append (done : List Splice) (s : Splice) :
    overlaidByte start fileBytes (done ++ [s]) a =
      if s.Covers a then (valueBytes s.value).getD (a - s.addr.toNat) 0
      else overlaidByte start fileBytes done a := by
  simp only [overlaidByte, List.foldl_append, List.foldl_cons, List.foldl_nil]

theorem foldl_overlay_of_not_covers {l : List Splice} (h : ∀ t ∈ l, ¬ t.Covers a) (b : UInt8) :
    l.foldl (fun b s => if s.Covers a then (valueBytes s.value).getD (a - s.addr.toNat) 0 else b)
      b = b := by
  induction l generalizing b with
  | nil => rfl
  | cons t l ih =>
    rw [List.foldl_cons, if_neg (h t (List.mem_cons_self _ _))]
    exact ih (fun u hu => h u (List.mem_cons_of_mem _ hu)) b

theorem overlaidByte_of_not_covers {sp : List Splice} (h : ∀ t ∈ sp, ¬ t.Covers a) :
    overlaidByte start fileBytes sp a = memByte start fileBytes a :=
  foldl_overlay_of_not_covers h _

/-- The last splice that writes `a` decides byte `a`. -/
theorem overlaidByte_of_last {l₁ l₂ : List Splice} {t : Splice} (ht : t.Covers a)
    (hl₂ : ∀ u ∈ l₂, ¬ u.Covers a) :
    overlaidByte start fileBytes (l₁ ++ t :: l₂) a = (valueBytes t.value).getD (a - t.addr.toNat) 0 := by
  rw [overlaidByte, List.foldl_append, List.foldl_cons, if_pos ht, foldl_overlay_of_not_covers hl₂]

/-- Over splices sorted by address, a splice that writes `a`, above every other splice that
does, decides byte `a`. -/
theorem overlaidByte_of_max {l : List Splice}
    (hl : l.Pairwise fun s t => s.addr.toNat ≤ t.addr.toNat) {t : Splice} (ht : t ∈ l)
    (hc : t.Covers a) (hmax : ∀ u ∈ l, u.Covers a → u.addr.toNat < t.addr.toNat ∨ u = t) :
    overlaidByte start fileBytes l a = (valueBytes t.value).getD (a - t.addr.toNat) 0 := by
  induction l using List.reverseRecOn with
  | nil => cases ht
  | append_singleton l u ih =>
    rw [List.pairwise_append] at hl
    rw [overlaidByte_append]
    split
    · next hu =>
      rcases hmax u (List.mem_append_right _ (List.mem_singleton_self _)) hu with hlt | rfl
      · -- `t` is written before `u`, so it is not above it
        rcases List.mem_append.1 ht with ht | ht
        · exact absurd (hl.2.2 t ht u (List.mem_singleton_self _)) (by omega)
        · rw [List.mem_singleton.1 ht] at hlt
          exact absurd hlt (lt_irrefl _)
      · rfl
    · next hu =>
      have ht' : t ∈ l := (List.mem_append.1 ht).resolve_right fun h =>
        hu (List.mem_singleton.1 h ▸ hc)
      exact ih hl.1 ht' fun u' hu' => hmax u' (List.mem_append_left _ hu')

/-- **Over splices that do not meet, the order of writing does not matter.** -/
theorem overlaidByte_eq_splicedByte {sp : List Splice} (h : sp.Pairwise Splice.Apart) :
    overlaidByte start fileBytes sp a = splicedByte start fileBytes sp a := by
  by_cases hex : ∃ t ∈ sp, t.Covers a
  · obtain ⟨t, ht, hc⟩ := hex
    obtain ⟨l₁, l₂, rfl⟩ := List.append_of_mem ht
    have hl₂ : ∀ u ∈ l₂, ¬ u.Covers a := fun u hu hcu => by
      have := (List.pairwise_cons.1 (List.pairwise_append.1 h).2.1).1 u hu
      simp only [Splice.Apart, Splice.Covers] at this hc hcu
      omega
    rw [overlaidByte_of_last hc hl₂, splicedByte, find?_covers_eq h ht hc]
  · push_neg at hex
    rw [overlaidByte_of_not_covers hex, splicedByte_of_not_covers hex]

theorem Overlays.streams {b st : ℕ} {d : List UInt8} {done : List Splice} {data : List UInt8}
    (h : Overlays b st d done data) (hd : done.Pairwise Splice.Apart) : Streams b st d done data :=
  ⟨h.length_eq, fun i => (h.getD_eq i).trans (overlaidByte_eq_splicedByte hd)⟩

end Image

/-! ## Bytes of the stream -/

/-- Byte `i` of a stream with `v` written over it at `k`: the old byte below `k`, a byte of
`v` inside, a byte of the new tail after. -/
theorem getD_patch {S v T : List UInt8} {k : ℕ} (hk : k ≤ S.length) (i : ℕ) :
    (S.take k ++ v ++ T).getD i 0 =
      if i < k then S.getD i 0 else if i < k + v.length then v.getD (i - k) 0
      else T.getD (i - k - v.length) 0 := by
  have hlen : (S.take k).length = k := List.length_take_of_le hk
  simp only [List.getD_eq_getElem?_getD]
  split
  · next hi => rw [List.append_assoc, List.getElem?_append_left (by omega), List.getElem?_take_of_lt hi]
  split
  · next hi hi' =>
    rw [List.append_assoc, List.getElem?_append_right (by omega), hlen,
      List.getElem?_append_left (by omega)]
  · next hi hi' =>
    rw [List.getElem?_append_right (by simp only [List.length_append]; omega),
      List.length_append, hlen, Nat.sub_add_eq]

/-- The image from the page base: `start - base` zeros, then the file bytes. -/
theorem getD_image {b st : ℕ} {d : List UInt8} (h : b ≤ st) (i : ℕ) :
    (List.replicate (st - b) 0 ++ d).getD i 0 = memByte st d (b + i) := by
  simp only [List.getD_eq_getElem?_getD, memByte]
  split
  · next hi =>
    rw [List.getElem?_append_left (by simp; omega), List.getElem?_replicate_of_lt (by omega)]
    rfl
  · next hi =>
    rw [List.getElem?_append_right (by simp; omega), List.length_replicate]
    congr 2
    omega

theorem getD_leadIn {base start : BitVec 64} {d : List UInt8} (h : base.toNat ≤ start.toNat)
    (i : ℕ) :
    (leadIn base start d).getD i 0 = memByte start.toNat d (base.toNat + i) := by
  unfold leadIn
  split
  · next heq => subst heq; simpa using getD_image (d := d) (le_refl _) i
  · rw [BitVec.toNat_sub_of_le (BitVec.le_def.2 h)]; exact getD_image h i

theorem length_leadIn {base start : BitVec 64} {d : List UInt8} (h : base.toNat ≤ start.toNat) :
    (leadIn base start d).length = start.toNat - base.toNat + d.length := by
  unfold leadIn
  split
  · next heq => subst heq; simp
  · simp [BitVec.toNat_sub_of_le (BitVec.le_def.2 h)]

/-! ## One iteration and a run of the loop -/

section Loop

variable {base start end_ : BitVec 64} {d : List UInt8}

/-- **One iteration.** A splice that the loop consumes and whose 8 bytes end inside the file
bytes gives the stream's first `s.0 - base` bytes, its value, and the image from `s.0 + 8`:
both branches of the code are that image. -/
theorem spliceLoop_cons_consume (hbs : base.toNat ≤ start.toNat) {data : List UInt8}
    {s : Splice} {rest : List Splice} (hA : base.toNat ≤ s.addr.toNat)
    (hw : s.addr.toNat + 8 < 2 ^ 64) (hend : s.addr.toNat + 8 < end_.toNat)
    (hfit : s.addr.toNat + 8 ≤ start.toNat + d.length) :
    spliceLoop base start end_ d data (s :: rest) =
      spliceLoop base start end_ d (data.take (s.addr.toNat - base.toNat) ++ valueBytes s.value ++
        (List.replicate (start.toNat - base.toNat) 0 ++ d).drop (s.addr.toNat + 8 - base.toNat))
        rest := by
  have hcur : (s.addr + 8).toNat = s.addr.toNat + 8 := by bv_omega
  have hcond : s.addr ≥ base ∧ s.addr + 8 < end_ := by
    simp only [ge_iff_le, BitVec.le_def, BitVec.lt_def, hcur]; omega
  rw [spliceLoop, if_pos hcond, BitVec.toNat_sub_of_le hcond.1,
    List.drop_append_eq_append_drop, List.drop_replicate, List.length_replicate]
  by_cases hlt : s.addr + 8 < start
  · have hlt' : s.addr.toNat + 8 < start.toNat := by rwa [BitVec.lt_def, hcur] at hlt
    rw [if_pos hlt, BitVec.toNat_sub_of_le (BitVec.le_def.2 (by omega)), hcur,
      show s.addr.toNat + 8 - base.toNat - (start.toNat - base.toNat) = 0 by omega,
      List.drop_zero, show start.toNat - base.toNat - (s.addr.toNat + 8 - base.toNat) =
        start.toNat - (s.addr.toNat + 8) by omega]
  · have hge : start.toNat ≤ s.addr.toNat + 8 := by
      rw [BitVec.lt_def, hcur] at hlt; omega
    have hsub : (s.addr + 8 - start).toNat = s.addr.toNat + 8 - start.toNat := by
      rw [BitVec.toNat_sub_of_le (BitVec.le_def.2 (by omega)), hcur]
    rw [if_neg hlt, hsub, if_pos (by omega),
      show start.toNat - base.toNat - (s.addr.toNat + 8 - base.toNat) = 0 by omega,
      List.replicate_zero, List.nil_append,
      show s.addr.toNat + 8 - base.toNat - (start.toNat - base.toNat) =
        s.addr.toNat + 8 - start.toNat by omega]

/-- The loop stops at a splice that does not end before the segment does. -/
theorem spliceLoop_cons_stop {data : List UInt8} {s : Splice} {rest : List Splice}
    (hw : s.addr.toNat + 8 < 2 ^ 64) (hend : end_.toNat ≤ s.addr.toNat + 8) :
    spliceLoop base start end_ d data (s :: rest) = .ok (data, s :: rest) := by
  have hcur : (s.addr + 8).toNat = s.addr.toNat + 8 := by bv_omega
  rw [spliceLoop, if_neg]
  simp only [ge_iff_le, BitVec.lt_def, hcur, not_and]
  omega

/-- **The step lemma.** Writing a splice that lies at or above those already written, and
inside the image, over a stream that `Overlays` describes keeps it described, with the splice
written last. -/
theorem overlays_patch {b st : ℕ} {done : List Splice} {data : List UInt8} {s : Splice}
    (hinv : Overlays b st d done data) (hbelow : ∀ t ∈ done, t.addr.toNat ≤ s.addr.toNat)
    (hA : b ≤ s.addr.toNat) (hbs : b ≤ st) (hfit : s.addr.toNat + 8 ≤ st + d.length) :
    Overlays b st d (done ++ [s]) (data.take (s.addr.toNat - b) ++ valueBytes s.value ++
      (List.replicate (st - b) 0 ++ d).drop (s.addr.toNat + 8 - b)) := by
  have hk : s.addr.toNat - b ≤ data.length := by rw [hinv.length_eq]; omega
  constructor
  · simp only [List.length_append, List.length_take, List.length_drop, List.length_replicate,
      length_valueBytes, hinv.length_eq]
    omega
  · intro i
    rw [getD_patch hk, length_valueBytes, overlaidByte_append]
    split
    · next hi => rw [hinv.getD_eq, if_neg (by simp only [Splice.Covers]; omega)]
    split
    · next hi hi' =>
      rw [if_pos (by simp only [Splice.Covers]; omega)]
      congr 1; omega
    · next hi hi' =>
      rw [if_neg (by simp only [Splice.Covers]; omega), List.getD_eq_getElem?_getD,
        List.getElem?_drop, ← List.getD_eq_getElem?_getD,
        show s.addr.toNat + 8 - b + (i - (s.addr.toNat - b) - 8) = i by omega, getD_image hbs,
        overlaidByte_of_not_covers fun t ht hc => ?_]
      have := hbelow t ht
      simp only [Splice.Covers] at hc
      omega

/-- Once no sum wraps, the loop's test on a splice: its 8 bytes end before the segment does. -/
def endsBefore (end_ : BitVec 64) (s : Splice) : Bool := decide (s.addr.toNat + 8 < end_.toNat)

/-- **A run of the loop.** Over splices sorted by address, which may overlap, that lie above the
page base, with no sum near `2^64` and each one that ends before the segment ending inside the
file bytes, the loop consumes exactly the splices that end before the segment does, and the
stream stays the image with them written over it in order. -/
theorem spliceLoop_run (hbs : base.toNat ≤ start.toNat) :
    ∀ (q done : List Splice) (data : List UInt8),
      (done ++ q).Pairwise (fun s t => s.addr.toNat ≤ t.addr.toNat) →
      (∀ s ∈ q, base.toNat ≤ s.addr.toNat ∧ s.addr.toNat + 8 < 2 ^ 64 ∧
        (s.addr.toNat + 8 < end_.toNat → s.addr.toNat + 8 ≤ start.toNat + d.length)) →
      Overlays base.toNat start.toNat d done data →
      ∃ final, spliceLoop base start end_ d data q = .ok (final, q.dropWhile (endsBefore end_)) ∧
        Overlays base.toNat start.toNat d (done ++ q.takeWhile (endsBefore end_)) final
  | [], done, data, _, _, hinv => ⟨data, rfl, by simpa using hinv⟩
  | s :: rest, done, data, hpw, hq, hinv => by
    obtain ⟨hA, hw, hfit⟩ := hq s (List.mem_cons_self _ _)
    by_cases hE : s.addr.toNat + 8 < end_.toNat
    · have hbelow : ∀ t ∈ done, t.addr.toNat ≤ s.addr.toNat := fun t ht =>
        (List.pairwise_append.1 hpw).2.2 t ht s (List.mem_cons_self _ _)
      obtain ⟨final, hrun, hfin⟩ := spliceLoop_run hbs rest (done ++ [s]) _
        (by simpa using hpw) (fun t ht => hq t (List.mem_cons_of_mem _ ht))
        (overlays_patch hinv hbelow hA hbs (hfit hE))
      refine ⟨final, ?_, ?_⟩
      · rw [spliceLoop_cons_consume hbs hA hw hE (hfit hE), hrun]
        simp [endsBefore, hE]
      · simpa [endsBefore, hE] using hfin
    · refine ⟨data, ?_, by simpa [endsBefore, hE] using hinv⟩
      rw [spliceLoop_cons_stop hw (by omega)]
      simp [endsBefore, hE]

end Loop

end SgxUtils.Elf2Sgxs
