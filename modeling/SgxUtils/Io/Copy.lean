import Mathlib.Data.BitVec

/-!
# `io::copy` from a byte slice

`libenclave` carries its own `no_std` copy of `std::io`. `copy` moves the contents of a
reader into a writer through a buffer of `DEFAULT_BUF_SIZE` bytes, retrying a read that fails
with `Interrupted`, until a read returns `0`. It is a `loop` over arbitrary `Read` and `Write`
values and need not end, so the model runs it on fuel, one unit per iteration; `none` means
the fuel ran out before the loop returned.

`DEFAULT_BUF_SIZE` is declared in `io/mod.rs`, which is not part of this model: it is the
parameter `bufSize`.

The readers and writers here are those of `io/impls.rs` for in-memory buffers: `&[u8]` reads,
and `Vec<u8>` and `&mut [u8]` write.

## Main results

* `copy_slice_to_vec`: from a slice into a vector, `copy` returns after one iteration per
  buffer-full and one more, leaves the slice empty, appends it to the vector and returns its
  length.
* `copy_slice_to_slice`: into a `&mut [u8]`, the same when the bytes fit; otherwise
  `WriteZero`, with the slice filled and the bytes of the failed buffer-full lost.
-/

namespace SgxUtils.Io

/-- `io::ErrorKind`, with the kinds this model does not tell apart folded into `other`. -/
inductive ErrorKind
  | interrupted | unexpectedEof | writeZero | other
  deriving DecidableEq, Repr

/-- `io::Error`, through its kind. -/
structure IoError where
  kind : ErrorKind
  deriving DecidableEq, Repr

/-- `Read::read` for readers of state `ρ`: from the reader and the buffer, the new reader, the
new buffer contents and the result. -/
structure Read (ρ : Type) where
  read : ρ → List UInt8 → ρ × List UInt8 × Except IoError ℕ

/-- `Write::write_all` for writers of state `ω`. -/
structure Write (ω : Type) where
  writeAll : ω → List UInt8 → ω × Except IoError Unit

/-- `impl Read for &[u8]`: move `min(buf.len(), self.len())` bytes to the front of the buffer
and advance the slice past them. -/
def sliceRead : Read (List UInt8) where
  read self buf :=
    let amt := min buf.length self.length
    (self.drop amt, self.take amt ++ buf.drop amt, .ok amt)

/-- `impl Write for Vec<u8>`: `write_all` extends the vector and never fails. -/
def vecWrite : Write (List UInt8) where
  writeAll self buf := (self ++ buf, .ok ())

/-- `impl Write for &mut [u8]`, `write`: copy `min(data.len(), self.len())` bytes to the front of
the slice and advance it past them. The state is what was written so far and the rest of the
slice. -/
def sliceWriteBytes (self : List UInt8 × List UInt8) (data : List UInt8) :
    (List UInt8 × List UInt8) × ℕ :=
  let amt := min data.length self.2.length
  ((self.1 ++ data.take amt, self.2.drop amt), amt)

/-- `impl Write for &mut [u8]`: `write_all` is one `write`, then `WriteZero` unless it took all
of `data`; the slice stays advanced either way. -/
def sliceWrite : Write (List UInt8 × List UInt8) where
  writeAll self data :=
    let (self, amt) := sliceWriteBytes self data
    (self, if amt = data.length then .ok () else .error ⟨.writeZero⟩)

theorem vecWrite_writeAll (v data : List UInt8) : vecWrite.writeAll v data = (v ++ data, .ok ()) :=
  rfl

variable {ρ ω : Type}

/-- The `loop` of `copy`: read into `buf`; return `written` on `Ok(0)`, retry on
`Interrupted`, fail on any other error; otherwise write `buf[..len]` and add `len` to the
`u64` counter. -/
def copyLoop (R : Read ρ) (W : Write ω) :
    ℕ → ρ → ω → List UInt8 → BitVec 64 → Option (ρ × ω × Except IoError (BitVec 64))
  | 0, _, _, _, _ => none
  | fuel + 1, reader, writer, buf, written =>
    let (reader, buf, res) := R.read reader buf
    match res with
    | .ok 0 => some (reader, writer, .ok written)
    | .ok len =>
      let (writer, wres) := W.writeAll writer (buf.take len)
      match wres with
      | .error e => some (reader, writer, .error e)
      | .ok () => copyLoop R W fuel reader writer buf (written + BitVec.ofNat 64 len)
    | .error e =>
      if e.kind = .interrupted then copyLoop R W fuel reader writer buf written
      else some (reader, writer, .error e)

/-- `util::copy`: the loop from a zeroed buffer of `bufSize` bytes and a zero count. -/
def copy (bufSize : ℕ) (R : Read ρ) (W : Write ω) (fuel : ℕ) (reader : ρ) (writer : ω) :
    Option (ρ × ω × Except IoError (BitVec 64)) :=
  copyLoop R W fuel reader writer (List.replicate bufSize 0) 0

/-- An empty slice reads `0` and ends the loop. -/
theorem copyLoop_slice_nil (W : Write ω) (fuel : ℕ) (w : ω) (buf : List UInt8)
    (written : BitVec 64) :
    copyLoop sliceRead W (fuel + 1) [] w buf written = some ([], w, .ok written) := by
  simp [copyLoop, sliceRead]

/-- One iteration on a non-empty slice reads `min bufSize len` bytes into the buffer and hands
them to `write_all`; the buffer keeps its length. -/
theorem copyLoop_slice_cons (W : Write ω) {fuel : ℕ} {s buf : List UInt8} {w : ω}
    {written : BitVec 64} (hbuf : 0 < buf.length) (hs : s ≠ []) :
    copyLoop sliceRead W (fuel + 1) s w buf written =
      match (W.writeAll w (s.take (min buf.length s.length))).2 with
      | .error e => some (s.drop (min buf.length s.length),
          (W.writeAll w (s.take (min buf.length s.length))).1, .error e)
      | .ok () => copyLoop sliceRead W fuel (s.drop (min buf.length s.length))
          (W.writeAll w (s.take (min buf.length s.length))).1
          (s.take (min buf.length s.length) ++ buf.drop (min buf.length s.length))
          (written + BitVec.ofNat 64 (min buf.length s.length)) := by
  have hpos : min buf.length s.length ≠ 0 := by
    have := List.length_pos.2 hs
    omega
  obtain ⟨k, hk⟩ := Nat.exists_eq_succ_of_ne_zero hpos
  have htake : (s.take (min buf.length s.length) ++ buf.drop (min buf.length s.length)).take
      (min buf.length s.length) = s.take (min buf.length s.length) :=
    List.take_left' (by simp)
  simp only [copyLoop, sliceRead, hk]
  rw [← hk, htake]

/-- The fuel bound `len + bufSize ≤ bufSize * fuel` holds again after a read of a non-empty slice
and one unit of fuel. -/
theorem fuel_drop {bufSize fuel : ℕ} {s : List UInt8} (hs : s ≠ [])
    (h : s.length + bufSize ≤ bufSize * (fuel + 1)) :
    (s.drop (min bufSize s.length)).length + bufSize ≤ bufSize * fuel := by
  have hmul : bufSize * (fuel + 1) = bufSize * fuel + bufSize := Nat.mul_succ _ _
  have := List.length_pos.2 hs
  have : bufSize ≤ bufSize * fuel := by
    rcases fuel with _ | fuel
    · simp at hmul; omega
    · exact Nat.le_mul_of_pos_right _ (Nat.succ_pos _)
  simp only [List.length_drop]
  omega

/-- **Copying a slice into a vector.** With fuel for `⌈len / bufSize⌉` reads that move bytes
and one that returns `0`, `copy` returns `Ok(len)`, the slice is empty and the vector has the
slice appended. -/
theorem copy_slice_to_vec (bufSize : ℕ) (hbuf : 0 < bufSize) (s v : List UInt8) (fuel : ℕ)
    (hfuel : s.length + bufSize ≤ bufSize * fuel) :
    copy bufSize sliceRead vecWrite fuel s v = some ([], v ++ s, .ok (BitVec.ofNat 64 s.length)) := by
  suffices h : ∀ fuel (s v buf : List UInt8) (written : BitVec 64), buf.length = bufSize →
      s.length + bufSize ≤ bufSize * fuel →
      copyLoop sliceRead vecWrite fuel s v buf written =
        some ([], v ++ s, .ok (written + BitVec.ofNat 64 s.length)) by
    simpa [copy] using h fuel s v _ 0 (by simp) hfuel
  intro fuel
  induction fuel with
  | zero => intro s v buf written _ h; simp at h; omega
  | succ fuel ih =>
    intro s v buf written hlen h
    rcases eq_or_ne s [] with rfl | hs
    · simp [copyLoop_slice_nil]
    · rw [copyLoop_slice_cons _ (by omega) hs, hlen]
      rw [vecWrite_writeAll]
      dsimp only
      rw [ih _ _ _ _ (by simp [hlen]) (fuel_drop hs h), List.append_assoc,
        List.take_append_drop, BitVec.add_assoc, BitVec.ofNat_add_ofNat, List.length_drop,
        Nat.add_sub_cancel' (min_le_right _ _)]

theorem sliceWrite_writeAll (self : List UInt8 × List UInt8) (data : List UInt8) :
    sliceWrite.writeAll self data =
      ((self.1 ++ data.take self.2.length, self.2.drop data.length),
        if data.length ≤ self.2.length then .ok () else .error ⟨.writeZero⟩) := by
  rcases le_total data.length self.2.length with h | h
  · simp [sliceWrite, sliceWriteBytes, min_eq_left h, h, List.take_of_length_le h]
  · simp [sliceWrite, sliceWriteBytes, min_eq_right h, List.drop_eq_nil_of_le h]

theorem drop_min_length (n : ℕ) (l : List UInt8) : l.drop (min n l.length) = l.drop n := by
  rcases le_total n l.length with h | h
  · rw [min_eq_left h]
  · rw [min_eq_right h, List.drop_length, List.drop_eq_nil_of_le h]

/-- **Copying a slice into a `&mut [u8]`.** Into a slice of `d.len()` bytes, `copy` returns
`Ok(len)` with the bytes at the front of the slice when they fit. Otherwise `write_all` fails
with `WriteZero` on the first buffer-full that does not fit, once it has filled the slice with
the first `d.len()` bytes; the reader has moved past that buffer-full. -/
theorem copy_slice_to_slice (bufSize : ℕ) (hbuf : 0 < bufSize) (s d : List UInt8) (fuel : ℕ)
    (hfuel : s.length + bufSize ≤ bufSize * fuel) :
    copy bufSize sliceRead sliceWrite fuel s ([], d) =
      if s.length ≤ d.length then some ([], (s, d.drop s.length), .ok (BitVec.ofNat 64 s.length))
      else some (s.drop ((d.length / bufSize + 1) * bufSize), (s.take d.length, []),
        .error ⟨.writeZero⟩) := by
  suffices h : ∀ fuel (s filled d buf : List UInt8) (written : BitVec 64),
      buf.length = bufSize → s.length + bufSize ≤ bufSize * fuel →
      copyLoop sliceRead sliceWrite fuel s (filled, d) buf written =
        if s.length ≤ d.length then
          some ([], (filled ++ s, d.drop s.length), .ok (written + BitVec.ofNat 64 s.length))
        else some (s.drop ((d.length / bufSize + 1) * bufSize), (filled ++ s.take d.length, []),
          .error ⟨.writeZero⟩) by
    simpa [copy] using h fuel s [] d _ 0 (by simp) hfuel
  intro fuel
  induction fuel with
  | zero => intro s filled d buf written _ h; simp at h; omega
  | succ fuel ih =>
    intro s filled d buf written hlen h
    rcases eq_or_ne s [] with rfl | hs
    · simp [copyLoop_slice_nil]
    have hpos := List.length_pos.2 hs
    rw [copyLoop_slice_cons _ (by omega) hs, hlen, sliceWrite_writeAll]
    simp only [List.length_take, min_eq_left (min_le_right bufSize s.length), List.take_take]
    by_cases hfit : min bufSize s.length ≤ d.length
    · -- the buffer-full fits: the loop goes on with the rest of both slices
      rw [if_pos hfit]
      dsimp only
      rw [ih _ _ _ _ _ (by simp [hlen]) (fuel_drop hs h), min_eq_right hfit]
      simp only [List.length_drop, List.drop_drop, List.append_assoc, List.take_append_drop]
      by_cases hle : s.length ≤ d.length
      · rw [if_pos (by omega), if_pos hle, BitVec.add_assoc, BitVec.ofNat_add_ofNat,
          Nat.add_sub_cancel' (min_le_right _ _)]
      · have hB : min bufSize s.length = bufSize := min_eq_left (by omega)
        rw [if_neg (by omega), if_neg hle, hB, ← List.take_add, Nat.add_sub_cancel' (by omega),
          Nat.div_eq_sub_div hbuf (by omega : bufSize ≤ d.length)]
        rw [Nat.add_comm bufSize, ← Nat.succ_mul]
    · -- it does not: `write_all` fills the slice and fails
      rw [if_neg hfit, if_neg (by omega), min_eq_left (by omega : d.length ≤ min bufSize s.length),
        List.drop_eq_nil_of_le (by omega : d.length ≤ min bufSize s.length), drop_min_length,
        Nat.div_eq_of_lt (by omega : d.length < bufSize), zero_add, one_mul]

/-- Three bytes through a two-byte buffer into a two-byte slice: the first buffer-full fills the
slice, and the second fails. -/
theorem copy_slice_to_slice_overflow :
    0 < 2 ∧ ([1, 2, 3] : List UInt8).length + 2 ≤ 2 * 3 ∧
      copy 2 sliceRead sliceWrite 3 [1, 2, 3] ([], [0, 0]) =
        if ([1, 2, 3] : List UInt8).length ≤ ([0, 0] : List UInt8).length then
          some ([], ([1, 2, 3], ([0, 0] : List UInt8).drop 3), .ok (BitVec.ofNat 64 3))
        else some (([1, 2, 3] : List UInt8).drop ((([0, 0] : List UInt8).length / 2 + 1) * 2),
          (([1, 2, 3] : List UInt8).take ([0, 0] : List UInt8).length, []), .error ⟨.writeZero⟩) :=
  ⟨by decide, by decide, copy_slice_to_slice 2 (by decide) [1, 2, 3] [0, 0] 3 (by decide)⟩

example : copy 2 sliceRead sliceWrite 3 [1, 2, 3] ([], [0, 0]) =
    some ([], ([1, 2], []), .error ⟨.writeZero⟩) := rfl

/-- Three bytes through a two-byte buffer: a full read, a short one, and the read of `0`. -/
theorem copy_slice_to_vec_three :
    0 < 2 ∧ [1, 2, 3].length + 2 ≤ 2 * 3 ∧
      copy 2 sliceRead vecWrite 3 [1, 2, 3] [9] =
        some ([], [9] ++ [1, 2, 3], .ok (BitVec.ofNat 64 [1, 2, 3].length)) :=
  ⟨by decide, by decide, copy_slice_to_vec 2 (by decide) [1, 2, 3] [9] 3 (by decide)⟩

end SgxUtils.Io
