import SgxUtils.Io.Copy

/-!
# What `copy` moves

`copy` promises to move "the entire contents of a reader into a writer" and to return "the
total number of bytes that were copied". That rests on the reader and the writer keeping the
contract of `Read::read` and `Write::write_all`. `LawfulRead` states it for a reader whose
remaining bytes are `contents r`: a read keeps the buffer's length, a read of `n` moves the
first `n` bytes of the contents to the front of the buffer, a failed read moves nothing, and
`Ok(0)` into a non-empty buffer is the end. `LawfulWrite` states that a `write_all` that
succeeds appends the whole buffer.

`copy_moves_contents` proves the promise for every lawful reader and writer, whatever the
`Interrupted` errors on the way, with the count in `u64`; and that `copy` returns once neither
side fails. When it fails, `copy` has still written only what it read, in order: with
`PrefixWrite`, the contract that a failing `write_all` appends a prefix of its buffer,
`copy_writes_prefix` proves that on every outcome the writer gains a prefix of the bytes the
reader gave up. The readers and writers of `io/impls.rs` are lawful. `util.rs` adds two readers:
`Empty`, always at the end, and `Repeat`, never: from it `copy` never returns into a vector, and
fails with `WriteZero` into a slice once the slice is full (`copy_repeat`).

## Main results

* `copyLoop_ok`, `copyLoop_returns`: the loop, for lawful readers and writers.
* `copy_moves_contents`: what `copy` returns, and that it returns.
* `copyLoop_prefix`, `copy_writes_prefix`: what `copy` writes, on every outcome.
* `copy_repeat`: `copy` from `Repeat`.
-/

namespace SgxUtils.Io

variable {ρ ω : Type}

/-! ## The contracts -/

/-- The contract of `Read::read` for a reader whose remaining bytes are `contents`. -/
structure LawfulRead (R : Read ρ) (contents : ρ → List UInt8) : Prop where
  /-- The buffer is a slice: a read keeps its length. -/
  length_buf : ∀ r buf, (R.read r buf).2.1.length = buf.length
  /-- A read of `n` fills the front of the buffer with the first `n` bytes of the contents. -/
  read_ok : ∀ r buf n, (R.read r buf).2.2 = .ok n →
    n ≤ buf.length ∧ contents r = (R.read r buf).2.1.take n ++ contents (R.read r buf).1
  /-- A failed read moves nothing. -/
  read_error : ∀ r buf e, (R.read r buf).2.2 = .error e → contents (R.read r buf).1 = contents r
  /-- `Ok(0)` into a non-empty buffer is the end of the contents. -/
  eof : ∀ r buf, buf ≠ [] → (R.read r buf).2.2 = .ok 0 → contents r = []

/-- The contract of `Write::write_all` for a writer whose bytes so far are `contents`: a
`write_all` that succeeds appends the whole buffer. -/
structure LawfulWrite (W : Write ω) (contents : ω → List UInt8) : Prop where
  writeAll_ok : ∀ w data, (W.writeAll w data).2 = .ok () →
    contents (W.writeAll w data).1 = contents w ++ data

/-- What a failing `Write::write_all` may leave: the writer's bytes so far with a prefix of the
buffer appended, as a `&mut [u8]` that fills up leaves them. -/
structure PrefixWrite (W : Write ω) (contents : ω → List UInt8) : Prop where
  writeAll_error : ∀ w data e, (W.writeAll w data).2 = .error e →
    ∃ k, contents (W.writeAll w data).1 = contents w ++ data.take k

/-! ## The readers and writers of the library -/

/-- `impl Read for Empty`: always at the end. -/
def emptyRead : Read Unit where
  read _ buf := ((), buf, .ok 0)

/-- `impl Read for Repeat`: fill the whole buffer with the byte. -/
def repeatRead (byte : UInt8) : Read Unit where
  read _ buf := ((), List.replicate buf.length byte, .ok buf.length)

/-- `<&[u8] as Read>::read_exact`: `UnexpectedEof`, moving nothing, when the buffer is longer
than the slice; otherwise fill the buffer and advance the slice past it. -/
def sliceReadExact (self buf : List UInt8) : List UInt8 × List UInt8 × Except IoError Unit :=
  if buf.length > self.length then (self, buf, .error ⟨.unexpectedEof⟩)
  else (self.drop buf.length, self.take buf.length, .ok ())

/-- `<&[u8] as BufRead>::fill_buf`: the slice itself. -/
def sliceFillBuf (self : List UInt8) : Except IoError (List UInt8) := .ok self

/-- `<&[u8] as BufRead>::consume`: `&self[amt..]`, which panics past the end (`none`). -/
def sliceConsume (self : List UInt8) (amt : ℕ) : Option (List UInt8) :=
  if amt ≤ self.length then some (self.drop amt) else none

theorem sliceRead_lawful : LawfulRead sliceRead id where
  length_buf s buf := by
    simp only [sliceRead, List.length_append, List.length_take, List.length_drop]
    omega
  read_ok s buf n h := by
    simp only [sliceRead, Except.ok.injEq] at h
    subst h
    refine ⟨min_le_left _ _, ?_⟩
    simp only [sliceRead, id, List.take_left' (List.length_take_of_le (min_le_right _ _)),
      List.take_append_drop]
  read_error _ _ _ h := nomatch h
  eof s buf hbuf h := by
    simp only [sliceRead, Except.ok.injEq] at h
    have := List.length_pos.2 hbuf
    show s = []
    exact List.eq_nil_of_length_eq_zero (by omega)

theorem emptyRead_lawful : LawfulRead emptyRead fun _ => [] where
  length_buf _ _ := rfl
  read_ok _ _ n h := by
    simp only [emptyRead, Except.ok.injEq] at h
    subst h
    exact ⟨Nat.zero_le _, rfl⟩
  read_error _ _ _ h := nomatch h
  eof _ _ _ _ := rfl

theorem vecWrite_lawful : LawfulWrite vecWrite id := ⟨fun _ _ _ => rfl⟩

/-- A `&mut [u8]`, through the bytes written so far. -/
theorem sliceWrite_lawful : LawfulWrite sliceWrite Prod.fst where
  writeAll_ok self data h := by
    rw [sliceWrite_writeAll] at h ⊢
    split at h
    · next hle => exact congrArg (self.1 ++ ·) (List.take_of_length_le hle)
    · cases h

theorem vecWrite_prefix : PrefixWrite vecWrite id := ⟨fun _ _ _ h => nomatch h⟩

/-- A `&mut [u8]` that fills up has taken the bytes that fit. -/
theorem sliceWrite_prefix : PrefixWrite sliceWrite Prod.fst where
  writeAll_error self data _ _ := by
    rw [sliceWrite_writeAll]
    exact ⟨_, rfl⟩

/-- `read_exact` on a slice is `read` when the buffer fits, and moves nothing otherwise. -/
theorem sliceReadExact_eq (self buf : List UInt8) :
    sliceReadExact self buf = if buf.length ≤ self.length then
      ((sliceRead.read self buf).1, (sliceRead.read self buf).2.1, .ok ())
    else (self, buf, .error ⟨.unexpectedEof⟩) := by
  unfold sliceReadExact
  split
  · rw [if_neg (by omega)]
  · next h =>
    have hle : buf.length ≤ self.length := by omega
    simp [hle, sliceRead, min_eq_left hle]

/-- `fill_buf` then `consume(amt)` moves what a `read` into `amt` bytes does, and panics past
the end. -/
theorem sliceConsume_fillBuf (self : List UInt8) (amt : ℕ) (buf : List UInt8)
    (hbuf : buf.length = amt) :
    (sliceFillBuf self).map (fun b => sliceConsume b amt) =
      .ok (if amt ≤ self.length then some (sliceRead.read self buf).1 else none) := by
  simp only [sliceFillBuf, Except.map, sliceConsume, sliceRead, hbuf]
  split
  · next h => rw [min_eq_left h]
  · rfl

/-! ## The loop, for lawful readers and writers -/

section Lawful

variable {R : Read ρ} {W : Write ω} {src : ρ → List UInt8} {dst : ω → List UInt8}

/-- **What the loop returns.** When it returns `Ok(n)`, the reader is at its end, the writer has
the reader's contents appended, and `n` is the count so far plus their length, in `u64`. -/
theorem copyLoop_ok (hR : LawfulRead R src) (hW : LawfulWrite W dst) :
    ∀ (fuel : ℕ) (r : ρ) (w : ω) (buf : List UInt8) (written : BitVec 64) (r' : ρ) (w' : ω)
      (n : BitVec 64), buf ≠ [] → copyLoop R W fuel r w buf written = some (r', w', .ok n) →
      src r' = [] ∧ dst w' = dst w ++ src r ∧ n = written + BitVec.ofNat 64 (src r).length
  | 0, _, _, _, _, _, _, _, _, h => nomatch h
  | fuel + 1, r, w, buf, written, r', w', n, hbuf, h => by
    have hlen := hR.length_buf r buf
    rcases hread : R.read r buf with ⟨r₁, buf₁, res⟩
    rw [hread] at hlen
    rcases res with e | _ | len
    · -- a failed read: retried on `Interrupted`, and moving nothing
      have hsrc := hR.read_error r buf e (by rw [hread])
      rw [hread] at hsrc
      simp only [copyLoop, hread] at h
      split at h
      · obtain ⟨h₁, h₂, h₃⟩ := copyLoop_ok hR hW fuel r₁ w buf₁ written r' w' n
          (by rw [← List.length_pos, hlen]; exact List.length_pos.2 hbuf) h
        rw [hsrc] at h₂ h₃
        exact ⟨h₁, h₂, h₃⟩
      · cases h
    · -- `Ok(0)`: the end
      have hend := hR.eof r buf hbuf (by rw [hread])
      have hsrc := (hR.read_ok r buf 0 (by rw [hread])).2
      rw [hread, List.take_zero, List.nil_append] at hsrc
      simp only [copyLoop, hread, Option.some.injEq, Prod.mk.injEq, Except.ok.injEq] at h
      obtain ⟨rfl, rfl, rfl⟩ := h
      simp [← hsrc, hend]
    · -- `Ok(len)`: `write_all` of the bytes read, then the next iteration
      obtain ⟨hle, hsrc⟩ := hR.read_ok r buf (len + 1) (by rw [hread])
      rw [hread] at hsrc
      dsimp only at hlen hsrc
      simp only [copyLoop, hread] at h
      split at h
      · cases h
      next hwr =>
      obtain ⟨h₁, h₂, h₃⟩ := copyLoop_ok hR hW fuel r₁ _ buf₁ _ r' w' n
        (by rw [← List.length_pos, hlen]; exact List.length_pos.2 hbuf) h
      have htake : (buf₁.take (len + 1)).length = len + 1 := List.length_take_of_le (by omega)
      refine ⟨h₁, by rw [h₂, hW.writeAll_ok w _ hwr, hsrc, List.append_assoc], ?_⟩
      rw [h₃, hsrc, List.length_append, htake, BitVec.add_assoc, BitVec.ofNat_add_ofNat]

/-- **The loop returns** when reads and writes do not fail, with more fuel than there are bytes
to move: each iteration either ends the loop or moves at least one byte. -/
theorem copyLoop_returns (hR : LawfulRead R src) (hRok : ∀ r buf e, (R.read r buf).2.2 ≠ .error e)
    (hWok : ∀ w data, (W.writeAll w data).2 = .ok ()) :
    ∀ (fuel : ℕ) (r : ρ) (w : ω) (buf : List UInt8) (written : BitVec 64), buf ≠ [] →
      (src r).length < fuel → ∃ r' w' n, copyLoop R W fuel r w buf written = some (r', w', .ok n)
  | 0, _, _, _, _, _, h => absurd h (Nat.not_lt_zero _)
  | fuel + 1, r, w, buf, written, hbuf, hfuel => by
    have hlen := hR.length_buf r buf
    rcases hread : R.read r buf with ⟨r₁, buf₁, res⟩
    rw [hread] at hlen
    rcases res with e | _ | len
    · exact absurd (by rw [hread]) (hRok r buf e)
    · exact ⟨r₁, w, written, by simp only [copyLoop, hread]⟩
    · obtain ⟨hle, hsrc⟩ := hR.read_ok r buf (len + 1) (by rw [hread])
      rw [hread] at hsrc
      dsimp only at hlen hsrc
      have htake : (buf₁.take (len + 1)).length = len + 1 := List.length_take_of_le (by omega)
      simp only [copyLoop, hread]
      split
      · next e hwr => cases hwr.symm.trans (hWok _ _)
      exact copyLoop_returns hR hRok hWok fuel r₁ _ buf₁ _
        (by rw [← List.length_pos, hlen]; exact List.length_pos.2 hbuf)
        (by rw [hsrc, List.length_append, htake] at hfuel; omega)

/-- **What `copy` moves.** For a lawful reader and writer and a buffer of `bufSize > 0` bytes:
when `copy` returns `Ok(n)`, it has moved the reader's whole contents to the end of the
writer's and `n` is their length in `u64`, whatever `Interrupted` errors were retried on the
way; and when reads and writes do not fail, `copy` returns, given more iterations than there are
bytes. -/
theorem copy_moves_contents (hR : LawfulRead R src) (hW : LawfulWrite W dst) {bufSize : ℕ}
    (hbuf : 0 < bufSize) (fuel : ℕ) (r : ρ) (w : ω) :
    (∀ r' w' n, copy bufSize R W fuel r w = some (r', w', .ok n) →
      src r' = [] ∧ dst w' = dst w ++ src r ∧ n = BitVec.ofNat 64 (src r).length) ∧
    ((∀ r buf e, (R.read r buf).2.2 ≠ .error e) → (∀ w data, (W.writeAll w data).2 = .ok ()) →
      (src r).length < fuel → ∃ r' w' n, copy bufSize R W fuel r w = some (r', w', .ok n)) := by
  have hne : List.replicate bufSize (0 : UInt8) ≠ [] := by
    rw [← List.length_pos, List.length_replicate]; exact hbuf
  refine ⟨fun r' w' n h => ?_, fun hRok hWok hfuel =>
    copyLoop_returns hR hRok hWok fuel r w _ 0 hne hfuel⟩
  obtain ⟨h₁, h₂, h₃⟩ := copyLoop_ok hR hW fuel r w _ 0 r' w' n hne h
  exact ⟨h₁, h₂, by rw [h₃, zero_add]⟩

theorem copy_moves_contents_slice :
    LawfulRead sliceRead id ∧ LawfulWrite vecWrite id ∧ 0 < 2 ∧
      ((∀ r' w' n, copy 2 sliceRead vecWrite 4 [1, 2, 3] [9] = some (r', w', .ok n) →
        id r' = [] ∧ id w' = id [9] ++ id [1, 2, 3] ∧ n = BitVec.ofNat 64 (id [1, 2, 3]).length) ∧
      ((∀ r buf e, (sliceRead.read r buf).2.2 ≠ .error e) →
        (∀ w data, (vecWrite.writeAll w data).2 = .ok ()) → (id [1, 2, 3]).length < 4 →
        ∃ r' w' n, copy 2 sliceRead vecWrite 4 [1, 2, 3] [9] = some (r', w', .ok n))) :=
  ⟨sliceRead_lawful, vecWrite_lawful, by decide,
    copy_moves_contents sliceRead_lawful vecWrite_lawful (by decide) 4 [1, 2, 3] [9]⟩

/-- **What the loop writes, whatever it returns.** The reader has given up some bytes, and the
writer has a prefix of them appended: the loop never writes a byte the reader did not yield, nor
twice, nor out of order. -/
theorem copyLoop_prefix (hR : LawfulRead R src) (hW : LawfulWrite W dst) (hP : PrefixWrite W dst) :
    ∀ (fuel : ℕ) (r : ρ) (w : ω) (buf : List UInt8) (written : BitVec 64) (r' : ρ) (w' : ω)
      (res : Except IoError (BitVec 64)), copyLoop R W fuel r w buf written = some (r', w', res) →
      ∃ moved k, src r = moved ++ src r' ∧ dst w' = dst w ++ moved.take k
  | 0, _, _, _, _, _, _, _, h => nomatch h
  | fuel + 1, r, w, buf, written, r', w', res, h => by
    rcases hread : R.read r buf with ⟨r₁, buf₁, e | _ | len⟩
    · -- a failed read moves nothing; it is retried on `Interrupted`
      have hsrc := hR.read_error r buf e (by rw [hread])
      rw [hread] at hsrc
      simp only [copyLoop, hread] at h
      split at h
      · rw [← hsrc]
        exact copyLoop_prefix hR hW hP fuel r₁ w buf₁ written r' w' res h
      · simp only [Option.some.injEq, Prod.mk.injEq] at h
        obtain ⟨rfl, rfl, -⟩ := h
        exact ⟨[], 0, by rw [hsrc, List.nil_append], by rw [List.take_nil, List.append_nil]⟩
    · -- `Ok(0)`: the end
      have hsrc := (hR.read_ok r buf 0 (by rw [hread])).2
      rw [hread, List.take_zero, List.nil_append] at hsrc
      simp only [copyLoop, hread, Option.some.injEq, Prod.mk.injEq] at h
      obtain ⟨rfl, rfl, -⟩ := h
      exact ⟨[], 0, hsrc, by rw [List.take_nil, List.append_nil]⟩
    · -- `Ok(len)`: `write_all` of the bytes read; on success, the next iteration
      have hsrc := (hR.read_ok r buf (len + 1) (by rw [hread])).2
      rw [hread] at hsrc
      dsimp only at hsrc
      simp only [copyLoop, hread] at h
      split at h
      · next e hwr =>
        simp only [Option.some.injEq, Prod.mk.injEq] at h
        obtain ⟨rfl, rfl, -⟩ := h
        obtain ⟨k, hk⟩ := hP.writeAll_error w _ e hwr
        exact ⟨_, k, hsrc, hk⟩
      · next hwr =>
        obtain ⟨moved, k, h₁, h₂⟩ := copyLoop_prefix hR hW hP fuel r₁ _ buf₁ _ r' w' res h
        refine ⟨buf₁.take (len + 1) ++ moved, (buf₁.take (len + 1)).length + k,
          by rw [hsrc, h₁, List.append_assoc], ?_⟩
        rw [h₂, hW.writeAll_ok w _ hwr, List.take_append, List.append_assoc]

/-- **What `copy` writes, whatever it returns.** For a lawful reader and a writer whose
`write_all` appends the whole buffer when it succeeds and a prefix of it when it fails, `copy`
takes some bytes from the front of the reader's contents and appends a prefix of them to the
writer's, on `Ok` and on every error alike. -/
theorem copy_writes_prefix (hR : LawfulRead R src) (hW : LawfulWrite W dst)
    (hP : PrefixWrite W dst) {bufSize fuel : ℕ} {r r' : ρ} {w w' : ω}
    {res : Except IoError (BitVec 64)} (h : copy bufSize R W fuel r w = some (r', w', res)) :
    ∃ moved k, src r = moved ++ src r' ∧ dst w' = dst w ++ moved.take k :=
  copyLoop_prefix hR hW hP fuel r w _ 0 r' w' res h

/-- Three bytes into a two-byte slice: `copy` fails with `WriteZero`, having written the first
two. -/
theorem copy_writes_prefix_slice :
    copy 2 sliceRead sliceWrite 3 [1, 2, 3] ([], [0, 0]) =
      some ([], ([1, 2], []), .error ⟨.writeZero⟩) ∧
    ∃ moved k, id [1, 2, 3] = moved ++ id [] ∧
      Prod.fst (([1, 2], []) : List UInt8 × List UInt8) =
        Prod.fst (([], [0, 0]) : List UInt8 × List UInt8) ++ moved.take k := by
  have hc : copy 2 sliceRead sliceWrite 3 [1, 2, 3] ([], [0, 0]) =
      some ([], ([1, 2], []), .error ⟨.writeZero⟩) := rfl
  exact ⟨hc, copy_writes_prefix sliceRead_lawful sliceWrite_lawful sliceWrite_prefix hc⟩

end Lawful

/-! ## `Repeat` -/

/-- One iteration from `Repeat` whose `write_all` succeeds: the whole buffer-full of the byte is
written and counted. -/
theorem copyLoop_repeat_ok (W : Write ω) (byte : UInt8) {fuel n : ℕ} {w : ω} {buf : List UInt8}
    {written : BitVec 64} (hlen : buf.length = n + 1)
    (hw : (W.writeAll w (List.replicate (n + 1) byte)).2 = .ok ()) :
    copyLoop (repeatRead byte) W (fuel + 1) () w buf written =
      copyLoop (repeatRead byte) W fuel () (W.writeAll w (List.replicate (n + 1) byte)).1
        (List.replicate (n + 1) byte) (written + BitVec.ofNat 64 (n + 1)) := by
  cases W
  dsimp only at hw
  simp only [copyLoop, repeatRead, hlen, List.take_replicate, min_self, hw]

/-- One iteration from `Repeat` whose `write_all` fails: `copy` returns its error. -/
theorem copyLoop_repeat_error (W : Write ω) (byte : UInt8) {fuel n : ℕ} {w : ω}
    {buf : List UInt8} {written : BitVec 64} {e : IoError} (hlen : buf.length = n + 1)
    (hw : (W.writeAll w (List.replicate (n + 1) byte)).2 = .error e) :
    copyLoop (repeatRead byte) W (fuel + 1) () w buf written =
      some ((), (W.writeAll w (List.replicate (n + 1) byte)).1, .error e) := by
  cases W
  dsimp only at hw
  simp only [copyLoop, repeatRead, hlen, List.take_replicate, min_self, hw]

/-- From `Repeat` into a vector, the loop runs until its fuel is out. -/
theorem copyLoop_repeat_vec (byte : UInt8) {n : ℕ} :
    ∀ (fuel : ℕ) (v buf : List UInt8) (written : BitVec 64), buf.length = n + 1 →
      copyLoop (repeatRead byte) vecWrite fuel () v buf written = none
  | 0, _, _, _, _ => rfl
  | fuel + 1, _, _, _, hb => by
    rw [copyLoop_repeat_ok vecWrite byte hb rfl]
    exact copyLoop_repeat_vec byte fuel _ _ _ (List.length_replicate _ _)

/-- From `Repeat` into a `&mut [u8]` with `filled` written and `d` free, the loop fills `d`
with the byte and fails with `WriteZero`, given more iterations than buffer-fulls fit in `d`. -/
theorem copyLoop_repeat_slice (byte : UInt8) {n : ℕ} :
    ∀ (fuel : ℕ) (filled d buf : List UInt8) (written : BitVec 64), buf.length = n + 1 →
      d.length / (n + 1) < fuel →
      copyLoop (repeatRead byte) sliceWrite fuel () (filled, d) buf written =
        some ((), (filled ++ List.replicate d.length byte, []), .error ⟨.writeZero⟩)
  | 0, _, _, _, _, _, h => absurd h (Nat.not_lt_zero _)
  | fuel + 1, filled, d, _, _, hb, hfuel => by
    have hwrite := sliceWrite_writeAll (filled, d) (List.replicate (n + 1) byte)
    simp only [List.length_replicate, List.take_replicate] at hwrite
    by_cases hfit : n + 1 ≤ d.length
    · -- a buffer-full fits: the slice advances
      have hdiv := Nat.div_eq_sub_div (by omega : 0 < n + 1) hfit
      rw [if_pos hfit, min_eq_right hfit] at hwrite
      rw [copyLoop_repeat_ok sliceWrite byte hb (by rw [hwrite]), hwrite,
        copyLoop_repeat_slice byte fuel _ _ _ _ (List.length_replicate _ _)
          (by rw [List.length_drop]; omega),
        List.append_assoc, ← List.replicate_add, List.length_drop, Nat.add_sub_cancel' hfit]
    · -- it does not: `write_all` fills the slice and fails
      rw [if_neg hfit, min_eq_left (by omega), List.drop_eq_nil_of_le (by omega)] at hwrite
      rw [copyLoop_repeat_error sliceWrite byte hb (by rw [hwrite]), hwrite]

/-- **`copy` from `Repeat`.** With a buffer of `bufSize > 0` bytes, `copy` from `repeat(byte)`
never returns into a vector, whatever the fuel; into a `&mut [u8]` it fills the slice with the
byte and fails with `WriteZero`, after `d.len() / bufSize + 1` iterations. -/
theorem copy_repeat (byte : UInt8) {bufSize : ℕ} (hbuf : 0 < bufSize) :
    (∀ fuel v, copy bufSize (repeatRead byte) vecWrite fuel () v = none) ∧
    ∀ fuel d, d.length / bufSize < fuel →
      copy bufSize (repeatRead byte) sliceWrite fuel () ([], d) =
        some ((), (List.replicate d.length byte, []), .error ⟨.writeZero⟩) := by
  obtain ⟨n, rfl⟩ := Nat.exists_eq_add_of_lt hbuf
  have hlen : (List.replicate (0 + n + 1) (0 : UInt8)).length = n + 1 := by simp
  refine ⟨fun fuel v => copyLoop_repeat_vec byte fuel v _ 0 hlen, fun fuel d hfuel => ?_⟩
  simpa [copy] using copyLoop_repeat_slice byte fuel [] d _ 0 hlen (by simpa using hfuel)

theorem copy_repeat_byte :
    0 < 2 ∧ ((∀ fuel v, copy 2 (repeatRead 7) vecWrite fuel () v = none) ∧
      ∀ fuel d, d.length / 2 < fuel →
        copy 2 (repeatRead 7) sliceWrite fuel () ([], d) =
          some ((), (List.replicate d.length 7, []), .error ⟨.writeZero⟩)) :=
  ⟨by decide, copy_repeat 7 (by decide)⟩

end SgxUtils.Io
