import SgxUtils.Elf.File
import Mathlib.Data.Nat.Bitwise

/-!
# Page arithmetic and the enclave size

Three computations on `u64` that the layout rests on: the page base `x & !0xfff`,
`size_align_page_size`, which rounds up to a multiple of 4 KiB, and `enclave_size`, which
finds the next power of two through the exponent of `(x as f64)`.

`enclave_size` reads the `f64` through `integer_decode`. Below `2^53` the conversion is exact
and `integer_decode` returns the IEEE-754 decomposition `x = m * 2^e` with
`2^52 ≤ m < 2^53`; `integerDecode` is that decomposition (`integerDecode_spec`).

## Main results

* `toNat_sizeAlignPageSize`: the round-up, reduced modulo `2^64`.
* `enclaveSize_least_pow_two`: below `2^53` the float trick returns the least power of two
  at or above its argument.
-/

namespace SgxUtils.Elf2Sgxs
open SgxUtils.Elf

/-! ## Pages -/

/-- The page base `x & !0xfff` is `x` rounded down to a multiple of `0x1000`. -/
theorem toNat_and_not_fff (x : BitVec 64) :
    (x &&& ~~~(0xfff : BitVec 64)).toNat = x.toNat / 0x1000 * 0x1000 := by
  have hm : (~~~(0xfff : BitVec 64)).toNat = (2 ^ 52 - 1) <<< 12 := by simp
  have hx : (x.toNat >>> 12) <<< 12 = x.toNat / 0x1000 * 0x1000 := by
    simp [Nat.shiftLeft_eq, Nat.shiftRight_eq_div_pow]
  rw [BitVec.toNat_and, hm, ← hx]
  apply Nat.eq_of_testBit_eq
  intro i
  simp only [Nat.testBit_and, Nat.testBit_shiftLeft, Nat.testBit_shiftRight,
    Nat.testBit_two_pow_sub_one]
  by_cases h12 : 12 ≤ i
  · by_cases h64 : i < 64
    · simp [h12, h64, show i - 12 < 52 by omega]
    · have hlt : x.toNat < 2 ^ i :=
        lt_of_lt_of_le x.isLt (Nat.pow_le_pow_right (by decide) (by omega))
      simp [h12, show ¬ i - 12 < 52 by omega, show 12 + (i - 12) = i by omega,
        Nat.testBit_lt_two_pow hlt]
  · simp [h12]

/-- The in-page offset `x & 0xfff`. -/
theorem toNat_and_fff (x : BitVec 64) : (x &&& (0xfff : BitVec 64)).toNat = x.toNat % 0x1000 := by
  rw [BitVec.toNat_and, show (0xfff : BitVec 64).toNat = 2 ^ 12 - 1 from rfl,
    Nat.and_pow_two_sub_one_eq_mod]

/-- `size_align_page_size`: round up to a multiple of `0x1000`, in `u64`. -/
def sizeAlignPageSize (size : BitVec 64) : BitVec 64 :=
  let residue := size &&& 0xfff
  if residue = 0 then size else size + (0x1000 - residue)

/-- The round-up, reduced modulo `2^64`: it wraps to `0` just below `2^64`. -/
theorem toNat_sizeAlignPageSize (size : BitVec 64) :
    (sizeAlignPageSize size).toNat = (size.toNat + 0xfff) / 0x1000 * 0x1000 % 2 ^ 64 := by
  have hr := toNat_and_fff size
  have hs := size.isLt
  dsimp only [sizeAlignPageSize]
  split
  · next h =>
    rw [h] at hr
    simp only [BitVec.ofNat_eq_ofNat, BitVec.toNat_ofNat, Nat.zero_mod] at hr
    omega
  · next h =>
    have hr0 : (size &&& (0xfff : BitVec 64)).toNat ≠ 0 := fun h0 => h (BitVec.eq_of_toNat_eq h0)
    rw [BitVec.toNat_add, BitVec.toNat_sub, hr]
    simp only [BitVec.ofNat_eq_ofNat, BitVec.toNat_ofNat]
    omega

/-! ## The enclave size -/

/-- `(x as f64).integer_decode()` for `0 < x < 2^53`, where `x as f64` is exact: the mantissa
`x * 2^(52 - k)` and the exponent `k - 52`, for `k = ⌊log₂ x⌋`. -/
def integerDecode (x : ℕ) : ℕ × ℤ :=
  (x * 2 ^ (52 - x.log2), (x.log2 : ℤ) - 52)

/-- `integerDecode` is the IEEE-754 decomposition: a 53-bit mantissa `m` and a non-positive
exponent `e` with `m * 2^e = x`. -/
theorem integerDecode_spec {x : ℕ} (h0 : 0 < x) (h53 : x < 2 ^ 53) :
    2 ^ 52 ≤ (integerDecode x).1 ∧ (integerDecode x).1 < 2 ^ 53 ∧ (integerDecode x).2 ≤ 0 ∧
      (integerDecode x).1 = x * 2 ^ (-(integerDecode x).2).toNat := by
  have hk : x.log2 < 53 := (Nat.log2_lt h0.ne').2 h53
  have hlo : 2 ^ x.log2 ≤ x := Nat.log2_self_le h0.ne'
  have hhi : x < 2 ^ (x.log2 + 1) := Nat.lt_log2_self
  have hsplit : 2 ^ 52 = 2 ^ x.log2 * 2 ^ (52 - x.log2) := by
    rw [← Nat.pow_add]; congr 1; omega
  have hsplit' : 2 ^ 53 = 2 ^ (x.log2 + 1) * 2 ^ (52 - x.log2) := by
    rw [← Nat.pow_add]; congr 1; omega
  have hpos : 0 < 2 ^ (52 - x.log2) := Nat.two_pow_pos _
  refine ⟨?_, ?_, by simp [integerDecode]; omega, ?_⟩
  · rw [hsplit]; exact Nat.mul_le_mul_right _ hlo
  · rw [hsplit']; exact Nat.mul_lt_mul_of_pos_right hhi hpos
  · simp only [integerDecode]; congr 2; omega

/-- `enclave_size`: `0` for `0`, `EnclaveSizeTooBig` from `2^53` on, and otherwise
`1 << (exponent + adjust)`, where `adjust` is `52` when the mantissa is exactly `2^52` (the
argument is a power of two) and `53` otherwise. The shift amount is never negative here, so
`Int.toNat` stands for the code's `as u64`. -/
def enclaveSize (lastPageAddress : BitVec 64) : Except Error (BitVec 64) :=
  if lastPageAddress = 0 then .ok 0
  else if lastPageAddress ≥ 0x20000000000000 then .error .enclaveSizeTooBig
  else
    let decoded := integerDecode lastPageAddress.toNat
    let adjust : ℤ := if decoded.1 ^^^ 0x10000000000000 = 0 then 52 else 53
    .ok ((1 : BitVec 64) <<< (decoded.2 + adjust).toNat)

/-- `enclave_size` fails exactly at and above `2^53`, with `EnclaveSizeTooBig`. -/
theorem enclaveSize_eq_error_iff {x : BitVec 64} {e : Error} :
    enclaveSize x = .error e ↔ 2 ^ 53 ≤ x.toNat ∧ e = .enclaveSizeTooBig := by
  have hbig : x ≥ (0x20000000000000 : BitVec 64) ↔ 2 ^ 53 ≤ x.toNat := by
    simp only [ge_iff_le, BitVec.le_def, BitVec.ofNat_eq_ofNat, BitVec.toNat_ofNat]; rfl
  unfold enclaveSize
  by_cases hx0 : x = 0
  · subst hx0
    simp
  · by_cases h53 : 2 ^ 53 ≤ x.toNat
    · rw [if_neg hx0, if_pos (hbig.2 h53)]
      exact ⟨fun h => ⟨h53, by cases h; rfl⟩, fun h => by rw [h.2]⟩
    · rw [if_neg hx0, if_neg (mt hbig.1 h53)]
      exact iff_of_false (fun h => by cases h) fun h => h53 h.1

/-- `⌊log₂ n⌋` from bounds on `n`: how a concrete `log2` is evaluated. -/
theorem log2_eq_of_bounds {n k : ℕ} (h1 : 2 ^ k ≤ n) (h2 : n < 2 ^ (k + 1)) : n.log2 = k := by
  have hn : n ≠ 0 := Nat.pos_iff_ne_zero.1 (lt_of_lt_of_le (Nat.two_pow_pos k) h1)
  exact Nat.le_antisymm (Nat.lt_succ_iff.1 ((Nat.log2_lt hn).2 h2)) ((Nat.le_log2 hn).2 h1)

/-- `p` is the least power of two at or above `x`. -/
def IsLeastPowTwoGe (x p : ℕ) : Prop :=
  (∃ k, p = 2 ^ k) ∧ x ≤ p ∧ ∀ j, x ≤ 2 ^ j → p ≤ 2 ^ j

/-- The mantissa is `2^52` exactly when the argument is a power of two. -/
theorem integerDecode_fst_eq_iff {x : ℕ} (h0 : 0 < x) (h53 : x < 2 ^ 53) :
    (integerDecode x).1 = 0x10000000000000 ↔ x = 2 ^ x.log2 := by
  have hk : x.log2 < 53 := (Nat.log2_lt h0.ne').2 h53
  have hsplit : 2 ^ 52 = 2 ^ x.log2 * 2 ^ (52 - x.log2) := by
    rw [← Nat.pow_add]; congr 1; omega
  rw [show (0x10000000000000 : ℕ) = 2 ^ 52 from rfl, hsplit]
  exact Nat.mul_left_inj (Nat.two_pow_pos _).ne'

/-- The value `enclave_size` returns below `2^53`: `2^⌊log₂ x⌋` for a power of two,
`2^(⌊log₂ x⌋ + 1)` otherwise. -/
theorem enclaveSize_eq {x : BitVec 64} (h0 : 0 < x.toNat) (h53 : x.toNat < 2 ^ 53) :
    enclaveSize x = .ok (BitVec.ofNat 64
      (2 ^ (if x.toNat = 2 ^ x.toNat.log2 then x.toNat.log2 else x.toNat.log2 + 1))) := by
  have hx0 : x ≠ 0 := fun h => by simp [h] at h0
  have hbig : ¬ x ≥ (0x20000000000000 : BitVec 64) := by
    simp only [ge_iff_le, BitVec.le_def, BitVec.ofNat_eq_ofNat, BitVec.toNat_ofNat]; omega
  have hk : x.toNat.log2 < 53 := (Nat.log2_lt h0.ne').2 h53
  have hshift : ∀ n, n < 64 → ((1 : BitVec 64) <<< n) = BitVec.ofNat 64 (2 ^ n) := fun n _ => by
    apply BitVec.eq_of_toNat_eq; simp [Nat.shiftLeft_eq]
  simp only [enclaveSize, hx0, hbig, if_false, Nat.xor_eq_zero, integerDecode_fst_eq_iff h0 h53]
  by_cases hp : x.toNat = 2 ^ x.toNat.log2
  · rw [if_pos hp, if_pos hp]
    simp only [integerDecode]
    rw [show ((x.toNat.log2 : ℤ) - 52 + 52).toNat = x.toNat.log2 by omega,
      hshift x.toNat.log2 (by omega)]
  · rw [if_neg hp, if_neg hp]
    simp only [integerDecode]
    rw [show ((x.toNat.log2 : ℤ) - 52 + 53).toNat = x.toNat.log2 + 1 by omega,
      hshift (x.toNat.log2 + 1) (by omega)]

/-- `enclave_size` of an `x` with `2^k < x ≤ 2^(k+1)` below `2^53` is `2^(k+1)`. -/
theorem enclaveSize_of_pow_lt {x : BitVec 64} {k : ℕ} (hlo : 2 ^ k < x.toNat)
    (hhi : x.toNat ≤ 2 ^ (k + 1)) (hk : k < 52) :
    enclaveSize x = .ok (BitVec.ofNat 64 (2 ^ (k + 1))) := by
  have h53 : x.toNat < 2 ^ 53 :=
    lt_of_le_of_lt hhi (Nat.pow_lt_pow_right (by decide) (by omega))
  rw [enclaveSize_eq (lt_of_le_of_lt (Nat.zero_le _) hlo) h53]
  by_cases hx : x.toNat = 2 ^ (k + 1)
  · rw [hx, Nat.log2_two_pow, if_pos rfl]
  · have hlog : x.toNat.log2 = k := log2_eq_of_bounds hlo.le (by omega)
    rw [hlog, if_neg (by omega)]

/-- Whatever `enclave_size` returns is at least its argument. -/
theorem le_of_enclaveSize_eq_ok {x e : BitVec 64} (h : enclaveSize x = .ok e) :
    x.toNat ≤ e.toNat := by
  rcases Nat.eq_zero_or_pos x.toNat with h0 | h0
  · rw [h0]; exact Nat.zero_le _
  by_cases h53 : x.toNat < 2 ^ 53
  · rw [enclaveSize_eq h0 h53] at h
    cases h
    have hk : x.toNat.log2 < 53 := (Nat.log2_lt h0.ne').2 h53
    rw [BitVec.toNat_ofNat, Nat.mod_eq_of_lt (Nat.pow_lt_pow_right (by decide) (by split <;> omega))]
    split
    · next hp => exact hp.le
    · exact Nat.lt_log2_self.le
  · have hx0 : x ≠ 0 := fun hx => by simp [hx] at h0
    have hbig : x ≥ (0x20000000000000 : BitVec 64) := by
      simp only [ge_iff_le, BitVec.le_def, BitVec.ofNat_eq_ofNat, BitVec.toNat_ofNat]; omega
    rw [enclaveSize, if_neg hx0, if_pos hbig] at h
    cases h

/-- **Below `2^53`, `enclave_size` returns the least power of two at or above its
argument.** -/
theorem enclaveSize_least_pow_two (x : BitVec 64) (h0 : 0 < x.toNat)
    (h53 : x.toNat < 2 ^ 53) :
    ∃ p, enclaveSize x = .ok p ∧ IsLeastPowTwoGe x.toNat p.toNat := by
  have hk : x.toNat.log2 < 53 := (Nat.log2_lt h0.ne').2 h53
  have hlo : 2 ^ x.toNat.log2 ≤ x.toNat := Nat.log2_self_le h0.ne'
  have hhi : x.toNat < 2 ^ (x.toNat.log2 + 1) := Nat.lt_log2_self
  refine ⟨_, enclaveSize_eq h0 h53, ?_⟩
  rw [BitVec.toNat_ofNat, Nat.mod_eq_of_lt (Nat.pow_lt_pow_right (by decide) (by split <;> omega))]
  split
  · next hp =>
    refine ⟨⟨_, rfl⟩, hp ▸ le_refl _, fun j hj => hp ▸ hj⟩
  · next hp =>
    refine ⟨⟨_, rfl⟩, hhi.le, fun j hj => Nat.pow_le_pow_right (by decide) ?_⟩
    by_contra hlt
    have : 2 ^ j ≤ 2 ^ x.toNat.log2 := Nat.pow_le_pow_right (by decide) (by omega)
    omega

/-- `3` is not a power of two: the result is `4`. -/
theorem enclaveSize_least_pow_two_three :
    0 < (3 : BitVec 64).toNat ∧ (3 : BitVec 64).toNat < 2 ^ 53 ∧
      ∃ p, enclaveSize 3 = .ok p ∧ IsLeastPowTwoGe (3 : BitVec 64).toNat p.toNat :=
  ⟨by decide, by decide, enclaveSize_least_pow_two 3 (by decide) (by decide)⟩

end SgxUtils.Elf2Sgxs
