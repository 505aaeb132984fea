import Mathlib.Logic.Basic

/-!
# Early-exit scans over a table

The validators of `elf2sgxs` walk a table once, keep a little state, and return an error at the
first entry that breaks a rule. Read as `List.foldlM` in `Except`, such a loop is fixed by
three things: the state after a prefix of good entries (`st`), when an entry is good after a
given prefix (`good`), and the error a bad entry raises (`err`). When the step function agrees
with them (`StepSpec`), the loop returns the state of the whole table if every entry is good,
and otherwise the error of the first bad entry.
-/

namespace SgxUtils

variable {σ α ε : Type}

/-- A bind in `Except` returns normally when both halves do. -/
theorem except_bind_eq_ok {x : Except ε σ} {f : σ → Except ε α} {b : α} :
    x >>= f = .ok b ↔ ∃ a, x = .ok a ∧ f a = .ok b := by
  cases x <;> simp [bind, Except.bind]

/-- A `forM` in `Except` returns normally when every step does. -/
theorem except_forM_eq_ok {l : List α} {f : α → Except ε PUnit} :
    l.forM f = .ok () ↔ ∀ x ∈ l, f x = .ok () := by
  induction l with
  | nil => simp; rfl
  | cons x xs ih =>
    rw [List.forM_cons', except_bind_eq_ok]
    simp only [List.mem_cons, forall_eq_or_imp, ← ih]
    constructor
    · rintro ⟨⟨⟩, h1, h2⟩; exact ⟨h1, h2⟩
    · rintro ⟨h1, h2⟩; exact ⟨(), h1, h2⟩

/-- Every entry of `l` is good after the entries before it, `c` in front of them. -/
def GoodFrom (good : List α → α → Prop) : List α → List α → Prop
  | _, [] => True
  | c, x :: xs => good c x ∧ GoodFrom good (c ++ [x]) xs

/-- `GoodFrom` as a statement about every split of the table. -/
theorem goodFrom_iff {good : List α → α → Prop} {c l : List α} :
    GoodFrom good c l ↔ ∀ p x q, l = p ++ x :: q → good (c ++ p) x := by
  induction l generalizing c with
  | nil => simp [GoodFrom]
  | cons y ys ih =>
    simp only [GoodFrom, ih, List.cons_eq_append_iff]
    constructor
    · rintro ⟨hy, hys⟩ p x q (⟨rfl, h⟩ | ⟨p', rfl, h⟩)
      · cases h; simpa using hy
      · simpa using hys p' x q h
    · intro h
      refine ⟨by simpa using h [] y ys (.inl ⟨rfl, rfl⟩), fun p x q hq => ?_⟩
      simpa using h (y :: p) x q (.inr ⟨p, rfl, hq⟩)

/-- With a rule that ignores the prefix, `GoodFrom` says every entry is good. -/
theorem goodFrom_const_iff {P : α → Prop} {c l : List α} :
    GoodFrom (fun _ x => P x) c l ↔ ∀ x ∈ l, P x := by
  induction l generalizing c with
  | nil => simp [GoodFrom]
  | cons y ys ih => simp [GoodFrom, ih]

/-- A table is all good or has a first bad entry. -/
theorem goodFrom_or_first_bad (good : List α → α → Prop) (c l : List α) :
    GoodFrom good c l ∨
      ∃ p x q, l = p ++ x :: q ∧ GoodFrom good c p ∧ ¬ good (c ++ p) x := by
  induction l generalizing c with
  | nil => exact .inl trivial
  | cons y ys ih =>
    by_cases hy : good c y
    · rcases ih (c ++ [y]) with h | ⟨p, x, q, rfl, hp, hx⟩
      · exact .inl ⟨hy, h⟩
      · exact .inr ⟨y :: p, x, q, rfl, ⟨hy, hp⟩, by simpa using hx⟩
    · exact .inr ⟨[], y, ys, rfl, trivial, by simpa using hy⟩

/-! ## Keys that may not repeat

A rule that rejects an entry carrying a key already seen leaves, in a table where every entry
is good, at most one entry per key, and the first entry with the key is that one. -/

section NoRepeat
variable {good : List α → α → Prop} {P : α → Bool}

/-- With no entry repeating a key of `P`, at most one entry has it. -/
theorem countP_le_one_of_noRepeat (hP : ∀ p x, good p x → P x → ∀ y ∈ p, ¬ P y)
    {l : List α} (h : ∀ p x q, l = p ++ x :: q → good p x) : l.countP P ≤ 1 := by
  suffices ∀ c, GoodFrom good c l → c.countP P ≤ 1 → (c ++ l).countP P ≤ 1 by
    simpa using this [] (goodFrom_iff.2 (by simpa using h)) (by simp)
  clear h
  induction l with
  | nil => simp
  | cons x xs ih =>
    rintro c ⟨hx, hxs⟩ hacc
    rw [← List.singleton_append, ← List.append_assoc]
    apply ih _ hxs
    by_cases hPx : P x
    · have hnone : c.countP P = 0 := List.countP_eq_zero.2 (hP c x hx hPx)
      simp [hnone, hPx]
    · simp [hPx, hacc]

/-- With no entry repeating a key of `P`, the first entry with the key is any entry with it. -/
theorem find?_eq_of_noRepeat (hP : ∀ p x, good p x → P x → ∀ y ∈ p, ¬ P y)
    {l : List α} (h : ∀ p x q, l = p ++ x :: q → good p x) {x : α} (hx : x ∈ l)
    (hPx : P x) : l.find? P = some x := by
  obtain ⟨p, q, rfl⟩ := List.append_of_mem hx
  rw [List.find?_append, List.find?_eq_none.2 (hP p x (h p x q rfl) hPx)]
  simp [hPx]

end NoRepeat

/-- The step function of a scan agrees with the state `st` of a good prefix, the rule `good`
and the error `err`. -/
structure StepSpec (step : σ → α → Except ε σ) (st : List α → σ) (good : List α → α → Prop)
    (err : List α → α → ε) : Prop where
  ok : ∀ p x, good p x → step (st p) x = .ok (st (p ++ [x]))
  error : ∀ p x, ¬ good p x → step (st p) x = .error (err p x)

namespace StepSpec
variable {step : σ → α → Except ε σ} {st : List α → σ} {good : List α → α → Prop}
  {err : List α → α → ε}

/-- Over good entries the scan runs to the state of the whole prefix. -/
theorem foldlM_of_goodFrom (h : StepSpec step st good err) {c l : List α}
    (hl : GoodFrom good c l) : l.foldlM step (st c) = .ok (st (c ++ l)) := by
  induction l generalizing c with
  | nil => simp; rfl
  | cons x xs ih =>
    rw [List.foldlM_cons, h.ok _ _ hl.1]
    simpa using ih hl.2

/-- The scan returns the error of the first bad entry. -/
theorem foldlM_of_first_bad (h : StepSpec step st good err) {c p q : List α} {x : α}
    (hp : GoodFrom good c p) (hx : ¬ good (c ++ p) x) :
    (p ++ x :: q).foldlM step (st c) = .error (err (c ++ p) x) := by
  rw [List.foldlM_append, h.foldlM_of_goodFrom hp]
  show (step (st (c ++ p)) x >>= _) = _
  rw [h.error _ _ hx]
  rfl

/-- A scan that returns normally saw only good entries. -/
theorem goodFrom_of_foldlM_ok (h : StepSpec step st good err) {c l : List α} {s : σ}
    (hs : l.foldlM step (st c) = .ok s) : GoodFrom good c l := by
  rcases goodFrom_or_first_bad good c l with hl | ⟨p, x, q, rfl, hp, hx⟩
  · exact hl
  · rw [h.foldlM_of_first_bad hp hx] at hs
    cases hs

end StepSpec

end SgxUtils
