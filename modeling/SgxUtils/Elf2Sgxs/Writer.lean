import SgxUtils.Elf2Sgxs.Segments

/-!
# The canonical SGXS writer

`write` hands its pages to `sgxs::CanonicalSgxsWriter`, over a sink `W: SgxsWrite`. Neither is
in the source, so this module models them by the contract `write` relies on. `begin` starts the
stream with the `ECREATE` record. `write_pages` and `write_page` put their pages at the address
they give, which must be on a page boundary (else `InvalidPageOffset`) and not below the pages
already written (else `StreamNotCanonical`), or, without one, at the writer's cursor, the
address after the last page written. So the pages of a stream ascend, which is the canonical
order. The sink may fail on any operation, and the writer passes its I/O error up.

`Emission` is what the writer took: the `ECREATE` record, the calls, and the cursor. A `Sink`
says which operations the sink takes; `acceptAll` takes every one.

## Main results

* `takeAll_append`: the writer over two lists of calls is the writer over one, then the other.
* `takeAll_eq_ok`: once the writer has taken every call, its record is the calls, in order.
* `takeAll_of_canonical`: calls that give the addresses the writer wants are refused only by
  the sink.
* `takeAll_misaligned`: a call giving an address off a page boundary is refused.
-/

namespace SgxUtils.Elf2Sgxs
open SgxUtils.Elf

/-- The `SgxsWrite` sink under the writer, through which operations it takes: `takes n` for the
writer's `n`-th operation, the `ECREATE` record being operation `0`. -/
structure Sink where
  takes : ℕ → Bool

/-- A sink that takes every operation, as an in-memory buffer does. -/
def acceptAll : Sink := ⟨fun _ => true⟩

theorem acceptAll_takes (n : ℕ) : acceptAll.takes n = true := rfl

/-- What the canonical writer took: the `ECREATE` record (`size`, `ssaframesize`), the calls,
and the cursor, the address after the last page written. -/
structure Emission where
  size : BitVec 64
  ssaframesize : BitVec 32
  calls : List Call
  cursor : ℕ
  deriving DecidableEq, Repr

/-- The address a call gives, if any. -/
def Call.address : Call → Option (BitVec 64)
  | .writePages _ _ address _ => address
  | .writePage _ address _ => address

/-- The number of pages a call writes. -/
def Call.count : Call → ℕ
  | .writePages _ count _ _ => count
  | .writePage .. => 1

/-- Where the first page of a call goes from cursor `cur`: the address it gives, or the cursor. -/
def Call.start (c : Call) (cur : ℕ) : ℕ := (c.address.map BitVec.toNat).getD cur

/-- `CanonicalSgxsWriter::new`: the `ECREATE` record, the sink's operation `0`. -/
def Emission.begin (sink : Sink) (size : BitVec 64) (ssaframesize : BitVec 32) :
    Except SgxsError Emission :=
  if sink.takes 0 then .ok ⟨size, ssaframesize, [], 0⟩ else .error .io

/-- The writer's check of a given address: on a page boundary, and not below the cursor. -/
def Emission.check (em : Emission) : Option (BitVec 64) → Except SgxsError Unit
  | none => .ok ()
  | some a =>
    if a.toNat % 0x1000 ≠ 0 then .error .invalidPageOffset
    else if a.toNat < em.cursor then .error .streamNotCanonical
    else .ok ()

/-- The record after the writer took call `c`: the call appended, the cursor past its pages. -/
def Emission.push (em : Emission) (c : Call) : Emission :=
  { em with calls := em.calls ++ [c], cursor := c.start em.cursor + 0x1000 * c.count }

/-- `write_pages` or `write_page`: check the address, have the sink take the pages, and move the
cursor past them. -/
def Emission.take (sink : Sink) (em : Emission) (c : Call) : Except SgxsError Emission :=
  match em.check c.address with
  | .error e => .error e
  | .ok () => if sink.takes (em.calls.length + 1) then .ok (em.push c) else .error .io

/-- The calls one after another, up to the first the writer refuses. -/
def Emission.takeAll (sink : Sink) : Emission → List Call → Except SgxsError Emission
  | em, [] => .ok em
  | em, c :: cs =>
    match em.take sink c with
    | .error e => .error e
    | .ok em => em.takeAll sink cs

/-- The cursor after calls from cursor `cur`, each call's pages going where `Call.start` says. -/
def cursorAfter : ℕ → List Call → ℕ
  | cur, [] => cur
  | cur, c :: cs => cursorAfter (c.start cur + 0x1000 * c.count) cs

/-- The calls give the addresses the writer wants from cursor `cur`: each on a page boundary
and not below the cursor the call meets. -/
def Canonical : ℕ → List Call → Prop
  | _, [] => True
  | cur, c :: cs => (∀ a ∈ c.address, a.toNat % 0x1000 = 0 ∧ cur ≤ a.toNat) ∧
      Canonical (c.start cur + 0x1000 * c.count) cs

section Writer

variable {sink : Sink}

theorem begin_eq_ok {size : BitVec 64} {ssa : BitVec 32} {em : Emission}
    (h : Emission.begin sink size ssa = .ok em) : em = ⟨size, ssa, [], 0⟩ := by
  unfold Emission.begin at h
  split at h
  · exact (Except.ok.inj h).symm
  · cases h

theorem take_eq_ok {em em' : Emission} {c : Call} (h : em.take sink c = .ok em') :
    em' = em.push c := by
  unfold Emission.take at h
  split at h
  · cases h
  · split at h
    · exact (Except.ok.inj h).symm
    · cases h

theorem takeAll_append (em : Emission) (l₁ l₂ : List Call) :
    em.takeAll sink (l₁ ++ l₂) = (em.takeAll sink l₁).bind fun em => em.takeAll sink l₂ := by
  induction l₁ generalizing em with
  | nil => rfl
  | cons c cs ih =>
    rcases hc : em.take sink c with e | em₁
    · simp only [List.cons_append, Emission.takeAll, hc]
      rfl
    · simp only [List.cons_append, Emission.takeAll, hc]
      exact ih em₁

/-- **Once the writer has taken every call**, its record is the calls, in order, under the same
`ECREATE`. -/
theorem takeAll_eq_ok {em em' : Emission} {cs : List Call} (h : em.takeAll sink cs = .ok em') :
    em'.calls = em.calls ++ cs ∧ em'.size = em.size ∧ em'.ssaframesize = em.ssaframesize ∧
      em'.cursor = cursorAfter em.cursor cs := by
  induction cs generalizing em with
  | nil => cases h; exact ⟨(List.append_nil _).symm, rfl, rfl, rfl⟩
  | cons c cs ih =>
    rcases hc : em.take sink c with e | em₁
    · simp only [Emission.takeAll, hc] at h
      cases h
    · simp only [Emission.takeAll, hc] at h
      obtain ⟨h₁, h₂, h₃, h₄⟩ := ih h
      rw [take_eq_ok hc] at h₁ h₂ h₃ h₄
      dsimp only [Emission.push] at h₁ h₂ h₃ h₄
      exact ⟨by rw [h₁, List.append_assoc, List.singleton_append], h₂, h₃, h₄⟩

theorem canonical_append {cur : ℕ} {l₁ l₂ : List Call} :
    Canonical cur (l₁ ++ l₂) ↔ Canonical cur l₁ ∧ Canonical (cursorAfter cur l₁) l₂ := by
  induction l₁ generalizing cur with
  | nil => simp only [List.nil_append, Canonical, cursorAfter, true_and]
  | cons c cs ih =>
    simp only [List.cons_append, Canonical, cursorAfter, List.append_eq, ih, and_assoc]

/-- A given address the writer wants passes its check. -/
theorem check_eq_ok {em : Emission} {o : Option (BitVec 64)}
    (h : ∀ a ∈ o, a.toNat % 0x1000 = 0 ∧ em.cursor ≤ a.toNat) : em.check o = .ok () := by
  cases o with
  | none => rfl
  | some a =>
    obtain ⟨h₁, h₂⟩ := h a rfl
    simp only [Emission.check, h₁, ne_eq, not_true_eq_false, if_false, if_neg (Nat.not_lt.2 h₂)]

/-- **Calls that give the addresses the writer wants are refused only by the sink**; with a
sink that takes every operation, the writer takes them all and its cursor ends where
`cursorAfter` says. -/
theorem takeAll_of_canonical {em : Emission} {cs : List Call} (h : Canonical em.cursor cs) :
    (∀ e, em.takeAll sink cs = .error e → e = .io) ∧
      ((∀ n, sink.takes n = true) →
        ∃ em', em.takeAll sink cs = .ok em' ∧ em'.cursor = cursorAfter em.cursor cs) := by
  induction cs generalizing em with
  | nil => exact ⟨fun _ h => (nomatch h), fun _ => ⟨em, rfl, rfl⟩⟩
  | cons c cs ih =>
    obtain ⟨hc, hcs⟩ := h
    by_cases hs : sink.takes (em.calls.length + 1)
    · have htake : em.take sink c = .ok (em.push c) := by
        simp only [Emission.take, check_eq_ok hc, hs, if_true]
      simp only [Emission.takeAll, htake]
      exact ih hcs
    · have htake : em.take sink c = .error .io := by
        simp only [Emission.take, check_eq_ok hc, hs, Bool.false_eq_true, if_false]
      simp only [Emission.takeAll, htake]
      exact ⟨fun e he => (Except.error.inj he).symm, fun hall => absurd (hall _) hs⟩

/-- **A call giving an address off a page boundary is refused**, after calls the writer wants,
by a sink that takes every operation. -/
theorem takeAll_misaligned {em : Emission} {l₁ l₂ : List Call} {c : Call} {a : BitVec 64}
    (hsink : ∀ n, sink.takes n = true) (h₁ : Canonical em.cursor l₁) (hc : c.address = some a)
    (ha : a.toNat % 0x1000 ≠ 0) :
    em.takeAll sink (l₁ ++ c :: l₂) = .error .invalidPageOffset := by
  obtain ⟨em', hem', -⟩ := (takeAll_of_canonical h₁).2 hsink
  rw [takeAll_append, hem']
  simp only [Except.bind, Emission.takeAll, Emission.take, hc, Emission.check, ne_eq, ha,
    not_false_eq_true, if_true]

end Writer

end SgxUtils.Elf2Sgxs
