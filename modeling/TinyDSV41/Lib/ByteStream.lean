/-
**Frames on a stream of bytes.**

A stream hands over its bytes in parts of any size. A reader that asks until it has enough does not depend on
how the bytes are cut.

* `fromBigEndian_bigEndian` — a number is read from its bytes, if they suffice for it.
* `readExact_some`, `readExact_none` — what is read of a stream, and when it ends too early.
-/

import Mathlib.Data.List.Basic
import Mathlib.Algebra.Group.Nat.Defs

namespace TinyDSV41.Lib

open List

abbrev Octets := List ℕ

/-! ### Numbers -/

/-- The bytes of a number, from the highest one. -/
def bigEndian : ℕ → ℕ → Octets
  | 0, _ => []
  | width + 1, value => bigEndian width (value / 256) ++ [value % 256]

def fromBigEndian (bytes : Octets) : ℕ := bytes.foldl (fun value byte => value * 256 + byte) 0

@[simp] theorem bigEndian_length (width value : ℕ) : (bigEndian width value).length = width := by
  induction width generalizing value with
  | zero => rfl
  | succ width known => rw [bigEndian, length_append, known, length_singleton]

/-- **A number is read from its bytes**, if they suffice for it. -/
theorem fromBigEndian_bigEndian {width value : ℕ} (small : value < 256 ^ width) :
    fromBigEndian (bigEndian width value) = value := by
  induction width generalizing value with
  | zero =>
    rw [Nat.pow_zero] at small
    exact (Nat.lt_one_iff.mp small).symm
  | succ width known =>
    have shorter : value / 256 < 256 ^ width := by
      rw [Nat.pow_succ] at small
      exact Nat.div_lt_of_lt_mul (by rwa [Nat.mul_comm])
    unfold fromBigEndian at known ⊢
    rw [bigEndian, foldl_append, known shorter]
    exact Nat.div_add_mod' value 256

/-! ### Streams -/

/-- The bytes that a stream holds until its end, and how many of them each call hands over: one more than the
number, and all that are asked for when there is none. -/
structure ByteStream where
  bytes : Octets
  cuts : List ℕ

/-- `stream.recv(size)` -/
def ByteStream.recv (stream : ByteStream) (size : ℕ) : Octets × ByteStream :=
  match stream.cuts with
  | [] => (stream.bytes.take size, ⟨stream.bytes.drop size, []⟩)
  | cut :: rest =>
    (stream.bytes.take (min size (cut + 1)), ⟨stream.bytes.drop (min size (cut + 1)), rest⟩)

theorem ByteStream.recv_part (stream : ByteStream) {size : ℕ} (positive : 0 < size) :
    ∃ count, 0 < count ∧ count ≤ size ∧ (stream.recv size).1 = stream.bytes.take count ∧
      (stream.recv size).2.bytes = stream.bytes.drop count := by
  unfold ByteStream.recv
  cases stream.cuts with
  | nil => exact ⟨size, positive, Nat.le_refl size, rfl, rfl⟩
  | cons cut rest => exact ⟨min size (cut + 1), by omega, Nat.min_le_left _ _, rfl, rfl⟩

/-- The parts of a stream until they suffice; none where it ends before. -/
def readExact (size : ℕ) (stream : ByteStream) : Option (Octets × ByteStream) :=
  if size = 0 then some ([], stream)
  else
    if (stream.recv size).1 = [] then none
    else
      (readExact (size - (stream.recv size).1.length) (stream.recv size).2).map fun read =>
        ((stream.recv size).1 ++ read.1, read.2)
termination_by size
decreasing_by
  have some_ := length_pos_iff.mpr ‹_›
  omega

/-- **A stream with enough bytes is read**, however it is cut. -/
theorem readExact_some (size : ℕ) (stream : ByteStream) (enough : size ≤ stream.bytes.length) :
    ∃ rest, readExact size stream = some (stream.bytes.take size, rest) ∧ rest.bytes = stream.bytes.drop size := by
  induction size using Nat.strongRecOn generalizing stream with
  | ind size known =>
    rw [readExact]
    by_cases nothing : size = 0
    · rw [if_pos nothing, nothing]
      exact ⟨stream, rfl, rfl⟩
    · obtain ⟨count, positive, most, part, left⟩ := stream.recv_part (Nat.pos_of_ne_zero nothing)
      have length : (stream.recv size).1.length = count := by
        rw [part, length_take]
        omega
      have some_ : (stream.recv size).1 ≠ [] := by
        rw [← length_pos_iff, length]
        exact positive
      have remains : size - count ≤ (stream.recv size).2.bytes.length := by
        rw [left, length_drop]
        omega
      obtain ⟨rest, read, after⟩ := known (size - count) (by omega) _ remains
      rw [if_neg nothing, if_neg some_, length, read]
      refine ⟨rest, ?_, ?_⟩
      · have joined : stream.bytes.take count ++ (stream.bytes.drop count).take (size - count)
            = stream.bytes.take size := by
          rw [← take_add, Nat.add_sub_cancel' most]
        show some ((stream.recv size).1 ++ _, rest) = _
        rw [part, left, joined]
      · rw [after, left, drop_drop, Nat.add_sub_cancel' most]

/-- **A stream that ends too early is refused.** -/
theorem readExact_none (size : ℕ) (stream : ByteStream) (short : stream.bytes.length < size) : readExact size stream = none := by
  induction size using Nat.strongRecOn generalizing stream with
  | ind size known =>
    rw [readExact, if_neg (by omega)]
    obtain ⟨count, positive, most, part, left⟩ := stream.recv_part (show 0 < size by omega)
    by_cases ended : (stream.recv size).1 = []
    · rw [if_pos ended]
    · have length : (stream.recv size).1.length = min count stream.bytes.length := by
        rw [part, length_take]
      have some_ := length_pos_iff.mpr ended
      have remains : (stream.recv size).2.bytes.length < size - (stream.recv size).1.length := by
        rw [left, length_drop]
        omega
      rw [if_neg ended, known _ (by omega) _ remains]
      rfl

end TinyDSV41.Lib
