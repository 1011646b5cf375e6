/-
**Bodies of HTTP responses, and what shows that one is complete.**

A body ends after a declared number of bytes, after a last chunk, or with the stream. A reader that asks
for one byte more than it admits sees whether the body is too long, and what is left of a declared number
tells it whether the stream ended too early.

* `HttpResponse.Complete` — the bytes are the body, by its framing.
* `HttpResponse.complete_of_read` — a body within the limit of which nothing is left is complete.
-/

import Mathlib.Data.List.Basic

namespace TinyDSV41.Lib

inductive Framing
  | length (bytes : ℕ)
  | chunked
  | close
deriving DecidableEq

/-- A response as it arrives: the bytes of its body before the stream ends, and whether the last chunk is
among them. -/
structure HttpResponse (Byte : Type) where
  status : ℕ
  framing : Framing
  arrives : List Byte
  lastChunk : Bool

namespace HttpResponse

variable {Byte : Type} {response : HttpResponse Byte} {body : List Byte} {left : Option ℕ} {limit : ℕ}

def Complete (response : HttpResponse Byte) (body : List Byte) : Prop :=
  match response.framing with
  | .length bytes => body = response.arrives.take bytes ∧ body.length = bytes
  | .chunked => body = response.arrives ∧ response.lastChunk = true
  | .close => body = response.arrives

/-- `read` of at most a number of bytes, with `length` as it is afterwards; chunks that stop before the
last one raise. -/
def read (response : HttpResponse Byte) (amount : ℕ) : Option (List Byte × Option ℕ) :=
  match response.framing with
  | .length bytes =>
    let data := response.arrives.take (min amount bytes)
    some (data, some (bytes - data.length))
  | .chunked =>
    if amount ≤ response.arrives.length then some (response.arrives.take amount, none)
    else if response.lastChunk then some (response.arrives, none)
    else none
  | .close => some (response.arrives.take amount, none)

theorem take_short {bytes : List Byte} (short : (bytes.take (limit + 1)).length ≤ limit) :
    bytes.take (limit + 1) = bytes := by
  rw [List.length_take] at short
  exact List.take_of_length_le (by omega)

/-- **A body within the limit of which nothing is left is complete.** -/
theorem complete_of_read (found : response.read (limit + 1) = some (body, left))
    (bounded : body.length ≤ limit) (ended : left = some 0 ∨ left = none) : response.Complete body := by
  unfold read at found
  unfold Complete
  cases framing : response.framing with
  | length bytes =>
    simp only [framing, Option.some.injEq, Prod.mk.injEq] at found
    obtain ⟨rfl, rfl⟩ := found
    have nothing : bytes - (response.arrives.take (min (limit + 1) bytes)).length = 0 :=
      ended.elim Option.some.inj nofun
    -- As many bytes were read as are declared, and these are within the limit.
    have long : (response.arrives.take (min (limit + 1) bytes)).length ≤ min (limit + 1) bytes :=
      List.length_take_le _ _
    have whole : min (limit + 1) bytes = bytes := by omega
    rw [whole] at nothing long ⊢
    exact ⟨rfl, by omega⟩
  | chunked =>
    simp only [framing] at found
    by_cases more : limit + 1 ≤ response.arrives.length
    · rw [if_pos more] at found
      cases found
      rw [List.length_take_of_le more] at bounded
      omega
    · rw [if_neg more] at found
      by_cases last : response.lastChunk = true
      · rw [if_pos last] at found
        cases found
        exact ⟨rfl, last⟩
      · rw [if_neg last] at found
        cases found
  | close =>
    simp only [framing, Option.some.injEq, Prod.mk.injEq] at found
    obtain ⟨rfl, -⟩ := found
    exact take_short bounded

end HttpResponse

end TinyDSV41.Lib
