import Mathlib.Logic.Encodable.Basic
import Mathlib.Logic.Equiv.List

/-!
# Codecs that agree with recorded texts

A concrete run needs a concrete encoder, and a proof about it needs the round trip for
every value. A `RecordedCodec` writes the recorded values as their recorded texts and all
others after a zero byte, with which no recorded text begins; reading goes the same way
back (`decode_encode`).
-/

namespace Lib

/-- Among rows with different keys the key finds its row. -/
theorem find?_of_distinct {α β : Type*} {key : α → β} {rows : List α}
    (hdistinct : rows.Pairwise fun row row' => key row ≠ key row') {row : α} (hrow : row ∈ rows)
    {p : α → Bool} (hp : ∀ other, p other = true ↔ key other = key row) :
    rows.find? p = some row := by
  induction rows with
  | nil => exact absurd hrow List.not_mem_nil
  | cons first rows ih =>
    rw [List.pairwise_cons] at hdistinct
    rcases List.mem_cons.mp hrow with rfl | hrow
    · exact List.find?_cons_of_pos ((hp row).mpr rfl)
    · rw [List.find?_cons_of_neg (mt (hp first).mp (hdistinct.1 row hrow))]
      exact ih hdistinct.2 hrow

structure RecordedCodec (α : Type*) where
  rows : List (α × List UInt8)
  distinct : (rows.map Prod.snd).Nodup
  text : ∀ row ∈ rows, row.2.head? ≠ some 0

namespace RecordedCodec

variable {α : Type*} [DecidableEq α] [Encodable α] (C : RecordedCodec α)

def find (bytes : List UInt8) : Option (α × List UInt8) :=
  C.rows.find? fun row => row.2 = bytes

def encode (x : α) : List UInt8 :=
  match C.rows.find? fun row => row.1 = x with
  | some row => row.2
  | none => 0 :: List.replicate (Encodable.encode x) 0

def decode (bytes : List UInt8) : Option α :=
  match C.find bytes with
  | some row => some row.1
  | none =>
    match bytes with
    | 0 :: rest => Encodable.decode rest.length
    | _ => none

omit [DecidableEq α] [Encodable α] in
theorem find_eq_some {row : α × List UInt8} (hrow : row ∈ C.rows) : C.find row.2 = some row :=
  find?_of_distinct (List.pairwise_map.mp C.distinct) hrow fun _ => decide_eq_true_iff

theorem decode_encode (x : α) : C.decode (C.encode x) = some x := by
  unfold encode
  split
  next row hrow =>
    have hx : row.1 = x := by simpa using List.find?_some hrow
    simp only [decode, C.find_eq_some (List.mem_of_find?_eq_some hrow), hx]
  next =>
    have hnone : C.find (0 :: List.replicate (Encodable.encode x) 0) = none := by
      refine List.find?_eq_none.mpr fun row hrow heq => C.text row hrow ?_
      rw [decide_eq_true_eq] at heq
      rw [heq]
      rfl
    simp [decode, hnone]

end RecordedCodec

end Lib
