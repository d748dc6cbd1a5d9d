import Mathlib.Data.List.Basic

/-!
# Muduo.Lib.Chunks

A stream of records that is kept in chunks.

`Chunked bytes records chunks current` says that the chunks, and behind them
the one that is still growing, hold the bytes of all records in order, and that
each chunk holds whole records only.  A record is added to the current chunk
(`add`), and the current chunk is closed behind any record (`close`).
-/

namespace Lib

variable {α : Type u} {β : Type v}

/-- The chunks hold the records, in order and whole. -/
def Chunked (bytes : α → List β) (records : List α) (chunks : List (List β)) (current : List β) :
    Prop :=
  ∃ (groups : List (List α)) (last : List α), records = groups.flatten ++ last ∧
    chunks = groups.map (List.flatMap bytes) ∧ current = last.flatMap bytes

namespace Chunked

variable {bytes : α → List β} {records : List α} {chunks : List (List β)} {current : List β}

theorem nil : Chunked bytes [] [] [] := ⟨[], [], rfl, rfl, rfl⟩

theorem add (h : Chunked bytes records chunks current) (r : α) :
    Chunked bytes (records ++ [r]) chunks (current ++ bytes r) := by
  obtain ⟨groups, last, hrecords, hchunks, hcurrent⟩ := h
  exact ⟨groups, last ++ [r], by simp [hrecords], hchunks, by simp [hcurrent]⟩

theorem close (h : Chunked bytes records chunks current) :
    Chunked bytes records (chunks ++ [current]) [] := by
  obtain ⟨groups, last, hrecords, hchunks, hcurrent⟩ := h
  exact ⟨groups ++ [last], [], by simp [hrecords], by simp [hchunks, hcurrent], rfl⟩

theorem flatten (h : Chunked bytes records chunks current) :
    chunks.flatten ++ current = records.flatMap bytes := by
  obtain ⟨groups, last, rfl, rfl, rfl⟩ := h
  rw [List.flatMap_append, List.append_cancel_right_eq]
  induction groups with
  | nil => rfl
  | cons g groups ih => rw [List.map_cons, List.flatten_cons, List.flatten_cons,
      List.flatMap_append, ih]

end Chunked

end Lib
