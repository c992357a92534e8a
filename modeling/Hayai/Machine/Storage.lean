import Mathlib.Data.List.TakeDrop

/-! # Finite storage read and written by position

A block of cells is a list. `slice` reads consecutive cells and `overwrite`
replaces consecutive cells without changing how many there are.
-/

universe u

namespace Storage

variable {α : Type u}

def slice (cells : List α) (pos len : Nat) : List α :=
  (cells.drop pos).take len

def overwrite (cells : List α) (pos : Nat) (data : List α) : List α :=
  cells.take pos ++ data ++ cells.drop (pos + data.length)

@[simp] theorem slice_zero (cells : List α) (pos : Nat) : slice cells pos 0 = [] := by
  simp [slice]

theorem slice_length {cells : List α} {pos len : Nat} (h : pos + len ≤ cells.length) :
    (slice cells pos len).length = len := by
  simp only [slice, List.length_take, List.length_drop]
  omega

theorem overwrite_length {cells : List α} {pos : Nat} {data : List α}
    (h : pos + data.length ≤ cells.length) : (overwrite cells pos data).length = cells.length := by
  simp only [overwrite, List.length_append, List.length_take, List.length_drop]
  omega

theorem slice_append_left {cells : List α} {pos len : Nat} (tail : List α)
    (h : pos + len ≤ cells.length) : slice (cells ++ tail) pos len = slice cells pos len := by
  unfold slice
  rw [List.drop_append_of_le_length (by omega),
    List.take_append_of_le_length (by rw [List.length_drop]; omega)]

/-- A slice that ends with the overwritten cells reads the old cells before
them and then exactly the new data. -/
theorem slice_overwrite {cells : List α} {pos start : Nat} {data : List α}
    (hstart : start ≤ pos) (h : pos + data.length ≤ cells.length) :
    slice (overwrite cells pos data) start (pos + data.length - start) =
      slice cells start (pos - start) ++ data := by
  have hpre : start ≤ (cells.take pos).length := by
    rw [List.length_take]; omega
  have hlen : ((cells.take pos).drop start ++ data).length = pos + data.length - start := by
    simp only [List.length_append, List.length_drop, List.length_take]
    omega
  unfold slice overwrite
  rw [List.append_assoc, List.drop_append_of_le_length hpre, ← List.append_assoc,
    List.take_append_of_le_length (by omega), List.take_of_length_le (by omega),
    List.drop_take]

/-- Splitting a slice at any inner point. -/
theorem slice_drop (cells : List α) (pos len k : Nat) :
    (slice cells pos len).drop k = slice cells (pos + k) (len - k) := by
  simp only [slice, List.drop_take, List.drop_drop]

theorem slice_take (cells : List α) (pos : Nat) {len k : Nat} (h : k ≤ len) :
    (slice cells pos len).take k = slice cells pos k := by
  simp only [slice, List.take_take, Nat.min_eq_left h]

end Storage
