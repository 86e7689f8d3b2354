import Mathlib.Data.List.ReduceOption
import Mathlib.Data.List.Rotate
import Mathlib.Data.Nat.ModEq

universe u

namespace UnixNotes.Library.Circular

variable {α : Type u}

/-- From `head` on, and around its end, `cells` has the values `xs` and is vacant behind them. -/
structure Holds (cells : List (Option α)) (head : Nat) (xs : List α) : Prop where
  fits : xs.length ≤ cells.length
  cells_eq : cells.rotate head =
    xs.map some ++ List.replicate (cells.length - xs.length) none

theorem holds_replicate (capacity : Nat) :
    Holds (List.replicate capacity (none : Option α)) 0 [] :=
  ⟨Nat.zero_le _, by simp⟩

/-- The same where a vacant cell has the value `vacant`. -/
structure Stores (vacant : α) (cells : List α) (head : Nat) (xs : List α) : Prop where
  fits : xs.length ≤ cells.length
  cells_eq : cells.rotate head = xs ++ List.replicate (cells.length - xs.length) vacant

theorem stores_replicate (vacant : α) (capacity : Nat) :
    Stores vacant (List.replicate capacity vacant) 0 [] :=
  ⟨Nat.zero_le _, by simp⟩

theorem rotate_set {β : Type u} (l : List β) (n : Nat) {k : Nat} (hk : k < l.length) (b : β) :
    (l.set ((k + n) % l.length) b).rotate n = (l.rotate n).set k b := by
  refine List.ext_getElem? fun i => ?_
  by_cases hi : i < l.length
  · have hset : i < (l.set ((k + n) % l.length) b).length := by simpa using hi
    rw [List.getElem?_rotate hset, List.getElem?_set, List.getElem?_set, List.length_set,
      List.length_rotate, List.getElem?_rotate hi]
    have hiff : (k + n) % l.length = (i + n) % l.length ↔ k = i := by
      constructor
      · intro h
        have hmod : k % l.length = i % l.length := Nat.ModEq.add_right_cancel' n h
        rwa [Nat.mod_eq_of_lt hk, Nat.mod_eq_of_lt hi] at hmod
      · rintro rfl
        rfl
    by_cases heq : k = i
    · simp [heq, Nat.mod_lt _ (show 0 < l.length by omega), hi]
    · simp [heq, mt hiff.mp heq]
  · rw [List.getElem?_eq_none (by simpa using hi), List.getElem?_eq_none (by simpa using hi)]

theorem rotate_set_head {β : Type u} {cells : List β} (hhead : head < cells.length) (b : β) :
    (cells.set head b).rotate head = (cells.rotate head).set 0 b := by
  have h := rotate_set cells head (show 0 < cells.length by omega) b
  rwa [Nat.zero_add, Nat.mod_eq_of_lt hhead] at h

namespace Stores

variable {vacant x : α} {cells xs : List α} {head : Nat}

theorem values_eq (h : Stores vacant cells head xs) : (cells.rotate head).take xs.length = xs := by
  rw [h.cells_eq, List.take_left']
  rfl

theorem push (h : Stores vacant cells head xs) (hroom : xs.length < cells.length) (x : α) :
    Stores vacant (cells.set ((head + xs.length) % cells.length) x) head (xs ++ [x]) := by
  refine ⟨by rw [List.length_set, List.length_append]; exact hroom, ?_⟩
  rw [Nat.add_comm head, rotate_set cells head hroom, h.cells_eq,
    List.set_append_right _ _ (Nat.le_refl _), List.length_set]
  obtain ⟨room, hroom⟩ := Nat.exists_eq_add_of_lt hroom
  rw [show cells.length - xs.length = room + 1 by omega,
    show cells.length - (xs ++ [x]).length = room by simp; omega]
  simp [List.replicate_succ]

theorem head_eq (h : Stores vacant cells head (x :: xs)) (hhead : head < cells.length) :
    cells[head]? = some x := by
  rw [← List.head?_rotate hhead, h.cells_eq]
  rfl

theorem pop (h : Stores vacant cells head (x :: xs)) (hhead : head < cells.length) :
    Stores vacant (cells.set head vacant) ((head + 1) % cells.length) xs := by
  have hlength : xs.length + 1 ≤ cells.length := h.fits
  refine ⟨by rw [List.length_set]; omega, ?_⟩
  have hmod := List.rotate_mod (cells.set head vacant) (head + 1)
  rw [List.length_set] at hmod
  rw [hmod, ← List.rotate_rotate, rotate_set_head hhead, h.cells_eq, List.length_set,
    show cells.length - xs.length = cells.length - (x :: xs).length + 1 by simp; omega,
    List.replicate_succ']
  simp [List.rotate_cons_succ]

end Stores

theorem holds_iff_stores {cells : List (Option α)} {head : Nat} {xs : List α} :
    Holds cells head xs ↔ Stores none cells head (xs.map some) := by
  constructor
  · rintro ⟨hfits, hcells⟩
    exact ⟨by rwa [List.length_map], by rwa [List.length_map]⟩
  · rintro ⟨hfits, hcells⟩
    exact ⟨by rwa [List.length_map] at hfits, by rwa [List.length_map] at hcells⟩

namespace Holds

variable {cells : List (Option α)} {head : Nat} {x : α} {xs : List α}

theorem values_eq (h : Holds cells head xs) : (cells.rotate head).reduceOption = xs := by
  rw [h.cells_eq]
  simp [List.reduceOption, List.filterMap_map]

theorem push (h : Holds cells head xs) (hroom : xs.length < cells.length) (x : α) :
    Holds (cells.set ((head + xs.length) % cells.length) (some x)) head (xs ++ [x]) := by
  have hstores := (holds_iff_stores.mp h).push (by rwa [List.length_map]) (some x)
  rw [List.length_map] at hstores
  rw [holds_iff_stores, List.map_append]
  exact hstores

theorem head_eq (h : Holds cells head (x :: xs)) (hhead : head < cells.length) :
    cells[head]? = some (some x) :=
  (holds_iff_stores.mp h).head_eq hhead

theorem assign (h : Holds cells head (x :: xs)) (hhead : head < cells.length) (y : α) :
    Holds (cells.set head (some y)) head (y :: xs) := by
  refine ⟨by rw [List.length_set]; exact h.fits, ?_⟩
  rw [rotate_set_head hhead, h.cells_eq, List.length_set]
  rfl

theorem vacant (h : Holds cells head xs) (hroom : xs.length < cells.length) :
    cells.set ((head + xs.length) % cells.length) none = cells := by
  refine List.rotate_injective head ?_
  dsimp only
  rw [Nat.add_comm head, rotate_set cells head hroom, h.cells_eq,
    List.set_append_right _ _ (by simp)]
  obtain ⟨vacant, hvacant⟩ := Nat.exists_eq_add_of_lt hroom
  rw [show cells.length - xs.length = vacant + 1 by omega]
  simp [List.replicate_succ]

theorem pop (h : Holds cells head (x :: xs)) (hhead : head < cells.length) :
    Holds (cells.set head none) ((head + 1) % cells.length) xs :=
  holds_iff_stores.mpr ((holds_iff_stores.mp h).pop hhead)

end Holds

end UnixNotes.Library.Circular
