/-
A first-in first-out queue kept in cells that are used again.

The place `i` of the history lives in the cell `slot i`, and any `capacity`
places in a row have different cells.  `Holds` says that every place from `r` on
is still in its cell, and it survives the storing of the next place as long as
that place is less than `capacity` away from `r`.
-/
import Mathlib.Logic.Function.Basic
import Mathlib.Data.List.Basic

namespace RobotNav
namespace Fifo

variable {ι α : Type*}

/-- Places less than `capacity` apart have different cells. -/
def Apart (slot : ℕ → ι) (capacity : ℕ) : Prop :=
  ∀ i j, i < j → j < i + capacity → slot i ≠ slot j

/-- Every place of the history from `r` on is in its cell. -/
def Holds (slot : ℕ → ι) (cells : ι → α) (r : ℕ) (history : List α) : Prop :=
  ∀ i x, r ≤ i → history[i]? = some x → cells (slot i) = x

variable {slot : ℕ → ι} {cells : ι → α} {r capacity : ℕ} {history : List α}

theorem holds_nil : Holds slot cells r [] := by
  intro i x _ hx
  rw [List.getElem?_nil] at hx
  cases hx

namespace Holds

theorem pop (h : Holds slot cells r history) : Holds slot cells (r + 1) history :=
  fun i x hi hx => h i x (by omega) hx

/-- Storing the next place leaves the places from `r` on alone. -/
theorem store [DecidableEq ι] (h : Holds slot cells r history) (hslot : Apart slot capacity)
    (hroom : history.length < r + capacity) (x : α) :
    Holds slot (Function.update cells (slot history.length) x) r history := by
  intro i y hi hy
  have hlt : i < history.length := (List.getElem?_eq_some_iff.mp hy).1
  have hne : slot i ≠ slot history.length := hslot i history.length hlt (by omega)
  rw [Function.update_of_ne hne]
  exact h i y hi hy

/-- A stored place joins the history. -/
theorem push (h : Holds slot cells r history) {x : α} (hx : cells (slot history.length) = x) :
    Holds slot cells r (history ++ [x]) := by
  intro i y hi hy
  rcases Nat.lt_trichotomy i history.length with hlt | heq | hgt
  · rw [List.getElem?_append_left hlt] at hy
    exact h i y hi hy
  · subst heq
    rw [List.getElem?_concat_length] at hy
    rw [hx]
    exact Option.some.inj hy
  · have hlen : (history ++ [x]).length ≤ i := by
      rw [List.length_append, List.length_singleton]
      omega
    rw [List.getElem?_eq_none hlen] at hy
    cases hy

end Holds

/-- The places popped are an initial part of the history, and the next one makes
it longer. -/
theorem take_succ_eq {x : α} (hx : history[r]? = some x) :
    history.take (r + 1) = history.take r ++ [x] := by
  rw [List.take_add_one, hx]
  rfl

end Fifo
end RobotNav
