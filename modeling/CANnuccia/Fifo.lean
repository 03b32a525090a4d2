import Mathlib.Data.List.Basic

/-!
# Queues that overrun

A queue with room for `n + 1` items. What arrives at a full queue takes the place of the
newest item. Items leave in the order of their arrival, and all that were not overrun do.
-/

@[ext] structure Fifo (α : Type) (n : Nat) where
  items : List α
  bounded : items.length ≤ n + 1

namespace Fifo

variable {α : Type} {n : Nat}

def empty : Fifo α n := ⟨[], Nat.zero_le _⟩

def isFull (q : Fifo α n) : Bool := q.items.length = n + 1

def push (x : α) (q : Fifo α n) : Fifo α n :=
  if h : q.items.length ≤ n then ⟨q.items ++ [x], by simpa using h⟩
  else ⟨q.items.dropLast ++ [x], by have hbounded := q.bounded; simp; omega⟩

/-- The oldest item leaves. -/
def pop (q : Fifo α n) : Fifo α n := ⟨q.items.tail, by have hbounded := q.bounded; simp; omega⟩

variable {q : Fifo α n} {x : α}

theorem not_full_iff : q.isFull = false ↔ q.items.length ≤ n := by
  have hbounded := q.bounded
  simp only [isFull, decide_eq_false_iff_not]
  omega

theorem push_room (h : q.isFull = false) : (q.push x).items = q.items ++ [x] := by
  rw [push, dif_pos (not_full_iff.mp h)]

theorem push_full (h : q.isFull = true) : (q.push x).items = q.items.dropLast ++ [x] := by
  have hfull : q.items.length = n + 1 := of_decide_eq_true h
  rw [push, dif_neg (by omega)]

/-- An overrun does not reach the item that leaves next. -/
theorem push_head (hn : 0 < n) (h : q.items ≠ []) : (q.push x).items.head? = q.items.head? := by
  cases hfull : q.isFull with
  | false => rw [push_room hfull, List.head?_append_of_ne_nil _ h]
  | true =>
    have hlen : q.items.length = n + 1 := of_decide_eq_true hfull
    rw [push_full hfull]
    obtain ⟨a, b, rest, hitems⟩ : ∃ a b rest, q.items = a :: b :: rest := by
      match hq : q.items with
      | [] | [_] => simp [hq] at hlen <;> omega
      | a :: b :: rest => exact ⟨a, b, rest, rfl⟩
    rw [hitems]
    rfl

theorem mem_push : x ∈ (q.push x).items := by
  cases hfull : q.isFull with
  | false => simp [push_room hfull]
  | true => simp [push_full hfull]

theorem push_length : (q.push x).items.length ≤ q.items.length + 1 := by
  cases hfull : q.isFull with
  | false => simp [push_room hfull]
  | true =>
    rw [push_full hfull, List.length_append, List.length_dropLast, List.length_singleton]
    omega

theorem pop_nil (h : q.items = []) : q.pop = q := by
  have hpop : q.pop.items = q.items.tail := rfl
  rw [Fifo.ext_iff, hpop, h]
  rfl

/-- What left and what is still there came in this order, and all but `lost` of it. -/
structure Accounts (arrived left : List α) (q : Fifo α n) (lost : Nat) : Prop where
  order : (left ++ q.items).Sublist arrived
  count : arrived.length = left.length + q.items.length + lost

theorem accounts_empty : Accounts [] [] (empty : Fifo α n) 0 := ⟨List.Sublist.refl _, rfl⟩

variable {arrived left : List α} {lost : Nat}

theorem Accounts.push (h : Accounts arrived left q lost) (x : α) :
    Accounts (arrived ++ [x]) left (q.push x) (if q.isFull then lost + 1 else lost) := by
  have hcount := h.count
  cases hfull : q.isFull with
  | false =>
    constructor
    · rw [push_room hfull, ← List.append_assoc]
      exact h.order.append (List.Sublist.refl _)
    · simp only [push_room hfull, List.length_append, List.length_singleton]
      simp
      omega
  | true =>
    have hlen : q.items.length = n + 1 := of_decide_eq_true hfull
    constructor
    · rw [push_full hfull, ← List.append_assoc]
      have hfront : (left ++ q.items.dropLast).Sublist arrived :=
        ((List.dropLast_sublist _).append_left left).trans h.order
      exact hfront.append (List.Sublist.refl _)
    · simp only [push_full hfull, List.length_append, List.length_singleton, List.length_dropLast]
      simp
      omega

theorem Accounts.pop {a : α} (h : Accounts arrived left q lost) (ha : q.items.head? = some a) :
    Accounts arrived (left ++ [a]) q.pop lost := by
  obtain ⟨rest, hitems⟩ := List.head?_eq_some_iff.mp ha
  have horder := h.order
  have hcount := h.count
  have hpop : q.pop.items = rest := congrArg List.tail hitems
  rw [hitems] at horder hcount
  constructor
  · rw [hpop, List.append_assoc]
    exact horder
  · rw [hpop, hcount]
    simp
    omega

/-- Nothing is lost or changed where no item was overrun. -/
theorem Accounts.complete (h : Accounts arrived left q 0) : left ++ q.items = arrived := by
  refine h.order.eq_of_length ?_
  rw [List.length_append, h.count]
  rfl

end Fifo
