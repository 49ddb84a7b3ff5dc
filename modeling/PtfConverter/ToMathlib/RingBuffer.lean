import Mathlib.Data.List.GetD

/-! # A queue in memory

A reader of a queue that is kept in memory sees more than the elements in it: it may look at the
memory behind the write pointer, and it may write to what it has not consumed. The buffer is the
list of the pending elements, from the read pointer to the write pointer, and the memory behind.
-/

structure RingBuffer (α : Type*) where
  pending : List α
  behind : ℕ → α

namespace RingBuffer

variable {α : Type*}

/-- The element at a distance from the read pointer. -/
def get (buffer : RingBuffer α) (i : ℕ) : α :=
  buffer.pending.getD i (buffer.behind (i - buffer.pending.length))

/-- A write at a distance from the read pointer. -/
def set (buffer : RingBuffer α) (i : ℕ) (a : α) : RingBuffer α :=
  if i < buffer.pending.length then { buffer with pending := buffer.pending.set i a }
  else { buffer with behind := fun k => if k = i - buffer.pending.length then a else buffer.behind k }

/-- The read pointer moves on, at most to the write pointer. -/
def advance (buffer : RingBuffer α) (n : ℕ) : Option (RingBuffer α) :=
  if n ≤ buffer.pending.length then some { buffer with pending := buffer.pending.drop n } else none

/-- Elements are written behind the others. -/
def push (buffer : RingBuffer α) (elements : List α) : RingBuffer α :=
  ⟨buffer.pending ++ elements, fun k => buffer.behind (k + elements.length)⟩

/-- Elements in front of a buffer's read pointer. -/
def prepend (front : List α) (buffer : RingBuffer α) : RingBuffer α :=
  ⟨front ++ buffer.pending, buffer.behind⟩

variable {front : List α} {buffer : RingBuffer α}

theorem get_prepend_of_lt {i : ℕ} (inside : i < front.length) :
    (prepend front buffer).get i = front[i] := by
  rw [get, prepend, List.getD_append _ _ _ _ inside, List.getD_eq_getElem _ _ inside]

theorem get_prepend_add (i : ℕ) : (prepend front buffer).get (front.length + i) = buffer.get i := by
  rw [get, prepend, List.getD_append_right _ _ _ _ (Nat.le_add_right _ _), Nat.add_sub_cancel_left, get]
  dsimp only
  rw [List.length_append, Nat.add_sub_add_left]

theorem set_prepend_add (i : ℕ) (a : α) :
    (prepend front buffer).set (front.length + i) a = prepend front (buffer.set i a) := by
  rw [set, set, prepend]
  dsimp only
  rw [List.length_append, Nat.add_sub_add_left]
  by_cases inside : i < buffer.pending.length
  · rw [if_pos (Nat.add_lt_add_left inside _), if_pos inside,
      List.set_append_right _ _ (Nat.le_add_right _ _), Nat.add_sub_cancel_left]
    rfl
  · rw [if_neg fun less => inside (Nat.lt_of_add_lt_add_left less), if_neg inside]
    rfl

theorem set_prepend_length (a : α) :
    (prepend front buffer).set front.length a = prepend front (buffer.set 0 a) :=
  set_prepend_add 0 a

/-- What is written is read again. -/
theorem get_set_self (i : ℕ) (a : α) : (buffer.set i a).get i = a := by
  rw [set]
  by_cases inside : i < buffer.pending.length
  · rw [if_pos inside, get]
    dsimp only
    rw [List.getD_eq_getElem _ _ (by rw [List.length_set]; exact inside), List.getElem_set_self]
  · rw [if_neg inside, get]
    dsimp only
    rw [List.getD_eq_default _ _ (Nat.le_of_not_lt inside), if_pos rfl]

/-- Two elements are written over the first two. -/
theorem set_two (a b c d : α) (elements : List α) (behind : ℕ → α) :
    ((mk (a :: b :: elements) behind).set 0 c).set 1 d = mk (c :: d :: elements) behind := rfl

theorem length_set (i : ℕ) (a : α) : (buffer.set i a).pending.length = buffer.pending.length := by
  rw [set]
  by_cases inside : i < buffer.pending.length
  · rw [if_pos inside]
    exact List.length_set
  · rw [if_neg inside]

theorem advance_prepend : (prepend front buffer).advance front.length = some buffer := by
  rw [advance, prepend, if_pos (by rw [List.length_append]; exact Nat.le_add_right _ _), List.drop_left]

theorem advance_of_lt {n : ℕ} (past : buffer.pending.length < n) : buffer.advance n = none :=
  if_neg (Nat.not_le_of_lt past)

/-- What is left of the pending elements is fewer, by as many as the pointer moved. -/
theorem length_of_advance {next : RingBuffer α} {n : ℕ} (moved : buffer.advance n = some next) :
    next.pending.length + n = buffer.pending.length := by
  rw [advance] at moved
  by_cases inside : n ≤ buffer.pending.length
  · rw [if_pos inside] at moved
    obtain rfl := Option.some.inj moved
    rw [List.length_drop, Nat.sub_add_cancel inside]
  · rw [if_neg inside] at moved
    cases moved

end RingBuffer
