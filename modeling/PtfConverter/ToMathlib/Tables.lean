import Mathlib.Data.List.Basic

/-! # Tables and their last writes

A write gives new values to some entries of a table and leaves the others alone. After any list of
writes, an entry has the value of the last write that reached it, or else the one that it had.
-/

namespace Table

universe u v w

variable {κ : Type u} {α : Type v} {ε : Type w}

/-- A table after one write. -/
def overwrite (table : κ → α) (write : κ → Option α) : κ → α := fun k => (write k).getD (table k)

/-- What the last of some writes gave an entry. -/
def lastWrite (write : ε → κ → Option α) (events : List ε) (table : κ → α) : κ → α := fun k =>
  (events.filterMap (write · k)).getLast?.getD (table k)

@[simp] theorem lastWrite_nil (write : ε → κ → Option α) (table : κ → α) :
    lastWrite write [] table = table :=
  rfl

/-- The writes behind the first one start from the table that it leaves. -/
theorem lastWrite_cons (write : ε → κ → Option α) (e : ε) (events : List ε) (table : κ → α) :
    lastWrite write (e :: events) table = lastWrite write events (overwrite table (write e)) := by
  funext k
  rw [lastWrite, lastWrite, overwrite, List.filterMap_cons]
  cases write e k with
  | none => rfl
  | some a => exact congrArg (Option.getD · (table k)) List.getLast?_cons

theorem lastWrite_append (write : ε → κ → Option α) (earlier later : List ε) (table : κ → α) :
    lastWrite write (earlier ++ later) table =
      lastWrite write later (lastWrite write earlier table) := by
  induction earlier generalizing table with
  | nil => rfl
  | cons e earlier ih => rw [List.cons_append, lastWrite_cons, lastWrite_cons, ih]

/-- An entry that no write reaches keeps its value. -/
theorem lastWrite_of_none {write : ε → κ → Option α} {events : List ε} (table : κ → α) {k : κ}
    (unwritten : ∀ e ∈ events, write e k = none) : lastWrite write events table k = table k := by
  rw [lastWrite, List.filterMap_eq_nil_iff.mpr unwritten]
  rfl

end Table
