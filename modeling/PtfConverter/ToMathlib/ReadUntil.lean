import Mathlib.Data.Stream.Init

/-! # Reading a stream up to a word of a kind

A loop with a countdown reads from a stream and keeps what it reads, until it has an entry that it
looks for or the countdown is at 0. It comes to 0 also with the entry that is read last, so that such
an entry is not told from none.
-/

variable {α : Type*} (sought : α → Bool)

/-- The countdown, what is read, and what is left. -/
def readUntil : ℕ → List α → Stream' α → ℕ × List α × Stream' α
  | 0, kept, stream => (0, kept, stream)
  | countdown + 1, kept, stream =>
      if !sought stream.head ∧ countdown ≠ 0 then
        readUntil countdown (kept ++ [stream.head]) stream.tail
      else (countdown, kept ++ [stream.head], stream.tail)

variable {sought}

/-- The entry comes in time. -/
theorem readUntil_found {countdown : ℕ} {kept skipped : List α} {entry : α} {rest : Stream' α}
    (others : ∀ x ∈ skipped, !sought x) (found : sought entry)
    (early : skipped.length + 1 < countdown) :
    readUntil sought countdown kept ((skipped ++ [entry]) ++ₛ rest) =
      (countdown - (skipped.length + 1), kept ++ skipped ++ [entry], rest) := by
  induction skipped generalizing countdown kept with
  | nil =>
    obtain ⟨n, rfl⟩ : ∃ n, countdown = n + 1 := ⟨countdown - 1, by omega⟩
    simp [readUntil, found]
  | cons x skipped ih =>
    obtain ⟨n, rfl⟩ : ∃ n, countdown = n + 1 := ⟨countdown - 1, by omega⟩
    rw [List.length_cons] at early
    have other : (!sought x) = true := others x List.mem_cons_self
    have more : n ≠ 0 := by omega
    rw [List.cons_append, Stream'.cons_append_stream, readUntil, Stream'.head_cons,
      Stream'.tail_cons, if_pos ⟨other, more⟩,
      ih (fun y mem => others y (List.mem_cons_of_mem _ mem)) (by omega)]
    simp only [List.length_cons, List.append_assoc, List.cons_append, List.nil_append,
      Nat.add_sub_add_right]

/-- A countdown that is not over means that the entry came in time. -/
theorem readUntil_found_of {countdown : ℕ} {kept : List α} {stream : Stream' α}
    (running : (readUntil sought countdown kept stream).1 ≠ 0) :
    ∃ skipped entry, (∀ x ∈ skipped, !sought x) ∧ sought entry ∧ skipped.length + 1 < countdown ∧
      (readUntil sought countdown kept stream).2.1 = kept ++ skipped ++ [entry] ∧
      stream = (skipped ++ [entry]) ++ₛ (readUntil sought countdown kept stream).2.2 := by
  induction countdown generalizing kept stream with
  | zero => exact absurd rfl running
  | succ countdown ih =>
    rw [readUntil] at running ⊢
    split at running
    · rename_i goesOn
      rw [if_pos goesOn]
      obtain ⟨skipped, entry, others, found, early, read, parts⟩ := ih running
      refine ⟨stream.head :: skipped, entry, ?_, found, by rw [List.length_cons]; omega, ?_, ?_⟩
      · intro x mem
        rcases List.mem_cons.mp mem with rfl | mem
        · exact goesOn.1
        · exact others x mem
      · rw [read, List.append_assoc kept, List.singleton_append]
      · rw [List.cons_append, Stream'.cons_append_stream, ← parts, Stream'.eta]
    · rename_i stops
      rw [if_neg stops]
      have found : sought stream.head := by
        by_contra other
        exact stops ⟨by simpa using other, running⟩
      refine ⟨[], stream.head, by simp, found, ?_, by rw [List.append_nil], ?_⟩
      · rw [List.length_nil]
        have more : countdown ≠ 0 := running
        omega
      · exact (Stream'.append_stream_head_tail stream).symm
