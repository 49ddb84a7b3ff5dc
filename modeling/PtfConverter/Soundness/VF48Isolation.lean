import PtfConverter.Soundness.VF48Sorter

/-! # Reset isolates runs

After `Reset`, what any two histories of one unpacker left behind differs only in the buffers that
are allocated, and both states are represented by one unpacker with sorters. All further calls
therefore hand on the same blocks and return the same events, or end at the same fault.
-/

namespace PtfConverter.VF48

open UnpackVF48

/-- No call changes the settings that `Reset` leaves. -/
private theorem call_Reset_settings {self next : UnpackVF48} {c : Call} {sights : List Sight}
    (ran : self.call c = .ok (next, sights)) : next.Reset.settings = self.Reset.settings := by
  cases c with
  | UnpackStream unit data =>
    obtain ⟨⟨after, handed⟩, streamed, done⟩ := Except.bind_eq_ok_iff.mp ran
    cases done
    obtain ⟨⟨stream, grp⟩, _, rest⟩ := Except.bind_eq_ok_iff.mp streamed
    obtain ⟨last, _, done⟩ := Except.bind_eq_ok_iff.mp rest
    cases done
    rfl
  | GetEvent flush =>
    cases ran
    rfl
  | Reset =>
    cases ran
    rfl

/-- A history changes nothing that the settings after `Reset` depend on. -/
private theorem run_Reset_settings {self final : UnpackVF48} {history : List Call} {sights : List Sight}
    (ran : Transducer.run UnpackVF48.call self history = .ok (final, sights)) :
    final.Reset.settings = self.Reset.settings :=
  Transducer.run_keeps (fun _ _ (state : UnpackVF48) => state.Reset.settings = self.Reset.settings)
    (fun same stepped => (call_Reset_settings stepped).trans same) rfl ran

/-- An unpacker after `Reset` has no words, no events and no times, whatever it had before. -/
theorem Reset_represents {self final : UnpackVF48} (same : final.Reset.settings = self.Reset.settings) :
    Sorted.Represents ⟨self.Reset.settings, .initial, fun _ => .initial⟩ final.Reset := by
  refine ⟨same, rfl, fun unit => ⟨rfl, fun g => ?_, fun g => rfl, fun g _ => rfl⟩⟩
  change ((((final.streams unit).wbuf g).map fun _ => []).getD [] : List Word) = []
  cases (final.streams unit).wbuf g <;> rfl

/-- After `Reset`, all further calls show the same, whichever of two histories came before. -/
theorem Reset_isolates (self : UnpackVF48) {first second : List Call} {left right : UnpackVF48}
    {seen seen' : List Sight} (ran : Transducer.run UnpackVF48.call self first = .ok (left, seen))
    (ran' : Transducer.run UnpackVF48.call self second = .ok (right, seen')) (calls : List Call) :
    (Transducer.run UnpackVF48.call left.Reset calls).map Prod.snd =
      (Transducer.run UnpackVF48.call right.Reset calls).map Prod.snd := by
  have one := (Reset_represents (run_Reset_settings ran)).run calls
  have other := (Reset_represents (run_Reset_settings ran')).run calls
  apply (one.meet other).map_eq
  rintro a c ⟨b, ⟨_, same⟩, ⟨_, same'⟩⟩
  exact same.trans same'.symm

/-- One history stops inside a block, the other has no calls. -/
theorem Reset_isolates_cut :
    ∃ left seen, Transducer.run UnpackVF48.call UnpackVF48.new
        [.UnpackStream 3 [0xF0000002, 0x80000005, 0xA0000001]] =
        .ok (left, seen) ∧
      ∀ calls, (Transducer.run UnpackVF48.call left.Reset calls).map Prod.snd =
        (Transducer.run UnpackVF48.call UnpackVF48.new.Reset calls).map Prod.snd := by
  have ran : ∃ left seen, Transducer.run UnpackVF48.call UnpackVF48.new
      [.UnpackStream 3 [0xF0000002, 0x80000005, 0xA0000001]] = .ok (left, seen) := ⟨_, _, rfl⟩
  obtain ⟨left, seen, ran⟩ := ran
  exact ⟨left, seen, ran, Reset_isolates UnpackVF48.new ran (Transducer.run_nil _)⟩

end PtfConverter.VF48
