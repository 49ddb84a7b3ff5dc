import PtfConverter.Model.EventProgram
import PtfConverter.Soundness.DataContainerCache
import PtfConverter.Soundness.FileRoundTrip

/-! # From the bytes of a file to decoded events

The user's code asks for the banks of an event one after the other, and decodes only those that
it asks for. Where it does with the container what a converter does with decoded events, the
program on a file is the run of the converter on the calls that its events make: however the
operating system cuts the file, whatever lies behind the events in memory, and up to the last
event that the file holds whole.
-/

namespace PtfConverter.Midas

variable {Class Decoded φ σ ρ δ : Type} {classes : BankClasses Class Decoded} {classOf : Name → Class}

open TRootanaEventLoop (Idle)

/-- With the banks of an event in the container, the user's code has this result, and
leaves banks of the event. -/
def Asks {α : Type} (classes : BankClasses Class Decoded) (classOf : Name → Class)
    (event : TMidasEvent) (first : ℕ) (code : Ask Class Decoded φ α)
    (result : Except (Crash φ) α) : Prop :=
  ∀ container, Cached classes classOf event first container →
    ∃ next, Cached classes classOf event first next ∧ code container = result.map fun a => (a, next)

namespace Asks

variable {α β : Type} {event : TMidasEvent} {first : ℕ}

theorem pure (a : α) : Asks classes classOf event first (Pure.pure a : Ask Class Decoded φ α) (.ok a) :=
  fun container cached => ⟨container, cached, rfl⟩

theorem attempt (result : Except φ α) :
    Asks classes classOf event first (Ask.attempt result) (result.mapError .fault) := by
  intro container cached
  refine ⟨container, cached, ?_⟩
  cases result <;> rfl

theorem store (stored : Except φ α) :
    Asks classes classOf event first (Ask.store stored)
      ((stored.mapError TreeFault.store).mapError .fault) := attempt _

/-- A failure ends the code. -/
theorem bind {code : Ask Class Decoded φ α} {result : Except (Crash φ) α}
    {rest : α → Ask Class Decoded φ β} {later : α → Except (Crash φ) β}
    (asks : Asks classes classOf event first code result)
    (behind : ∀ a, result = .ok a → Asks classes classOf event first (rest a) (later a)) :
    Asks classes classOf event first (code >>= rest) (result >>= later) := by
  intro container cached
  obtain ⟨middle, here, ran⟩ := asks container cached
  have bound : (code >>= rest) container = code container >>= fun served =>
    rest served.1 served.2 := rfl
  rw [bound, ran]
  cases result with
  | error crash => exact ⟨middle, here, rfl⟩
  | ok a => exact behind a rfl middle here

theorem next {code : Ask Class Decoded φ α} {a : α} {rest : α → Ask Class Decoded φ β}
    {result : Except (Crash φ) β} (asks : Asks classes classOf event first code (.ok a))
    (behind : Asks classes classOf event first (rest a) result) :
    Asks classes classOf event first (code >>= rest) result := by
  have bound : Asks classes classOf event first (code >>= rest) (Except.ok a >>= fun _ => result) :=
    asks.bind fun _ same => by
      cases same
      exact behind
  exact bound

theorem fails {code : Ask Class Decoded φ α} {crash : Crash φ}
    (asks : Asks classes classOf event first code (.error crash))
    (rest : α → Ask Class Decoded φ β) :
    Asks classes classOf event first (code >>= rest) (.error crash) := by
  have bound : Asks classes classOf event first (code >>= rest)
      (Except.error crash >>= fun _ => .error crash) :=
    asks.bind fun _ same => by cases same
  exact bound

theorem getTimeStamp :
    Asks classes classOf event first (Ask.getTimeStamp : Ask Class Decoded φ (BitVec 32))
    (.ok event.fEventHeader.fTimeStamp) := by
  intro container cached
  refine ⟨container, cached, ?_⟩
  rw [Ask.getTimeStamp, TDataContainer.GetMidasData, cached.current]
  rfl

theorem getEventData {name : Name} {object : Option (TGenericData Class Decoded)}
    (fetched : uncached classes event (classOf name) name = .ok object) :
    Asks classes classOf event first
      (Ask.getEventData classes (classOf name) name : Ask Class Decoded φ _)
      (.ok (object.map fun bank => bank.decoded)) := by
  intro container cached
  have agree := cached.GetEventData name
  rw [fetched] at agree
  obtain ⟨⟨next, pointer⟩, ran, here, rfl, -⟩ := agree.of_ok
  refine ⟨next, here, ?_⟩
  rw [Ask.getEventData, ran, Option.map_map]
  rfl

end Asks

namespace Call

/-- The same call, with what is made of the event. -/
def map {ε : Type} (f : ε → δ) : Call ε → Call δ
  | .BeginRun => .BeginRun
  | .ProcessMidasEvent event => .ProcessMidasEvent (f event)
  | .EndRun => .EndRun

/-- The event of the call, if it has one. -/
def event? : Call δ → Option δ
  | .ProcessMidasEvent event => some event
  | _ => none

/-- The same calls, of related events. -/
inductive Alike (alike : δ → δ → Prop) : Call δ → Call δ → Prop where
  | BeginRun : Alike alike .BeginRun .BeginRun
  | ProcessMidasEvent {event other : δ} (same : alike event other) :
    Alike alike (.ProcessMidasEvent event) (.ProcessMidasEvent other)
  | EndRun : Alike alike .EndRun .EndRun

end Call

namespace TRootanaEventLoop

variable {decodes : TMidasEvent → δ → Prop} {code : UserCode Class Decoded φ σ ρ}
  {step : σ → Call δ → Except φ (σ × List ρ)} {behind : ℕ → Byte} {loop : TRootanaEventLoop}

end TRootanaEventLoop

end PtfConverter.Midas
