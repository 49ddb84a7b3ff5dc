import PtfConverter.Model.RunControl
import PtfConverter.Soundness.DataContainerCache
import PtfConverter.Soundness.RunFiles
import PtfConverter.ToMathlib.LabelledPaths

/-! # The event loop online

Whatever MIDAS delivers while the user's code is running, one event is handled at a time, with an
answer to every request that is decoded from it, and ROOT files are opened and closed one after the
other. No event is begun without an open ROOT file; but only as long as no transition comes while an
event is handled does the file stay the same up to the end of it.
-/

namespace PtfConverter.Midas

variable {Class Decoded : Type} {classOf : Name → Class}

/-- The event of a call that has not returned. -/
def Frame.event? : Frame → Option TMidasEvent
  | .PreFilter event => some event
  | .ProcessMidasEvent event => some event
  | .BeginRun => none
  | .EndRun => none

/-- What matters of the event loop: the open ROOT file, and the event that is handled. -/
structure Scene where
  file : Option String
  event : Option TMidasEvent

/-- What may happen: with ROOT output a run begins, and an event is begun, with an open file; a calm
scene has no transitions during an event. -/
inductive Scene.Next (classes : BankClasses Class Decoded) (output calm : Bool) :
    Scene → Action Class Decoded → Scene → Prop
  | opened (filename : String) {event : Option TMidasEvent} (quiet : calm = true → event = none) :
      Next classes output calm ⟨none, event⟩ (.opened filename) ⟨some filename, event⟩
  | closed (filename : String) {event : Option TMidasEvent} (quiet : calm = true → event = none) :
      Next classes output calm ⟨some filename, event⟩ (.closed filename) ⟨none, event⟩
  | BeginRun (transition run time : ℤ) {file : Option String} {event : Option TMidasEvent}
      (quiet : calm = true → event = none) (valid : output = true → file.isSome) :
      Next classes output calm ⟨file, event⟩ (.BeginRun transition run time) ⟨file, event⟩
  | EndRun (transition run time : ℤ) {file : Option String} {event : Option TMidasEvent}
      (quiet : calm = true → event = none) :
      Next classes output calm ⟨file, event⟩ (.EndRun transition run time) ⟨file, event⟩
  | PreFilter (event : TMidasEvent) {file : Option String} (valid : output = true → file.isSome) :
      Next classes output calm ⟨file, none⟩ (.PreFilter event) ⟨file, some event⟩
  | ProcessMidasEvent (event : TMidasEvent) (file : Option String) :
      Next classes output calm ⟨file, some event⟩ (.ProcessMidasEvent event) ⟨file, some event⟩
  | answered {event : TMidasEvent} (answer : Answer Class Decoded) (file : Option String)
      (fetched : uncached classes event answer.type answer.name = .ok answer.object) :
      Next classes output calm ⟨file, some event⟩ (.answered answer) ⟨file, some event⟩
  | CleanupEvent (event : TMidasEvent) (file : Option String) :
      Next classes output calm ⟨file, some event⟩ .CleanupEvent ⟨file, none⟩

namespace Online

/-- The container has no banks, or those of the event that is handled. -/
def Holds (classes : BankClasses Class Decoded) (classOf : Name → Class)
    (container : TDataContainer Class Decoded) :
    Option TMidasEvent → Prop
  | none => TRootanaEventLoop.Idle container
  | some event => ∃ listed first, listed.fData = event.fData ∧
      Cached classes classOf listed first container

/-- How the event loop is at a scene. -/
structure Shows (loop : RunSettings) (classes : BankClasses Class Decoded)
    (classOf : Name → Class) (calm : Bool) (online : Online Class Decoded)
    (scene : Scene) : Prop where
  file : online.fOutputFile = scene.file
  disabled : loop.fDisableRootOutput = true → scene.file = none
  frames : online.frames.filterMap Frame.event? = scene.event.toList
  lock : online.onlineEventLock = scene.event.isSome
  container : Holds classes classOf online.fDataContainer scene.event
  /-- A transition has no event below it. -/
  order : calm = true → online.frames.Pairwise fun _ below => below.event? = none
  last : online.quitting = true →
    online.frames = [] ∧ scene.file = none ∨ online.frames.getLast? = some .EndRun

variable {loop : RunSettings} {classes : BankClasses Class Decoded} {calm : Bool}

/-- What follows a step. -/
abbrev Follows (loop : RunSettings) (classes : BankClasses Class Decoded) (classOf : Name → Class)
    (calm : Bool) (scene : Scene) (next : Online Class Decoded)
    (actions : List (Action Class Decoded)) : Prop :=
  ∃ scene', LabelledPath (Scene.Next classes (!loop.fDisableRootOutput) calm) scene actions scene' ∧
    Shows loop classes classOf calm next scene'

theorem answers_path {event : TMidasEvent} {output : Bool} (file : Option String)
    {answers : List (Answer Class Decoded)}
    (fetched : ∀ answer ∈ answers, uncached classes event answer.type answer.name =
      .ok answer.object) :
    LabelledPath (Scene.Next classes output calm) ⟨file, some event⟩ (answers.map .answered)
      ⟨file, some event⟩ := by
  induction answers with
  | nil => exact .nil _
  | cons answer answers ih =>
    obtain ⟨here, later⟩ := List.forall_mem_cons.mp fetched
    exact .cons (.answered answer file here) (ih later)

namespace Shows

variable {self : Online Class Decoded} {scene : Scene}

theorem idle (shows : Shows loop classes classOf calm self scene)
    (free : self.onlineEventLock = false) :
    scene.event = none := by
  have none := shows.lock
  rw [free] at none
  exact Option.not_isSome_iff_eq_none.mp (ne_true_of_eq_false none.symm)

theorem busy (shows : Shows loop classes classOf calm self scene)
    (locked : self.onlineEventLock = true) :
    ∃ event, scene.event = some event :=
  Option.isSome_iff_exists.mp (shows.lock.symm.trans locked)

/-- Without an event no call is about one. -/
theorem no_event (shows : Shows loop classes classOf calm self scene) (free : scene.event = none) :
    ∀ frame ∈ self.frames, frame.event? = none := by
  have frames := shows.frames
  rw [free] at frames
  exact List.filterMap_eq_nil_iff.mp frames

/-- What happens when ROOT files are opened: if there are any, the one of the run is open
afterwards. -/
theorem OpenRootFile_path {file event : Option _} (quiet : calm = true → event = none)
    (disabled : loop.fDisableRootOutput = true → file = none) (run : ℤ) (fname : String) :
    LabelledPath (Scene.Next classes (!loop.fDisableRootOutput) calm) ⟨file, event⟩
        (loop.OpenRootFile run fname file).2
          ⟨(loop.OpenRootFile run fname file : _ × List (Action Class Decoded)).1, event⟩ ∧
      (loop.fDisableRootOutput = true →
        (loop.OpenRootFile run fname file : _ × List (Action Class Decoded)).1 = none) ∧
      ((!loop.fDisableRootOutput) = true →
        (loop.OpenRootFile run fname file : _ × List (Action Class Decoded)).1.isSome) := by
  rw [RunSettings.OpenRootFile]
  cases output : loop.fDisableRootOutput with
  | true => exact ⟨.nil _, fun _ => disabled output, fun none => absurd none Bool.false_ne_true⟩
  | false =>
    refine ⟨?_, fun none => absurd none Bool.false_ne_true, fun _ => rfl⟩
    cases file with
    | none => exact .single (.opened _ quiet)
    | some filename => exact .cons (.closed filename quiet) (.single (.opened _ quiet))

/-- While the program runs, another call leaves the last one. -/
theorem last_push (shows : Shows loop classes classOf calm self scene)
    (running : ¬(self.quitting = true ∧ self.frames.isEmpty = true)) (frame : Frame)
    (quits : self.quitting = true) : (frame :: self.frames).getLast? = some .EndRun := by
  obtain ⟨ended, -⟩ | last := shows.last quits
  · exact absurd ⟨quits, List.isEmpty_iff.mpr ended⟩ running
  · rw [List.getLast?_cons, last]
    rfl

theorem last_pop (shows : Shows loop classes classOf calm self scene) {frame : Frame}
    {rest : List Frame} (frames : self.frames = frame :: rest) (quits : self.quitting = true) :
    rest = [] ∧ frame = .EndRun ∨ rest.getLast? = some .EndRun := by
  obtain ⟨ended, -⟩ | last := shows.last quits
  · rw [frames] at ended
    cases ended
  · rw [frames] at last
    cases rest with
    | nil => exact .inl ⟨rfl, Option.some.inj last⟩
    | cons next rest =>
      right
      rwa [List.getLast?_cons_cons] at last

/-- The rest of the calls keeps the order. -/
theorem order_pop (shows : Shows loop classes classOf calm self scene) {frame : Frame}
    {rest : List Frame} (frames : self.frames = frame :: rest) (yes : calm = true) :
    (∀ below ∈ rest, below.event? = none) ∧ rest.Pairwise fun _ below => below.event? = none := by
  have order := shows.order yes
  rw [frames] at order
  exact List.pairwise_cons.mp order

theorem starts (shows : Shows loop classes classOf calm self scene)
    (running : ¬(self.quitting = true ∧ self.frames.isEmpty = true))
    (quiet : calm = true → self.onlineEventLock = false) (transition run time : ℤ) :
    Follows loop classes classOf calm scene (self.onlineBeginRunHandler loop transition run time).1
      (self.onlineBeginRunHandler loop transition run time).2 := by
  have still : calm = true → scene.event = none := fun yes => shows.idle (quiet yes)
  obtain ⟨path, disabled, valid⟩ :=
    @OpenRootFile_path _ _ loop classes calm _ _ still shows.disabled run ""
  refine ⟨⟨(loop.OpenRootFile run "" scene.file : _ × List (Action Class Decoded)).1, scene.event⟩,
    ?_, ?_⟩
  · rw [onlineBeginRunHandler, shows.file]
    exact path.append (.single (.BeginRun transition run time still valid))
  · rw [onlineBeginRunHandler, shows.file]
    exact ⟨rfl, disabled, shows.frames, shows.lock, shows.container,
      fun yes => List.pairwise_cons.mpr ⟨shows.no_event (still yes), shows.order yes⟩,
      fun quits => .inr (shows.last_push running _ quits)⟩

theorem stops (shows : Shows loop classes classOf calm self scene)
    (running : ¬(self.quitting = true ∧ self.frames.isEmpty = true))
    (quiet : calm = true → self.onlineEventLock = false) (transition run time : ℤ) :
    Follows loop classes classOf calm scene (self.onlineEndRunHandler transition run time).1
      (self.onlineEndRunHandler transition run time).2 := by
  have still : calm = true → scene.event = none := fun yes => shows.idle (quiet yes)
  refine ⟨scene, .single (.EndRun transition run time still), ?_⟩
  exact ⟨shows.file, shows.disabled, shows.frames, shows.lock, shows.container,
    fun yes => List.pairwise_cons.mpr ⟨shows.no_event (still yes), shows.order yes⟩,
    fun quits => .inr (shows.last_push running _ quits)⟩

theorem quits (shows : Shows loop classes classOf calm self scene) (empty : self.frames = []) :
    Follows loop classes classOf calm scene { self with frames := [.EndRun], quitting := true }
      [.EndRun 0 self.fCurrentRunNumber 0] := by
  have frames := shows.frames
  rw [empty] at frames
  have still : scene.event = none := Option.toList_eq_nil_iff.mp frames.symm
  refine ⟨scene, .single (.EndRun 0 self.fCurrentRunNumber 0 fun _ => still), ?_⟩
  exact ⟨shows.file, shows.disabled, frames, shows.lock, shows.container,
    fun _ => List.pairwise_singleton _ _,
    fun _ => .inr rfl⟩

/-- A call about an event is about the one that is handled, and the only one. -/
theorem handled (shows : Shows loop classes classOf calm self scene) {event : TMidasEvent}
    {frame : Frame} {rest : List Frame} (frames : self.frames = frame :: rest)
    (about : frame.event? = some event) :
    scene = ⟨scene.file, some event⟩ ∧ rest.filterMap Frame.event? = [] := by
  have events := shows.frames
  rw [frames, List.filterMap_cons, about] at events
  cases here : scene.event with
  | none =>
    rw [here] at events
    cases events
  | some current =>
    rw [here] at events
    obtain ⟨rfl, others⟩ := List.cons.inj events
    exact ⟨by rw [← here], others⟩

/-- The lock is released when the user's code for an event has returned. -/
theorem cleans (shows : Shows loop classes classOf calm self scene) {event : TMidasEvent}
    {frame : Frame} {rest : List Frame} (frames : self.frames = frame :: rest)
    (about : frame.event? = some event) :
    Follows loop classes classOf calm scene (self.cleaned rest).1 (self.cleaned rest).2 := by
  obtain ⟨here, others⟩ := shows.handled frames about
  rw [here] at shows ⊢
  obtain ⟨listed, first, -, cached⟩ := shows.container
  refine ⟨⟨scene.file, none⟩, .single (.CleanupEvent event scene.file), ?_⟩
  refine ⟨shows.file, shows.disabled, others, rfl, ⟨cached.borrowed, rfl⟩,
    fun yes => (shows.order_pop frames yes).2, ?_⟩
  intro quits
  obtain ⟨-, rfl⟩ | last := shows.last_pop frames quits
  · cases about
  · exact .inr last

/-- `ProcessMidasEvent` is called for an event that passed `PreFilter`. -/
theorem passes (shows : Shows loop classes classOf calm self scene) {event : TMidasEvent}
    {rest : List Frame} (frames : self.frames = .PreFilter event :: rest) :
    Follows loop classes classOf calm scene { self with frames := .ProcessMidasEvent event :: rest }
      [.ProcessMidasEvent event] := by
  obtain ⟨here, others⟩ := shows.handled frames rfl
  rw [here] at shows ⊢
  refine ⟨⟨scene.file, some event⟩, .single (.ProcessMidasEvent event scene.file), ?_⟩
  refine ⟨shows.file, shows.disabled, ?_, shows.lock, shows.container, ?_, ?_⟩
  · exact congrArg (List.cons event) others
  · exact fun yes => List.pairwise_cons.mpr (shows.order_pop frames yes)
  · intro quits
    obtain ⟨-, none⟩ | last := shows.last_pop frames quits
    · cases none
    · right
      rw [List.getLast?_cons, last]
      rfl

theorem returns (shows : Shows loop classes classOf calm self scene) (result : Bool) :
    Follows loop classes classOf calm scene (self.returned result).1 (self.returned result).2 := by
  rw [returned]
  split
  · exact ⟨scene, .nil scene, shows⟩
  · rename_i event rest frames
    cases result with
    | false => exact shows.cleans frames rfl
    | true => exact shows.passes frames
  · rename_i event rest frames
    exact shows.cleans frames rfl
  · rename_i rest frames
    have events := shows.frames
    rw [frames] at events
    refine ⟨scene, .nil scene, shows.file, shows.disabled, events, shows.lock, shows.container,
      fun yes => (shows.order_pop frames yes).2, fun quits => ?_⟩
    obtain ⟨-, none⟩ | last := shows.last_pop frames quits
    · cases none
    · exact .inr last
  · rename_i rest frames
    have events := shows.frames
    rw [frames] at events
    have quiet : calm = true → scene.event = none := by
      intro yes
      have none : rest.filterMap Frame.event? = [] :=
        List.filterMap_eq_nil_iff.mpr (shows.order_pop frames yes).1
      exact Option.toList_eq_nil_iff.mp (events.symm.trans none)
    refine ⟨⟨none, scene.event⟩, ?_, rfl, fun _ => rfl, events, shows.lock, shows.container,
      fun yes => (shows.order_pop frames yes).2, fun quits => ?_⟩
    · rw [shows.file]
      obtain ⟨file, event⟩ := scene
      cases file with
      | none => exact .nil _
      | some filename => exact .single (.closed filename quiet)
    · exact (shows.last_pop frames quits).imp (fun ended => ⟨ended.1, rfl⟩) id

theorem event (shows : Shows loop classes classOf calm self scene)
    (running : ¬(self.quitting = true ∧ self.frames.isEmpty = true)) {header : EventHeader}
    {data : List Byte} {next : Online Class Decoded} {actions : List (Action Class Decoded)}
    (ran : self.onlineEventHandler loop header data = .ok (next, actions)) :
    Follows loop classes classOf calm scene next actions := by
  have counted (count : ℕ) :
      Shows loop classes classOf calm { self with numberConsSkipped := count } scene :=
    ⟨shows.file, shows.disabled, shows.frames, shows.lock, shows.container, shows.order, shows.last⟩
  rw [onlineEventHandler] at ran
  split at ran
  · cases ran
    exact ⟨scene, .nil scene, shows⟩
  · rename_i free
    split at ran
    · cases ran
      exact ⟨scene, .nil scene, counted _⟩
    · rename_i valid
      obtain ⟨event, -, ran⟩ := Except.bind_eq_ok_iff.mp ran
      obtain ⟨⟨listed, count⟩, set, ran⟩ := Except.bind_eq_ok_iff.mp ran
      dsimp only at ran
      split at ran
      · cases ran
        exact ⟨scene, .nil scene, counted 0⟩
      · obtain ⟨container, points, done⟩ := Except.bind_eq_ok_iff.mp ran
        cases done
        have none := shows.idle (Bool.eq_false_of_not_eq_true free)
        have idle := shows.container
        rw [none] at idle
        rw [TDataContainer.SetMidasEventPointer, idle.borrowed,
          if_neg fun owned => Bool.false_ne_true owned.1] at points
        cases points
        have open' : (!loop.fDisableRootOutput) = true → scene.file.isSome := by
          rw [← shows.file]
          intro output
          by_contra closed
          exact valid ⟨output, Option.isNone_iff_eq_none.mpr (Option.not_isSome_iff_eq_none.mp closed)⟩
        refine ⟨⟨scene.file, some event⟩, ?_, shows.file, shows.disabled, ?_, rfl,
          ⟨listed, _, (SetBankList_keeps (Except.mapError_eq_ok_iff.mp set)).2,
            idle.cached listed⟩, ?_, ?_⟩
        · rw [show scene = ⟨scene.file, Option.none⟩ by rw [← none]]
          exact .single (.PreFilter event open')
        · have frames := shows.frames
          rw [none] at frames
          exact congrArg (List.cons event) frames
        · exact fun yes => List.pairwise_cons.mpr ⟨shows.no_event none, shows.order yes⟩
        · exact fun quits => .inr (shows.last_push running _ quits)

theorem asks (shows : Shows loop classes classOf calm self scene)
    (locked : self.onlineEventLock = true) {request : Request classOf}
    {container : TDataContainer Class Decoded} {answers : List (Answer Class Decoded)}
    (ran : TRootanaEventLoop.answer classes self.fDataContainer request =
      .ok (container, answers)) :
    Follows loop classes classOf calm scene { self with fDataContainer := container }
      (answers.map .answered) := by
  obtain ⟨event, here⟩ := shows.busy locked
  obtain ⟨file, current⟩ := scene
  obtain rfl : current = some event := here
  obtain ⟨listed, first, same, cached⟩ := shows.container
  have agree := TRootanaEventLoop.answer_agree cached request
  rw [ran] at agree
  obtain ⟨plain, -, as⟩ := agree.to_ok
  refine ⟨⟨file, some event⟩, answers_path file fun answer member => ?_, shows.file,
    shows.disabled, shows.frames, shows.lock,
    ⟨listed, first, same, as.cached⟩, shows.order, shows.last⟩
  rw [← uncached_congr same]
  exact (as.answered answer member).fetched

end Shows

/-- A transition that comes while no event is handled. -/
def Quiet (self : Online Class Decoded) : Signal classOf → Prop
  | .starts .. => self.onlineEventLock = false
  | .stops .. => self.onlineEventLock = false
  | _ => True

theorem step_follows {self next : Online Class Decoded} {scene : Scene}
    (shows : Shows loop classes classOf calm self scene) {signal : Signal classOf}
    (quiet : calm = true → self.Quiet signal) {actions : List (Action Class Decoded)}
    (ran : self.step loop classes signal = .ok (next, actions)) :
    Follows loop classes classOf calm scene next actions := by
  have same : Follows loop classes classOf calm scene self [] := ⟨scene, .nil scene, shows⟩
  unfold step at ran
  split at ran
  · cases ran
    exact same
  · rename_i running
    cases signal with
    | event header data => exact shows.event running ran
    | starts transition run time =>
      cases ran
      exact shows.starts running quiet transition run time
    | stops transition run time =>
      cases ran
      exact shows.stops running quiet transition run time
    | asks request =>
      dsimp only at ran
      split at ran
      · rename_i locked
        obtain ⟨⟨container, answers⟩, answered, done⟩ := Except.bind_eq_ok_iff.mp ran
        cases done
        exact shows.asks locked answered
      · cases ran
        exact same
    | returns result =>
      have returned := shows.returns result
      rwa [Except.ok.inj ran] at returned
    | quits =>
      dsimp only at ran
      split at ran
      · cases ran
        exact same
      · rename_i empty
        cases ran
        exact shows.quits (List.isEmpty_iff.mp
          (by simpa using (not_or.mp (mt Bool.or_eq_true_iff.mpr empty)).2))

/-- The event loop when `ProcessMidasOnline` registers its handlers. -/
def registered (loop : RunSettings) (run : ℤ) : Online Class Decoded :=
  ⟨⟨(loop.OpenRootFile run "" none : _ × List (Action Class Decoded)).1, run, .new⟩, false, 0, [],
    false⟩

theorem ProcessMidasOnline_path {run : ℤ} {signals : List (Signal classOf)}
    {final : Online Class Decoded} {actions : List (Action Class Decoded)} (calm : Bool)
    (quiet : Transducer.Along (step loop classes) (fun self signal => calm = true →
      self.Quiet signal) (registered loop run) signals)
    (ran : ProcessMidasOnline loop classes run signals = .ok (final, actions)) :
    Follows loop classes classOf calm ⟨none, none⟩ final actions := by
  obtain ⟨⟨last, later⟩, behind, done⟩ := Except.bind_eq_ok_iff.mp ran
  cases done
  replace behind : Transducer.run (step loop classes) (registered loop run) signals =
    .ok (final, later) := behind
  obtain ⟨path, disabled, valid⟩ :=
    @Shows.OpenRootFile_path _ _ loop classes calm none none (fun _ => rfl) (fun _ => rfl) run ""
  have start : Shows loop classes classOf calm (registered loop run)
      ⟨(loop.OpenRootFile run "" none : _ × List (Action Class Decoded)).1, none⟩ :=
    ⟨rfl, disabled, rfl, rfl, ⟨rfl, rfl⟩, fun _ => List.Pairwise.nil,
      fun quits => absurd quits Bool.false_ne_true⟩
  obtain ⟨scene, rest, shows⟩ := Transducer.run_path
    (fun {t s e t' out} (shows : Shows loop classes classOf calm t s) (quiet : calm = true → t.Quiet e) ran =>
      step_follows shows quiet ran) start quiet behind
  exact ⟨scene, path.append (.cons (.BeginRun 0 run 0 (fun _ => rfl) valid) rest), shows⟩

/-- Every run is one of scenes: the user's code gets one event at a time, with answers that are
decoded from it; no event and, with ROOT output, no run begins without an open file; files are
opened and closed in turn, and in the end none is open. -/
theorem ProcessMidasOnline_scenes {run : ℤ} {signals : List (Signal classOf)}
    {final : Online Class Decoded} {actions : List (Action Class Decoded)}
    (ran : ProcessMidasOnline loop classes run signals = .ok (final, actions)) :
    ∃ scene, LabelledPath (Scene.Next classes (!loop.fDisableRootOutput) false)
      ⟨none, none⟩ actions scene ∧
      scene.file = final.fOutputFile ∧ scene.event.isSome = final.onlineEventLock ∧
      (final.quitting = true → final.frames = [] → scene = ⟨none, none⟩) := by
  obtain ⟨scene, path, shows⟩ :=
    ProcessMidasOnline_path false (fun _ _ _ _ _ _ _ calm => absurd calm Bool.false_ne_true) ran
  refine ⟨scene, path, shows.file.symm, shows.lock.symm, fun quits ended => ?_⟩
  have frames := shows.frames
  rw [ended] at frames
  obtain ⟨-, closed⟩ | last := shows.last quits
  · obtain ⟨file, event⟩ := scene
    obtain rfl : file = none := closed
    obtain rfl : event = none := Option.toList_eq_nil_iff.mp frames.symm
    rfl
  · rw [ended] at last
    cases last

/-- The file that is open after some actions. -/
def fileAfter (actions : List (Action Class Decoded)) : Option String :=
  actions.foldl (fun file action =>
    match action with
    | .opened filename => some filename
    | .closed _ => none
    | _ => file) none

theorem fileAfter_concat (actions : List (Action Class Decoded)) (action : Action Class Decoded) :
    fileAfter (actions ++ [action]) =
      match action with
      | .opened filename => some filename
      | .closed _ => none
      | _ => fileAfter actions := by
  rw [fileAfter, List.foldl_append]
  cases action <;> rfl

theorem file_of_path {output : Bool} {actions : List (Action Class Decoded)} {scene : Scene}
    (path : LabelledPath (Scene.Next classes output calm) ⟨none, none⟩ actions scene) :
    scene.file = fileAfter actions := by
  induction actions using List.reverseRecOn generalizing scene with
  | nil =>
    cases path
    rfl
  | append_singleton actions action ih =>
    obtain ⟨middle, before, last⟩ := path.split actions
    have file := ih before
    rw [fileAfter_concat]
    cases last with
    | cons step rest =>
      cases rest
      cases step with
      | opened => rfl
      | closed => rfl
      | BeginRun => exact file
      | EndRun => exact file
      | PreFilter => exact file
      | ProcessMidasEvent => exact file
      | answered => exact file
      | CleanupEvent => exact file

/-- What happens up to the end of an event, when no transition comes. -/
theorem during_path {output : Bool} {event : TMidasEvent} {file : Option String}
    {during : List (Action Class Decoded)} {scene : Scene}
    (path : LabelledPath (Scene.Next classes output true) ⟨file, some event⟩ during scene)
    (goesOn : .CleanupEvent ∉ during) :
    scene = ⟨file, some event⟩ ∧ ∀ action ∈ during, action = .ProcessMidasEvent event ∨
      ∃ answer, action = .answered answer ∧
        uncached classes event answer.type answer.name = .ok answer.object := by
  induction during with
  | nil =>
    cases path
    exact ⟨rfl, List.forall_mem_nil _⟩
  | cons action during ih =>
    obtain ⟨here, later⟩ := not_or.mp (mt List.mem_cons.mpr goesOn)
    cases path with
    | cons step rest =>
      cases step with
      | opened _ quiet => cases quiet rfl
      | closed _ quiet => cases quiet rfl
      | BeginRun _ _ _ quiet => cases quiet rfl
      | EndRun _ _ _ quiet => cases quiet rfl
      | ProcessMidasEvent =>
        obtain ⟨same, rest⟩ := ih rest later
        exact ⟨same, List.forall_mem_cons.mpr ⟨.inl rfl, rest⟩⟩
      | answered answer _ fetched =>
        obtain ⟨same, rest⟩ := ih rest later
        exact ⟨same, List.forall_mem_cons.mpr ⟨.inr ⟨answer, rfl, fetched⟩, rest⟩⟩
      | CleanupEvent => exact absurd rfl here

/-- When no transition comes while an event is handled, nothing but its own calls and answers
happens between its begin and its end, with ROOT output in one file that stays open. -/
theorem ProcessMidasOnline_calm {run : ℤ} {signals : List (Signal classOf)}
    {final : Online Class Decoded} {actions before during after : List (Action Class Decoded)}
    {event : TMidasEvent}
    (quiet : Transducer.Along (step loop classes) Quiet (registered loop run) signals)
    (ran : ProcessMidasOnline loop classes run signals = .ok (final, actions))
    (handled : actions = before ++ .PreFilter event :: (during ++ .CleanupEvent :: after))
    (goesOn : .CleanupEvent ∉ during) :
    (∀ action ∈ during, action = .ProcessMidasEvent event ∨
      ∃ answer, action = .answered answer ∧
        uncached classes event answer.type answer.name = .ok answer.object) ∧
    (loop.fDisableRootOutput = false →
      ∃ filename, ∀ part, part <+: during →
        fileAfter (before ++ .PreFilter event :: part) = some filename) := by
  obtain ⟨scene, path, -⟩ := ProcessMidasOnline_path true (fun past e rest split middle outs ran _ =>
    quiet past e rest split middle outs ran) ran
  subst handled
  obtain ⟨⟨file, idle⟩, first, path⟩ := path.split before
  cases path with
  | cons begun path =>
    cases begun with
    | PreFilter _ valid =>
      obtain ⟨middle, inside, -⟩ := path.split during
      refine ⟨(during_path inside goesOn).2, fun output => ?_⟩
      obtain ⟨filename, rfl⟩ := Option.isSome_iff_exists.mp (valid (by rw [output]; rfl))
      refine ⟨filename, ?_⟩
      rintro part ⟨rest, rfl⟩
      obtain ⟨now, here, -⟩ := inside.split part
      obtain ⟨rfl, -⟩ := during_path here fun cleaned => goesOn (List.mem_append_left rest cleaned)
      exact (file_of_path (first.append (.cons (.PreFilter event valid) here))).symm

def noBankEvent : TMidasEvent := ⟨⟨0, 0, 7, 0, 8⟩, .strict [0, 0, 0, 0, 0, 0, 0, 0], 0, none⟩

/-- A run stops while `PreFilter` is asked about an event. -/
def stopsInside : List (Signal fun _ : Name => ()) :=
  [.event noBankEvent.fEventHeader noBankEvent.fData.data, .stops 2 12 0, .returns true,
    .returns true, .returns true,
    .quits, .returns true]

/-- The event goes on behind the end of its file. -/
def closedInside : List (Action Unit Unit) :=
  [.opened "output00000012.root", .BeginRun 0 12 0, .PreFilter noBankEvent, .EndRun 2 12 0,
    .closed "output00000012.root", .ProcessMidasEvent noBankEvent, .CleanupEvent, .EndRun 0 12 0]

theorem ProcessMidasOnline_scenes_stopsInside :
    ∃ scene, LabelledPath (Scene.Next RunSettings.noBanks true false) ⟨none, none⟩ closedInside scene ∧
      scene = ⟨none, none⟩ := by
  have ran : ∃ final, ProcessMidasOnline RunSettings.byDefault RunSettings.noBanks 12 stopsInside =
      .ok (final, closedInside) ∧ final.quitting = true ∧ final.frames = [] := ⟨_, rfl, rfl, rfl⟩
  obtain ⟨final, ran, quits, ended⟩ := ran
  obtain ⟨scene, path, -, -, last⟩ := ProcessMidasOnline_scenes ran
  exact ⟨scene, path, last quits ended⟩

/-- The event comes, and the run stops behind it. -/
def stopsBehind : List (Signal fun _ : Name => ()) :=
  [.event noBankEvent.fEventHeader noBankEvent.fData.data, .returns true, .returns true,
    .stops 2 12 0, .returns true]

theorem ProcessMidasOnline_calm_stopsBehind :
    ∃ filename, ∀ part, part <+: [.ProcessMidasEvent noBankEvent] →
      fileAfter ([.opened "output00000012.root", .BeginRun 0 12 0] ++ .PreFilter noBankEvent :: part :
        List (Action Unit Unit)) = some filename := by
  have ran : ∃ final, ProcessMidasOnline RunSettings.byDefault RunSettings.noBanks 12 stopsBehind =
      .ok (final,
      [.opened "output00000012.root", .BeginRun 0 12 0] ++ .PreFilter noBankEvent ::
        ([.ProcessMidasEvent noBankEvent] ++ .CleanupEvent ::
          [.EndRun 2 12 0, .closed "output00000012.root"])) :=
    ⟨_, rfl⟩
  obtain ⟨final, ran⟩ := ran
  refine (ProcessMidasOnline_calm ?_ ran rfl (by simp)).2 rfl
  refine .cons trivial fun _ _ stepped => ?_
  cases stepped
  refine .cons trivial fun _ _ stepped => ?_
  cases stepped
  refine .cons trivial fun _ _ stepped => ?_
  cases stepped
  refine .cons rfl fun _ _ stepped => ?_
  cases stepped
  exact .cons trivial fun _ _ _ => .nil _ _

end Online

end PtfConverter.Midas
