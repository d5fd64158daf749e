import Draftboard.Proofs.Replay.Stored
/-!
# What a run reports of its events

Events are published by hooks and by the refresh of timeline rows. A run collects them at its end, when
the bus holds the latest 64 only.
-/

namespace Draftboard

namespace Desk

/-! ## Publishing -/

/-- Events have been published after those of before, and that is all that the bus has seen. -/
def Tells (d d' : Desk) : Prop :=
  ∃ events, d'.bus = { d.bus with published := d.bus.published ++ events }

theorem Tells.of_bus_eq {d d' : Desk} (h : d'.bus = d.bus) : d.Tells d' :=
  ⟨[], by rw [h, List.append_nil]⟩

theorem Tells.trans {first middle last : Desk} (h : first.Tells middle) (h' : middle.Tells last) :
    first.Tells last := by
  obtain ⟨events, hevents⟩ := h
  obtain ⟨later, hlater⟩ := h'
  refine ⟨events ++ later, ?_⟩
  rw [hlater, hevents, List.append_assoc]

theorem tells_publishEvent (d : Desk) (event : DomainEvent) : d.Tells (d.publishEvent event) :=
  ⟨[event], rfl⟩

theorem Change.bus_eq {d d' : Desk} {part : Part} (change : d.Change part d') (silent : part ≠ .events) :
    d'.bus = d.bus := by
  cases change with
  | put x =>
    obtain ⟨more, heq⟩ := exists_putPackage d x
    rw [heq]
  | drop id =>
    obtain ⟨more, heq⟩ := exists_dropPackage d id
    rw [heq]
  | publish => exact absurd rfl silent
  | _ => rfl

theorem Changes.bus_eq {d d' : Desk} {parts : List Part} (changes : d.Changes parts d')
    (silent : .events ∉ parts) : d'.bus = d.bus :=
  changes.lift (R := fun d d' => d'.bus = d.bus) (fun _ => rfl) (fun h h' => h'.trans h)
    fun mem change => change.bus_eq (ne_of_mem_of_not_mem mem silent)

theorem Changes.tells {d d' : Desk} {parts : List Part} (changes : d.Changes parts d') : d.Tells d' :=
  changes.lift (fun _ => .of_bus_eq rfl) .trans fun {d part d'} _ change => by
    by_cases silent : part = .events
    · subst silent
      cases change with
      | publish event => exact tells_publishEvent d event
    · exact .of_bus_eq (change.bus_eq silent)

theorem bus_runHook (d : Desk) (commit : Commit) {hook : Hook} (silent : hook ≠ .publishEvents) :
    (d.runHook commit hook).1.bus = d.bus := by
  cases hook with
  | invalidateActivity => rfl
  | refreshParent =>
    unfold runHook
    dsimp only
    split
    · rfl
    · rename_i parent _
      exact ((Change.drop parent).changes.append (changes_refetch _ parent)).bus_eq (by decide)
  | publishEvents => exact absurd rfl silent
  | probe name fails => rfl
  | custom writes fails =>
    exact (Changes.foldl changes_writeCache (writes commit d.cache.entries) d).bus_eq (by decide)

/-- Nothing is published before the hooks run. -/
theorem exists_settled {d after : Desk} {h : Handle} {commit : Commit}
    (saved : d.save h = (after, .ok commit)) :
    ∃ settled : Desk, settled.bus = d.bus ∧ after = settled.runHooks commit d.hooks := by
  cases ends_of_save saved with
  | @done ready schema payload record server free asked built sent =>
    have hsettled := ((changes_of_asked asked).append (changes_answered ready sent)).append
      (changes_settle (ready.answered server) h ((d.changeset h).commit record))
    exact ⟨_, hsettled.bus_eq (by decide), rfl⟩

end Desk

namespace Replay

theorem Session.tells_runAll {s : Session} (sound : s.desk.Sound) (index : Nat) (steps : List Step) :
    s.desk.Tells (s.runAll index steps).1.desk := (changes_runAll sound index steps).tells

/-! ## Collecting -/

theorem drain_of_published {published : List DomainEvent} :
    (({ published, positions := [0] } : EventBus).drain 0).2 =
      if published.length ≤ 64 then published else [] := by
  have hmissed : ({ published, positions := [0] } : EventBus).missed 0 = 0 ↔ published.length ≤ 64 :=
    EventBus.missed_eq_zero_iff.trans (by simp)
  unfold EventBus.drain
  simp only [List.getElem?_cons_zero]
  by_cases hfew : published.length ≤ 64
  · rw [if_pos (hmissed.2 hfew), if_pos hfew]
    rfl
  · rw [if_neg (mt hmissed.1 hfew), if_neg hfew]

theorem bus_of_run {script : Script} {settings : EditorSettings} {clock : Clock} {session : Session}
    (opened : Session.start script settings clock = .ok session) (steps : List Step) :
    ∃ published, (session.runAll 0 steps).1.desk.bus = { published, positions := [0] } := by
  obtain ⟨events, hevents⟩ := Session.tells_runAll (Session.sound_start opened) 0 steps
  rw [(Session.desk_start opened).2] at hevents
  exact ⟨events, hevents⟩

theorem events_of_run {name : String} {script : Script} {settings : EditorSettings} {clock : Clock}
    {report : Report} (ran : run name script settings clock = .ok report) :
    ∃ session, Session.start script settings clock = .ok session ∧
      let published := (session.runAll 0 script.steps).1.desk.bus.published
      report.events = if published.length ≤ 64 then published else [] := by
  obtain ⟨session, hstart, -, hevents⟩ := exists_session ran
  obtain ⟨published, hbus⟩ := bus_of_run hstart script.steps
  refine ⟨session, hstart, ?_⟩
  dsimp only
  rw [hevents, (Session.desk_start hstart).1, hbus]
  exact drain_of_published

/-- Events are published one after the other, from the first step to the last. A run that has published
64 at most reports them all, in order, and a run that has published more reports none of them. -/
theorem reports_all_or_no_events {name : String} {script : Script} {settings : EditorSettings}
    {clock : Clock} {report : Report} (ran : run name script settings clock = .ok report) :
    ∃ session, Session.start script settings clock = .ok session ∧
      let published := (session.runAll 0 script.steps).1.desk.bus.published
      session.desk.bus.published = [] ∧
      (∀ done rest, script.steps = done ++ rest →
        (session.runAll 0 done).1.desk.bus.published <+: published) ∧
      report.events = if published.length ≤ 64 then published else [] := by
  obtain ⟨session, hstart, hevents⟩ := events_of_run ran
  have hsound := Session.sound_start hstart
  refine ⟨session, hstart, ?_, fun done rest hsplit => ?_, hevents⟩
  · rw [(Session.desk_start hstart).2]
  · obtain ⟨later, hlater⟩ := Session.tells_runAll (Session.sound_runAll hsound 0 done)
      (0 + done.length) rest
    rw [hsplit, Session.runAll_append, hlater]
    exact List.prefix_append _ later

theorem reports_all_or_no_events_child :
    let child : PackageId := { text := "2" }
    let script : Script :=
      { fixtures := family, steps := [.set child Attribute.subject (.text "C"), .save child] }
    ∃ report, run "child" script {} default = .ok report ∧
      report.events = [.updated child, .renamed child "C"] := by
  intro child script
  have starts : (Session.start script {} default).toOption.isSome = true := by decide +kernel
  obtain ⟨report, ran⟩ := exists_report "child" starts
  obtain ⟨session, hstart, -, -, hevents⟩ := reports_all_or_no_events ran
  have hpublished : (Session.start script {} default).toOption.map
      (fun session => (session.runAll 0 script.steps).1.desk.bus.published) =
        some [.updated child, .renamed child "C"] := by decide +kernel
  rw [hstart] at hpublished
  have hsame : (session.runAll 0 script.steps).1.desk.bus.published = _ := Option.some.inj hpublished
  rw [hsame] at hevents
  exact ⟨report, ran, hevents⟩

/-- After 65 saves of a work package, each of which publishes one event, a run reports no event. -/
theorem no_event_of_many_saves :
    let id : PackageId := { text := "1" }
    let script : Script := { fixtures := family, steps := List.replicate 65 (.save id) }
    ∃ report session, run "saves" script {} default = .ok report ∧
      Session.start script {} default = .ok session ∧
      (session.runAll 0 script.steps).1.desk.bus.published = List.replicate 65 (.updated id) ∧
      report.events = [] := by
  intro id script
  have hpublished : (Session.start script {} default).toOption.map
      (fun session => (session.runAll 0 script.steps).1.desk.bus.published) =
        some (List.replicate 65 (.updated id)) := by decide +kernel
  have starts : (Session.start script {} default).toOption.isSome = true := by decide +kernel
  obtain ⟨report, ran⟩ := exists_report "saves" starts
  obtain ⟨session, hstart, hevents⟩ := events_of_run ran
  rw [hstart] at hpublished
  have hsame : (session.runAll 0 script.steps).1.desk.bus.published = _ := Option.some.inj hpublished
  dsimp only at hevents
  rw [hsame] at hevents
  exact ⟨report, session, ran, hstart, hsame, hevents⟩

end Replay

end Draftboard
