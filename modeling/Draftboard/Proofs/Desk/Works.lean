import Draftboard.Proofs.Desk.Chores
import Draftboard.Proofs.Desk.Sessions
/-!
# Work on the desk

A drag on a timeline row and a drop into a group are chores with one save among them at most.
-/

namespace Draftboard

/-! ## Work on the desk -/

/-- Chores, with one save among them if there is a commit. -/
inductive Desk.Works (d : Desk) : Desk → Option Commit → Prop
  | quiet {d' : Desk} (chores : d.Chores d') : Works d d' none
  | saved {ready after d' : Desk} {h : Handle} {commit : Commit} (chores : d.Chores ready)
      (save : ready.save h = (after, .ok commit)) (rest : after.WindsUp d') : Works d d' (some commit)

namespace Desk

variable {d middle d' : Desk} {commit : Option Commit}

theorem Works.chores (works : d.Works d' none) : d.Chores d' := by
  cases works with
  | quiet chores => exact chores

theorem Works.after (works : middle.Works d' commit) (chores : d.Chores middle) :
    d.Works d' commit := by
  cases works with
  | quiet later => exact .quiet (chores.trans later)
  | saved later save rest => exact .saved (chores.trans later) save rest

theorem Works.andThen (works : d.Works middle commit) (chores : middle.Chores d') :
    d.Works d' commit := by
  cases works with
  | quiet earlier => exact .quiet (earlier.trans chores)
  | saved earlier save rest => exact .saved earlier save (rest.trans chores.windsUp)

theorem Works.changes (works : d.Works d' commit) : d.Changes Part.working d' := by
  cases works with
  | quiet chores => exact chores.changes.mono (by decide)
  | @saved ready after _ h _ chores save rest =>
    have hsave := changes_save ready h
    rw [save] at hsave
    exact ((chores.changes.mono (by decide)).trans (hsave.mono (by decide))).trans
      (rest.changes.mono (by decide))

/-! ## Change-sets -/

theorem Sound.cached_of_load (sound : d.Sound) {id : PackageId} {x : Snapshot}
    (loaded : d.load id = (d', .ok x)) : x.id = id ∧ d'.cache.get? x.id = some x := by
  have hanswer : (d.load id).2 = .ok x := congrArg Prod.snd loaded
  have hcached := Desk.cached_of_load sound.reached.wellFormed hanswer
  have hid := (changes_load d id).keepsHouse.keyed sound.filed.keyed id x hcached
  rw [loaded] at hcached
  exact ⟨hid, hid ▸ hcached⟩

theorem chores_changeForId (sound : d.Sound) (id : PackageId) : d.Chores (d.changeForId id).1 := by
  have hload : d.Chores (d.load id).1 := .single (.load d id)
  unfold changeForId
  rcases hl : d.load id with ⟨loaded, error | x⟩ <;> rw [hl] at hload
  · exact hload
  · obtain ⟨-, hcached⟩ := sound.cached_of_load hl
    have hschema := hload.tail (.ensureSchema loaded x.typeHref)
    obtain ⟨server, schemas, hready, -⟩ := exists_ensureSchema loaded x.typeHref
    dsimp only
    rcases hs : loaded.ensureSchema x.typeHref with ⟨ready, error | schema⟩ <;> rw [hs] at hschema hready
    · exact hschema
    · dsimp only at hready
      refine hschema.tail (.changeFor (Or.inr ?_) none)
      rw [hready]
      exact hcached

end Desk

/-! ## Rows -/

namespace Row

open Timeline

variable {d : Desk}

theorem chores_preview (r : Row) (d : Desk) (direction : Direction) (days : Int) (day : Date) :
    d.Chores (r.preview d direction days day) :=
  .single (.edit (Changeset.pristine_setValues _ _))

theorem works_save (r : Row) (d : Desk) : d.Works (r.save d).1 (r.save d).2.commit? := by
  have hclock : d.Chores d.readClock.1 := .single (.readClock d)
  unfold save
  rcases hs : d.readClock.1.save r.handle with ⟨after, error | commit⟩ <;> simp only [hs]
  · exact .quiet ((hclock.tail (.failedSave hs)).tail (.notify after _))
  · refine .saved hclock hs ?_
    split
    · exact (Relation.ReflTransGen.single (.chore (.notify after _))).tail (.refresh _ r commit _)
    · exact .single (.refresh after r commit _)

theorem works_land {before : Desk} (r : Row) {commit : Option Commit} (works : before.Works d commit)
    (outcome : Outcome) : before.Works (r.land d outcome).1 commit :=
  works.andThen (.single (.reset d r.handle))

def RowStep.commit? (step : RowStep) : Option Commit := step.2.2.bind Outcome.commit?

theorem works_deactivate (r : Row) (d : Desk) (cancelled : Bool) :
    d.Works (r.deactivate d cancelled).1 (RowStep.commit? (r.deactivate d cancelled)) := by
  rw [deactivate_eq]
  split
  · exact works_land r (.quiet .refl) _
  · split
    · exact works_land r (.quiet .refl) _
    · exact works_land r (works_save r d) _

theorem works_apply (r : Row) (d : Desk) (intent : Intent) :
    d.Works (r.apply d intent).1 (RowStep.commit? (r.apply d intent)) := by
  cases intent with
  | preview direction days day => exact .quiet (chores_preview r d direction days day)
  | commit => exact works_deactivate r d false
  | cancel => exact works_deactivate r d true

/-- The intents of one event: none, one, or a preview before one. -/
inductive Few : List Intent → Prop
  | none : Few []
  | one (intent : Intent) : Few [intent]
  | shown (direction : Direction) (days : Int) (day : Date) (intent : Intent) :
      Few [.preview direction days day, intent]

theorem few_toList (intent : Option Intent) : Few intent.toList := by
  cases intent with
  | none => exact .none
  | some intent => exact .one intent

theorem few_pointerDown (selecting isLeaf : Bool) (direction : Direction) (cell : Cell) (s : DragState) :
    Few (DragState.pointerDown selecting isLeaf direction cell s).2 := by
  unfold DragState.pointerDown
  split
  · cases direction with
    | create => exact .shown ..
    | dragRight => exact .one _
    | left | right | both => exact .none
  · exact .none

/-- An event comes to a few intents. They are applied on the desk as it is, or, after a press that goes
on, with a change-set to edit. -/
theorem exists_applyAll_on (r : Row) (d : Desk) (event : Event) :
    ∃ (acting : Row) (begun : Desk) (intents : List Intent),
      r.on d event = acting.applyAll begun intents ∧ Few intents ∧ acting.rendered = r.rendered ∧
      (begun = d ∨ begun = (d.changeFor (r.refreshed d).workPackage none).1) := by
  cases event with
  | press direction cell =>
    have hfew := few_pointerDown (r.refreshed d).view.selecting (r.refreshed d).workPackage.isLeaf
      direction cell (r.refreshed d).drag
    unfold on pressCell
    dsimp only
    split
    · exact ⟨_, _, _, rfl, hfew, rfl, Or.inl rfl⟩
    · exact ⟨_, _, _, rfl, hfew, rfl, Or.inr rfl⟩
  | move | release | escape | leave => exact ⟨_, _, _, rfl, few_toList _, rfl, Or.inl rfl⟩

theorem works_applyAll (r : Row) (d : Desk) {intents : List Intent} (few : Few intents) :
    d.Works (r.applyAll d intents).1 (RowStep.commit? (r.applyAll d intents)) := by
  cases few with
  | none => exact .quiet .refl
  | one intent => exact works_apply r d intent
  | shown direction days day intent =>
    exact (works_apply r (r.preview d direction days day) intent).after
      (chores_preview r d direction days day)

theorem works_pressCell {r : Row} (cached : d.cache.get? r.workPackage.id = some r.workPackage)
    (direction : Direction) (cell : Cell) :
    d.Works (r.pressCell d direction cell).1 (RowStep.commit? (r.pressCell d direction cell)) := by
  have hrow : (r.refreshed d).workPackage = r.workPackage := by
    rw [refreshed, cached]
    rfl
  have hfew := few_pointerDown (r.refreshed d).view.selecting (r.refreshed d).workPackage.isLeaf
    direction cell (r.refreshed d).drag
  unfold pressCell
  dsimp only
  split
  · exact works_applyAll _ d hfew
  · refine (works_applyAll _ _ hfew).after (.single (.changeFor (Or.inr ?_) none))
    rw [hrow]
    exact cached

theorem chores_moveToCell (r : Row) (d : Desk) (cell : Cell) : d.Chores (r.moveToCell d cell).1 := by
  unfold moveToCell DragState.pointerMove
  cases r.drag.press? with
  | none => exact .refl
  | some press => exact chores_preview _ d _ _ _

theorem works_letGo (r : Row) (d : Desk) (escape : Bool) :
    d.Works (if escape then r.escape d else r.pointerUp d).1
      (RowStep.commit? (if escape then r.escape d else r.pointerUp d)) := by
  cases escape with
  | true => exact works_applyAll _ d (few_toList _)
  | false => exact works_applyAll _ d (few_toList _)

end Row

/-! ## Groups -/

theorem Grouping.works_drop (g : Grouping) {d : Desk} {x : Snapshot}
    (cached : d.cache.get? x.id = some x) (identifier : String) :
    d.Works (g.drop d x identifier).1 (g.drop d x identifier).2 := by
  unfold drop
  split
  · exact .quiet .refl
  · rename_i name _
    have hstart : d.Chores (d.changeFor x none).1 := .single (.changeFor (Or.inr cached) none)
    have hedit : d.Chores ((d.changeFor x none).1.setValue (d.changeFor x none).2 name
        (g.valueFor identifier)) := hstart.tail (.edit (Changeset.pristine_setValue ..))
    dsimp only
    rcases hs : Desk.save _ (d.changeFor x none).2 with ⟨after, error | commit⟩
    · exact .quiet ((hedit.tail (.failedSave hs)).tail (.notify after _))
    · exact .saved hedit hs .refl

end Draftboard
