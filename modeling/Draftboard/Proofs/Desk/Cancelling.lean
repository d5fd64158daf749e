import Draftboard.Proofs.Desk.Previews
import Draftboard.Proofs.Desk.Drags
/-!
# Cancelled drags

A drag on a work package without edits registers a change-set, and its previews are pushed to the views.
When the drag is cancelled, the change-set is registered no longer and the views show again what they
showed before.
-/

namespace Draftboard

/-! ## Pushes to the views of one work package -/

theorem lastPushed_map_view (n : Nat) (shown value : Option Snapshot) (numbers : List Nat) :
    lastPushed n shown (numbers.map fun m => .view m value) = if n ∈ numbers then value else shown := by
  induction numbers generalizing shown with
  | nil => rfl
  | cons m rest ih =>
    refine (ih (if m = n then value else shown)).trans ?_
    by_cases heq : n = m
    · simp [heq]
    · simp [heq, Ne.symm heq]

def ToViews (numbers : List Nat) (pushed : List Delivery) : Prop :=
  ∀ x ∈ pushed, ∃ n ∈ numbers, ∃ value, x = .view n value

theorem toViews_map (numbers : List Nat) (value : Option Snapshot) :
    ToViews numbers (numbers.map fun n => .view n value) := by
  intro x hx
  obtain ⟨n, hn, rfl⟩ := List.mem_map.1 hx
  exact ⟨n, hn, value, rfl⟩

theorem ToViews.append {numbers : List Nat} {pushed more : List Delivery} (h : ToViews numbers pushed)
    (h' : ToViews numbers more) : ToViews numbers (pushed ++ more) := by
  intro x hx
  rcases List.mem_append.1 hx with hx | hx
  · exact h x hx
  · exact h' x hx

theorem ToViews.lastPushed_append_map {numbers : List Nat} {pushed : List Delivery}
    (h : ToViews numbers pushed) (value : Option Snapshot) (n : Nat) :
    lastPushed n value (pushed ++ numbers.map fun m => .view m value) = value := by
  rw [lastPushed_append, lastPushed_map_view]
  split
  · rfl
  · rename_i hn
    refine lastPushed_of_silent (fun other hmem => ?_) value
    obtain ⟨m, hm, _, heq⟩ := h _ hmem
    rw [(Delivery.view.inj heq).1] at hn
    exact hn hm

namespace Desk

/-! ## What edits and their end push -/

theorem deliveries_setValues (d : Desk) (h : Handle) (writes : List (String × AttrValue)) :
    (d.setValues h writes).deliveries = d.deliveries ++
      if d.isReported h && !(d.changeset h).changes.same ((d.changeset h).setValues writes).changes then
        (d.views.subscriptionsOf (d.changeset h).id).map
          fun n => .view n ((d.setValues h writes).merged? (d.changeset h).id)
      else [] := by
  have hid : ((d.changeset h).setValues writes).id = (d.changeset h).id :=
    congrArg Snapshot.id (Changeset.pristine_setValues _ writes)
  simp only [setValues, edit, isReported_modifyQuietly]
  split
  · rw [hid]
    rfl
  · exact (List.append_nil _).symm

theorem deliveries_reset {d : Desk} {h : Handle} {id : PackageId} (mine : (d.changeset h).id = id)
    (registered : d.registered? id = some h) :
    (d.reset h).deliveries = d.deliveries ++
      if (d.changeset h).isEmpty then []
      else (d.views.subscriptionsOf id).map fun n => .view n (d.cache.get? id) := by
  have hsame : (d.modifyQuietly h Changeset.clear).registered? = d.registered? := rfl
  unfold reset
  dsimp only
  rw [hsame, mine, if_pos registered]
  split
  · exact (List.append_nil _).symm
  · have hgone : ({ d.modifyQuietly h Changeset.clear with
        registry := (d.modifyQuietly h Changeset.clear).registry.erase id } : Desk).merged? id =
        d.cache.get? id := merged?_of_unregistered Std.ExtTreeMap.getElem?_erase_self
    rw [pushViews, hgone]
    rfl

/-! ## A change-set that previews are written into -/

/-- Only this change-set has changed since an earlier desk, on which there were no edits of its work
package. It is registered, and when it is empty the views show what they showed there. -/
structure Previewing (before : Desk) (id : PackageId) (h : Handle) (d : Desk) : Prop where
  only : before.OnlyDrafts d
  filed : d.Filed
  registered : d.registered? id = some h
  elsewhere : ∀ other, id ≠ other → d.registered? other = before.registered? other
  unedited : before.drafts[h]?.isSome = true → (before.changeset h).isEmpty = true
  others : ∀ k : Handle, before.drafts[k]?.isSome = true → h ≠ k → d.changeset k = before.changeset k
  shows : ∃ pushed, d.deliveries = before.deliveries ++ pushed ∧
    ToViews (before.views.subscriptionsOf id) pushed ∧ (d.isReported h = false → pushed = []) ∧
    ((d.changeset h).isEmpty = true →
      ∀ n, lastPushed n (before.cache.get? id) pushed = before.cache.get? id)

theorem isEmpty_of_unedited {d : Desk} {id : PackageId} {h : Handle}
    (unedited : d.pendingEdits? id = none) (registered : d.registered? id = some h) :
    (d.changeset h).isEmpty = true := by
  simpa [pendingEdits?, registered] using unedited

theorem merged?_of_unedited {d : Desk} {id : PackageId} (unedited : d.pendingEdits? id = none) :
    d.merged? id = d.cache.get? id := by
  rw [merged?, unedited]

theorem previewing_changeFor {d : Desk} (filed : d.Filed) (numbered : d.Numbered) {x : Snapshot}
    (unedited : d.pendingEdits? x.id = none) :
    Previewing d x.id (d.changeFor x none).2 (d.changeFor x none).1 := by
  have honly := (changes_changeFor d x none).onlyDrafts (by decide)
  have hfiled := ((changes_changeFor d x none).keepsOrder numbered).filed filed
  have hgives := gives_changeFor filed.keyed x none
  generalize d.changeFor x none = given at honly hfiled hgives
  cases hgives with
  | @registered h registered current =>
    exact
      { only := honly
        filed := filed
        registered := registered
        elsewhere := fun _ _ => rfl
        unedited := fun _ => isEmpty_of_unedited unedited registered
        others := fun _ _ _ => rfl
        shows := ⟨[], (List.append_nil _).symm, by simp [ToViews], fun _ => rfl, fun _ _ => rfl⟩ }
  | new outdated =>
    have hid := filed.keyed.id_latest x
    refine ⟨honly, hfiled, ?_, fun other hne => ?_, fun known => ?_, fun k known hne => ?_, ?_⟩
    · exact (registered?_startEditing d _ none x.id).trans (if_pos hid)
    · exact (registered?_startEditing d _ none other).trans (if_neg (by rwa [hid]))
    · exact absurd (numbered known) (Nat.not_succ_le_self _)
    · exact changeset_newDraft_of_known numbered _ known
    · exact ⟨[], (List.append_nil _).symm, by simp [ToViews], fun _ => rfl, fun _ _ => rfl⟩

/-- A preview is pushed if it makes a difference, and where it empties the change-set the views are pushed
what is cached. -/
theorem Previewing.preview {before d : Desk} {id : PackageId} {h : Handle}
    (previewing : Previewing before id h d) (writes : List (String × AttrValue)) :
    Previewing before id h (d.setValues h writes) := by
  have hregistry := registry_setValues d h writes
  have hwrite := changes_setValues d h writes
  have honly := previewing.only.trans (hwrite.onlyDrafts (by decide))
  have hregistered : (d.setValues h writes).registered? id = some h :=
    (congrArg (·[id]?) hregistry).trans previewing.registered
  have hmine : (d.changeset h).id = id := previewing.filed.id_eq previewing.registered
  refine
    { only := honly
      filed := (hwrite.keepsOrder_of_undrafted (by decide) (by decide)).filed previewing.filed
      registered := hregistered
      elsewhere := fun other hne => ?_
      unedited := previewing.unedited
      others := fun k known hne => ?_
      shows := ?_ }
  · rw [← previewing.elsewhere other hne]
    exact congrArg (·[other]?) hregistry
  · rw [← previewing.others k known hne, changeset, drafts_setValues]
    exact changeset_modifyQuietly_of_ne d _ hne
  obtain ⟨pushed, hpushed, hto, hquiet, hcalm⟩ := previewing.shows
  have hdeliveries := deliveries_setValues d h writes
  rw [hmine, previewing.only.views] at hdeliveries
  have hreported : (d.setValues h writes).isReported h = d.isReported h := by
    rw [isReported, drafts_setValues]
    exact isReported_modifyQuietly d h h _
  by_cases htold : d.isReported h = true ∧
      (d.changeset h).changes.same ((d.changeset h).setValues writes).changes = false
  · rw [if_pos (by simp [htold])] at hdeliveries
    have hmore := toViews_map (before.views.subscriptionsOf id) ((d.setValues h writes).merged? id)
    refine ⟨_, ?_, hto.append hmore, ?_, fun empty => ?_⟩
    · rw [hdeliveries, hpushed, List.append_assoc]
    · rw [hreported, htold.1]
      exact fun hfalse => by cases hfalse
    · rw [merged?_of_registered hregistered, if_pos empty, honly.cache]
      exact hto.lastPushed_append_map _
  · rw [if_neg (by simpa using htold), List.append_nil] at hdeliveries
    refine ⟨pushed, hdeliveries.trans hpushed, hto, hreported ▸ hquiet, fun empty => ?_⟩
    cases hr : d.isReported h with
    | false =>
      rw [hquiet hr]
      exact fun n => rfl
    | true =>
      -- Nothing was pushed, so the edit made no difference.
      have hsame : (d.changeset h).changes.same ((d.changeset h).setValues writes).changes = true := by
        simpa [hr] using htold
      rw [changeset_setValues, if_pos (isSome_of_isReported hr)] at empty
      exact hcalm ((Attributes.isEmpty_eq_of_same hsame).trans empty)

/-- Nothing is left of the edits of one work package that had none before. -/
structure Undone (before : Desk) (id : PackageId) (d : Desk) : Prop where
  server : d.server = before.server
  cache : d.cache = before.cache
  notices : d.notices = before.notices
  bus : d.bus = before.bus
  registered : ∀ other, d.registered? other = if id = other then none else before.registered? other
  changesets : ∀ k : Handle, before.drafts[k]?.isSome = true →
    (d.changeset k).changes = (before.changeset k).changes
  shows : ∃ pushed, d.deliveries = before.deliveries ++ pushed ∧
    ToViews (before.views.subscriptionsOf id) pushed ∧
    ∀ n, lastPushed n (before.merged? id) pushed = before.merged? id

theorem Previewing.undone {before d : Desk} {id : PackageId} {h : Handle}
    (previewing : Previewing before id h d) (unedited : before.pendingEdits? id = none) :
    Undone before id (d.reset h) := by
  have honly := previewing.only.trans ((changes_reset d h).onlyDrafts (by decide))
  have hmine : (d.changeset h).id = id := previewing.filed.id_eq previewing.registered
  have hknown : d.drafts[h]?.isSome = true := previewing.filed.known previewing.registered
  refine
    { server := honly.server
      cache := honly.cache
      notices := honly.notices
      bus := honly.bus
      registered := fun other => ?_
      changesets := fun k known => ?_
      shows := ?_ }
  · rw [registered?, registry_reset, hmine, if_pos previewing.registered]
    by_cases heq : id = other
    · rw [if_pos heq, heq]
      exact Std.ExtTreeMap.getElem?_erase_self
    · rw [if_neg heq, ← previewing.elsewhere other heq]
      simp [Std.ExtTreeMap.getElem?_erase, heq, registered?]
  · by_cases heq : h = k
    · subst heq
      rw [changeset_reset hknown, Std.ExtTreeMap.isEmpty_iff.1 (previewing.unedited known)]
      rfl
    · rw [changeset_reset_of_ne d heq, previewing.others k known heq]
  -- Without edits the last preview has left the views right; with edits the reset pushes the entry.
  · obtain ⟨pushed, hpushed, hto, -, hcalm⟩ := previewing.shows
    have hdeliveries := deliveries_reset hmine previewing.registered
    rw [merged?_of_unedited unedited]
    cases hempty : (d.changeset h).isEmpty with
    | true =>
      rw [hempty, if_pos rfl, List.append_nil] at hdeliveries
      exact ⟨pushed, hdeliveries.trans hpushed, hto, hcalm hempty⟩
    | false =>
      rw [hempty, if_neg (by simp), previewing.only.views, previewing.only.cache] at hdeliveries
      refine ⟨_, ?_, hto.append (toViews_map _ (before.cache.get? id)), hto.lastPushed_append_map _⟩
      rw [hdeliveries, hpushed, List.append_assoc]

end Desk

namespace Row

open Timeline

variable {r : Row} {d : Desk} {direction : Direction} {startDay : Int}

/-- What cancels a drag in some direction. -/
def Event.Cancels (direction : Direction) : Event → Prop
  | .escape => True
  | .leave => direction.createsDates = true
  | .press .. | .move _ | .release => False

theorem on_of_cancels (press : r.drag.press? = some (direction, startDay)) {ending : Event}
    (cancels : ending.Cancels direction) (d : Desk) :
    r.on d ending = ({ r with drag := .cancelled } : Row).land d .cancelled := by
  have hactive : r.drag.isActive = true := congrArg Option.isSome press
  cases ending with
  | press | move | release => exact cancels.elim
  | escape =>
    simp only [on, escape, DragState.escape, hactive, if_true]
    rfl
  | leave =>
    have hcreates : direction.createsDates = true := cancels
    simp only [on, pointerLeave, DragState.pointerLeave, press, hcreates, if_true]
    rfl

theorem previewing_moveAll (filed : d.Filed) (numbered : d.Numbered)
    (unedited : d.pendingEdits? r.workPackage.id = none) (accepts : r.Accepts d direction)
    (bar : direction ≠ .create) (cell : Cell) (moves : List Cell) :
    let step := r.pressCell d direction cell
    d.Previewing r.workPackage.id step.2.1.handle (step.2.1.moveAll step.1 moves).1 := by
  intro step
  have hpressed : step = _ := pressCell_of_accepts accepts bar cell
  have hid := id_refreshed filed r
  rw [← hid] at unedited
  have htaken := Desk.previewing_changeFor filed numbered unedited
  have hstep : d.Previewing r.workPackage.id step.2.1.handle step.1 := by
    rw [hpressed, ← hid]
    dsimp only
    split
    · exact htaken.preview _
    · exact htaken
  exact moveAll_keeps (by rw [hpressed]; rfl) (fun _ writes h => h.preview writes) moves hstep

theorem undone_of_cancels (filed : d.Filed) (numbered : d.Numbered)
    (unedited : d.pendingEdits? r.workPackage.id = none) (accepts : r.Accepts d direction)
    (bar : direction ≠ .create) (cell : Cell) (moves : List Cell) {ending : Event}
    (cancels : ending.Cancels direction) :
    let step := r.pressCell d direction cell
    let moved := step.2.1.moveAll step.1 moves
    let ended := moved.2.1.on moved.1 ending
    ended.2.2 = some .cancelled ∧ ended.2.1.drag = .idle ∧ ended.2.1.displayed ended.1 = r.displayed d ∧
      d.Undone r.workPackage.id ended.1 := by
  intro step moved ended
  have hrow : step.2.1 = r.pressed d direction cell :=
    congrArg (·.2.1) (pressCell_of_accepts accepts bar cell)
  have hpress : step.2.1.drag.press? = some (direction, cell.day) := by rw [hrow]; rfl
  have hmoved : Moves direction cell.day step.2.1 moved.2.1 := moves_moveAll hpress step.1 moves
  have hended : ended = ({ moved.2.1 with drag := .cancelled } : Row).land moved.1 .cancelled :=
    on_of_cancels hmoved.press cancels moved.1
  have hpreviewing : d.Previewing r.workPackage.id step.2.1.handle moved.1 :=
    previewing_moveAll filed numbered unedited accepts bar cell moves
  have hundone : d.Undone r.workPackage.id ended.1 := by
    have hreset := hpreviewing.undone unedited
    rw [← hmoved.handle] at hreset
    rw [hended]
    exact hreset
  -- The row at the end is the one that the press took from the cache, with nothing of the moves in it.
  have hid := id_refreshed filed r
  have hkept : moved.2.1.workPackage = (r.refreshed d).workPackage := by
    rw [hmoved.row, hrow]
    rfl
  have hlast : ended.2.1.workPackage = (r.refreshed d).workPackage := by
    have hrefreshed : ended.2.1.workPackage =
        (ended.1.cache.get? moved.2.1.workPackage.id).getD moved.2.1.workPackage := by
      rw [hended]
      rfl
    rw [hrefreshed, hundone.cache, hkept, hid, refreshed]
    cases d.cache.get? r.workPackage.id <;> rfl
  refine ⟨congrArg (·.2.2) hended, congrArg (·.2.1.drag) hended, ?_, hundone⟩
  have hgone : ended.1.registered? r.workPackage.id = none :=
    (hundone.registered _).trans (if_pos rfl)
  rw [displayed, hlast, hid, Desk.merged?_of_unregistered hgone, hundone.cache, displayed,
    Desk.merged?_of_unedited unedited, refreshed]
  cases d.cache.get? r.workPackage.id <;> rfl

/-- Whatever has come of a desk, a drag on a work package without edits there that is cancelled leaves
nothing. No request is sent, nobody is notified, and the cache is as it was. The change-set is not
registered any longer, and the row and the views show what they showed before. -/
theorem cancelled_drag_leaves_nothing {start : Desk} (opens : BusyDesk.Opens start)
    (events : List BusyDesk.Event)
    (unedited : (BusyDesk.course start events).desk.pendingEdits? r.workPackage.id = none)
    (accepts : r.Accepts (BusyDesk.course start events).desk direction) (bar : direction ≠ .create)
    (cell : Cell) (moves : List Cell) (ending : Event) (cancels : ending.Cancels direction) :
    let before := (BusyDesk.course start events).desk
    let step := r.pressCell before direction cell
    let moved := step.2.1.moveAll step.1 moves
    let ended := moved.2.1.on moved.1 ending
    ended.2.2 = some .cancelled ∧ ended.2.1.drag = .idle ∧
      ended.2.1.displayed ended.1 = r.displayed before ∧
      before.Undone r.workPackage.id ended.1 := by
  have horder := opens.orderly_course events
  exact undone_of_cancels horder.filed horder.disciplined.numbered unedited accepts bar cell moves cancels

theorem cancelled_drag_leaves_nothing_watched :
    let x : Snapshot :=
      { id := { text := "7" }, lockVersion := 3, typeHref := "task"
        attributes := (∅ : Attributes).insert Attribute.startDate (.date .epoch) }
    let r : Row := { view := { pixelsPerDay := 10.0, start := .epoch }, workPackage := x, handle := 1 }
    let events : List BusyDesk.Event :=
      [.move (.act (.put x) trivial), .move (.act (.detached { pristine := x }) rfl),
        .move (.act (.subscribe x.id) trivial)]
    let before := (BusyDesk.course BusyDesk.quietDesk events).desk
    let step := r.pressCell before .both (Cell.at .epoch 3)
    let moved := step.2.1.moveAll step.1 [Cell.at .epoch 5, Cell.at .epoch 3, Cell.at .epoch 4]
    let ended := moved.2.1.on moved.1 .escape
    moved.2.1.displayed moved.1 ≠ x ∧ ended.2.1.displayed ended.1 = x ∧
      ∃ pushed, ended.1.deliveries = before.deliveries ++ pushed ∧ pushed.length = 4 ∧
        lastPushed 1 (some x) pushed = some x := by
  intro x r events before
  have accepts : r.Accepts before .both := ⟨rfl, by decide +kernel⟩
  have hbefore : before.pendingEdits? x.id = none ∧ before.merged? x.id = some x ∧
      r.displayed before = x ∧ before.deliveries.length = 0 := by
    decide +kernel
  obtain ⟨hunedited, hmerged, hshown, hquiet⟩ := hbefore
  have hends := cancelled_drag_leaves_nothing BusyDesk.opens_quietDesk events hunedited accepts
    (by decide) (Cell.at .epoch 3) [Cell.at .epoch 5, Cell.at .epoch 3, Cell.at .epoch 4] .escape trivial
  rw [show (BusyDesk.course BusyDesk.quietDesk events).desk = before from rfl] at hends
  obtain ⟨-, -, hdisplayed, hundone⟩ := hends
  obtain ⟨pushed, hpushed, -, hlast⟩ := hundone.shows
  have hcount := congrArg List.length hpushed
  rw [List.length_append, hquiet, Nat.zero_add] at hcount
  have hone := hlast 1
  rw [show before.merged? r.workPackage.id = some x from hmerged] at hone
  refine ⟨by decide +kernel, hdisplayed.trans hshown, pushed, hpushed, ?_, hone⟩
  exact hcount.symm.trans (by decide +kernel)

end Row

end Draftboard
