import Draftboard.Proofs.Desk.Tallies
import Draftboard.Proofs.Desk.RowsInStep
import Draftboard.Proofs.Desk.Chores
import Draftboard.Proofs.Desk.Commits
import Draftboard.Proofs.Desk.Registry
import Draftboard.Proofs.Timeline.Protocol
/-!
# How drags on a row end

A drag that ends has one outcome, and what was sent and told goes by it. The change-set of a row at
rest is empty and registered nowhere.
-/

namespace Draftboard

namespace Desk

/-! ## A change-set with its place -/

structure Placed (d : Desk) (h : Handle) : Prop where
  filed : d.Filed
  numbered : d.Numbered
  known : d.drafts[h]?.isSome = true

theorem Changes.placed {d d' : Desk} {parts : List Part} (changes : d.Changes parts d') {h : Handle}
    (placed : d.Placed h) : d'.Placed h where
  filed := (changes.keepsOrder placed.numbered).filed placed.filed
  numbered := changes.numbered placed.numbered
  known := changes.known placed.known

theorem placed_newDraft {d : Desk} (filed : d.Filed) (numbered : d.Numbered) (draft : Draft) :
    (d.newDraft draft).1.Placed (d.newDraft draft).2 where
  filed := (keepsOrder_newDraft numbered draft).filed filed
  numbered := (changes_newDraft d draft).numbered numbered
  known := by simp [newDraft]

theorem placed_changeFor {d : Desk} (filed : d.Filed) (numbered : d.Numbered) (x : Snapshot)
    (form : Option Form) : (d.changeFor x form).1.Placed (d.changeFor x form).2 where
  filed := ((d.changes_changeFor x form).keepsOrder numbered).filed filed
  numbered := (d.changes_changeFor x form).numbered numbered
  known := known_changeFor filed x form

/-! ## What others leave alone -/

/-- The change-set is as it was, and it is registered nowhere that it was not. -/
structure Spares (d : Desk) (h : Handle) (d' : Desk) : Prop where
  placed : d'.Placed h
  changeset : (d'.changeset h).changes = (d.changeset h).changes
  registered : ∀ {id : PackageId}, d'.registered? id = some h → d.registered? id = some h

theorem Spares.trans {first middle last : Desk} {h : Handle} (spares : first.Spares h middle)
    (later : middle.Spares h last) : first.Spares h last :=
  ⟨later.placed, later.changeset.trans spares.changeset, fun hr => spares.registered (later.registered hr)⟩

def Action.Spares (d : Desk) (h : Handle) : Action → Prop
  | .setValue k .. | .modify k _ | .reset k | .save k _ => k ≠ h
  | .stopEditing id => d.registered? id ≠ some h
  | .put _ | .putAll _ | .invalidate _ | .load _ | .changeFor .. | .changeForId _ | .detached _
  | .subscribe _ | .unsubscribe .. | .elsewhere _ => True

theorem SaveEnds.changeset_of_ne {d after : Desk} {h k : Handle} {result : Except EditError Commit}
    (ends : SaveEnds d k after result) (hne : k ≠ h) : after.changeset h = d.changeset h := by
  have hflag : ∀ (d : Desk) (inFlight : Bool), (d.setInFlight k inFlight).changeset h = d.changeset h :=
    fun d inFlight => changeset_modifyQuietly_of_ne d _ hne
  have hasked : ∀ {typeHref : String} {ready : Desk} {answer : Except ApiError Schema},
      (d.setInFlight k true).ensureSchema typeHref = (ready, answer) →
      ready.changeset h = d.changeset h := by
    intro typeHref ready answer asked
    have hschema := ((changes_ensureSchema (d.setInFlight k true) typeHref).bystands (by decide)).changeset h
    rw [asked] at hschema
    exact hschema.trans (hflag d true)
  cases ends with
  | busy => rfl
  | noSchema _ asked => exact (hflag _ false).trans (hasked asked)
  | invalid _ asked => exact (hflag _ false).trans (hasked asked)
  | refused _ asked =>
    have hready := hasked asked
    exact (hflag _ false).trans hready
  | done _ asked =>
    have hready := hasked asked
    exact (((changes_runHooks ..).bystands (by decide)).changeset h).trans
      ((changeset_settle_of_ne _ _ _ hne).trans hready)

section Others

variable {d d' : Desk} {h k : Handle} (placed : d.Placed h)
include placed

theorem Placed.spares_bystands (bystands : d.Bystands d') : d.Spares h d' where
  placed :=
    { filed := bystands.keepsOrder.filed placed.filed
      numbered := (bystands.keepsFlags placed.numbered).numbered
      known := (bystands.keepsDrafts.isSome h).trans placed.known }
  changeset := by rw [bystands.changeset]
  registered hr := bystands.keepsDrafts.registry hr

theorem Change.spares {part : Part} (change : d.Change part d') (unwritten : part ≠ .edits)
    (unfiled : part ≠ .filed) : d.Spares h d' := by
  have hplaced := change.changes.placed placed
  by_cases bystanding : part ∈ Part.bystanding
  · exact placed.spares_bystands (change.bystands bystanding)
  · cases change with
    | flag k inFlight =>
      refine ⟨hplaced, ?_, id⟩
      by_cases hne : k = h
      · subst hne
        obtain ⟨_, hc⟩ := d.exists_changeset_setInFlight k inFlight
        rw [hc]
      · exact congrArg Changeset.changes (changeset_modifyQuietly_of_ne d _ hne)
    | draft =>
      refine ⟨hplaced, ?_, id⟩
      rw [changeset_newDraft_of_known placed.numbered _ placed.known]
    | unfile id => exact ⟨hplaced, rfl, fun hr => (keepsDrafts_erase d id).registry hr⟩
    | edit => exact absurd rfl unwritten
    | file => exact absurd rfl unfiled
    | _ => exact absurd (by decide) bystanding

theorem Changes.spares {parts : List Part} (changes : d.Changes parts d') (unwritten : .edits ∉ parts)
    (unfiled : .filed ∉ parts) : d.Spares h d' :=
  changes.lift (R := fun d d' => d.Placed h → d.Spares h d') (fun _ placed => ⟨placed, rfl, id⟩)
    (fun first later placed => (first placed).trans (later (first placed).placed))
    (fun mem change placed => change.spares placed (ne_of_mem_of_not_mem mem unwritten)
      (ne_of_mem_of_not_mem mem unfiled)) placed

theorem Placed.spares_startEditing (x : Snapshot) (form : Option Form) :
    d.Spares h (d.startEditing x form).1 := by
  have hnew := (d.changes_newDraft { changeset := { pristine := x, form }, reported := true }).spares
    placed (by decide) (by decide)
  refine ⟨(d.changes_startEditing x form).placed placed, hnew.changeset, fun {id} hr => ?_⟩
  rw [registered?_startEditing] at hr
  split at hr
  · obtain rfl := Option.some.inj hr
    exact absurd (placed.numbered placed.known) (Nat.not_succ_le_self _)
  · exact hr

theorem Placed.spares_changeFor (x : Snapshot) (form : Option Form) :
    d.Spares h (d.changeFor x form).1 := by
  have hgives := gives_changeFor placed.filed.keyed x form
  generalize d.changeFor x form = given at hgives
  cases hgives with
  | registered => exact (Changes.refl [] d).spares placed (by decide) (by decide)
  | new => exact placed.spares_startEditing (d.latest x) form

theorem Placed.spares_edit {α : Type} {f : Changeset → Changeset × α} (hne : k ≠ h)
    (keeps : (f (d.changeset k)).1.pristine = (d.changeset k).pristine) :
    d.Spares h (d.edit k f).1 where
  placed := (changes_rewrite d keeps).edit.placed placed
  changeset := by
    have hsame := changeset_modifyQuietly_of_ne d (fun _ => (f (d.changeset k)).1) hne
    obtain ⟨more, heq⟩ := d.exists_edit k f
    rw [heq]
    exact congrArg Changeset.changes hsame
  registered hr := ((changes_rewrite d keeps).edit.keepsDrafts (by decide) (by decide)).registry hr

theorem Placed.spares_reset (hne : k ≠ h) : d.Spares h (d.reset k) where
  placed := (d.changes_reset k).placed placed
  changeset := by rw [changeset_reset_of_ne d hne]
  registered hr := ((d.changes_reset k).keepsDrafts (by decide) (by decide)).registry hr

theorem Placed.spares_stopEditing {id : PackageId} (hne : d.registered? id ≠ some h) :
    d.Spares h (d.stopEditing id) where
  placed := (d.changes_stopEditing id).placed placed
  changeset := by
    unfold Desk.stopEditing
    split
    · rfl
    · rename_i k hk
      have hother : k ≠ h := by
        rintro rfl
        exact hne hk
      have hsame := changeset_modifyQuietly_of_ne d Changeset.clear hother
      dsimp only
      split <;> exact congrArg Changeset.changes hsame
  registered hr := ((d.changes_stopEditing id).keepsDrafts (by decide) (by decide)).registry hr

theorem Placed.spares_save (hne : k ≠ h) : d.Spares h (d.save k).1 where
  placed := (d.changes_save k).placed placed
  changeset := by rw [(save_ends d k).changeset_of_ne hne]
  registered hr := ((d.changes_save k).keepsDrafts (by decide) (by decide)).registry hr

theorem Placed.spares_act {action : Action} (spares : action.Spares d h) :
    d.Spares h (d.act action) := by
  cases action with
  | put x => exact (Change.put x).spares placed (by decide) (by decide)
  | putAll list => exact (d.changes_putPackages list).spares placed (by decide) (by decide)
  | invalidate id => exact (Change.drop id).spares placed (by decide) (by decide)
  | load id => exact (d.changes_load id).spares placed (by decide) (by decide)
  | changeFor x form => exact placed.spares_changeFor x form
  | changeForId id =>
    rcases changeForId_ends d id with hends | ⟨ready, x, hready, heq⟩
    · exact placed.spares_bystands hends
    · have hfirst := placed.spares_bystands hready
      simp only [act, heq]
      exact hfirst.trans (hfirst.placed.spares_changeFor x none)
  | detached c => exact (d.changes_newDraft _).spares placed (by decide) (by decide)
  | setValue k name value => exact placed.spares_edit spares (Changeset.pristine_setValue _ name value)
  | modify k edits => exact placed.spares_edit spares (edits.pristine_apply _)
  | reset k => exact placed.spares_reset spares
  | stopEditing id => exact placed.spares_stopEditing spares
  | save k hooks =>
    have hhooks : ({ d with hooks } : Desk).Placed h := ⟨⟨placed.filed.keyed, placed.filed.known,
      placed.filed.id_eq⟩, placed.numbered, placed.known⟩
    have hsave := hhooks.spares_save spares
    exact ⟨hsave.placed, hsave.changeset, hsave.registered⟩
  | subscribe id => exact (d.changes_subscribeView id).spares placed (by decide) (by decide)
  | unsubscribe id number => exact (d.changes_unsubscribeView id number).spares placed (by decide) (by decide)
  | elsewhere server => exact (Change.replace server).spares placed (by decide) (by decide)

end Others

end Desk

namespace Row

open Timeline

/-! ## Rows in order -/

structure InOrder (r : Row) (d : Desk) : Prop where
  placed : d.Placed r.handle
  drag : r.drag = .idle ∨ r.drag.isActive = true
  rests : r.drag = .idle →
    (d.changeset r.handle).isEmpty = true ∧ ∀ id, d.registered? id ≠ some r.handle

theorem inOrder_make {d : Desk} (filed : d.Filed) (numbered : d.Numbered) (view : View) (x : Snapshot)
    (rendered : List PackageId) : (make d view x rendered).2.InOrder (make d view x rendered).1 where
  placed := Desk.placed_newDraft filed numbered _
  drag := Or.inl rfl
  rests _ := by
    have hmine : (make d view x rendered).1.changeset (d.lastHandle + 1) = { pristine := x } := by
      simp [make, Desk.newDraft, Desk.changeset]
    constructor
    · exact congrArg Changeset.isEmpty hmine
    · intro id hr
      exact Nat.not_succ_le_self _ (numbered (filed.known hr))

theorem InOrder.spare {r : Row} {d d' : Desk} (h : r.InOrder d) (spares : d.Spares r.handle d') :
    r.InOrder d' where
  placed := spares.placed
  drag := h.drag
  rests hidle := by
    obtain ⟨hempty, hnowhere⟩ := h.rests hidle
    constructor
    · rw [Changeset.isEmpty, spares.changeset]
      exact hempty
    · exact fun id hr => hnowhere id (spares.registered hr)

theorem inOrder_land {r : Row} {d : Desk} (placed : d.Placed r.handle) (outcome : Outcome) :
    (r.land d outcome).2.1.InOrder (r.land d outcome).1 where
  placed := (d.changes_reset r.handle).placed placed
  drag := Or.inl rfl
  rests _ := by
    constructor
    · exact (congrArg Changeset.isEmpty (Desk.changeset_reset placed.known)).trans
        (Changeset.isEmpty_clear _)
    · intro id hr
      have hgone := placed.filed.registered?_reset r.handle id
      rw [show (d.reset r.handle).registered? id = some r.handle from hr] at hgone
      split at hgone
      · cases hgone
      · rename_i hne
        exact hne hgone.symm

/-! ## What is sent and told -/

/-- The requests and notices that go with an outcome. -/
def Tells (r : Row) (d d' : Desk) : Option Outcome → Prop
  | none | some .noChange | some .cancelled => d'.server = d.server ∧ d'.notices = d.notices
  | some .failed =>
    (∃ n ≤ 1, d'.server.calls.get .update = d.server.calls.get .update + n) ∧
      ∃ code message, d'.notices = d.notices ++ [.failed r.workPackage.id code message]
  | some (.saved commit) =>
    d'.server.calls.get .update = d.server.calls.get .update + 1 ∧
      d'.notices = d.notices ++ (if r.notifiesSuccess then [.saved commit.id] else []) ++
        ((d.server.failures.get .since).head?.map fun error =>
          .ofError (.api error) r.workPackage.id).toList

section Telling

variable {r : Row} {d d' : Desk}

theorem Tells.of_eq {r' : Row} {before after : Desk} {outcome : Option Outcome}
    (tells : r.Tells d d' outcome) (id : r.workPackage.id = r'.workPackage.id)
    (success : r.notifiesSuccess = r'.notifiesSuccess) (server : before.server = d.server)
    (notices : before.notices = d.notices) (server' : after.server = d'.server)
    (notices' : after.notices = d'.notices) : r'.Tells before after outcome := by
  rcases outcome with _ | ⟨commit⟩ | _ | _ | _ <;>
    simpa only [Tells, id, success, server, notices, server', notices'] using tells

theorem tells_refreshRendered (r : Row) (d : Desk) (commit : Commit) (since : Instant) :
    (r.refreshRendered d commit since).server.calls.get .update = d.server.calls.get .update ∧
      (r.refreshRendered d commit since).notices = d.notices ++
        ((d.server.failures.get .since).head?.map fun error =>
          Notice.ofError (.api error) r.workPackage.id).toList := by
  have hmakes : (d.server.updatedSince r.rendered since).2.calls.get .update =
      d.server.calls.get .update := (Server.makes_updatedSince d.server r.rendered since).calls .update
  have hfails := d.server.updatedSince_fails_iff r.rendered since
  rcases hu : d.server.updatedSince r.rendered since with ⟨error | updated, server⟩ <;>
    rw [hu] at hmakes hfails
  · rw [Desk.refreshRendered_failed commit hu, (hfails error).1 rfl]
    exact ⟨hmakes, rfl⟩
  · have hcalm : (d.server.failures.get .since).head? = none := by
      rw [Option.eq_none_iff_forall_ne_some]
      intro error herror
      cases (hfails error).2 herror
    have hput : (({ d with server } : Desk).putPackages updated).notices = d.notices :=
      (Desk.changes_putPackages { d with server } updated).notices_eq (by decide)
    rw [Desk.refreshRendered_updated commit hu, hcalm]
    have hserver := Desk.server_putPackages ({ d with server } : Desk) updated
    constructor
    · split <;> exact (congrArg (·.calls.get .update) hserver).trans hmakes
    · split <;> exact hput.trans (List.append_nil _).symm

theorem tells_save (r : Row) (d : Desk) :
    (r.save d).2 ≠ .cancelled ∧ r.Tells d (r.save d).1 (some (r.save d).2) := by
  have hnotices := Desk.notices_save d.readClock.1 r.handle
  have hends := Desk.save_ends d.readClock.1 r.handle
  unfold save
  rcases hs : d.readClock.1.save r.handle with ⟨after, error | commit⟩ <;>
    rw [hs] at hnotices hends <;> simp only [hs]
  · obtain ⟨n, hn, hsent⟩ := hends.exists_submits
    refine ⟨by simp, ⟨n, hn, hsent.updates⟩, error.code.code, error.message, ?_⟩
    exact congrArg (· ++ _) hnotices
  · have hsent := hends.submits
    obtain ⟨hcalls, htold⟩ := tells_refreshRendered r
      (if r.notifiesSuccess then after.notify (.saved commit.id) else after) commit d.readClock.2
    have hserver : (if r.notifiesSuccess then after.notify (.saved commit.id) else after).server =
        after.server := by
      split <;> rfl
    rw [hserver] at hcalls htold
    rw [hsent.since] at htold
    refine ⟨by simp, hcalls.trans hsent.updates, htold.trans (congrArg (· ++ _) ?_)⟩
    split
    · exact congrArg (· ++ _) hnotices
    · exact hnotices.trans (List.append_nil _).symm

theorem tells_land {outcome : Outcome} (tells : r.Tells d d' (some outcome)) :
    r.Tells d (r.land d' outcome).1 (some outcome) := by
  have hreset := d'.changes_reset r.handle
  exact tells.of_eq rfl rfl rfl rfl (hreset.server_eq (by decide)) (hreset.notices_eq (by decide))

end Telling

/-! ## What an event gives -/

/-- What an event on a row gives, by the state that its drag goes to. -/
structure Settles (r : Row) (d : Desk) (drag : DragState) (step : RowStep) : Prop where
  inOrder : step.2.1.InOrder step.1
  goesOn : step.2.2 = none → step.2.1.drag = drag
  ended : step.2.2.isSome = true ↔ drag = .committing ∨ drag = .cancelled
  cancelled : step.2.2 = some .cancelled ↔ drag = .cancelled
  idle : step.2.2.isSome = true → step.2.1.drag = .idle
  tells : r.Tells d step.1 step.2.2

section Event

variable {r : Row} {d : Desk}

theorem settles_land {outcome : Outcome} {after : Desk} {drag : DragState}
    (placed : after.Placed r.handle) (ended : drag = .committing ∨ drag = .cancelled)
    (cancelled : outcome = .cancelled ↔ drag = .cancelled)
    (tells : r.Tells d after (some outcome)) : r.Settles d drag (r.land after outcome) where
  inOrder := inOrder_land placed outcome
  goesOn hnone := by cases hnone
  ended := by simp [land, ended]
  cancelled := by simp [land, cancelled]
  idle _ := rfl
  tells := tells_land tells

theorem settles_cancel (placed : d.Placed r.handle) : r.Settles d .cancelled (r.deactivate d true) := by
  rw [deactivate_eq]
  exact settles_land placed (Or.inr rfl) (by simp) ⟨rfl, rfl⟩

theorem settles_commit (placed : d.Placed r.handle) :
    r.Settles d .committing (r.deactivate d false) := by
  rw [deactivate_eq]
  cases (d.changeset r.handle).isEmpty with
  | true => exact settles_land placed (Or.inl rfl) (by simp) ⟨rfl, rfl⟩
  | false =>
    obtain ⟨hnot, htells⟩ := tells_save r d
    exact settles_land ((changes_save r d).placed placed) (Or.inl rfl) (by simp [hnot]) htells

theorem settles_goesOn (placed : d.Placed r.handle) (active : r.drag.isActive = true) :
    r.Settles d r.drag (d, r, none) where
  inOrder := by
    refine ⟨placed, Or.inr active, fun hidle => ?_⟩
    rw [hidle] at active
    cases active
  goesOn _ := rfl
  ended := by
    cases hd : r.drag with
    | idle | armed | dragging => simp
    | committing | cancelled =>
      rw [hd] at active
      cases active
  cancelled := by
    cases hd : r.drag with
    | cancelled =>
      rw [hd] at active
      cases active
    | _ => simp
  idle hsome := by cases hsome
  tells := ⟨rfl, rfl⟩

theorem Settles.of_eq {r' : Row} {before : Desk} {drag : DragState} {step : RowStep}
    (settles : r.Settles d drag step) (id : r.workPackage.id = r'.workPackage.id)
    (success : r.notifiesSuccess = r'.notifiesSuccess) (server : before.server = d.server)
    (notices : before.notices = d.notices) : r'.Settles before drag step :=
  { settles with tells := settles.tells.of_eq id success server notices rfl rfl }

theorem exists_applyAll_previews {direction : Direction} {shown : List Intent}
    (hshown : DragState.Previews direction shown) (placed : d.Placed r.handle) (rest : List Intent) :
    ∃ d' : Desk, r.applyAll d (shown ++ rest) = r.applyAll d' rest ∧ d'.Placed r.handle ∧
      d'.server = d.server ∧ d'.notices = d.notices := by
  induction shown generalizing d with
  | nil => exact ⟨d, rfl, placed, rfl, rfl⟩
  | cons intent more ih =>
    obtain ⟨days, day, rfl⟩ := hshown intent (by simp)
    have hpreview := changes_preview r d direction days day
    obtain ⟨d', heq, hd', hserver', hnotices'⟩ :=
      ih (fun later hlater => hshown later (by simp [hlater])) (hpreview.placed placed)
    exact ⟨d', heq, hd', hserver'.trans (hpreview.server_eq (by decide)),
      hnotices'.trans (hpreview.notices_eq (by decide))⟩

theorem settles_applyAll {direction : Direction} {shown : List Intent}
    (placed : d.Placed r.handle) (away : r.drag ≠ .idle) (hshown : DragState.Previews direction shown) :
    r.Settles d r.drag (r.applyAll d (shown ++ r.drag.ending)) := by
  obtain ⟨d', heq, hplaced, hserver, hnotices⟩ := exists_applyAll_previews hshown placed r.drag.ending
  rw [heq]
  refine Settles.of_eq (r := r) (d := d') ?_ rfl rfl hserver.symm hnotices.symm
  cases hd : r.drag with
  | idle => exact absurd hd away
  | armed | dragging =>
    have hactive : r.drag.isActive = true := by simp [hd, DragState.isActive, DragState.press?]
    have hsettles := settles_goesOn hplaced hactive
    rw [hd] at hsettles
    exact hsettles
  | committing => exact settles_commit hplaced
  | cancelled => exact settles_cancel hplaced

end Event

/-! ## Events -/

def feeds (r : Row) (d : Desk) : Event → DragEvent
  | .press direction cell => .down (r.refreshed d).workPackage.isLeaf direction cell
  | .move cell => .move cell
  | .release => .up
  | .escape => .escape
  | .leave => .leave

def dragOn (r : Row) (d : Desk) (event : Event) : DragState :=
  (r.drag.on r.view.selecting (r.feeds d event)).1

theorem feeds_ne_finish (r : Row) (d : Desk) (event : Event) : r.feeds d event ≠ .finish := by
  cases event <;> simp [feeds]

theorem id_refreshed {d : Desk} (filed : d.Filed) (r : Row) :
    (r.refreshed d).workPackage.id = r.workPackage.id := by
  unfold refreshed
  cases hc : d.cache.get? r.workPackage.id with
  | none => rfl
  | some cached => exact filed.keyed _ _ hc

theorem settles_of_drag {r r' : Row} {d d' : Desk} {event : DragEvent} (h : r.InOrder d)
    (hne : event ≠ .finish) (drag : r'.drag = (r.drag.on r.view.selecting event).1)
    (placed : d'.Placed r'.handle) (rests : r'.drag = .idle → d' = d ∧ r'.handle = r.handle)
    (id : r'.workPackage.id = r.workPackage.id) (success : r'.notifiesSuccess = r.notifiesSuccess)
    (server : d'.server = d.server) (notices : d'.notices = d.notices) :
    r.Settles d (r.drag.on r.view.selecting event).1
      (r'.applyAll d' (r.drag.on r.view.selecting event).2) := by
  rcases DragState.on_of_open r.view.selecting h.drag hne with
    ⟨hidle, heq⟩ | ⟨haway, direction, shown, hshown, heq⟩
  · rw [heq] at drag ⊢
    obtain ⟨rfl, hhandle⟩ := rests drag
    have hrests := h.rests hidle
    rw [← hhandle] at hrests
    exact
      { inOrder := ⟨placed, Or.inl drag, fun _ => hrests⟩
        goesOn := fun _ => drag
        ended := by simp [applyAll]
        cancelled := by simp [applyAll]
        idle := fun hsome => by cases hsome
        tells := ⟨rfl, rfl⟩ }
  · rw [← drag] at haway heq ⊢
    rw [heq]
    exact (settles_applyAll placed haway hshown).of_eq id success server.symm notices.symm

theorem settles_on {r : Row} {d : Desk} (h : r.InOrder d) (event : Event) :
    r.Settles d (r.dragOn d event) (r.on d event) := by
  have hstay : ∀ r' : Row, r'.handle = r.handle → r'.workPackage = r.workPackage →
      r'.notifiesSuccess = r.notifiesSuccess → r'.drag = r.dragOn d event →
      r.Settles d (r.dragOn d event)
        (r'.applyAll d (r.drag.on r.view.selecting (r.feeds d event)).2) := by
    intro r' handle workPackage success drag
    exact settles_of_drag h (r.feeds_ne_finish d event) drag (handle ▸ h.placed)
      (fun _ => ⟨rfl, handle⟩) (congrArg Snapshot.id workPackage) success rfl rfl
  cases event with
  | press direction cell =>
    have hid := id_refreshed h.placed.filed r
    have hedit := d.changes_changeFor (r.refreshed d).workPackage none
    have hgiven := Desk.placed_changeFor h.placed.filed h.placed.numbered (r.refreshed d).workPackage none
    unfold on pressCell
    dsimp only
    split
    · exact settles_of_drag h (r.feeds_ne_finish d (.press direction cell)) rfl h.placed
        (fun _ => ⟨rfl, rfl⟩) hid rfl rfl rfl
    · rename_i haway
      exact settles_of_drag h (r.feeds_ne_finish d (.press direction cell)) rfl hgiven
        (fun hidle => absurd hidle haway) hid rfl (hedit.server_eq (by decide))
        (hedit.notices_eq (by decide))
  | move cell => exact hstay _ rfl rfl rfl rfl
  | release => exact hstay _ rfl rfl rfl rfl
  | escape => exact hstay _ rfl rfl rfl rfl
  | leave => exact hstay _ rfl rfl rfl rfl

/-! ## Runs -/

/-- An event on the row, or anything that others do on the desk without the change-set of the row. -/
inductive Turn : Desk × Row → Desk × Row → Prop
  | event (d : Desk) (r : Row) (event : Event) : Turn (d, r) ((r.on d event).1, (r.on d event).2.1)
  | other {d : Desk} {r : Row} {action : Desk.Action} (spares : action.Spares d r.handle) :
      Turn (d, r) (d.act action, r)

abbrev Turns : Desk × Row → Desk × Row → Prop := Relation.ReflTransGen Turn

theorem Turns.inOrder {first last : Desk × Row} (turns : Turns first last)
    (h : first.2.InOrder first.1) : last.2.InOrder last.1 := by
  induction turns with
  | refl => exact h
  | tail _ turn ih =>
    cases turn with
    | event d r event => exact (settles_on ih event).inOrder
    | other spares => exact ih.spare (ih.placed.spares_act spares)

/-- An event on a row that has been on the desk for any time. After it the drag is at rest or the
pointer is down, and at rest the change-set is empty and registered nowhere; a drag that ends has one
outcome, and the requests and notices are those of the outcome. -/
theorem drag_outcomes {d : Desk} (filed : d.Filed) (numbered : d.Numbered) (view : View) (x : Snapshot)
    (rendered : List PackageId) (renderer : Renderer) (publishesEvents notifiesSuccess : Bool)
    {before : Desk} {r : Row}
    (turns : Turns ((make d view x rendered).1,
      { (make d view x rendered).2 with renderer, publishesEvents, notifiesSuccess }) (before, r))
    (event : Event) : r.Settles before (r.dragOn before event) (r.on before event) := by
  have hmade := inOrder_make filed numbered view x rendered
  have hstart : ({ (make d view x rendered).2 with
      renderer, publishesEvents, notifiesSuccess } : Row).InOrder (make d view x rendered).1 :=
    ⟨hmade.placed, hmade.drag, hmade.rests⟩
  exact settles_on (turns.inOrder hstart) event

/-- Dates are drawn for a work package that has none, and meanwhile the server comes to refuse the next
refresh. The save is told, and the refusal too. -/
theorem drag_outcomes_refresh_refused :
    let x : Snapshot := { id := { text := "7" }, lockVersion := 3, typeHref := "task" }
    let field : FieldSchema := { writable := true, kind := .date }
    let schema : Schema :=
      { typeHref := "task"
        fields := ((∅ : TextMap FieldSchema).insert Attribute.startDate field).insert
          Attribute.dueDate field }
    let d : Desk := { server := (({} : Server).insert x).insertSchema schema }
    let refusal : ApiError := .status 500 "down"
    let row := (make d { pixelsPerDay := 10.0, start := .epoch } x []).2
    let pressed := row.on (make d { pixelsPerDay := 10.0, start := .epoch } x []).1
      (.press .dragRight (Cell.at .epoch 2))
    let moved := pressed.2.1.on pressed.1 (.move (Cell.at .epoch 4))
    let before := moved.1.act (.elsewhere (moved.1.server.failNext .since refusal))
    let step := moved.2.1.on before .release
    ∃ commit, step.2.2 = some (.saved commit) ∧ step.2.1.drag = .idle ∧
      step.1.server.calls.get .update = before.server.calls.get .update + 1 ∧
      step.1.notices = [.saved commit.id, .ofError (.api refusal) x.id] := by
  intro x field schema d refusal row pressed moved before step
  have filed : d.Filed :=
    { keyed := fun id y hy => by simp [d, PackageCache.get?] at hy
      known := fun hr => by simp [d] at hr
      id_eq := fun hr => by simp [d] at hr }
  have numbered : d.Numbered := fun known => by simp [d] at known
  have turns : Turns ((make d { pixelsPerDay := 10.0, start := .epoch } x []).1, row)
      (before, moved.2.1) :=
    ((Relation.ReflTransGen.single (.event _ row _)).tail (.event _ pressed.2.1 _)).tail
      (.other trivial)
  have hsettles : moved.2.1.Settles before (moved.2.1.dragOn before .release) step :=
    drag_outcomes filed numbered _ x [] .standard false true turns .release
  have hsaved : step.2.2 ≠ none ∧ step.2.2 ≠ some .noChange ∧ step.2.2 ≠ some .cancelled ∧
      step.2.2 ≠ some .failed := by
    decide +kernel
  have hbefore : before.notices = [] ∧ moved.2.1.notifiesSuccess = true ∧
      moved.2.1.workPackage.id = x.id ∧
      (before.server.failures.get .since).head? = some refusal := by
    decide +kernel
  obtain ⟨hnotices, hsuccess, hid, hqueued⟩ := hbefore
  clear_value step before moved
  obtain ⟨commit, hcommit⟩ : ∃ commit, step.2.2 = some (.saved commit) := by
    rcases ho : step.2.2 with _ | ⟨commit⟩ | _ | _ | _
    · exact absurd ho hsaved.1
    · exact ⟨commit, rfl⟩
    · exact absurd ho hsaved.2.1
    · exact absurd ho hsaved.2.2.1
    · exact absurd ho hsaved.2.2.2
  have htells : moved.2.1.Tells before step.1 step.2.2 := hsettles.tells
  rw [hcommit] at htells
  obtain ⟨hcalls, htold⟩ := htells
  rw [hnotices, hsuccess, hid, hqueued] at htold
  exact ⟨commit, hcommit, hsettles.idle (congrArg Option.isSome hcommit), hcalls, htold⟩

end Row

end Draftboard
