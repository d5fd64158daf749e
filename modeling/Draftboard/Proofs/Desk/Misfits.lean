import Draftboard.Proofs.Desk.Drops
import Draftboard.Proofs.Validation
/-!
# Drops of values that do not fit

The links of a group give its value its shape: one link stands alone, more of them are a list. Which shape
fits is up to the field. So a group with one link does not fit an attribute with many, and no other drop
of links into such an attribute fails validation, as long as nothing else is wrong with the work package.
-/

namespace Draftboard

/-! ## What validation finds -/

namespace Changeset

/-- Only the shape of a value can be wrong: the change-set holds nothing, the attribute can be written, and
no required field is blank. -/
structure Awaits (c : Changeset) (schema : Schema) (name : String) (kind : FieldKind) : Prop where
  unedited : c.isEmpty = true
  formless : c.form = none
  writable : ∃ field, schema.get? name = some field ∧ field.writable = true ∧ field.kind = kind
  filled : ∀ other field, schema.get? other = some field → field.required = true →
    (c.pristine.value other).isBlank = false

namespace Awaits

variable {c : Changeset} {schema : Schema} {name : String} {kind : FieldKind} {value : AttrValue}

theorem changes_setValue (awaits : c.Awaits schema name kind) (other : String) :
    (c.setValue name value).changes[other]? =
      if name = other ∧ (c.pristine.value name).same value = false then some value else none := by
  have hempty : c.changes[other]? = none := by
    rw [Std.ExtTreeMap.isEmpty_iff.1 awaits.unedited]
    exact Std.ExtTreeMap.getElem?_empty
  rw [getElem?_changes_setValue, hempty]
  by_cases hname : name = other
  · cases hsame : (c.pristine.value name).same value <;> simp [hname]
  · simp [hname]

theorem faults_setValue (awaits : c.Awaits schema name kind) (other : String) :
    (c.setValue name value).faults schema other =
      if name = other ∧ (c.pristine.value name).same value = false ∧ kind.accepts value = false then
        ["has an invalid format"]
      else [] := by
  obtain ⟨field, hfield, hwritable, rfl⟩ := awaits.writable
  unfold faults
  rw [awaits.changes_setValue]
  by_cases hname : name = other
  · subst hname
    cases hsame : (c.pristine.value name).same value with
    | true => simp
    | false => cases haccepts : field.kind.accepts value <;> simp [hfield, hwritable, haccepts]
  · simp [hname]

theorem isMissing_setValue (awaits : c.Awaits schema name kind) (filled : value.isBlank = false)
    (other : String) : (c.setValue name value).isMissing schema other = false := by
  rw [isMissing_eq_false_iff]
  intro field hfield hrequired
  have hform : (c.setValue name value).form = none := awaits.formless
  unfold effectiveValue
  rw [hform, Option.bind_none, Option.or_none, awaits.changes_setValue]
  split
  · exact filled
  · exact awaits.filled other field hfield hrequired

theorem validate_setValue (awaits : c.Awaits schema name kind) (filled : value.isBlank = false) :
    (c.setValue name value).validate schema =
      if (c.pristine.value name).same value = false ∧ kind.accepts value = false then
        ({} : ValidationErrors).add name "has an invalid format"
      else {} := by
  have hform : (c.setValue name value).form = none := awaits.formless
  apply (isTidy_validate _ schema).ext
  · split
    · exact ValidationErrors.isTidy_empty.add name _
    · exact ValidationErrors.isTidy_empty
  · intro other
    have hmessages : (c.setValue name value).formMessages other = [] := by
      unfold formMessages
      rw [hform]
      rfl
    rw [messagesFor_validate, hmessages, awaits.faults_setValue, awaits.isMissing_setValue filled,
      List.nil_append, if_neg Bool.false_ne_true, List.append_nil]
    have hnone : ({} : ValidationErrors).messagesFor other = [] := by simp [ValidationErrors.messagesFor]
    by_cases hmisfit : (c.pristine.value name).same value = false ∧ kind.accepts value = false
    · rw [if_pos hmisfit, ValidationErrors.messagesFor_add, hnone, List.nil_append]
      exact if_congr (and_iff_left hmisfit) rfl rfl
    · rw [if_neg hmisfit, if_neg fun h => hmisfit h.2, hnone]

/-- What is found is never more than that the value has the wrong shape. -/
theorem buildPayload_setValue_eq_error_iff (awaits : c.Awaits schema name kind)
    (filled : value.isBlank = false) {errors : ValidationErrors} :
    (c.setValue name value).buildPayload schema = .error errors ↔
      ((c.pristine.value name).same value = false ∧ kind.accepts value = false) ∧
        errors = ({} : ValidationErrors).add name "has an invalid format" := by
  rw [buildPayload_eq_error_iff, awaits.validate_setValue filled]
  split
  · rename_i hmisfit
    have hfound : (({} : ValidationErrors).add name "has an invalid format").isEmpty = false := by
      simp [ValidationErrors.isEmpty, ValidationErrors.add]
    exact and_congr_left' (iff_of_true hfound hmisfit)
  · rename_i hfits
    exact iff_of_false (fun h => absurd h.1 (by decide)) fun h => hfits h.1

end Awaits

end Changeset

namespace Group

/-- One link alone is no list, and any other number of links makes one. -/
theorem accepts_dropValue_eq_false_iff {g : Group} (linked : g.valueLinks ≠ []) :
    FieldKind.links.accepts g.dropValue = false ↔ ∃ link, g.valueLinks = [link] := by
  unfold dropValue
  match hlinks : g.valueLinks with
  | [] => exact absurd hlinks linked
  | [single] => simp [FieldKind.accepts]
  | first :: second :: rest => simp [FieldKind.accepts]

theorem isBlank_dropValue {g : Group} (linked : g.valueLinks ≠ []) : g.dropValue.isBlank = false := by
  unfold dropValue
  match hlinks : g.valueLinks with
  | [] => exact absurd hlinks linked
  | [single] => rfl
  | first :: second :: rest => rfl

theorem dropValue_of_single {g : Group} {link : Link} (single : g.valueLinks = [link]) :
    g.dropValue = .link link := by
  unfold dropValue
  rw [single]

end Group

/-! ## Invalid saves -/

theorem Desk.save_invalid_iff (d : Desk) (h : Handle) (errors : ValidationErrors) :
    (d.save h).2 = .error (.validation errors) ↔
      (d.changeset h).inFlight = false ∧
        ∃ schema, (d.ensureSchema (d.changeset h).pristine.typeHref).2 = .ok schema ∧
          (d.changeset h).buildPayload schema = .error errors := by
  have hends := save_ends d h
  generalize d.save h = ended at hends
  obtain ⟨after, result⟩ := ended
  dsimp only at hends ⊢
  constructor
  · intro hinvalid
    subst hinvalid
    cases hends with
    | invalid free asked built => exact ⟨free, _, answer_of_asked asked, built⟩
  -- The flag, the schema and the payload rule out all other ways in which a save ends.
  · rintro ⟨free, schema, hschema, hbuilt⟩
    cases hends with
    | busy pending =>
      rw [free] at pending
      cases pending
    | noSchema _ asked =>
      rw [answer_of_asked asked] at hschema
      cases hschema
    | invalid _ asked built =>
      rw [answer_of_asked asked] at hschema
      cases hschema
      rw [built] at hbuilt
      cases hbuilt
      rfl
    | refused _ asked built | done _ asked built =>
      rw [answer_of_asked asked] at hschema
      cases hschema
      rw [built] at hbuilt
      cases hbuilt

theorem ErrorCode.eq_of_code {kind other : ErrorCode} (same : kind.code = other.code) : kind = other := by
  cases kind <;> cases other <;> simp [code] at same ⊢

theorem EditError.isValidation_of_code {error : EditError} (failed : error.code = .validationFailed) :
    error.isValidation = true := by
  cases error with
  | validation errors => rfl
  | saveInFlight id => cases failed
  | api cause => cases cause <;> cases failed

/-! ## Invalid drops -/

def Desk.changesetFor (d : Desk) (x : Snapshot) : Changeset :=
  (d.changeFor x none).1.changeset (d.changeFor x none).2

/-- A group has one link, which the grouped attribute does not hold yet, and a drop into it comes as far as
validation: the change-set is free and its schema can be had. -/
structure Desk.Misfits (d : Desk) (x : Snapshot) (name : String) (group : Group) : Prop where
  free : (d.changesetFor x).inFlight = false
  schema : ∃ schema, (d.ensureSchema (d.changesetFor x).pristine.typeHref).2 = .ok schema
  single : ∃ link, group.valueLinks = [link] ∧
    ((d.changesetFor x).pristine.value name).same (.link link) = false

theorem Desk.save_written_invalid_iff {d : Desk} (filed : d.Filed) {x : Snapshot} {name : String}
    {group : Group} (linked : group.valueLinks ≠ [])
    (awaits : ∀ schema, (d.ensureSchema (d.changesetFor x).pristine.typeHref).2 = .ok schema →
      (d.changesetFor x).Awaits schema name .links) (errors : ValidationErrors) :
    ((d.written x name group.dropValue).1.save (d.written x name group.dropValue).2).2 =
        .error (.validation errors) ↔
      d.Misfits x name group ∧ errors = ({} : ValidationErrors).add name "has an invalid format" := by
  have hchangeset : (d.written x name group.dropValue).1.changeset
      (d.written x name group.dropValue).2 = (d.changesetFor x).setValue name group.dropValue :=
    changeset_written x name group.dropValue filed
  have hwritten := changes_written (d := d) x name group.dropValue
  have hschema := answer_ensureSchema (d.written x name group.dropValue).1 d
    (hwritten.server_eq (by decide)) (hwritten.schemas_eq (by decide)) (d.changesetFor x).pristine.typeHref
  have hmisfit := Group.accepts_dropValue_eq_false_iff linked
  have hfilled := Group.isBlank_dropValue linked
  rw [save_invalid_iff, hchangeset, Changeset.pristine_setValue, hschema]
  constructor
  · rintro ⟨free, schema, hhad, hbuilt⟩
    rw [(awaits schema hhad).buildPayload_setValue_eq_error_iff hfilled] at hbuilt
    obtain ⟨⟨hdiffers, hshape⟩, herrors⟩ := hbuilt
    obtain ⟨link, hsingle⟩ := hmisfit.1 hshape
    rw [Group.dropValue_of_single hsingle] at hdiffers
    exact ⟨⟨free, ⟨schema, hhad⟩, ⟨link, hsingle, hdiffers⟩⟩, herrors⟩
  · rintro ⟨⟨free, ⟨schema, hhad⟩, ⟨link, hsingle, hdiffers⟩⟩, herrors⟩
    refine ⟨free, schema, hhad, ?_⟩
    rw [(awaits schema hhad).buildPayload_setValue_eq_error_iff hfilled]
    refine ⟨⟨?_, hmisfit.2 ⟨link, hsingle⟩⟩, herrors⟩
    rw [Group.dropValue_of_single hsingle]
    exact hdiffers

namespace Grouping

/-- A drop ends with what validation found: nothing is committed, and the user is told once. -/
def EndsInvalid (g : Grouping) (d : Desk) (x : Snapshot) (identifier : String)
    (errors : ValidationErrors) : Prop :=
  (g.drop d x identifier).2 = none ∧
    (g.drop d x identifier).1.notices = d.notices ++ [.ofError (.validation errors) x.id]

section Invalid

variable (g : Grouping) {d : Desk} (x : Snapshot) (identifier : String) {name : String}
  (grouped : g.name = some name)
include grouped

theorem endsInvalid_of_invalid {errors : ValidationErrors}
    (invalid : ((d.written x name (g.valueFor identifier)).1.save
      (d.written x name (g.valueFor identifier)).2).2 = .error (.validation errors)) :
    g.EndsInvalid d x identifier errors := by
  have hnotices := Desk.notices_save_written (d := d) x name (g.valueFor identifier)
  unfold EndsInvalid
  rw [g.drop_eq d x identifier grouped]
  generalize (d.written x name (g.valueFor identifier)).1.save
    (d.written x name (g.valueFor identifier)).2 = ended at hnotices invalid
  obtain ⟨after, result⟩ := ended
  dsimp only at hnotices invalid
  subst invalid
  exact ⟨rfl, congrArg (· ++ [Notice.ofError (.validation errors) x.id]) hnotices⟩

theorem invalid_of_endsInvalid {errors : ValidationErrors} (ends : g.EndsInvalid d x identifier errors) :
    ∃ found, ((d.written x name (g.valueFor identifier)).1.save
      (d.written x name (g.valueFor identifier)).2).2 = .error (.validation found) := by
  have hnotices := Desk.notices_save_written (d := d) x name (g.valueFor identifier)
  unfold EndsInvalid at ends
  rw [g.drop_eq d x identifier grouped] at ends
  rcases hsave : (d.written x name (g.valueFor identifier)).1.save
    (d.written x name (g.valueFor identifier)).2 with ⟨after, error | commit⟩ <;>
    rw [hsave] at ends hnotices
  · obtain ⟨-, htold⟩ := ends
    dsimp only [Desk.notify] at htold hnotices
    rw [hnotices, List.append_cancel_left_eq, List.cons.injEq] at htold
    unfold Notice.ofError at htold
    rw [Notice.failed.injEq] at htold
    have hinvalid := EditError.isValidation_of_code (ErrorCode.eq_of_code htold.1.2.1)
    cases error with
    | validation found => exact ⟨found, rfl⟩
    | saveInFlight | api => cases hinvalid
  · cases ends.1

end Invalid

end Grouping

namespace BusyDesk

/-- A drop into a group of links, for an attribute that holds many, is invalid if and only if the group has
just one link that the attribute does not hold already; the change-set has to be free and its schema to
be had, as nothing is validated before. All that is found is that the value has the wrong shape. -/
theorem drop_invalid_iff_misfits {d : Desk} (opens : Opens d) (events : List Event) (g : Grouping)
    (x : Snapshot) (identifier : String) {name : String} {group : Group} (grouped : g.name = some name)
    (found : g.groups.find? (·.identifier = identifier) = some group) (linked : group.valueLinks ≠ [])
    (awaits : ∀ schema,
      ((course d events).desk.ensureSchema
        ((course d events).desk.changesetFor x).pristine.typeHref).2 = .ok schema →
      ((course d events).desk.changesetFor x).Awaits schema name .links) :
    let before := (course d events).desk
    ((∃ errors, g.EndsInvalid before x identifier errors) ↔ before.Misfits x name group) ∧
      (before.Misfits x name group →
        g.EndsInvalid before x identifier (({} : ValidationErrors).add name "has an invalid format")) := by
  intro before
  have horder : (course d events).Orderly d.hooks := opens.orderly_course events
  have hvalue : g.valueFor identifier = group.dropValue := by
    unfold Grouping.valueFor
    rw [found]
    rfl
  have hinvalid := Desk.save_written_invalid_iff horder.filed linked awaits
  rw [← hvalue] at hinvalid
  have hmisfits : before.Misfits x name group →
      g.EndsInvalid before x identifier (({} : ValidationErrors).add name "has an invalid format") := by
    intro misfits
    apply g.endsInvalid_of_invalid x identifier grouped
    exact (hinvalid _).2 ⟨misfits, rfl⟩
  refine ⟨⟨?_, fun misfits => ⟨_, hmisfits misfits⟩⟩, hmisfits⟩
  rintro ⟨errors, hends⟩
  obtain ⟨found, hsaved⟩ := g.invalid_of_endsInvalid x identifier grouped hends
  exact ((hinvalid found).1 hsaved).1

/-! ## A group with one watcher -/

def watchable : Schema :=
  { typeHref := "task"
    fields := (∅ : TextMap FieldSchema).insert "watchers" { writable := true, kind := .links } }

def byWatchers : Grouping :=
  { name := some "watchers"
    groups :=
      [{ identifier := "anna", valueLinks := [{ href := "/api/v3/users/1" }] },
        { identifier := "both", valueLinks := [{ href := "/api/v3/users/1" }, { href := "/api/v3/users/2" }] }] }

def watchersDesk : Desk := { quietDesk with schemas := (∅ : TextMap Schema).insert "task" watchable }

def unwatched : Snapshot := { id := { text := "7" }, lockVersion := 3, typeHref := "task" }

theorem awaits_watchers : (watchersDesk.changesetFor unwatched).Awaits watchable "watchers" .links where
  unedited := by decide +kernel
  formless := by decide +kernel
  writable := ⟨{ writable := true, kind := .links }, by decide +kernel, rfl, rfl⟩
  filled := by
    intro other field hfield hrequired
    have hmem := Schema.mem_requiredFields.2 ⟨field, hfield, hrequired⟩
    rw [show watchable.requiredFields = [] by decide +kernel] at hmem
    cases hmem

theorem drop_invalid_iff_misfits_watchers :
    (¬ ∃ errors, byWatchers.EndsInvalid (course watchersDesk []).desk unwatched "both" errors) ∧
      byWatchers.EndsInvalid (course watchersDesk []).desk unwatched "anna"
        (({} : ValidationErrors).add "watchers" "has an invalid format") := by
  have hopens : Opens watchersDesk := opens_quietDesk.withSchemas _
  have hawaits : ∀ schema, (watchersDesk.ensureSchema
      (watchersDesk.changesetFor unwatched).pristine.typeHref).2 = .ok schema →
        (watchersDesk.changesetFor unwatched).Awaits schema "watchers" .links := by
    intro schema hhad
    have hschema : (watchersDesk.ensureSchema
        (watchersDesk.changesetFor unwatched).pristine.typeHref).2 = .ok watchable := rfl
    rw [hschema] at hhad
    cases hhad
    exact awaits_watchers
  obtain ⟨hboth, -⟩ := drop_invalid_iff_misfits hopens [] byWatchers unwatched "both" rfl rfl (by simp)
    hawaits
  obtain ⟨-, hanna⟩ := drop_invalid_iff_misfits hopens [] byWatchers unwatched "anna" rfl rfl (by simp)
    hawaits
  constructor
  · rw [hboth]
    rintro ⟨-, -, link, hsingle, -⟩
    cases hsingle
  · refine hanna ⟨by decide +kernel, ⟨watchable, rfl⟩, ⟨{ href := "/api/v3/users/1" }, rfl, ?_⟩⟩
    decide +kernel

/-- Nothing is wrong with the work package, the attribute can be written and holds links, and the group has a
link; still the drop is invalid. -/
theorem single_watcher_is_refused :
    watchersDesk.schemas["task"]? = some watchable ∧
      (watchersDesk.changesetFor unwatched).Awaits watchable "watchers" .links ∧
      (∀ group ∈ byWatchers.groups, group.valueLinks ≠ []) ∧
      byWatchers.EndsInvalid watchersDesk unwatched "anna"
        (({} : ValidationErrors).add "watchers" "has an invalid format") := by
  refine ⟨by decide +kernel, awaits_watchers, by decide, ?_⟩
  unfold Grouping.EndsInvalid
  decide +kernel

end BusyDesk

end Draftboard
