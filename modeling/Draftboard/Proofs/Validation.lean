import Draftboard.Proofs.Payload
/-!
# Which change-sets are accepted

A change-set is accepted if nothing is wrong with it, and else every attribute has all the messages that
go with what is wrong with it: those of the form, the first fault of the modification, and that a
required field is blank.
-/

namespace Draftboard

namespace ValidationErrors

/-! ## Adding messages -/

theorem messagesFor_addAll (errors : ValidationErrors) (name other : String) (messages : List String) :
    (errors.addAll name messages).messagesFor other =
      errors.messagesFor other ++ if name = other then messages else [] := by
  unfold addAll
  induction messages generalizing errors with
  | nil => simp
  | cons first rest ih =>
    rw [List.foldl_cons, ih, messagesFor_add]
    split <;> simp

theorem messagesFor_foldl {β : Type} (name : β → String) (messages : β → List String)
    (entries : List β) (distinct : entries.Pairwise fun a b => name a ≠ name b)
    (errors : ValidationErrors) (other : String) :
    (entries.foldl (fun errors entry => errors.addAll (name entry) (messages entry)) errors).messagesFor
        other =
      errors.messagesFor other ++ ((entries.find? (name · = other)).map messages).getD [] := by
  induction entries generalizing errors with
  | nil => simp
  | cons entry rest ih =>
    obtain ⟨hfirst, hrest⟩ := List.pairwise_cons.1 distinct
    rw [List.foldl_cons, ih hrest, messagesFor_addAll]
    by_cases h : name entry = other
    · have hnone : rest.find? (name · = other) = none := by
        rw [List.find?_eq_none]
        intro later hlater
        simpa [← h] using (hfirst later hlater).symm
      simp [h, hnone]
    · simp [h]

theorem messagesFor_foldl_toList {α : Type} (messages : String → α → List String) (m : TextMap α)
    (errors : ValidationErrors) (other : String) :
    (m.toList.foldl (fun errors (name, value) => errors.addAll name (messages name value))
        errors).messagesFor other =
      errors.messagesFor other ++ (m[other]?.map (messages other)).getD [] := by
  have distinct : m.toList.Pairwise fun a b => a.1 ≠ b.1 :=
    m.distinct_keys_toList.imp fun h heq => h (Std.LawfulEqOrd.compare_eq_iff_eq.2 heq)
  have hfold := messagesFor_foldl (·.1) (fun entry => messages entry.1 entry.2) m.toList distinct errors
    other
  rw [← find?_toList m other, Option.map_map]
  rw [hfold]
  cases hf : m.toList.find? (·.1 = other) with
  | none => rfl
  | some entry =>
    have hname : entry.1 = other := by simpa using List.find?_some hf
    rw [Option.map_some, Option.map_some, hname]
    rfl

theorem messagesFor_ofMap (messages : TextMap (List String)) (name : String) :
    (ofMap messages).messagesFor name = messages[name]?.getD [] := by
  have hfold := messagesFor_foldl_toList (fun _ texts => texts) messages {} name
  unfold ofMap merge
  rw [hfold]
  simp [messagesFor]

/-! ## No empty entries -/

/-- An attribute that is named has a message. -/
def IsTidy (errors : ValidationErrors) : Prop := ∀ name : String, errors.fields[name]? ≠ some []

theorem isTidy_empty : IsTidy {} := by simp [IsTidy]

theorem IsTidy.add {errors : ValidationErrors} (h : errors.IsTidy) (name message : String) :
    (errors.add name message).IsTidy := by
  intro other
  simp only [ValidationErrors.add, Std.ExtTreeMap.getElem?_insert]
  split
  · simp
  · exact h other

theorem IsTidy.addAll {errors : ValidationErrors} (h : errors.IsTidy) (name : String)
    (messages : List String) : (errors.addAll name messages).IsTidy := by
  unfold ValidationErrors.addAll
  induction messages generalizing errors with
  | nil => exact h
  | cons first rest ih => exact ih (h.add name first)

theorem IsTidy.foldl {β : Type} {put : ValidationErrors → β → ValidationErrors}
    (hput : ∀ errors entry, errors.IsTidy → (put errors entry).IsTidy) {errors : ValidationErrors}
    (h : errors.IsTidy) (entries : List β) : (entries.foldl put errors).IsTidy := by
  induction entries generalizing errors with
  | nil => exact h
  | cons entry rest ih => exact ih (hput errors entry h)

theorem IsTidy.ext {errors others : ValidationErrors} (tidy : errors.IsTidy)
    (tidy' : others.IsTidy) (same : ∀ name, errors.messagesFor name = others.messagesFor name) :
    errors = others := by
  obtain ⟨fields⟩ := errors
  obtain ⟨fields'⟩ := others
  rw [mk.injEq]
  apply Std.ExtTreeMap.ext_getElem?
  intro name
  have hsame := same name
  have htidy := tidy name
  have htidy' := tidy' name
  unfold messagesFor at hsame
  cases hfirst : fields[name]? <;> cases hsecond : fields'[name]? <;> simp_all

theorem IsTidy.mem_attributes_iff {errors : ValidationErrors} (h : errors.IsTidy) (name : String) :
    name ∈ errors.attributes ↔ errors.messagesFor name ≠ [] := by
  have htidy := h name
  rw [attributes, Std.ExtTreeMap.mem_keys, ← Std.ExtTreeMap.isSome_getElem?_iff_mem, messagesFor]
  cases hf : errors.fields[name]? with
  | none => simp
  | some messages =>
    rw [hf] at htidy
    simpa using htidy

theorem IsTidy.isEmpty_iff {errors : ValidationErrors} (h : errors.IsTidy) :
    errors.isEmpty = true ↔ ∀ name, errors.messagesFor name = [] := by
  rw [isEmpty, Std.ExtTreeMap.isEmpty_iff]
  constructor
  · intro hempty name
    simp [messagesFor, hempty]
  · intro hnone
    refine Std.ExtTreeMap.ext_getElem? fun name => ?_
    have hmem := mt (h.mem_attributes_iff name).1 (not_not_intro (hnone name))
    rw [attributes, Std.ExtTreeMap.mem_keys, ← Std.ExtTreeMap.isSome_getElem?_iff_mem] at hmem
    rw [Option.not_isSome_iff_eq_none.1 hmem]
    simp

end ValidationErrors

namespace Changeset

/-! ## What is wrong with a change-set -/

def formMessages (c : Changeset) (name : String) : List String :=
  (c.form.bind fun form => form.validationErrors[name]?).getD []

/-- What is wrong with the modification of an attribute, if it is modified: the first check that fails
gives the one message. -/
def faults (c : Changeset) (schema : Schema) (name : String) : List String :=
  match c.changes[name]?, schema.get? name with
  | none, _ => []
  | some _, none => ["is not a known attribute"]
  | some value, some field =>
    if field.writable = false then ["is not writable"]
    else if field.kind.accepts value = false then ["has an invalid format"]
    else []

def isMissing (c : Changeset) (schema : Schema) (name : String) : Bool :=
  (schema.get? name).any (·.required) && (c.effectiveValue name).isBlank

structure IsAcceptable (c : Changeset) (schema : Schema) : Prop where
  form : ∀ form, c.form = some form → ∀ (name : String) messages,
    form.validationErrors[name]? = some messages → messages = []
  changes : ∀ (name : String) value, c.changes[name]? = some value →
    ∃ field, schema.get? name = some field ∧ field.writable = true ∧ field.kind.accepts value = true
  required : ∀ name field, schema.get? name = some field → field.required = true →
    (c.effectiveValue name).isBlank = false

section Checks

variable (c : Changeset) (schema : Schema)

theorem faults_eq (name : String) :
    c.faults schema name =
      (c.changes[name]?.map fun value => (changeFault? schema name value).toList).getD [] := by
  unfold faults changeFault?
  cases c.changes[name]? with
  | none => rfl
  | some value =>
    cases schema.get? name with
    | none => rfl
    | some field =>
      obtain ⟨writable, required, kind⟩ := field
      cases writable <;> cases ha : kind.accepts value <;> simp [ha]

theorem faults_eq_nil_iff (name : String) :
    c.faults schema name = [] ↔ ∀ value, c.changes[name]? = some value →
      ∃ field, schema.get? name = some field ∧ field.writable = true ∧
        field.kind.accepts value = true := by
  unfold faults
  cases c.changes[name]? with
  | none => simp
  | some value =>
    cases schema.get? name with
    | none => simp
    | some field => cases hw : field.writable <;> cases ha : field.kind.accepts value <;> simp [hw, ha]

theorem formMessages_eq_nil_iff (name : String) :
    c.formMessages name = [] ↔ ∀ form, c.form = some form → ∀ messages,
      form.validationErrors[name]? = some messages → messages = [] := by
  unfold formMessages
  cases c.form with
  | none => simp
  | some form => cases hm : form.validationErrors[name]? <;> simp [hm]

theorem isMissing_eq_false_iff (name : String) :
    c.isMissing schema name = false ↔ ∀ field, schema.get? name = some field →
      field.required = true → (c.effectiveValue name).isBlank = false := by
  unfold isMissing
  cases schema.get? name with
  | none => simp
  | some field => cases hr : field.required <;> simp [hr]

theorem find?_requiredFields (name : String) :
    ((schema.requiredFields.find? (· = name)).map fun name =>
        if (c.effectiveValue name).isBlank then ["can't be blank"] else []).getD [] =
      if c.isMissing schema name then ["can't be blank"] else [] := by
  cases hf : schema.requiredFields.find? (· = name) with
  | none =>
    have hnot : name ∉ schema.requiredFields := fun hmem =>
      absurd (List.find?_eq_none.1 hf name hmem) (by simp)
    have hmissing : c.isMissing schema name = false := by
      rw [isMissing_eq_false_iff]
      exact fun field hfield hrequired =>
        absurd (Schema.mem_requiredFields.2 ⟨field, hfield, hrequired⟩) hnot
    simp [hmissing]
  | some other =>
    obtain rfl : other = name := by simpa using List.find?_some hf
    obtain ⟨field, hfield, hrequired⟩ := Schema.mem_requiredFields.1 (List.mem_of_find?_eq_some hf)
    simp [isMissing, hfield, hrequired]

theorem nodup_requiredFields : schema.requiredFields.Nodup := by
  have hnames : (schema.fields.toList.map (·.1)).Nodup := by
    rw [Std.ExtTreeMap.map_fst_toList_eq_keys]
    exact schema.fields.nodup_keys
  exact hnames.sublist (List.filter_sublist.map _)

/-! ## The checks one after the other -/

theorem messagesFor_validate (name : String) :
    (c.validate schema).messagesFor name = c.formMessages name ++ c.faults schema name ++
      if c.isMissing schema name then ["can't be blank"] else [] := by
  have hform : (c.form.elim ∅ (·.validationErrors) : TextMap (List String))[name]?.getD [] =
      c.formMessages name := by
    unfold formMessages
    cases c.form <;> simp
  have hput : ∀ errors name, (if (c.effectiveValue name).isBlank then
      ValidationErrors.add errors name "can't be blank" else errors) =
        errors.addAll name (if (c.effectiveValue name).isBlank then ["can't be blank"] else []) := by
    intro errors name
    split <;> rfl
  have hrequired := ValidationErrors.messagesFor_foldl (fun name => name) (fun name =>
    if (c.effectiveValue name).isBlank then ["can't be blank"] else []) schema.requiredFields
    (nodup_requiredFields schema)
  have hchanges := ValidationErrors.messagesFor_foldl_toList (fun name value =>
    (changeFault? schema name value).toList) c.changes
  unfold validate
  simp only [hput]
  rw [hrequired, find?_requiredFields, hchanges, ValidationErrors.messagesFor_ofMap, hform, ← faults_eq]

theorem isTidy_validate : (c.validate schema).IsTidy := by
  have hform : (ValidationErrors.ofMap (c.form.elim ∅ (·.validationErrors))).IsTidy :=
    ValidationErrors.isTidy_empty.foldl (fun _ entry h => h.addAll entry.1 entry.2) _
  have hchanges : (c.changes.toList.foldl (fun errors entry =>
      errors.addAll entry.1 (changeFault? schema entry.1 entry.2).toList)
      (ValidationErrors.ofMap (c.form.elim ∅ (·.validationErrors)))).IsTidy :=
    hform.foldl (fun _ entry h => h.addAll entry.1 _) _
  refine hchanges.foldl (fun errors name h => ?_) schema.requiredFields
  split
  · exact h.add name "can't be blank"
  · exact h

theorem isEmpty_validate_iff : (c.validate schema).isEmpty = true ↔ c.IsAcceptable schema := by
  rw [(isTidy_validate c schema).isEmpty_iff]
  have hnone : ∀ name, (c.validate schema).messagesFor name = [] ↔
      c.formMessages name = [] ∧ c.faults schema name = [] ∧ c.isMissing schema name = false := by
    intro name
    rw [messagesFor_validate]
    cases c.isMissing schema name <;> simp
  simp only [hnone, formMessages_eq_nil_iff, faults_eq_nil_iff, isMissing_eq_false_iff]
  constructor
  · intro h
    exact ⟨fun form hform name => (h name).1 form hform, fun name => (h name).2.1,
      fun name => (h name).2.2⟩
  · intro h name
    exact ⟨fun form hform => h.form form hform name, h.changes name, h.required name⟩

theorem buildPayload_isOk_iff :
    (∃ p, c.buildPayload schema = .ok p) ↔ c.IsAcceptable schema := by
  rw [← isEmpty_validate_iff]
  unfold buildPayload
  dsimp only
  split
  · rename_i h
    exact ⟨fun _ => h, fun _ => ⟨_, rfl⟩⟩
  · rename_i h
    exact ⟨fun ⟨p, hp⟩ => (by cases hp), fun hempty => absurd hempty h⟩

theorem buildPayload_eq_error_iff {errors : ValidationErrors} :
    c.buildPayload schema = .error errors ↔
      (c.validate schema).isEmpty = false ∧ errors = c.validate schema := by
  unfold buildPayload
  dsimp only
  cases hempty : (c.validate schema).isEmpty with
  | true => simp
  | false => simp [eq_comm]

/-- Which change-sets are accepted, and what is said of those that are not. -/
theorem payload_acceptance :
    ((∃ p, c.buildPayload schema = .ok p) ↔ c.IsAcceptable schema) ∧
    ∀ errors, c.buildPayload schema = .error errors →
      (∀ name, errors.messagesFor name = c.formMessages name ++ c.faults schema name ++
        if c.isMissing schema name then ["can't be blank"] else []) ∧
      errors.attributes.Nodup ∧ ∀ name, name ∈ errors.attributes ↔ errors.messagesFor name ≠ [] := by
  refine ⟨buildPayload_isOk_iff c schema, fun errors herrors => ?_⟩
  obtain rfl : errors = c.validate schema := by
    unfold buildPayload at herrors
    dsimp only at herrors
    split at herrors
    · cases herrors
    · exact (Except.error.inj herrors).symm
  exact ⟨messagesFor_validate c schema, (c.validate schema).fields.nodup_keys,
    (isTidy_validate c schema).mem_attributes_iff⟩

end Checks

theorem payload_acceptance_three_messages :
    let form : Form :=
      { validationErrors := ((∅ : TextMap (List String)).insert "subject" ["is too plain"]).insert "note" [] }
    let c : Changeset :=
      { pristine := { id := { text := "7" }, typeHref := "task" }
        form := some form
        changes := ((∅ : Attributes).insert "subject" (.links [])).insert "bogus" (.int 1) }
    let schema : Schema :=
      { typeHref := "task"
        fields := (∅ : TextMap FieldSchema).insert "subject" { writable := true, required := true } }
    ∃ errors, c.buildPayload schema = .error errors ∧
      errors.messagesFor "subject" = ["is too plain", "has an invalid format", "can't be blank"] ∧
      errors.messagesFor "bogus" = ["is not a known attribute"] ∧ "note" ∉ errors.attributes := by
  intro form c schema
  have hrefused : (c.buildPayload schema).isOk = false := by decide +kernel
  rcases hb : c.buildPayload schema with errors | p
  · obtain ⟨hmessages, -, hattributes⟩ := (payload_acceptance c schema).2 errors hb
    refine ⟨errors, rfl, ?_, ?_, ?_⟩
    · rw [hmessages]
      decide +kernel
    · rw [hmessages]
      decide +kernel
    · rw [hattributes, hmessages]
      decide +kernel
  · rw [hb] at hrefused
    cases hrefused

end Changeset

end Draftboard
