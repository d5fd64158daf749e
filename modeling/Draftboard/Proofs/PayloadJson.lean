import Draftboard.Proofs.Payload
/-!
# What the JSON of a payload says

Attributes stand beside two names that every payload uses itself. What can be read back is told for
each name: the links always, an attribute unless links stand in its place, and the lock version unless
an attribute goes by its name.
-/

namespace Draftboard

/-! ## Fields of objects -/

theorem find?_reverse_of_distinct {α : Type} {entries : List (String × α)}
    (distinct : entries.Pairwise fun a b => a.1 ≠ b.1) (name : String) :
    entries.reverse.find? (·.1 = name) = entries.find? (·.1 = name) := by
  induction entries with
  | nil => rfl
  | cons entry rest ih =>
    obtain ⟨hfirst, hrest⟩ := List.pairwise_cons.1 distinct
    rw [List.reverse_cons, List.find?_append, ih hrest]
    by_cases h : entry.1 = name
    · have hnone : rest.find? (·.1 = name) = none := by
        rw [List.find?_eq_none]
        intro later hlater
        simpa [← h] using (hfirst later hlater).symm
      simp [hnone, h]
    · simp [h]

namespace Json

theorem field?_append (name : String) (first rest : List (String × Json)) :
    (Json.obj (first ++ rest)).field? name =
      ((Json.obj rest).field? name).or ((Json.obj first).field? name) := by
  simp only [field?, List.reverse_append, List.find?_append]
  cases rest.reverse.find? (·.1 = name) <;> rfl

theorem field?_singleton (name key : String) (value : Json) :
    (Json.obj [(key, value)]).field? name = if name = key then some value else none := by
  by_cases h : name = key
  · subst h
    simp [field?]
  · simp [field?, h, Ne.symm h]

theorem field?_cons (name key : String) (value : Json) (rest : List (String × Json)) :
    (Json.obj ((key, value) :: rest)).field? name =
      ((Json.obj rest).field? name).or (if name = key then some value else none) := by
  rw [← List.singleton_append, field?_append, field?_singleton]

theorem field?_toJson {α : Type} [ToJson α] (m : TextMap α) (name : String) :
    (ToJson.toJson m).field? name = m[name]?.map ToJson.toJson := by
  have distinct : m.toList.Pairwise fun a b => a.1 ≠ b.1 :=
    m.distinct_keys_toList.imp fun h heq => h (Std.LawfulEqOrd.compare_eq_iff_eq.2 heq)
  have hmapped : (m.toList.map fun field => (field.1, ToJson.toJson field.2)).Pairwise
      fun a b => a.1 ≠ b.1 := List.pairwise_map.2 distinct
  change ((m.toList.map fun field => (field.1, ToJson.toJson field.2)).reverse.find?
    (·.1 = name)).map (·.2) = _
  rw [find?_reverse_of_distinct hmapped, List.find?_map, ← find?_toList]
  simp [Function.comp_def]

end Json

namespace Payload

/-! ## The object of a payload -/

/-- Every field of the object: links stand over an attribute of that name, and an attribute over the
lock version. -/
theorem field?_toJson (p : Payload) (name : String) :
    p.toJson.field? name =
      (if name = "_links" ∧ p.links.isEmpty = false then some (ToJson.toJson p.links) else none).or
        ((p.attributes[name]?.map AttrValue.toJson).or
          (if name = "lockVersion" then some (ToJson.toJson p.lockVersion) else none)) := by
  have hattributes : (Json.obj (p.attributes.toList.map fun field =>
      (field.1, field.2.toJson))).field? name = p.attributes[name]?.map AttrValue.toJson :=
    Json.field?_toJson p.attributes name
  unfold toJson
  dsimp only
  rw [Json.field?_append, Json.field?_cons, hattributes]
  cases hlinks : p.links.isEmpty with
  | true => simp [Json.field?]
  | false => simp [Json.field?_singleton]

/-! ## Each value on its side -/

structure IsSorted (schema : Schema) (p : Payload) : Prop where
  attributes : ∀ {name : String} {value : AttrValue}, p.attributes[name]? = some value →
    isLink schema name value = false
  links : ∀ {name : String} {value : AttrValue}, p.links[name]? = some value →
    isLink schema name value = true

theorem isSorted_start (schema : Schema) (lockVersion : Nat) : IsSorted schema { lockVersion } where
  attributes h := by simp at h
  links h := by simp at h

theorem isSorted_place {schema : Schema} {p : Payload} (h : p.IsSorted schema) (name : String)
    (value : AttrValue) : (p.place schema name value).IsSorted schema := by
  unfold place
  cases hlink : isLink schema name value with
  | true =>
    constructor
    · intro other found hfound
      simp only [Std.ExtTreeMap.getElem?_erase, if_true] at hfound
      split at hfound
      · cases hfound
      · exact h.attributes hfound
    · intro other found hfound
      simp only [Std.ExtTreeMap.getElem?_insert, Std.LawfulEqOrd.compare_eq_iff_eq, if_true] at hfound
      split at hfound
      · obtain rfl := Option.some.inj hfound
        subst_vars
        exact hlink
      · exact h.links hfound
  | false =>
    constructor
    · intro other found hfound
      simp only [Std.ExtTreeMap.getElem?_insert, Std.LawfulEqOrd.compare_eq_iff_eq, Bool.false_eq_true,
        if_false] at hfound
      split at hfound
      · obtain rfl := Option.some.inj hfound
        subst_vars
        exact hlink
      · exact h.attributes hfound
    · intro other found hfound
      simp only [Std.ExtTreeMap.getElem?_erase, Bool.false_eq_true, if_false] at hfound
      split at hfound
      · cases hfound
      · exact h.links hfound

theorem isSorted_placeAll {schema : Schema} {p : Payload} (h : p.IsSorted schema)
    (values : Attributes) : (p.placeAll schema values).IsSorted schema := by
  unfold placeAll
  induction values.toList generalizing p with
  | nil => exact h
  | cons entry rest ih => exact ih (isSorted_place h entry.1 entry.2)

theorem IsSorted.getElem?_attributes_iff {schema : Schema} {p : Payload} (h : p.IsSorted schema)
    (name : String) (value : AttrValue) :
    p.attributes[name]? = some value ↔ p.get? name = some value ∧ isLink schema name value = false := by
  unfold get?
  constructor
  · intro hvalue
    exact ⟨by rw [hvalue, Option.some_or], h.attributes hvalue⟩
  · rintro ⟨hget, hplain⟩
    rcases Option.or_eq_some_iff.1 hget with hvalue | ⟨-, hlink⟩
    · exact hvalue
    · rw [h.links hlink] at hplain
      cases hplain

theorem IsSorted.getElem?_links_iff {schema : Schema} {p : Payload} (h : p.IsSorted schema)
    (split : p.IsSplit) (name : String) (value : AttrValue) :
    p.links[name]? = some value ↔ p.get? name = some value ∧ isLink schema name value = true := by
  unfold get?
  constructor
  · intro hvalue
    have hnone := (split name).resolve_right (by simp [hvalue])
    exact ⟨by rw [hnone, hvalue, Option.none_or], h.links hvalue⟩
  · rintro ⟨hget, hlink⟩
    rcases Option.or_eq_some_iff.1 hget with hvalue | ⟨-, hvalue⟩
    · rw [h.attributes hvalue] at hlink
      cases hlink
    · exact hvalue

end Payload

namespace Changeset

section Built

variable {c : Changeset} {schema : Schema} {p : Payload}

theorem isSorted_of_buildPayload (h : c.buildPayload schema = .ok p) : p.IsSorted schema := by
  rw [eq_of_buildPayload_eq_ok h]
  exact Payload.isSorted_placeAll (Payload.isSorted_placeAll (Payload.isSorted_start schema _) _) _

theorem getElem?_attributes_iff (h : c.buildPayload schema = .ok p) (name : String)
    (value : AttrValue) : p.attributes[name]? = some value ↔
      c.submitted? name = some value ∧ Payload.isLink schema name value = false := by
  rw [← get?_of_buildPayload h name]
  exact (isSorted_of_buildPayload h).getElem?_attributes_iff name value

theorem getElem?_links_iff (h : c.buildPayload schema = .ok p) (name : String) (value : AttrValue) :
    p.links[name]? = some value ↔
      c.submitted? name = some value ∧ Payload.isLink schema name value = true := by
  rw [← get?_of_buildPayload h name]
  exact (isSorted_of_buildPayload h).getElem?_links_iff (isSplit_of_buildPayload h) name value

theorem toJson_value_ne_int (value : AttrValue) (n : Int) : value.toJson ≠ .int n := by
  cases value <;> simp [AttrValue.toJson]

/-- What the JSON of a built payload says. Every link can be read under `_links`, and every attribute
under its own name unless links stand there. Under `lockVersion` stands the version of the pristine
snapshot just if no attribute of that name is submitted. There is nothing else. -/
theorem payload_json_reads_back (h : c.buildPayload schema = .ok p) :
    (∀ name value, p.links[name]? = some value → ∃ links, p.toJson.field? "_links" = some links ∧
      links.field? name = some value.toJson) ∧
    (∀ name value, p.attributes[name]? = some value → (name = "_links" → p.links.isEmpty = true) →
      p.toJson.field? name = some value.toJson) ∧
    (p.toJson.field? "lockVersion" = some (ToJson.toJson c.pristine.lockVersion) ↔
      ∀ value, c.submitted? "lockVersion" = some value →
        Payload.isLink schema "lockVersion" value = true) ∧
    (∀ name, p.attributes[name]? = none → name ≠ "lockVersion" → name ≠ "_links" →
      p.toJson.field? name = none) := by
  refine ⟨fun name value hvalue => ?_, fun name value hvalue hfree => ?_, ?_, fun name hnone => ?_⟩
  · have hlinks : p.links.isEmpty = false := by
      rw [← Bool.not_eq_true, Std.ExtTreeMap.isEmpty_iff]
      intro hempty
      simp [hempty] at hvalue
    refine ⟨ToJson.toJson p.links, ?_, ?_⟩
    · simp [Payload.field?_toJson, hlinks]
    · rw [Json.field?_toJson, hvalue]
      rfl
  · have hover : ¬(name = "_links" ∧ p.links.isEmpty = false) := by
      rintro ⟨hname, hlinks⟩
      rw [hfree hname] at hlinks
      cases hlinks
    rw [Payload.field?_toJson, if_neg hover, hvalue]
    rfl
  -- An attribute of that name hides the version, unless it stands among the links.
  · have hversion := lockVersion_of_buildPayload h
    have hiff := getElem?_attributes_iff h "lockVersion"
    rw [Payload.field?_toJson, if_neg (by simp), hversion, Option.none_or]
    cases hv : p.attributes["lockVersion"]? with
    | none =>
      refine ⟨fun _ value hsubmitted => ?_, fun _ => by simp⟩
      rw [← Bool.not_eq_false]
      intro hplain
      rw [(hiff value).2 ⟨hsubmitted, hplain⟩] at hv
      cases hv
    | some value =>
      obtain ⟨hsubmitted, hplain⟩ := (hiff value).1 hv
      constructor
      · intro heq
        exact absurd (Option.some.inj heq) (toJson_value_ne_int value _)
      · intro hlinks
        rw [hlinks value hsubmitted] at hplain
        cases hplain
  · intro hlock hlinks
    simp [Payload.field?_toJson, hnone, hlock, hlinks]

end Built

theorem payload_json_reads_back_subject :
    let c : Changeset :=
      { pristine := { id := { text := "7" }, lockVersion := 3, typeHref := "task" }
        form := some { payload := (∅ : Attributes).insert "status" (.link { href := "/statuses/2" }) }
        changes := (∅ : Attributes).insert "subject" (.text "Mine") }
    let schema : Schema :=
      { typeHref := "task", fields := (∅ : TextMap FieldSchema).insert "subject" { writable := true } }
    ∃ p, c.buildPayload schema = .ok p ∧
      p.toJson.field? "subject" = some (AttrValue.text "Mine").toJson ∧
      p.toJson.field? "lockVersion" = some (ToJson.toJson 3) ∧
      ∃ links, p.toJson.field? "_links" = some links ∧
        links.field? "status" = some (AttrValue.link { href := "/statuses/2" }).toJson := by
  intro c schema
  have hok : (c.buildPayload schema).isOk = true := by decide +kernel
  have hsides : c.submitted? "subject" = some (.text "Mine") ∧
      c.submitted? "status" = some (.link { href := "/statuses/2" }) ∧
      c.submitted? "lockVersion" = none := by
    decide +kernel
  have hkinds : Payload.isLink schema "subject" (.text "Mine") = false ∧
      Payload.isLink schema "status" (.link { href := "/statuses/2" }) = true := by
    decide +kernel
  obtain ⟨hsubject, hstatus, hlock⟩ := hsides
  rcases hb : c.buildPayload schema with errors | p
  · rw [hb] at hok
    cases hok
  · obtain ⟨hlinks, hattributes, hversion, -⟩ := payload_json_reads_back hb
    refine ⟨p, rfl, ?_, ?_, hlinks "status" _ ?_⟩
    · exact hattributes "subject" _ ((getElem?_attributes_iff hb _ _).2 ⟨hsubject, hkinds.1⟩) (by simp)
    · exact hversion.2 fun value hvalue => by
        rw [hlock] at hvalue
        cases hvalue
    · exact (getElem?_links_iff hb _ _).2 ⟨hstatus, hkinds.2⟩

/-- A form that has a value for `lockVersion`: the payload holds the version of the pristine snapshot,
and its JSON has the value of the form in its place. -/
theorem payload_json_hides_lockVersion :
    let c : Changeset :=
      { pristine := { id := { text := "7" }, lockVersion := 3, typeHref := "task" }
        form := some { payload := (∅ : Attributes).insert "lockVersion" (.int 2) } }
    ∃ p, c.buildPayload { typeHref := "task" } = .ok p ∧ p.lockVersion = 3 ∧
      p.toJson.field? "lockVersion" = some (AttrValue.int 2).toJson ∧
      p.toJson.field? "lockVersion" ≠ some (ToJson.toJson c.pristine.lockVersion) := by
  intro c
  have hok : (c.buildPayload { typeHref := "task" }).isOk = true := by decide +kernel
  have hsubmitted : c.submitted? "lockVersion" = some (.int 2) ∧
      Payload.isLink { typeHref := "task" } "lockVersion" (.int 2) = false := by
    decide +kernel
  rcases hb : c.buildPayload { typeHref := "task" } with errors | p
  · rw [hb] at hok
    cases hok
  · have hfield : p.toJson.field? "lockVersion" = some (AttrValue.int 2).toJson := by
      rw [Payload.field?_toJson, (getElem?_attributes_iff hb _ _).2 hsubmitted]
      simp
    refine ⟨p, rfl, lockVersion_of_buildPayload hb, hfield, ?_⟩
    rw [hfield]
    exact fun heq => toJson_value_ne_int _ _ (Option.some.inj heq)

end Changeset

end Draftboard
