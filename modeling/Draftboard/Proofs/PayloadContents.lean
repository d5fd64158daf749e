import Mathlib.Data.Finset.Card
import Draftboard.Proofs.PayloadJson
/-!
# All that a payload submits

A built payload submits each modified attribute and each attribute of the form once, on the side where it
belongs, and nothing else.
-/

namespace Draftboard

namespace Payload

/-! ## Entries -/

theorem mem_entries_iff {p : Payload} (split : p.IsSplit) (name : String) (value : AttrValue) :
    (name, value) ∈ p.entries ↔ p.get? name = some value := by
  unfold entries get?
  rw [List.mem_append, Std.ExtTreeMap.mem_toList_iff_getElem?_eq_some,
    Std.ExtTreeMap.mem_toList_iff_getElem?_eq_some]
  rcases split name with hnone | hnone <;> simp [hnone]

theorem nodup_entries {p : Payload} (split : p.IsSplit) : (p.entries.map (·.1)).Nodup := by
  unfold entries
  rw [List.map_append, Std.ExtTreeMap.map_fst_toList_eq_keys, Std.ExtTreeMap.map_fst_toList_eq_keys,
    List.nodup_append]
  refine ⟨p.attributes.nodup_keys, p.links.nodup_keys, ?_⟩
  -- A name that stands on both sides would have a value on both.
  rintro name hattribute _ hlink rfl
  rw [Std.ExtTreeMap.mem_keys, ← Std.ExtTreeMap.isSome_getElem?_iff_mem] at hattribute hlink
  rcases split name with hnone | hnone
  · simp [hnone] at hattribute
  · simp [hnone] at hlink

theorem length_entries (p : Payload) : p.entries.length = p.size := by
  simp [entries, size]

/-- Whether a value belongs among the links, told by its field or, if there is none, by the value. -/
def BelongsToLinks (schema : Schema) (name : String) (value : AttrValue) : Prop :=
  match schema.get? name with
  | some field => field.kind = .link ∨ field.kind = .links
  | none => value.isLinkLike = true

theorem isLink_iff (schema : Schema) (name : String) (value : AttrValue) :
    isLink schema name value = true ↔ BelongsToLinks schema name value := by
  unfold isLink BelongsToLinks
  cases schema.get? name with
  | none => rfl
  | some field => cases hk : field.kind <;> simp [hk, FieldKind.isLink]

end Payload

namespace Changeset

section Built

variable {c : Changeset} {schema : Schema} {p : Payload}

theorem mem_sides_iff (h : c.buildPayload schema = .ok p) {name : String} {value : AttrValue}
    (submitted : c.submitted? name = some value) :
    (name ∈ p.links ↔ Payload.BelongsToLinks schema name value) ∧
      (name ∈ p.attributes ↔ ¬Payload.BelongsToLinks schema name value) := by
  have hlinks := getElem?_links_iff h name
  have hattributes := getElem?_attributes_iff h name
  rw [submitted] at hlinks hattributes
  rw [← Payload.isLink_iff, Bool.not_eq_true]
  constructor
  · rw [← Std.ExtTreeMap.isSome_getElem?_iff_mem, Option.isSome_iff_exists]
    exact ⟨fun ⟨other, hother⟩ => by
      obtain ⟨heq, hlink⟩ := (hlinks other).1 hother
      rw [Option.some.inj heq]
      exact hlink, fun hlink => ⟨value, (hlinks value).2 ⟨rfl, hlink⟩⟩⟩
  · rw [← Std.ExtTreeMap.isSome_getElem?_iff_mem, Option.isSome_iff_exists]
    exact ⟨fun ⟨other, hother⟩ => by
      obtain ⟨heq, hplain⟩ := (hattributes other).1 hother
      rw [Option.some.inj heq]
      exact hplain, fun hplain => ⟨value, (hattributes value).2 ⟨rfl, hplain⟩⟩⟩

theorem isSome_submitted?_iff (c : Changeset) (name : String) :
    (c.submitted? name).isSome = true ↔
      name ∈ c.changes.keys ∨ name ∈ (c.form.elim ∅ (·.payload) : Attributes).keys := by
  unfold submitted?
  rw [Option.isSome_or, Bool.or_eq_true, Std.ExtTreeMap.mem_keys, Std.ExtTreeMap.mem_keys,
    Std.ExtTreeMap.isSome_getElem?_iff_mem]
  cases c.form with
  | none => simp
  | some form => simp

theorem size_of_buildPayload (h : c.buildPayload schema = .ok p) :
    p.size = (c.changes.keys ++ (c.form.elim ∅ (·.payload) : Attributes).keys).toFinset.card := by
  have split := isSplit_of_buildPayload h
  have hnames : (p.entries.map (·.1)).toFinset =
      (c.changes.keys ++ (c.form.elim ∅ (·.payload) : Attributes).keys).toFinset := by
    ext name
    rw [List.mem_toFinset, List.mem_toFinset, List.mem_append, ← isSome_submitted?_iff,
      ← get?_of_buildPayload h, Option.isSome_iff_exists, List.mem_map]
    constructor
    · rintro ⟨⟨other, value⟩, hmem, rfl⟩
      exact ⟨value, (Payload.mem_entries_iff split _ _).1 hmem⟩
    · rintro ⟨value, hvalue⟩
      exact ⟨(name, value), (Payload.mem_entries_iff split _ _).2 hvalue, rfl⟩
  rw [← hnames, List.toFinset_card_of_nodup (Payload.nodup_entries split), List.length_map,
    Payload.length_entries]

/-- What a built payload holds: the version of the pristine snapshot, and the modification of each
attribute or else the value of the form, once, on the side where it belongs. -/
theorem payload_contents (h : c.buildPayload schema = .ok p) :
    p.lockVersion = c.pristine.lockVersion ∧
    (∀ name, p.get? name = c.changes[name]?.or (c.form.bind fun form => form.payload[name]?)) ∧
    (∀ name value, p.get? name = some value →
      (name ∈ p.links ↔ Payload.BelongsToLinks schema name value) ∧
      (name ∈ p.attributes ↔ ¬Payload.BelongsToLinks schema name value)) ∧
    (∀ name : String, ¬(name ∈ p.attributes ∧ name ∈ p.links)) ∧
    (p.entries.map (·.1)).Nodup ∧
    (∀ name value, (name, value) ∈ p.entries ↔ p.get? name = some value) ∧
    p.size = (c.changes.keys ++ (c.form.elim ∅ (·.payload) : Attributes).keys).toFinset.card := by
  have split := isSplit_of_buildPayload h
  refine ⟨lockVersion_of_buildPayload h, get?_of_buildPayload h, fun name value hvalue => ?_,
    fun name ⟨hattribute, hlink⟩ => ?_, Payload.nodup_entries split, Payload.mem_entries_iff split,
    size_of_buildPayload h⟩
  · rw [get?_of_buildPayload h] at hvalue
    exact mem_sides_iff h hvalue
  · rw [← Std.ExtTreeMap.isSome_getElem?_iff_mem] at hattribute hlink
    rcases split name with hnone | hnone
    · simp [hnone] at hattribute
    · simp [hnone] at hlink

end Built

theorem payload_contents_over_form :
    let form : Form :=
      { payload := (((∅ : Attributes).insert "subject" (.text "From form")).insert "status" .null).insert
          "parent" (.link { href := "/api/v3/work_packages/1" }) }
    let c : Changeset :=
      { pristine := { id := { text := "7" }, lockVersion := 3, typeHref := "task" }
        form := some form
        changes := (∅ : Attributes).insert "subject" (.text "Mine") }
    let schema : Schema :=
      { typeHref := "task"
        fields := ((∅ : TextMap FieldSchema).insert "subject" { writable := true }).insert "status"
          { kind := .link } }
    ∃ p, c.buildPayload schema = .ok p ∧ p.lockVersion = 3 ∧ p.size = 3 ∧
      p.get? "subject" = some (.text "Mine") ∧ "subject" ∈ p.attributes ∧
      p.get? "status" = some .null ∧ "status" ∈ p.links ∧ "parent" ∈ p.links := by
  intro form c schema
  have hok : (c.buildPayload schema).isOk = true := by decide +kernel
  rcases hb : c.buildPayload schema with errors | p
  · rw [hb] at hok
    cases hok
  · obtain ⟨hversion, hget, hsides, -, -, -, hsize⟩ := payload_contents hb
    have hsubject : p.get? "subject" = some (.text "Mine") := (hget _).trans (by decide +kernel)
    have hstatus : p.get? "status" = some .null := (hget _).trans (by decide +kernel)
    have hparent : p.get? "parent" = some (.link { href := "/api/v3/work_packages/1" }) :=
      (hget _).trans (by decide +kernel)
    have hkinds : ¬Payload.BelongsToLinks schema "subject" (.text "Mine") ∧
        Payload.BelongsToLinks schema "status" .null ∧
        Payload.BelongsToLinks schema "parent" (.link { href := "/api/v3/work_packages/1" }) := by
      simp only [← Payload.isLink_iff]
      decide +kernel
    exact ⟨p, rfl, hversion, hsize.trans (by decide +kernel), hsubject,
      (hsides _ _ hsubject).2.2 hkinds.1, hstatus, (hsides _ _ hstatus).1.2 hkinds.2.1,
      (hsides _ _ hparent).1.2 hkinds.2.2⟩

end Changeset

end Draftboard
