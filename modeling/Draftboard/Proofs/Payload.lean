import Draftboard.Changeset.Basic
/-!
# What a payload holds

A payload has a value for every modified attribute, and for every attribute of the form that is not
modified. It has each of them on one side only, so the order in which the sides are written onto
a record does not matter.
-/

namespace Draftboard

/-! ## Folding over a map -/

theorem lookup_foldl {α β : Type} (put : β → String → α → β) (look : β → String → Option α)
    (hput : ∀ b name value other,
      look (put b name value) other = if name = other then some value else look b other)
    (entries : List (String × α)) (distinct : entries.Pairwise fun a b => a.1 ≠ b.1)
    (b : β) (other : String) :
    look (entries.foldl (fun b (name, value) => put b name value) b) other =
      ((entries.find? (·.1 = other)).map (·.2)).or (look b other) := by
  induction entries generalizing b with
  | nil => simp
  | cons entry rest ih =>
    obtain ⟨name, value⟩ := entry
    obtain ⟨hfirst, hrest⟩ := List.pairwise_cons.1 distinct
    rw [List.foldl_cons, ih hrest, hput]
    by_cases h : name = other
    · subst h
      have hnone : rest.find? (·.1 = name) = none := by
        rw [List.find?_eq_none]
        intro later hlater
        simpa using (hfirst later hlater).symm
      simp [hnone]
    · simp [h]

theorem find?_toList {α : Type} (m : TextMap α) (name : String) :
    (m.toList.find? (·.1 = name)).map (·.2) = m[name]? := by
  cases hf : m.toList.find? (·.1 = name) with
  | none =>
    rw [Option.map_none, eq_comm, ← Option.not_isSome_iff_eq_none]
    intro hsome
    obtain ⟨value, hvalue⟩ := Option.isSome_iff_exists.1 hsome
    have hmem := Std.ExtTreeMap.mem_toList_iff_getElem?_eq_some.2 hvalue
    simpa using List.find?_eq_none.1 hf _ hmem
  | some entry =>
    obtain ⟨other, value⟩ := entry
    have hname : other = name := by simpa using List.find?_some hf
    have hmem := List.mem_of_find?_eq_some hf
    rw [Std.ExtTreeMap.mem_toList_iff_getElem?_eq_some] at hmem
    rw [Option.map_some, ← hname, hmem]

theorem lookup_foldl_toList {α β : Type} (put : β → String → α → β) (look : β → String → Option α)
    (hput : ∀ b name value other,
      look (put b name value) other = if name = other then some value else look b other)
    (m : TextMap α) (b : β) (other : String) :
    look (m.toList.foldl (fun b (name, value) => put b name value) b) other =
      m[other]?.or (look b other) := by
  have distinct : m.toList.Pairwise fun a b => a.1 ≠ b.1 :=
    m.distinct_keys_toList.imp fun h heq => h (Std.LawfulEqOrd.compare_eq_iff_eq.2 heq)
  rw [lookup_foldl put look hput _ distinct, find?_toList]

namespace Payload

/-! ## The two sides -/

def IsSplit (p : Payload) : Prop := ∀ name : String, p.attributes[name]? = none ∨ p.links[name]? = none

theorem isSplit_start (lockVersion : Nat) : IsSplit { lockVersion } := by
  intro name
  simp

theorem isSplit_place {p : Payload} (h : p.IsSplit) (schema : Schema) (name : String)
    (value : AttrValue) : (p.place schema name value).IsSplit := by
  intro other
  have hother := h other
  unfold place
  split <;>
  · simp only [Std.ExtTreeMap.getElem?_insert, Std.ExtTreeMap.getElem?_erase,
      Std.LawfulEqOrd.compare_eq_iff_eq]
    split <;> simp_all only [reduceCtorEq, or_true, true_or]

theorem lockVersion_place (schema : Schema) (p : Payload) (name : String) (value : AttrValue) :
    (p.place schema name value).lockVersion = p.lockVersion := by
  unfold place
  split <;> rfl

theorem isSplit_placeAll {p : Payload} (h : p.IsSplit) (schema : Schema) (values : Attributes) :
    (p.placeAll schema values).IsSplit := by
  unfold placeAll
  induction values.toList generalizing p with
  | nil => exact h
  | cons entry rest ih => exact ih (isSplit_place h schema entry.1 entry.2)

theorem lockVersion_placeAll (schema : Schema) (p : Payload) (values : Attributes) :
    (p.placeAll schema values).lockVersion = p.lockVersion := by
  unfold placeAll
  induction values.toList generalizing p with
  | nil => rfl
  | cons entry rest ih => exact (ih _).trans (lockVersion_place schema p entry.1 entry.2)

theorem get?_placeAll (schema : Schema) (p : Payload) (values : Attributes) (name : String) :
    (p.placeAll schema values).get? name = values[name]?.or (p.get? name) :=
  lookup_foldl_toList (place schema) get?
    (fun p name value other => get?_place schema p name other value) values p name

end Payload

namespace Changeset

/-! ## Built payloads -/

/-- The value that a payload has for an attribute: the modification, else the form's value. -/
def submitted? (c : Changeset) (name : String) : Option AttrValue :=
  c.changes[name]?.or (c.form.bind fun form => form.payload[name]?)

section Built

variable {c : Changeset} {schema : Schema} {p : Payload}

theorem eq_of_buildPayload_eq_ok (h : c.buildPayload schema = .ok p) :
    p = (Payload.placeAll schema
      (Payload.placeAll schema { lockVersion := c.pristine.lockVersion } (c.form.elim ∅ (·.payload)))
      c.changes) := by
  unfold buildPayload at h
  dsimp only at h
  split at h
  · exact (Except.ok.inj h).symm
  · cases h

theorem lockVersion_of_buildPayload (h : c.buildPayload schema = .ok p) :
    p.lockVersion = c.pristine.lockVersion := by
  rw [eq_of_buildPayload_eq_ok h, Payload.lockVersion_placeAll, Payload.lockVersion_placeAll]

theorem isSplit_of_buildPayload (h : c.buildPayload schema = .ok p) : p.IsSplit := by
  rw [eq_of_buildPayload_eq_ok h]
  exact Payload.isSplit_placeAll (Payload.isSplit_placeAll (Payload.isSplit_start _) _ _) _ _

theorem get?_of_buildPayload (h : c.buildPayload schema = .ok p) (name : String) :
    p.get? name = c.submitted? name := by
  have hform : (c.form.elim ∅ (·.payload) : Attributes)[name]? =
      c.form.bind fun form => form.payload[name]? := by
    cases c.form <;> simp
  rw [eq_of_buildPayload_eq_ok h, Payload.get?_placeAll, Payload.get?_placeAll, hform, submitted?]
  simp [Payload.get?]

end Built

end Changeset

end Draftboard
