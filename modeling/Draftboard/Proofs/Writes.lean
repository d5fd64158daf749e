import Mathlib.Data.List.Induction
import Draftboard.Proofs.Payload
import Draftboard.Proofs.Sameness
import Draftboard.Proofs.Server.Updates
/-!
# What writes leave

A change-set has a modification just where the last value written since it was last cleared is not the
pristine one. So it shows what was written last, and it is empty just if it shows the pristine snapshot.
A pristine value that was written is not submitted, and a value of the form may take its place.
-/

namespace Draftboard

/-! ## The last write -/

/-- The last value that an attribute is given by a list of writes. -/
def lastWritten? (name : String) : List (String × AttrValue) → Option AttrValue
  | [] => none
  | (written, value) :: rest =>
    (lastWritten? name rest).or (if written = name then some value else none)

theorem lastWritten?_append (name : String) (first rest : List (String × AttrValue)) :
    lastWritten? name (first ++ rest) = (lastWritten? name rest).or (lastWritten? name first) := by
  induction first with
  | nil => simp [lastWritten?]
  | cons write first ih => rw [List.cons_append, lastWritten?, lastWritten?, ih, Option.or_assoc]

theorem lastWritten?_eq_none_iff {name : String} {writes : List (String × AttrValue)} :
    lastWritten? name writes = none ↔ name ∉ writes.map Prod.fst := by
  induction writes with
  | nil => simp [lastWritten?]
  | cons write rest ih =>
    simp only [lastWritten?, Option.or_eq_none_iff, ih, List.map_cons, List.mem_cons, not_or]
    constructor
    · rintro ⟨hrest, hfirst⟩
      refine ⟨?_, hrest⟩
      rintro rfl
      simp at hfirst
    · rintro ⟨hfirst, hrest⟩
      exact ⟨hrest, if_neg (Ne.symm hfirst)⟩

theorem lastWritten?_of_mem {name : String} {value : AttrValue} {writes : List (String × AttrValue)}
    (once : (writes.map Prod.fst).Nodup) (mem : (name, value) ∈ writes) :
    lastWritten? name writes = some value := by
  induction writes with
  | nil => cases mem
  | cons write rest ih =>
    rw [List.map_cons, List.nodup_cons] at once
    rw [lastWritten?]
    rcases List.mem_cons.1 mem with rfl | hrest
    · rw [lastWritten?_eq_none_iff.2 once.1, Option.none_or, if_pos rfl]
    · rw [ih once.2 hrest, Option.some_or]

namespace Changeset

/-- The last write decides, and it leaves no modification if it wrote the pristine value. -/
theorem getElem?_changes_setValues (c : Changeset) (name : String)
    (writes : List (String × AttrValue)) :
    (c.setValues writes).changes[name]? =
      match lastWritten? name writes with
      | some value => if (c.pristine.value name).same value then none else some value
      | none => c.changes[name]? := by
  induction writes generalizing c with
  | nil => rfl
  | cons write rest ih =>
    -- The first write counts only if the rest does not write that attribute.
    obtain ⟨written, value⟩ := write
    have hrest := ih (c.setValue written value)
    rw [pristine_setValue, getElem?_changes_setValue] at hrest
    refine hrest.trans ?_
    rw [lastWritten?]
    cases lastWritten? name rest with
    | some last => rfl
    | none =>
      by_cases heq : written = name
      · subst heq
        simp
      · simp [heq]

theorem setValues_inFlight (c : Changeset) (inFlight : Bool) (writes : List (String × AttrValue)) :
    ({ c with inFlight } : Changeset).setValues writes = { c.setValues writes with inFlight } := by
  induction writes generalizing c with
  | nil => rfl
  | cons write rest ih => exact ih (c.setValue write.1 write.2)

theorem setValues_append (c : Changeset) (first rest : List (String × AttrValue)) :
    c.setValues (first ++ rest) = (c.setValues first).setValues rest := List.foldl_append

/-! ## What is shown -/

theorem value_projected (c : Changeset) (name : String) : c.projected.value name = c.value name := by
  rw [Snapshot.value, getElem?_projected, value, Snapshot.value]
  split
  · rename_i hnull
    rw [hnull]
    rfl
  · cases c.changes[name]? <;> rfl

theorem value_setValues_of_unwritten {c : Changeset} {writes : List (String × AttrValue)} {name : String}
    (unwritten : lastWritten? name writes = none) : (c.setValues writes).value name = c.value name := by
  rw [value, getElem?_changes_setValues, pristine_setValues, unwritten]
  rfl

theorem value_setValues_of_written {c : Changeset} {writes : List (String × AttrValue)} {name : String}
    {value : AttrValue} (written : lastWritten? name writes = some value) :
    ((c.setValues writes).value name).same value = true := by
  rw [Changeset.value, getElem?_changes_setValues, pristine_setValues, written]
  dsimp only
  split
  · assumption
  · exact AttrValue.same_refl value

/-- Each modification is of another value than the pristine one. -/
def IsMinimal (c : Changeset) : Prop :=
  ∀ name value, c.changes[name]? = some value → (c.pristine.value name).same value = false

theorem isEmpty_iff (c : Changeset) : c.isEmpty = true ↔ ∀ name : String, c.changes[name]? = none := by
  rw [isEmpty, Std.ExtTreeMap.isEmpty_iff]
  constructor
  · intro hempty name
    simp [hempty]
  · intro hnone
    refine Std.ExtTreeMap.ext_getElem? fun name => ?_
    simp [hnone name]

theorem projected_of_isEmpty {c : Changeset} (empty : c.isEmpty = true) : c.projected = c.pristine := by
  have hattributes : c.projected.attributes = c.pristine.attributes := by
    refine Std.ExtTreeMap.ext_getElem? fun name => ?_
    simp [getElem?_projected, (isEmpty_iff c).1 empty name]
  show { c.pristine with attributes := c.projected.attributes } = c.pristine
  rw [hattributes]

theorem value_same_of_same {x y : Snapshot} (h : x.same y = true) (name : String) :
    (x.value name).same (y.value name) = true := by
  have hattributes : x.attributes.untitled = y.attributes.untitled :=
    congrArg Snapshot.attributes (Snapshot.same_iff.1 h)
  have hlookup := congrArg (·[name]?) hattributes
  simp only [Attributes.getElem?_untitled] at hlookup
  have huntitled : ∀ s : Snapshot,
      (s.value name).untitled = (s.attributes[name]?.map AttrValue.untitled).getD .null := by
    intro s
    rw [Snapshot.value]
    cases s.attributes[name]? <;> rfl
  rw [AttrValue.same_iff, huntitled, huntitled, hlookup]

theorem IsMinimal.isEmpty_of_projected_same {c : Changeset} (minimal : c.IsMinimal)
    (same : c.projected.same c.pristine = true) : c.isEmpty = true := by
  rw [isEmpty_iff]
  intro name
  cases hc : c.changes[name]? with
  | none => rfl
  | some value =>
    have hvalue := value_same_of_same same name
    rw [value_projected, Changeset.value, hc, Option.getD_some, AttrValue.same_comm,
      minimal name value hc] at hvalue
    cases hvalue

end Changeset

/-! ## Histories -/

/-- What is done with the modifications and the form of a change-set. -/
inductive Write where
  | set (name : String) (value : AttrValue)
  /-- A write to the projected resource. -/
  | project (name : String) (value : AttrValue)
  | attach (form : Form)
  | clear

def Write.sinceClear (history : List Write) : List (String × AttrValue) :=
  history.foldl (fun kept write =>
    match write with
    | set name value | project name value => kept ++ [(name, value)]
    | attach _ => kept
    | clear => []) []

namespace Changeset

def write (c : Changeset) : Write → Changeset
  | .set name value => c.setValue name value
  | .project name value => (c.projectedResource.set name value).changeset
  | .attach form => c.setForm form
  | .clear => c.clear

def writeAll (c : Changeset) (history : List Write) : Changeset := history.foldl write c

theorem pristine_writeAll (c : Changeset) (history : List Write) :
    (c.writeAll history).pristine = c.pristine := by
  unfold writeAll
  induction history generalizing c with
  | nil => rfl
  | cons write rest ih => exact (ih _).trans (by cases write <;> rfl)

theorem changes_writeAll (pristine : Snapshot) (form : Option Form) (history : List Write) :
    (({ pristine, form } : Changeset).writeAll history).changes =
      (({ pristine } : Changeset).setValues (Write.sinceClear history)).changes := by
  induction history using List.reverseRecOn with
  | nil => rfl
  | append_singleton earlier write ih =>
    have hpristine := pristine_writeAll { pristine, form } earlier
    have hwrite : ∀ name value,
        ((({ pristine, form } : Changeset).writeAll earlier).setValue name value).changes =
          (({ pristine } : Changeset).setValues
            (Write.sinceClear earlier ++ [(name, value)])).changes := by
      intro name value
      have hbase := pristine_setValues ({ pristine } : Changeset) (Write.sinceClear earlier)
      rw [setValues_append]
      show (setValue _ name value).changes = (setValue _ name value).changes
      rw [setValue, setValue, ih, hpristine, hbase]
    unfold writeAll Write.sinceClear at ih hwrite ⊢
    rw [List.foldl_append, List.foldl_append]
    cases write with
    | set name value | project name value => exact hwrite name value
    | attach form => exact ih
    | clear => rfl

section History

variable (pristine : Snapshot) (form : Option Form) (history : List Write)

theorem getElem?_changes_writeAll (name : String) :
    (({ pristine, form } : Changeset).writeAll history).changes[name]? =
      match lastWritten? name (Write.sinceClear history) with
      | some value => if (pristine.value name).same value then none else some value
      | none => none := by
  rw [changes_writeAll, getElem?_changes_setValues]
  simp

theorem isMinimal_writeAll : (({ pristine, form } : Changeset).writeAll history).IsMinimal := by
  intro name value hvalue
  rw [getElem?_changes_writeAll] at hvalue
  rw [pristine_writeAll]
  cases hl : lastWritten? name (Write.sinceClear history) with
  | none => simp [hl] at hvalue
  | some last =>
    rw [hl] at hvalue
    dsimp only at hvalue
    split at hvalue
    · cases hvalue
    · rename_i hdiffers
      rw [← Option.some.inj hvalue]
      exact Bool.eq_false_iff.2 hdiffers

end History

/-- After any history each modification is of another value than the pristine one, and each attribute
shows the value that it was given last since the last clearing, or else the pristine one. The projected
snapshot shows the same, with all else as it was; and it is the pristine one just if the change-set is
empty. -/
theorem shows_last_writes (pristine : Snapshot) (form : Option Form) (history : List Write) :
    let c := ({ pristine, form } : Changeset).writeAll history
    (∀ name value, c.changes[name]? = some value → (pristine.value name).same value = false) ∧
    (∀ name, (c.value name).same
      ((lastWritten? name (Write.sinceClear history)).getD (pristine.value name)) = true) ∧
    (∀ name, c.projected.value name = c.value name) ∧
    { c.projected with attributes := pristine.attributes } = pristine ∧
    (c.isEmpty = true → c.projected = pristine) ∧
    (c.projected.same pristine = true → c.isEmpty = true) := by
  intro c
  have hpristine : c.pristine = pristine := pristine_writeAll _ history
  have hminimal : c.IsMinimal := isMinimal_writeAll pristine form history
  refine ⟨hpristine ▸ hminimal, fun name => ?_, value_projected c, ?_, fun empty => ?_, fun same => ?_⟩
  · rw [value, getElem?_changes_writeAll, hpristine]
    cases lastWritten? name (Write.sinceClear history) with
    | none => exact AttrValue.same_refl _
    | some last =>
      dsimp only
      split
      · rename_i hsame
        exact hsame
      · exact AttrValue.same_refl last
  · show { c.pristine with attributes := pristine.attributes } = pristine
    rw [hpristine]
  · rw [projected_of_isEmpty empty, hpristine]
  · rw [← hpristine] at same
    exact hminimal.isEmpty_of_projected_same same

/-! ## What is submitted -/

theorem setValues_eq (c : Changeset) (writes : List (String × AttrValue)) :
    c.setValues writes = { c with changes := (c.setValues writes).changes } := by
  induction writes generalizing c with
  | nil => rfl
  | cons write rest ih => exact ih (c.setValue write.1 write.2)

/-- An attribute that was written shows the last value written, and a record like the pristine snapshot
is saved with that value unless it is the pristine one and the form has another. -/
theorem record_of_written {pristine : Snapshot} {form : Option Form} {schema : Schema}
    {writes : List (String × AttrValue)} {p : Payload}
    (built : (({ pristine, form } : Changeset).setValues writes).buildPayload schema = .ok p)
    {name : String} {value : AttrValue} (last : lastWritten? name writes = some value) :
    let c := ({ pristine, form } : Changeset).setValues writes
    let fromForm? := form.bind fun form => form.payload[name]?
    let saved := (pristine.applyPayload p).value name
    (c.value name).same value = true ∧ (c.projected.value name).same value = true ∧
    p.get? name = (if (pristine.value name).same value then fromForm? else some value) ∧
    saved = (p.get? name).getD (pristine.value name) ∧
    (saved.same value = true ↔ (pristine.value name).same value = false ∨
      ∀ other, fromForm? = some other → other.same value = true) := by
  intro c fromForm? saved
  have hchanges := getElem?_changes_setValues ({ pristine, form } : Changeset) name writes
  have hpristine : c.pristine = pristine := pristine_setValues _ writes
  have hform : c.form = form := congrArg Changeset.form (setValues_eq _ writes)
  have hsaved : saved = (p.get? name).getD (pristine.value name) := by
    show Snapshot.value _ name = _
    rw [Snapshot.value, Snapshot.getElem?_applyPayload (isSplit_of_buildPayload built), Option.getD_or]
    rfl
  rw [last] at hchanges
  have hget : p.get? name = if (pristine.value name).same value then fromForm? else some value := by
    refine (get?_of_buildPayload built name).trans ?_
    rw [submitted?, show c.form = form from hform, hchanges]
    dsimp only
    split <;> rfl
  have hshown : (c.value name).same value = true := by
    rw [Changeset.value, hchanges, hpristine]
    dsimp only
    split
    · rename_i hsame
      exact hsame
    · exact AttrValue.same_refl value
  refine ⟨hshown, (value_projected c name).symm ▸ hshown, hget, hsaved, ?_⟩
  -- A write of the pristine value leaves no modification, and then the value of the form is submitted.
  rw [hsaved, hget]
  cases hkept : (pristine.value name).same value with
  | false => simp
  | true => cases fromForm? <;> simp [hkept]

theorem record_of_written_renamed :
    let pristine : Snapshot :=
      { id := { text := "7" }, lockVersion := 3, typeHref := "task"
        attributes := (∅ : Attributes).insert "subject" (.text "Old") }
    let form : Form := { payload := (∅ : Attributes).insert "subject" (.text "From form") }
    let schema : Schema :=
      { typeHref := "task", fields := (∅ : TextMap FieldSchema).insert "subject" { writable := true } }
    let c := ({ pristine, form := some form } : Changeset).setValues
      [("subject", .text "Draft"), ("subject", .text "Mine")]
    ∃ p, c.buildPayload schema = .ok p ∧ p.get? "subject" = some (.text "Mine") ∧
      ((pristine.applyPayload p).value "subject").same (.text "Mine") = true := by
  intro pristine form schema c
  have hok : (c.buildPayload schema).isOk = true := by decide +kernel
  rcases hb : c.buildPayload schema with errors | p
  · rw [hb] at hok
    cases hok
  · have last : lastWritten? "subject" [("subject", .text "Draft"), ("subject", .text "Mine")] =
        some (.text "Mine") := rfl
    obtain ⟨-, -, hsubmitted, -, hsaved⟩ := record_of_written hb last
    exact ⟨p, rfl, hsubmitted, hsaved.2 (Or.inl (by decide +kernel))⟩

/-- A subject is renamed and then given its old name again. The change-set shows the old name, and the
record is saved with the name of the form. -/
theorem form_replaces_rewritten_subject :
    let pristine : Snapshot :=
      { id := { text := "7" }, lockVersion := 3, typeHref := "task"
        attributes := (∅ : Attributes).insert "subject" (.text "Old") }
    let form : Form := { payload := (∅ : Attributes).insert "subject" (.text "From form") }
    let schema : Schema :=
      { typeHref := "task", fields := (∅ : TextMap FieldSchema).insert "subject" { writable := true } }
    let writes := [("subject", .text "Mine"), ("subject", .text "Old")]
    let c := ({ pristine, form := some form } : Changeset).setValues writes
    ∃ p, c.buildPayload schema = .ok p ∧ lastWritten? "subject" writes = some (.text "Old") ∧
      c.value "subject" = .text "Old" ∧ p.get? "subject" = some (.text "From form") ∧
      (pristine.applyPayload p).value "subject" = .text "From form" ∧
      ((pristine.applyPayload p).value "subject").same (.text "Old") = false := by
  intro pristine form schema writes c
  have hok : (c.buildPayload schema).isOk = true := by decide +kernel
  have hshown : c.value "subject" = .text "Old" ∧ c.submitted? "subject" = some (.text "From form") := by
    decide +kernel
  rcases hb : c.buildPayload schema with errors | p
  · rw [hb] at hok
    cases hok
  · have hsubmitted := (get?_of_buildPayload hb "subject").trans hshown.2
    have hsaved : (pristine.applyPayload p).value "subject" = .text "From form" := by
      rw [Snapshot.value, Snapshot.getElem?_applyPayload (isSplit_of_buildPayload hb), hsubmitted]
      rfl
    exact ⟨p, rfl, by decide +kernel, hshown.1, hsubmitted, hsaved, by rw [hsaved]; decide⟩

end Changeset

end Draftboard
