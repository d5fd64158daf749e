import Mathlib.Data.List.Nodup
import Mathlib.Data.Set.Card
import Draftboard.Changeset.FilterDefaults
import Draftboard.Proofs.Writes
/-!
# What filters make of a change-set

Filters write one after the other, and each looks at the value that is shown when its turn comes. As long
as each has an attribute of its own their order does not matter, and a second time they change nothing.
What is counted are writes, not attributes: an attribute may be written twice, or be given the value that
it shows.
-/

namespace Draftboard

/-! ## Values that match -/

def AttrValue.isSingle : AttrValue → Bool
  | null | links _ => false
  | bool _ | int _ | text _ | date _ | link _ => true

namespace Filter

/-- What a filter takes for a match: a single value that is one of its own, or a list with one of its
links. -/
inductive Finds (values : List AttrValue) : AttrValue → Prop
  | value {shown listed : AttrValue} (single : shown.isSingle = true) (mem : listed ∈ values)
      (same : shown.same listed = true) : Finds values shown
  | link {links : List Link} {held listed : Link} (here : held ∈ links) (mem : .link listed ∈ values)
      (href : held.href = listed.href) : Finds values (.links links)

theorem matchesAny_iff (values : List AttrValue) (shown : AttrValue) :
    matchesAny values shown = true ↔ Finds values shown := by
  constructor
  · intro h
    cases shown with
    | null => cases h
    | links links =>
      simp only [matchesAny, List.any_eq_true, Option.any_eq_true, decide_eq_true_eq] at h
      obtain ⟨held, here, value, mem, listed, hlisted, href⟩ := h
      cases value with
      | link other =>
        cases hlisted
        exact .link here mem href.symm
      | null | bool | int | text | date | links => cases hlisted
    | bool | int | text | date | link =>
      simp only [matchesAny, List.any_eq_true] at h
      obtain ⟨listed, mem, same⟩ := h
      exact .value rfl mem same
  · intro h
    cases h with
    | @value shown listed single mem same =>
      have hany : values.any shown.same = true := List.any_eq_true.2 ⟨listed, mem, same⟩
      cases shown with
      | null | links => cases single
      | bool | int | text | date | link => exact hany
    | @link links held listed here mem href =>
      simp only [matchesAny, List.any_eq_true, Option.any_eq_true, decide_eq_true_eq]
      exact ⟨held, here, .link listed, mem, listed, rfl, href.symm⟩

theorem Finds.congr {values : List AttrValue} {shown other : AttrValue} (finds : Finds values shown)
    (same : other.same shown = true) : Finds values other := by
  rw [AttrValue.same_iff] at same
  cases finds with
  | value single mem hlisted =>
    refine .value ?_ mem ?_
    · cases shown <;> cases other <;> simp_all [AttrValue.untitled, AttrValue.isSingle]
    · rw [AttrValue.same_iff] at hlisted ⊢
      exact same.trans hlisted
  | @link links held listed here mem href =>
    cases other with
    | links others =>
      simp only [AttrValue.untitled, AttrValue.links.injEq] at same
      have hheld : held.untitled ∈ others.map Link.untitled := same ▸ List.mem_map_of_mem here
      obtain ⟨link, hlink, huntitled⟩ := List.mem_map.1 hheld
      exact .link hlink mem ((congrArg Link.href huntitled).trans href)
    | null | bool | int | text | date | link => simp [AttrValue.untitled] at same

/-! ## Filters that write -/

/-- An `=` filter with values, for an attribute that the change-set lets edit. -/
structure Binds (f : Filter) (schema : Schema) (c : Changeset) : Prop where
  operator : f.operator = .equals
  values : f.values ≠ []
  writable : c.isWritable f.name schema = true

/-- A filter that can be matched by what it writes: its values are single ones, and for a field of links
there is a link among them. -/
structure IsPlain (f : Filter) (schema : Schema) : Prop where
  single : ∀ value ∈ f.values, value.isSingle = true
  link : (∃ field, schema.get? f.name = some field ∧ field.kind = .links) →
    ∃ link, AttrValue.link link ∈ f.values

section Filter

variable (f : Filter) (schema : Schema) (c : Changeset)

theorem applies_iff :
    f.applies schema c = true ↔ f.Binds schema c ∧ ¬Finds f.values (c.value f.name) := by
  rw [← matchesAny_iff]
  simp only [applies, Bool.and_eq_true, decide_eq_true_eq, Bool.not_eq_true']
  constructor
  · rintro ⟨⟨⟨operator, values⟩, writable⟩, unmatched⟩
    exact ⟨⟨operator, values, writable⟩, by simp [unmatched]⟩
  · rintro ⟨⟨operator, values, writable⟩, unmatched⟩
    exact ⟨⟨⟨operator, values⟩, writable⟩, by simpa using unmatched⟩

def write? : Option (String × AttrValue) :=
  if f.applies schema c then (f.defaultValue? schema).map fun value => (f.name, value) else none

theorem write?_eq_some_iff {write : String × AttrValue} :
    f.write? schema c = some write ↔ f.applies schema c = true ∧ write.1 = f.name ∧
      f.defaultValue? schema = some write.2 := by
  obtain ⟨name, value⟩ := write
  unfold write?
  split
  · rename_i happlies
    simp only [Option.map_eq_some_iff, Prod.mk.injEq, happlies, true_and]
    constructor
    · rintro ⟨other, hdefault, rfl, rfl⟩
      exact ⟨rfl, hdefault⟩
    · rintro ⟨rfl, hdefault⟩
      exact ⟨value, hdefault, rfl, rfl⟩
  · rename_i happlies
    simp [happlies]

theorem exists_defaultValue? (values : f.values ≠ []) : ∃ value, f.defaultValue? schema = some value := by
  unfold defaultValue?
  rw [if_neg values]
  split
  · exact ⟨_, rfl⟩
  · exact Option.isSome_iff_exists.1 (List.isSome_head?.2 values)

theorem write?_congr {c c' : Changeset} (pristine : c'.pristine = c.pristine)
    (value : c'.value f.name = c.value f.name) : f.write? schema c' = f.write? schema c := by
  unfold write? applies Changeset.isWritable
  rw [pristine, value]

end Filter

theorem IsPlain.finds_defaultValue {f : Filter} {schema : Schema} (plain : f.IsPlain schema)
    {value : AttrValue} (default : f.defaultValue? schema = some value) : Finds f.values value := by
  unfold defaultValue? at default
  split at default
  · rename_i hlinks
    split at default
    · cases default
    · obtain ⟨field, hfield, hkind⟩ := (Option.any_eq_true ..).1 hlinks
      obtain ⟨link, hlink⟩ := plain.link ⟨field, hfield, of_decide_eq_true hkind⟩
      rw [← Option.some.inj default]
      exact .link (List.mem_filterMap.2 ⟨.link link, hlink, rfl⟩) hlink rfl
  · have hmem : value ∈ f.values := List.mem_of_mem_head? default
    exact .value (plain.single value hmem) hmem (AttrValue.same_refl value)

end Filter

/-! ## The writes of many filters -/

namespace Changeset

def filterWrites (schema : Schema) : Changeset → List Filter → List (String × AttrValue)
  | _, [] => []
  | c, f :: rest =>
    match f.write? schema c with
    | some (name, value) => (name, value) :: filterWrites schema (c.setValue name value) rest
    | none => filterWrites schema c rest

theorem applyFilter_eq (schema : Schema) (c : Changeset) (f : Filter) :
    c.applyFilter schema f =
      match f.write? schema c with
      | some (name, value) => (c.setValue name value, true)
      | none => (c, false) := by
  unfold applyFilter Filter.write?
  split
  · cases f.defaultValue? schema <;> rfl
  · rfl

def countFilter (schema : Schema) (counted : Changeset × Nat) (f : Filter) : Changeset × Nat :=
  ((counted.1.applyFilter schema f).1,
    if (counted.1.applyFilter schema f).2 then counted.2 + 1 else counted.2)

theorem foldl_countFilter (schema : Schema) (c : Changeset) (count : Nat) (filters : List Filter) :
    filters.foldl (countFilter schema) (c, count) =
      (c.setValues (c.filterWrites schema filters), count + (c.filterWrites schema filters).length) := by
  induction filters generalizing c count with
  | nil => rfl
  | cons f rest ih =>
    rw [List.foldl_cons, countFilter, filterWrites]
    dsimp only
    rw [applyFilter_eq schema c f]
    cases f.write? schema c with
    | none => exact ih c count
    | some write =>
      refine (ih (c.setValue write.1 write.2) (count + 1)).trans ?_
      rw [List.length_cons, Nat.add_right_comm, Nat.add_assoc]
      rfl

/-- Filters do nothing but write, and each write is counted. -/
theorem applyFilters_eq (schema : Schema) (c : Changeset) (filters : List Filter) :
    c.applyFilters schema filters =
      (c.setValues (c.filterWrites schema filters), (c.filterWrites schema filters).length) := by
  have hfold := foldl_countFilter schema c 0 filters
  rw [Nat.zero_add] at hfold
  exact hfold

theorem map_filterWrites_sublist (schema : Schema) (c : Changeset) (filters : List Filter) :
    ((c.filterWrites schema filters).map Prod.fst).Sublist (filters.map (·.name)) := by
  induction filters generalizing c with
  | nil => exact .slnil
  | cons f rest ih =>
    rw [filterWrites]
    cases hw : f.write? schema c with
    | none => exact (ih c).cons f.name
    | some write =>
      have hname : write.1 = f.name := ((f.write?_eq_some_iff schema c).1 hw).2.1
      dsimp only
      rw [List.map_cons, List.map_cons, hname]
      exact (ih _).cons_cons f.name

theorem exists_of_mem_filterWrites {schema : Schema} {c : Changeset} {filters : List Filter}
    {write : String × AttrValue} (mem : write ∈ c.filterWrites schema filters) :
    ∃ f ∈ filters, f.name = write.1 ∧ f.Binds schema c := by
  induction filters generalizing c with
  | nil => cases mem
  | cons f rest ih =>
    rw [filterWrites] at mem
    cases hw : f.write? schema c with
    | none =>
      rw [hw] at mem
      obtain ⟨g, hg, hname, hbinds⟩ := ih mem
      exact ⟨g, List.mem_cons_of_mem f hg, hname, hbinds⟩
    | some first =>
      rw [hw] at mem
      rcases List.mem_cons.1 mem with rfl | hlater
      · obtain ⟨happlies, hname, -⟩ := (f.write?_eq_some_iff schema c).1 hw
        exact ⟨f, List.mem_cons_self, hname.symm, ((f.applies_iff schema c).1 happlies).1⟩
      · -- Whether an attribute can be edited does not depend on what has been written.
        obtain ⟨g, hg, hname, hbinds⟩ := ih hlater
        exact ⟨g, List.mem_cons_of_mem f hg, hname, hbinds.operator, hbinds.values, hbinds.writable⟩

theorem applyFilters_fst_eq (schema : Schema) (c : Changeset) (filters : List Filter) :
    (c.applyFilters schema filters).1 =
      { c with changes := (c.applyFilters schema filters).1.changes } := by
  rw [applyFilters_eq]
  exact setValues_eq c _

theorem changes_applyFilters_of_unbound {schema : Schema} {c : Changeset} {filters : List Filter}
    {name : String} (unbound : ∀ f ∈ filters, f.name = name → ¬f.Binds schema c) :
    (c.applyFilters schema filters).1.changes[name]? = c.changes[name]? := by
  have hunwritten : lastWritten? name (c.filterWrites schema filters) = none := by
    rw [lastWritten?_eq_none_iff]
    intro hmem
    obtain ⟨write, hwrite, rfl⟩ := List.mem_map.1 hmem
    obtain ⟨f, hf, hname, hbinds⟩ := exists_of_mem_filterWrites hwrite
    exact unbound f hf hname hbinds
  rw [applyFilters_eq]
  dsimp only
  rw [getElem?_changes_setValues, hunwritten]

/-! ## One filter for each attribute -/

section Distinct

variable {schema : Schema} {c : Changeset} {filters : List Filter}
  (distinct : (filters.map (·.name)).Nodup)
include distinct

/-- A filter does not see what the others have written. -/
theorem mem_filterWrites_iff {write : String × AttrValue} :
    write ∈ c.filterWrites schema filters ↔ ∃ f ∈ filters, f.write? schema c = some write := by
  induction filters generalizing c with
  | nil => simp [filterWrites]
  | cons f rest ih =>
    rw [List.map_cons, List.nodup_cons] at distinct
    obtain ⟨hfirst, hrest⟩ := distinct
    rw [filterWrites, List.exists_mem_cons_iff]
    cases hw : f.write? schema c with
    | none => simpa using ih hrest
    | some first =>
      have hunseen : ∀ g ∈ rest, g.write? schema (c.setValue first.1 first.2) = g.write? schema c := by
        intro g hg
        have hname : first.1 ≠ g.name := by
          rw [((f.write?_eq_some_iff schema c).1 hw).2.1]
          exact fun heq => hfirst (heq ▸ List.mem_map_of_mem hg)
        refine g.write?_congr schema rfl ?_
        rw [Changeset.value, getElem?_changes_setValue, if_neg hname]
        rfl
      rw [List.mem_cons, ih hrest, Option.some.injEq, eq_comm]
      refine or_congr_right (exists_congr fun g => and_congr_right fun hg => ?_)
      rw [hunseen g hg]

theorem lastWritten?_filterWrites {f : Filter} (mem : f ∈ filters) :
    lastWritten? f.name (c.filterWrites schema filters) = (f.write? schema c).map Prod.snd := by
  cases hw : f.write? schema c with
  | some write =>
    have hname : f.name = write.1 := ((f.write?_eq_some_iff schema c).1 hw).2.1.symm
    rw [hname]
    refine lastWritten?_of_mem ?_ ((mem_filterWrites_iff distinct).2 ⟨f, mem, hw⟩)
    exact distinct.sublist (map_filterWrites_sublist schema c filters)
  | none =>
    rw [Option.map_none, lastWritten?_eq_none_iff]
    intro hmem
    obtain ⟨write, hwrite, hname⟩ := List.mem_map.1 hmem
    obtain ⟨g, hg, hgwrite⟩ := (mem_filterWrites_iff distinct).1 hwrite
    have hsame : g.name = f.name := by
      rw [← ((g.write?_eq_some_iff schema c).1 hgwrite).2.1, hname]
    rw [List.inj_on_of_nodup_map distinct hg mem hsame, hw] at hgwrite
    cases hgwrite

theorem changes_applyFilters {f : Filter} (mem : f ∈ filters) :
    (c.applyFilters schema filters).1.changes[f.name]? =
      match f.write? schema c with
      | some (_, value) => if (c.pristine.value f.name).same value then none else some value
      | none => c.changes[f.name]? := by
  rw [applyFilters_eq]
  dsimp only
  rw [getElem?_changes_setValues, lastWritten?_filterWrites distinct mem]
  cases f.write? schema c <;> rfl

theorem value_applyFilters_of_idle {f : Filter} (mem : f ∈ filters) (idle : f.write? schema c = none) :
    (c.applyFilters schema filters).1.value f.name = c.value f.name := by
  have hunwritten : lastWritten? f.name (c.filterWrites schema filters) = none := by
    rw [lastWritten?_filterWrites distinct mem, idle]
    rfl
  rw [applyFilters_eq]
  exact value_setValues_of_unwritten hunwritten

theorem value_applyFilters_of_write {f : Filter} (mem : f ∈ filters) {name : String} {value : AttrValue}
    (writes : f.write? schema c = some (name, value)) :
    ((c.applyFilters schema filters).1.value f.name).same value = true := by
  have hwritten : lastWritten? f.name (c.filterWrites schema filters) = some value := by
    rw [lastWritten?_filterWrites distinct mem, writes]
    rfl
  rw [applyFilters_eq]
  exact value_setValues_of_written hwritten

theorem applyFilters_applyFilters :
    ((c.applyFilters schema filters).1.applyFilters schema filters).1 =
      (c.applyFilters schema filters).1 := by
  have hpristine : (c.applyFilters schema filters).1.pristine = c.pristine := by
    rw [applyFilters_fst_eq]
  have hchanges : ((c.applyFilters schema filters).1.applyFilters schema filters).1.changes =
      (c.applyFilters schema filters).1.changes := by
    refine Std.ExtTreeMap.ext_getElem? fun name => ?_
    by_cases hnamed : ∃ f ∈ filters, f.name = name
    · obtain ⟨f, mem, rfl⟩ := hnamed
      rw [changes_applyFilters distinct mem]
      cases hagain : f.write? schema (c.applyFilters schema filters).1 with
      | none => rfl
      | some again =>
        cases hw : f.write? schema c with
        | none =>
          rw [f.write?_congr schema hpristine (value_applyFilters_of_idle distinct mem hw), hw] at hagain
          cases hagain
        | some write =>
          have hvalue : some again.2 = some write.2 := by
            rw [← ((f.write?_eq_some_iff schema _).1 hagain).2.2,
              ((f.write?_eq_some_iff schema c).1 hw).2.2]
          rw [changes_applyFilters distinct mem, hw, hpristine]
          dsimp only
          rw [Option.some.inj hvalue]
    · exact changes_applyFilters_of_unbound fun f mem hname => absurd ⟨f, mem, hname⟩ hnamed
  rw [applyFilters_fst_eq, hchanges]

theorem applyFilters_of_perm {others : List Filter} (perm : others.Perm filters) :
    c.applyFilters schema others = c.applyFilters schema filters := by
  have hothers : (others.map (·.name)).Nodup := (perm.map _).nodup_iff.2 distinct
  have hwrites : (c.filterWrites schema others).Perm (c.filterWrites schema filters) := by
    rw [List.perm_ext_iff_of_nodup]
    · intro write
      rw [mem_filterWrites_iff hothers, mem_filterWrites_iff distinct]
      exact exists_congr fun f => and_congr_left fun _ => perm.mem_iff
    · exact (hothers.sublist (map_filterWrites_sublist schema c others)).of_map _
    · exact (distinct.sublist (map_filterWrites_sublist schema c filters)).of_map _
  have hchanges : (c.applyFilters schema others).1.changes =
      (c.applyFilters schema filters).1.changes := by
    refine Std.ExtTreeMap.ext_getElem? fun name => ?_
    by_cases hnamed : ∃ f ∈ filters, f.name = name
    · obtain ⟨f, mem, rfl⟩ := hnamed
      rw [changes_applyFilters distinct mem, changes_applyFilters hothers (perm.mem_iff.2 mem)]
    · have hunbound : ∀ f ∈ filters, f.name = name → ¬f.Binds schema c :=
        fun f mem hname => absurd ⟨f, mem, hname⟩ hnamed
      rw [changes_applyFilters_of_unbound hunbound]
      exact changes_applyFilters_of_unbound fun f mem => hunbound f (perm.mem_iff.1 mem)
  have hcount := hwrites.length_eq
  refine Prod.ext ?_ ?_
  · rw [applyFilters_fst_eq, hchanges, ← applyFilters_fst_eq]
  · rw [applyFilters_eq, applyFilters_eq]
    exact hcount

end Distinct

/-- With one filter for each attribute, filters change nothing when they are applied again, and their
order does not matter. Only modifications change, and only those of attributes that a filter binds. A
value that matches stays, and after the filters a value matches wherever there is something to match. -/
theorem filter_defaults_stable (c : Changeset) (schema : Schema) {filters : List Filter}
    (distinct : (filters.map (·.name)).Nodup) :
    let after := (c.applyFilters schema filters).1
    (after.applyFilters schema filters).1 = after ∧
    (∀ others : List Filter, others.Perm filters →
      c.applyFilters schema others = c.applyFilters schema filters) ∧
    { after with changes := c.changes } = c ∧
    (∀ name, (∀ f ∈ filters, f.name = name → ¬f.Binds schema c) →
      after.changes[name]? = c.changes[name]?) ∧
    (∀ f ∈ filters, Filter.Finds f.values (c.value f.name) → after.value f.name = c.value f.name) ∧
    (∀ f ∈ filters, f.Binds schema c → f.IsPlain schema →
      Filter.Finds f.values (after.value f.name)) := by
  intro after
  have hkept : ∀ f ∈ filters, Filter.Finds f.values (c.value f.name) →
      after.value f.name = c.value f.name := by
    intro f mem finds
    refine value_applyFilters_of_idle distinct mem ?_
    unfold Filter.write?
    rw [if_neg]
    intro happlies
    exact ((f.applies_iff schema c).1 happlies).2 finds
  refine ⟨applyFilters_applyFilters distinct, fun others => applyFilters_of_perm distinct, ?_,
    fun name => changes_applyFilters_of_unbound, hkept, ?_⟩
  · show { (c.applyFilters schema filters).1 with changes := c.changes } = c
    rw [applyFilters_fst_eq]
  · intro f mem binds plain
    by_cases hfinds : Filter.Finds f.values (c.value f.name)
    · rw [hkept f mem hfinds]
      exact hfinds
    · have happlies := (f.applies_iff schema c).2 ⟨binds, hfinds⟩
      obtain ⟨value, hvalue⟩ := f.exists_defaultValue? schema binds.values
      have hwrite : f.write? schema c = some (f.name, value) :=
        (f.write?_eq_some_iff schema c).2 ⟨happlies, rfl, hvalue⟩
      exact (plain.finds_defaultValue hvalue).congr (value_applyFilters_of_write distinct mem hwrite)

theorem filter_defaults_stable_watched :
    let c : Changeset :=
      { pristine :=
          { id := .unsaved, typeHref := "task"
            attributes := (∅ : Attributes).insert "type" (.link { href := "bug", title := some "Bug" }) } }
    let schema : Schema :=
      { typeHref := "task"
        fields := ((∅ : TextMap FieldSchema).insert "type" { writable := true, kind := .link }).insert
          "watchers" { writable := true, kind := .links } }
    let byType : Filter :=
      { name := "type", operator := .equals, values := [.link { href := "task" }, .link { href := "bug" }] }
    let byWatchers : Filter :=
      { name := "watchers", operator := .equals, values := [.text "me", .link { href := "users/3" }] }
    let byAuthor : Filter :=
      { name := "author", operator := .equals, values := [.link { href := "users/1" }] }
    let after := (c.applyFilters schema [byType, byWatchers, byAuthor]).1
    (after.applyFilters schema [byType, byWatchers, byAuthor]).1 = after ∧
      c.applyFilters schema [byWatchers, byType, byAuthor] =
        c.applyFilters schema [byType, byWatchers, byAuthor] ∧
      after.value "type" = .link { href := "bug", title := some "Bug" } ∧
      after.changes["author"]? = none ∧
      Filter.Finds byWatchers.values (after.value "watchers") ∧
      after.value "watchers" = .links [{ href := "users/3" }] := by
  intro c schema byType byWatchers byAuthor after
  have distinct : ([byType, byWatchers, byAuthor].map (·.name)).Nodup := by decide
  obtain ⟨hagain, hperm, -, huntouched, hkept, hmatched⟩ := filter_defaults_stable c schema distinct
  have hfinds : Filter.Finds byType.values (c.value byType.name) := by
    rw [← Filter.matchesAny_iff]
    decide +kernel
  have hbinds : byWatchers.Binds schema c := ⟨rfl, by decide, by decide +kernel⟩
  have hplain : byWatchers.IsPlain schema := ⟨by decide, fun _ => ⟨{ href := "users/3" }, by decide⟩⟩
  refine ⟨hagain, hperm _ (.swap byType byWatchers _), ?_, ?_, ?_, by decide +kernel⟩
  · exact (hkept byType (by simp) hfinds).trans (by decide +kernel)
  · refine (huntouched "author" ?_).trans (by decide +kernel)
    intro f _ hname binds
    have hwritable := binds.writable
    rw [hname] at hwritable
    revert hwritable
    decide +kernel
  · exact hmatched byWatchers (by simp) hbinds hplain

/-! ## What is counted -/

def differing (before after : Changeset) : Set String :=
  {name | (before.value name).same (after.value name) = false}

theorem mem_differing_setValues_iff (c : Changeset) (writes : List (String × AttrValue)) (name : String) :
    name ∈ c.differing (c.setValues writes) ↔
      ∃ value, lastWritten? name writes = some value ∧ (c.value name).same value = false := by
  show (c.value name).same ((c.setValues writes).value name) = false ↔ _
  cases hl : lastWritten? name writes with
  | none =>
    rw [value_setValues_of_unwritten hl, AttrValue.same_refl]
    simp
  | some value =>
    have hshown := AttrValue.same_iff.1 (value_setValues_of_written (c := c) hl)
    simp only [Option.some.injEq, exists_eq_left', ← Bool.not_eq_true, AttrValue.same_iff, hshown]

theorem differing_setValues_subset (c : Changeset) (writes : List (String × AttrValue)) :
    c.differing (c.setValues writes) ⊆ ↑(writes.map Prod.fst).toFinset := by
  intro name hname
  obtain ⟨value, hvalue, -⟩ := (mem_differing_setValues_iff c writes name).1 hname
  rw [Finset.mem_coe, List.mem_toFinset]
  by_contra hunwritten
  rw [lastWritten?_eq_none_iff.2 hunwritten] at hvalue
  cases hvalue

theorem ncard_differing_le (c : Changeset) (writes : List (String × AttrValue)) :
    (c.differing (c.setValues writes)).ncard ≤ writes.length := by
  calc (c.differing (c.setValues writes)).ncard
      ≤ (↑(writes.map Prod.fst).toFinset : Set String).ncard :=
        Set.ncard_le_ncard (differing_setValues_subset c writes) (Finset.finite_toSet _)
    _ = (writes.map Prod.fst).toFinset.card := Set.ncard_coe_finset _
    _ ≤ (writes.map Prod.fst).length := List.toFinset_card_le _
    _ = writes.length := List.length_map _

/-- As many attributes differ as there are writes just if no attribute is written twice and every write is
of another value than the one shown. -/
theorem ncard_differing_eq_iff (c : Changeset) (writes : List (String × AttrValue)) :
    (c.differing (c.setValues writes)).ncard = writes.length ↔
      (writes.map Prod.fst).Nodup ∧ ∀ write ∈ writes, (c.value write.1).same write.2 = false := by
  have hsubset := differing_setValues_subset c writes
  have hlength : (writes.map Prod.fst).length = writes.length := List.length_map _
  constructor
  · intro heq
    have hle := Set.ncard_le_ncard hsubset (Finset.finite_toSet _)
    rw [Set.ncard_coe_finset] at hle
    have hcard : (writes.map Prod.fst).toFinset.card = (writes.map Prod.fst).length := by
      have hmost := List.toFinset_card_le (writes.map Prod.fst)
      omega
    have hnodup : (writes.map Prod.fst).Nodup :=
      Multiset.coe_nodup.1 (Multiset.toFinset_card_eq_card_iff_nodup.1 hcard)
    refine ⟨hnodup, ?_⟩
    rintro ⟨name, value⟩ mem
    -- As many differ as are written, so each attribute that is written differs.
    have hall : c.differing (c.setValues writes) = ↑(writes.map Prod.fst).toFinset := by
      refine Set.eq_of_subset_of_ncard_le hsubset ?_ (Finset.finite_toSet _)
      rw [Set.ncard_coe_finset]
      omega
    have hname : name ∈ c.differing (c.setValues writes) := by
      rw [hall, Finset.mem_coe, List.mem_toFinset]
      exact List.mem_map_of_mem mem
    obtain ⟨last, hlast, hdiffers⟩ := (mem_differing_setValues_iff c writes name).1 hname
    rw [lastWritten?_of_mem hnodup mem] at hlast
    rw [Option.some.inj hlast]
    exact hdiffers
  · rintro ⟨hnodup, hdiffers⟩
    have hall : c.differing (c.setValues writes) = ↑(writes.map Prod.fst).toFinset := by
      refine Set.Subset.antisymm hsubset ?_
      intro name hname
      rw [Finset.mem_coe, List.mem_toFinset] at hname
      obtain ⟨⟨name, value⟩, mem, rfl⟩ := List.mem_map.1 hname
      rw [mem_differing_setValues_iff]
      exact ⟨value, lastWritten?_of_mem hnodup mem, hdiffers _ mem⟩
    rw [hall, Set.ncard_coe_finset, List.toFinset_card_of_nodup hnodup, hlength]

theorem differs_of_write? {f : Filter} {schema : Schema} {c : Changeset} {write : String × AttrValue}
    (plain : f.IsPlain schema) (writes : f.write? schema c = some write) :
    (c.value write.1).same write.2 = false := by
  obtain ⟨happlies, hname, hdefault⟩ := (f.write?_eq_some_iff schema c).1 writes
  rw [hname, ← Bool.not_eq_true]
  intro hsame
  exact ((f.applies_iff schema c).1 happlies).2 ((plain.finds_defaultValue hdefault).congr hsame)

/-- The count is that of the writes, and no more attributes than that come to show another value. It is
their number just if no attribute is written twice and each write is of another value than the one shown;
so it is with one filter for each attribute and something to match in each. -/
theorem filters_counted_by_write (c : Changeset) (schema : Schema) (filters : List Filter) :
    let after := (c.applyFilters schema filters).1
    let count := (c.applyFilters schema filters).2
    let writes := c.filterWrites schema filters
    after = c.setValues writes ∧ count = writes.length ∧
    (c.differing after).Finite ∧ (c.differing after).ncard ≤ count ∧
    ((c.differing after).ncard = count ↔
      (writes.map Prod.fst).Nodup ∧ ∀ write ∈ writes, (c.value write.1).same write.2 = false) ∧
    ((filters.map (·.name)).Nodup → (∀ f ∈ filters, f.Binds schema c → f.IsPlain schema) →
      (c.differing after).ncard = count) := by
  intro after count writes
  have heq : c.applyFilters schema filters = (c.setValues writes, writes.length) :=
    applyFilters_eq schema c filters
  have hafter : after = c.setValues writes := congrArg Prod.fst heq
  have hcount : count = writes.length := congrArg Prod.snd heq
  rw [hafter, hcount]
  refine ⟨rfl, rfl, ?_, ncard_differing_le c writes, ncard_differing_eq_iff c writes,
    fun distinct plain => ?_⟩
  · exact (Finset.finite_toSet _).subset (differing_setValues_subset c writes)
  · rw [ncard_differing_eq_iff]
    refine ⟨distinct.sublist (map_filterWrites_sublist schema c filters), fun write mem => ?_⟩
    obtain ⟨f, hf, hwrite⟩ := (mem_filterWrites_iff distinct).1 mem
    have happlies := ((f.write?_eq_some_iff schema c).1 hwrite).1
    exact differs_of_write? (plain f hf ((f.applies_iff schema c).1 happlies).1) hwrite

theorem filters_counted_by_write_assigned :
    let c : Changeset := { pristine := { id := .unsaved, typeHref := "task" } }
    let schema : Schema :=
      { typeHref := "task"
        fields := (∅ : TextMap FieldSchema).insert "assignee" { writable := true, kind := .link } }
    let filters : List Filter :=
      [{ name := "assignee", operator := .equals, values := [.link { href := "users/1" }] }]
    (c.applyFilters schema filters).2 = 1 ∧
      (c.differing (c.applyFilters schema filters).1).ncard = 1 := by
  intro c schema filters
  have hcount : (c.applyFilters schema filters).2 = 1 := by decide +kernel
  obtain ⟨-, -, -, -, -, htruthful⟩ := filters_counted_by_write c schema filters
  refine ⟨hcount, (htruthful (by decide) ?_).trans hcount⟩
  intro f mem _
  rw [List.mem_singleton] at mem
  subst mem
  exact ⟨by decide, fun _ => ⟨{ href := "users/1" }, by decide⟩⟩

/-- A filter on null writes null over null. That is counted as one, and no attribute shows another
value. -/
theorem null_over_null_is_counted :
    let c : Changeset := { pristine := { id := .unsaved, typeHref := "task" } }
    let schema : Schema :=
      { typeHref := "task"
        fields := (∅ : TextMap FieldSchema).insert "assignee" { writable := true, kind := .link } }
    let filters : List Filter := [{ name := "assignee", operator := .equals, values := [.null] }]
    (c.applyFilters schema filters).2 = 1 ∧
      (c.differing (c.applyFilters schema filters).1).ncard = 0 := by
  intro c schema filters
  have hsame : (c.applyFilters schema filters).1 = c := by decide +kernel
  have hnone : c.differing c = ∅ := by
    ext name
    simp [differing]
  refine ⟨by decide +kernel, ?_⟩
  rw [hsame, hnone, Set.ncard_empty]

end Changeset

end Draftboard
