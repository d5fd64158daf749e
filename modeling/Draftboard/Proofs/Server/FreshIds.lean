import Mathlib.Data.List.Induction
import Draftboard.Proofs.Server.Stores
/-!
# Fresh ids

The id of a new work package is past every number that a stored id writes, however it writes it, so it
was not in use before. This is so whatever the server has been seeded with, and whenever.
-/

namespace Draftboard

theorem PackageId.ofNumber_inj {m n : Nat} (hm : m < UInt64.size) (hn : n < UInt64.size)
    (h : ofNumber m = ofNumber n) : m = n := by
  have hnumber := number?_ofNumber hm
  rw [h, number?_ofNumber hn] at hnumber
  exact (Option.some.inj hnumber).symm

namespace Server

/-! ## Seeds and requests in order -/

inductive Input where
  | insert (snapshot : Snapshot)
  | insertSchema (schema : Schema)
  | insertAttachment (a : Attachment)
  | call (call : Call)

def take (s : Server) : Input → Server
  | .insert snapshot => s.insert snapshot
  | .insertSchema schema => s.insertSchema schema
  | .insertAttachment a => s.insertAttachment a
  | .call call => s.perform call

def takeAll (s : Server) (inputs : List Input) : Server := inputs.foldl take s

def after (inputs : List Input) : Server := ({} : Server).takeAll inputs

def created? (s : Server) : Input → Option Snapshot
  | .call (.update now pristine payload) =>
    if pristine.isNew then (s.update now pristine payload).1.toOption else none
  | _ => none

theorem after_append (first rest : List Input) :
    after (first ++ rest) = (after first).takeAll rest := List.foldl_append

theorem Reachable.take {s : Server} (h : s.Reachable) (input : Input) : (s.take input).Reachable := by
  cases input with
  | insert snapshot => exact h.insert snapshot
  | insertSchema schema => exact h.insertSchema schema
  | insertAttachment a => exact h.insertAttachment a
  | call call => exact h.perform call

theorem reachable_after (inputs : List Input) : (after inputs).Reachable :=
  List.foldlRecOn inputs Server.take .empty fun _ h input _ => h.take input

/-! ## Creations -/

section Creations

variable {s : Server} {input : Input} {saved : Snapshot}

theorem exists_update (created : s.created? input = some saved) :
    ∃ now pristine payload, pristine.isNew = true ∧ input = .call (.update now pristine payload) ∧
      s.update now pristine payload = (.ok saved, s.take input) := by
  unfold created? at created
  split at created
  · rename_i now pristine payload
    split at created
    · rename_i hnew
      refine ⟨now, pristine, payload, hnew, rfl, Prod.ext ?_ rfl⟩
      exact eq_ok_of_toOption created
    · cases created
  · cases created

theorem id_of_created (h : s.WellFormed) (created : s.created? input = some saved)
    (room : s.lastId + 1 < UInt64.size) :
    saved.id = .ofNumber (s.lastId + 1) ∧ (s.take input).lastId = s.lastId + 1 := by
  obtain ⟨now, pristine, payload, hnew, rfl, hupdate⟩ := exists_update created
  have hid := saved_id h (update_eq_ok hupdate).2.1
  have hlast := lastId_of_update_eq_ok hupdate
  rw [if_pos hnew, nextCount_of_lt room] at hid hlast
  exact ⟨hid, hlast⟩

theorem stores_of_created (h : s.WellFormed) (created : s.created? input = some saved) :
    ∃ now, s.Stores (s.take input) saved now true := by
  obtain ⟨now, pristine, payload, hnew, rfl, hupdate⟩ := exists_update created
  have hstores := stores_of_update h hupdate
  rw [hnew] at hstores
  exact ⟨now, hstores⟩

theorem refused_of_created?_eq_none {now : Instant} {pristine : Snapshot} {payload : Payload}
    (hnew : pristine.isNew = true)
    (refused : s.created? (.call (.update now pristine payload)) = none) :
    s.failures.get .update ≠ [] ∧
      (s.take (.call (.update now pristine payload))).packages = s.packages := by
  have hanswer : (s.update now pristine payload).1.toOption = none := by
    rw [created?, if_pos hnew] at refused
    exact refused
  constructor
  · intro hq
    rw [fst_update_of_failures_eq_nil hq, savedRecord, if_pos hnew] at hanswer
    cases hanswer
  · rcases hu : s.update now pristine payload with ⟨error | saved, after⟩
    · obtain rfl := update_eq_error hu
      rw [take, perform, hu]
      exact (sameStore_begin s .update).packages
    · rw [hu] at hanswer
      cases hanswer

end Creations

/-! ## The last id -/

/-- No creation comes when the last id has been given out. -/
def IdsSuffice (inputs : List Input) : Prop :=
  ∀ (before : List Input) (next : Input) (saved : Snapshot), before ++ [next] <+: inputs →
    (after before).created? next = some saved → (after before).lastId + 1 < UInt64.size

theorem IdsSuffice.of_prefix {early inputs : List Input} (suffice : IdsSuffice inputs)
    (h : early <+: inputs) : IdsSuffice early :=
  fun before next saved hearly => suffice before next saved (hearly.trans h)

theorem idsInOrder_take {s : Server} (wellFormed : s.WellFormed) (h : s.IdsInOrder) (input : Input)
    (room : ∀ saved, s.created? input = some saved → s.lastId + 1 < UInt64.size) :
    s.lastId ≤ (s.take input).lastId ∧ (s.take input).IdsInOrder := by
  have hsame : ∀ {s' : Server}, s.SameStore s' → s.lastId ≤ s'.lastId ∧ s'.IdsInOrder := fun same =>
    ⟨Nat.le_of_eq same.lastId.symm, h.congr same.packages same.lastId⟩
  cases input with
  | insert snapshot => exact ⟨Nat.le_max_left _ _, idsInOrder_insert h snapshot⟩
  | insertSchema schema => exact ⟨Nat.le_refl _, h.congr rfl rfl⟩
  | insertAttachment a => exact ⟨Nat.le_refl _, h.congr rfl rfl⟩
  | call call =>
    cases call with
    | fetch id => exact hsame (sameStore_fetch s id)
    | fetchSchema typeHref => exact hsame (sameStore_fetchSchema s typeHref)
    | update now pristine payload =>
      simp only [take, perform]
      rcases hu : s.update now pristine payload with ⟨error | saved, after⟩
      · rw [update_eq_error hu]
        exact hsame (sameStore_begin s .update)
      · refine idsInOrder_of_update_eq_ok wellFormed h hu fun hnew => room saved ?_
        rw [created?, if_pos hnew, hu]
        rfl
    | updatedSince ids since => exact hsame (sameStore_updatedSince s ids since)
    | deleteAttachment a =>
      obtain ⟨attachments, heq⟩ := exists_deleteAttachment s a
      have hbegin := sameStore_begin s .delete
      rw [take, perform, heq]
      exact ⟨Nat.le_of_eq hbegin.lastId.symm, h.congr hbegin.packages hbegin.lastId⟩
    | failNext op error => exact hsame ⟨rfl, rfl, rfl, rfl⟩

theorem after_concat (inputs : List Input) (next : Input) :
    after (inputs ++ [next]) = (after inputs).take next := after_append inputs [next]

theorem idsInOrder_after {inputs : List Input} (suffice : IdsSuffice inputs) :
    (after inputs).IdsInOrder := by
  induction inputs using List.reverseRecOn with
  | nil => exact idsInOrder_empty
  | append_singleton before next ih =>
    rw [after_concat]
    have hbefore := ih (suffice.of_prefix (List.prefix_append before [next]))
    exact (idsInOrder_take (reachable_after before).wellFormed hbefore next fun saved =>
      suffice before next saved (List.prefix_refl _)).2

theorem lastId_le_of_prefix {early inputs : List Input} (suffice : IdsSuffice inputs)
    (h : early <+: inputs) : (after early).lastId ≤ (after inputs).lastId := by
  obtain ⟨rest, rfl⟩ := h
  induction rest using List.reverseRecOn with
  | nil => exact Nat.le_of_eq (by rw [List.append_nil])
  | append_singleton later next ih =>
    rw [← List.append_assoc] at suffice ⊢
    have hsofar := suffice.of_prefix (List.prefix_append (early ++ later) [next])
    rw [after_concat]
    refine Nat.le_trans (ih hsofar) ?_
    exact (idsInOrder_take (reachable_after _).wellFormed (idsInOrder_after hsofar) next fun saved =>
      suffice _ next saved (List.prefix_refl _)).1

/-! ## Created ids in a run -/

section Runs

variable {inputs before : List Input} {input : Input} {saved : Snapshot} (suffice : IdsSuffice inputs)
include suffice

theorem lastId_lt_of_created (created : (after before).created? input = some saved)
    (sofar : before ++ [input] <+: inputs) : (after before).lastId < (after inputs).lastId := by
  have hroom := suffice before input saved sofar created
  have hlast := (id_of_created (reachable_after before).wellFormed created hroom).2
  have hle := lastId_le_of_prefix suffice sofar
  rw [after_concat, hlast] at hle
  exact hle

theorem stored?_of_created (created : (after before).created? input = some saved)
    (sofar : before ++ [input] <+: inputs) {early : List Input} (earlier : early <+: before) :
    (after early).stored? saved.id = none := by
  have hroom := suffice before input saved sofar created
  have hbefore := suffice.of_prefix ((List.prefix_append before [input]).trans sofar)
  rw [(id_of_created (reachable_after before).wellFormed created hroom).1]
  have hle := lastId_le_of_prefix hbefore earlier
  exact packages_ofNumber (idsInOrder_after (hbefore.of_prefix earlier)) (Nat.lt_succ_of_le hle) hroom

theorem id_ne_of_created (created : (after before).created? input = some saved)
    {sofar : List Input} {next : Input} {other : Snapshot} (later : before ++ [input] <+: sofar)
    (again : (after sofar).created? next = some other) (whole : sofar ++ [next] <+: inputs) :
    other.id ≠ saved.id := by
  have hsofar := (List.prefix_append sofar [next]).trans whole
  have hgrown := lastId_lt_of_created (suffice.of_prefix hsofar) created later
  have hroom := suffice before input saved (later.trans hsofar) created
  have hagain := suffice sofar next other whole again
  rw [(id_of_created (reachable_after before).wellFormed created hroom).1,
    (id_of_created (reachable_after sofar).wellFormed again hagain).1]
  intro hsame
  have := PackageId.ofNumber_inj hagain hroom hsame
  omega

end Runs

/-- A request for a new work package goes through unless a failure was queued. The work package is
stored then under an id that was never in use, and all others keep their ids and what they were, apart
from a touched parent. No other creation of the run gives that id. This is so as long as there are ids
left to give out. -/
theorem created_ids_fresh {inputs : List Input} (suffice : IdsSuffice inputs)
    {before rest : List Input} {now : Instant} {pristine : Snapshot} {payload : Payload}
    (isNew : pristine.isNew = true)
    (taken : inputs = before ++ .call (.update now pristine payload) :: rest) :
    let request : Input := .call (.update now pristine payload)
    let s := after before
    let s' := after (before ++ [request])
    match s.created? request with
    | none => s.failures.get .update ≠ [] ∧ s'.packages = s.packages
    | some saved =>
      (∀ early, early <+: before → (after early).stored? saved.id = none) ∧
        s'.stored? saved.id = some saved ∧
        (∀ id stored, s.stored? id = some stored → s'.stored? id = some stored ∨
          saved.parentId? = some id ∧ ∃ now, s'.stored? id = some (stored.touch now)) ∧
        ∀ between next later other, rest = between ++ next :: later →
          (after (before ++ request :: between)).created? next = some other → other.id ≠ saved.id := by
  intro request s s'
  have hs' : s' = s.take request := after_append before [request]
  have hreached := (reachable_after before).wellFormed
  split
  · rename_i hrefused
    rw [hs']
    exact refused_of_created?_eq_none isNew hrefused
  · rename_i saved hcreated
    have hsofar : before ++ [request] <+: inputs := ⟨rest, by simp [taken, request]⟩
    have hunused : ∀ early, early <+: before → (after early).stored? saved.id = none := fun _ =>
      stored?_of_created suffice hcreated hsofar
    obtain ⟨touched, hstores⟩ := stores_of_created hreached hcreated
    refine ⟨hunused, hs' ▸ hstores.record, ?_, ?_⟩
    -- Its id was not in use, so all that is stored stays, a touched parent apart.
    · intro id stored hstored
      have hother : id ≠ saved.id := by
        rintro rfl
        rw [hunused before (List.prefix_refl before)] at hstored
        cases hstored
      rw [hs']
      exact hstores.kept hother hstored
    · intro between next later other hrest hother
      have hlater : before ++ [request] <+: before ++ request :: between := ⟨between, by simp⟩
      have hend : before ++ request :: between ++ [next] <+: inputs :=
        ⟨later, by simp [taken, hrest, request]⟩
      exact id_ne_of_created suffice hcreated hlater hother hend

/-- Ids are seeded as `007` and `+9`. One creation is refused, the next one gets 10; and after a seed
with the id 12 another one gets 13. -/
theorem created_ids_fresh_past_seeds :
    let seed (text : String) : Input := .insert { id := { text }, typeHref := "task" }
    let pristine : Snapshot := .unsaved "task"
    let payload : Payload := { lockVersion := 0 }
    let create : Input := .call (.update default pristine payload)
    let before : List Input :=
      [seed "007", seed "+9", .call (.failNext .update (.transport "offline")), create]
    let rest : List Input := [seed "12", create]
    IdsSuffice (before ++ create :: rest) ∧ pristine.isNew = true ∧
      ∃ saved other, (after before).created? create = some saved ∧ saved.id = .ofNumber 10 ∧
        (after before).stored? saved.id = none ∧ (after (before ++ [create])).stored? saved.id = some saved ∧
        (after (before ++ create :: [seed "12"])).created? create = some other ∧
        other.id = .ofNumber 13 ∧ other.id ≠ saved.id := by
  intro seed pristine payload create before rest
  have room : ∀ k < 7, (after ((before ++ create :: rest).take k)).lastId + 1 < UInt64.size := by
    decide +kernel
  have suffice : IdsSuffice (before ++ create :: rest) := by
    intro early next saved hearly _
    rw [List.prefix_iff_eq_take.1 ((List.prefix_append early [next]).trans hearly)]
    have hlength := hearly.length_le
    rw [List.length_append] at hlength
    exact room early.length hlength
  have isNew : pristine.isNew = true := by decide +kernel
  let created (id : PackageId) : Snapshot := { pristine with id, updatedAt := some default }
  have hfirst : (after before).created? create = some (created (.ofNumber 10)) := by decide +kernel
  have hsecond : (after (before ++ create :: [seed "12"])).created? create =
      some (created (.ofNumber 13)) := by decide +kernel
  have hfresh := @created_ids_fresh _ suffice before rest default pristine payload isNew rfl
  dsimp only at hfresh
  rw [show (after before).created? (.call (.update default pristine payload)) = _ from hfirst] at hfresh
  obtain ⟨hunused, hstored, -, hdistinct⟩ := hfresh
  exact ⟨suffice, isNew, _, _, hfirst, rfl, hunused before (List.prefix_refl before), hstored, hsecond, rfl,
    hdistinct [seed "12"] create [] _ rfl hsecond⟩

end Server

end Draftboard
