import Draftboard.Replay.Run
import Draftboard.Proofs.Desk.Shelf
/-!
# Saves of different work packages

Two saves of different work packages come to the same in either order, as long as neither is the parent
of the other. Both may touch and fetch again one parent, share a schema, and fail.
-/

namespace Draftboard

theorem Replay.Session.isStandard_of_mem_hooks {settings : HookSettings} {hook : Hook}
    (mem : hook ∈ Replay.Session.hooks settings) : hook.IsStandard := by
  unfold Replay.Session.hooks at mem
  cases hook with
  | invalidateActivity | refreshParent | publishEvents => trivial
  | probe | custom => split at mem <;> split at mem <;> split at mem <;> simp at mem

theorem erase_comm {α : Type} (m : IdMap α) (a b : PackageId) :
    (m.erase a).erase b = (m.erase b).erase a := by
  refine Std.ExtTreeMap.ext_getElem? fun id => ?_
  simp only [Std.ExtTreeMap.getElem?_erase]
  split <;> split <;> rfl

/-! ## Two records on one shelf -/

theorem Shelf.keep_comm (s : Shelf) (refreshes : Bool) {first second : Snapshot}
    (different : first.id ≠ second.id) (apart : first.parentId? ≠ some second.id)
    (apart' : second.parentId? ≠ some first.id) :
    (s.keep refreshes first).keep refreshes second = (s.keep refreshes second).keep refreshes first := by
  have hstored : ∀ id, (s.keep refreshes first).storedAfter second id =
      (s.keep refreshes second).storedAfter first id := by
    intro id
    by_cases hfirst : first.id = id
    · subst hfirst
      simp [storedAfter, keep, different.symm, apart']
    · by_cases hsecond : second.id = id
      · subst hsecond
        simp [storedAfter, keep, different, apart]
      · -- A parent of both is touched twice.
        simp only [storedAfter, keep, if_neg hfirst, if_neg hsecond]
        split <;> split <;> rfl
  refine Shelf.ext (funext hstored) (funext fun id => ?_)
  have hstored' := hstored id
  by_cases hfirst : first.id = id
  · subst hfirst
    simp [storedAfter, keep, different.symm, apart']
  · by_cases hsecond : second.id = id
    · subst hsecond
      simp [storedAfter, keep, different, apart]
    · simp only [keep, storedAfter, if_neg hfirst, if_neg hsecond] at hstored' ⊢
      by_cases hp : first.parentId? = some id <;> by_cases hp' : second.parentId? = some id <;>
        cases refreshes <;> simp_all

namespace Desk

/-! ## What a save leaves to the next -/

/-- The snapshot has what is stored, if it goes by the stored version. -/
def IsFaithful (d : Desk) (h : Handle) : Prop :=
  ∀ stored, d.server.stored? (d.changeset h).id = some stored →
    stored.lockVersion = (d.changeset h).pristine.lockVersion →
      (d.changeset h).pristine.untimed.same stored.untimed = true

def StoresApart (d : Desk) (h other : Handle) : Prop :=
  ∀ after commit stored, d.save h = (after, .ok commit) →
    after.server.stored? (d.changeset h).id = some stored →
      stored.parentId? ≠ some (d.changeset other).id

theorem IsFaithful.lists {d : Desk} {h : Handle} (faithful : d.IsFaithful h) :
    (d.changeset h).Lists (d.shelf.stored (d.changeset h).id) := by
  intro current hcurrent hversion name hname
  obtain ⟨stored, hstored, rfl⟩ := Option.map_eq_some_iff.1 hcurrent
  exact (Snapshot.mem_iff_of_same (faithful stored hstored hversion) name).1 hname

section Next

variable {d after : Desk} {h other : Handle} {saved : Snapshot} {result : Except EditError Commit}

theorem id_of_verdict (calm : d.Calm) (verdict : d.verdict h = .ok saved) :
    saved.id = (d.changeset h).id := by
  obtain ⟨current, payload, hcurrent, rfl⟩ := Changeset.exists_of_verdict verdict
  obtain ⟨stored, hstored, rfl⟩ := Option.map_eq_some_iff.1 hcurrent
  exact (calm.reached.wellFormed.id_eq hstored :)

theorem StoresApart.parentId?_ne (apart : d.StoresApart h other) (calm : d.Calm)
    (comes : d.Comes h (d.save h).1 (d.save h).2) (verdict : d.verdict h = .ok saved) :
    saved.parentId? ≠ some (d.changeset other).id := by
  have hresult := comes.result
  have hshelf := comes.shelf
  rw [verdict] at hresult hshelf
  rcases hs : d.save h with ⟨after, error | commit⟩
  · rw [hs] at hresult
    cases hresult
  · rw [hs] at hshelf
    have hstored := congrArg (fun shelf => shelf.stored (d.changeset h).id) hshelf
    dsimp only [Shelf.keep, Shelf.storedAfter] at hstored
    rw [if_pos (id_of_verdict calm verdict)] at hstored
    obtain ⟨stored, hpackage, rfl⟩ := Option.map_eq_some_iff.1 hstored
    exact apart after commit stored hs hpackage

theorem Comes.calm_after (comes : d.Comes h (d.save h).1 result) (calm : d.Calm) :
    (d.save h).1.Calm := by
  obtain ⟨calls, hcalls⟩ := (changes_save d h).exists_run (by decide)
  exact
    { reached := hcalls ▸ calm.reached.run calls
      server := comes.calm
      hooks := by rw [comes.hooks]; exact calm.hooks }

theorem Upkeep.schemaAtHand_eq (upkeep : d.Upkeep h after) (typeHref : String) :
    after.schemaAtHand? typeHref = d.schemaAtHand? typeHref := by
  unfold schemaAtHand?
  rw [upkeep.schemas, upkeep.serverSchemas]
  split
  · unfold schemaAtHand?
    cases d.schemas[typeHref]? <;> simp
  · rfl

theorem Comes.stored_eq (comes : d.Comes h after result) (calm : d.Calm)
    (different : (d.changeset h).id ≠ (d.changeset other).id)
    (apart : ∀ saved, d.verdict h = .ok saved → saved.parentId? ≠ some (d.changeset other).id) :
    after.shelf.stored (d.changeset other).id = d.shelf.stored (d.changeset other).id := by
  rw [comes.shelf]
  cases hverdict : d.verdict h with
  | error => rfl
  | ok saved =>
    have hid := id_of_verdict calm hverdict
    show d.shelf.storedAfter saved (d.changeset other).id = _
    rw [Shelf.storedAfter, hid, if_neg different, if_neg (apart saved hverdict)]

theorem Comes.verdict_eq (comes : d.Comes h after result)
    (draft : after.changeset other = d.changeset other)
    (stored : after.shelf.stored (d.changeset other).id = d.shelf.stored (d.changeset other).id) :
    after.verdict other = d.verdict other := by
  unfold verdict
  rw [draft, stored, comes.schemaAtHand_eq]

theorem Comes.registered_eq (comes : d.Comes h after result)
    (different : (d.changeset h).id ≠ (d.changeset other).id) :
    after.registered? (d.changeset other).id = d.registered? (d.changeset other).id := by
  unfold registered?
  rw [comes.registry]
  split
  · split
    · rw [Std.ExtTreeMap.getElem?_erase, if_neg (by simpa using different)]
    · rfl
  · rfl

end Next

/-! ## Two saves in either order -/

/-- Two desks that differ at most in time, as far as the server, the caches and the registry go. -/
structure Alike (d d' : Desk) : Prop where
  shelf : d.shelf = d'.shelf
  serverSchemas : d.server.schemas = d'.server.schemas
  attachments : d.server.attachments = d'.server.attachments
  lastId : d.server.lastId = d'.server.lastId
  schemas : d.schemas = d'.schemas
  activity : d.activity = d'.activity
  registry : d.registry = d'.registry

/-- One of two saves: what it works on, and that it keeps away from the other work package. -/
structure Separate (d : Desk) (h other : Handle) : Prop where
  persisted : (d.changeset h).pristine.isNew = false
  faithful : d.IsFaithful h
  apart : d.StoresApart h other

section Pair

variable {d : Desk} {a b : Handle}

/-- The second of two saves does what it would have done alone. -/
structure Second (d : Desk) (first second : Handle) : Prop
    extends Comes (d.save first).1 second ((d.save first).1.save second).1
      ((d.save first).1.save second).2 where
  draft : (d.save first).1.changeset second = d.changeset second
  verdict : (d.save first).1.verdict second = d.verdict second
  registered : (d.save first).1.registered? (d.changeset second).id =
    d.registered? (d.changeset second).id

theorem second_of_separate (calm : d.Calm) (different : (d.changeset a).id ≠ (d.changeset b).id)
    (hfirst : d.Separate a b) (hsecond : d.Separate b a) : d.Second a b := by
  have comes := comes_save calm hfirst.persisted hfirst.faithful.lists
  have hne : a ≠ b := fun heq => different (by rw [heq])
  -- The first save leaves alone all that the verdict on the second is made from.
  have hdraft := comes.others b hne
  have hstored := comes.stored_eq calm different fun saved => hfirst.apart.parentId?_ne calm comes
  refine
    { toComes := comes_save (comes.calm_after calm) ?_ ?_
      draft := hdraft
      verdict := comes.verdict_eq hdraft hstored
      registered := comes.registered_eq different }
  · rw [hdraft]
    exact hsecond.persisted
  · rw [hdraft, hstored]
    exact hsecond.faithful.lists

theorem Second.result_eq (second : d.Second a b) (alone : d.Comes b (d.save b).1 (d.save b).2) :
    ((d.save a).1.save b).2.map Commit.untimed = (d.save b).2.map Commit.untimed := by
  rw [second.result, alone.result, second.verdict, second.draft]

variable (first : d.Comes a (d.save a).1 (d.save a).2) (second : d.Comes b (d.save b).1 (d.save b).2)
  (forth : d.Second a b) (back : d.Second b a)

include first second forth back

theorem shelf_comm (calm : d.Calm) (different : (d.changeset a).id ≠ (d.changeset b).id)
    (apart : d.StoresApart a b) (apart' : d.StoresApart b a) :
    ((d.save a).1.save b).1.shelf = ((d.save b).1.save a).1.shelf := by
  rw [forth.shelf, back.shelf, forth.verdict, back.verdict, first.shelf, second.shelf, first.hooks,
    second.hooks]
  cases hverdict : d.verdict a with
  | error => cases d.verdict b <;> rfl
  | ok saved =>
    cases hverdict' : d.verdict b with
    | error => rfl
    | ok saved' =>
      have hid := id_of_verdict calm hverdict
      have hid' := id_of_verdict calm hverdict'
      refine Shelf.keep_comm d.shelf _ ?_ ?_ ?_
      · rw [hid, hid']
        exact different
      · rw [hid']
        exact apart.parentId?_ne calm first hverdict
      · rw [hid]
        exact apart'.parentId?_ne calm second hverdict'

theorem schemas_comm : ((d.save a).1.save b).1.schemas = ((d.save b).1.save a).1.schemas := by
  refine Std.ExtTreeMap.ext_getElem? fun typeHref => ?_
  rw [forth.schemas, back.schemas, forth.draft, back.draft, first.schemas, second.schemas,
    first.schemaAtHand_eq, second.schemaAtHand_eq]
  split <;> split <;> rfl

theorem activity_comm : ((d.save a).1.save b).1.activity = ((d.save b).1.save a).1.activity := by
  rw [forth.activity, back.activity, forth.verdict, back.verdict, first.activity, second.activity,
    first.hooks, second.hooks]
  cases d.verdict a <;> cases d.verdict b <;> try rfl
  dsimp only
  split
  · exact erase_comm ..
  · rfl

theorem registry_comm : ((d.save a).1.save b).1.registry = ((d.save b).1.save a).1.registry := by
  rw [forth.registry, back.registry, forth.verdict, back.verdict, forth.draft, back.draft,
    forth.registered, back.registered, first.registry, second.registry]
  cases d.verdict a <;> cases d.verdict b <;> try rfl
  dsimp only
  split <;> split <;> first | rfl | exact erase_comm ..

end Pair

/-- In either order each save ends as it would alone, and the same is stored, cached and registered. -/
theorem saves_commute {d : Desk} {a b : Handle} (calm : d.Calm)
    (different : (d.changeset a).id ≠ (d.changeset b).id) (separate : d.Separate a b)
    (separate' : d.Separate b a) :
    ((d.save a).1.save b).2.map Commit.untimed = (d.save b).2.map Commit.untimed ∧
      ((d.save b).1.save a).2.map Commit.untimed = (d.save a).2.map Commit.untimed ∧
      ((d.save a).1.save b).1.Alike ((d.save b).1.save a).1 := by
  have first := comes_save calm separate.persisted separate.faithful.lists
  have second := comes_save calm separate'.persisted separate'.faithful.lists
  have forth := second_of_separate calm different separate separate'
  have back := second_of_separate calm different.symm separate' separate
  refine ⟨forth.result_eq second, back.result_eq first, ?_⟩
  exact
    { shelf := shelf_comm first second forth back calm different separate.apart separate'.apart
      serverSchemas := by
        rw [forth.serverSchemas, back.serverSchemas, first.serverSchemas, second.serverSchemas]
      attachments := by rw [forth.attachments, back.attachments, first.attachments, second.attachments]
      lastId := by rw [forth.lastId, back.lastId, first.lastId, second.lastId]
      schemas := schemas_comm first second forth back
      activity := activity_comm first second forth back
      registry := registry_comm first second forth back }

def siblingsDesk : Desk :=
  let family : Snapshot := { id := { text := "1" }, typeHref := "task" }
  let child (id : String) : Snapshot :=
    { id := { text := id }, typeHref := "task",
      attributes := (∅ : Attributes).insert Attribute.parent (.link { href := family.id.href }) }
  let draft (id : String) : Draft :=
    { changeset :=
        { pristine := child id, changes := (∅ : Attributes).insert Attribute.subject (.text "New") },
      reported := true }
  let schema : Schema :=
    { typeHref := "task",
      fields := (∅ : TextMap FieldSchema).insert Attribute.subject { writable := true } }
  let server := (((({} : Server).insert family).insert (child "2")).insert (child "3")).insertSchema schema
  let hooks := [.invalidateActivity, .refreshParent]
  ((({ server, hooks } : Desk).newDraft (draft "2")).1.newDraft (draft "3")).1

theorem saves_commute_siblings :
    siblingsDesk.Calm ∧ siblingsDesk.Separate 1 2 ∧ siblingsDesk.Separate 2 1 ∧
      (siblingsDesk.save 1).2.toOption.isSome = true ∧
      ((siblingsDesk.save 1).1.save 2).2.toOption.isSome = true ∧
      (((siblingsDesk.save 1).1.save 2).1.server.stored? { text := "1" }).map (·.lockVersion) = some 2 ∧
      ((siblingsDesk.save 1).1.save 2).1.Alike ((siblingsDesk.save 2).1.save 1).1 := by
  have calm : siblingsDesk.Calm :=
    { reached := .insertSchema _ (.insert _ (.insert _ (.insert _ .empty)))
      server := fun op => by cases op <;> rfl
      hooks := by
        intro hook hmem
        rcases List.mem_cons.1 hmem with rfl | hmem
        · trivial
        · rw [List.mem_singleton.1 hmem]
          trivial }
  have separate : ∀ h other, (h = 1 ∧ other = 2) ∨ (h = 2 ∧ other = 1) → siblingsDesk.Separate h other := by
    intro h other hpair
    have hpersisted : (siblingsDesk.changeset h).pristine.isNew = false := by
      rcases hpair with ⟨rfl, -⟩ | ⟨rfl, -⟩ <;> decide +kernel
    have hpristine : siblingsDesk.server.stored? (siblingsDesk.changeset h).id =
        some (siblingsDesk.changeset h).pristine := by
      rcases hpair with ⟨rfl, -⟩ | ⟨rfl, -⟩ <;> decide +kernel
    have hparent : ((siblingsDesk.save h).1.server.stored? (siblingsDesk.changeset h).id).map
        (·.parentId?) = some (some { text := "1" }) := by
      rcases hpair with ⟨rfl, -⟩ | ⟨rfl, -⟩ <;> decide +kernel
    have hother : some { text := "1" } ≠ some (siblingsDesk.changeset other).id := by
      rcases hpair with ⟨-, rfl⟩ | ⟨-, rfl⟩ <;> decide +kernel
    refine ⟨hpersisted, fun stored hstored _ => ?_, fun after commit stored hs hstored => ?_⟩
    · rw [hpristine] at hstored
      rw [Option.some.inj hstored]
      exact Snapshot.same_iff.2 rfl
    · rw [hs, hstored] at hparent
      exact ne_of_eq_of_ne (Option.some.inj hparent) hother
  have first := separate 1 2 (.inl ⟨rfl, rfl⟩)
  have second := separate 2 1 (.inr ⟨rfl, rfl⟩)
  obtain ⟨-, -, alike⟩ := saves_commute calm (by decide +kernel) first second
  exact ⟨calm, first, second, by decide +kernel, by decide +kernel, by decide +kernel, alike⟩

end Desk

end Draftboard
