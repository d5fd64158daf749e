import Mathlib.Data.List.Induction
import Draftboard.Proofs.Replay.Published
import Draftboard.Proofs.Desk.Registry
/-!
# Change-sets behind the cache

A change-set is handed out on the newest snapshot at hand. While it stays registered, a commit can bring
a newer one into the cache; nothing else can.
-/

namespace Draftboard

def Part.caching : List Part := [.cache, .watchers]

namespace Desk

/-! ## Behind the cache -/

/-- The change-set is based on a snapshot as new as the cached one. -/
def UpToDate (d : Desk) (id : PackageId) (h : Handle) : Prop :=
  ∃ cached, d.cache.get? id = some cached ∧
    cached.lockVersion ≤ (d.changeset h).pristine.lockVersion

/-- The registered change-set of a work package is not up to date. -/
structure Lags (d : Desk) (id : PackageId) (h : Handle) : Prop where
  registered : d.registered? id = some h
  behind : ¬d.UpToDate id h

variable {d d' : Desk} {id : PackageId} {h : Handle}

theorem Lags.congr (lags : d'.Lags id h) (registered : d.registered? id = some h)
    (pristine : (d'.changeset h).pristine = (d.changeset h).pristine)
    (cache : d'.cache.get? id = d.cache.get? id) : d.Lags id h := by
  refine ⟨registered, fun upToDate => lags.behind ?_⟩
  unfold UpToDate
  rw [cache, pristine]
  exact upToDate

theorem KeepsDrafts.lags (keeps : d.KeepsDrafts d') (cache : d'.cache = d.cache)
    (lags : d'.Lags id h) : d.Lags id h :=
  lags.congr (keeps.registry lags.registered) (keeps.pristine h) (by rw [cache])

theorem Change.cache_eq {part : Part} (change : d.Change part d') (unwritten : part ∉ Part.caching) :
    d'.cache = d.cache := by
  cases change with
  | put | drop | watch => exact absurd (by decide) unwritten
  | _ => rfl

theorem Changes.cache_eq {parts : List Part} (changes : d.Changes parts d')
    (unwritten : ∀ part ∈ parts, part ∉ Part.caching) : d'.cache = d.cache :=
  changes.lift (R := fun d d' => d'.cache = d.cache) (fun _ => rfl) (fun h h' => h'.trans h)
    fun mem change => change.cache_eq (unwritten _ mem)

theorem Changes.lags {parts : List Part} (changes : d.Changes parts d')
    (apart : ∀ part ∈ parts, part ∉ .drafts :: .filed :: Part.caching) (lags : d'.Lags id h) :
    d.Lags id h := by
  have hkeeps := changes.keepsDrafts (fun mem => apart _ mem (by decide)) fun mem => apart _ mem (by decide)
  refine hkeeps.lags (changes.cache_eq fun part mem hcaching => apart part mem ?_) lags
  exact List.mem_cons_of_mem _ (List.mem_cons_of_mem _ hcaching)

theorem lags_of_load (sound : d.Sound) (wanted : PackageId) (lags : (d.load wanted).1.Lags id h) :
    d.Lags id h := by
  have hkeeps := ((changes_load d wanted).bystands (by decide)).keepsDrafts
  by_cases hcached : d.cache.get? id = none
  · -- Nothing was cached, so the change-set was behind before.
    refine ⟨hkeeps.registry lags.registered, ?_⟩
    rintro ⟨cached, hsome, -⟩
    rw [hcached] at hsome
    cases hsome
  · refine lags.congr (hkeeps.registry lags.registered) (hkeeps.pristine h) ?_
    cases hc : d.cache.get? wanted with
    | some x => rw [load_cached hc]
    | none =>
      rcases hf : d.server.fetch wanted with ⟨error | fresh, after⟩
      · rw [load_missing hc hf]
      · have hne : fresh.id ≠ id := by
          rintro rfl
          have hid := sound.reached.wellFormed.id_eq
            (stored_of_fetch sound.reached.wellFormed hf).1
          rw [hid] at hcached
          exact hcached hc
        rw [load_fetched hc hf, cache_putPackage, PackageCache.get?_put, if_neg hne]

theorem lags_of_newDraft (sound : d.Sound) {draft : Draft} (lags : (d.newDraft draft).1.Lags id h) :
    d.Lags id h := by
  have hregistered : d.registered? id = some h := lags.registered
  refine lags.congr hregistered ?_ rfl
  rw [changeset_newDraft_of_known sound.numbered draft (sound.filed.known hregistered)]

theorem upToDate_startEditing {x : Snapshot} (cached : d.cache.get? x.id = some x) (form : Option Form) :
    (d.startEditing (d.latest x) form).1.UpToDate x.id (d.lastHandle + 1) := by
  refine ⟨x, cached, ?_⟩
  rw [changeset_startEditing]
  exact ((lockVersion_latest_le_iff d x _).1 (Nat.le_refl _)).1

theorem lags_of_changeFor (sound : d.Sound) (persisted : id ≠ .unsaved) {x : Snapshot}
    (atHand : x.isNew = true ∨ d.cache.get? x.id = some x) {form : Option Form}
    (lags : (d.changeFor x form).1.Lags id h) : d.Lags id h := by
  have hgives := gives_changeFor sound.filed.keyed x form
  generalize d.changeFor x form = given at hgives lags
  cases hgives with
  | registered => exact lags
  | new outdated =>
    have hid := sound.filed.keyed.id_latest x
    have hlook := registered?_startEditing d (d.latest x) form id
    by_cases hmine : x.id = id
    · -- The registered change-set is the new one, and that one is up to date.
      subst hmine
      rw [if_pos hid, lags.registered] at hlook
      cases hlook
      have hcached := atHand.resolve_left fun hnew => persisted ((PackageId.isNew_iff _).1 hnew)
      exact absurd (upToDate_startEditing hcached form) lags.behind
    · rw [if_neg (hid ▸ hmine), lags.registered] at hlook
      have hknown := sound.filed.known hlook.symm
      refine lags.congr hlook.symm ?_ rfl
      exact congrArg Changeset.pristine (changeset_newDraft_of_known sound.numbered _ hknown)

/-- No chore leaves a change-set behind that was not behind before. -/
theorem Chore.lags (chore : d.Chore d') (sound : d.Sound) (persisted : id ≠ .unsaved)
    (lags : d'.Lags id h) : d.Lags id h := by
  cases chore with
  | load wanted => exact lags_of_load sound wanted lags
  | ensureSchema typeHref => exact (changes_ensureSchema d typeHref).lags (by decide) lags
  | changeFor atHand form => exact lags_of_changeFor sound persisted atHand lags
  | detached x => exact lags_of_newDraft sound lags
  | edit keeps => exact (changes_rewrite d keeps).edit.lags (by decide) lags
  | reset k => exact (changes_reset d k).lags (by decide) lags
  | stopEditing wanted => exact (changes_stopEditing d wanted).lags (by decide) lags
  | failedSave failed => exact (changes_failedSave failed).lags (by decide) lags
  | failedRemoval failed =>
    obtain ⟨error, server, notice, -, rfl⟩ := exists_failedRemoval failed
    exact lags.congr lags.registered rfl rfl
  | notify notice => exact (Change.notify notice).changes.lags (by decide) lags
  | readClock => exact Change.tick.changes.lags (by decide) lags

theorem Chores.lags (chores : d.Chores d') (sound : d.Sound) (persisted : id ≠ .unsaved)
    (lags : d'.Lags id h) : d.Lags id h := by
  induction chores with
  | refl => exact lags
  | tail first chore ih => exact ih (chore.lags (Chores.sound first sound) persisted lags)

end Desk

namespace Replay

open Desk

/-! ## Steps and runs -/

/-- The step asks the session for a change-set and gets `h`, on the desk `d`. -/
inductive Step.ActsOn (s : Session) (id : PackageId) (d : Desk) (h : Handle) : Step → Prop
  | set (name : String) (value : AttrValue) (found : s.changeset id = (d, .ok h)) :
      ActsOn s id d h (.set id name value)
  | save (found : s.changeset id = (d, .ok h)) : ActsOn s id d h (.save id)
  | filterDefaults (filters : List Filter) (found : s.changeset id = (d, .ok h)) :
      ActsOn s id d h (.filterDefaults id filters)

theorem Step.ActsOn.found {s : Session} {id : PackageId} {d : Desk} {h : Handle} {step : Step}
    (acts : ActsOn s id d h step) : s.changeset id = (d, .ok h) := by
  cases acts <;> assumption

def StepResult.isCommit : StepResult → Bool
  | committed .. => true
  | failed .. | modified _ | cleared | cancelled | noChange | removed => false

theorem Step.Ends.lags {step : Step} {d d' : Desk} {result : StepResult}
    (ends : step.Ends d d' result) (sound : d.Sound) {id : PackageId} (persisted : id ≠ .unsaved)
    {h : Handle} (lags : d'.Lags id h) : d.Lags id h ∨ result.isCommit = true := by
  cases ends with
  | quiet chores => exact Or.inl (chores.lags sound persisted lags)
  | saved works => exact Or.inr rfl
  | removed asked gone =>
    obtain ⟨server, -, rfl⟩ := exists_removal gone
    exact Or.inl (lags.congr lags.registered rfl rfl)

theorem Session.exists_commit_of_lags {s : Session} (sound : s.desk.Sound) {id : PackageId}
    (persisted : id ≠ .unsaved) {h : Handle} (fresh : ¬s.desk.Lags id h) (steps : List Step)
    (lags : (s.runAll 0 steps).1.desk.Lags id h) :
    ∃ first commit between, steps = first ++ commit :: between ∧
      ((s.runAll 0 first).1.run commit).2.isCommit = true ∧
      ¬(s.runAll 0 first).1.desk.Lags id h ∧
      (s.runAll 0 (first ++ [commit])).1.desk.Lags id h := by
  -- From the end: the last step that was not behind before it is the commit.
  induction steps using List.reverseRecOn with
  | nil => exact absurd lags fresh
  | append_singleton done last ih =>
    by_cases hbefore : (s.runAll 0 done).1.desk.Lags id h
    · obtain ⟨first, commit, between, rfl, hcommit⟩ := ih hbefore
      exact ⟨first, commit, between ++ [last], by simp, hcommit⟩
    · refine ⟨done, last, [], rfl, ?_, hbefore, lags⟩
      rw [runAll_concat] at lags
      have hsound := sound_runAll sound 0 done
      exact ((ends_run hsound last).lags hsound persisted lags).resolve_left hbefore

theorem Session.upToDate_changeset {s : Session} (sound : s.desk.Sound) {id : PackageId}
    (unregistered : s.desk.registered? id = none) {d : Desk} {h : Handle}
    (found : s.changeset id = (d, .ok h)) : d.UpToDate id h := by
  unfold changeset at found
  rw [unregistered] at found
  have hload := (s.desk.changes_load id).bystands (by decide)
  unfold changeForId at found
  rcases hl : s.desk.load id with ⟨loaded, error | x⟩ <;> rw [hl] at found hload
  · cases found
  · obtain ⟨rfl, hcached⟩ := sound.cached_of_load hl
    have hready := hload.trans ((loaded.changes_ensureSchema x.typeHref).bystands (by decide))
    obtain ⟨server, schemas, heq, -⟩ := exists_ensureSchema loaded x.typeHref
    dsimp only at found
    rcases hs : loaded.ensureSchema x.typeHref with ⟨ready, error | schema⟩ <;>
      rw [hs] at found hready heq
    · cases found
    · dsimp only at heq
      have hstill : ready.cache.get? x.id = some x := by rw [heq]; exact hcached
      have hnone : ready.registered? x.id = none := by
        rw [registered?, hready.registry]
        exact unregistered
      have hgives := gives_changeFor (hready.keyed sound.filed.keyed) x none
      dsimp only [Except.mapError] at found
      generalize ready.changeFor x none = given at hgives found
      cases found
      cases hgives with
      | registered hr =>
        rw [hnone] at hr
        cases hr
      | new => exact upToDate_startEditing hstill none

/-- A set, a save or filter defaults act on a change-set that is up to date if none was registered. Else
they act on the registered one as it is, and it may be behind the cache. Then it has been left behind
by an earlier step, and that step was a commit. -/
theorem behind_only_after_commit {script : Script} {settings : EditorSettings} {clock : Clock}
    {session : Session} (opened : Session.start script settings clock = .ok session)
    {done rest : List Step} {step : Step} (taken : script.steps = done ++ step :: rest)
    {id : PackageId} (persisted : id ≠ .unsaved) {d : Desk} {h : Handle}
    (acts : step.ActsOn (session.runAll 0 done).1 id d h) :
    let before := (session.runAll 0 done).1.desk
    (before.registered? id = none → d.UpToDate id h) ∧
      (∀ k, before.registered? id = some k → h = k ∧ d = before) ∧
      (¬d.UpToDate id h → ∃ first commit between, script.steps = first ++ commit :: between ∧
        first.length < done.length ∧
        ((session.runAll 0 first).1.run commit).2.isCommit = true ∧
        ¬(session.runAll 0 first).1.desk.Lags id h ∧
        (session.runAll 0 (first ++ [commit])).1.desk.Lags id h) := by
  have hstart := Session.sound_start opened
  have hsound := Session.sound_runAll hstart 0 done
  have hfound := acts.found
  have hfresh := fun hnone => Session.upToDate_changeset hsound hnone hfound
  have hregistered : ∀ k, (session.runAll 0 done).1.desk.registered? id = some k →
      h = k ∧ d = (session.runAll 0 done).1.desk := by
    intro k hk
    unfold Session.changeset at hfound
    rw [hk] at hfound
    cases hfound
    exact ⟨rfl, rfl⟩
  refine ⟨hfresh, hregistered, fun behind => ?_⟩
  cases hr : (session.runAll 0 done).1.desk.registered? id with
  | none => exact absurd (hfresh hr) behind
  | some k =>
    obtain ⟨rfl, rfl⟩ := hregistered k hr
    -- At the start nothing is registered, so nothing is behind.
    have hfirst : ¬session.desk.Lags id h := by
      intro lags
      have hnone := lags.registered
      rw [(Session.desk_start opened).2] at hnone
      simp [registered?] at hnone
    obtain ⟨first, commit, between, rfl, hcommit⟩ :=
      Session.exists_commit_of_lags hstart persisted hfirst done ⟨hr, behind⟩
    exact ⟨first, commit, between ++ step :: rest, by simp [taken], by simp, hcommit⟩

/-- The edit of a parent is reverted, and then a child is saved, which touches the parent. The next edit
of the parent is to come. -/
def revertedThenTouched : List Step :=
  [.set { text := "1" } Attribute.subject (.text "B"), .set { text := "1" } Attribute.subject (.text "A"),
    .set { text := "2" } Attribute.subject (.text "C"), .save { text := "2" }]

def editsReverted : Script :=
  { fixtures := family
    steps := revertedThenTouched ++ [.set { text := "1" } Attribute.subject (.text "D")] }

theorem exists_acting :
    ∃ session d, Session.start editsReverted {} default = .ok session ∧
      Step.ActsOn (session.runAll 0 revertedThenTouched).1 { text := "1" } d 1
        (.set { text := "1" } Attribute.subject (.text "D")) ∧
      (d.changeset 1).isEmpty = true ∧ (d.changeset 1).pristine.lockVersion = 0 ∧
      d.cachedVersion { text := "1" } = some 1 := by
  have hfacts : (Session.start editsReverted {} default).toOption.any (fun session =>
      let (d, found) := (session.runAll 0 revertedThenTouched).1.changeset { text := "1" }
      found.toOption = some 1 && (d.changeset 1).isEmpty &&
        (d.changeset 1).pristine.lockVersion = 0 && d.cachedVersion { text := "1" } = some 1) = true := by
    decide +kernel
  rcases hs : Session.start editsReverted {} default with error | session <;> rw [hs] at hfacts
  · cases hfacts
  · rcases hc : (session.runAll 0 revertedThenTouched).1.changeset { text := "1" } with ⟨d, found⟩
    simp only [Except.toOption, Option.any_some, hc, Bool.and_eq_true, decide_eq_true_eq] at hfacts
    obtain ⟨⟨⟨hfound, hempty⟩, hpristine⟩, hcached⟩ := hfacts
    rw [eq_ok_of_toOption hfound] at hc
    exact ⟨session, d, rfl, .set _ _ hc, hempty, hpristine, hcached⟩

theorem behind_only_after_commit_touched :
    ∃ session first commit between, Session.start editsReverted {} default = .ok session ∧
      editsReverted.steps = first ++ commit :: between ∧ first.length < 4 ∧
      ((session.runAll 0 first).1.run commit).2.isCommit = true ∧
      (session.runAll 0 (first ++ [commit])).1.desk.Lags { text := "1" } 1 := by
  obtain ⟨session, d, hstart, acts, -, hpristine, hversion⟩ := exists_acting
  obtain ⟨-, -, hbehind⟩ := behind_only_after_commit hstart rfl (by decide) acts
  have hlags : ¬d.UpToDate { text := "1" } 1 := by
    rintro ⟨cached, hcached, hle⟩
    rw [Desk.cachedVersion, hcached, Option.map_some] at hversion
    have := Option.some.inj hversion
    omega
  obtain ⟨first, commit, between, hsteps, hlength, hcommit, -, hafter⟩ := hbehind hlags
  exact ⟨session, first, commit, between, hstart, hsteps, hlength, hcommit, hafter⟩

/-- An edit can act on a change-set with no modifications that is behind the cache. -/
theorem set_acts_on_stale_empty :
    ∃ session d, Session.start editsReverted {} default = .ok session ∧
      Step.ActsOn (session.runAll 0 revertedThenTouched).1 { text := "1" } d 1
        (.set { text := "1" } Attribute.subject (.text "D")) ∧
      (d.changeset 1).isEmpty = true ∧
      ∃ cached, d.cache.get? { text := "1" } = some cached ∧
        (d.changeset 1).pristine.lockVersion < cached.lockVersion := by
  obtain ⟨session, d, hstart, acts, hempty, hpristine, hversion⟩ := exists_acting
  obtain ⟨cached, hcached, hone⟩ := Option.map_eq_some_iff.1 hversion
  exact ⟨session, d, hstart, acts, hempty, cached, hcached, by omega⟩

end Replay

end Draftboard
