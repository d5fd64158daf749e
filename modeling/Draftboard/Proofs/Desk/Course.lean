import Draftboard.Proofs.Desk.Midway
import Draftboard.Proofs.Desk.Filing
/-!
# The course of events

All that may happen on a desk with saves under way, in any order: users edit, saves take their steps,
subscribers come and go, and others write to the server. Hooks are registered before all that and stay.
-/

namespace Draftboard

/-! ## Saves in order -/

/-- A save that pends has all hooks before it, and what it submits is the payload of a change-set
with the modifications it will report. -/
structure SaveJob.InOrder (hooks : List Hook) (job : SaveJob) : Prop where
  hooks : job.hooks = hooks
  composed : ∀ {pristine : Snapshot} {payload : Payload} {changes : Attributes},
    job.stage = .submission pristine payload changes →
    ∃ (c : Changeset) (schema : Schema), c.changes = changes ∧ c.buildPayload schema = .ok payload

namespace Desk

theorem inOrder_startSave (d : Desk) (h : Handle) (pending : (d.startSave h).2.isPending = true) :
    (d.startSave h).2.InOrder d.hooks := by
  cases hf : (d.changeset h).inFlight with
  | true =>
    rw [startSave_of_inFlight hf] at pending
    cases pending
  | false =>
    rw [startSave_of_free hf]
    exact ⟨rfl, nofun⟩

theorem inOrder_advance (d : Desk) {job : SaveJob} {hooks : List Hook}
    (inOrder : job.isPending = true → job.InOrder hooks)
    (pending : (d.advance job).2.isPending = true) : (d.advance job).2.InOrder hooks := by
  cases hp : job.isPending with
  | false =>
    rw [(advance_of_answered d hp).2] at pending
    cases pending
  | true =>
    have hhooks := (inOrder hp).hooks
    obtain ⟨h, left, stage⟩ := job
    cases stage with
    | followUp | refetch | finished => cases hp
    | schema pristine stage =>
      have hends := d.seekEnds_advance h left pristine stage
      generalize d.advance _ = stepped at hends pending ⊢
      cases hends with
      | fails => cases pending
      | goesOn next => exact ⟨hhooks, nofun⟩
      | @composes schema payload _ composed =>
        refine ⟨hhooks, fun stage => ?_⟩
        cases stage
        exact ⟨_, schema, rfl, composed⟩
    | submission pristine payload changes =>
      rcases hs : d.submit h pristine payload changes with ⟨after, error | commit⟩ <;>
      · simp only [advance, hs] at pending
        cases pending

end Desk

namespace BusyDesk

/-! ## Events -/

inductive Event where
  | move (move : Move)
  /-- Edits that are reported to nobody. -/
  | write (h : Handle) (edits : Desk.Edits) (leaves : ∀ c, (edits.apply c).inFlight = c.inFlight)
  | subscribeCommits
  | unsubscribeCommits (number : Nat)
  | subscribeCache (id : PackageId)
  | unsubscribeCache (id : PackageId) (number : Nat)
  /-- Time passes, schemas are put or dropped, activity is read, events are drained, notices shown. -/
  | aside (clock : Clock) (schemas : TextMap Schema) (activity : IdMap (List String)) (bus : EventBus)
      (notices : List Notice)

def happen (b : BusyDesk) : Event → BusyDesk
  | .move move => b.move move
  | .write h edits _ => { b with desk := b.desk.modifyQuietly h edits.apply }
  | .subscribeCommits => { b with desk := b.desk.subscribeCommits.1 }
  | .unsubscribeCommits number => { b with desk := (b.desk.unsubscribeCommits number).1 }
  | .subscribeCache id => { b with desk := (b.desk.subscribeCache id).1 }
  | .unsubscribeCache id number => { b with desk := (b.desk.unsubscribeCache id number).1 }
  | .aside clock schemas activity bus notices =>
    { b with desk := { b.desk with clock, schemas, activity, bus, notices } }

def happenAll (b : BusyDesk) (events : List Event) : BusyDesk := events.foldl happen b

/-- What has come of a desk on which no save was under way. -/
def course (d : Desk) (events : List Event) : BusyDesk := ({ desk := d } : BusyDesk).happenAll events

theorem happenAll_append (b : BusyDesk) (first rest : List Event) :
    b.happenAll (first ++ rest) = (b.happenAll first).happenAll rest := List.foldl_append

/-! ## Order along the way -/

/-- A desk before anything is edited on it, with its hooks and what is in the cache. -/
structure Opens (d : Desk) : Prop where
  rests : Rests d
  keyed : d.Keyed
  registry : d.registry = ∅
  commitSubscriptions : d.commitSubscriptions = []

theorem opens_quietDesk : Opens quietDesk where
  rests :=
    { numbered := fun known => by simp [quietDesk] at known
      lowered := fun h => by simp [quietDesk, Desk.changeset]; rfl }
  keyed := fun id x hx => by simp [quietDesk, PackageCache.get?] at hx
  registry := rfl
  commitSubscriptions := rfl

theorem Opens.withSchemas {d : Desk} (opens : Opens d) (schemas : TextMap Schema) :
    Opens { d with schemas } where
  rests := ⟨opens.rests.numbered, opens.rests.lowered⟩
  keyed := opens.keyed
  registry := opens.registry
  commitSubscriptions := opens.commitSubscriptions

structure Orderly (hooks : List Hook) (b : BusyDesk) : Prop where
  disciplined : b.Disciplined
  filed : b.desk.Filed
  hooked : b.desk.hooks = hooks
  saves : ∀ job ∈ b.saves, job.isPending = true → job.InOrder hooks

theorem Opens.orderly {d : Desk} (h : Opens d) : Orderly d.hooks { desk := d } where
  disciplined := h.rests.disciplined
  filed :=
    { keyed := h.keyed
      known := fun hr => by rw [h.registry] at hr; simp at hr
      id_eq := fun hr => by rw [h.registry] at hr; simp at hr }
  hooked := rfl
  saves := by simp

theorem changes_move (b : BusyDesk) (move : Move) :
    b.desk.Changes (Part.acting ++ Part.saving) (b.move move).desk := by
  cases move with
  | act action leaves => exact (b.desk.changes_of_leavesFlags leaves).mono (List.subset_append_left ..)
  | start k =>
    unfold BusyDesk.move
    dsimp only
    split
    · exact (b.desk.changes_startSave k).mono (by decide)
    · exact .refl _ _
  | advance n =>
    unfold BusyDesk.move
    dsimp only
    split
    · exact .refl _ _
    · rename_i job _
      have hadvance := (b.desk.changes_advance job).mono job.stage.parts_subset_saving
      exact hadvance.mono (List.subset_append_right ..)

section Step

variable {hooks : List Hook} {b : BusyDesk} (h : b.Orderly hooks)
include h

theorem Orderly.inOrder_move (move : Move) :
    ∀ job ∈ (b.move move).saves, job.isPending = true → job.InOrder hooks := by
  cases move with
  | act action leaves => exact h.saves
  | start k =>
    unfold BusyDesk.move
    dsimp only
    split
    · intro job hmem pending
      rcases List.mem_append.1 hmem with hmem | hmem
      · exact h.saves job hmem pending
      · rw [List.mem_singleton.1 hmem] at pending ⊢
        rw [← h.hooked]
        exact Desk.inOrder_startSave b.desk k pending
    · exact h.saves
  | advance n =>
    unfold BusyDesk.move
    dsimp only
    split
    · exact h.saves
    · rename_i job hjob
      intro next hmem pending
      rcases List.mem_or_eq_of_mem_set hmem with hmem | rfl
      · exact h.saves next hmem pending
      · exact Desk.inOrder_advance b.desk (h.saves job (List.mem_of_getElem? hjob)) pending

theorem Orderly.elsewhere {d : Desk} (flags : b.desk.KeepsFlags d) (drafts : b.desk.KeepsDrafts d)
    (entries : d.cache.entries = b.desk.cache.entries) :
    ({ b with desk := d } : BusyDesk).Orderly hooks where
  disciplined :=
    { numbered := flags.numbered
      pendingOn := fun k => by
        rw [flags.inFlight]
        exact h.disciplined.pendingOn k }
  filed := drafts.filed (h.filed.keyed.congr entries) h.filed
  hooked := drafts.hooks.trans h.hooked
  saves := h.saves

theorem Orderly.happen (event : Event) : (b.happen event).Orderly hooks := by
  have hnumbered : b.desk.Numbered := h.disciplined.numbered
  cases event with
  | move move =>
    have hkeeps := (b.changes_move move).keepsOrder hnumbered
    exact
      { disciplined := h.disciplined.move move
        filed := hkeeps.filed h.filed
        hooked := hkeeps.house.hooks.trans h.hooked
        saves := h.inOrder_move move }
  | write k edits leaves =>
    exact h.elsewhere (Desk.keepsFlags_modifyQuietly hnumbered (leaves _))
      (Desk.keepsDrafts_modifyQuietly b.desk (edits.pristine_apply _)) rfl
  | _ => exact h.elsewhere (Desk.SameDrafts.keepsFlags ⟨rfl, rfl⟩ hnumbered) (.of_eq rfl rfl rfl) rfl

theorem Orderly.happenAll (events : List Event) : (b.happenAll events).Orderly hooks := by
  induction events generalizing b with
  | nil => exact h
  | cons first rest ih => exact ih (h.happen first)

end Step

theorem Opens.orderly_course {d : Desk} (h : Opens d) (events : List Event) :
    (course d events).Orderly d.hooks := h.orderly.happenAll events

/-! ## Saves keep their places -/

theorem saves_happen {b : BusyDesk} {n : Nat} {job : SaveJob} (mine : b.saves[n]? = some job)
    {event : Event} (other : event ≠ .move (.advance n)) : (b.happen event).saves[n]? = some job := by
  cases event with
  | move move =>
    cases move with
    | act action leaves => exact mine
    | start k =>
      unfold happen BusyDesk.move
      dsimp only
      split
      · obtain ⟨hlt, -⟩ := List.getElem?_eq_some_iff.1 mine
        exact (List.getElem?_append_left hlt).trans mine
      · exact mine
    | advance m =>
      have hne : m ≠ n := by
        rintro rfl
        exact other rfl
      unfold happen BusyDesk.move
      dsimp only
      split
      · exact mine
      · exact (List.getElem?_set_ne hne).trans mine
  | _ => exact mine

theorem saves_happenAll {b : BusyDesk} {n : Nat} {job : SaveJob} (mine : b.saves[n]? = some job)
    {events : List Event} (others : .move (.advance n) ∉ events) :
    (b.happenAll events).saves[n]? = some job := by
  induction events generalizing b with
  | nil => exact mine
  | cons first rest ih =>
    have hfirst := List.ne_of_not_mem_cons others
    exact ih (saves_happen mine (Ne.symm hfirst)) (List.not_mem_of_not_mem_cons others)

theorem exists_saves_happen {b : BusyDesk} {n : Nat} {job : SaveJob}
    (mine : b.saves[n]? = some job) (event : Event) :
    ∃ next, (b.happen event).saves[n]? = some next ∧ next.handle = job.handle := by
  by_cases hevent : event = .move (.advance n)
  · subst hevent
    obtain ⟨hlt, -⟩ := List.getElem?_eq_some_iff.1 mine
    refine ⟨(b.desk.advance job).2, ?_, ?_⟩
    · unfold happen BusyDesk.move
      simp only [mine]
      exact List.getElem?_set_self hlt
    · exact Desk.handle_advance b.desk job
  · exact ⟨job, saves_happen mine hevent, rfl⟩

theorem exists_saves_happenAll {b : BusyDesk} {n : Nat} {job : SaveJob}
    (mine : b.saves[n]? = some job) (events : List Event) :
    ∃ next, (b.happenAll events).saves[n]? = some next ∧ next.handle = job.handle := by
  induction events generalizing b job with
  | nil => exact ⟨job, mine, rfl⟩
  | cons first rest ih =>
    obtain ⟨between, hbetween, hsame⟩ := exists_saves_happen mine first
    obtain ⟨next, hnext, hhandle⟩ := ih hbetween
    exact ⟨next, hnext, hhandle.trans hsame⟩

theorem Disciplined.inFlight {b : BusyDesk} (h : b.Disciplined) {n : Nat} {job : SaveJob}
    (mine : b.saves[n]? = some job) (pending : job.isPending = true) :
    (b.desk.changeset job.handle).inFlight = true := by
  have hcount := h.pendingOn job.handle
  have hpos : 0 < b.pendingOn job.handle :=
    List.countP_pos_iff.2 ⟨job, List.mem_of_getElem? mine, by simp [pending]⟩
  split at hcount
  · assumption
  · omega

end BusyDesk

end Draftboard
