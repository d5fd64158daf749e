import Draftboard.Proofs.Desk.Course
/-!
# One change-set for each work package

Who asks for the change-set of a work package gets the registered one, as long as it is of use: it has
edits, or nothing newer is at hand. Else it is given a new one, and the other is left as it is.
-/

namespace Draftboard

namespace Desk

/-! ## What is at hand -/

/-- The change-set has edits, or it is based on a snapshot as new as any at hand. -/
def IsCurrent (d : Desk) (fallback : Snapshot) (c : Changeset) : Prop :=
  c.isEmpty = false ∨ fallback.lockVersion ≤ c.pristine.lockVersion ∧
    ∀ cached, d.cache.get? fallback.id = some cached → cached.lockVersion ≤ c.pristine.lockVersion

theorem lockVersion_latest_le_iff (d : Desk) (fallback : Snapshot) (n : Nat) :
    (d.latest fallback).lockVersion ≤ n ↔ fallback.lockVersion ≤ n ∧
      ∀ cached, d.cache.get? fallback.id = some cached → cached.lockVersion ≤ n := by
  unfold latest
  cases hc : d.cache.get? fallback.id with
  | none => simp
  | some cached =>
    simp only [Option.some.injEq, forall_eq']
    split <;> omega

theorem isStale_latest_eq_false_iff (d : Desk) (fallback : Snapshot) (c : Changeset) :
    isStale c (d.latest fallback) = false ↔ d.IsCurrent fallback c := by
  rw [isStale, Bool.and_eq_false_iff, decide_eq_false_iff_not, Nat.not_lt, lockVersion_latest_le_iff]
  rfl

theorem Keyed.id_latest {d : Desk} (keyed : d.Keyed) (fallback : Snapshot) :
    (d.latest fallback).id = fallback.id := by
  unfold latest
  split
  · rename_i cached hcached
    split
    · exact keyed _ _ hcached
    · rfl
  · rfl

/-! ## Going on or starting anew -/

/-- The registered change-set is given if it is current, and else a new one on the newest snapshot. -/
inductive Gives (d : Desk) (fallback : Snapshot) (form : Option Form) : Desk × Handle → Prop
  | registered {h : Handle} (registered : d.registered? fallback.id = some h)
      (current : d.IsCurrent fallback (d.changeset h)) : Gives d fallback form (d, h)
  | new (outdated : ∀ h, d.registered? fallback.id = some h → ¬d.IsCurrent fallback (d.changeset h)) :
      Gives d fallback form (d.startEditing (d.latest fallback) form)

theorem gives_changeFor {d : Desk} (keyed : d.Keyed) (fallback : Snapshot) (form : Option Form) :
    d.Gives fallback form (d.changeFor fallback form) := by
  unfold changeFor
  simp only [keyed.id_latest]
  split
  · rename_i h hr
    have hstale := isStale_latest_eq_false_iff d fallback (d.changeset h)
    split
    · rename_i stale
      rw [stale, Bool.true_eq_false, false_iff] at hstale
      refine .new fun k hk => ?_
      rw [← Option.some.inj (hr.symm.trans hk)]
      exact hstale
    · rename_i fresh
      exact .registered hr (hstale.1 (Bool.eq_false_iff.2 fresh))
  · rename_i hnone
    refine .new fun k hk => ?_
    rw [hnone] at hk
    cases hk

theorem known_changeFor {d : Desk} (filed : d.Filed) (fallback : Snapshot) (form : Option Form) :
    (d.changeFor fallback form).1.drafts[(d.changeFor fallback form).2]?.isSome = true := by
  have hgives := gives_changeFor filed.keyed fallback form
  generalize d.changeFor fallback form = given at hgives
  cases hgives with
  | registered registered => exact filed.known registered
  | new outdated => simp [startEditing, newDraft]

theorem startEditing_latest_isCurrent (d : Desk) (fallback : Snapshot) (form : Option Form) :
    (d.startEditing (d.latest fallback) form).1.IsCurrent fallback
      ((d.startEditing (d.latest fallback) form).1.changeset (d.lastHandle + 1)) := by
  rw [changeset_startEditing]
  exact Or.inr ((lockVersion_latest_le_iff d fallback _).1 (Nat.le_refl _))

end Desk

namespace BusyDesk

/-- The change-set that is given is registered for its work package, and it has edits or is as new as
any snapshot at hand. It is the one registered before if that was so. No edit is lost, and the
registry has each change-set under the id of its work package. -/
theorem changeFor_gives_current {d : Desk} (opens : Opens d) (events : List Event)
    (fallback : Snapshot) (form : Option Form) :
    let before := (course d events).desk
    let after := (before.changeFor fallback form).1
    let h := (before.changeFor fallback form).2
    (after.changeset h).id = fallback.id ∧ after.registered? fallback.id = some h ∧
      after.IsCurrent fallback (after.changeset h) ∧
      (∀ k, before.registered? fallback.id = some k →
        before.IsCurrent fallback (before.changeset k) → h = k ∧ after = before) ∧
      (∀ k, before.drafts[k]?.isSome = true → after.changeset k = before.changeset k) ∧
      (∀ id k, before.registered? id = some k → (before.changeset k).isEmpty = false →
        after.registered? id = some k) ∧
      (∀ id k, after.registered? id = some k →
        after.drafts[k]?.isSome = true ∧ (after.changeset k).id = id) := by
  intro before
  have horder : (course d events).Orderly d.hooks := opens.orderly_course events
  have hfiled : before.Filed := horder.filed
  have hnumbered : before.Numbered := horder.disciplined.numbered
  have hafter := ((before.changes_changeFor fallback form).keepsOrder hnumbered).filed hfiled
  have hgives := Desk.gives_changeFor hfiled.keyed fallback form
  generalize before.changeFor fallback form = given at hafter hgives
  have hregistry : ∀ id k, given.1.registered? id = some k →
      given.1.drafts[k]?.isSome = true ∧ (given.1.changeset k).id = id :=
    fun _ _ hr => ⟨hafter.known hr, hafter.id_eq hr⟩
  cases hgives with
  | registered hr hcurrent =>
    refine ⟨hfiled.id_eq hr, hr, hcurrent, fun k hk _ => ?_, fun _ _ => rfl, fun _ _ hk _ => hk,
      hregistry⟩
    exact ⟨Option.some.inj (hr.symm.trans hk), rfl⟩
  | new outdated =>
    have hid := hfiled.keyed.id_latest fallback
    have hregistered := Desk.registered?_startEditing before (before.latest fallback) form
    refine ⟨?_, ?_, Desk.startEditing_latest_isCurrent before fallback form, ?_, ?_, ?_, hregistry⟩
    · exact (congrArg Changeset.id (Desk.changeset_startEditing before _ form)).trans hid
    · exact (hregistered fallback.id).trans (if_pos hid)
    · exact fun k hr hcurrent => absurd hcurrent (outdated k hr)
    · exact fun k known => Desk.changeset_newDraft_of_known hnumbered _ known
    · -- What has edits is not outdated, so it is not the one that was replaced.
      intro id k hr hedits
      have hne : (before.latest fallback).id ≠ id := by
        rintro rfl
        rw [hid] at hr
        exact outdated k hr (Or.inl hedits)
      rw [hregistered, if_neg hne]
      exact hr

theorem changeFor_gives_current_edited :
    let snapshot : Snapshot := { id := { text := "7" }, lockVersion := 3, typeHref := "task" }
    let events : List Event :=
      [.move (.act (.put { snapshot with lockVersion := 4 }) trivial),
        .move (.act (.changeFor snapshot none) trivial),
        .move (.act (.setValue 1 "subject" (.text "Mine")) trivial),
        .move (.act (.put { snapshot with lockVersion := 5 }) trivial)]
    let before := (course quietDesk events).desk
    let after := (before.changeFor snapshot none).1
    Opens quietDesk ∧ (before.changeFor snapshot none).2 = 1 ∧
      after.registered? snapshot.id = some 1 ∧
      (after.changeset 1).pristine.lockVersion = 4 ∧
      (after.changeset 1).changes = (∅ : Attributes).insert "subject" (.text "Mine") := by
  intro snapshot events before after
  obtain ⟨-, hr, -, hsame, -⟩ := changeFor_gives_current opens_quietDesk events snapshot none
  have hedits : before.registered? snapshot.id = some 1 ∧ (before.changeset 1).isEmpty = false ∧
      (before.changeset 1).pristine.lockVersion = 4 ∧
      (before.changeset 1).changes = (∅ : Attributes).insert "subject" (.text "Mine") := by
    decide +kernel
  obtain ⟨hmine, hnonempty, hversion, hchanges⟩ := hedits
  obtain ⟨hh, hafter⟩ := hsame 1 hmine (Or.inl hnonempty)
  rw [hh] at hr
  have hat : after = before := hafter
  exact ⟨opens_quietDesk, hh, hr, by rw [hat]; exact hversion, by rw [hat]; exact hchanges⟩

/-! ## Under way -/

theorem Disciplined.exists_pending {b : BusyDesk} (hb : b.Disciplined) {h : Handle}
    (raised : (b.desk.changeset h).inFlight = true) :
    ∃ (n : Nat) (job : SaveJob), b.saves[n]? = some job ∧ job.handle = h ∧ job.isPending = true := by
  have hcount := hb.pendingOn h
  rw [if_pos raised] at hcount
  obtain ⟨job, hmem, hjob⟩ := List.countP_pos_iff.1 (Nat.lt_of_lt_of_eq Nat.zero_lt_one hcount.symm)
  obtain ⟨n, hn⟩ := List.mem_iff_getElem?.1 hmem
  rw [Bool.and_eq_true, decide_eq_true_eq] at hjob
  exact ⟨n, job, hn, hjob.2, hjob.1⟩

theorem Orderly.exists_refused {hooks : List Hook} {b : BusyDesk} (hb : b.Orderly hooks) {h : Handle}
    (raised : (b.desk.changeset h).inFlight = true) :
    ∃ (n : Nat) (job : SaveJob), b.saves[n]? = some job ∧ job.handle = h ∧ job.isPending = true ∧
      ∀ (later : List Event) (next : SaveJob), (b.happenAll later).saves[n]? = some next →
        next.isPending = true →
        (b.happenAll later).move (.start h) = (b.happenAll later).refused h := by
  obtain ⟨n, job, hn, hhandle, hpending⟩ := hb.disciplined.exists_pending raised
  refine ⟨n, job, hn, hhandle, hpending, fun later next hnext still => ?_⟩
  obtain ⟨next', hnext', hsame⟩ := exists_saves_happenAll hn later
  cases hnext.symm.trans hnext'
  have hraised := (hb.happenAll later).disciplined.inFlight hnext still
  rw [hsame, hhandle] at hraised
  exact move_start_of_inFlight hraised

/-- A change-set that is being saved is given to who asks for it, unless it has no edits and a newer
snapshot is at hand. Then another one is, and it is left as it is. As long as the save is pending, no
other save of it starts. -/
theorem changeFor_of_pending {d : Desk} (opens : Opens d) (events : List Event) {fallback : Snapshot}
    (form : Option Form) {h : Handle}
    (registered : (course d events).desk.registered? fallback.id = some h)
    (pending : ((course d events).desk.changeset h).inFlight = true) :
    let b := course d events
    let after := (b.desk.changeFor fallback form).1
    let given := (b.desk.changeFor fallback form).2
    (b.desk.IsCurrent fallback (b.desk.changeset h) → given = h ∧ after = b.desk) ∧
      (¬b.desk.IsCurrent fallback (b.desk.changeset h) → given ≠ h ∧
        after.registered? fallback.id = some given ∧ after.changeset h = b.desk.changeset h) ∧
      ∃ (n : Nat) (job : SaveJob), b.saves[n]? = some job ∧ job.handle = h ∧ job.isPending = true ∧
        ∀ (later : List Event) (next : SaveJob), (b.happenAll later).saves[n]? = some next →
          next.isPending = true →
          (b.happenAll later).move (.start h) = (b.happenAll later).refused h := by
  intro b
  have horder : b.Orderly d.hooks := opens.orderly_course events
  have hrefused := horder.exists_refused pending
  have hgives := Desk.gives_changeFor horder.filed.keyed fallback form
  generalize b.desk.changeFor fallback form = answer at hgives
  cases hgives with
  | @registered k hr hcurrent =>
    have hmine : k = h := Option.some.inj (hr.symm.trans registered)
    rw [hmine] at hcurrent ⊢
    exact ⟨fun _ => ⟨rfl, rfl⟩, fun outdated => absurd hcurrent outdated, hrefused⟩
  | new outdated =>
    have hknown := horder.filed.known registered
    have hid := horder.filed.keyed.id_latest fallback
    have hregistered := Desk.registered?_startEditing b.desk (b.desk.latest fallback) form fallback.id
    refine ⟨fun hcurrent => absurd hcurrent (outdated h registered), fun _ => ⟨?_, ?_, ?_⟩, hrefused⟩
    -- Handles are given out in order, so the new one is none of those that are known.
    · rintro rfl
      exact Nat.not_succ_le_self _ (horder.disciplined.numbered hknown)
    · exact hregistered.trans (if_pos hid)
    · exact Desk.changeset_newDraft_of_known horder.disciplined.numbered _ hknown

theorem changeFor_of_pending_edited :
    let snapshot : Snapshot := { id := { text := "7" }, lockVersion := 3, typeHref := "task" }
    let events : List Event :=
      [.move (.act (.changeFor snapshot none) trivial),
        .move (.act (.setValue 1 "subject" (.text "Mine")) trivial), .move (.start 1),
        .move (.act (.put { snapshot with lockVersion := 4 }) trivial)]
    let b := course quietDesk events
    let again := b.happenAll [.move (.act (.changeFor snapshot none) trivial)]
    Opens quietDesk ∧ b.desk.registered? snapshot.id = some 1 ∧
      (b.desk.changeset 1).inFlight = true ∧ (b.desk.changeFor snapshot none).2 = 1 ∧
      again.move (.start 1) = again.refused 1 := by
  intro snapshot events b again
  have hpending : b.desk.registered? snapshot.id = some 1 ∧ (b.desk.changeset 1).inFlight = true ∧
      (b.desk.changeset 1).isEmpty = false := by decide +kernel
  obtain ⟨hr, hflag, hedits⟩ := hpending
  obtain ⟨hgood, -, n, job, hn, -, hjob, hlater⟩ :=
    changeFor_of_pending opens_quietDesk events none hr hflag
  have hstill : again.saves[n]? = some job := saves_happenAll hn (by simp)
  exact ⟨opens_quietDesk, hr, hflag, (hgood (Or.inl hedits)).1, hlater _ job hstill hjob⟩

/-- A change-set with no edits is being saved when a newer snapshot comes into the cache. Who asks for
the change-set then is given another one, and a save of that one starts. -/
theorem changeFor_replaces_unedited :
    let snapshot : Snapshot := { id := { text := "7" }, lockVersion := 3, typeHref := "task" }
    let b := course quietDesk
      [.move (.act (.changeFor snapshot none) trivial), .move (.start 1),
        .move (.act (.put { snapshot with lockVersion := 4 }) trivial)]
    let again := b.move (.act (.changeFor snapshot none) trivial)
    b.desk.registered? snapshot.id = some 1 ∧ (b.desk.changeset 1).inFlight = true ∧
      (b.desk.changeFor snapshot none).2 = 2 ∧ again.pendingOn 1 = 1 ∧
      (again.desk.startSave 2).2.isPending = true := by
  intro snapshot b again
  refine ⟨?_, ?_, ?_, ?_, ?_⟩ <;> decide +kernel

end BusyDesk

end Draftboard
