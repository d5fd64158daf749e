import Mathlib.Algebra.Group.Nat.Defs
import Draftboard.Proofs.Server.Updates
/-!
# Runs of the server

Requests of any clients in any order. A stored work package never goes away, and whatever changes
it also raises its lock version. So two records of one work package with the same version are the
same record, until a counter starts over at zero.
-/

namespace Draftboard.Server

/-! ## Requests in order -/

/-- A request of a client, or an error queued for a later request. -/
inductive Call where
  | fetch (id : PackageId)
  | fetchSchema (typeHref : String)
  | update (now : Instant) (pristine : Snapshot) (payload : Payload)
  | updatedSince (ids : List PackageId) (since : Instant)
  | deleteAttachment (a : Attachment)
  | failNext (op : Operation) (error : ApiError)

def perform (s : Server) : Call → Server
  | .fetch id => (s.fetch id).2
  | .fetchSchema typeHref => (s.fetchSchema typeHref).2
  | .update now pristine payload => (s.update now pristine payload).2
  | .updatedSince ids since => (s.updatedSince ids since).2
  | .deleteAttachment a => (s.deleteAttachment a).2
  | .failNext op error => s.failNext op error

def run (s : Server) (calls : List Call) : Server := calls.foldl perform s

theorem run_append (s : Server) (first rest : List Call) :
    s.run (first ++ rest) = (s.run first).run rest := List.foldl_append

theorem packages_run_fetch (s : Server) {calls : List Call}
    (h : ∀ call ∈ calls, ∃ id, call = .fetch id) : (s.run calls).packages = s.packages := by
  induction calls generalizing s with
  | nil => rfl
  | cons call rest ih =>
    obtain ⟨id, rfl⟩ := h _ List.mem_cons_self
    exact (ih _ fun later hlater => h later (List.mem_cons_of_mem _ hlater)).trans (sameStore_fetch s id).packages

/-- The servers that there can be: seeded and asked in any order. -/
inductive Reachable : Server → Prop
  | empty : Reachable {}
  | insert {s : Server} (snapshot : Snapshot) : Reachable s → Reachable (s.insert snapshot)
  | insertSchema {s : Server} (schema : Schema) : Reachable s → Reachable (s.insertSchema schema)
  | insertAttachment {s : Server} (a : Attachment) : Reachable s → Reachable (s.insertAttachment a)
  | perform {s : Server} (call : Call) : Reachable s → Reachable (s.perform call)

theorem Reachable.run {s : Server} (h : s.Reachable) (calls : List Call) : (s.run calls).Reachable := by
  induction calls generalizing s with
  | nil => exact h
  | cons call rest ih => exact ih (h.perform call)

/-! ## What every server keeps -/

/-- Each work package stands under its own id. -/
structure WellFormed (s : Server) : Prop where
  id_eq : ∀ {id : PackageId} {stored : Snapshot}, s.packages[id]? = some stored → stored.id = id

theorem WellFormed.congr {s s' : Server} (h : s.WellFormed) (hp : s'.packages = s.packages) :
    s'.WellFormed := ⟨by rw [hp]; exact h.id_eq⟩

theorem wellFormed_insert {s : Server} (h : s.WellFormed) (snapshot : Snapshot) :
    (s.insert snapshot).WellFormed where
  id_eq {id stored} hs := by
    simp only [insert, Std.ExtTreeMap.getElem?_insert, Std.LawfulEqOrd.compare_eq_iff_eq] at hs
    split at hs
    · rename_i heq
      rw [← Option.some.inj hs, heq]
    · exact h.id_eq hs

section Update

variable {s s' : Server} {now : Instant} {pristine saved : Snapshot} {payload : Payload}

theorem saved_id (h : s.WellFormed) (hr : s.savedRecord now pristine payload = .ok saved) :
    saved.id = if pristine.isNew then .ofNumber (nextCount s.lastId) else pristine.id := by
  cases hnew : pristine.isNew with
  | true =>
    rw [saved_of_isNew hnew hr, if_pos rfl]
    rfl
  | false =>
    obtain ⟨current, hp, -, rfl⟩ := saved_of_stored hnew hr
    rw [if_neg (by simp)]
    show current.id = pristine.id
    exact h.id_eq hp

theorem wellFormed_of_update_eq_ok (h : s.WellFormed)
    (hu : s.update now pristine payload = (.ok saved, s')) : s'.WellFormed where
  id_eq hs := by
    rcases stored_of_update_eq_ok hu hs with ⟨heq, rfl⟩ | ⟨before, hb, rfl | rfl⟩
    · exact heq
    · exact h.id_eq hb
    · exact (h.id_eq hb :)

end Update

theorem wellFormed_perform {s : Server} (h : s.WellFormed) (call : Call) :
    (s.perform call).WellFormed := by
  cases call with
  | fetch id => exact h.congr (sameStore_fetch s id).packages
  | fetchSchema typeHref => exact h.congr (sameStore_fetchSchema s typeHref).packages
  | update now pristine payload =>
    rcases hu : s.update now pristine payload with ⟨error | saved, after⟩
    · have hs : s.perform (.update now pristine payload) = (s.begin .update).2 := by
        rw [← update_eq_error hu]
        exact congrArg Prod.snd hu
      rw [hs]
      exact h.congr (sameStore_begin s .update).packages
    · have hs : s.perform (.update now pristine payload) = after := congrArg Prod.snd hu
      rw [hs]
      exact wellFormed_of_update_eq_ok h hu
  | updatedSince ids since => exact h.congr (sameStore_updatedSince s ids since).packages
  | deleteAttachment a =>
    obtain ⟨attachments, heq⟩ := exists_deleteAttachment s a
    rw [perform, heq]
    exact h.congr (sameStore_begin s .delete).packages
  | failNext op error => exact h.congr rfl

theorem Reachable.wellFormed {s : Server} (h : s.Reachable) : s.WellFormed := by
  induction h with
  | empty => exact ⟨fun hs => by simp at hs⟩
  | insert snapshot _ ih => exact wellFormed_insert ih snapshot
  | insertSchema schema _ ih => exact ih.congr rfl
  | insertAttachment a _ ih => exact ih.congr rfl
  | perform call _ ih => exact wellFormed_perform ih call

/-! ## Ids in order -/

/-- No stored id writes a number past the last one that was given out. -/
structure IdsInOrder (s : Server) : Prop where
  number_le : ∀ {id : PackageId} {stored : Snapshot} {n : Nat},
    s.packages[id]? = some stored → id.number? = some n → n ≤ s.lastId

theorem idsInOrder_empty : IdsInOrder {} := ⟨fun hs => by simp at hs⟩

theorem IdsInOrder.congr {s s' : Server} (h : s.IdsInOrder) (hp : s'.packages = s.packages)
    (hl : s'.lastId = s.lastId) : s'.IdsInOrder := ⟨by rw [hp, hl]; exact h.number_le⟩

theorem idsInOrder_insert {s : Server} (h : s.IdsInOrder) (snapshot : Snapshot) :
    (s.insert snapshot).IdsInOrder where
  number_le {id stored n} hs hn := by
    simp only [insert, Std.ExtTreeMap.getElem?_insert, Std.LawfulEqOrd.compare_eq_iff_eq] at hs ⊢
    split at hs
    · rename_i heq
      rw [heq, hn]
      exact Nat.le_max_right _ _
    · exact Nat.le_trans (h.number_le hs hn) (Nat.le_max_left _ _)

theorem packages_ofNumber {s : Server} (h : s.IdsInOrder) {n : Nat} (past : s.lastId < n)
    (room : n < UInt64.size) : s.packages[PackageId.ofNumber n]? = none := by
  rw [← Option.not_isSome_iff_eq_none]
  intro hsome
  obtain ⟨stored, hs⟩ := Option.isSome_iff_exists.1 hsome
  have := h.number_le hs (PackageId.number?_ofNumber room)
  omega

theorem packages_next {s : Server} (h : s.IdsInOrder) (room : s.lastId + 1 < UInt64.size) :
    s.packages[PackageId.ofNumber (nextCount s.lastId)]? = none := by
  rw [nextCount_of_lt room]
  exact packages_ofNumber h (Nat.lt_succ_self _) room

theorem idsInOrder_of_update_eq_ok {s s' : Server} {now : Instant} {pristine saved : Snapshot}
    {payload : Payload} (wellFormed : s.WellFormed) (h : s.IdsInOrder)
    (hu : s.update now pristine payload = (.ok saved, s'))
    (room : pristine.isNew = true → s.lastId + 1 < UInt64.size) :
    s.lastId ≤ s'.lastId ∧ s'.IdsInOrder := by
  obtain ⟨-, hr, -⟩ := update_eq_ok hu
  have hid := saved_id wellFormed hr
  have hl := lastId_of_update_eq_ok hu
  have hle : s.lastId ≤ s'.lastId := by
    rw [hl]
    split
    · rename_i hnew
      rw [nextCount_of_lt (room hnew)]
      exact Nat.le_succ _
    · exact Nat.le_refl _
  refine ⟨hle, ⟨fun {id stored n} hs hn => ?_⟩⟩
  rcases stored_of_update_eq_ok hu hs with ⟨rfl, -⟩ | ⟨before, hb, -⟩
  · cases hnew : pristine.isNew with
    | true =>
      rw [hid, hnew, if_pos rfl] at hn
      rw [hl, hnew, if_pos rfl]
      exact PackageId.number?_ofNumber_le hn
    | false =>
      obtain ⟨current, hp, -, -⟩ := saved_of_stored hnew hr
      rw [hid, hnew, if_neg (by simp)] at hn
      exact Nat.le_trans (h.number_le hp hn) hle
  · exact Nat.le_trans (h.number_le hb hn) hle

/-! ## Room in the counters -/

theorem updates_le_perform (s : Server) (call : Call) :
    s.calls.get .update ≤ (s.perform call).calls.get .update := by
  have hbegin : ∀ op, s.calls.get .update ≤ (s.begin op).2.calls.get .update := by
    intro op
    rw [calls_begin]
    split <;> omega
  cases call with
  | fetch id => rw [perform, server_fetch]; exact hbegin _
  | fetchSchema typeHref => rw [perform, server_fetchSchema]; exact hbegin _
  | update now pristine payload =>
    simp only [perform]
    rcases hu : s.update now pristine payload with ⟨error | saved, after⟩
    · rw [update_eq_error hu]
      exact hbegin _
    · obtain ⟨packages, rfl⟩ := exists_of_update_eq_ok hu
      exact hbegin .update
  | updatedSince ids since => rw [perform, server_updatedSince]; exact hbegin _
  | deleteAttachment a =>
    obtain ⟨attachments, heq⟩ := exists_deleteAttachment s a
    rw [perform, heq]
    exact hbegin .delete
  | failNext op error => exact Nat.le_refl _

theorem updates_le_run (s : Server) (calls : List Call) :
    s.calls.get .update ≤ (s.run calls).calls.get .update := by
  induction calls generalizing s with
  | nil => exact Nat.le_refl _
  | cons call rest ih => exact Nat.le_trans (updates_le_perform s call) (ih _)

/-- Until so many updates have been counted, neither an id nor a lock version can run over. -/
structure HasRoom (s : Server) (limit : Nat) : Prop where
  ids : s.IdsInOrder
  lastId : s.lastId + limit < UInt64.size + s.calls.get .update
  lockVersion : ∀ {id : PackageId} {stored : Snapshot}, s.packages[id]? = some stored →
    stored.lockVersion + limit < UInt64.size + s.calls.get .update

theorem HasRoom.mono {s : Server} {limit lower : Nat} (h : s.HasRoom limit) (hle : lower ≤ limit) :
    s.HasRoom lower where
  ids := h.ids
  lastId := by
    have := h.lastId
    omega
  lockVersion hs := by
    have := h.lockVersion hs
    omega

theorem HasRoom.congr {s s' : Server} {limit : Nat} (h : s.HasRoom limit)
    (hp : s'.packages = s.packages) (hl : s'.lastId = s.lastId)
    (hle : s.calls.get .update ≤ s'.calls.get .update) : s'.HasRoom limit where
  ids := h.ids.congr hp hl
  lastId := by
    have := h.lastId
    omega
  lockVersion {id stored} hs := by
    rw [hp] at hs
    have := h.lockVersion hs
    omega

theorem HasRoom.insert {s : Server} {limit : Nat} (h : s.HasRoom limit) {snapshot : Snapshot}
    (number : snapshot.id.number?.getD 0 + limit < UInt64.size + s.calls.get .update)
    (lockVersion : snapshot.lockVersion + limit < UInt64.size + s.calls.get .update) :
    (s.insert snapshot).HasRoom limit where
  ids := idsInOrder_insert h.ids snapshot
  lastId := by
    have hlast := h.lastId
    show max s.lastId (snapshot.id.number?.getD 0) + limit < UInt64.size + s.calls.get .update
    omega
  lockVersion {id stored} hs := by
    simp only [Server.insert, Std.ExtTreeMap.getElem?_insert, Std.LawfulEqOrd.compare_eq_iff_eq] at hs
    split at hs
    · rw [← Option.some.inj hs]
      exact lockVersion
    · exact h.lockVersion hs

theorem HasRoom.insertSchema {s : Server} {limit : Nat} (h : s.HasRoom limit) (schema : Schema) :
    (s.insertSchema schema).HasRoom limit := h.congr rfl rfl (Nat.le_refl _)

/-! ## Versions -/

/-- Each stored work package is still there, and either it is the same or its version has grown. -/
def Advances (before after : Server) : Prop :=
  ∀ (id : PackageId) (old : Snapshot), before.packages[id]? = some old →
    ∃ new, after.packages[id]? = some new ∧ (new = old ∨ old.lockVersion < new.lockVersion)

theorem Advances.of_packages_eq {s s' : Server} (h : s'.packages = s.packages) : s.Advances s' := by
  intro id old hold
  exact ⟨old, by rw [h, hold], Or.inl rfl⟩

theorem Advances.refl (s : Server) : s.Advances s := of_packages_eq rfl

theorem Advances.trans {first middle last : Server} (h : first.Advances middle)
    (h' : middle.Advances last) : first.Advances last := by
  intro id old hold
  obtain ⟨between, hbetween, hone⟩ := h id old hold
  obtain ⟨new, hnew, htwo⟩ := h' id between hbetween
  refine ⟨new, hnew, ?_⟩
  rcases hone with rfl | hone
  · exact htwo
  · rcases htwo with rfl | htwo
    · exact Or.inr hone
    · exact Or.inr (Nat.lt_trans hone htwo)

section Update

variable {s s' : Server} {limit : Nat} {now : Instant} {pristine saved : Snapshot}
  {payload : Payload}

theorem updates_of_update_eq_ok (hu : s.update now pristine payload = (.ok saved, s')) :
    s'.calls.get .update = s.calls.get .update + 1 := by
  obtain ⟨packages, rfl⟩ := exists_of_update_eq_ok hu
  rw [calls_begin, if_pos rfl]

theorem hasRoom_of_update_eq_ok (wellFormed : s.WellFormed) (room : s.HasRoom limit)
    (hu : s.update now pristine payload = (.ok saved, s')) (hle : s'.calls.get .update ≤ limit) :
    s'.HasRoom limit := by
  have hcount := updates_of_update_eq_ok hu
  have hlast := room.lastId
  refine
    { ids := (idsInOrder_of_update_eq_ok wellFormed room.ids hu fun _ => by omega).2
      lastId := ?_
      lockVersion := fun {id stored} hs => ?_ }
  · have hnext := nextCount_le s.lastId
    rw [lastId_of_update_eq_ok hu]
    split <;> omega
  -- One version at most is spent on a record, and the update that spends it is counted.
  · rcases stored_of_update_eq_ok hu hs with ⟨-, rfl⟩ | ⟨before, hb, rfl | rfl⟩
    · obtain ⟨-, hr, -⟩ := update_eq_ok hu
      cases hnew : pristine.isNew with
      | true =>
        have hzero : stored.lockVersion = 0 := congrArg (·.lockVersion) (saved_of_isNew hnew hr)
        omega
      | false =>
        obtain ⟨current, hp, -, rfl⟩ := saved_of_stored hnew hr
        have hversion : ((current.applyPayload payload).touch now).lockVersion =
            nextCount current.lockVersion := rfl
        have hnext := nextCount_le current.lockVersion
        have hold := room.lockVersion hp
        omega
    · have hold := room.lockVersion hb
      omega
    · have hversion : (before.touch now).lockVersion = nextCount before.lockVersion := rfl
      have hnext := nextCount_le before.lockVersion
      have hold := room.lockVersion hb
      omega

theorem advances_update (wellFormed : s.WellFormed) (room : s.HasRoom limit)
    (hu : s.update now pristine payload = (.ok saved, s')) (hle : s'.calls.get .update ≤ limit) :
    s.Advances s' := by
  obtain ⟨-, hr, -⟩ := update_eq_ok hu
  have hcount := updates_of_update_eq_ok hu
  have hgrows : ∀ {id : PackageId} {old : Snapshot}, s.packages[id]? = some old →
      old.lockVersion < nextCount old.lockVersion := by
    intro id old hold
    have := room.lockVersion hold
    rw [nextCount_of_lt (by omega)]
    exact Nat.lt_succ_self _
  intro id old hold
  rw [packages_of_update_eq_ok hu]
  by_cases hsaved : saved.id = id
  · rw [if_pos hsaved]
    refine ⟨saved, rfl, Or.inr ?_⟩
    rw [saved_id wellFormed hr] at hsaved
    cases hnew : pristine.isNew with
    | true =>
      -- The next id is not in use.
      have hlast := room.lastId
      rw [hnew, if_pos rfl] at hsaved
      rw [← hsaved, packages_next room.ids (by omega)] at hold
      cases hold
    | false =>
      obtain ⟨current, hp, -, rfl⟩ := saved_of_stored hnew hr
      rw [hnew, if_neg (by simp)] at hsaved
      rw [hsaved, hold] at hp
      cases hp
      exact hgrows hold
  · rw [if_neg hsaved, hold]
    by_cases hparent : saved.parentId? = some id
    · rw [if_pos hparent]
      exact ⟨old.touch now, rfl, Or.inr (hgrows hold)⟩
    · rw [if_neg hparent]
      exact ⟨old, rfl, Or.inl rfl⟩

end Update

theorem advances_perform {s : Server} (wellFormed : s.WellFormed) (call : Call) {limit : Nat}
    (room : s.HasRoom limit) (hle : (s.perform call).calls.get .update ≤ limit) :
    s.Advances (s.perform call) ∧ (s.perform call).HasRoom limit := by
  have hquiet : ∀ {s' : Server}, s.SameStore s' → s.calls.get .update ≤ s'.calls.get .update →
      s.Advances s' ∧ s'.HasRoom limit := fun same counted =>
    ⟨.of_packages_eq same.packages, room.congr same.packages same.lastId counted⟩
  have hcounted := updates_le_perform s call
  cases call with
  | fetch id => exact hquiet (sameStore_fetch s id) hcounted
  | fetchSchema typeHref => exact hquiet (sameStore_fetchSchema s typeHref) hcounted
  | update now pristine payload =>
    simp only [perform] at hle hcounted ⊢
    rcases hu : s.update now pristine payload with ⟨error | saved, after⟩ <;> rw [hu] at hle hcounted
    · obtain rfl := update_eq_error hu
      exact hquiet (sameStore_begin s .update) hcounted
    · exact ⟨advances_update wellFormed room hu hle, hasRoom_of_update_eq_ok wellFormed room hu hle⟩
  | updatedSince ids since => exact hquiet (sameStore_updatedSince s ids since) hcounted
  | deleteAttachment a =>
    obtain ⟨attachments, heq⟩ := exists_deleteAttachment s a
    have hbegin := sameStore_begin s .delete
    rw [perform, heq] at hcounted ⊢
    exact ⟨.of_packages_eq hbegin.packages, room.congr hbegin.packages hbegin.lastId hcounted⟩
  | failNext op error => exact hquiet ⟨rfl, rfl, rfl, rfl⟩ hcounted

/-- While the counters have room, versions only grow along a run. -/
theorem advances_run {s : Server} (h : s.Reachable) (calls : List Call) {limit : Nat}
    (room : s.HasRoom limit) (hle : (s.run calls).calls.get .update ≤ limit) :
    s.Advances (s.run calls) ∧ (s.run calls).HasRoom limit := by
  induction calls generalizing s with
  | nil => exact ⟨.refl s, room⟩
  | cons call rest ih =>
    have hfirst := Nat.le_trans (updates_le_run (s.perform call) rest) hle
    obtain ⟨hadvances, hroom⟩ := advances_perform h.wellFormed call room hfirst
    obtain ⟨hrest, hlast⟩ := ih (h.perform call) hroom hle
    exact ⟨hadvances.trans hrest, hlast⟩

end Draftboard.Server
