import Draftboard.Desk.Grouping
import Draftboard.Proofs.Desk.Coherence
import Draftboard.Proofs.Desk.Drafts
/-!
# Staying in step with the server

A desk is in step when its cache agrees with the server and every change-set is based on a snapshot
that the server had. Each operation keeps it so.
-/

namespace Draftboard.Desk

/-! ## Being in step -/

structure InStep (d : Desk) : Prop where
  reached : d.server.Reachable
  coherent : d.Coherent
  refreshes : Hook.refreshParent ∈ d.hooks
  plain : ∀ hook ∈ d.hooks, hook.PutsNothing
  fits : ∀ {h : Handle} {draft : Draft}, d.drafts[h]? = some draft →
    draft.changeset.pristine.Fits d.server
  onDesk : ∀ {id : PackageId} {h : Handle}, d.registry[id]? = some h → d.drafts[h]?.isSome = true

/-- From a desk to a later one that is in step, by requests to the server. -/
structure Proceeds (d d' : Desk) : Prop where
  inStep : d'.InStep
  advances : d.server.Advances d'.server
  stays : ∀ {h : Handle}, d.drafts[h]?.isSome = true → d'.drafts[h]?.isSome = true

theorem Proceeds.trans {first middle last : Desk} (h : first.Proceeds middle)
    (h' : middle.Proceeds last) : first.Proceeds last where
  inStep := h'.inStep
  advances := h.advances.trans h'.advances
  stays known := h'.stays (h.stays known)

theorem InStep.refl {d : Desk} (h : d.InStep) : d.Proceeds d where
  inStep := h
  advances := .refl d.server
  stays known := known

theorem InStep.fits_changeset {d : Desk} (h : d.InStep) {k : Handle}
    (known : d.drafts[k]?.isSome = true) : (d.changeset k).pristine.Fits d.server := by
  obtain ⟨draft, hdraft⟩ := Option.isSome_iff_exists.1 known
  have hc : d.changeset k = draft.changeset := by simp [changeset, hdraft]
  rw [hc]
  exact h.fits hdraft

theorem InStep.fits_cached {d : Desk} (h : d.InStep) {id : PackageId} {x : Snapshot}
    (hx : d.cache.get? id = some x) : x.Fits d.server := by
  obtain ⟨current, hcurrent, hsame⟩ := h.coherent id x (by simp) hx
  refine Or.inr ⟨current, ?_, Or.inr hsame⟩
  rw [← hcurrent, ← h.reached.wellFormed.id_eq hcurrent]
  exact congrArg (d.server.packages[·]?) (congrArg (·.id) (Snapshot.same_iff.1 hsame))

theorem KeepsDrafts.proceeds {d d' : Desk} (keeps : d.KeepsDrafts d') (h : d.InStep)
    (reached : d'.server.Reachable) (advances : d.server.Advances d'.server)
    (coherent : d'.Coherent) : d.Proceeds d' := by
  refine ⟨?_, advances, fun {k} known => (keeps.isSome k).trans known⟩
  exact
    { reached := reached
      coherent := coherent
      refreshes := by rw [keeps.hooks]; exact h.refreshes
      plain := by rw [keeps.hooks]; exact h.plain
      fits := fun {k draft'} hdraft' => by
        have hk := keeps.drafts k
        rw [hdraft', Option.map_some, eq_comm, Option.map_eq_some_iff] at hk
        obtain ⟨draft, hdraft, heq⟩ := hk
        rw [← heq]
        exact (h.fits hdraft).mono advances
      onDesk := fun {id k} hr => (keeps.isSome k).trans (h.onDesk (keeps.registry hr)) }

/-! ## Requests -/

/-- All that happens to the server from one desk to another is by requests. -/
def Asks (d d' : Desk) : Prop := ∃ calls, d'.server = d.server.run calls

theorem Asks.of_server_eq {d d' : Desk} (h : d'.server = d.server) : d.Asks d' := ⟨[], h⟩

theorem Asks.trans {first middle last : Desk} (h : first.Asks middle) (h' : middle.Asks last) :
    first.Asks last := by
  obtain ⟨calls, hcalls⟩ := h
  obtain ⟨later, hlater⟩ := h'
  refine ⟨calls ++ later, ?_⟩
  rw [Server.run_append, ← hcalls, hlater]

theorem Changes.asks {d d' : Desk} {parts : List Part} (changes : d.Changes parts d')
    (ours : .elsewhere ∉ parts) : d.Asks d' := changes.exists_run ours

theorem Asks.updates_le {d d' : Desk} (h : d.Asks d') :
    d.server.calls.get .update ≤ d'.server.calls.get .update := by
  obtain ⟨calls, hcalls⟩ := h
  rw [hcalls]
  exact Server.updates_le_run d.server calls

/-- The counters of the server have room for all the updates until the later desk. -/
def RoomFor (d last : Desk) : Prop := d.server.HasRoom (last.server.calls.get .update)

theorem RoomFor.left {d middle last : Desk} (room : d.RoomFor last) (rest : middle.Asks last) :
    d.RoomFor middle := room.mono rest.updates_le

theorem RoomFor.right {d middle last : Desk} (room : d.RoomFor last) (reached : d.server.Reachable)
    (asks : d.Asks middle) (rest : middle.Asks last) : middle.RoomFor last := by
  have hle := rest.updates_le
  obtain ⟨calls, hcalls⟩ := asks
  unfold RoomFor
  rw [hcalls] at hle ⊢
  exact (Server.advances_run reached calls room hle).2

theorem KeepsDrafts.proceeds_of_quiet {d d' : Desk} (keeps : d.KeepsDrafts d') (h : d.InStep)
    (asks : d.Asks d') (packages : d'.server.packages = d.server.packages)
    (cache : d'.cache = d.cache) : d.Proceeds d' := by
  obtain ⟨calls, hcalls⟩ := asks
  refine keeps.proceeds h ?_ (.of_packages_eq packages) (h.coherent.congr packages cache)
  rw [hcalls]
  exact h.reached.run calls

/-! ## Changes -/

end Desk

/-- What keeps a desk in step whatever it is made to be. -/
def Part.proceeding : List Part :=
  [.asked, .clock, .schemas, .activity, .edits, .flags, .filed, .unfiled, .pushes, .deliveries, .events,
    .notices]

namespace Desk

section Changes

variable {d d' : Desk}

theorem proceeds_file (h : d.InStep) {id : PackageId} {k : Handle} (known : d.drafts[k]?.isSome = true) :
    d.Proceeds { d with registry := d.registry.insert id k } := by
  refine ⟨?_, .refl d.server, fun known => known⟩
  exact { h with
    onDesk := fun {wanted found} hr => by
      simp only [Std.ExtTreeMap.getElem?_insert] at hr
      split at hr
      · rw [← Option.some.inj hr]
        exact known
      · exact h.onDesk hr }

theorem Change.proceeds {part : Part} (mem : part ∈ Part.proceeding) (change : d.Change part d')
    (h : d.InStep) : d.Proceeds d' := by
  have hchanges := change.changes
  cases change with
  | ask same =>
    have hkeeps := hchanges.keepsDrafts (by decide) (by decide)
    exact hkeeps.proceeds_of_quiet h (hchanges.asks (by decide)) same.packages rfl
  | file known => exact proceeds_file h known
  | store | replace | put | drop | draft | watch => exact absurd mem (by decide)
  | _ =>
    have hkeeps := hchanges.keepsDrafts (by decide) (by decide)
    exact hkeeps.proceeds_of_quiet h (.of_server_eq rfl) rfl rfl

theorem Changes.proceeds {parts : List Part} (changes : d.Changes parts d')
    (within : parts ⊆ Part.proceeding) (h : d.InStep) : d.Proceeds d' :=
  changes.lift (R := fun d d' => d.InStep → d.Proceeds d') (fun _ h => h.refl)
    (fun first later h => (first h).trans (later (first h).inStep))
    (fun mem change => change.proceeds (within mem)) h

end Changes

/-! ## The cache -/

section Load

variable {d : Desk}

theorem cached_of_load {id : PackageId} {x : Snapshot} (wellFormed : d.server.WellFormed)
    (hl : (d.load id).2 = .ok x) : (d.load id).1.cache.get? id = some x := by
  cases hc : d.cache.get? id with
  | some cached =>
    rw [load_cached hc] at hl ⊢
    cases hl
    exact hc
  | none =>
    rcases hf : d.server.fetch id with ⟨error | fresh, after⟩
    · rw [load_missing hc hf] at hl
      cases hl
    · rw [load_fetched hc hf] at hl ⊢
      cases hl
      dsimp only
      rw [cache_putPackage, PackageCache.get?_put, if_pos]
      exact wellFormed.id_eq (stored_of_fetch wellFormed hf).1

end Load

/-! ## Starting -/

theorem cache_of_asked {d ready : Desk} {k : Handle} {typeHref : String}
    {answer : Except ApiError Schema}
    (asked : (d.setInFlight k true).ensureSchema typeHref = (ready, answer)) :
    ready.cache = d.cache := by
  obtain ⟨server, schemas, hready, -⟩ := exists_ensureSchema (d.setInFlight k true) typeHref
  rw [asked] at hready
  dsimp only at hready
  rw [hready]
  rfl

theorem SaveEnds.coherent {d after : Desk} {k : Handle} {result : Except EditError Commit}
    (ends : SaveEnds d k after result) (h : d.InStep) (known : d.drafts[k]?.isSome = true) :
    after.Coherent ∧
      ∀ commit, result = .ok commit → commit.workPackage.Fits after.server := by
  have hready : ∀ {typeHref : String} {ready : Desk} {answer : Except ApiError Schema},
      (d.setInFlight k true).ensureSchema typeHref = (ready, answer) → ready.Coherent :=
    fun asked => h.coherent.congr (packages_of_asked asked).1 (cache_of_asked asked)
  cases ends with
  | busy => exact ⟨h.coherent, fun _ hok => by cases hok⟩
  | noSchema _ asked => exact ⟨(hready asked).congr rfl rfl, fun _ hok => by cases hok⟩
  | invalid _ asked => exact ⟨(hready asked).congr rfl rfl, fun _ hok => by cases hok⟩
  | @refused ready schema payload error server _ asked _ sent =>
    refine ⟨(hready asked).congr ?_ rfl, fun _ hok => by cases hok⟩
    show server.packages = ready.server.packages
    rw [Server.update_eq_error sent, (Server.sameStore_begin ready.server .update).packages]
  | @done ready schema payload saved server _ asked built sent =>
    obtain ⟨-, hr, -⟩ := Server.update_eq_ok sent
    -- The pristine snapshot is no newer than the stored one, so nothing is retained that was not stored.
    have hfits : (d.changeset k).pristine.Fits ready.server :=
      (h.fits_changeset known).mono (.of_packages_eq (packages_of_asked asked).1)
    have hanswer : ((d.changeset k).commit saved).workPackage = saved :=
      Snapshot.retainFrom_saved hfits (Changeset.lockVersion_of_buildPayload built) hr
    have hsettled := coherentBut_settle sent (hready asked) k hanswer
    have hreached : ((ready.answered server).settle k ((d.changeset k).commit saved)).server.Reachable := by
      rw [server_settle]
      obtain ⟨calls, hcalls⟩ := (changes_of_asked asked).asks (by decide)
      have hasked : ready.server.Reachable := by
        rw [hcalls]
        exact h.reached.run calls
      have hserver := hasked.perform (.update ready.clock.now (d.changeset k).pristine payload)
      rw [Server.perform, sent] at hserver
      exact hserver
    refine ⟨coherent_runHooks _ h.plain h.refreshes hsettled hreached, ?_⟩
    rintro _ ⟨⟩
    rw [hanswer]
    refine Or.inr ⟨saved, ?_, Or.inr (Snapshot.same_iff.2 rfl)⟩
    rw [packages_runHooks, server_settle]
    show server.packages[saved.id]? = some saved
    rw [Server.packages_of_update_eq_ok sent]
    exact if_pos rfl

end Draftboard.Desk
