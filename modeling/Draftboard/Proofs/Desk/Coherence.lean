import Draftboard.Proofs.Sameness
import Draftboard.Proofs.Desk.Saves
/-!
# A cache that agrees with the server

As long as each change-set is based on a snapshot that the server had, a cached snapshot is the one
the server stores. A save changes two stored work packages, the saved one and its parent. The cache
is given the first with the answer; the second is dropped and fetched again.
-/

namespace Draftboard

/-! ## Snapshots that the server had -/

/-- A snapshot of a new work package, or of a stored one: the stored version or an earlier one. -/
def Snapshot.Fits (x : Snapshot) (s : Server) : Prop :=
  x.isNew = true ∨ ∃ current, s.packages[x.id]? = some current ∧
    (x.lockVersion < current.lockVersion ∨ x.same current = true)

theorem Snapshot.lockVersion_eq_of_same {a b : Snapshot} (h : a.same b = true) :
    a.lockVersion = b.lockVersion :=
  congrArg (·.lockVersion) (same_iff.1 h)

theorem Snapshot.mem_iff_of_same {a b : Snapshot} (h : a.same b = true) (name : String) :
    name ∈ a.attributes ↔ name ∈ b.attributes := by
  have hmap : a.attributes.untitled = b.attributes.untitled := congrArg (·.attributes) (same_iff.1 h)
  rw [← Std.ExtTreeMap.mem_map (f := fun _ value => AttrValue.untitled value)]
  rw [← Std.ExtTreeMap.mem_map (t := b.attributes) (f := fun _ value => AttrValue.untitled value)]
  exact iff_of_eq (congrArg (name ∈ ·) hmap)

theorem Snapshot.Fits.mono {x : Snapshot} {s s' : Server} (h : x.Fits s) (advances : s.Advances s') :
    x.Fits s' := by
  rcases h with hnew | ⟨current, hcurrent, hfits⟩
  · exact Or.inl hnew
  · obtain ⟨next, hnext, hstep⟩ := advances x.id current hcurrent
    refine Or.inr ⟨next, hnext, ?_⟩
    rcases hstep with rfl | hlt
    · exact hfits
    · refine Or.inl ?_
      rcases hfits with hfits | hsame
      · exact Nat.lt_trans hfits hlt
      · rw [lockVersion_eq_of_same hsame]
        exact hlt

theorem Snapshot.retainFrom_eq_self {s previous : Snapshot}
    (h : ∀ name, name ∈ previous.attributes → name ∈ s.attributes) : s.retainFrom previous = s := by
  have hattributes : previous.attributes ∪ s.attributes = s.attributes := by
    refine Std.ExtTreeMap.ext_getElem? fun name => ?_
    rw [Std.ExtTreeMap.getElem?_union]
    cases hs : s.attributes[name]? with
    | some value => rfl
    | none =>
      cases hp : previous.attributes[name]? with
      | none => rfl
      | some value =>
        have hmem := h name (Std.ExtTreeMap.mem_iff_isSome_getElem?.2 (by simp [hp]))
        simp [Std.ExtTreeMap.mem_iff_isSome_getElem?, hs] at hmem
  rw [retainFrom, hattributes]

theorem Snapshot.retainFrom_saved {s : Server} {now : Instant} {pristine saved : Snapshot}
    {payload : Payload} (fits : pristine.Fits s) (basis : payload.lockVersion = pristine.lockVersion)
    (hr : s.savedRecord now pristine payload = .ok saved) : saved.retainFrom pristine = saved := by
  refine retainFrom_eq_self fun name hname => ?_
  cases hnew : pristine.isNew with
  | true =>
    rw [Server.saved_of_isNew hnew hr]
    exact mem_applyPayload payload hname
  | false =>
    obtain ⟨current, hcurrent, hversion, rfl⟩ := Server.saved_of_stored hnew hr
    refine mem_applyPayload payload ?_
    rcases fits with hnew' | ⟨found, hfound, hfits⟩
    · rw [hnew] at hnew'
      cases hnew'
    · rw [hcurrent] at hfound
      cases hfound
      -- The payload goes by the stored version, so the snapshot is not an earlier one.
      rcases hfits with hlt | hsame
      · omega
      · exact (mem_iff_of_same hsame name).1 hname

namespace Desk

/-! ## Coherence -/

/-- Every cached snapshot is the stored one, with the exception of one work package at most. -/
def CoherentBut (d : Desk) (exempt : Option PackageId) : Prop :=
  ∀ (id : PackageId) (x : Snapshot), exempt ≠ some id → d.cache.get? id = some x →
    ∃ current, d.server.packages[id]? = some current ∧ x.same current = true

def Coherent (d : Desk) : Prop := d.CoherentBut none

theorem CoherentBut.congr {d d' : Desk} {exempt : Option PackageId} (h : d.CoherentBut exempt)
    (packages : d'.server.packages = d.server.packages) (cache : d'.cache = d.cache) :
    d'.CoherentBut exempt := by
  intro id x hne hx
  rw [packages]
  rw [cache] at hx
  exact h id x hne hx

theorem coherentBut_putPackage {d : Desk} {exempt : Option PackageId} (h : d.CoherentBut exempt)
    {snapshot : Snapshot} (stored : d.server.packages[snapshot.id]? = some snapshot) :
    (d.putPackage snapshot).CoherentBut exempt := by
  intro id x hne hx
  rw [cache_putPackage, PackageCache.get?_put] at hx
  rw [server_putPackage]
  split at hx
  · rename_i heq
    rw [← Option.some.inj hx, ← heq]
    exact ⟨snapshot, stored, Snapshot.same_iff.2 rfl⟩
  · exact h id x hne hx

theorem coherentBut_dropPackage {d : Desk} {exempt : Option PackageId} {id : PackageId}
    (h : d.CoherentBut exempt) : (d.dropPackage id).CoherentBut exempt := by
  intro other x hne hx
  rw [cache_dropPackage, PackageCache.get?_invalidate] at hx
  rw [server_dropPackage]
  split at hx
  · cases hx
  · exact h other x hne hx

theorem coherent_dropPackage {d : Desk} {id : PackageId} (h : d.CoherentBut (some id)) :
    (d.dropPackage id).Coherent := by
  intro other x _ hx
  rw [cache_dropPackage, PackageCache.get?_invalidate] at hx
  rw [server_dropPackage]
  split at hx
  · cases hx
  · rename_i hne
    exact h other x (fun heq => hne (Option.some.inj heq)) hx

theorem stored_of_fetch {s s' : Server} (h : s.WellFormed) {id : PackageId} {fresh : Snapshot}
    (hf : s.fetch id = (.ok fresh, s')) :
    s.packages[id]? = some fresh ∧ s'.packages[fresh.id]? = some fresh := by
  have hpackages := (Server.sameStore_fetch s id).packages
  rw [hf] at hpackages
  have hstored : s.packages[id]? = some fresh := by
    unfold Server.fetch Server.request at hf
    have hb := (Server.sameStore_begin s .fetch).packages
    rcases hs : s.begin .fetch with ⟨_ | queued, counted⟩ <;> rw [hs] at hf hb
    · dsimp only at hf hb
      rw [hb] at hf
      cases hp : s.packages[id]? with
      | none => rw [hp] at hf; cases hf
      | some found => rw [hp] at hf; cases hf; rfl
    · cases hf
  refine ⟨hstored, ?_⟩
  rw [hpackages, h.id_eq hstored]
  exact hstored

theorem coherentBut_refetch {d : Desk} {exempt : Option PackageId} (h : d.CoherentBut exempt)
    (wellFormed : d.server.WellFormed) (parent : PackageId) :
    (d.refetch parent).1.CoherentBut exempt := by
  have hpackages := (Server.sameStore_fetch d.server parent).packages
  rcases hf : d.server.fetch parent with ⟨error | fresh, after⟩ <;> rw [hf] at hpackages
  · rw [refetch_missing hf]
    exact h.congr hpackages rfl
  · rw [refetch_fetched hf]
    have hnow : ({ d with server := after } : Desk).CoherentBut exempt := h.congr hpackages rfl
    exact coherentBut_putPackage hnow (stored_of_fetch wellFormed hf).2

end Desk

/-! ## Hooks -/

def Hook.PutsNothing : Hook → Prop
  | .custom writes _ => ∀ commit entries, ∀ write ∈ writes commit entries, ∃ id, write = .drop id
  | _ => True

namespace Desk

theorem reachable_runHook {d : Desk} (h : d.server.Reachable) (commit : Commit) (hook : Hook) :
    (d.runHook commit hook).1.server.Reachable := by
  obtain ⟨calls, hcalls, -⟩ := exists_server_runHook d commit hook
  rw [hcalls]
  exact h.run calls

theorem coherentBut_foldl_writeCache {d : Desk} {exempt : Option PackageId} (h : d.CoherentBut exempt)
    {writes : List CacheWrite} (drops : ∀ write ∈ writes, ∃ id, write = .drop id) :
    (writes.foldl writeCache d).CoherentBut exempt := by
  induction writes generalizing d with
  | nil => exact h
  | cons write rest ih =>
    obtain ⟨id, rfl⟩ := drops write List.mem_cons_self
    exact ih (coherentBut_dropPackage h) fun later hlater => drops later (List.mem_cons_of_mem _ hlater)

theorem coherentBut_runHook {d : Desk} {exempt : Option PackageId} (h : d.CoherentBut exempt)
    (reached : d.server.Reachable) (commit : Commit) {hook : Hook} (plain : hook.PutsNothing) :
    (d.runHook commit hook).1.CoherentBut exempt := by
  cases hook with
  | invalidateActivity => exact h.congr rfl rfl
  | refreshParent =>
    cases hp : commit.workPackage.parentId? with
    | none =>
      simp only [runHook, hp]
      exact h
    | some parent =>
      simp only [runHook, hp]
      refine coherentBut_refetch (coherentBut_dropPackage h) ?_ parent
      rw [server_dropPackage]
      exact reached.wellFormed
  | publishEvents =>
    unfold runHook publishEvents
    dsimp only
    split <;> exact h.congr rfl rfl
  | probe name fails => exact h.congr rfl rfl
  | custom writes fails => exact coherentBut_foldl_writeCache h (plain commit d.cache.entries)

/-- Dropping the parent and fetching it again mends the cache, also when the fetch fails. -/
theorem coherent_refreshParent {d : Desk} {commit : Commit}
    (h : d.CoherentBut commit.workPackage.parentId?) (reached : d.server.Reachable) :
    (d.runHook commit .refreshParent).1.Coherent := by
  cases hp : commit.workPackage.parentId? with
  | none =>
    rw [hp] at h
    simp only [runHook, hp]
    exact h
  | some parent =>
    rw [hp] at h
    simp only [runHook, hp]
    refine coherentBut_refetch (coherent_dropPackage h) ?_ parent
    rw [server_dropPackage]
    exact reached.wellFormed

theorem coherentBut_runHooks {exempt : Option PackageId} (commit : Commit) {hooks : List Hook}
    (plain : ∀ hook ∈ hooks, hook.PutsNothing) {d : Desk} (h : d.CoherentBut exempt)
    (reached : d.server.Reachable) : (d.runHooks commit hooks).CoherentBut exempt := by
  unfold runHooks
  induction hooks generalizing d with
  | nil => exact h
  | cons hook rest ih =>
    exact ih (fun later hlater => plain later (List.mem_cons_of_mem _ hlater))
      (coherentBut_runHook h reached commit (plain hook List.mem_cons_self))
      (reachable_runHook reached commit hook)

/-- With the parent exempt at first, the cache agrees once the hooks have run. -/
theorem coherent_runHooks (commit : Commit) {hooks : List Hook}
    (plain : ∀ hook ∈ hooks, hook.PutsNothing) (refreshes : Hook.refreshParent ∈ hooks)
    {d : Desk} (h : d.CoherentBut commit.workPackage.parentId?) (reached : d.server.Reachable) :
    (d.runHooks commit hooks).Coherent := by
  induction hooks generalizing d with
  | nil => cases refreshes
  | cons hook rest ih =>
    have hplain : ∀ later ∈ rest, later.PutsNothing :=
      fun later hlater => plain later (List.mem_cons_of_mem _ hlater)
    have hreached := reachable_runHook reached commit hook
    rcases List.mem_cons.1 refreshes with rfl | hrest
    · exact coherentBut_runHooks commit hplain (coherent_refreshParent h reached) hreached
    · exact ih hplain hrest
        (coherentBut_runHook h reached commit (plain hook List.mem_cons_self)) hreached

/-! ## Saves -/

theorem coherentBut_settle {d : Desk} {server : Server} {now : Instant} {pristine saved : Snapshot}
    {payload : Payload} (sent : d.server.update now pristine payload = (.ok saved, server))
    (h : d.Coherent) (k : Handle) {commit : Commit} (answer : commit.workPackage = saved) :
    ((d.answered server).settle k commit).CoherentBut commit.workPackage.parentId? := by
  intro id x hne hx
  rw [cache_settle, PackageCache.get?_put] at hx
  rw [answer] at hne hx
  rw [server_settle]
  show ∃ current, server.packages[id]? = some current ∧ x.same current = true
  rw [Server.packages_of_update_eq_ok sent]
  split at hx
  · rename_i heq
    rw [if_pos heq]
    exact ⟨saved, rfl, Snapshot.same_iff.2 (by rw [← Option.some.inj hx])⟩
  · rename_i hother
    rw [if_neg hother, if_neg hne]
    exact h id x (by simp) hx

end Desk

end Draftboard
