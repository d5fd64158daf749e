import Draftboard.Proofs.Json.Text
import Draftboard.Proofs.Payload
/-!
# Writers and readers of one type

A value makes the round trip when its JSON is told exactly by its text and is read as the value. Lists
and maps make it when their entries do. In the other direction, what holds of all that the reader
of an entry gives holds of each entry of a list or a map that is read.
-/

namespace Draftboard

open Json

/-! ## Reading what was written -/

theorem foldl_insert_toList {α : Type} (m : TextMap α) :
    m.toList.foldl (fun m (name, value) => m.insert name value) ∅ = m := by
  refine Std.ExtTreeMap.ext_getElem? fun name => ?_
  have := lookup_foldl_toList (fun (m : TextMap α) name value => m.insert name value)
    (fun m name => m[name]?) (fun b name value other => by
      simp only [Std.ExtTreeMap.getElem?_insert, Std.LawfulEqOrd.compare_eq_iff_eq]) m ∅ name
  simpa using this

section RoundTrips

variable {α : Type} [ToJson α] [FromJson α]

/-- The JSON of a value is told exactly by its text, and is read as the value. -/
structure RoundTrips (depth : Nat) (a : α) : Prop where
  exact : Exact depth (toJson a)
  ofJson?_eq : ofJson? (toJson a) = some a

def ReadsBack (a : α) : Prop :=
  ofJson? (toJson a) = some a ∧ (Json.read? (compact (toJson a))).bind ofJson? = some a

variable {depth : Nat} {a : α}

theorem RoundTrips.required_eq (h : RoundTrips depth a) :
    required (some (toJson a)) = some a := h.ofJson?_eq

theorem RoundTrips.defaulted_eq (h : RoundTrips depth a) (default : α) :
    defaulted default (some (toJson a)) = some a := h.ofJson?_eq

theorem RoundTrips.readsBack (h : RoundTrips 127 a) : ReadsBack a := by
  refine ⟨h.ofJson?_eq, ?_⟩
  rw [read?_compact h.exact, Option.bind_some, h.ofJson?_eq]

theorem roundTrips_list {items : List α} (h : ∀ a ∈ items, RoundTrips depth a) :
    RoundTrips (depth + 1) items where
  exact := .arr (List.forall_mem_map.2 fun a ha => (h a ha).exact)
  ofJson?_eq := by
    change (items.map toJson).mapM ofJson? = some items
    induction items with
    | nil => rfl
    | cons a items ih =>
      obtain ⟨ha, hitems⟩ := List.forall_mem_cons.1 h
      simp [ha.ofJson?_eq, ih hitems]

theorem foldlM_insert {entries : List (String × α)}
    (h : ∀ e ∈ entries, ofJson? (toJson e.2) = some e.2) (m : TextMap α) :
    (entries.map fun (name, value) => (name, toJson value)).foldlM
        (fun m (name, value) => (ofJson? value).map (m.insert name)) m =
      some (entries.foldl (fun m (name, value) => m.insert name value) m) := by
  induction entries generalizing m with
  | nil => rfl
  | cons e entries ih =>
    obtain ⟨he, hentries⟩ := List.forall_mem_cons.1 h
    simp [he, ih hentries]

theorem roundTrips_map {m : TextMap α}
    (h : ∀ (name : String) (value : α), m[name]? = some value → RoundTrips depth value) :
    RoundTrips (depth + 1) m := by
  have hentries : ∀ e ∈ m.toList, RoundTrips depth e.2 := fun e he =>
    h e.1 e.2 (Std.ExtTreeMap.mem_toList_iff_getElem?_eq_some.1 he)
  refine ⟨.obj (List.forall_mem_map.2 fun e he => (hentries e he).exact), ?_⟩
  change (m.toList.map fun (name, value) => (name, toJson value)).foldlM
    (fun m (name, value) => (ofJson? value).map (m.insert name)) ∅ = some m
  rw [foldlM_insert fun e he => (hentries e he).ofJson?_eq, foldl_insert_toList]

end RoundTrips

/-! ## Scalars -/

theorem roundTrips_bool (depth : Nat) (b : Bool) : RoundTrips depth b := ⟨.bool depth b, rfl⟩

theorem roundTrips_string (depth : Nat) (s : String) : RoundTrips depth s := ⟨.str depth s, rfl⟩

def FitsInt64 (n : Int) : Prop := Int64.minValue.toInt ≤ n ∧ n ≤ Int64.maxValue.toInt

theorem roundTrips_int (depth : Nat) {n : Int} (h : FitsInt64 n) : RoundTrips depth n where
  exact := .int depth ⟨h.1, Int.lt_of_le_of_lt h.2 (by decide)⟩
  ofJson?_eq := by
    change (Json.int n).int64? = some n
    rw [int64?, if_pos ⟨h.1, h.2⟩]

theorem roundTrips_nat (depth : Nat) {n : Nat} (h : n < UInt64.size) : RoundTrips depth n where
  exact := .int depth ⟨Int.le_trans (by decide) (Int.natCast_nonneg n), by exact_mod_cast h⟩
  ofJson?_eq := by
    change (Json.int n).nat64? = some n
    rw [nat64?, if_pos ⟨Int.natCast_nonneg n, by exact_mod_cast h⟩, Int.toNat_natCast]

/-! ## What was read -/

theorem fitsInt64_of_int64? {j : Json} {n : Int} (h : j.int64? = some n) : FitsInt64 n := by
  unfold int64? at h
  split at h
  · split at h
    case isTrue hfits =>
      obtain rfl := Option.some.inj h
      exact hfits
    case isFalse => cases h
  · cases h

theorem lt_size_of_nat64? {j : Json} {n : Nat} (h : j.nat64? = some n) : n < UInt64.size := by
  unfold nat64? at h
  split at h
  · split at h
    case isTrue hfits =>
      obtain rfl := Option.some.inj h
      exact (Int.toNat_lt hfits.1).2 hfits.2
    case isFalse => cases h
  · cases h

theorem forall_mem_of_list? {α : Type} {f : Json → Option α} {P : α → Prop}
    (h : ∀ j a, f j = some a → P a) {j : Json} {items : List α} (hread : list? f j = some items) :
    ∀ a ∈ items, P a := by
  unfold list? at hread
  split at hread
  case h_1 js =>
    induction js generalizing items with
    | nil =>
      obtain rfl := Option.some.inj hread
      simp
    | cons j js ih =>
      simp only [List.mapM_cons, Option.bind_eq_bind, Option.bind_eq_some_iff] at hread
      obtain ⟨a, ha, rest, hrest, hitems⟩ := hread
      obtain rfl := Option.some.inj hitems
      exact List.forall_mem_cons.2 ⟨h j a ha, ih hrest⟩
  case h_2 => cases hread

theorem forall_getElem?_of_map? {α : Type} {f : Json → Option α} {P : α → Prop}
    (h : ∀ j a, f j = some a → P a) {j : Json} {m : TextMap α} (hread : map? f j = some m) :
    ∀ (name : String) (a : α), m[name]? = some a → P a := by
  unfold map? at hread
  split at hread
  case h_1 fields =>
    have hempty : ∀ (name : String) (a : α), (∅ : TextMap α)[name]? = some a → P a := by simp
    generalize (∅ : TextMap α) = start at hread hempty
    induction fields generalizing start with
    | nil =>
      obtain rfl := Option.some.inj hread
      exact hempty
    | cons field fields ih =>
      simp only [List.foldlM_cons, Option.bind_eq_bind, Option.bind_eq_some_iff,
        Option.map_eq_some_iff] at hread
      obtain ⟨_, ⟨a, ha, rfl⟩, hrest⟩ := hread
      refine ih _ hrest fun name b hb => ?_
      simp only [Std.ExtTreeMap.getElem?_insert] at hb
      split at hb
      · exact Option.some.inj hb ▸ h _ a ha
      · exact hempty name b hb
  case h_2 => cases hread

theorem of_defaulted {α : Type} [FromJson α] {P : α → Prop} {default : α} (hdefault : P default)
    (h : ∀ j a, ofJson? j = some a → P a) {content : Option Json} {a : α}
    (hread : defaulted default content = some a) : P a := by
  cases content with
  | none =>
    obtain rfl := Option.some.inj hread
    exact hdefault
  | some j => exact h j a hread

end Draftboard
