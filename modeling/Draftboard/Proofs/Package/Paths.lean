import Mathlib.Data.List.Basic
import Draftboard.Package.Snapshot
import Draftboard.Proofs.Decimal
/-!
# Paths that end in an id

What comes last in a path, slashes at its end left out, is the id that the path gives: each path ends in
one id, unless it is made of slashes. An id that a path can end in is read back from its own path, and a
parent from the link to it; no other id is.
-/

namespace Draftboard

open Text

namespace PackageId

/-- An id that can be the last part of a path. -/
def IsSegment (id : PackageId) : Prop := id.text ≠ "" ∧ '/' ∉ id.text.toList

def slashes (n : Nat) : String := String.ofList (List.replicate n '/')

/-- The path ends in the id: nothing stands in front of it or a slash does, and only slashes follow. -/
structure EndsIn (path : String) (id : PackageId) : Prop where
  segment : id.IsSegment
  parts : ∃ front n, (front = "" ∨ ∃ start, front = start ++ "/") ∧ path = front ++ id.text ++ slashes n

/-! ## Reading from the end -/

theorem reverse_toList_parts (front text : String) (n : Nat) :
    (front ++ text ++ slashes n).toList.reverse =
      List.replicate n '/' ++ (text.toList.reverse ++ front.toList.reverse) := by
  simp [slashes]

theorem isSlash_of_mem_replicate (n : Nat) : ∀ c ∈ List.replicate n '/', decide (c = '/') = true :=
  fun _ hc => decide_eq_true (List.eq_of_mem_replicate hc)

theorem ofHref?_slashes (n : Nat) : ofHref? (slashes n) = none := by
  have hdrop := List.dropWhile_eq_nil_iff.2 (isSlash_of_mem_replicate n)
  simp [ofHref?, slashes, hdrop]

theorem ofHref?_of_endsIn {path : String} {id : PackageId} (h : EndsIn path id) :
    ofHref? path = some id := by
  obtain ⟨⟨hne, hfree⟩, front, n, hfront, rfl⟩ := h
  have hpart : ∀ c ∈ id.text.toList.reverse, c ≠ '/' := by
    rintro c hc rfl
    exact hfree (List.mem_reverse.1 hc)
  have hstart : ∀ c ∈ (id.text.toList.reverse ++ front.toList.reverse).head?,
      decide (c = '/') = false := by
    intro c hc
    rw [List.head?_append_of_ne_nil _ (by simpa using hne)] at hc
    exact decide_eq_false (hpart c (List.mem_of_mem_head? hc))
  have hstop : ∀ c ∈ front.toList.reverse.head?, decide (c ≠ '/') = false := by
    rcases hfront with rfl | ⟨start, rfl⟩ <;> simp
  simp only [ofHref?, reverse_toList_parts, dropWhile_run (isSlash_of_mem_replicate n) hstart,
    takeWhile_run (fun c hc => decide_eq_true (hpart c hc)) hstop]
  simp [hne]

/-- Cut from its end, a path is a run of slashes, a part without any, and what comes before that. -/
theorem slashes_or_endsIn (path : String) : (∃ n, path = slashes n) ∨ ∃ id, EndsIn path id := by
  obtain ⟨tail, rest, hcut, htail, hrest⟩ := exists_run (· = '/') path.toList.reverse
  obtain ⟨part, before, rfl, hpart, hbefore⟩ := exists_run (· ≠ '/') rest
  have hslashes : tail = List.replicate tail.length '/' :=
    List.eq_replicate_of_mem fun c hc => of_decide_eq_true (htail c hc)
  have hpath : path =
      String.ofList before.reverse ++ String.ofList part.reverse ++ slashes tail.length := by
    rw [← String.toList_inj, ← List.reverse_inj, reverse_toList_parts, ← hslashes, hcut]
    simp
  -- If nothing stands in front of the last slashes, the path is made of slashes.
  cases part with
  | nil =>
    have hnone : before = [] := by
      cases before with
      | nil => rfl
      | cons c before =>
        have hne : c ≠ '/' := of_decide_eq_false (hrest c rfl)
        exact absurd (hbefore c rfl) (by simp [hne])
    subst hnone
    exact .inl ⟨tail.length, by simpa using hpath⟩
  | cons c part =>
    refine .inr ⟨{ text := String.ofList (c :: part).reverse }, ⟨by simp, ?_⟩,
      String.ofList before.reverse, tail.length, ?_, hpath⟩
    · intro hmem
      rw [String.toList_ofList, List.mem_reverse] at hmem
      exact of_decide_eq_true (hpart '/' hmem) rfl
    · cases before with
      | nil => exact .inl rfl
      | cons d before =>
        obtain rfl : d = '/' := by simpa using hbefore d rfl
        exact .inr ⟨String.ofList before.reverse, by simp⟩

theorem ofHref?_eq_none_iff (path : String) : ofHref? path = none ↔ ∃ n, path = slashes n := by
  constructor
  · intro h
    rcases slashes_or_endsIn path with hslashes | ⟨id, hends⟩
    · exact hslashes
    · rw [ofHref?_of_endsIn hends] at h
      cases h
  · rintro ⟨n, rfl⟩
    exact ofHref?_slashes n

theorem ofHref?_eq_some_iff (path : String) (id : PackageId) :
    ofHref? path = some id ↔ EndsIn path id := by
  refine ⟨fun h => ?_, ofHref?_of_endsIn⟩
  rcases slashes_or_endsIn path with ⟨n, rfl⟩ | ⟨other, hends⟩
  · rw [ofHref?_slashes] at h
    cases h
  · rw [ofHref?_of_endsIn hends] at h
    exact Option.some.inj h ▸ hends

/-! ## The path of an id -/

theorem endsIn_href {id : PackageId} (h : id.IsSegment) (n : Nat) : EndsIn (id.href ++ slashes n) id :=
  ⟨h, pathStart, n, .inr ⟨"/api/v3/work_packages", by decide⟩, rfl⟩

theorem ofHref?_href_iff (id : PackageId) (n : Nat) :
    ofHref? (id.href ++ slashes n) = some id ↔ id.IsSegment :=
  ⟨fun h => ((ofHref?_eq_some_iff _ _).1 h).segment, fun h => ofHref?_of_endsIn (endsIn_href h n)⟩

end PackageId

theorem Snapshot.parentId?_withParent (s : Snapshot) (parent : PackageId) :
    (s.withParent parent).parentId? = PackageId.ofHref? parent.href := by
  simp only [parentId?, withParent, value_setValue, if_true]
  rfl

/-- An id is read back from its path, whatever slashes follow, and from the link of a work package to its
parent, just if it is not empty and has no slash. A path gives no id just if it is made of slashes, and
else the one that it ends in. -/
theorem PackageId.paths_give_ids :
    (∀ id : PackageId, (∀ n, ofHref? (id.href ++ slashes n) = some id ↔ id.IsSegment) ∧
      ∀ s : Snapshot, (s.withParent id).parentId? = some id ↔ id.IsSegment) ∧
    ∀ path, (ofHref? path = none ↔ ∃ n, path = slashes n) ∧
      ∀ id, ofHref? path = some id ↔ EndsIn path id := by
  refine ⟨fun id => ⟨ofHref?_href_iff id, fun s => ?_⟩,
    fun path => ⟨ofHref?_eq_none_iff path, ofHref?_eq_some_iff path⟩⟩
  have hnone : id.href = id.href ++ slashes 0 := by simp [slashes]
  rw [s.parentId?_withParent, hnone]
  exact ofHref?_href_iff id 0

example : PackageId.ofHref? "work_packages//17///" = some { text := "17" } := by decide

end Draftboard
