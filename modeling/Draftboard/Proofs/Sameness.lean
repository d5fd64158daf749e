import Mathlib.Logic.Basic
import Draftboard.Changeset.Basic
/-!
# Sameness up to titles

Change-sets over one snapshot with the same modifications look the same.
-/

namespace Draftboard

theorem AttrValue.untitled_eq_null {v : AttrValue} : v.untitled = .null ↔ v = .null := by
  cases v <;> simp [untitled]

namespace Attributes

theorem isEmpty_untitled (a : Attributes) : a.untitled.isEmpty = a.isEmpty := by
  simp [untitled, Std.ExtTreeMap.isEmpty_eq_size_beq_zero]

theorem isEmpty_eq_of_same {a b : Attributes} (h : a.same b = true) : a.isEmpty = b.isEmpty := by
  rw [← isEmpty_untitled a, same_iff.1 h, isEmpty_untitled]

theorem getElem?_eq_null_iff {a b : Attributes} (h : a.same b = true) (name : String) :
    a[name]? = some .null ↔ b[name]? = some .null := by
  have hlookup := congrArg (·[name]?) (same_iff.1 h)
  simp only [getElem?_untitled] at hlookup
  have hnull : ∀ attributes : Attributes,
      attributes[name]?.map AttrValue.untitled = some .null ↔ attributes[name]? = some .null := by
    intro attributes
    simp [Option.map_eq_some_iff, AttrValue.untitled_eq_null]
  rw [← hnull a, hlookup, hnull b]

end Attributes

namespace Changeset

theorem getElem?_projected (c : Changeset) (name : String) :
    c.projected.attributes[name]? =
      if c.changes[name]? = some .null then none
      else c.changes[name]?.or c.pristine.attributes[name]? := by
  simp only [projected, Std.ExtTreeMap.getElem?_filter', Std.ExtTreeMap.getElem?_union]
  split
  · rename_i hnull
    simp [hnull]
  · rename_i hnull
    simp only [hnull, ne_eq, not_false_eq_true, decide_true]
    cases c.changes[name]?.or c.pristine.attributes[name]? <;> rfl

theorem untitled_projected {c c' : Changeset} (pristine : c'.pristine = c.pristine)
    (h : c.changes.same c'.changes = true) : c'.projected.untitled = c.projected.untitled := by
  have hattributes : c'.projected.attributes.untitled = c.projected.attributes.untitled := by
    refine Std.ExtTreeMap.ext_getElem? fun name => ?_
    have hlookup := congrArg (·[name]?) (Attributes.same_iff.1 h)
    simp only [Attributes.getElem?_untitled] at hlookup ⊢
    rw [getElem?_projected, getElem?_projected, pristine]
    by_cases hnull : c.changes[name]? = some .null
    · rw [if_pos hnull, if_pos ((Attributes.getElem?_eq_null_iff h name).1 hnull)]
    · rw [if_neg hnull, if_neg (mt (Attributes.getElem?_eq_null_iff h name).2 hnull),
        Option.map_or, Option.map_or, hlookup]
  simp only [Snapshot.untitled, projected] at hattributes ⊢
  rw [hattributes, pristine]

end Changeset

end Draftboard
