import Draftboard.Desk.Editing
import Draftboard.Proofs.Server.Stores
/-!
# Removals of attachments

A list of attachments and the server that stores them are kept in step: what is listed is stored. A
removal takes an attachment from both or from neither. It takes every entry of the list that has its id,
as the server has each id only once.
-/

namespace Draftboard

/-! ## One removal -/

/-- Why a deletion fails, if it does: the failure that is queued first, or that nothing is stored. -/
def Server.deletionError? (s : Server) (a : Attachment) : Option ApiError :=
  match s.failures.get .delete with
  | error :: _ => some error
  | [] => if a.id ∈ s.attachments then none else some (.notFound .attachment a.id)

theorem Server.fst_deleteAttachment (s : Server) (a : Attachment) :
    (s.deleteAttachment a).1 =
      match s.deletionError? a with
      | some error => .error error
      | none => .ok () := by
  unfold deleteAttachment request deletionError? begin
  cases s.failures.get .delete with
  | cons error rest => rfl
  | nil =>
    dsimp only
    split <;> rfl

namespace Desk

/-- The two ways a removal ends: the attachment has gone from the server and from the list, or nothing has
gone and the user is told why. -/
inductive RemovalEnds (d : Desk) (l : AttachmentList) (a : Attachment) :
    Desk × AttachmentList × Bool → Prop
  | removed {server : Server} (free : d.server.deletionError? a = none)
      (loses : d.server.Loses server a.id) :
      RemovalEnds d l a ({ d with server }, l.without a.id, true)
  | failed {server : Server} {error : ApiError} (cause : d.server.deletionError? a = some error)
      (keeps : d.server.SameStore server) :
      RemovalEnds d l a
        (({ d with server } : Desk).notify (.ofError (.api error) l.workPackage), l, false)

theorem removal_ends (d : Desk) (l : AttachmentList) (a : Attachment) :
    d.RemovalEnds l a (d.removeAttachment l a) := by
  have hanswer := d.server.fst_deleteAttachment a
  unfold removeAttachment request
  rcases hd : d.server.deleteAttachment a with ⟨error | done, server⟩ <;> rw [hd] at hanswer <;>
    simp only [hd]
  · cases hcause : d.server.deletionError? a with
    | none =>
      rw [hcause] at hanswer
      cases hanswer
    | some cause =>
      rw [hcause] at hanswer
      cases hanswer
      exact .failed hcause (Server.sameStore_of_deleteAttachment hd)
  · cases hcause : d.server.deletionError? a with
    | none => exact .removed hcause (Server.loses_of_deleteAttachment hd)
    | some cause =>
      rw [hcause] at hanswer
      cases hanswer

end Desk

theorem Server.Loses.mem_iff {s s' : Server} {attachment : String} (loses : s.Loses s' attachment)
    (id : String) : id ∈ s'.attachments ↔ id ∈ s.attachments ∧ id ≠ attachment := by
  rw [loses.attachments, Std.ExtTreeSet.mem_erase, ne_eq, Std.LawfulEqOrd.compare_eq_iff_eq, and_comm,
    eq_comm]

/-! ## Many removals -/

/-- A failure is queued at the server, or an attachment is to be removed. -/
inductive Removal where
  | fail (op : Operation) (error : ApiError)
  | remove (a : Attachment)

/-- A list of attachments while it is worked on, with the ids that have been removed. -/
structure Clearing where
  desk : Desk
  list : AttachmentList
  removed : List String := []

namespace Clearing

def step (s : Clearing) : Removal → Clearing
  | .fail op error => { s with desk := { s.desk with server := s.desk.server.failNext op error } }
  | .remove a =>
    let (desk, list, gone) := s.desk.removeAttachment s.list a
    { desk, list, removed := if gone then s.removed ++ [a.id] else s.removed }

def run (s : Clearing) (removals : List Removal) : Clearing := removals.foldl step s

/-- The list is in step with the server, and it is the one there was at first without what has been
removed. -/
structure InStep (first : AttachmentList) (s : Clearing) : Prop where
  stored : ∀ a ∈ s.list.elements, a.id ∈ s.desk.server.attachments
  list : s.list = { first with elements := first.elements.filter (·.id ∉ s.removed) }

theorem InStep.step {first : AttachmentList} {s : Clearing} (inStep : s.InStep first)
    (removal : Removal) : (s.step removal).InStep first := by
  cases removal with
  | fail op error => exact ⟨inStep.stored, inStep.list⟩
  | remove a =>
    have hends := s.desk.removal_ends s.list a
    unfold Clearing.step
    dsimp only
    generalize s.desk.removeAttachment s.list a = ended at hends
    cases hends with
    | removed free loses =>
      constructor
      · intro other hother
        obtain ⟨hlisted, hne⟩ := List.mem_filter.1 hother
        exact (loses.mem_iff other.id).2 ⟨inStep.stored other hlisted, of_decide_eq_true hne⟩
      · unfold AttachmentList.without
        rw [inStep.list]
        simp only [List.filter_filter, if_true, AttachmentList.mk.injEq, true_and]
        refine List.filter_congr fun other _ => ?_
        rw [Bool.eq_iff_iff]
        simp [and_comm]
    | failed cause keeps =>
      constructor
      · intro other hother
        exact keeps.attachments.symm ▸ inStep.stored other hother
      · exact inStep.list

theorem InStep.run {first : AttachmentList} {s : Clearing} (inStep : s.InStep first)
    (removals : List Removal) : (s.run removals).InStep first := by
  induction removals generalizing s with
  | nil => exact inStep
  | cons removal rest ih => exact ih (inStep.step removal)

end Clearing

/-- A list of stored attachments is in step with the server after any removals, however many of them
fail. It has lost the ids that were removed, and nothing else. A removal succeeds unless a failure is
queued or nothing is stored under its id, and then the id is no longer stored; else nothing changes but
that the user is told once. -/
theorem removals_in_step (d : Desk) (l : AttachmentList)
    (listed : ∀ a ∈ l.elements, a.id ∈ d.server.attachments) (removals : List Removal) :
    let s := ({ desk := d, list := l } : Clearing).run removals
    (∀ a ∈ s.list.elements, a.id ∈ s.desk.server.attachments) ∧
    s.list = { l with elements := l.elements.filter (·.id ∉ s.removed) } ∧
    ∀ a, let next := s.step (.remove a)
      let gone := (s.desk.removeAttachment s.list a).2.2
      next.removed = (if gone then s.removed ++ [a.id] else s.removed) ∧
      (gone = true ↔ s.desk.server.deletionError? a = none) ∧
      (gone = true ↔ a.id ∈ s.desk.server.attachments ∧ a.id ∉ next.desk.server.attachments) ∧
      (gone = true → next.desk.notices = s.desk.notices ∧
        ∀ id, id ∈ next.desk.server.attachments ↔ id ∈ s.desk.server.attachments ∧ id ≠ a.id) ∧
      (gone = false → next.list = s.list ∧
        next.desk.server.attachments = s.desk.server.attachments ∧
        ∃ error, s.desk.server.deletionError? a = some error ∧
          next.desk.notices = s.desk.notices ++ [.ofError (.api error) l.workPackage]) := by
  intro s
  have hall : l.elements.filter (·.id ∉ ([] : List String)) = l.elements :=
    List.filter_eq_self.2 fun a _ => by simp
  have hstart : ({ desk := d, list := l } : Clearing).InStep l := by
    refine ⟨listed, ?_⟩
    show l = { l with elements := l.elements.filter (·.id ∉ ([] : List String)) }
    rw [hall]
  have hinStep : s.InStep l := hstart.run removals
  have howner : s.list.workPackage = l.workPackage := by rw [hinStep.list]
  refine ⟨hinStep.stored, hinStep.list, fun a => ?_⟩
  have hends := s.desk.removal_ends s.list a
  unfold Clearing.step
  dsimp only
  generalize s.desk.removeAttachment s.list a = ended at hends
  cases hends with
  | removed free loses =>
    have hlost : a.id ∉ (Server.attachments _) := fun hmem => ((loses.mem_iff a.id).1 hmem).2 rfl
    simp [free, loses.stored, hlost, loses.mem_iff]
  | failed cause keeps =>
    simp [cause, keeps.attachments, Desk.notify, howner]

def Attachment.plan : Attachment := { id := "31", fileName := "plan.pdf" }

def Attachment.logo : Attachment := { id := "32", fileName := "logo.png" }

def Clearing.listedTwice : Clearing where
  desk := { server := (({} : Server).insertAttachment .plan).insertAttachment .logo }
  list := { workPackage := { text := "5" }, elements := [.plan, .logo, .plan] }

/-- The first removal of the attachment that is listed twice is not allowed, the second one succeeds; the
attachment of the last removal is not there. -/
def Removal.withFailures : List Removal :=
  [.fail .delete (.status 403 "not allowed"), .remove .plan, .remove .plan,
    .remove { id := "99", fileName := "ghost.txt" }]

theorem removals_in_step_listed_twice :
    (∀ a ∈ Clearing.listedTwice.list.elements, a.id ∈ Clearing.listedTwice.desk.server.attachments) ∧
      (Clearing.listedTwice.run Removal.withFailures).list.elements = [.logo] ∧
      (Clearing.listedTwice.run Removal.withFailures).removed = ["31"] ∧
      (Clearing.listedTwice.run Removal.withFailures).desk.notices.length = 2 ∧
      ((Clearing.listedTwice.run Removal.withFailures).step (.remove .plan)).list =
        (Clearing.listedTwice.run Removal.withFailures).list := by
  have listed : ∀ a ∈ Clearing.listedTwice.list.elements,
      a.id ∈ Clearing.listedTwice.desk.server.attachments := by decide +kernel
  have hinStep := removals_in_step Clearing.listedTwice.desk Clearing.listedTwice.list listed
    Removal.withFailures
  have hremoved : (Clearing.listedTwice.run Removal.withFailures).removed = ["31"] := by decide +kernel
  have hlist : (Clearing.listedTwice.run Removal.withFailures).list =
      { Clearing.listedTwice.list with
        elements := Clearing.listedTwice.list.elements.filter
          (·.id ∉ (Clearing.listedTwice.run Removal.withFailures).removed) } := hinStep.2.1
  have hgone : ((Clearing.listedTwice.run Removal.withFailures).desk.removeAttachment
      (Clearing.listedTwice.run Removal.withFailures).list .plan).2.2 = false := by
    decide +kernel
  refine ⟨listed, ?_, hremoved, by decide +kernel, ((hinStep.2.2 .plan).2.2.2.2 hgone).1⟩
  rw [hlist, hremoved]
  rfl

end Draftboard
