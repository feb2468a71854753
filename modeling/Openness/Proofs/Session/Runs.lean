import Openness.Proofs.Session.Marks

/-!
# Marks over a run

The law of marks for one operation, over any number of them: a class is complete after a run
exactly if it was complete where it comes from, or if some operation of the run completed
it, or the class that it comes from (`Session.isComplete_run_iff`).

An operation moves a class only by removing it. So a class that is complete stays so until
it is removed (`Session.isComplete_run_of_not_removed`). And only completion completes, so
what was read, or is under new names, is not complete (`Session.isComplete_read`,
`Session.isComplete_remap`).
-/

namespace Openness

namespace Session

variable {σ : Session} {p : Place} {op : Operation} {ops : List Operation}

/-- Where the class was, before some operations, that is at a place afterwards. -/
def originOver (σ : Session) : List Operation → Place → Option Place
  | [], p => some p
  | op :: ops, p => ((σ.step op).originOver ops p).bind (σ.origin op)

/-- Some operation of a run completes the class at a place, or the one that it comes from. -/
def CompletedIn (σ : Session) (ops : List Operation) (p : Place) : Prop :=
  ∃ before op after q, ops = before ++ op :: after ∧
    (σ.run (before ++ [op])).originOver after p = some q ∧ (σ.run before).Completes op q

theorem completedIn_nil : ¬σ.CompletedIn [] p := by
  rintro ⟨before, op, after, q, h, -⟩
  cases before <;> cases h

/-- The first operation completes the class, or one of the others does. -/
theorem completedIn_cons_iff :
    σ.CompletedIn (op :: ops) p ↔
      (∃ q, (σ.step op).originOver ops p = some q ∧ σ.Completes op q) ∨
        (σ.step op).CompletedIn ops p := by
  constructor
  · rintro ⟨before, op', after, q, h, hq, hop⟩
    cases before with
    | nil =>
      cases h
      exact .inl ⟨q, hq, hop⟩
    | cons op'' before =>
      cases h
      exact .inr ⟨before, op', after, q, rfl, hq, hop⟩
  · rintro (⟨q, hq, hop⟩ | ⟨before, op', after, q, rfl, hq, hop⟩)
    · exact ⟨[], op, ops, q, rfl, hq, hop⟩
    · exact ⟨op :: before, op', after, q, rfl, hq, hop⟩

/-- A class is complete after a run exactly if it was complete where it comes from, or if it
    was completed in the run. -/
theorem isComplete_run_iff :
    (σ.run ops).isComplete p = true ↔
      (∃ q, σ.originOver ops p = some q ∧ σ.isComplete q = true) ∨ σ.CompletedIn ops p := by
  induction ops generalizing σ with
  | nil => simp [run, originOver, completedIn_nil]
  | cons op ops ih =>
    show ((σ.step op).run ops).isComplete p = true ↔ _
    rw [ih, completedIn_cons_iff, ← or_assoc]
    refine or_congr_left ?_
    -- Where the class was after the first operation, that operation has its law.
    simp only [originOver, isComplete_step_iff, Option.bind_eq_some_iff]
    constructor
    · rintro ⟨q, hq, ⟨q', hq', hmark⟩ | hop⟩
      · exact .inl ⟨q', ⟨q, hq, hq'⟩, hmark⟩
      · exact .inr ⟨q, hq, hop⟩
    · rintro (⟨q', ⟨q, hq, hq'⟩, hmark⟩ | ⟨q, hq, hop⟩)
      · exact ⟨q, hq, .inl ⟨q', hq', hmark⟩⟩
      · exact ⟨q, hq, .inr hop⟩

/-- A complete class stays where it is unless it is removed. -/
theorem origin_eq_self (hp : σ.isComplete p = true) (hop : ¬op.Removes p) :
    σ.origin op p = some p := by
  -- The place is there, so it is none of the new ones.
  have held {j : Nat} {n : String} (h : σ.isComplete (.held j n) = true) : j ≠ σ.sets.length := by
    rintro rfl
    rw [isComplete_new_held] at h
    cases h
  have loose {j : Nat} (h : σ.isComplete (.loose j) = true) : j ≠ σ.classes.length := by
    rintro rfl
    rw [isComplete_new_loose] at h
    cases h
  cases op with
  | copySet i =>
    cases p with
    | held j n => simp [origin, held hp]
    | loose j => rfl
  | copyClass q =>
    cases p with
    | held j n => rfl
    | loose j => simp [origin, loose hp]
  | remove i n =>
    cases p with
    | held j m => exact if_neg fun h => hop (by rw [h.1, h.2]; rfl)
    | loose j => simp [origin, loose hp]
  | _ => rfl

/-- A complete class stays complete unless it is removed. -/
theorem isComplete_step_of_not_removed (hp : σ.isComplete p = true) (hop : ¬op.Removes p) :
    (σ.step op).isComplete p = true :=
  isComplete_step_iff.2 (.inl ⟨p, origin_eq_self hp hop, hp⟩)

/-- A complete class stays complete until it is removed. -/
theorem isComplete_run_of_not_removed (hp : σ.isComplete p = true)
    (hops : ∀ op ∈ ops, ¬op.Removes p) : (σ.run ops).isComplete p = true := by
  induction ops generalizing σ with
  | nil => exact hp
  | cons op ops ih =>
    obtain ⟨hop, hops⟩ := List.forall_mem_cons.1 hops
    exact ih (isComplete_step_of_not_removed hp hop) hops

/-- A class that was removed is complete no more. -/
theorem isComplete_of_removes (hop : op.Removes p) : (σ.step op).isComplete p = false := by
  cases op with
  | remove i n =>
    cases hop
    rw [isComplete_remove]
    simp [origin]
  | _ => exact hop.elim

/-- A class takes its mark along out of a set and into a copy. A new one of its name has none. -/
example :
    let σ := (∅ : Session).run [.newSet,
      .complete 0 Hierarchy.diamond (Hierarchy.runner "a/Left" ["a/Top"]),
      .remove 0 "a/Top", .touch 0 "a/Top", .copySet 0]
    σ.isComplete (.loose 0) = true ∧ σ.isComplete (.held 0 "a/Top") = false ∧
      σ.isComplete (.held 1 "a/Left") = true := by
  decide

/-! ## Sets that are made -/

/-- A set under new names holds no complete class. -/
theorem isComplete_remap (i : Nat) (r : Renamer) (n : String) :
    (σ.step (.remap i r)).isComplete (.held σ.sets.length n) = false := by
  rw [← Bool.not_eq_true, isComplete_step_iff]
  simp [origin, Completes, isComplete_new_held]

/-- A set that was read holds no complete class. -/
theorem isComplete_read (settings : Format.Settings) (bytes : List UInt8) (n : String) :
    (σ.step (.read settings bytes)).isComplete (.held σ.sets.length n) = false := by
  rw [← Bool.not_eq_true, isComplete_step_iff]
  simp [origin, Completes, isComplete_new_held]

end Session

end Openness
