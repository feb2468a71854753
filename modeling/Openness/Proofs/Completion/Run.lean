import Openness.Proofs.Completion.Completed

/-!
# Runs of completion

Completion as a recursion that works on one set (`TransformSet.Completes`): a
class that is complete is left alone; for any other one the parents are
completed in turn, each is asked for its entries right afterwards
(`TransformSet.Gathers`), and the class receives what was gathered. A derivation
is a finite run, so there is one exactly if the recursion ends.

In an acyclic hierarchy it always ends, in one way only, and with what
`TransformSet.complete` gives (`completes_iff`). For several names, that holds of
one call after the other (`completeEach`, `completesEach_iff`), and completing
all classes of a set is such a sequence of calls (`completeAll_eq`).
-/

namespace Openness

namespace TransformSet

/-- The entries of a parent that a class overrides. -/
def offered (s : TransformSet) (c p : ClassHeader) : List (Signature × Transform) :=
  (s.entry p.name).transforms.methods.toList.filter fun e => c.overrides e.1 p

/-- A class, new if need be, receives entries for its methods and is marked as
    complete. -/
def receive (s : TransformSet) (n : String) (l : List (Signature × Transform)) : TransformSet :=
  (s.modify n fun t => { t with methods := t.methods.joinAll l }).mark n true

mutual

/-- The call for a class in a set ends with another set and reports. -/
inductive Completes (h : Hierarchy) :
    TransformSet → ClassHeader → TransformSet → List Event → Prop
  | skip {s : TransformSet} {c : ClassHeader} :
      s.isComplete c.name = true → Completes h s c s []
  | inherit {s t : TransformSet} {c : ClassHeader} {l : List (Signature × Transform)}
      {events : List Event} :
      s.isComplete c.name = false → Gathers h c s (h.parents c) t l events →
        Completes h s c (t.receive c.name l) (events ++ [.completedClass c.name l.length])

/-- A class goes through some parents in a set, which ends with another set,
    what the parents had to offer, and reports. -/
inductive Gathers (h : Hierarchy) :
    ClassHeader → TransformSet → List ClassHeader → TransformSet → List (Signature × Transform) →
      List Event → Prop
  | nil {c : ClassHeader} {s : TransformSet} : Gathers h c s [] s [] []
  | cons {c p : ClassHeader} {ps : List ClassHeader} {s t u : TransformSet}
      {l : List (Signature × Transform)} {events events' : List Event} :
      Completes h s p t events → Gathers h c t ps u l events' →
        Gathers h c s (p :: ps) u (t.offered c p ++ l) (events ++ events')

end

/-- The calls for the known classes among some names, one after the other. -/
inductive CompletesEach (h : Hierarchy) :
    TransformSet → List String → TransformSet → List Event → Prop
  | nil {s : TransformSet} : CompletesEach h s [] s []
  | unknown {s t : TransformSet} {n : String} {ns : List String} {events : List Event} :
      h.find? n = none → CompletesEach h s ns t events → CompletesEach h s (n :: ns) t events
  | known {s t u : TransformSet} {n : String} {ns : List String} {c : ClassHeader}
      {events events' : List Event} :
      h.find? n = some c → Completes h s c t events → CompletesEach h t ns u events' →
        CompletesEach h s (n :: ns) u (events ++ events')

/-- Completes the known classes among some names, one after the other. -/
def completeEach (h : Hierarchy) : List String → TransformSet → TransformSet × List Event
  | [], s => (s, [])
  | n :: ns, s =>
    match h.find? n with
    | none => completeEach h ns s
    | some c =>
      let (t, events) := s.complete h c
      let (u, events') := completeEach h ns t
      (u, events ++ events')

variable {h : Hierarchy} {s t : TransformSet} {c : ClassHeader} {events : List Event}

/-! ## One class -/

/-- Going through parents is completing them, as what a parent has to offer does
    not change when the others are completed. -/
theorem gathers_iff (acyclic : h.Acyclic) {ps : List ClassHeader}
    (calls : ∀ p ∈ ps, ∀ (s t : TransformSet) (events : List Event),
      Completes h s p t events ↔ s.complete h p = (t, events))
    (hps : ∀ p ∈ ps, h.Knows p) {l : List (Signature × Transform)} :
    Gathers h c s ps t l events ↔
      s.completeFrom h ps = (t, events) ∧ l = ps.flatMap (t.offered c) := by
  induction ps generalizing s l events with
  | nil =>
    constructor
    · rintro ⟨⟩
      exact ⟨rfl, rfl⟩
    · rintro ⟨e, rfl⟩
      cases e
      exact .nil
  | cons p ps ih =>
    obtain ⟨hcall, hcalls⟩ := List.forall_mem_cons.1 calls
    obtain ⟨hp, hps⟩ := List.forall_mem_cons.1 hps
    have offer : ((s.complete h p).1.completeFrom h ps).1.offered c p =
        (s.complete h p).1.offered c p := by
      have done : (s.complete h p).1.isComplete p.name = true := by
        cases hs : s.isComplete p.name with
        | true => rw [complete_of_isComplete hs, hs]
        | false =>
          exact (Completed.complete acyclic hp s).isComplete_of_due (.root List.mem_cons_self hs)
      rw [offered, offered, entry_of_find?_eq
        ((Completed.completeFrom acyclic hps _).find?_of_isComplete done)]
    rw [completeFrom_cons, List.flatMap_cons]
    constructor
    · -- From the run: the calls in it are those of completion, by what is known of
      -- each parent and by induction for the rest.
      intro hrun
      cases hrun with
      | cons hcompletes hgathers =>
        have ht := (hcall _ _ _).1 hcompletes
        rw [ht] at offer ⊢
        obtain ⟨hu, rfl⟩ := (ih hcalls hps).1 hgathers
        rw [hu] at offer ⊢
        exact ⟨rfl, by rw [offer]⟩
    · -- And to a run, built from the same calls.
      rintro ⟨e, rfl⟩
      cases e
      rw [offer]
      exact .cons ((hcall _ _ _).2 rfl) ((ih hcalls hps).2 ⟨rfl, rfl⟩)

/-- In an acyclic hierarchy the recursion ends with what completion gives. -/
theorem completes_iff (acyclic : h.Acyclic) (hc : h.Knows c) :
    Completes h s c t events ↔ s.complete h c = (t, events) := by
  induction c using acyclic.induction generalizing s t events with
  | step c ih =>
    have gathers (u : TransformSet) (l : List (Signature × Transform)) (events : List Event) :
        Gathers h c s (h.parents c) u l events ↔
          s.completeFrom h (h.parents c) = (u, events) ∧ l = u.inherited h c :=
      gathers_iff acyclic (fun p hp _ _ _ => ih p hp (Hierarchy.IsParent.knows hp))
        fun p hp => Hierarchy.IsParent.knows hp
    constructor
    · rintro (hs | ⟨hs, hgathers⟩)
      · exact complete_of_isComplete hs
      · obtain ⟨hu, rfl⟩ := (gathers _ _ _).1 hgathers
        rw [complete_of_not_isComplete acyclic hs, hu]
        rfl
    · intro e
      cases hs : s.isComplete c.name with
      | true =>
        rw [complete_of_isComplete hs] at e
        cases e
        exact .skip hs
      | false =>
        rw [complete_of_not_isComplete acyclic hs] at e
        cases e
        exact .inherit hs ((gathers _ _ _).2 ⟨rfl, rfl⟩)

/-! ## Several names -/

theorem completeEach_cons (h : Hierarchy) (n : String) (ns : List String) (s : TransformSet) :
    completeEach h (n :: ns) s =
      match h.find? n with
      | none => completeEach h ns s
      | some c => ((completeEach h ns (s.complete h c).1).1,
          (s.complete h c).2 ++ (completeEach h ns (s.complete h c).1).2) := rfl

/-- One call after the other is completing all classes at once. -/
theorem completeEach_eq (h : Hierarchy) (ns : List String) (s : TransformSet) :
    completeEach h ns s = s.completeFrom h (ns.filterMap h.find?) := by
  induction ns generalizing s with
  | nil => rfl
  | cons n ns ih =>
    rw [completeEach_cons]
    cases hn : h.find? n with
    | none => rw [List.filterMap_cons_none hn]; exact ih s
    | some c =>
      rw [List.filterMap_cons_some hn, completeFrom_cons]
      simp only [ih]

/-- Completing all classes of a set is one call after the other. -/
theorem completeAll_eq (s : TransformSet) (h : Hierarchy) :
    s.completeAll h = completeEach h s.classes.names s :=
  (completeEach_eq ..).symm

theorem completesEach_iff (acyclic : h.Acyclic) {ns : List String} :
    CompletesEach h s ns t events ↔ completeEach h ns s = (t, events) := by
  induction ns generalizing s t events with
  | nil =>
    constructor
    · rintro ⟨⟩
      rfl
    · intro e
      cases e
      exact .nil
  | cons n ns ih =>
    rw [completeEach_cons]
    constructor
    · rintro (_ | ⟨hn, hrest⟩ | ⟨hn, hc, hrest⟩)
      · rw [hn]
        exact ih.1 hrest
      · have hc := (completes_iff acyclic (Hierarchy.knows_of_find? hn)).1 hc
        simp only [hn, hc, ih.1 hrest]
    · intro e
      cases hn : h.find? n with
      | none =>
        rw [hn] at e
        exact .unknown hn (ih.2 e)
      | some c =>
        rw [hn] at e
        cases e
        exact .known hn ((completes_iff acyclic (Hierarchy.knows_of_find? hn)).2 rfl) (ih.2 rfl)

end TransformSet

end Openness
