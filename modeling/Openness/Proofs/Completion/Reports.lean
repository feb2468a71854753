import Openness.Proofs.Completion.Joins

/-!
# Reports of completion

A completion reports each class that inherits, when it does. So the reports are those of the
classes that are due, each of them once, and a class comes after those of its parents that
are due as well (`TransformSet.ReportedInOrder`). A class is reported with the number of
entries that it was offered. That is taken on the way, but the parents are complete by then,
so that it is the number that they have to offer in the end (`TransformSet.report_congr`).

* `TransformSet.reportedInOrder_completeFrom`: the same for any classes to complete, going
  with the recursion;
* `TransformSet.complete_reports_in_order`: for one class, which then is the last one, and
  for all classes of a set.
-/

namespace Openness

namespace Hierarchy

/-- In a list of classes, each one comes after those of its known parents that are listed. -/
def ParentsFirst (h : Hierarchy) (order : List ClassHeader) : Prop :=
  ∀ c ∈ order, ∀ p ∈ order, h.IsParent p c → [p, c].Sublist order

namespace ParentsFirst

variable {h : Hierarchy} {order order' : List ClassHeader}

theorem nil : h.ParentsFirst [] := List.forall_mem_nil _

theorem singleton (acyclic : h.Acyclic) (c : ClassHeader) : h.ParentsFirst [c] := by
  intro d hd p hp hparent
  rw [List.mem_singleton.1 hd, List.mem_singleton.1 hp] at hparent
  exact absurd (.single hparent) (acyclic c)

/-- One list may be followed by another one that has no parents of the first. -/
theorem append (ho : h.ParentsFirst order) (ho' : h.ParentsFirst order')
    (hne : ∀ c ∈ order, ∀ p ∈ order', ¬h.IsParent p c) : h.ParentsFirst (order ++ order') := by
  intro c hc p hp hparent
  obtain hc | hc := List.mem_append.1 hc <;> obtain hp | hp := List.mem_append.1 hp
  · exact (ho c hc p hp hparent).trans (List.sublist_append_left ..)
  · exact absurd hparent (hne c hc p hp)
  · exact (List.singleton_sublist.2 hp).append (List.singleton_sublist.2 hc)
  · exact (ho' c hc p hp hparent).trans (List.sublist_append_right ..)

end ParentsFirst

end Hierarchy

namespace TransformSet

variable {h : Hierarchy} {s t u : TransformSet} {roots roots' order order' : List ClassHeader}
  {events events' : List Event} {c : ClassHeader}

/-- The report of a class that has inherited: for each known parent, as often as it is named,
    the entries that the class overrides are counted. -/
def report (h : Hierarchy) (t : TransformSet) (c : ClassHeader) : Event :=
  .completedClass c.name ((h.parents c).map fun p => (t.offered c p).length).sum

theorem report_eq (h : Hierarchy) (t : TransformSet) (c : ClassHeader) :
    report h t c = .completedClass c.name (t.inherited h c).length := by
  rw [report, inherited, List.length_flatMap]
  rfl

/-- What is reported of a class is a matter of what it inherits. -/
theorem report_congr (e : s.inherited h c = t.inherited h c) : report h s c = report h t c := by
  rw [report_eq, report_eq, e]

/-- The events are the reports of the classes of an order, which are those that are due, by
    what their parents have in the end. -/
structure ReportedInOrder (h : Hierarchy) (s : TransformSet) (roots : List ClassHeader)
    (t : TransformSet) (events : List Event) (order : List ClassHeader) : Prop where
  /-- Each class of the order is reported once, with what its parents offer in `t`. -/
  events_eq : events = order.map (report h t)
  /-- The classes are those that were not complete in `s` and can be reached by going up
      through such classes. -/
  mem_iff : ∀ c, c ∈ order ↔ h.Due s.isComplete roots c
  /-- No class is named twice. -/
  names_nodup : (order.map ClassHeader.name).Nodup
  /-- Parents come first. -/
  parents_first : h.ParentsFirst order

namespace ReportedInOrder

theorem of_settled (hroots : ∀ r ∈ roots, s.isComplete r.name = true) :
    ReportedInOrder h s roots s [] [] where
  events_eq := rfl
  mem_iff _ := iff_of_false List.not_mem_nil (Hierarchy.Due.not_of_settled hroots)
  names_nodup := List.nodup_nil
  parents_first := .nil

/-- After the reports on its parents, a class is reported with what it inherits. -/
theorem inherit (acyclic : h.Acyclic) (ho : ReportedInOrder h s (h.parents c) t events order)
    (hc : h.Knows c) (hs : s.isComplete c.name = false) :
    ReportedInOrder h s [c] (t.inherit h c)
      (events ++ [.completedClass c.name (t.inherited h c).length]) (order ++ [c]) := by
  have ancestor {d : ClassHeader} (hd : d ∈ order) : h.IsAncestor d c :=
    ((ho.mem_iff d).1 hd).isAncestor
  -- None of these classes has the class as a parent, so that all are offered the same before
  -- and after it has inherited.
  have before : order.map (report h t) = order.map (report h (t.inherit h c)) :=
    List.map_congr_left fun d hd =>
      report_congr (inherited_inherit acyclic hc (.inr (ancestor hd))).symm
  refine ⟨?_, fun d => ?_, ?_, ?_⟩
  · rw [ho.events_eq, before, List.map_append, List.map_singleton, report_eq,
      inherited_inherit acyclic hc (.inl rfl)]
  · rw [List.mem_append, List.mem_singleton, ho.mem_iff, Hierarchy.Due.singleton_iff hs, or_comm]
  · rw [List.map_append, List.map_singleton]
    refine List.nodup_append.2 ⟨ho.names_nodup, List.nodup_singleton _, ?_⟩
    intro n hn m hm
    obtain ⟨d, hd, rfl⟩ := List.mem_map.1 hn
    rw [List.mem_singleton.1 hm]
    exact (ancestor hd).name_ne acyclic hc
  · refine ho.parents_first.append (.singleton acyclic c) fun d hd p hp hparent => ?_
    rw [List.mem_singleton.1 hp] at hparent
    exact acyclic c (.head hparent (ancestor hd))

/-- The reports of one completion are followed by those of the next one. -/
theorem append (ho : ReportedInOrder h s roots t events order)
    (ho' : ReportedInOrder h t roots' u events' order')
    (ht : Completed h s roots t) (hu : Completed h t roots' u)
    (hroots : ∀ r ∈ roots, h.Knows r) (hroots' : ∀ r ∈ roots', h.Knows r) :
    ReportedInOrder h s (roots ++ roots') u (events ++ events') (order ++ order') := by
  -- What the first completion reports is complete by then, as are the parents, and what the
  -- second one reports is not.
  have complete {d : ClassHeader} (hd : d ∈ order) : t.isComplete d.name = true :=
    ht.isComplete_of_due ((ho.mem_iff d).1 hd)
  have complete_parent {d p : ClassHeader} (hd : d ∈ order) (hp : h.IsParent p d) :
      t.isComplete p.name = true := ht.isComplete_parent ((ho.mem_iff d).1 hd) hp
  have incomplete {d : ClassHeader} (hd : d ∈ order') : t.isComplete d.name = false :=
    ((ho'.mem_iff d).1 hd).unsettled
  have before : order.map (report h t) = order.map (report h u) :=
    List.map_congr_left fun d hd => report_congr <| inherited_congr fun p hp =>
      (hu.find?_of_isComplete (complete_parent hd hp)).symm
  refine ⟨?_, fun d => ?_, ?_, ?_⟩
  · rw [ho.events_eq, before, ho'.events_eq, List.map_append]
  · rw [List.mem_append, ho.mem_iff, ho'.mem_iff, Hierarchy.Due.append_iff]
    constructor
    · exact Or.imp_right ht.due_of_due
    · rintro (hd | hd)
      · exact .inl hd
      · exact ht.due_or_due hroots hroots' hd
  · rw [List.map_append]
    refine List.nodup_append.2 ⟨ho.names_nodup, ho'.names_nodup, ?_⟩
    rintro _ hn _ hm e
    obtain ⟨d, hd, rfl⟩ := List.mem_map.1 hn
    obtain ⟨d', hd', rfl⟩ := List.mem_map.1 hm
    have := complete hd
    rw [e, incomplete hd'] at this
    cases this
  · refine ho.parents_first.append ho'.parents_first fun d hd p hp hparent => ?_
    have := complete_parent hd hparent
    rw [incomplete hp] at this
    cases this

end ReportedInOrder

/-- The classes that are due are reported in order. -/
theorem reportedInOrder_completeFrom (acyclic : h.Acyclic) (hroots : ∀ r ∈ roots, h.Knows r)
    (s : TransformSet) : ∃ order,
      ReportedInOrder h s roots (s.completeFrom h roots).1 (s.completeFrom h roots).2 order := by
  suffices run : Completed h s roots (s.completeFrom h roots).1 ∧ ∃ order,
      ReportedInOrder h s roots (s.completeFrom h roots).1 (s.completeFrom h roots).2 order from
    run.2
  refine completeFrom_induction (motive := fun s roots t events =>
    Completed h s roots t ∧ ∃ order, ReportedInOrder h s roots t events order) acyclic
      (fun hcs => ?settled) (fun hc hs ht => ?inherit) (fun hcs hds ht hu => ?append) hroots s
  case settled => exact ⟨.of_settled hcs, [], .of_settled hcs⟩
  case inherit =>
    obtain ⟨ht, order, ho⟩ := ht
    exact ⟨ht.inherit acyclic hc hs, _, ho.inherit acyclic hc hs⟩
  case append =>
    obtain ⟨ht, order, ho⟩ := ht
    obtain ⟨hu, order', ho'⟩ := hu
    exact ⟨ht.append hu hcs hds, _, ho.append ho' ht hu hcs hds⟩

/-- If a class is reported when it is completed, it comes last. -/
theorem reportedInOrder_complete (acyclic : h.Acyclic) (hc : h.Knows c) (s : TransformSet) :
    ∃ order, ReportedInOrder h s [c] (s.complete h c).1 (s.complete h c).2 order ∧
      (c ∈ order → order.getLast? = some c) := by
  cases hs : s.isComplete c.name with
  | true =>
    rw [complete_of_isComplete hs]
    exact ⟨[], .of_settled (List.forall_mem_singleton.2 hs), fun hc => absurd hc List.not_mem_nil⟩
  | false =>
    have hparents : ∀ p ∈ h.parents c, h.Knows p := fun _ => Hierarchy.IsParent.knows
    obtain ⟨order, ho⟩ := reportedInOrder_completeFrom acyclic hparents s
    rw [complete_of_not_isComplete acyclic hs]
    exact ⟨order ++ [c], ho.inherit acyclic hc hs, fun _ => List.getLast?_concat⟩

/-- In an acyclic hierarchy, completing a class or all classes of a set, whatever is complete
    in it, reports the classes that are due, each once and after its parents. The calls for
    all classes of a set report one after the other. -/
theorem complete_reports_in_order (acyclic : h.Acyclic) (s : TransformSet) :
    (∀ c, h.Knows c →
      Completes h s c (s.complete h c).1 (s.complete h c).2 ∧
        ∃ order, ReportedInOrder h s [c] (s.complete h c).1 (s.complete h c).2 order ∧
          (c ∈ order → order.getLast? = some c)) ∧
    CompletesEach h s s.classes.names (s.completeAll h).1 (s.completeAll h).2 ∧
      ∃ order, ReportedInOrder h s (s.classes.names.filterMap h.find?) (s.completeAll h).1
        (s.completeAll h).2 order := by
  refine ⟨fun c hc => ⟨(completes_iff acyclic hc).2 rfl, ?_⟩, ?_, ?_⟩
  · exact reportedInOrder_complete acyclic hc s
  · exact (completesEach_iff acyclic).2 (completeAll_eq s h).symm
  · exact reportedInOrder_completeFrom acyclic (fun _ => Hierarchy.knows_of_mem_filterMap) s

open Hierarchy in
/-- With the left of the diamond complete, the bottom is reported last, after the top and the
    right, and gets the entry of the right. -/
theorem bottom_reported_last :
    diamond.Acyclic ∧ diamond.Knows (runner "a/Bottom" ["a/Left", "a/Right"]) ∧
      (∃ order, ReportedInOrder diamond (topAndRight.mark "a/Left" true)
          [runner "a/Bottom" ["a/Left", "a/Right"]]
          ((topAndRight.mark "a/Left" true).complete diamond
            (runner "a/Bottom" ["a/Left", "a/Right"])).1
          ((topAndRight.mark "a/Left" true).complete diamond
            (runner "a/Bottom" ["a/Left", "a/Right"])).2 order ∧
        (runner "a/Bottom" ["a/Left", "a/Right"] ∈ order →
          order.getLast? = some (runner "a/Bottom" ["a/Left", "a/Right"]))) ∧
      ((topAndRight.mark "a/Left" true).complete diamond
          (runner "a/Bottom" ["a/Left", "a/Right"])).2 =
        [.completedClass "a/Top" 0, .completedClass "a/Right" 1, .completedClass "a/Bottom" 1] := by
  have knows : diamond.Knows (runner "a/Bottom" ["a/Left", "a/Right"]) := by decide
  exact ⟨diamond_acyclic, knows,
    ((complete_reports_in_order diamond_acyclic (topAndRight.mark "a/Left" true)).1 _ knows).2,
    by decide⟩

end TransformSet

end Openness
