import HttpRouting.Proofs.Chain.Program

/-!
# An access log observes

The links in front of some place of a chain leave an outline of a run: what they note themselves,
and with which exchanges they enter the rest. The rest shows in it by its answers alone, and an access
log passes those on, so the outline is the same with and without one.
-/

namespace HttpRouting

variable {ι : Type}

namespace RunningLink

/-- What links note and with which exchanges they enter the rest, given its answers. -/
def outline (answers : Exchange → Outcome × Exchange) (links : List (RunningLink ι)) :
    Exchange → Recorded (Moment ι ⊕ Exchange) (Outcome × Exchange) :=
  carryOutAll (fun moment => ⟨[.inl moment], ()⟩) (fun x => ⟨[.inr x], answers x⟩) links

section Outline

variable {fallback : Handler} {last : Exchange → Recorded (Moment ι) (Outcome × Exchange)}
  {rear : List (RunningLink ι)} {answers : Exchange → Outcome × Exchange}

/-- A record is the outline of the links in front, with what is written down behind them in place
of each entry. -/
theorem record_append_eq_outline {items : Exchange → List (Moment ι)}
    (h : ∀ y, record last rear y = ⟨items y, answers y⟩) (front : List (RunningLink ι))
    (x : Exchange) :
    record last (front ++ rear) x =
      (Recorded.expand (Sum.elim (fun moment => [moment]) items)).map (outline answers front x) := by
  have behind : record last rear = fun y => ⟨items y, answers y⟩ := funext h
  rw [record_append, behind, outline, map_carryOutAll, record]
  simp only [Recorded.expand, List.flatMap_singleton, Sum.elim_inl, Sum.elim_inr]
  rfl

theorem dispatch_append_eq_outline {events : Exchange → List Event}
    (h : ∀ y, Chain.dispatch ⟨middlewares rear, fallback⟩ y = ⟨events y, answers y⟩)
    (front : List (RunningLink ι)) (x : Exchange) :
    Chain.dispatch ⟨middlewares (front ++ rear), fallback⟩ x =
      (Recorded.toLogged (Sum.elim Moment.events events)).map (outline answers front x) := by
  have behind : Chain.dispatch ⟨middlewares rear, fallback⟩ = fun y => ⟨events y, answers y⟩ :=
    funext h
  rw [Chain.dispatch_append, behind, outline, map_carryOutAll, dispatch_eq]
  simp only [Recorded.toLogged, List.flatMap_singleton, Sum.elim_inl, Sum.elim_inr]
  rfl

end Outline

def report (rest : Handler) (x : Exchange) : Event :=
  Link.accessEvent (rest x).value.1 (rest x).value.2.request

section Insertion

variable {fallback : Handler} {last : Exchange → Recorded (Moment ι) (Outcome × Exchange)}
  (hlast : ∀ x, (last x).logged = fallback x) (front links : List (RunningLink ι)) (x : Exchange)

theorem dispatch_outline :
    let rest := Chain.dispatch ⟨middlewares links, fallback⟩
    Chain.dispatch ⟨middlewares (front ++ links), fallback⟩ x =
      (Recorded.toLogged (Sum.elim Moment.events fun y => (rest y).events)).map
        (outline (fun y => (rest y).value) front x) := by
  intro rest
  have behind (y : Exchange) : rest y = ⟨(rest y).events, (rest y).value⟩ := rfl
  exact dispatch_append_eq_outline behind front x

theorem dispatch_accessLog_outline :
    let rest := Chain.dispatch ⟨middlewares links, fallback⟩
    Chain.dispatch ⟨middlewares (front ++ accessLog :: links), fallback⟩ x =
      (Recorded.toLogged (Sum.elim Moment.events fun y =>
        (rest y).events ++ [report rest y])).map (outline (fun y => (rest y).value) front x) := by
  intro rest
  have behind (y : Exchange) : Chain.dispatch ⟨middlewares (accessLog :: links), fallback⟩ y =
      ⟨(rest y).events ++ [report rest y], (rest y).value⟩ := rfl
  exact dispatch_append_eq_outline behind front x

include hlast

theorem record_eq :
    record last links x =
      ⟨(record last links x).items, (Chain.dispatch ⟨middlewares links, fallback⟩ x).value⟩ := by
  rw [← logged_record hlast]
  rfl

theorem record_accessLog :
    let rest := Chain.dispatch ⟨middlewares links, fallback⟩
    record last (accessLog :: links) x =
      ⟨(record last links x).items ++ [.logged (report rest x)], (rest x).value⟩ := by
  intro rest
  simp only [rest, report, ← logged_record hlast]
  rfl

theorem record_outline :
    let rest := Chain.dispatch ⟨middlewares links, fallback⟩
    record last (front ++ links) x =
      (Recorded.expand (Sum.elim (fun moment => [moment]) fun y => (record last links y).items)).map
        (outline (fun y => (rest y).value) front x) :=
  record_append_eq_outline (record_eq hlast links) front x

theorem record_accessLog_outline :
    let rest := Chain.dispatch ⟨middlewares links, fallback⟩
    record last (front ++ accessLog :: links) x =
      (Recorded.expand (Sum.elim (fun moment => [moment]) fun y =>
        (record last links y).items ++ [.logged (report rest y)])).map
        (outline (fun y => (rest y).value) front x) :=
  record_append_eq_outline (record_accessLog hlast links) front x

theorem record_named_accessLog_outline (log : ι) :
    let rest := Chain.dispatch ⟨middlewares links, fallback⟩
    record last (front ++ accessLog.named log :: links) x =
      (Recorded.expand (Sum.elim (fun moment => [moment]) fun y =>
        .invoked log y :: (record last links y).items ++ [.logged (report rest y)])).map
        (outline (fun y => (rest y).value) front x) := by
  intro rest
  have behind (y : Exchange) : record last (accessLog.named log :: links) y =
      ⟨.invoked log y :: (record last (accessLog :: links) y).items,
        (record last (accessLog :: links) y).value⟩ := rfl
  simp only [record_accessLog hlast] at behind
  exact record_append_eq_outline behind front x

theorem invocations_accessLog :
    (record last (front ++ accessLog :: links) x).invocations =
      (record last (front ++ links) x).invocations := by
  rw [record_accessLog_outline hlast, record_outline hlast]
  simp only [Recorded.invocations, Recorded.expand, List.filterMap_flatMap]
  congr 1
  funext piece
  cases piece with
  | inl moment => rfl
  | inr y =>
      rw [Sum.elim_inr, Sum.elim_inr, List.filterMap_append]
      exact List.append_nil _

end Insertion

end RunningLink

open RunningLink in
/-- An access log at any place of a chain leaves the response or the error, the final request and
the invocations of the other links and of the fallback as they are. Each time it is entered, it leaves
one event right after what the rest of the chain has logged: the method, the path and the route of
the request as the rest has left it, with the status of the response or the text of the error. The
time that the rest took, which an access log also reports, is left out of its events. -/
theorem dispatch_insert_accessLog (before after : List (ι × RunningLink ι)) (log who : ι)
    (fallback : Handler) (x : Exchange) :
    let links (named : List (ι × RunningLink ι)) := named.map fun l => l.2.middleware
    let rest := Chain.dispatch ⟨links after, fallback⟩
    let report (y : Exchange) := Link.accessEvent (rest y).value.1 (rest y).value.2.request
    let without := Chain.dispatch ⟨links before ++ links after, fallback⟩ x
    let inserted := Chain.dispatch ⟨links before ++ Link.accessLog :: links after, fallback⟩ x
    let restRecord := record (fallback.record who) (watched after)
    let recordOf (all : List (RunningLink ι)) := record (fallback.record who) all x
    let unwatched := recordOf (watched before ++ accessLog :: watched after)
    let withoutRecord := recordOf (watched before ++ watched after)
    let insertedRecord := recordOf (watched before ++ accessLog.named log :: watched after)
    inserted.value = without.value ∧ unwatched.invocations = withoutRecord.invocations ∧
    withoutRecord.logged = without ∧ insertedRecord.logged = inserted ∧
    (∃ outline : List (Moment ι ⊕ Exchange),
      withoutRecord.items =
        outline.flatMap (Sum.elim (fun moment => [moment]) fun y => (restRecord y).items) ∧
      insertedRecord.items =
        outline.flatMap (Sum.elim (fun moment => [moment]) fun y =>
          .invoked log y :: (restRecord y).items ++ [.logged (report y)]) ∧
      without.events = outline.flatMap (Sum.elim Moment.events fun y => (rest y).events) ∧
      inserted.events =
        outline.flatMap (Sum.elim Moment.events fun y => (rest y).events ++ [report y])) ∧
    (∀ response request, let event := Link.accessEvent (.ok response) request
      event.message = "access" ∧ event.fields =
        [("method", .text request.method.name), ("path", .text request.path),
          ("status", .number response.status.code),
          ("route", .text (request.matchedRoute.elim "-" MatchedRoute.display))]) ∧
    (∀ cause request, let event := Link.accessEvent (.error cause) request
      event.message = "access failed" ∧ event.fields =
        [("method", .text request.method.name), ("path", .text request.path),
          ("route", .text (request.matchedRoute.elim "-" MatchedRoute.display)),
          ("cause", .text cause)]) := by
  have hlast := fallback.logged_record who
  have hlinks (named : List (ι × RunningLink ι)) :
      named.map (fun l => l.2.middleware) = middlewares (watched named) :=
    (middlewares_watched named).symm
  have hwithout : middlewares (watched before) ++ middlewares (watched after) =
      middlewares (watched before ++ watched after) := (middlewares_append _ _).symm
  have hinserted : middlewares (watched before) ++ Link.accessLog :: middlewares (watched after) =
      middlewares (watched before ++ accessLog :: watched after) :=
    (middlewares_append (watched before) (accessLog :: watched after)).symm
  simp only [hlinks, hwithout, hinserted]
  refine ⟨?_, invocations_accessLog hlast _ _ x, logged_record hlast _ x, ?_,
    ⟨_, congrArg Recorded.items (record_outline hlast (watched before) (watched after) x),
      congrArg Recorded.items
        (record_named_accessLog_outline hlast (watched before) (watched after) x log),
      congrArg Logged.events (dispatch_outline (watched before) (watched after) x),
      congrArg Logged.events (dispatch_accessLog_outline (watched before) (watched after) x)⟩,
    fun response request => ⟨rfl, rfl⟩, fun cause request => ⟨rfl, rfl⟩⟩
  · rw [dispatch_accessLog_outline, dispatch_outline]
    rfl
  · rw [logged_record hlast, middlewares_append, middlewares_append]
    rfl

end HttpRouting
