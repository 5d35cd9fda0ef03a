import HttpRouting.Chain.Basic
import HttpRouting.Proofs.Router.RoundTrip

/-!
# Which router decides

A chain of routers, access logs and path filters is decided by the first router that does not let the
request pass, or by its fallback. The run of the chain is then the run of one handler, between the
events of the links that were entered on the way and the reports of their access logs.
-/

namespace HttpRouting

/-- What the links that a request has entered leave: the events that were logged, the lazy routers
built so far, and how many access logs are yet to report. -/
structure Passage where
  events : List Event
  built : List Nat
  reports : Nat

namespace Passage

/-- A run behind the links that were entered: their events come first, their reports last. -/
def around (p : Passage) (run : Logged (Outcome × Exchange)) : Logged (Outcome × Exchange) :=
  ⟨p.events ++ run.events ++
    List.replicate p.reports (Link.accessEvent run.value.1 run.value.2.request), run.value⟩

def andThen (p q : Passage) : Passage := ⟨p.events ++ q.events, q.built, p.reports + q.reports⟩

theorem around_of_no_reports (events : List Event) (built : List Nat)
    (run : Logged (Outcome × Exchange)) :
    around ⟨events, built, 0⟩ run = ⟨events ++ run.events, run.value⟩ := by
  rw [around, List.replicate_zero, List.append_nil]

theorem around_around (p q : Passage) (run : Logged (Outcome × Exchange)) :
    p.around (q.around run) = (p.andThen q).around run := by
  simp only [around, andThen, Logged.mk.injEq, and_true, List.append_assoc, List.append_cancel_left_eq]
  rw [List.replicate_append_replicate, Nat.add_comm]

end Passage

def Routing.handler (next : Handler) : Routing Handler → Handler
  | .matched found => fun x => found.methodRoute.handler <| x.mapRequest fun request =>
      (request.setRoute found.methodRoute.route).setBindings found.bindings
  | .methodNotAllowed => fun x => pure (.ok .methodNotAllowed, x)
  | .notMatched => next

/-- A link that answers from a router, that logs, or that guards such a link. -/
inductive RoutingLink where
  | router (r : Router Handler)
  | lazyRouter (number : Nat) (l : LazyRouter Handler)
  | accessLog
  | filtered (f : PathFilter) (inner : RoutingLink)

namespace RoutingLink

def middleware : RoutingLink → Middleware
  | .router r => Link.router r
  | .lazyRouter number l => Link.lazyRouter number l
  | .accessLog => Link.accessLog
  | .filtered f inner => Link.filtered f inner.middleware

/-- The router that a request with a path meets at a link, if every filter around it lets the path
through. -/
def met (path : String) : RoutingLink → Option (Router Handler)
  | .router r => some r
  | .lazyRouter _ l => some l.init.1
  | .accessLog => none
  | .filtered f inner => if f.accepts path then inner.met path else none

def answer (m : Method) (path : String) (link : RoutingLink) : Routing Handler :=
  (link.met path).elim .notMatched fun r => r.routing m path

def entry (m : Method) (path : String) (built : List Nat) : RoutingLink → Passage
  | .router r => ⟨[(r.routing m path).event m path], built, 0⟩
  | .lazyRouter number l =>
      if l.isInitialized || number ∈ built then
        ⟨[(l.init.1.routing m path).event m path], built, 0⟩
      else ⟨[l.init.1.event, (l.init.1.routing m path).event m path], number :: built, 0⟩
  | .accessLog => ⟨[], built, 1⟩
  | .filtered f inner => if f.accepts path then inner.entry m path built else ⟨[], built, 0⟩

def entries (m : Method) (path : String) : List Nat → List RoutingLink → Passage
  | built, [] => ⟨[], built, 0⟩
  | built, link :: rest =>
      (link.entry m path built).andThen (entries m path (link.entry m path built).built rest)

theorem entries_singleton (m : Method) (path : String) (built : List Nat) (link : RoutingLink) :
    entries m path built [link] = link.entry m path built := by
  simp [entries, Passage.andThen]

theorem router_eq (r : Router Handler) (next : Next) (x : Exchange) :
    Link.router r next x = Passage.around
      ⟨[(r.routing x.request.method x.request.path).event x.request.method x.request.path],
        x.built, 0⟩ ((r.routing x.request.method x.request.path).handler next.run x) := by
  rw [Passage.around_of_no_reports]
  change Router.routingLogged r _ _ >>= _ = _
  rw [Router.routingLogged]
  cases r.routing x.request.method x.request.path <;> rfl

theorem middleware_eq (link : RoutingLink) (next : Next) (x : Exchange) :
    link.middleware next x =
      (link.entry x.request.method x.request.path x.built).around
        ((link.answer x.request.method x.request.path).handler next.run
          { x with built := (link.entry x.request.method x.request.path x.built).built }) := by
  induction link with
  | router r => exact router_eq r next x
  | lazyRouter number l =>
      rw [middleware, Link.lazyRouter, entry]
      split
      · exact router_eq l.init.1 next x
      · rw [router_eq, Passage.around_of_no_reports, Passage.around_of_no_reports]
        rfl
  | accessLog => rfl
  | filtered f inner ih =>
      rw [middleware, Link.filtered, entry, answer, met]
      split
      · exact ih
      · rw [Passage.around_of_no_reports]
        rfl

theorem run_cons (fallback : Handler) (link : RoutingLink) (rest : List RoutingLink) (x : Exchange) :
    (Next.ofLinks fallback ((link :: rest).map middleware)).run x =
      (link.entry x.request.method x.request.path x.built).around
        ((link.answer x.request.method x.request.path).handler
          (Next.ofLinks fallback (rest.map middleware)).run
          ⟨x.request, (link.entry x.request.method x.request.path x.built).built⟩) :=
  middleware_eq link (Next.ofLinks fallback (rest.map middleware)) x

theorem run_append_of_passes (fallback : Handler) {before : List RoutingLink}
    (rest : List RoutingLink) {request : Request} (built : List Nat)
    (passes : ∀ link ∈ before, link.answer request.method request.path = .notMatched) :
    (Next.ofLinks fallback ((before ++ rest).map middleware)).run ⟨request, built⟩ =
      (entries request.method request.path built before).around
        ((Next.ofLinks fallback (rest.map middleware)).run
          ⟨request, (entries request.method request.path built before).built⟩) := by
  induction before generalizing built with
  | nil => rw [entries, Passage.around_of_no_reports]; rfl
  | cons link before ih =>
      rw [List.forall_mem_cons] at passes
      rw [List.cons_append, run_cons, passes.1, Routing.handler, ih _ passes.2,
        Passage.around_around]
      rfl

theorem entries_append (m : Method) (path : String) (built : List Nat)
    (before rest : List RoutingLink) :
    entries m path built (before ++ rest) = (entries m path built before).andThen
      (entries m path (entries m path built before).built rest) := by
  induction before generalizing built with
  | nil => simp [entries, Passage.andThen]
  | cons link before ih =>
      rw [List.cons_append, entries, ih, entries]
      simp [Passage.andThen, Nat.add_assoc]

theorem run_of_passes (fallback : Handler) {before : List RoutingLink} (link : RoutingLink)
    (later : List RoutingLink) {request : Request} (built : List Nat)
    (passes : ∀ link ∈ before, link.answer request.method request.path = .notMatched) :
    (Next.ofLinks fallback ((before ++ link :: later).map middleware)).run ⟨request, built⟩ =
      (entries request.method request.path built (before ++ [link])).around
        ((link.answer request.method request.path).handler
          (Next.ofLinks fallback (later.map middleware)).run
          ⟨request, (entries request.method request.path built (before ++ [link])).built⟩) := by
  rw [run_append_of_passes fallback _ _ passes, run_cons, Passage.around_around, entries_append,
    entries_singleton]
  rfl

end RoutingLink

inductive ChainCall where
  | addFirst (link : RoutingLink)
  | addLast (link : RoutingLink)
  | setFallback (handler : Handler)

namespace ChainCall

def first? : ChainCall → Option RoutingLink
  | .addFirst link => some link
  | .addLast _ | .setFallback _ => none

def last? : ChainCall → Option RoutingLink
  | .addLast link => some link
  | .addFirst _ | .setFallback _ => none

def fallback? : ChainCall → Option Handler
  | .setFallback handler => some handler
  | .addFirst _ | .addLast _ => none

/-- The links in the order of the chain: those added in front, the last one of them first, and then
those added behind. -/
def links (calls : List ChainCall) : List RoutingLink :=
  (calls.filterMap first?).reverse ++ calls.filterMap last?

def fallback (calls : List ChainCall) : Handler :=
  (calls.filterMap fallback?).getLast?.getD Handler.notFound

end ChainCall

namespace Chain

def call (c : Chain) : ChainCall → Chain
  | .addFirst link => c.addFirst link.middleware
  | .addLast link => c.addLast link.middleware
  | .setFallback handler => c.setFallback handler

def ofCalls (calls : List ChainCall) : Chain := calls.foldl call {}

theorem foldl_call (c : Chain) (calls : List ChainCall) :
    calls.foldl call c =
      ⟨(calls.filterMap ChainCall.first?).reverse.map RoutingLink.middleware ++ c.links ++
        (calls.filterMap ChainCall.last?).map RoutingLink.middleware,
        (calls.filterMap ChainCall.fallback?).getLast?.getD c.fallback⟩ := by
  induction calls generalizing c with
  | nil => simp
  | cons next calls ih =>
      rw [List.foldl_cons, ih]
      simp only [List.filterMap_cons]
      cases next with
      | addFirst link => simp [ChainCall.first?, ChainCall.last?, ChainCall.fallback?, call, addFirst]
      | addLast link => simp [ChainCall.first?, ChainCall.last?, ChainCall.fallback?, call, addLast]
      | setFallback handler =>
          simp [ChainCall.first?, ChainCall.last?, ChainCall.fallback?, call, setFallback,
            List.getLast?_cons]

theorem ofCalls_eq (calls : List ChainCall) :
    ofCalls calls =
      ⟨(ChainCall.links calls).map RoutingLink.middleware, ChainCall.fallback calls⟩ := by
  rw [ofCalls, foldl_call]
  simp [ChainCall.links, ChainCall.fallback]

theorem handle_of_ok {c : Chain} {x y : Exchange} {response : Response}
    (h : (c.dispatch x).value = (.ok response, y)) :
    c.handle x = ⟨(c.dispatch x).events, (response, y)⟩ := by
  rw [handle]
  cases hrun : c.dispatch x with
  | mk events value =>
      rw [hrun] at h
      obtain rfl : value = (.ok response, y) := h
      change (⟨events ++ [], (response, y)⟩ : Logged (Response × Exchange)) = _
      rw [List.append_nil]

theorem handle_of_error {c : Chain} {x y : Exchange} {cause : String}
    (h : (c.dispatch x).value = (.error cause, y)) :
    c.handle x = ⟨(c.dispatch x).events ++ [.failed y.request.method.name y.request.path cause],
      (.internalServerError, y)⟩ := by
  rw [handle]
  cases hrun : c.dispatch x with
  | mk events value =>
      rw [hrun] at h
      obtain rfl : value = (.error cause, y) := h
      rfl

end Chain

namespace RoutingLink

theorem answer_of_met {path : String} {link : RoutingLink} {r : Router Handler}
    (h : link.met path = some r) (m : Method) : link.answer m path = r.routing m path := by
  rw [answer, h]
  rfl

theorem answer_eq_notMatched {m : Method} {path : String} {links : List RoutingLink}
    (h : ∀ r ∈ links.filterMap (met path), r.routing m path = .notMatched) :
    ∀ link ∈ links, link.answer m path = .notMatched := by
  intro link hlink
  cases hmet : link.met path with
  | none => rw [answer, hmet]; rfl
  | some r =>
      rw [answer_of_met hmet]
      exact h r (List.mem_filterMap.mpr ⟨link, hlink, hmet⟩)

theorem exists_link_of_met {path : String} {links : List RoutingLink}
    {passed others : List (Router Handler)} {r : Router Handler}
    (h : links.filterMap (met path) = passed ++ r :: others) :
    ∃ before link later, links = before ++ link :: later ∧
      before.filterMap (met path) = passed ∧ link.met path = some r := by
  obtain ⟨before, rest, rfl, hbefore, hrest⟩ := List.filterMap_eq_append_iff.mp h
  obtain ⟨skipped, link, later, rfl, hskipped, hmet, -⟩ := List.filterMap_eq_cons_iff.mp hrest
  refine ⟨before ++ skipped, link, later, by simp, ?_, hmet⟩
  rw [List.filterMap_append, hbefore, List.filterMap_eq_nil_iff.mpr hskipped, List.append_nil]

end RoutingLink

open RoutingLink in
/-- The first router that a request meets and that does not let it pass decides. A match runs its
handler, once and with the properties of the match, between the events of the links up to that router
and the reports of their access logs; a method that is not allowed is refused with status 405 and
nothing runs. If every router lets the request pass, the last fallback runs with the request as it was.
A chain answers with what that run answers, or with status 500 if it fails. -/
theorem dispatch_ofCalls (calls : List ChainCall) (x : Exchange) :
    let links := ChainCall.links calls
    let chain := Chain.ofCalls calls
    let m := x.request.method
    let path := x.request.path
    (∀ passed r others, links.filterMap (met path) = passed ++ r :: others →
      (∀ q ∈ passed, q.routing m path = .notMatched) →
      ∃ before link later, links = before ++ link :: later ∧
        before.filterMap (met path) = passed ∧ link.met path = some r ∧
        let p := entries m path x.built (before ++ [link])
        (∀ found, r.routing m path = .matched found →
          chain.dispatch x = p.around (found.methodRoute.handler
            ⟨(x.request.setRoute found.methodRoute.route).setBindings found.bindings, p.built⟩)) ∧
        (r.routing m path = .methodNotAllowed →
          chain.dispatch x = p.around (pure (.ok .methodNotAllowed, ⟨x.request, p.built⟩)))) ∧
    ((∀ r ∈ links.filterMap (met path), r.routing m path = .notMatched) →
      let p := entries m path x.built links
      chain.dispatch x = p.around (ChainCall.fallback calls ⟨x.request, p.built⟩)) ∧
    (∀ response y, (chain.dispatch x).value = (.ok response, y) →
      chain.handle x = ⟨(chain.dispatch x).events, (response, y)⟩) ∧
    (∀ cause y, (chain.dispatch x).value = (.error cause, y) →
      chain.handle x = ⟨(chain.dispatch x).events ++
        [.failed y.request.method.name y.request.path cause], (.internalServerError, y)⟩) ∧
    Response.methodNotAllowed.status.code = 405 ∧
    Response.internalServerError.status.code = 500 := by
  intro links chain m path
  have hchain : chain = ⟨links.map middleware, ChainCall.fallback calls⟩ := Chain.ofCalls_eq calls
  refine ⟨?_, ?_, fun _ _ => Chain.handle_of_ok, fun _ _ => Chain.handle_of_error, rfl, rfl⟩
  · intro passed r others hmet hpassed
    obtain ⟨before, link, later, hlinks, rfl, hlink⟩ := exists_link_of_met hmet
    have run := run_of_passes (ChainCall.fallback calls) link later x.built
      (answer_eq_notMatched hpassed)
    rw [← hlinks, answer_of_met hlink] at run
    refine ⟨before, link, later, hlinks, rfl, hlink, ?_, ?_⟩
    · intro found hfound
      rw [hfound] at run
      rw [hchain]
      exact run
    · intro refused
      rw [refused] at run
      rw [hchain]
      exact run
  · intro passes
    have run := run_append_of_passes (ChainCall.fallback calls) [] x.built
      (answer_eq_notMatched passes)
    rw [List.append_nil] at run
    rw [hchain]
    exact run

/-- The first router is behind a filter that does not accept the path, the second one has no routes,
and the third one decides. -/
theorem dispatch_ofCalls_of_guarded :
    ∃ (admin users : Router Handler) (hidden : RouteMatch Handler),
      let calls : List ChainCall := [.addLast (.filtered ⟨["/admin"]⟩ (.router admin)),
        .addLast (.router ⟨.simple [], 0⟩), .addLast (.router users), .addFirst .accessLog]
      let run := (Chain.ofCalls calls).dispatch { request := { target := { path := "/users/7" } } }
      admin.routing .get "/users/7" = .matched hidden ∧ run.value.1 = .ok (.text .ok "7") ∧
        run.value.2.request.matchedRoute = some ⟨"GET", "/users/\x7bid\x7d"⟩ := by
  let p : Pattern := ⟨"/users/\x7bid\x7d",
    [[.char 'u', .char 's', .char 'e', .char 'r', .char 's'], [.variable ['i', 'd']]], rfl⟩
  let x : Exchange := { request := { target := { path := "/users/7" } } }
  let echo : Handler := fun y => pure (.ok (.text .ok ((y.request.bindings.get? "id").getD "")), y)
  have hpath : "/users/7".toList = ['/', 'u', 's', 'e', 'r', 's', '/', '7'] := by simp
  have hcaptures : p.captures "/users/7" = some (Variables.ofPairs [("id", "7")]) := by
    rw [Pattern.captures, hpath]
    rfl
  have hadmin : PathFilter.accepts ⟨["/admin"]⟩ "/users/7" = false := by
    rw [PathFilter.accepts, List.isEmpty_cons, Bool.false_or, List.any_cons, hpath]
    rfl
  have accepts : (MethodSet.only [.get]).contains .get = true := by decide
  obtain ⟨guarded, hidden, -, hhidden, -⟩ :=
    Builder.routing_of_captures {} Handler.notFound accepts hcaptures
  obtain ⟨b, found, -, hfound, hhandler, hroute, hbindings⟩ :=
    Builder.routing_of_captures {} echo accepts hcaptures
  refine ⟨guarded.build, b.build, hidden, ?_⟩
  intro calls run
  have hmet : (ChainCall.links calls).filterMap (RoutingLink.met "/users/7") =
      [⟨.simple [], 0⟩, b.build] := by
    change [RoutingLink.accessLog, .filtered ⟨["/admin"]⟩ (.router guarded.build),
      .router ⟨.simple [], 0⟩, .router b.build].filterMap _ = _
    simp only [List.filterMap_cons, RoutingLink.met, hadmin, List.filterMap_nil]
    rfl
  obtain ⟨before, link, later, -, -, -, hrun, -⟩ :=
    (dispatch_ofCalls calls x).1 [⟨.simple [], 0⟩] b.build [] hmet (by
      intro q hq
      obtain rfl := List.mem_singleton.mp hq
      rfl)
  have hvalue : run = _ := hrun found hfound
  rw [hhandler, hroute, hbindings] at hvalue
  refine ⟨hhidden, ?_, ?_⟩
  · rw [hvalue]
    rfl
  · rw [hvalue]
    rfl

end HttpRouting
