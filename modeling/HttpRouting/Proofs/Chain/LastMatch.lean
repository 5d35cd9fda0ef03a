import HttpRouting.Chain.Stock
import HttpRouting.Proofs.Chain.Trace

/-!
# The last match on a request

At every step of a run, the matched route and the bound variables on the request are those of the
last match of its method and path, or both are absent if there was none so far.
-/

namespace HttpRouting

def Routing.match? {η : Type} : Routing η → Option (RouteMatch η)
  | .matched found => some found
  | .methodNotAllowed | .notMatched => none

def Step.match? (m : Method) (path : String) : Step → Option (RouteMatch Handler)
  | .asked r => (r.routing m path).match?
  | .received _ | .readBack _ => none

/-- The last match in some steps, or else an earlier one. -/
def lastMatch (m : Method) (path : String) (earlier : Option (RouteMatch Handler))
    (steps : List Step) : Option (RouteMatch Handler) :=
  steps.foldl (fun last step => (step.match? m path).or last) earlier

/-- A request with the route of a match, and with the variables that the template of this route
binds on a path. -/
structure Request.ShowsMatch (request : Request) (path : String) (found : RouteMatch Handler)
    (p : Pattern) (vs : Variables) : Prop where
  route : request.matchedRoute = some found.methodRoute.route
  bindings : request.properties.bindings = some vs
  template : Pattern.compile found.methodRoute.route.template = .ok p
  captures : p.captures path = some found.bindings
  pairs : vs.pairs = found.bindings.pairs
  names : vs.names = p.names
  isEmpty : p.hasVariables = false → vs.isEmpty = true

/-- Both properties of a request are those of the last match, if there was one, and absent
otherwise. -/
def Request.Shows (request : Request) (path : String) : Option (RouteMatch Handler) → Prop
  | none => request.matchedRoute = none ∧ request.properties.bindings = none
  | some found => ∃ p vs, request.ShowsMatch path found p vs

/-- What a request shows where it is received or read back. One that is received has its method and
its path still. -/
def Step.Shows (m : Method) (path : String) (last : Option (RouteMatch Handler)) : Step → Prop
  | .received request => request.method = m ∧ request.path = path ∧ request.Shows path last
  | .asked _ => True
  | .readBack request => request.Shows path last

namespace Request

variable {request other : Request} {path : String} {found : RouteMatch Handler} {p : Pattern}
  {vs : Variables} {last : Option (RouteMatch Handler)}

theorem ShowsMatch.of_captures (route : request.matchedRoute = some found.methodRoute.route)
    (bindings : request.properties.bindings = some vs)
    (template : Pattern.compile found.methodRoute.route.template = .ok p)
    (captures : p.captures path = some found.bindings) (pairs : vs.pairs = found.bindings.pairs) :
    request.ShowsMatch path found p vs := by
  have names : vs.names = p.names := by
    rw [← Variables.map_fst_pairs, pairs, Variables.map_fst_pairs, Pattern.names_of_captures captures]
  refine ⟨route, bindings, template, captures, pairs, names, ?_⟩
  intro fixed
  have none : p.names = [] := by simpa [Pattern.hasVariables] using fixed
  rw [none] at names
  rw [Variables.isEmpty, List.isEmpty_iff]
  exact List.map_eq_nil_iff.mp names

theorem Shows.of_eq (h : request.Shows path last)
    (route : other.matchedRoute = request.matchedRoute)
    (bindings : other.properties.bindings.map Variables.pairs =
      request.properties.bindings.map Variables.pairs) : other.Shows path last := by
  cases last with
  | none =>
      rw [h.2, Option.map_none, Option.map_eq_none_iff] at bindings
      exact ⟨route.trans h.1, bindings⟩
  | some found =>
      obtain ⟨p, vs, h⟩ := h
      rw [h.bindings, Option.map_some, Option.map_eq_some_iff] at bindings
      obtain ⟨vs', hvs', pairs⟩ := bindings
      exact ⟨p, vs', .of_captures (route.trans h.route) hvs' h.template h.captures
        (pairs.trans h.pairs)⟩

theorem shows_of_matched {r : Router Handler} (built : r.IsBuilt) {m : Method}
    (h : r.routing m path = .matched found) (request : Request) :
    ((request.setRoute found.methodRoute.route).setBindings found.bindings).Shows path
      (some found) := by
  obtain ⟨config, registrations, rfl⟩ := built
  rw [Builder.registerEach_eq] at h
  obtain ⟨d, -, first, -, hroute, captures⟩ := Builder.exists_of_routing_eq_matched h
  have template : Pattern.compile found.methodRoute.route.template = .ok first.pattern := by
    rw [hroute]
    exact first.pattern.compile_template
  exact ⟨first.pattern, found.bindings, .of_captures rfl rfl template captures rfl⟩

end Request

theorem Handler.keepsMatch_variableNumber (kind : NumberKind) (name : String) :
    (variableNumber kind name).KeepsMatch := by
  intro x
  refine ⟨rfl, ?_⟩
  change (x.request.properties.bindings.map fun _ => (x.request.bindings.read kind name).2).map
    Variables.pairs = _
  cases hbindings : x.request.properties.bindings with
  | none => rfl
  | some vs =>
      have hvs : x.request.bindings = vs := by rw [Request.bindings, hbindings]; rfl
      rw [hvs, Option.map_some, Option.map_some, Option.map_some, Variables.pairs_snd_read]

theorem Handler.keepsMatch_notFound : notFound.KeepsMatch := fun _ => ⟨rfl, rfl⟩

section Runs

variable {m : Method} {path : String} {last : Option (RouteMatch Handler)}

theorem lastMatch_cons (step : Step) (steps : List Step) :
    lastMatch m path last (step :: steps) =
      lastMatch m path ((step.match? m path).or last) steps := rfl

theorem lastMatch_append (front back : List Step) :
    lastMatch m path last (front ++ back) =
      lastMatch m path (lastMatch m path last front) back :=
  List.foldl_append

/-- Steps each of which shows the last match before it. -/
def AllShow (m : Method) (path : String) : Option (RouteMatch Handler) → List Step → Prop
  | _, [] => True
  | last, step :: steps =>
      step.Shows m path last ∧ AllShow m path ((step.match? m path).or last) steps

theorem allShow_append {front back : List Step} :
    AllShow m path last (front ++ back) ↔
      AllShow m path last front ∧ AllShow m path (lastMatch m path last front) back := by
  induction front generalizing last with
  | nil => simp [AllShow, lastMatch]
  | cons step front ih => rw [List.cons_append, AllShow, ih, AllShow, lastMatch_cons, and_assoc]

structure Traced.Shows (m : Method) (path : String) (last : Option (RouteMatch Handler))
    (t : Traced (Outcome × Exchange)) : Prop where
  steps : AllShow m path last t.steps
  request : t.logged.value.2.request.Shows path (lastMatch m path last t.steps)

def TracedHandler.Shows (m : Method) (path : String) (run : TracedHandler) : Prop :=
  ∀ last x, (Step.received x.request).Shows m path last → (run x).Shows m path last

namespace Traced.Shows

variable {t : Traced (Outcome × Exchange)}

theorem pure {outcome : Outcome} {x : Exchange} (h : x.request.Shows path last) :
    Shows m path last (pure (outcome, x)) := ⟨trivial, h⟩

theorem step {s : Step} (hs : s.Shows m path last)
    (h : t.Shows m path ((s.match? m path).or last)) :
    Shows m path last (Traced.step s >>= fun _ => t) := ⟨⟨hs, h.steps⟩, h.request⟩

theorem ofLogged (l : Logged Unit) (h : t.Shows m path last) :
    Shows m path last (Traced.ofLogged l >>= fun _ => t) := ⟨h.steps, h.request⟩

theorem ask (r : Router Handler) (request : Request)
    (h : t.Shows m path ((r.routing m path).match?.or last)) :
    Shows m path last (r.ask request >>= fun _ => t) := ⟨⟨trivial, h.steps⟩, h.request⟩

theorem readBack (h : t.Shows m path last) :
    Shows m path last (t >>= fun (outcome, x) => do
      Traced.step (.readBack x.request)
      Traced.ofLogged (Logged.event (Link.accessEvent outcome x.request))
      Pure.pure (outcome, x)) := by
  constructor
  · exact allShow_append.mpr ⟨h.steps, h.request, trivial⟩
  · rw [steps_bind, lastMatch_append]
    exact h.request

end Traced.Shows

theorem Router.shows_trace {r : Router Handler} (built : r.IsBuilt)
    {selected : ∀ found, r.Selects found → TracedHandler} {next : TracedHandler}
    (hselected : ∀ found h, (selected found h).Shows m path) (hnext : next.Shows m path) :
    (r.trace selected next).Shows m path := by
  intro last x hx
  obtain ⟨hm, hpath, hshows⟩ := hx
  cases h : r.routing x.request.method x.request.path with
  | matched found =>
      rw [trace_of_matched h]
      rw [hm, hpath] at h
      apply Traced.Shows.ask
      rw [h]
      exact hselected found _ _ _ ⟨hm, hpath, Request.shows_of_matched built h x.request⟩
  | methodNotAllowed =>
      rw [trace_of_methodNotAllowed h]
      rw [hm, hpath] at h
      apply Traced.Shows.ask
      rw [h]
      exact .pure hshows
  | notMatched =>
      rw [trace_of_notMatched h]
      rw [hm, hpath] at h
      apply Traced.Shows.ask
      rw [h]
      exact hnext last x ⟨hm, hpath, hshows⟩

theorem RoutingLink.shows_trace (link : RoutingLink)
    (built : ∀ r, link.router? = some r → r.IsBuilt)
    {selected : ∀ r found, link.router? = some r → r.Selects found → TracedHandler}
    {next : TracedHandler} (hselected : ∀ r found hr h, (selected r found hr h).Shows m path)
    (hnext : next.Shows m path) : (link.trace selected next).Shows m path := by
  induction link with
  | router r =>
      intro last x hx
      have run := Router.shows_trace (built r rfl) (fun found => hselected r found rfl) hnext
      exact .step hx (run last x hx)
  | lazyRouter number l =>
      intro last x hx
      have run := Router.shows_trace (built l.init.1 rfl)
        (fun found => hselected l.init.1 found rfl) hnext
      apply Traced.Shows.step hx
      dsimp only
      split
      · exact run last x hx
      · exact .ofLogged _ (run last _ hx)
  | accessLog =>
      intro last x hx
      exact .step hx (.readBack (hnext last x hx))
  | filtered f inner ih =>
      intro last x hx
      apply Traced.Shows.step hx
      split
      · exact ih built hselected last x hx
      · exact hnext last x hx

theorem RoutingLink.shows_traceAll {last : TracedHandler} (hlast : last.Shows m path)
    {links : List RoutingLink} (built : ∀ link ∈ links, ∀ r, link.router? = some r → r.IsBuilt)
    {selected : ∀ link ∈ links, ∀ r found, link.router? = some r → r.Selects found →
      TracedHandler}
    (hselected : ∀ link hlink r found hr h, (selected link hlink r found hr h).Shows m path) :
    (traceAll last links selected).Shows m path := by
  induction links with
  | nil => exact hlast
  | cons link rest ih =>
      rw [List.forall_mem_cons] at built
      exact link.shows_trace built.1 (hselected link List.mem_cons_self)
        (ih built.2 fun link hlink => hselected link (List.mem_cons_of_mem _ hlink))

theorem NestedHandler.shows_trace {h : Handler} (t : NestedHandler h) : t.trace.Shows m path := by
  induction t with
  | leaf keeps =>
      intro last x hx
      refine .step hx ⟨trivial, ?_⟩
      exact hx.2.2.of_eq (keeps x).1 (keeps x).2
  | chain eq built selected rest selected_ih rest_ih =>
      intro last x hx
      exact .step hx (RoutingLink.shows_traceAll rest_ih built selected_ih last x hx)

end Runs

/-- Wherever a link, a handler or a fallback of nested chains receives a request, and wherever an
access log reads it back, the matched route and the bound variables are both absent as long as no
router has matched, and afterwards both are those of the last match. -/
theorem NestedHandler.trace_shows_lastMatch {h : Handler} (t : NestedHandler h) (x : Exchange)
    (noRoute : x.request.matchedRoute = none)
    (noBindings : x.request.properties.bindings = none) :
    (t.trace x).logged = h x ∧
      ∀ before step after, (t.trace x).steps = before ++ step :: after →
        step.Shows x.request.method x.request.path
          (lastMatch x.request.method x.request.path none before) := by
  have shows := t.shows_trace none x ⟨rfl, rfl, noRoute, noBindings⟩
  refine ⟨t.logged_trace x, ?_⟩
  intro before step after hsteps
  have all := shows.steps
  rw [hsteps, allShow_append] at all
  exact all.2.1

/-- The outer chain binds the variable of its template. The template of the inner one is the path, so
the access log of the outer chain reads back that template and no variables. -/
theorem NestedHandler.trace_shows_lastMatch_of_inner :
    ∃ (h : Handler) (t : NestedHandler h) (before : List Step) (bound request : Request),
      let x : Exchange := { request := { target := { path := "/users/7" } } }
      (t.trace x).steps = before ++ [.readBack request] ∧ .received bound ∈ before ∧
        bound.bindings.pairs = [("id", "7")] ∧
        request.matchedRoute = some ⟨"*", "/users/7"⟩ ∧ request.bindings.isEmpty = true := by
  let x : Exchange := { request := { target := { path := "/users/7" } } }
  let p : Pattern := ⟨"/users/\x7bid\x7d",
    [[.char 'u', .char 's', .char 'e', .char 'r', .char 's'], [.variable ['i', 'd']]], rfl⟩
  let q : Pattern := ⟨"/users/7",
    [[.char 'u', .char 's', .char 'e', .char 'r', .char 's'], [.char '7']], rfl⟩
  have hpath : "/users/7".toList = ['/', 'u', 's', 'e', 'r', 's', '/', '7'] := by simp
  have hp : p.captures "/users/7" = some (Variables.ofPairs [("id", "7")]) := by
    rw [Pattern.captures, hpath]
    rfl
  have hq : q.captures "/users/7" = some (Variables.ofPairs []) := by
    rw [Pattern.captures, hpath]
    rfl
  have accepts : MethodSet.any.contains .get = true := rfl
  let answer : Registration Handler := ⟨q.template, .any, .variableNumber .int "id"⟩
  let l : LazyRouter Handler := [answer].foldl (fun l r => (l.tryRegister r).2) (.new {})
  have hl : l.init.1 = (Builder.registerEach { config := {} } [answer]).build :=
    LazyRouter.fst_init_foldl_tryRegister {} [answer]
  let inner : Registration Handler := ⟨p.template, .any,
    Chain.dispatch ⟨[RoutingLink.lazyRouter 0 l].map RoutingLink.middleware, .notFound⟩⟩
  let outer : Router Handler := (Builder.registerEach { config := {} } [inner]).build
  obtain ⟨found₁, houter, -, hbindings⟩ := Builder.routing_registerEach_singleton {}
    inner.handler accepts hp
  obtain ⟨found₂, hinner, hroute, -⟩ := Builder.routing_registerEach_singleton {}
    answer.handler accepts hq
  rw [← hl] at hinner
  let innerTree (h : Handler) (eq : h = inner.handler) : NestedHandler h :=
    .chain eq
      (fun link hlink r hr => by
        obtain rfl := List.mem_singleton.mp hlink
        obtain rfl := Option.some.inj hr
        exact ⟨{}, [answer], hl⟩)
      (fun link hlink r found hr hfound => .leaf <| by
        obtain rfl := List.mem_singleton.mp hlink
        obtain rfl := Option.some.inj hr
        rw [hl] at hfound
        rw [Builder.handler_of_selects hfound]
        exact Handler.keepsMatch_variableNumber .int "id")
      (.leaf Handler.keepsMatch_notFound)
  have eq_outer : ∀ link ∈ [RoutingLink.accessLog, .router outer], ∀ r,
      link.router? = some r → r = outer := by
    intro link hlink r hr
    rcases List.mem_cons.mp hlink with rfl | hlink
    · cases hr
    · obtain rfl := List.mem_singleton.mp hlink
      exact (Option.some.inj hr).symm
  let tree : NestedHandler (Chain.dispatch
      ⟨[RoutingLink.accessLog, .router outer].map RoutingLink.middleware, .notFound⟩) :=
    .chain rfl
      (fun link hlink r hr => ⟨{}, [inner], eq_outer link hlink r hr⟩)
      (fun link hlink r found hr hfound => innerTree _ <| by
        rw [eq_outer link hlink r hr] at hfound
        exact Builder.handler_of_selects hfound)
      (.leaf Handler.keepsMatch_notFound)
  let bound : Request := (x.request.setRoute found₁.methodRoute.route).setBindings found₁.bindings
  let before : List Step := [.received x.request, .received x.request, .received x.request,
    .asked outer, .received bound, .received bound, .asked l.init.1,
    .received ((bound.setRoute found₂.methodRoute.route).setBindings found₂.bindings)]
  have hsteps : ∃ request, (tree.trace x).steps = before ++ [.readBack request] := by
    have pending : l.isInitialized = false := by
      change ([answer].foldl _ (LazyRouter.new {})).isInitialized = false
      rw [LazyRouter.new, LazyRouter.foldl_tryRegister]
      rfl
    simp only [tree, innerTree, NestedHandler.trace, RoutingLink.traceAll, RoutingLink.trace]
    rw [Router.trace_of_matched houter, pending, Bool.false_or,
      if_neg (by simp [x, Exchange.mapRequest]), Router.trace_of_matched hinner]
    exact ⟨_, rfl⟩
  obtain ⟨request, hsteps⟩ := hsteps
  have hlast : lastMatch .get "/users/7" none before = some found₂ := by
    simp [before, lastMatch, Step.match?, hinner, Routing.match?]
  have shown := (tree.trace_shows_lastMatch x rfl rfl).2 before _ [] hsteps
  change request.Shows "/users/7" (lastMatch .get "/users/7" none before) at shown
  rw [hlast] at shown
  obtain ⟨q', vs, shown⟩ := shown
  have template := shown.template
  rw [hroute, q.compile_template] at template
  obtain rfl := Except.ok.inj template
  refine ⟨_, tree, before, bound, request, hsteps, by simp [before], ?_, ?_, ?_⟩
  · change found₁.bindings.pairs = _
    rw [hbindings, Variables.pairs_ofPairs]
  · rw [shown.route, hroute]
    rfl
  · rw [Request.bindings, shown.bindings]
    exact shown.isEmpty rfl

end HttpRouting
