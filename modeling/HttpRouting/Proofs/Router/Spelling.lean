import HttpRouting.Proofs.Router.Answer
import Mathlib.Data.List.Forall2

/-!
# Spellings of templates and paths

A path or a template can be spelled with any number of slashes around its segments. Making a table
and scanning it commute with spelling every template in the same way, so routers whose templates
differ only in their spelling give the same answers, up to the spelling of the reported template,
to all spellings of a path. The key under which a definition is grouped is one of the spellings of
its template, the same for all of them.
-/

namespace HttpRouting

variable {η : Type}

namespace Path

/-- The spelling with one slash before each segment, or a single slash if there are none. -/
def canonical (path : String) : String :=
  match segments path.toList with
  | [] => "/"
  | words => String.ofList (words.flatMap fun word => '/' :: word)

theorem segments_canonical (path : String) :
    segments (canonical path).toList = segments path.toList := by
  unfold canonical
  split
  · next h =>
    rw [h]
    rfl
  · have written : ∀ word ∈ segments path.toList, word ≠ [] ∧ '/' ∉ word :=
      fun word h => ⟨segments_ne_nil h, slash_not_mem_segments h⟩
    rw [String.toList_ofList, segments_flatMap_slash written]

theorem canonical_eq_iff {path path' : String} :
    canonical path = canonical path' ↔ segments path.toList = segments path'.toList := by
  constructor
  · intro h
    rw [← segments_canonical, h, segments_canonical]
  · intro h
    rw [canonical, canonical, h]

end Path

namespace Pattern

def canonical (p : Pattern) : Pattern where
  template := Path.canonical p.template
  segments := p.segments
  readTemplate_eq := by
    rw [readTemplate, Path.segments_canonical, ← readTemplate, p.readTemplate_eq]

@[simp] theorem key_canonical (p : Pattern) : p.canonical.key = p.key := rfl

theorem key_eq_canonical (p : Pattern) : p.key = Path.canonical p.template := by
  rw [key, Path.canonical, ← p.map_text_segments]
  cases p.segments with
  | nil => rfl
  | cons s segments => simp [List.flatMap_map]

theorem compile_key (p : Pattern) : compile p.key = .ok p.canonical := by
  rw [key_eq_canonical]
  exact p.canonical.compile_template

theorem fills_iff_of_segments_eq (p : Pattern) {s t : List Char}
    (h : Path.segments s = Path.segments t) (value : List Char → List Char) :
    p.Fills s value ↔ p.Fills t value := by
  rw [Fills, Fills, h]

theorem isMatch_eq_of_segments_eq (p : Pattern) {path path' : String}
    (h : Path.segments path.toList = Path.segments path'.toList) :
    p.isMatch path = p.isMatch path' := by
  rw [Bool.eq_iff_iff, isMatch_iff_exists_fills, isMatch_iff_exists_fills]
  simp only [p.fills_iff_of_segments_eq h]

/-- The captured values are the greatest that fill the template, so the segments of the path
determine them. -/
theorem captures_eq_of_segments_eq (p : Pattern) {path path' : String}
    (h : Path.segments path.toList = Path.segments path'.toList) :
    p.captures path = p.captures path' := by
  have matched := p.isMatch_eq_of_segments_eq h
  rw [isMatch, isMatch, Regex.isMatch, Regex.isMatch] at matched
  rw [captures, captures]
  congr 1
  cases hc : p.regex.captures path.toList with
  | none =>
      rw [hc] at matched
      rw [Option.isSome_none, eq_comm, Option.isSome_eq_false_iff, Option.isNone_iff_eq_none] at matched
      exact matched.symm
  | some captured =>
      rw [hc, eq_comm] at matched
      obtain ⟨captured', hc'⟩ := Option.isSome_iff_exists.mp matched
      obtain ⟨value, rfl, hfills, greatest⟩ := greatest_fills_of_captures hc
      obtain ⟨value', rfl, hfills', greatest'⟩ := greatest_fills_of_captures hc'
      rw [hc']
      congr 1
      apply List.map_congr_left
      rcases greatest value' ((p.fills_iff_of_segments_eq h value').mpr hfills') with same | lt
      · exact fun name hname => (same name hname).symm
      · rcases greatest' value ((p.fills_iff_of_segments_eq h value).mp hfills) with same | lt'
        · exact same
        · exact absurd lt' (List.lt_asymm lt)

end Pattern

def MethodRoute.canonical (r : MethodRoute η) : MethodRoute η :=
  { r with route := { r.route with template := Path.canonical r.route.template } }

def PathRoute.canonical (r : PathRoute η) : PathRoute η :=
  ⟨r.pattern.canonical, r.methodRoutes.map MethodRoute.canonical, r.order⟩

def RouteMatch.canonical (found : RouteMatch η) : RouteMatch η :=
  ⟨found.pathRoute.canonical, found.methodRoute.canonical, found.bindings⟩

def Routing.canonical : Routing η → Routing η
  | .matched found => .matched found.canonical
  | .methodNotAllowed => .methodNotAllowed
  | .notMatched => .notMatched

def Definition.canonical (d : Definition η) : Definition η :=
  { d with pattern := d.pattern.canonical }

namespace PathRoute

theorem explicitFirst_map_canonical (l : List (MethodRoute η)) :
    explicitFirst (l.map MethodRoute.canonical) =
      (explicitFirst l).map MethodRoute.canonical := by
  rw [explicitFirst, explicitFirst, List.map_append, List.filter_map, List.filter_map]
  rfl

theorem ofDefinitions_canonical (order : Nat) (first : Definition η) (rest : List (Definition η)) :
    ofDefinitions order first.canonical (rest.map Definition.canonical) =
      (ofDefinitions order first rest).canonical := by
  rw [ofDefinitions, ofDefinitions, canonical, ← explicitFirst_map_canonical, ← List.map_cons,
    List.map_map, List.map_map]
  rfl

theorem find?_canonical (r : PathRoute η) (m : Method) :
    r.canonical.find? m = (r.find? m).map MethodRoute.canonical := by
  rw [find?, canonical, List.find?_map]
  rfl

theorem hit?_canonical (r : PathRoute η) (m : Method) (path : String) :
    r.canonical.hit? m path = (r.hit? m path).map RouteMatch.canonical := by
  rw [hit?_eq, hit?_eq, find?_canonical]
  cases r.find? m with
  | none => rfl
  | some methodRoute =>
      change (r.pattern.captures path).map _ = ((r.pattern.captures path).map _).map _
      rw [Option.map_map]
      rfl

theorem hit?_eq_of_segments_eq (r : PathRoute η) (m : Method) {path path' : String}
    (h : Path.segments path.toList = Path.segments path'.toList) :
    r.hit? m path = r.hit? m path' := by
  rw [hit?_eq, hit?_eq, r.pattern.captures_eq_of_segments_eq h]

end PathRoute

theorem scan_map_canonical (routes : List (PathRoute η)) (m : Method) (path : String) :
    scan (routes.map PathRoute.canonical) m path = (scan routes m path).canonical := by
  have hits : (routes.map PathRoute.canonical).findSome? (PathRoute.hit? · m path) =
      (routes.findSome? (PathRoute.hit? · m path)).map RouteMatch.canonical := by
    rw [List.findSome?_map, List.map_findSome?]
    congr 1
    funext r
    exact r.hit?_canonical m path
  have matched : (routes.map PathRoute.canonical).any (fun r => r.pattern.isMatch path) =
      routes.any fun r => r.pattern.isMatch path := by
    rw [List.any_map]
    rfl
  rw [scan_eq, scan_eq, hits, matched]
  cases routes.findSome? (PathRoute.hit? · m path) with
  | some found => rfl
  | none => cases routes.any fun r => r.pattern.isMatch path <;> rfl

theorem scan_eq_of_segments_eq (routes : List (PathRoute η)) (m : Method) {path path' : String}
    (h : Path.segments path.toList = Path.segments path'.toList) :
    scan routes m path = scan routes m path' := by
  simp only [scan_eq, PathRoute.hit?_eq_of_segments_eq _ m h, Pattern.isMatch_eq_of_segments_eq _ h]

namespace Group

def canonical (g : Group η) : Group η := ⟨g.first.canonical, g.rest.map Definition.canonical⟩

theorem place_map_canonical (d : Definition η) (groups : List (Group η)) :
    place d.canonical (groups.map canonical) = (place d groups).map canonical := by
  induction groups with
  | nil => rfl
  | cons g groups ih =>
      rw [List.map_cons, place, place, ih]
      change (if g.first.pattern.key = d.pattern.key then _ else _) = _
      split
      · simp [canonical]
      · rw [List.map_cons]

theorem ofDefinitions_map_canonical (definitions : List (Definition η)) :
    ofDefinitions (definitions.map Definition.canonical) =
      (ofDefinitions definitions).map canonical := by
  induction definitions using List.reverseRecOn with
  | nil => rfl
  | append_singleton definitions d ih =>
      rw [List.map_append, List.map_singleton, ofDefinitions_append_singleton, ih,
        place_map_canonical, ofDefinitions_append_singleton]

end Group

namespace Builder

theorem table_map_canonical (config : Config) (definitions : List (Definition η)) :
    ((definitions.map Definition.canonical).foldl addDefinition { config := config }).table =
      (definitions.foldl addDefinition { config := config }).table.map PathRoute.canonical := by
  simp only [table, fixed_foldl_addDefinition, patterned_foldl_addDefinition, List.nil_append,
    List.filter_map]
  rw [Group.ofDefinitions_map_canonical, Group.ofDefinitions_map_canonical, ← List.map_append]
  apply List.mapIdx_eq_iff.mpr
  intro i
  rw [List.getElem?_map, List.getElem?_mapIdx, List.getElem?_map, Option.map_map, Option.map_map]
  congr 1
  funext g
  exact (PathRoute.ofDefinitions_canonical i g.first g.rest).symm

end Builder

namespace Registration

def canonical (r : Registration η) : Registration η :=
  { r with template := Path.canonical r.template }

theorem definition?_canonical (r : Registration η) :
    r.canonical.definition? = r.definition?.map Definition.canonical := by
  cases hr : r.definition? with
  | some d =>
      rw [r.eq_registration hr]
      exact d.canonical.definition?_registration
  | none =>
      rw [Option.map_none, Option.eq_none_iff_forall_ne_some]
      intro d hd
      have readable := d.pattern.readTemplate_eq
      have htemplate : d.pattern.template = Path.canonical r.template :=
        congrArg Registration.template (eq_registration hd).symm
      rw [htemplate, readTemplate, Path.segments_canonical] at readable
      let own : Pattern := ⟨r.template, d.pattern.segments, readable⟩
      have compiled : Pattern.compile r.template = .ok own := own.compile_template
      rw [definition?, compiled] at hr
      cases hr

structure Respelled (r r' : Registration η) : Prop where
  segments : Path.segments r.template.toList = Path.segments r'.template.toList
  methods : r.methods = r'.methods
  handler : r.handler = r'.handler

theorem Respelled.canonical_eq {r r' : Registration η} (h : Respelled r r') :
    r.canonical = r'.canonical := by
  obtain ⟨template, methods, handler⟩ := r
  obtain ⟨template', methods', handler'⟩ := r'
  obtain ⟨segments, rfl, rfl⟩ := h
  rw [canonical, canonical, Path.canonical_eq_iff.mpr segments]

end Registration

/-- Two answers that differ at most in the slashes of the reported template. -/
inductive Routing.Respelled : Routing η → Routing η → Prop
  | matched {found found' : RouteMatch η}
      (handler : found.methodRoute.handler = found'.methodRoute.handler)
      (methods : found.methodRoute.route.methods = found'.methodRoute.route.methods)
      (template : Path.segments found.methodRoute.route.template.toList =
        Path.segments found'.methodRoute.route.template.toList)
      (bindings : found.bindings = found'.bindings) :
      Respelled (.matched found) (.matched found')
  | methodNotAllowed : Respelled .methodNotAllowed .methodNotAllowed
  | notMatched : Respelled .notMatched .notMatched

theorem Routing.respelled_of_canonical_eq {routing routing' : Routing η}
    (h : routing.canonical = routing'.canonical) : routing.Respelled routing' := by
  cases routing <;> cases routing' <;> simp only [Routing.canonical, reduceCtorEq] at h
  case matched.matched found found' =>
    have same : found.canonical = found'.canonical := Routing.matched.inj h
    have handler := congrArg (fun found => found.methodRoute.handler) same
    have methods := congrArg (fun found => found.methodRoute.route.methods) same
    have template := congrArg (fun found => found.methodRoute.route.template) same
    have bindings := congrArg RouteMatch.bindings same
    exact .matched handler methods (Path.canonical_eq_iff.mp template) bindings
  case methodNotAllowed.methodNotAllowed => exact .methodNotAllowed
  case notMatched.notMatched => exact .notMatched

namespace Builder

theorem table_canonical_registrations (config : Config) (registrations : List (Registration η)) :
    (registerEach { config := config } (registrations.map Registration.canonical)).table =
      (registerEach { config := config } registrations).table.map PathRoute.canonical := by
  have definitions : (registrations.map Registration.canonical).filterMap Registration.definition? =
      (registrations.filterMap Registration.definition?).map Definition.canonical := by
    rw [List.filterMap_map, List.map_filterMap]
    congr 1
    funext r
    rw [Function.comp_apply, r.definition?_canonical]
  rw [registerEach_eq, registerEach_eq, definitions, table_map_canonical]

end Builder

/-- Routers whose templates are spelled with other slashes have as many path routes, and answer any
spelling of a path alike. -/
theorem routing_of_respelled {registrations registrations' : List (Registration η)}
    (respelled : List.Forall₂ Registration.Respelled registrations registrations')
    {path path' : String} (hpath : Path.segments path.toList = Path.segments path'.toList)
    (config : Config) (m : Method) :
    (Builder.registerEach { config := config } registrations).build.pathRoutes.length =
      (Builder.registerEach { config := config } registrations').build.pathRoutes.length ∧
    Routing.Respelled
      ((Builder.registerEach { config := config } registrations).build.routing m path)
      ((Builder.registerEach { config := config } registrations').build.routing m path') := by
  have same : registrations.map Registration.canonical =
      registrations'.map Registration.canonical := by
    rw [← List.forall₂_eq_eq_eq, List.forall₂_map_left_iff, List.forall₂_map_right_iff]
    exact respelled.imp fun _ _ h => h.canonical_eq
  have tables := Builder.table_canonical_registrations config registrations
  rw [same, Builder.table_canonical_registrations] at tables
  constructor
  · rw [Builder.pathRoutes_build, Builder.pathRoutes_build, ← List.length_map PathRoute.canonical,
      ← tables, List.length_map]
  · apply Routing.respelled_of_canonical_eq
    rw [Builder.build, Builder.build,
      Router.routing_ofRoutes (Builder.isTable_table config registrations),
      Router.routing_ofRoutes (Builder.isTable_table config registrations'),
      ← scan_map_canonical, ← scan_map_canonical, ← tables]
    exact scan_eq_of_segments_eq _ m hpath

/-- Two registrations share a template whether they spell it alike or with different slashes. -/
theorem routing_of_respelled_of_item : ∃ plain slashed : List (Registration String),
    List.Forall₂ Registration.Respelled plain slashed ∧
    Path.segments "/a/7".toList = Path.segments "a//7/".toList ∧
    (Builder.registerEach { config := { threshold := 0 } } plain).build.pathRoutes.length =
      (Builder.registerEach { config := { threshold := 0 } } slashed).build.pathRoutes.length ∧
    Routing.Respelled
      ((Builder.registerEach { config := { threshold := 0 } } plain).build.routing .get "/a/7")
      ((Builder.registerEach { config := { threshold := 0 } } slashed).build.routing .get
        "a//7/") ∧
    ((Builder.registerEach { config := { threshold := 0 } } plain).build.routing .get
      "/a/7").isMatched = true := by
  have respelled : List.Forall₂ Registration.Respelled
      [⟨"/a/\x7bid\x7d", .any, "any"⟩, ⟨"/a/\x7bid\x7d", .only [.get], "item"⟩]
      [⟨"/a/\x7bid\x7d/", .any, "any"⟩, ⟨"a//\x7bid\x7d", .only [.get], "item"⟩] :=
    .cons ⟨by decide, rfl, rfl⟩ (.cons ⟨by decide, rfl, rfl⟩ .nil)
  have hpath : Path.segments "/a/7".toList = Path.segments "a//7/".toList := by decide
  obtain ⟨lengths, answers⟩ := routing_of_respelled respelled hpath { threshold := 0 } .get
  exact ⟨_, _, respelled, hpath, lengths, answers, by decide +kernel⟩

/-- Two templates have the same key exactly if they have the same segments, and then they have the
same names and capture the same on every path. The key of a template compiles as the template does,
and is its own key. -/
theorem key_canonical_form {template template' : String} {p q : Pattern}
    (hp : Pattern.compile template = .ok p) (hq : Pattern.compile template' = .ok q) :
    (p.key = q.key ↔ p.segments = q.segments) ∧
    (p.segments = q.segments ↔
      Path.segments template.toList = Path.segments template'.toList) ∧
    (p.key = q.key → p.names = q.names ∧ ∀ path, p.captures path = q.captures path) ∧
    ∃ k, Pattern.compile p.key = .ok k ∧ k.segments = p.segments ∧
      k.regex.text = p.regex.text ∧ k.names = p.names ∧ k.key = p.key := by
  obtain rfl := Pattern.compile_eq_ok_iff.mp hp
  obtain rfl := Pattern.compile_eq_ok_iff.mp hq
  refine ⟨Pattern.key_eq_iff, Pattern.segments_eq_iff, ?_, ?_⟩
  · intro h
    have segments := Pattern.key_eq_iff.mp h
    have names : p.names = q.names := by rw [Pattern.names, Pattern.names, segments]
    refine ⟨names, fun path => ?_⟩
    rw [Pattern.captures, Pattern.captures, Pattern.regex, Pattern.regex, names, segments]
  · exact ⟨p.canonical, p.compile_key, rfl, rfl, rfl, p.key_canonical⟩

/-- The template without segments shares its key with a run of slashes, and the key of a template
that ends in slashes compiles without them. -/
theorem key_canonical_form_of_slashes : ∃ root slashes item : Pattern,
    Pattern.compile "" = .ok root ∧ Pattern.compile "//" = .ok slashes ∧
    Pattern.compile "a//\x7bid\x7d.x/" = .ok item ∧
    root.key = slashes.key ∧ root.key ≠ item.key ∧ root.captures "///" = slashes.captures "///" ∧
    item.key = "/a/\x7bid\x7d.x" ∧ ∃ k, Pattern.compile "/a/\x7bid\x7d.x" = .ok k ∧
      k.segments = item.segments ∧ k.regex.text = item.regex.text ∧ k.names = item.names := by
  let root : Pattern := ⟨"", [], rfl⟩
  let slashes : Pattern := ⟨"//", [], rfl⟩
  let item : Pattern := ⟨"a//\x7bid\x7d.x/",
    [[.char 'a'], [.variable ['i', 'd'], .char '.', .char 'x']], rfl⟩
  obtain ⟨keys, -, same, -⟩ :=
    key_canonical_form root.compile_template slashes.compile_template
  obtain ⟨others, -, -, k, hk, segments, text, names, -⟩ :=
    key_canonical_form item.compile_template root.compile_template
  have equal : root.key = slashes.key := keys.mpr rfl
  have different : root.key ≠ item.key := fun h => List.cons_ne_nil _ _ (others.mp h.symm)
  have key : item.key = "/a/\x7bid\x7d.x" := by decide
  exact ⟨root, slashes, item, root.compile_template, slashes.compile_template,
    item.compile_template, equal, different, (same equal).2 _, key, k, key ▸ hk, segments, text,
    names⟩

end HttpRouting
