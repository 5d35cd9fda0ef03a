import HttpRouting.Proofs.Router.Table

/-!
# What a router answers

Routers of the same registrations give the same answers under all configurations, since a table that
is searched as a tree answers as if it were scanned. The answer can be read off the registrations:
of those that match the path and accept the method, the least in a lexicographic order is selected.
-/

namespace HttpRouting

variable {η : Type}

theorem Pattern.isMatch_eq_of_key_eq {p q : Pattern} (h : p.key = q.key) (path : String) :
    p.isMatch path = q.isMatch path := by
  rw [isMatch, isMatch, regex, regex, key_eq_iff.mp h]

theorem PathRoute.hit?_eq_none_iff {r : PathRoute η} {m : Method} {path : String} :
    r.hit? m path = none ↔ r.find? m = none ∨ r.pattern.isMatch path = false := by
  rw [hit?_eq, Pattern.isMatch_eq_isSome_captures]
  cases r.find? m <;> simp

theorem Router.routing_ofRoutes {routes : List (PathRoute η)} (table : IsTable routes)
    (policy : Policy) (definitions : Nat) (m : Method) (path : String) :
    (ofRoutes policy routes definitions).routing m path = scan routes m path := by
  cases policy with
  | auto => rfl
  | simple => rfl
  | segmentTree => exact SegmentTree.routing_ofRoutes table m path

namespace Builder

theorem isTable_table (config : Config) (registrations : List (Registration η)) :
    IsTable (registerEach { config := config } registrations).table := by
  rw [registerEach_eq]
  exact (tabulates_table config _).isTable

theorem table_registerEach (config : Config) (registrations : List (Registration η)) :
    (registerEach { config := config } registrations).table =
      (registerEach {} registrations).table := by
  simp only [table, registerEach_eq, fixed_foldl_addDefinition, patterned_foldl_addDefinition]

/-- Routers of the same registrations give the same answers under any two configurations, and their
table answers as a tree as it does when it is scanned. -/
theorem routing_registerEach (registrations : List (Registration η)) (c₁ c₂ : Config) (m : Method)
    (path : String) :
    (registerEach { config := c₁ } registrations).build.routing m path =
      (registerEach { config := c₂ } registrations).build.routing m path ∧
    (SegmentTree.ofRoutes (registerEach { config := c₁ } registrations).table).routing m path =
      scan (registerEach { config := c₁ } registrations).table m path := by
  constructor
  · rw [build, build, Router.routing_ofRoutes (isTable_table c₁ registrations),
      Router.routing_ofRoutes (isTable_table c₂ registrations), table_registerEach,
      table_registerEach c₂]
  · exact SegmentTree.routing_ofRoutes (isTable_table c₁ registrations) m path

end Builder

theorem PathRoute.find?_explicitFirst (l : List (MethodRoute η)) (q : MethodRoute η → Bool) :
    (explicitFirst l).find? q = (l.find? fun r => !r.methods.isAny && q r).or
      (l.find? fun r => r.methods.isAny && q r) := by
  simp [explicitFirst, List.find?_append, List.find?_filter]

private theorem exists_getElem?_of_find? {α : Type} {l : List α} {q : α → Bool} {a : α}
    (h : l.find? q = some a) :
    q a = true ∧
      ∃ i : Nat, l[i]? = some a ∧ ∀ (j : Nat) b, l[j]? = some b → q b = true → i ≤ j := by
  obtain ⟨hq, i, hi, rfl, before⟩ := List.find?_eq_some_iff_getElem.mp h
  refine ⟨hq, i, List.getElem?_eq_getElem hi, ?_⟩
  intro j b hb hqb
  apply Nat.le_of_not_lt
  intro hlt
  obtain ⟨_, rfl⟩ := List.getElem?_eq_some_iff.mp hb
  simpa [hqb] using before j hlt

namespace Tabulates

variable {definitions : List (Definition η)} {routes : List (PathRoute η)} {r : PathRoute η}
  {m : Method}

theorem find?_eq (h : Tabulates definitions routes) (hr : r ∈ routes) (m : Method) :
    r.find? m = ((definitions.find? fun d => d.pattern.key = r.pattern.key ∧
        d.methods.isAny = false ∧ d.methods.contains m = true).or
      (definitions.find? fun d => d.pattern.key = r.pattern.key ∧
        d.methods.isAny = true ∧ d.methods.contains m = true)).map
      (Definition.methodRoute r.pattern.template) := by
  rw [PathRoute.find?, h.methodRoutes_eq hr, PathRoute.find?_explicitFirst, List.find?_map,
    List.find?_map, List.find?_filter, List.find?_filter, Option.map_or]
  simp [Definition.methodRoute, MethodRoute.accepts]

theorem find?_eq_none_iff (h : Tabulates definitions routes) (hr : r ∈ routes) :
    r.find? m = none ↔ ∀ d ∈ definitions, d.pattern.key = r.pattern.key →
      d.methods.contains m = false := by
  rw [h.find?_eq hr, Option.map_eq_none_iff, Option.or_eq_none_iff, List.find?_eq_none,
    List.find?_eq_none]
  simp only [decide_eq_true_eq, not_and, Bool.not_eq_true]
  constructor
  · rintro ⟨explicit, anys⟩ d hd hkey
    cases hany : d.methods.isAny with
    | false => exact explicit d hd hkey hany
    | true => exact anys d hd hkey hany
  · intro none
    exact ⟨fun d hd hkey _ => none d hd hkey, fun d hd hkey _ => none d hd hkey⟩

/-- Among the definitions with its key that accept a method, a path route finds the first one with
explicit methods, or else the first one. -/
theorem exists_of_find? (h : Tabulates definitions routes) (hr : r ∈ routes)
    {found : MethodRoute η} (hfound : r.find? m = some found) :
    ∃ i d, definitions[i]? = some d ∧ d.pattern.key = r.pattern.key ∧
      d.methods.contains m = true ∧ found = d.methodRoute r.pattern.template ∧
      ∀ j e, definitions[j]? = some e → e.pattern.key = r.pattern.key →
        e.methods.contains m = true →
        (toLex (d.methods.isAny, i) : Bool ×ₗ Nat) ≤ toLex (e.methods.isAny, j) := by
  rw [h.find?_eq hr, Option.map_eq_some_iff] at hfound
  obtain ⟨d, hd, rfl⟩ := hfound
  rcases Option.or_eq_some_iff.mp hd with hd | ⟨hnone, hd⟩
  · obtain ⟨hq, i, hi, least⟩ := exists_getElem?_of_find? hd
    obtain ⟨hkey, hexplicit, hm⟩ := of_decide_eq_true hq
    refine ⟨i, d, hi, hkey, hm, rfl, ?_⟩
    intro j e he hkey' hm'
    rw [Prod.Lex.toLex_le_toLex]
    cases hany : e.methods.isAny with
    | true => exact .inl (by rw [hexplicit]; exact Bool.false_lt_true)
    | false => exact .inr ⟨hexplicit, least j e he (decide_eq_true ⟨hkey', hany, hm'⟩)⟩
  · obtain ⟨hq, i, hi, least⟩ := exists_getElem?_of_find? hd
    obtain ⟨hkey, hany, hm⟩ := of_decide_eq_true hq
    refine ⟨i, d, hi, hkey, hm, rfl, ?_⟩
    intro j e he hkey' hm'
    have hany' : e.methods.isAny = true := by
      have hmiss := List.find?_eq_none.mp hnone e (List.mem_of_getElem? he)
      simpa [hkey', hm'] using hmiss
    rw [Prod.Lex.toLex_le_toLex]
    exact .inr ⟨hany.trans hany'.symm, least j e he (decide_eq_true ⟨hkey', hany', hm'⟩)⟩

variable {path : String}

theorem hit?_eq_none_iff (h : Tabulates definitions routes) (hr : r ∈ routes) :
    r.hit? m path = none ↔ ∀ d ∈ definitions, d.pattern.key = r.pattern.key →
      d.pattern.isMatch path = true → d.methods.contains m = false := by
  rw [PathRoute.hit?_eq_none_iff, h.find?_eq_none_iff hr]
  constructor
  · rintro (none | hmiss) d hd hkey hmatch
    · exact none d hd hkey
    · rw [Pattern.isMatch_eq_of_key_eq hkey, hmiss] at hmatch
      cases hmatch
  · intro none
    cases hmatch : r.pattern.isMatch path with
    | false => exact .inr rfl
    | true =>
        left
        intro d hd hkey
        exact none d hd hkey ((Pattern.isMatch_eq_of_key_eq hkey path).trans hmatch)

theorem any_isMatch_iff (h : Tabulates definitions routes) :
    routes.any (fun r => r.pattern.isMatch path) = true ↔
      ∃ d ∈ definitions, d.pattern.isMatch path = true := by
  rw [List.any_eq_true]
  constructor
  · rintro ⟨r, hr, hmatch⟩
    obtain ⟨first, hfirst, hpattern⟩ := h.getElem?_firstPlace hr
    exact ⟨first, List.mem_of_getElem? hfirst, hpattern ▸ hmatch⟩
  · rintro ⟨d, hd, hmatch⟩
    obtain ⟨r, hr, hkey⟩ := h.exists_route d hd
    exact ⟨r, hr, (Pattern.isMatch_eq_of_key_eq hkey path).trans hmatch⟩

theorem findSome?_eq_none_iff (h : Tabulates definitions routes) :
    routes.findSome? (PathRoute.hit? · m path) = none ↔
      ∀ d ∈ definitions, d.pattern.isMatch path = true → d.methods.contains m = false := by
  rw [List.findSome?_eq_none_iff]
  constructor
  · intro misses d hd hmatch
    obtain ⟨r, hr, hkey⟩ := h.exists_route d hd
    exact (h.hit?_eq_none_iff hr).mp (misses r hr) d hd hkey.symm hmatch
  · intro none r hr
    exact (h.hit?_eq_none_iff hr).mpr fun d hd _ hmatch => none d hd hmatch

theorem scan_eq_notMatched_iff (h : Tabulates definitions routes) :
    scan routes m path = .notMatched ↔ ∀ d ∈ definitions, d.pattern.isMatch path = false := by
  rw [HttpRouting.scan_eq_notMatched_iff, ← Bool.not_eq_true, h.any_isMatch_iff,
    h.findSome?_eq_none_iff]
  constructor
  · rintro ⟨none, -⟩ d hd
    rw [← Bool.not_eq_true]
    exact fun hmatch => none ⟨d, hd, hmatch⟩
  · intro none
    constructor
    · rintro ⟨d, hd, hmatch⟩
      rw [none d hd] at hmatch
      cases hmatch
    · intro d hd hmatch
      rw [none d hd] at hmatch
      cases hmatch

theorem scan_eq_methodNotAllowed_iff (h : Tabulates definitions routes) :
    scan routes m path = .methodNotAllowed ↔
      (∃ d ∈ definitions, d.pattern.isMatch path = true) ∧
        ∀ d ∈ definitions, d.pattern.isMatch path = true → d.methods.contains m = false := by
  rw [HttpRouting.scan_eq_methodNotAllowed_iff, h.any_isMatch_iff, h.findSome?_eq_none_iff]

theorem exists_hit (h : Tabulates definitions routes)
    (hit : ∃ d ∈ definitions, d.pattern.isMatch path = true ∧ d.methods.contains m = true) :
    ∃ found, routes.findSome? (PathRoute.hit? · m path) = some found := by
  obtain ⟨d, hd, hmatch, hm⟩ := hit
  apply Option.ne_none_iff_exists'.mp
  intro hnone
  have refused := h.findSome?_eq_none_iff.mp hnone d hd hmatch
  rw [hm] at refused
  cases refused

/-- The first hit is of the definition that is least in the order of the table and, within its path
route, explicit methods before every method and then by its own place. -/
theorem exists_of_findSome? (h : Tabulates definitions routes) {found : RouteMatch η}
    (hfound : routes.findSome? (PathRoute.hit? · m path) = some found) :
    ∃ i d first, definitions[i]? = some d ∧ d.pattern.isMatch path = true ∧
      d.methods.contains m = true ∧
      definitions[firstPlace definitions d.pattern.key]? = some first ∧
      found.methodRoute = d.methodRoute first.pattern.template ∧
      first.pattern.captures path = some found.bindings ∧
      ∀ j e, definitions[j]? = some e → e.pattern.isMatch path = true →
        e.methods.contains m = true →
        tablePlace definitions d.pattern < tablePlace definitions e.pattern ∨
          tablePlace definitions d.pattern = tablePlace definitions e.pattern ∧
            (toLex (d.methods.isAny, i) : Bool ×ₗ Nat) ≤ toLex (e.methods.isAny, j) := by
  obtain ⟨front, r, back, rfl, hit, misses⟩ := List.findSome?_eq_some_iff.mp hfound
  have hr : r ∈ front ++ r :: back := by simp
  have hmatch := PathRoute.isMatch_of_hit? hit
  rw [PathRoute.hit?_eq] at hit
  obtain ⟨methodRoute, hfind, hit⟩ := Option.bind_eq_some_iff.mp hit
  obtain ⟨bindings, hcaptures, rfl⟩ := Option.map_eq_some_iff.mp hit
  obtain ⟨i, d, hd, hkey, hm, rfl, least⟩ := h.exists_of_find? hr hfind
  obtain ⟨first, hfirst, hpattern⟩ := h.getElem?_firstPlace hr
  refine ⟨i, d, first, hd, ?_, hm, ?_, ?_, ?_, ?_⟩
  · rw [Pattern.isMatch_eq_of_key_eq hkey, hmatch]
  · rw [hkey, hfirst]
  · rw [hpattern]
  · rw [← hpattern, hcaptures]
  · intro j e he hmatch' hm'
    obtain ⟨r', hr', hkey'⟩ := h.exists_route e (List.mem_of_getElem? he)
    rw [tablePlace_eq_of_key_eq definitions hkey, ← tablePlace_eq_of_key_eq definitions hkey']
    have hits : r'.hit? m path ≠ none := by
      intro hnone
      have hmiss := (h.hit?_eq_none_iff hr').mp hnone e (List.mem_of_getElem? he) hkey'.symm hmatch'
      rw [hm'] at hmiss
      cases hmiss
    have sorted := (List.pairwise_append.mp h.sorted).2.1
    rw [List.pairwise_cons] at sorted
    rcases List.mem_append.mp hr' with hfront | hback
    · exact absurd (misses r' hfront) hits
    · rcases List.mem_cons.mp hback with rfl | hback
      · exact .inr ⟨rfl, least j e he hkey'.symm hm'⟩
      · exact .inl (sorted.1 r' hback)

end Tabulates

namespace Builder

variable {config : Config} {definitions : List (Definition η)} {m : Method} {path : String}

theorem exists_routing_eq_matched (config : Config)
    (hit : ∃ d ∈ definitions, d.pattern.isMatch path = true ∧ d.methods.contains m = true) :
    ∃ found, (definitions.foldl addDefinition { config := config }).build.routing m path =
      .matched found := by
  have tabulates := tabulates_table config definitions
  obtain ⟨found, hfound⟩ := tabulates.exists_hit hit
  refine ⟨found, ?_⟩
  rw [build, Router.routing_ofRoutes tabulates.isTable, scan_of_findSome? hfound]

theorem exists_of_routing_eq_matched {found : RouteMatch η}
    (h : (definitions.foldl addDefinition { config := config }).build.routing m path =
      .matched found) :
    ∃ d ∈ definitions, ∃ first ∈ definitions,
      found.methodRoute = d.methodRoute first.pattern.template ∧
        first.pattern.captures path = some found.bindings := by
  have tabulates := tabulates_table config definitions
  rw [build, Router.routing_ofRoutes tabulates.isTable] at h
  obtain ⟨i, d, first, hd, -, -, hfirst, hroute, hcaptures, -⟩ :=
    tabulates.exists_of_findSome? (findSome?_of_scan h)
  exact ⟨d, List.mem_of_getElem? hd, first, List.mem_of_getElem? hfirst, hroute, hcaptures⟩

end Builder

namespace Registration

def fits (r : Registration η) (path : String) : Bool :=
  r.definition?.any fun d => d.pattern.isMatch path

def hasVariables (r : Registration η) : Bool :=
  r.definition?.any fun d => d.pattern.hasVariables

variable (registrations : List (Registration η))

/-- The place of the first registration whose template has the same non-empty segments. -/
def firstSame (r : Registration η) : Nat :=
  registrations.findIdx fun r' =>
    Path.segments r'.template.toList = Path.segments r.template.toList

/-- What decides between registrations that match the path and accept the method: templates without
variables before those with some, then the first registration with the same segments, explicit
methods before every method, and the registration's own place. -/
def rank (i : Nat) (r : Registration η) : Bool ×ₗ Nat ×ₗ Bool ×ₗ Nat :=
  toLex (r.hasVariables, toLex (firstSame registrations r, toLex (r.methods.isAny, i)))

/-- A registration that matches the path and accepts the method, and is the least such one. -/
structure IsSelected (m : Method) (path : String) (i : Nat) (r : Registration η) : Prop where
  place : registrations[i]? = some r
  fits : r.fits path = true
  accepts : r.methods.contains m = true
  least : ∀ j other, registrations[j]? = some other → other.fits path = true →
    other.methods.contains m = true → rank registrations i r ≤ rank registrations j other

@[simp] theorem fits_registration (d : Definition η) (path : String) :
    d.registration.fits path = d.pattern.isMatch path := by simp [fits]

@[simp] theorem hasVariables_registration (d : Definition η) :
    d.registration.hasVariables = d.pattern.hasVariables := by simp [hasVariables]

theorem firstSame_map (definitions : List (Definition η)) (d : Definition η) :
    firstSame (definitions.map Definition.registration) d.registration =
      firstPlace definitions d.pattern.key := by
  rw [firstSame, List.findIdx_map, firstPlace]
  congr 1
  funext d'
  rw [Function.comp_apply, decide_eq_decide, Pattern.key_eq_iff, Pattern.segments_eq_iff]
  rfl

theorem rank_le_rank {definitions : List (Definition η)} {i j : Nat} {d e : Definition η}
    (h : tablePlace definitions d.pattern < tablePlace definitions e.pattern ∨
      tablePlace definitions d.pattern = tablePlace definitions e.pattern ∧
        (toLex (d.methods.isAny, i) : Bool ×ₗ Nat) ≤ toLex (e.methods.isAny, j)) :
    rank (definitions.map Definition.registration) i d.registration ≤
      rank (definitions.map Definition.registration) j e.registration := by
  rw [rank, rank, hasVariables_registration, hasVariables_registration, firstSame_map,
    firstSame_map, Prod.Lex.toLex_le_toLex, Prod.Lex.toLex_le_toLex]
  rcases h with hlt | ⟨heq, hle⟩
  · rcases Prod.Lex.toLex_lt_toLex.mp hlt with hlt | ⟨heq, hlt⟩
    · exact .inl hlt
    · exact .inr ⟨heq, .inl hlt⟩
  · obtain ⟨hvar, hplace⟩ := Prod.mk.inj (toLex.injective heq)
    exact .inr ⟨hvar, .inr ⟨hplace, hle⟩⟩

theorem isSelected_registration {definitions : List (Definition η)} {i : Nat} {d : Definition η}
    {m : Method} {path : String} (hd : definitions[i]? = some d)
    (hmatch : d.pattern.isMatch path = true) (hm : d.methods.contains m = true)
    (least : ∀ j e, definitions[j]? = some e → e.pattern.isMatch path = true →
      e.methods.contains m = true →
      tablePlace definitions d.pattern < tablePlace definitions e.pattern ∨
        tablePlace definitions d.pattern = tablePlace definitions e.pattern ∧
          (toLex (d.methods.isAny, i) : Bool ×ₗ Nat) ≤ toLex (e.methods.isAny, j)) :
    IsSelected (definitions.map Definition.registration) m path i d.registration where
  place := by
    rw [List.getElem?_map, hd]
    rfl
  fits := by rw [fits_registration, hmatch]
  accepts := hm
  least := by
    intro j other hother hfits haccepts
    rw [List.getElem?_map] at hother
    obtain ⟨e, he, rfl⟩ := Option.map_eq_some_iff.mp hother
    rw [fits_registration] at hfits
    exact rank_le_rank (least j e he hfits haccepts)

end Registration

/-- The answer of a router to a method and a path, in terms of what was registered. -/
theorem routing_of_registerAll {config : Config} {registrations : List (Registration η)}
    {b : Builder η} (h : Builder.registerAll { config := config } registrations = .ok b)
    (m : Method) (path : String) :
    (b.build.routing m path = .notMatched ↔ ∀ r ∈ registrations, r.fits path = false) ∧
    (b.build.routing m path = .methodNotAllowed ↔ (∃ r ∈ registrations, r.fits path = true) ∧
      ∀ r ∈ registrations, r.fits path = true → r.methods.contains m = false) ∧
    ((∃ r ∈ registrations, r.fits path = true ∧ r.methods.contains m = true) →
      ∃ i r first p found, Registration.IsSelected registrations m path i r ∧
        registrations[Registration.firstSame registrations r]? = some first ∧
        Pattern.compile first.template = .ok p ∧
        b.build.routing m path = .matched found ∧
        found.methodRoute.handler = r.handler ∧
        found.methodRoute.route = ⟨r.methods.label, first.template⟩ ∧
        p.captures path = some found.bindings) := by
  obtain ⟨definitions, rfl, rfl⟩ := Builder.registerAll_eq_ok_iff.mp h
  have tabulates := Builder.tabulates_table config definitions
  rw [Builder.build, Router.routing_ofRoutes tabulates.isTable]
  simp only [List.forall_mem_map]
  simp only [List.mem_map, exists_exists_and_eq_and, Registration.fits_registration]
  refine ⟨tabulates.scan_eq_notMatched_iff, tabulates.scan_eq_methodNotAllowed_iff, ?_⟩
  intro hit
  obtain ⟨found, hscan⟩ := tabulates.exists_hit hit
  obtain ⟨i, d, first, hd, hmatch, hm, hfirst, hroute, hcaptures, least⟩ :=
    tabulates.exists_of_findSome? hscan
  refine ⟨i, d.registration, first.registration, first.pattern, found, ?_, ?_,
    first.pattern.compile_template, scan_of_findSome? hscan, ?_, ?_, hcaptures⟩
  · exact Registration.isSelected_registration hd hmatch hm least
  · rw [Registration.firstSame_map, List.getElem?_map, hfirst]
    rfl
  · rw [hroute]
    rfl
  · rw [hroute]
    rfl

/-- The last registration is selected: it has no variables, and it names the method while the
earlier one with its segments accepts every method. That one gives the reported template. -/
theorem routing_of_registerAll_of_late_method :
    ∃ (b : Builder String) (found : RouteMatch String),
      Builder.registerAll { config := { threshold := 0 } } [⟨"/a/\x7bid\x7d", .only [.get], "item"⟩,
        ⟨"/a/b", .any, "any"⟩, ⟨"a//b/", .only [.get], "late"⟩] = .ok b ∧
      b.build.routing .get "/a/b" = .matched found ∧
      found.methodRoute.handler = "late" ∧
      found.methodRoute.route = ⟨"GET", "/a/b"⟩ := by
  let item : Definition String :=
    ⟨⟨"/a/\x7bid\x7d", [[.char 'a'], [.variable ['i', 'd']]], rfl⟩, .only [.get], "item"⟩
  let any : Definition String := ⟨⟨"/a/b", [[.char 'a'], [.char 'b']], rfl⟩, .any, "any"⟩
  let late : Definition String :=
    ⟨⟨"a//b/", [[.char 'a'], [.char 'b']], rfl⟩, .only [.get], "late"⟩
  let registrations := [item, any, late].map Definition.registration
  have h : Builder.registerAll { config := { threshold := 0 } } registrations = .ok _ :=
    Builder.registerAll_eq_ok_iff.mpr ⟨[item, any, late], rfl, rfl⟩
  have third : registrations[2]? = some late.registration := rfl
  have hfits : late.registration.fits "/a/b" = true := by
    have hpath : "/a/b".toList = ['/', 'a', '/', 'b'] := by simp
    rw [Registration.fits_registration, Pattern.isMatch, hpath]
    rfl
  obtain ⟨i, r, first, p, found, selected, hfirst, -, hrouting, hhandler, hroute, -⟩ :=
    (routing_of_registerAll h .get "/a/b").2.2 ⟨_, List.mem_of_getElem? third, hfits, by decide⟩
  have least := selected.least 2 _ third hfits (by decide)
  have same (d : Definition String) (hkey : d.pattern.key = "/a/b") :
      Registration.firstSame registrations d.registration = 1 := by
    rw [Registration.firstSame_map, hkey]
    decide
  have hr : r = late.registration := by
    rw [Registration.rank, Registration.rank, Registration.hasVariables_registration,
      same late rfl] at least
    rcases i with _ | _ | _ | i
    · cases selected.place
      rw [Registration.hasVariables_registration] at least
      have hitem : item.pattern.hasVariables = true := rfl
      have hlate : late.pattern.hasVariables = false := rfl
      rw [hitem, hlate] at least
      exact absurd least (by simp [Prod.Lex.toLex_le_toLex])
    · cases selected.place
      rw [Registration.hasVariables_registration, same any rfl] at least
      exact absurd least (by decide)
    · exact (Option.some.inj selected.place).symm
    · exact absurd selected.place (by simp [registrations])
  subst hr
  rw [same late rfl] at hfirst
  cases hfirst
  exact ⟨_, found, h, hrouting, hhandler, hroute⟩

end HttpRouting
