import HttpRouting.Proofs.Pattern.Separation
import HttpRouting.Proofs.Router.Answer

/-!
# Routing a path that was made from a template

A path that is made by putting values into a template, with any number of slashes between and around
the segments, is routed to the handler of the template and binds the values again, provided that
literals keep the variables of a segment apart.
-/

namespace HttpRouting

variable {η : Type}

namespace Pattern

theorem map_substitute_segments (p : Pattern) (value : String → String) :
    (Path.segments p.template.toList).map (substitute value) =
      p.segments.map (Segment.fill fun name => (value (String.ofList name)).toList) :=
  (p.map_fill_segments _).symm

theorem written_substitute {p : Pattern} {value : String → String}
    (values : ∀ name ∈ p.names, value name ≠ "" ∧ '/' ∉ (value name).toList) :
    ∀ word ∈ (Path.segments p.template.toList).map (substitute value),
      word ≠ [] ∧ '/' ∉ word := by
  rw [map_substitute_segments, List.forall_mem_map]
  intro s hs
  apply Segment.isValue_fill (isWritable_of_mem hs)
  intro name hname
  have hmem : name ∈ p.rawNames := List.mem_flatMap.mpr ⟨s, hs, hname⟩
  have own := values (String.ofList name) (List.mem_map_of_mem hmem)
  exact ⟨by simpa using own.1, own.2⟩

theorem isAssignment_spelled {p : Pattern} {value : String → String}
    (values : ∀ name ∈ p.names, value name ≠ "" ∧ '/' ∉ (value name).toList)
    (leading : Nat) (more : List Nat) (trailing : Nat) :
    p.IsAssignment (String.ofList (Path.spelled leading more trailing
      ((Path.segments p.template.toList).map (substitute value)))) value where
  values := values
  segments_eq := by
    rw [String.toList_ofList, Path.segments_spelled leading more trailing
      (written_substitute values)]

end Pattern

theorem Builder.routing_of_captures (config : Config) {p : Pattern} {methods : MethodSet}
    (handler : η) {m : Method} (accepts : methods.contains m = true) {path : String}
    {bindings : Variables} (hcaptures : p.captures path = some bindings) :
    ∃ b found, register { config := config } p.template methods handler = .ok b ∧
      b.build.routing m path = .matched found ∧ found.methodRoute.handler = handler ∧
      found.methodRoute.route = ⟨methods.label, p.template⟩ ∧ found.bindings = bindings := by
  let d : Definition η := ⟨p, methods, handler⟩
  have hmatch : p.isMatch path = true := by
    rw [Pattern.isMatch_eq_isSome_captures, hcaptures]
    rfl
  obtain ⟨found, hfound⟩ := exists_routing_eq_matched config
    ⟨d, List.mem_singleton.mpr rfl, hmatch, accepts⟩
  obtain ⟨d', hd', first, hfirst, hroute, hbound⟩ := exists_of_routing_eq_matched hfound
  obtain rfl := List.mem_singleton.mp hd'
  obtain rfl := List.mem_singleton.mp hfirst
  have hregister := (register_eq_ok_iff (b := { config := config }) (r := d.registration)).mpr
    ⟨d, d.definition?_registration, rfl⟩
  refine ⟨_, found, hregister, hfound, ?_, ?_, ?_⟩
  · rw [hroute]
    rfl
  · rw [hroute]
    rfl
  · exact Option.some.inj (hbound.symm.trans hcaptures)

theorem Builder.routing_registerEach_singleton (config : Config) {p : Pattern}
    {methods : MethodSet} (handler : η) {m : Method} (accepts : methods.contains m = true)
    {path : String} {bindings : Variables} (hcaptures : p.captures path = some bindings) :
    ∃ found, (registerEach { config := config } [⟨p.template, methods, handler⟩]).build.routing m
        path = .matched found ∧
      found.methodRoute.route = ⟨methods.label, p.template⟩ ∧ found.bindings = bindings := by
  obtain ⟨b, found, hregister, hfound, -, hroute, hbindings⟩ :=
    routing_of_captures config handler accepts hcaptures
  have hb : registerEach { config := config } [⟨p.template, methods, handler⟩] = b := by
    rw [registerEach, List.foldl_cons, List.foldl_nil, hregister]
    rfl
  rw [← hb] at hfound
  exact ⟨found, hfound, hroute, hbindings⟩

/-- A path made from a template by putting in values, which literals keep apart within a segment, is
matched by a router with that template and binds exactly these values in the order of the names. -/
theorem routing_spelled_substitute (config : Config) {template : String} {p : Pattern}
    (h : Pattern.compile template = .ok p) (separated : ∀ s ∈ p.segments, s.Separated)
    {value : String → String}
    (values : ∀ name ∈ p.names, value name ≠ "" ∧ '/' ∉ (value name).toList)
    (spares : ∀ s ∈ p.segments, s.Spares fun name => (value (String.ofList name)).toList)
    (methods : MethodSet) (handler : η) {m : Method} (accepts : methods.contains m = true)
    (leading : Nat) (more : List Nat) (trailing : Nat) :
    ∃ b found, Builder.register { config := config } template methods handler = .ok b ∧
      b.build.routing m (String.ofList (Path.spelled leading more trailing
        ((Path.segments template.toList).map (substitute value)))) = .matched found ∧
      found.methodRoute.handler = handler ∧
      found.methodRoute.route = ⟨methods.label, template⟩ ∧
      found.bindings.pairs = p.names.map fun name => (name, value name) := by
  obtain rfl := Pattern.compile_eq_ok_iff.mp h
  have assignment := Pattern.isAssignment_spelled values leading more trailing
  obtain ⟨bindings, hcaptures, hpairs⟩ :=
    Pattern.captures_of_isAssignment assignment separated spares
  obtain ⟨b, found, hregister, hrouting, hhandler, hroute, rfl⟩ :=
    Builder.routing_of_captures config handler accepts hcaptures
  exact ⟨b, found, hregister, hrouting, hhandler, hroute, hpairs⟩

/-- Values may repeat the separators that stand elsewhere. -/
theorem routing_spelled_substitute_of_release :
    ∃ (b : Builder String) (found : RouteMatch String),
      Builder.register { config := { threshold := 0 } } "/\x7bname\x7d-v\x7bmajor\x7d.\x7bminor\x7d"
        (.only [.get]) "release" = .ok b ∧
      b.build.routing .get "//a-v9-v1.2.3-4/" = .matched found ∧
      found.methodRoute.handler = "release" ∧
      found.bindings.pairs = [("name", "a-v9"), ("major", "1.2"), ("minor", "3-4")] := by
  let segment : Segment := [.variable ['n', 'a', 'm', 'e'], .char '-', .char 'v',
    .variable ['m', 'a', 'j', 'o', 'r'], .char '.', .variable ['m', 'i', 'n', 'o', 'r']]
  let p : Pattern := ⟨"/\x7bname\x7d-v\x7bmajor\x7d.\x7bminor\x7d", [segment], rfl⟩
  let value (name : String) : String :=
    if name = "name" then "a-v9" else if name = "major" then "1.2" else "3-4"
  have hgaps : Segment.gaps none segment =
      [(['-', 'v'], ['m', 'a', 'j', 'o', 'r']), (['.'], ['m', 'i', 'n', 'o', 'r'])] := rfl
  have hnames : p.names = ["name", "major", "minor"] := rfl
  have separated : ∀ s ∈ p.segments, s.Separated := by
    intro s hs
    obtain rfl := List.mem_singleton.mp hs
    rw [Segment.separated_iff, hgaps]
    simp
  have spares : ∀ s ∈ p.segments, s.Spares fun name => (value (String.ofList name)).toList := by
    intro s hs
    obtain rfl := List.mem_singleton.mp hs
    rw [Segment.spares_iff, hgaps]
    have major : value (String.ofList ['m', 'a', 'j', 'o', 'r']) = "1.2" := rfl
    have minor : value (String.ofList ['m', 'i', 'n', 'o', 'r']) = "3-4" := rfl
    simp [major, minor]
  have values : ∀ name ∈ p.names, value name ≠ "" ∧ '/' ∉ (value name).toList := by
    rw [hnames]
    decide
  have hwords : (Path.segments p.template.toList).map (substitute value) =
      ["a-v9-v1.2.3-4".toList] := by
    rw [Pattern.map_substitute_segments]
    decide
  have hpath : String.ofList (Path.spelled 2 [] 1 ["a-v9-v1.2.3-4".toList]) =
      "//a-v9-v1.2.3-4/" := by
    decide
  obtain ⟨b, found, hregister, hrouting, hhandler, -, hpairs⟩ := routing_spelled_substitute
    { threshold := 0 } p.compile_template separated values spares (.only [.get]) "release"
    (m := .get) (by decide) 2 [] 1
  rw [hwords, hpath] at hrouting
  rw [hnames] at hpairs
  exact ⟨b, found, hregister, hrouting, hhandler, hpairs⟩

end HttpRouting
