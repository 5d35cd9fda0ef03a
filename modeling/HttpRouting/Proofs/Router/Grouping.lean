import HttpRouting.Proofs.Router.Table
import Mathlib.Algebra.GroupWithZero.Nat

/-!
# A table groups its registrations

A table has one entry for each list of segments that registrations have, in the order of first
registration, those without variables before those with some. An entry holds exactly the
registrations with its segments, those with explicit methods before those that accept every method.
-/

namespace HttpRouting

variable {η : Type}

def Registration.words (r : Registration η) : List (List Char) := Path.segments r.template.toList

def Registration.methodRoute (template : String) (r : Registration η) : MethodRoute η :=
  ⟨r.methods, r.handler, ⟨r.methods.label, template⟩⟩

namespace PathRoute

def words (r : PathRoute η) : List (List Char) := Path.segments r.pattern.template.toList

/-- Entries with variables are behind the others; otherwise the first registration decides. -/
def rank (registrations : List (Registration η)) (r : PathRoute η) : Bool ×ₗ Nat :=
  toLex (r.pattern.hasVariables, registrations.findIdx fun registration =>
    registration.words = r.words)

@[simp] theorem length_explicitFirst (l : List (MethodRoute η)) :
    (explicitFirst l).length = l.length := by
  have split := List.length_eq_length_filter_add (l := l) fun r => r.methods.isAny
  rw [explicitFirst, List.length_append]
  omega

end PathRoute

/-- The entries of a table are the groups of registrations with the same segments. -/
structure Groups (registrations : List (Registration η)) (routes : List (PathRoute η)) : Prop where
  nodup : (routes.map PathRoute.words).Nodup
  words_iff : ∀ words, (∃ r ∈ routes, r.words = words) ↔
    ∃ registration ∈ registrations, registration.words = words
  sorted : routes.Pairwise fun r r' => r.rank registrations < r'.rank registrations
  order_eq : ∀ (i : Nat) (r : PathRoute η), routes[i]? = some r → r.order = i
  entry : ∀ r ∈ routes, ∃ first,
    registrations.find? (fun registration => registration.words = r.words) = some first ∧
    r.pattern.template = first.template ∧
    r.methodRoutes = (registrations.filter fun registration =>
        registration.words = r.words ∧ registration.methods.isAny = false).map
          (Registration.methodRoute first.template) ++
      (registrations.filter fun registration =>
        registration.words = r.words ∧ registration.methods.isAny = true).map
          (Registration.methodRoute first.template)

theorem Pattern.key_eq_iff_segments_template {p q : Pattern} : p.key = q.key ↔
    Path.segments p.template.toList = Path.segments q.template.toList := by
  rw [key_eq_iff, segments_eq_iff]

namespace Tabulates

variable {definitions : List (Definition η)} {routes : List (PathRoute η)}

theorem rank_eq (r : PathRoute η) : r.rank (definitions.map Definition.registration) =
    tablePlace definitions r.pattern := by
  rw [PathRoute.rank, tablePlace, firstPlace, List.findIdx_map]
  simp only [Pattern.key_eq_iff_segments_template]
  rfl

theorem filter_registration (definitions : List (Definition η)) (r : PathRoute η)
    (any : Bool) : ((definitions.map Definition.registration).filter fun registration =>
        registration.words = r.words ∧ registration.methods.isAny = any) =
      (definitions.filter fun d => d.pattern.key = r.pattern.key ∧
        d.methods.isAny = any).map Definition.registration := by
  rw [List.filter_map]
  simp only [Pattern.key_eq_iff_segments_template]
  rfl

theorem methodRoutes_eq_append (h : Tabulates definitions routes) {r : PathRoute η}
    (hr : r ∈ routes) : r.methodRoutes =
      (definitions.filter fun d => d.pattern.key = r.pattern.key ∧ d.methods.isAny = false).map
        (Definition.methodRoute r.pattern.template) ++
      (definitions.filter fun d => d.pattern.key = r.pattern.key ∧ d.methods.isAny = true).map
        (Definition.methodRoute r.pattern.template) := by
  rw [h.methodRoutes_eq hr, PathRoute.explicitFirst, List.filter_map, List.filter_map,
    List.filter_filter, List.filter_filter]
  simp [Definition.methodRoute, and_comm]

theorem groups (h : Tabulates definitions routes) :
    Groups (definitions.map Definition.registration) routes where
  nodup := by
    have segments := h.isTable.nodup_segments
    rw [List.Nodup, List.pairwise_map] at segments ⊢
    refine segments.imp ?_
    intro r r' ne heq
    exact ne (Pattern.segments_eq_iff.mpr heq)
  words_iff := by
    intro words
    constructor
    · rintro ⟨r, hr, rfl⟩
      obtain ⟨first, hfirst, hpattern⟩ := h.getElem?_firstPlace hr
      refine ⟨first.registration, List.mem_map_of_mem (List.mem_of_getElem? hfirst), ?_⟩
      rw [PathRoute.words, hpattern]
      rfl
    · rintro ⟨registration, hregistration, rfl⟩
      obtain ⟨d, hd, rfl⟩ := List.mem_map.mp hregistration
      obtain ⟨r, hr, hkey⟩ := h.exists_route d hd
      exact ⟨r, hr, Pattern.key_eq_iff_segments_template.mp hkey⟩
  sorted := by
    simp only [rank_eq]
    exact h.sorted
  order_eq := h.numbered
  entry := by
    intro r hr
    obtain ⟨first, hfirst, hpattern⟩ := h.getElem?_firstPlace hr
    refine ⟨first.registration, ?_, by rw [hpattern]; rfl, ?_⟩
    · rw [firstPlace, ← List.find?_eq_getElem?_findIdx] at hfirst
      simp only [Pattern.key_eq_iff_segments_template] at hfirst
      rw [List.find?_map]
      exact congrArg (Option.map Definition.registration) hfirst
    · rw [filter_registration, filter_registration, List.map_map, List.map_map,
        h.methodRoutes_eq_append hr, hpattern]
      rfl

end Tabulates

namespace Group

theorem sum_length_place (d : Definition η) (groups : List (Group η)) :
    ((place d groups).map fun g => g.toList.length).sum =
      (groups.map fun g => g.toList.length).sum + 1 := by
  induction groups with
  | nil => rfl
  | cons g rest ih =>
      rw [place]
      split
      · simp only [List.map_cons, List.sum_cons, toList, List.length_cons, List.length_append,
          List.length_nil]
        omega
      · rw [List.map_cons, List.sum_cons, ih, List.map_cons, List.sum_cons]
        omega

theorem sum_length_ofDefinitions (definitions : List (Definition η)) :
    ((ofDefinitions definitions).map fun g => g.toList.length).sum = definitions.length := by
  induction definitions using List.reverseRecOn with
  | nil => rfl
  | append_singleton definitions d ih =>
      rw [ofDefinitions_append_singleton, sum_length_place, ih, List.length_append,
        List.length_singleton]

end Group

theorem Builder.sum_length_table (b : Builder η) :
    (b.table.map fun r => r.methodRoutes.length).sum = b.size := by
  have lengths (groups : List (Group η)) : (groups.mapIdx fun order g =>
      PathRoute.ofDefinitions order g.first g.rest).map (fun r => r.methodRoutes.length) =
        groups.map fun g => g.toList.length := by
    apply List.ext_getElem <;> simp [PathRoute.ofDefinitions, Group.toList]
  rw [table, lengths, List.map_append, List.sum_append, Group.sum_length_ofDefinitions,
    Group.sum_length_ofDefinitions, size]

theorem Router.policy_ofRoutes_eq_segmentTree_iff (policy : Policy) (routes : List (PathRoute η))
    (definitions : Nat) :
    (ofRoutes policy routes definitions).policy = .segmentTree ↔ policy = .segmentTree := by
  cases policy <;> simp [ofRoutes, Router.policy]

theorem Config.resolve_eq_segmentTree_iff (config : Config) (pathRoutes : Nat) :
    config.resolve pathRoutes = .segmentTree ↔ config.policy = .segmentTree ∨
      config.policy = .auto ∧ config.threshold < pathRoutes := by
  rw [resolve]
  cases config.policy with
  | auto =>
      by_cases small : pathRoutes ≤ config.threshold
      · simp [small]
      · simp [small, Nat.lt_of_not_le small]
  | simple => simp
  | segmentTree => simp

/-- The table of a router groups the registrations that it was built from, each in one place. It is
searched as a tree if the configuration says so, or leaves it to the size of the table. -/
theorem groups_of_registerAll {config : Config} {registrations : List (Registration η)}
    {b : Builder η} (h : Builder.registerAll { config := config } registrations = .ok b) :
    Groups registrations b.build.pathRoutes ∧
    (b.build.pathRoutes.map fun r => r.methodRoutes.length).sum = b.build.definitions ∧
    b.build.definitions = registrations.length ∧
    (b.build.policy = .segmentTree ↔ config.policy = .segmentTree ∨
      config.policy = .auto ∧ config.threshold < b.build.pathRoutes.length) := by
  obtain ⟨definitions, rfl, rfl⟩ := Builder.registerAll_eq_ok_iff.mp h
  have hconfig := Builder.config_foldl_addDefinition { config := config } definitions
  refine ⟨?_, ?_, ?_, ?_⟩
  · rw [Builder.pathRoutes_build]
    exact (Builder.tabulates_table config definitions).groups
  · rw [Builder.pathRoutes_build, Builder.sum_length_table, Builder.definitions_build]
  · rw [Builder.definitions_build, Builder.size_foldl_addDefinition, List.length_map]
    exact Nat.zero_add _
  · rw [Builder.pathRoutes_build, Builder.build, Router.policy_ofRoutes_eq_segmentTree_iff, hconfig,
      Config.resolve_eq_segmentTree_iff]

/-- Three spellings of two templates. The first one with its segments is reported, and explicit
methods come first. -/
theorem groups_of_registerAll_of_spellings : ∃ b : Builder String,
    Builder.registerAll { config := { threshold := 1 } } [⟨"/users/\x7bid\x7d", .any, "item"⟩,
      ⟨"//users", .any, "any"⟩, ⟨"users/\x7bid\x7d/", .only [.get], "get"⟩,
      ⟨"/users", .only [.post], "post"⟩] = .ok b ∧
    Groups [⟨"/users/\x7bid\x7d", .any, "item"⟩, ⟨"//users", .any, "any"⟩,
      ⟨"users/\x7bid\x7d/", .only [.get], "get"⟩, ⟨"/users", .only [.post], "post"⟩]
      b.build.pathRoutes ∧
    b.build.pathRoutes.map PathRoute.methodRoutes =
      [[⟨.only [.post], "post", ⟨"POST", "//users"⟩⟩, ⟨.any, "any", ⟨"*", "//users"⟩⟩],
        [⟨.only [.get], "get", ⟨"GET", "/users/\x7bid\x7d"⟩⟩,
          ⟨.any, "item", ⟨"*", "/users/\x7bid\x7d"⟩⟩]] ∧
    b.build.policy = .segmentTree := by
  have h : Builder.registerAll { config := { threshold := 1 } }
      [⟨"/users/\x7bid\x7d", .any, "item"⟩, ⟨"//users", .any, "any"⟩,
        ⟨"users/\x7bid\x7d/", .only [.get], "get"⟩, ⟨"/users", .only [.post], "post"⟩] = .ok _ :=
    rfl
  obtain ⟨groups, -, -, tree⟩ := groups_of_registerAll h
  exact ⟨_, h, groups, rfl, tree.mpr (.inr ⟨rfl, by decide⟩)⟩

end HttpRouting
