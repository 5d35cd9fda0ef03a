import HttpRouting.Proofs.Router.Answer

/-!
# Registrations that do not interfere

What a router decides about a path depends only on the definitions whose patterns match it, in their
order. So a registration that does not match a path can stand anywhere or be left out, and two
neighbours can change places unless both match a common path and both stand among the templates
without variables or both among those with some.
-/

namespace HttpRouting

variable {η : Type}

/-- What a caller is told: the handler, how its route is reported, and the bound variables. Where
the route stands in the table is left out. -/
inductive Decision (η : Type) where
  | matched (handler : η) (route : MatchedRoute) (bindings : Variables)
  | methodNotAllowed
  | notMatched

def Routing.decision : Routing η → Decision η
  | .matched found =>
      .matched found.methodRoute.handler found.methodRoute.route found.bindings
  | .methodNotAllowed => .methodNotAllowed
  | .notMatched => .notMatched

def Attempt.before (a : Attempt η) (later : Decision η) : Decision η :=
  match a, later with
  | .hit found, _ => (Routing.matched found).decision
  | .pathMatched, .notMatched => .methodNotAllowed
  | .pathMatched, later => later
  | .miss, later => later

theorem decision_scan_cons (r : PathRoute η) (rest : List (PathRoute η)) (m : Method)
    (path : String) : (scan (r :: rest) m path).decision =
      (r.attempt m path).before (scan rest m path).decision := by
  cases hr : r.attempt m path with
  | miss =>
      rw [scan_cons_of_miss hr]
      rfl
  | hit found =>
      rw [scan_cons_of_hit hr]
      rfl
  | pathMatched =>
      have hhit : r.hit? m path = none := by rw [PathRoute.hit?, hr]
      have hmatch : r.pattern.isMatch path = true := by
        rw [← Bool.not_eq_false, ← r.attempt_eq_miss_iff m path, hr]
        simp
      rw [scan_eq, scan_eq, List.findSome?_cons, hhit, List.any_cons, hmatch, Bool.true_or]
      cases rest.findSome? (PathRoute.hit? · m path) with
      | some found => rfl
      | none => cases rest.any fun r => r.pattern.isMatch path <;> rfl

namespace PathRoute

def moved (order : Nat) (r : PathRoute η) : PathRoute η := { r with order := order }

theorem before_attempt_moved (order : Nat) (r : PathRoute η) (m : Method) (path : String)
    (later : Decision η) :
    ((r.moved order).attempt m path).before later = (r.attempt m path).before later := by
  have hfind : (r.moved order).find? m = r.find? m := rfl
  have hcaptures : (r.moved order).pattern.captures path = r.pattern.captures path := rfl
  rw [attempt, attempt, hfind, hcaptures]
  cases r.find? m with
  | none => rfl
  | some methodRoute =>
      dsimp only
      cases r.pattern.captures path <;> rfl

end PathRoute

namespace Group

def pathRoute (g : Group η) : PathRoute η := PathRoute.ofDefinitions 0 g.first g.rest

def decision (groups : List (Group η)) (m : Method) (path : String) : Decision η :=
  groups.foldr (fun g later => (g.pathRoute.attempt m path).before later) .notMatched

theorem decision_cons (g : Group η) (groups : List (Group η)) (m : Method) (path : String) :
    decision (g :: groups) m path = (g.pathRoute.attempt m path).before (decision groups m path) := rfl

/-- The places that the groups have in a table do not show in its decisions. -/
theorem decision_scan_mapIdx (groups : List (Group η)) (place : Nat → Nat) (m : Method)
    (path : String) :
    (scan (groups.mapIdx fun i g => PathRoute.ofDefinitions (place i) g.first g.rest) m
      path).decision = decision groups m path := by
  induction groups generalizing place with
  | nil => rfl
  | cons g groups ih =>
      have own : PathRoute.ofDefinitions (place 0) g.first g.rest =
          g.pathRoute.moved (place 0) := rfl
      rw [List.mapIdx_cons, decision_scan_cons, own, PathRoute.before_attempt_moved, decision_cons,
        ih fun i => place (i + 1)]

/-- Groups whose pattern does not match a path take no part in the decision about it. -/
theorem decision_filter (groups : List (Group η)) (m : Method) (path : String) :
    decision (groups.filter fun g => g.first.pattern.isMatch path) m path = decision groups m path := by
  induction groups with
  | nil => rfl
  | cons g groups ih =>
      rw [decision_cons, ← ih, List.filter_cons]
      split
      · rfl
      · next hmiss =>
        rw [Bool.not_eq_true] at hmiss
        rw [(g.pathRoute.attempt_eq_miss_iff m path).mpr hmiss]
        rfl

section Filter

variable {P : Definition η → Bool}
  (respects : ∀ d d' : Definition η, d.pattern.key = d'.pattern.key → P d = P d')

include respects

theorem filter_place_of_eq_true {d : Definition η} (hd : P d = true) (groups : List (Group η)) :
    (place d groups).filter (fun g => P g.first) = place d (groups.filter fun g => P g.first) := by
  induction groups with
  | nil => simp [place, hd]
  | cons g groups ih =>
      rw [place]
      by_cases hkey : g.first.pattern.key = d.pattern.key
      · have hg : P g.first = true := (respects _ _ hkey).trans hd
        rw [if_pos hkey, List.filter_cons, List.filter_cons, if_pos hg, if_pos hg, place,
          if_pos hkey]
      · rw [if_neg hkey, List.filter_cons, List.filter_cons, ih]
        split
        · rw [place, if_neg hkey]
        · rfl

theorem filter_place_of_eq_false {d : Definition η} (hd : P d = false) (groups : List (Group η)) :
    (place d groups).filter (fun g => P g.first) = groups.filter fun g => P g.first := by
  induction groups with
  | nil => simp [place, hd]
  | cons g groups ih =>
      rw [place]
      by_cases hkey : g.first.pattern.key = d.pattern.key
      · have hg : P g.first = false := (respects _ _ hkey).trans hd
        rw [if_pos hkey, List.filter_cons, List.filter_cons, hg]
        rfl
      · rw [if_neg hkey, List.filter_cons, List.filter_cons, ih]

theorem ofDefinitions_filter (definitions : List (Definition η)) :
    ofDefinitions (definitions.filter P) =
      (ofDefinitions definitions).filter fun g => P g.first := by
  induction definitions using List.reverseRecOn with
  | nil => rfl
  | append_singleton definitions d ih =>
      rw [ofDefinitions_append_singleton, List.filter_append, List.filter_singleton]
      cases hd : P d with
      | false => rw [filter_place_of_eq_false respects hd, cond_false, List.append_nil, ih]
      | true =>
          rw [filter_place_of_eq_true respects hd, cond_true, ofDefinitions_append_singleton, ih]

end Filter

end Group

namespace Builder

def decision (config : Config) (definitions : List (Definition η)) (m : Method) (path : String) :
    Decision η :=
  ((definitions.foldl addDefinition { config := config }).build.routing m path).decision

theorem decision_eq (config : Config) (definitions : List (Definition η)) (m : Method)
    (path : String) : decision config definitions m path =
      Group.decision (Group.ofDefinitions (definitions.filter fun d => !d.pattern.hasVariables) ++
        Group.ofDefinitions (definitions.filter fun d => d.pattern.hasVariables)) m path := by
  have tabulates := tabulates_table config definitions
  rw [decision, build, Router.routing_ofRoutes tabulates.isTable, table,
    fixed_foldl_addDefinition, patterned_foldl_addDefinition, List.nil_append, List.nil_append]
  exact Group.decision_scan_mapIdx _ (fun i => i) m path

/-- A router decides about a path as one that has only the definitions that match the path. -/
theorem decision_filter_isMatch (config : Config) (definitions : List (Definition η)) (m : Method)
    (path : String) :
    decision config (definitions.filter fun d => d.pattern.isMatch path) m path =
      decision config definitions m path := by
  have respects (d d' : Definition η) (h : d.pattern.key = d'.pattern.key) :
      d.pattern.isMatch path = d'.pattern.isMatch path := Pattern.isMatch_eq_of_key_eq h path
  rw [decision_eq, decision_eq, List.filter_comm, Group.ofDefinitions_filter respects,
    List.filter_comm, Group.ofDefinitions_filter respects, ← List.filter_append,
    Group.decision_filter]

theorem decision_insert_of_isMatch_eq_false (config : Config) (before after : List (Definition η))
    {d : Definition η} {path : String} (h : d.pattern.isMatch path = false) (m : Method) :
    decision config (before ++ d :: after) m path = decision config (before ++ after) m path := by
  rw [← decision_filter_isMatch, ← decision_filter_isMatch config (before ++ after),
    List.filter_append, List.filter_append, List.filter_cons_of_neg (by rw [h]; exact nofun)]

theorem addDefinition_comm (b : Builder η) {d e : Definition η}
    (h : d.pattern.hasVariables ≠ e.pattern.hasVariables) :
    (b.addDefinition d).addDefinition e = (b.addDefinition e).addDefinition d := by
  unfold addDefinition
  cases hd : d.pattern.hasVariables <;> cases he : e.pattern.hasVariables <;> simp_all

theorem decision_swap (config : Config) (before after : List (Definition η)) {d e : Definition η}
    {path : String} (independent : d.pattern.hasVariables ≠ e.pattern.hasVariables ∨
      ¬(d.pattern.isMatch path = true ∧ e.pattern.isMatch path = true)) (m : Method) :
    decision config (before ++ d :: e :: after) m path =
      decision config (before ++ e :: d :: after) m path := by
  have split (x y : Definition η) : before ++ x :: y :: after = (before ++ [x]) ++ y :: after := by
    rw [List.append_assoc, List.singleton_append]
  rcases independent with apart | disjoint
  · rw [decision, decision, List.foldl_append, List.foldl_append, List.foldl_cons, List.foldl_cons,
      List.foldl_cons, List.foldl_cons, addDefinition_comm _ apart]
  · by_cases hd : d.pattern.isMatch path = true
    · have he : e.pattern.isMatch path = false := by
        rw [← Bool.not_eq_true]
        exact fun he => disjoint ⟨hd, he⟩
      rw [split d e, decision_insert_of_isMatch_eq_false _ _ _ he,
        decision_insert_of_isMatch_eq_false _ _ _ he, List.append_assoc, List.singleton_append]
    · rw [Bool.not_eq_true] at hd
      rw [split e d, decision_insert_of_isMatch_eq_false _ _ _ hd,
        decision_insert_of_isMatch_eq_false _ _ _ hd, List.append_assoc, List.singleton_append]

theorem decision_registerEach (config : Config) (registrations : List (Registration η)) (m : Method)
    (path : String) :
    ((registerEach { config := config } registrations).build.routing m path).decision =
      decision config (registrations.filterMap Registration.definition?) m path := by
  rw [registerEach_eq, decision]

end Builder

/-- A registration whose template does not match a path, wherever it stands among the others, leaves
what the router decides about the path as it is without it. -/
theorem routing_insert_of_not_fits (config : Config) (before after : List (Registration η))
    {r : Registration η} {path : String} (h : r.fits path = false) (m : Method) :
    ((Builder.registerEach { config := config } (before ++ r :: after)).build.routing m
      path).decision =
    ((Builder.registerEach { config := config } (before ++ after)).build.routing m
      path).decision := by
  rw [Builder.decision_registerEach, Builder.decision_registerEach, List.filterMap_append,
    List.filterMap_append]
  cases hr : r.definition? with
  | none => rw [List.filterMap_cons_none hr]
  | some d =>
      have hmiss : d.pattern.isMatch path = false := by simpa [Registration.fits, hr] using h
      rw [List.filterMap_cons_some hr, Builder.decision_insert_of_isMatch_eq_false _ _ _ hmiss]

/-- The added registration makes the table large enough to be searched as a tree. -/
theorem routing_insert_of_larger_table : ∃ item other : Registration String,
    other.fits "/b/7" = false ∧
    (Builder.registerEach { config := { threshold := 1 } } [item]).build.policy = .simple ∧
    (Builder.registerEach { config := { threshold := 1 } } [other, item]).build.policy =
      .segmentTree ∧
    ((Builder.registerEach { config := { threshold := 1 } } [other, item]).build.routing .get
      "/b/7").decision =
    ((Builder.registerEach { config := { threshold := 1 } } [item]).build.routing .get
      "/b/7").decision ∧
    ((Builder.registerEach { config := { threshold := 1 } } [item]).build.routing .get
      "/b/7").decision =
      .matched "item" ⟨"GET", "/b/\x7bid\x7d"⟩ (Variables.ofPairs [("id", "7")]) := by
  refine ⟨⟨"/b/\x7bid\x7d", .only [.get], "item"⟩, ⟨"/c", .any, "other"⟩, rfl, rfl, rfl, ?_, rfl⟩
  exact routing_insert_of_not_fits { threshold := 1 } [] _ rfl .get

/-- Two neighbouring registrations can change places if only one template has variables, or if no
path is matched by both. -/
theorem routing_swap (config : Config) (before after : List (Registration η))
    {r s : Registration η} (independent : r.hasVariables ≠ s.hasVariables ∨
      ∀ path, ¬(r.fits path = true ∧ s.fits path = true)) (m : Method) (path : String) :
    ((Builder.registerEach { config := config } (before ++ r :: s :: after)).build.routing m
      path).decision =
    ((Builder.registerEach { config := config } (before ++ s :: r :: after)).build.routing m
      path).decision := by
  rw [Builder.decision_registerEach, Builder.decision_registerEach, List.filterMap_append,
    List.filterMap_append]
  cases hr : r.definition? with
  | none => simp only [List.filterMap_cons, hr]
  | some d =>
      cases hs : s.definition? with
      | none => simp only [List.filterMap_cons, hr, hs]
      | some e =>
          rw [r.eq_registration hr, s.eq_registration hs] at independent
          simp only [List.filterMap_cons, hr, hs]
          apply Builder.decision_swap
          rcases independent with apart | disjoint
          · left
            simpa using apart
          · right
            simpa using disjoint path

/-- A later registration with the segments of one of the two moves with it in the table; no path has
both one segment and two. -/
theorem routing_swap_of_lengths : ∃ one two late : Registration String,
    (∀ path, ¬(one.fits path = true ∧ two.fits path = true)) ∧
    ((Builder.registerEach {} [one, two, late]).build.routing .post "/a/b").decision =
      ((Builder.registerEach {} [two, one, late]).build.routing .post "/a/b").decision ∧
    ((Builder.registerEach {} [two, one, late]).build.routing .post "/a/b").decision =
      .matched "late" ⟨"POST", "/\x7bx\x7d/\x7by\x7d"⟩
        (Variables.ofPairs [("x", "a"), ("y", "b")]) := by
  let one : Definition String :=
    ⟨⟨"/\x7bx\x7d", [[.variable ['x']]], rfl⟩, .only [.get], "one"⟩
  let two : Definition String :=
    ⟨⟨"/\x7bx\x7d/\x7by\x7d", [[.variable ['x']], [.variable ['y']]], rfl⟩, .only [.get], "two"⟩
  have disjoint (path : String) :
      ¬(one.registration.fits path = true ∧ two.registration.fits path = true) := by
    rw [Registration.fits_registration, Registration.fits_registration]
    rintro ⟨h₁, h₂⟩
    obtain ⟨value₁, -, fills₁⟩ := Pattern.isMatch_iff_exists_fills.mp h₁
    obtain ⟨value₂, -, fills₂⟩ := Pattern.isMatch_iff_exists_fills.mp h₂
    have lengths := congrArg List.length (fills₁.trans fills₂.symm)
    rw [List.length_map, List.length_map] at lengths
    exact absurd lengths (by decide)
  refine ⟨⟨"/\x7bx\x7d", .only [.get], "one"⟩, ⟨"/\x7bx\x7d/\x7by\x7d", .only [.get], "two"⟩,
    ⟨"\x7bx\x7d//\x7by\x7d", .only [.post], "late"⟩, disjoint, ?_, rfl⟩
  exact routing_swap {} [] _ (.inr disjoint) .post "/a/b"

end HttpRouting
