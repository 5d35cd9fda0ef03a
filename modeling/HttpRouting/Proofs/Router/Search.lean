import HttpRouting.Router.Basic

/-!
# Searches in any order

A search may try the path routes of a table in any order and leave out those that stand after its
hit. If every path route whose pattern matches was tried or left out in this way, the search gives
the answer of the scan.
-/

namespace HttpRouting

variable {η : Type}

def Numbered (routes : List (PathRoute η)) : Prop :=
  ∀ (i : Nat) (r : PathRoute η), routes[i]? = some r → r.order = i

namespace Numbered

variable {routes : List (PathRoute η)}

theorem getElem?_order (numbered : Numbered routes) {r : PathRoute η} (h : r ∈ routes) :
    routes[r.order]? = some r := by
  obtain ⟨i, hi⟩ := List.mem_iff_getElem?.mp h
  rw [numbered i r hi, hi]

theorem eq_of_order_eq (numbered : Numbered routes) {r r' : PathRoute η} (h : r ∈ routes)
    (h' : r' ∈ routes) (heq : r.order = r'.order) : r = r' := by
  have hr := numbered.getElem?_order h
  rw [heq, numbered.getElem?_order h'] at hr
  exact (Option.some.inj hr).symm

theorem pairwise_order_lt (numbered : Numbered routes) :
    routes.Pairwise fun r r' => r.order < r'.order := by
  rw [List.pairwise_iff_getElem]
  intro i j hi hj hij
  rw [numbered i _ (List.getElem?_eq_getElem hi), numbered j _ (List.getElem?_eq_getElem hj)]
  exact hij

end Numbered

theorem PathRoute.pathRoute_of_hit? {r : PathRoute η} {m : Method} {path : String}
    {found : RouteMatch η} (h : r.hit? m path = some found) : found.pathRoute = r := by
  rw [hit?_eq] at h
  obtain ⟨methodRoute, -, h⟩ := Option.bind_eq_some_iff.mp h
  obtain ⟨bindings, -, rfl⟩ := Option.map_eq_some_iff.mp h
  rfl

namespace Search

variable {routes : List (PathRoute η)} {m : Method} {path : String}

/-- What a search has found is what its attempts have found. -/
structure Sound (routes : List (PathRoute η)) (m : Method) (path : String) (s : Search η) :
    Prop where
  hit_mem : ∀ found, s.hit = some found → ∃ r ∈ routes, r.hit? m path = some found
  hit_le : ∀ r ∈ routes, r.order ∈ s.attempted → (r.hit? m path).isSome →
    ∃ found, s.hit = some found ∧ found.pathRoute.order ≤ r.order
  pathMatched_iff : s.pathMatched = true ↔
    ∃ r ∈ routes, r.order ∈ s.attempted ∧ r.attempt m path = .pathMatched

/-- A path route that was tried, or that stands after the hit. -/
def Covers (s : Search η) (r : PathRoute η) : Prop :=
  r.order ∈ s.attempted ∨ s.hitBefore r.order = true

theorem hitBefore_eq_true_iff {s : Search η} {order : Nat} :
    s.hitBefore order = true ↔ ∃ found, s.hit = some found ∧ found.pathRoute.order < order := by
  unfold hitBefore
  cases s.hit <;> simp

theorem sound_empty (routes : List (PathRoute η)) (m : Method) (path : String) :
    Sound routes m path {} where
  hit_mem := by simp
  hit_le := by simp
  pathMatched_iff := by simp

theorem attempted_attempt (s : Search η) (r : PathRoute η) :
    (s.attempt m path r).attempted = r.order :: s.attempted := by
  unfold attempt
  dsimp only
  split
  · split <;> rfl
  · rfl
  · rfl

theorem pathMatched_attempt_iff (s : Search η) (r : PathRoute η) :
    (s.attempt m path r).pathMatched = true ↔
      s.pathMatched = true ∨ r.attempt m path = .pathMatched := by
  unfold attempt
  dsimp only
  split
  · next h => split <;> simp [h]
  · next h => simp [h]
  · next h => simp [h]

theorem hit_attempt_of_none {s : Search η} {r : PathRoute η} (h : r.hit? m path = none) :
    (s.attempt m path r).hit = s.hit := by
  rw [attempt, PathRoute.attempt_of_hit?_eq_none h]
  cases r.pattern.isMatch path <;> rfl

theorem hit_attempt_of_some {s : Search η} {r : PathRoute η} {found : RouteMatch η}
    (h : r.hit? m path = some found) :
    ∃ best, (s.attempt m path r).hit = some best ∧
      (s.hit = some best ∧ best.pathRoute.order ≤ r.order ∨
        best = found ∧ ∀ present, s.hit = some present → r.order < present.pathRoute.order) := by
  rw [attempt, PathRoute.hit?_eq_some_iff.mp h]
  dsimp only
  split
  · next hall =>
    refine ⟨found, rfl, .inr ⟨rfl, ?_⟩⟩
    intro present hpresent
    rw [hpresent] at hall
    simpa using hall
  · next hall =>
    cases hs : s.hit with
    | none => simp [hs] at hall
    | some present =>
        refine ⟨present, rfl, .inl ⟨rfl, ?_⟩⟩
        simpa [hs] using hall

theorem hit_attempt_le (m : Method) (path : String) (r : PathRoute η) {s : Search η}
    {present : RouteMatch η} (h : s.hit = some present) :
    ∃ best, (s.attempt m path r).hit = some best ∧
      best.pathRoute.order ≤ present.pathRoute.order := by
  cases hr : r.hit? m path with
  | none => exact ⟨present, by rw [hit_attempt_of_none hr, h], Nat.le_refl _⟩
  | some found =>
      obtain ⟨best, hbest, ⟨hs, -⟩ | ⟨rfl, later⟩⟩ := hit_attempt_of_some (s := s) hr
      · rw [h] at hs
        cases hs
        exact ⟨present, hbest, Nat.le_refl _⟩
      · refine ⟨best, hbest, ?_⟩
        rw [PathRoute.pathRoute_of_hit? hr]
        exact Nat.le_of_lt (later present h)

theorem sound_attempt (numbered : Numbered routes) {s : Search η} (sound : Sound routes m path s)
    {r : PathRoute η} (hr : r ∈ routes) : Sound routes m path (s.attempt m path r) where
  hit_mem := by
    intro found hfound
    cases hit : r.hit? m path with
    | none =>
        rw [hit_attempt_of_none hit] at hfound
        exact sound.hit_mem found hfound
    | some new =>
        obtain ⟨best, hbest, ⟨hs, -⟩ | ⟨rfl, -⟩⟩ := hit_attempt_of_some (s := s) hit
        · rw [hfound] at hbest
          cases hbest
          exact sound.hit_mem found hs
        · rw [hfound] at hbest
          cases hbest
          exact ⟨r, hr, hit⟩
  hit_le := by
    intro tried htried hmem hsome
    rw [attempted_attempt, List.mem_cons] at hmem
    rcases hmem with horder | hmem
    · obtain rfl := numbered.eq_of_order_eq htried hr horder
      obtain ⟨new, hit⟩ := Option.isSome_iff_exists.mp hsome
      obtain ⟨best, hbest, ⟨-, hle⟩ | ⟨rfl, -⟩⟩ := hit_attempt_of_some (s := s) hit
      · exact ⟨best, hbest, hle⟩
      · have hroute := PathRoute.pathRoute_of_hit? hit
        exact ⟨best, hbest, Nat.le_of_eq (congrArg PathRoute.order hroute)⟩
    · obtain ⟨present, hpresent, hle⟩ := sound.hit_le tried htried hmem hsome
      obtain ⟨best, hbest, hbest'⟩ := hit_attempt_le m path r hpresent
      exact ⟨best, hbest, Nat.le_trans hbest' hle⟩
  pathMatched_iff := by
    rw [pathMatched_attempt_iff, sound.pathMatched_iff, attempted_attempt]
    constructor
    · rintro (⟨tried, htried, hmem, h⟩ | h)
      · exact ⟨tried, htried, List.mem_cons_of_mem _ hmem, h⟩
      · exact ⟨r, hr, List.mem_cons_self, h⟩
    · rintro ⟨tried, htried, hmem, h⟩
      rcases List.mem_cons.mp hmem with horder | hmem
      · obtain rfl := numbered.eq_of_order_eq htried hr horder
        exact .inr h
      · exact .inl ⟨tried, htried, hmem, h⟩

theorem covers_attempt_self (s : Search η) (r : PathRoute η) : (s.attempt m path r).Covers r := by
  left
  rw [attempted_attempt]
  exact List.mem_cons_self

theorem Covers.attempt {s : Search η} {r : PathRoute η} (h : s.Covers r) (tried : PathRoute η) :
    (s.attempt m path tried).Covers r := by
  rcases h with hmem | hbefore
  · left
    rw [attempted_attempt]
    exact List.mem_cons_of_mem _ hmem
  · right
    obtain ⟨present, hpresent, hlt⟩ := hitBefore_eq_true_iff.mp hbefore
    obtain ⟨best, hbest, hle⟩ := hit_attempt_le m path tried hpresent
    exact hitBefore_eq_true_iff.mpr ⟨best, hbest, Nat.lt_of_le_of_lt hle hlt⟩

/-- A property of searches that no attempt of a path route of the table destroys. -/
def Kept (routes : List (PathRoute η)) (m : Method) (path : String) (P : Search η → Prop) : Prop :=
  ∀ s, ∀ r ∈ routes, P s → P (s.attempt m path r)

theorem kept_sound (numbered : Numbered routes) : Kept routes m path (Sound routes m path) :=
  fun _ _ hr sound => sound_attempt numbered sound hr

theorem kept_covers (r : PathRoute η) : Kept routes m path (Covers · r) :=
  fun _ tried _ h => h.attempt tried

section Kept

variable {P : Search η → Prop}

theorem Kept.attemptAt (kept : Kept routes m path P) (index : Nat) {s : Search η} (h : P s) :
    P (s.attemptAt routes m path index) := by
  unfold Search.attemptAt
  split
  · exact h
  · next r hr => exact kept s r (List.mem_of_getElem? hr) h

theorem Kept.attemptWhileBefore (kept : Kept routes m path P) (indices : List Nat) {s : Search η}
    (h : P s) : P (attemptWhileBefore routes m path indices s) := by
  induction indices generalizing s with
  | nil => exact h
  | cons index rest ih =>
      rw [Search.attemptWhileBefore]
      split
      · exact ih h
      · next r hr =>
        split
        · exact h
        · exact ih (kept s r (List.mem_of_getElem? hr) h)

end Kept

theorem covers_attemptAt {s : Search η} {index : Nat} {r : PathRoute η}
    (hr : routes[index]? = some r) : (s.attemptAt routes m path index).Covers r := by
  rw [attemptAt, hr]
  exact covers_attempt_self s r

theorem covers_attemptWhileBefore (numbered : Numbered routes) {indices : List Nat}
    (sorted : indices.Pairwise (· < ·)) {s : Search η} {index : Nat} (hmem : index ∈ indices)
    {r : PathRoute η} (hr : routes[index]? = some r) :
    (attemptWhileBefore routes m path indices s).Covers r := by
  induction indices generalizing s with
  | nil => simp at hmem
  | cons first rest ih =>
      rw [List.pairwise_cons] at sorted
      rw [attemptWhileBefore]
      split
      · next hnone =>
        rcases List.mem_cons.mp hmem with rfl | hmem
        · rw [hr] at hnone
          cases hnone
        · exact ih sorted.2 hmem
      · next tried htried =>
        split
        · next hbefore =>
          right
          obtain ⟨present, hpresent, hlt⟩ := hitBefore_eq_true_iff.mp hbefore
          refine hitBefore_eq_true_iff.mpr ⟨present, hpresent, Nat.lt_of_lt_of_le hlt ?_⟩
          rw [numbered first tried htried, numbered index r hr]
          rcases List.mem_cons.mp hmem with rfl | hmem
          · exact Nat.le_refl _
          · exact Nat.le_of_lt (sorted.1 index hmem)
        · rcases List.mem_cons.mp hmem with rfl | hmem
          · rw [hr] at htried
            cases htried
            exact (kept_covers r).attemptWhileBefore rest (covers_attempt_self s r)
          · exact ih sorted.2 hmem

/-- A search that leaves out nothing that could precede its hit answers as the scan does. -/
theorem routing_eq_scan (numbered : Numbered routes) {s : Search η}
    (sound : Sound routes m path s)
    (covers : ∀ r ∈ routes, r.pattern.isMatch path = true → s.Covers r) :
    s.routing = scan routes m path := by
  rw [scan_eq, routing]
  cases hscan : routes.findSome? (PathRoute.hit? · m path) with
  | some found =>
      obtain ⟨front, r, back, rfl, hit, misses⟩ := List.findSome?_eq_some_iff.mp hscan
      have hr : r ∈ front ++ r :: back := by simp
      -- the search has a hit that stands at most as late as the first one of the table
      have hbest : ∃ best, s.hit = some best ∧ best.pathRoute.order ≤ r.order := by
        rcases covers r hr (PathRoute.isMatch_of_hit? hit) with hmem | hbefore
        · exact sound.hit_le r hr hmem (by rw [hit]; rfl)
        · obtain ⟨best, hbest, hlt⟩ := hitBefore_eq_true_iff.mp hbefore
          exact ⟨best, hbest, Nat.le_of_lt hlt⟩
      obtain ⟨best, hbest, hle⟩ := hbest
      obtain ⟨r', hr', hit'⟩ := sound.hit_mem best hbest
      rw [PathRoute.pathRoute_of_hit? hit'] at hle
      have same : r' = r := by
        have sorted := (List.pairwise_append.mp numbered.pairwise_order_lt).2.1
        rw [List.pairwise_cons] at sorted
        rcases List.mem_append.mp hr' with hfront | hback
        · rw [misses r' hfront] at hit'
          cases hit'
        · rcases List.mem_cons.mp hback with rfl | hback
          · rfl
          · exact absurd (sorted.1 r' hback) (Nat.not_lt.mpr hle)
      rw [same, hit] at hit'
      cases hit'
      rw [hbest]
  | none =>
      have misses := List.findSome?_eq_none_iff.mp hscan
      cases hs : s.hit with
      | some best =>
          obtain ⟨r, hr, hit⟩ := sound.hit_mem best hs
          rw [misses r hr] at hit
          cases hit
      | none =>
          have hiff : s.pathMatched = routes.any fun r => r.pattern.isMatch path := by
            rw [Bool.eq_iff_iff, sound.pathMatched_iff, List.any_eq_true]
            constructor
            · rintro ⟨r, hr, -, h⟩
              refine ⟨r, hr, ?_⟩
              rw [PathRoute.attempt_of_hit?_eq_none (misses r hr)] at h
              split at h
              · assumption
              · cases h
            · rintro ⟨r, hr, hmatch⟩
              refine ⟨r, hr, ?_, ?_⟩
              · rcases covers r hr hmatch with hmem | hbefore
                · exact hmem
                · obtain ⟨best, hbest, -⟩ := hitBefore_eq_true_iff.mp hbefore
                  rw [hs] at hbest
                  cases hbest
              · rw [PathRoute.attempt_of_hit?_eq_none (misses r hr), if_pos hmatch]
          simp [hiff]

end Search

end HttpRouting
