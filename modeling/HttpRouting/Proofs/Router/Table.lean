import HttpRouting.Proofs.Router.Lookup
import HttpRouting.Proofs.Router.Registration
import Mathlib.Data.Bool.Basic
import Mathlib.Data.Prod.Lex

/-!
# The table of a list of definitions

A table has one path route for each list of segments, made of the definitions with these segments in
the order of their registration. The path routes without variables come first, and otherwise the
place of the first definition with the segments decides.
-/

namespace HttpRouting

variable {η : Type}

theorem Pattern.hasVariables_eq_of_key_eq {p q : Pattern} (h : p.key = q.key) :
    p.hasVariables = q.hasVariables := by
  rw [hasVariables, hasVariables, names, names, key_eq_iff.mp h]

def firstPlace (definitions : List (Definition η)) (key : String) : Nat :=
  definitions.findIdx fun d => d.pattern.key = key

theorem firstPlace_append_singleton {definitions : List (Definition η)} {d : Definition η}
    (h : d ∈ definitions) (last : Definition η) :
    firstPlace (definitions ++ [last]) d.pattern.key = firstPlace definitions d.pattern.key := by
  rw [firstPlace, List.findIdx_append, if_pos]
  · rfl
  · exact List.findIdx_lt_length_of_exists ⟨d, h, by simp⟩

theorem firstPlace_lt {definitions : List (Definition η)} {d : Definition η}
    (h : d ∈ definitions) : firstPlace definitions d.pattern.key < definitions.length :=
  List.findIdx_lt_length_of_exists ⟨d, h, by simp⟩

namespace Group

def add (d : Definition η) (g : Group η) : Group η :=
  if g.first.pattern.key = d.pattern.key then ⟨g.first, g.rest ++ [d]⟩ else g

@[simp] theorem first_add (d : Definition η) (g : Group η) : (add d g).first = g.first := by
  unfold add
  split <;> rfl

theorem toList_add (d : Definition η) (g : Group η) :
    (add d g).toList = g.toList ++ [d].filter fun d => d.pattern.key = g.first.pattern.key := by
  unfold add
  split
  · next h => simp [toList, h]
  · next h => simp [toList, Ne.symm h]

theorem place_eq (d : Definition η) {groups : List (Group η)}
    (distinct : groups.Pairwise fun g g' => g.first.pattern.key ≠ g'.first.pattern.key) :
    place d groups = groups.map (add d) ++
      if ∃ g ∈ groups, g.first.pattern.key = d.pattern.key then [] else [⟨d, []⟩] := by
  induction groups with
  | nil => simp [place]
  | cons g rest ih =>
      rw [List.pairwise_cons] at distinct
      rw [place]
      by_cases hg : g.first.pattern.key = d.pattern.key
      · have others : rest.map (add d) = rest := by
          rw [List.map_congr_left (g := id), List.map_id]
          intro g' hg'
          exact if_neg fun h => distinct.1 g' hg' (hg.trans h.symm)
        rw [if_pos hg, if_pos ⟨g, List.mem_cons_self, hg⟩, List.map_cons, others, List.append_nil,
          add, if_pos hg]
      · rw [if_neg hg, ih distinct.2, List.map_cons, add, if_neg hg]
        simp [hg]

/-- The groups of the definitions with a property. -/
structure Partition (definitions : List (Definition η)) (P : Definition η → Bool)
    (groups : List (Group η)) : Prop where
  toList_eq : ∀ g ∈ groups,
    g.toList = definitions.filter fun d => d.pattern.key = g.first.pattern.key
  first : ∀ g ∈ groups, P g.first = true
  exists_group : ∀ d ∈ definitions, P d = true → ∃ g ∈ groups, g.first.pattern.key = d.pattern.key
  sorted : groups.Pairwise fun g g' => firstPlace definitions g.first.pattern.key <
    firstPlace definitions g'.first.pattern.key

namespace Partition

variable {definitions : List (Definition η)} {P : Definition η → Bool} {groups : List (Group η)}

theorem first_mem (partition : Partition definitions P groups) {g : Group η} (hg : g ∈ groups) :
    g.first ∈ definitions := by
  have hmem : g.first ∈ g.toList := List.mem_cons_self
  rw [partition.toList_eq g hg] at hmem
  exact List.mem_of_mem_filter hmem

theorem distinct (partition : Partition definitions P groups) :
    groups.Pairwise fun g g' => g.first.pattern.key ≠ g'.first.pattern.key := by
  refine partition.sorted.imp ?_
  intro g g' hlt heq
  rw [heq] at hlt
  exact Nat.lt_irrefl _ hlt

variable (respects : ∀ d d' : Definition η, d.pattern.key = d'.pattern.key → P d = P d')

include respects

theorem append_of_eq_false (partition : Partition definitions P groups) {d : Definition η}
    (hd : P d = false) : Partition (definitions ++ [d]) P groups where
  toList_eq := by
    intro g hg
    have hkey : d.pattern.key ≠ g.first.pattern.key := by
      intro heq
      rw [respects d g.first heq, partition.first g hg] at hd
      cases hd
    rw [partition.toList_eq g hg, List.filter_append]
    simp [hkey]
  first := partition.first
  exists_group := by
    intro d' hd' hP
    rcases List.mem_append.mp hd' with hd' | hlast
    · exact partition.exists_group d' hd' hP
    · rw [List.mem_singleton.mp hlast, hd] at hP
      cases hP
  sorted := by
    refine partition.sorted.imp_of_mem ?_
    intro g g' hg hg' hlt
    rw [firstPlace_append_singleton (partition.first_mem hg),
      firstPlace_append_singleton (partition.first_mem hg')]
    exact hlt

theorem append_of_eq_true (partition : Partition definitions P groups) {d : Definition η}
    (hd : P d = true) : Partition (definitions ++ [d]) P (place d groups) := by
  rw [place_eq d partition.distinct]
  have alone : ∀ g ∈ (if ∃ g ∈ groups, g.first.pattern.key = d.pattern.key then [] else [⟨d, []⟩] :
      List (Group η)), g = ⟨d, []⟩ ∧ ∀ d' ∈ definitions, d'.pattern.key ≠ d.pattern.key := by
    intro g hg
    split at hg
    · simp at hg
    · next hnone =>
      refine ⟨List.mem_singleton.mp hg, ?_⟩
      intro d' hd' heq
      obtain ⟨g', hg', hkey⟩ := partition.exists_group d' hd' ((respects d' d heq).trans hd)
      exact hnone ⟨g', hg', hkey.trans heq⟩
  constructor
  case toList_eq =>
    intro g hg
    rcases List.mem_append.mp hg with hg | hg
    · obtain ⟨old, hold, rfl⟩ := List.mem_map.mp hg
      rw [toList_add, first_add, partition.toList_eq old hold, List.filter_append]
    · obtain ⟨rfl, hnew⟩ := alone g hg
      have hnil : definitions.filter (fun d' => d'.pattern.key = d.pattern.key) = [] := by
        rw [List.filter_eq_nil_iff]
        intro d' hd'
        simpa using hnew d' hd'
      rw [List.filter_append, hnil]
      simp [toList]
  case first =>
    intro g hg
    rcases List.mem_append.mp hg with hg | hg
    · obtain ⟨old, hold, rfl⟩ := List.mem_map.mp hg
      rw [first_add]
      exact partition.first old hold
    · obtain ⟨rfl, -⟩ := alone g hg
      exact hd
  case exists_group =>
    intro d' hd' hP
    rcases List.mem_append.mp hd' with hd' | hlast
    · obtain ⟨g, hg, hkey⟩ := partition.exists_group d' hd' hP
      exact ⟨add d g, List.mem_append_left _ (List.mem_map_of_mem hg), by rw [first_add, hkey]⟩
    · rw [List.mem_singleton.mp hlast]
      by_cases hex : ∃ g ∈ groups, g.first.pattern.key = d.pattern.key
      · obtain ⟨g, hg, hkey⟩ := hex
        exact ⟨add d g, List.mem_append_left _ (List.mem_map_of_mem hg), by rw [first_add, hkey]⟩
      · rw [if_neg hex]
        exact ⟨⟨d, []⟩, by simp, rfl⟩
  case sorted =>
    rw [List.pairwise_append, List.pairwise_map]
    refine ⟨?_, ?_, ?_⟩
    · refine partition.sorted.imp_of_mem ?_
      intro g g' hg hg' hlt
      rw [first_add, first_add, firstPlace_append_singleton (partition.first_mem hg),
        firstPlace_append_singleton (partition.first_mem hg')]
      exact hlt
    · split
      · exact List.Pairwise.nil
      · exact List.pairwise_singleton ..
    · intro g hg g' hg'
      obtain ⟨old, hold, rfl⟩ := List.mem_map.mp hg
      obtain ⟨rfl, hnew⟩ := alone g' hg'
      rw [first_add, firstPlace_append_singleton (partition.first_mem hold)]
      refine Nat.lt_of_lt_of_le (firstPlace_lt (partition.first_mem hold)) ?_
      rw [firstPlace, List.findIdx_append, if_neg]
      · exact Nat.le_add_left _ _
      · rw [List.findIdx_eq_length_of_false fun d' hd' => decide_eq_false (hnew d' hd')]
        exact Nat.lt_irrefl _

end Partition

theorem ofDefinitions_append_singleton (definitions : List (Definition η)) (d : Definition η) :
    ofDefinitions (definitions ++ [d]) = place d (ofDefinitions definitions) := by
  rw [ofDefinitions, List.foldl_append]
  rfl

theorem partition_ofDefinitions {P : Definition η → Bool}
    (respects : ∀ d d' : Definition η, d.pattern.key = d'.pattern.key → P d = P d')
    (definitions : List (Definition η)) :
    Partition definitions P (ofDefinitions (definitions.filter P)) := by
  induction definitions using List.reverseRecOn with
  | nil => exact ⟨by simp [ofDefinitions], by simp [ofDefinitions], by simp, List.Pairwise.nil⟩
  | append_singleton definitions d ih =>
      rw [List.filter_append, List.filter_singleton]
      cases hd : P d with
      | false =>
          rw [cond_false, List.append_nil]
          exact ih.append_of_eq_false respects hd
      | true =>
          rw [cond_true, ofDefinitions_append_singleton]
          exact ih.append_of_eq_true respects hd

end Group

/-- The place of a pattern in a table: after every pattern without variables if it has some, and
otherwise by the first definition with its key. -/
def tablePlace (definitions : List (Definition η)) (p : Pattern) : Bool ×ₗ Nat :=
  toLex (p.hasVariables, firstPlace definitions p.key)

theorem tablePlace_eq_of_key_eq (definitions : List (Definition η)) {p q : Pattern}
    (h : p.key = q.key) : tablePlace definitions p = tablePlace definitions q := by
  rw [tablePlace, tablePlace, h, Pattern.hasVariables_eq_of_key_eq h]

def Definition.methodRoute (template : String) (d : Definition η) : MethodRoute η :=
  ⟨d.methods, d.handler, ⟨d.methods.label, template⟩⟩

theorem PathRoute.mem_explicitFirst {l : List (MethodRoute η)} {r : MethodRoute η} :
    r ∈ explicitFirst l ↔ r ∈ l := by
  cases hany : r.methods.isAny <;> simp [explicitFirst, hany]

/-- The table of a list of definitions. -/
structure Tabulates (definitions : List (Definition η)) (routes : List (PathRoute η)) : Prop where
  numbered : Numbered routes
  group : ∀ r ∈ routes, ∃ first rest, r = PathRoute.ofDefinitions r.order first rest ∧
    first :: rest = definitions.filter fun d => d.pattern.key = first.pattern.key
  exists_route : ∀ d ∈ definitions, ∃ r ∈ routes, r.pattern.key = d.pattern.key
  sorted : routes.Pairwise fun r r' =>
    tablePlace definitions r.pattern < tablePlace definitions r'.pattern

namespace Tabulates

variable {definitions : List (Definition η)} {routes : List (PathRoute η)} {r : PathRoute η}

theorem isTable (h : Tabulates definitions routes) : IsTable routes where
  numbered := h.numbered
  nodup_segments := by
    rw [List.Nodup, List.pairwise_map]
    refine h.sorted.imp ?_
    intro r r' hlt heq
    rw [tablePlace_eq_of_key_eq definitions (Pattern.key_eq_iff.mpr heq)] at hlt
    exact lt_irrefl _ hlt

theorem methodRoutes_eq (h : Tabulates definitions routes) (hr : r ∈ routes) :
    r.methodRoutes = PathRoute.explicitFirst
      ((definitions.filter fun d => d.pattern.key = r.pattern.key).map
        (Definition.methodRoute r.pattern.template)) := by
  obtain ⟨first, rest, heq, hgroup⟩ := h.group r hr
  have hpattern : r.pattern = first.pattern := by rw [heq]; rfl
  rw [hpattern, ← hgroup, heq]
  rfl

theorem getElem?_firstPlace (h : Tabulates definitions routes) (hr : r ∈ routes) :
    ∃ first, definitions[firstPlace definitions r.pattern.key]? = some first ∧
      r.pattern = first.pattern := by
  obtain ⟨first, rest, heq, hgroup⟩ := h.group r hr
  have hpattern : r.pattern = first.pattern := by rw [heq]; rfl
  refine ⟨first, ?_, hpattern⟩
  rw [firstPlace, ← List.find?_eq_getElem?_findIdx, ← List.head?_filter, hpattern, ← hgroup]
  rfl

end Tabulates

theorem Builder.tabulates_table (config : Config) (definitions : List (Definition η)) :
    Tabulates definitions (definitions.foldl addDefinition { config := config }).table := by
  have fixed := Group.partition_ofDefinitions (P := fun d => !d.pattern.hasVariables)
    (fun _ _ h => by rw [Pattern.hasVariables_eq_of_key_eq h]) definitions
  have patterned := Group.partition_ofDefinitions (P := fun d => d.pattern.hasVariables)
    (fun _ _ h => Pattern.hasVariables_eq_of_key_eq h) definitions
  rw [table, fixed_foldl_addDefinition, patterned_foldl_addDefinition, List.nil_append,
    List.nil_append]
  generalize Group.ofDefinitions (definitions.filter fun d => !d.pattern.hasVariables) = front
    at fixed ⊢
  generalize Group.ofDefinitions (definitions.filter fun d => d.pattern.hasVariables) = back
    at patterned ⊢
  constructor
  case numbered =>
    intro i r hr
    rw [List.getElem?_mapIdx] at hr
    obtain ⟨g, -, rfl⟩ := Option.map_eq_some_iff.mp hr
    rfl
  case group =>
    intro r hr
    obtain ⟨i, hi, rfl⟩ := List.mem_mapIdx.mp hr
    refine ⟨_, _, rfl, ?_⟩
    rcases List.mem_append.mp (List.getElem_mem hi) with hg | hg
    · exact fixed.toList_eq _ hg
    · exact patterned.toList_eq _ hg
  case exists_route =>
    intro d hd
    have hgroup : ∃ g ∈ front ++ back, g.first.pattern.key = d.pattern.key := by
      cases hvar : d.pattern.hasVariables with
      | false =>
          obtain ⟨g, hg, hkey⟩ := fixed.exists_group d hd (by rw [hvar]; rfl)
          exact ⟨g, List.mem_append_left _ hg, hkey⟩
      | true =>
          obtain ⟨g, hg, hkey⟩ := patterned.exists_group d hd hvar
          exact ⟨g, List.mem_append_right _ hg, hkey⟩
    obtain ⟨g, hg, hkey⟩ := hgroup
    obtain ⟨i, hi, rfl⟩ := List.mem_iff_getElem.mp hg
    exact ⟨_, List.mem_mapIdx.mpr ⟨i, hi, rfl⟩, hkey⟩
  case sorted =>
    have patterns (groups : List (Group η)) : (groups.mapIdx fun order g =>
        PathRoute.ofDefinitions order g.first g.rest).map PathRoute.pattern =
          groups.map fun g => g.first.pattern := by
      apply List.ext_getElem <;> simp [PathRoute.ofDefinitions]
    rw [← List.pairwise_map (R := fun p p' => tablePlace definitions p < tablePlace definitions p'),
      patterns, List.pairwise_map, List.pairwise_append]
    refine ⟨?_, ?_, ?_⟩
    · refine fixed.sorted.imp_of_mem ?_
      intro g g' hg hg' hlt
      have hvar : g.first.pattern.hasVariables = false := by simpa using fixed.first g hg
      have hvar' : g'.first.pattern.hasVariables = false := by simpa using fixed.first g' hg'
      exact Prod.Lex.toLex_lt_toLex.mpr (.inr ⟨by rw [hvar, hvar'], hlt⟩)
    · refine patterned.sorted.imp_of_mem ?_
      intro g g' hg hg' hlt
      refine Prod.Lex.toLex_lt_toLex.mpr (.inr ⟨?_, hlt⟩)
      exact (patterned.first g hg).trans (patterned.first g' hg').symm
    · intro g hg g' hg'
      have hvar : g.first.pattern.hasVariables = false := by simpa using fixed.first g hg
      refine Prod.Lex.toLex_lt_toLex.mpr (.inl ?_)
      change g.first.pattern.hasVariables < g'.first.pattern.hasVariables
      rw [hvar, patterned.first g' hg']
      exact Bool.false_lt_true

end HttpRouting
