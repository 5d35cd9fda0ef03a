import HttpRouting.Proofs.Router.Calls
import Mathlib.Data.List.Induction
import Mathlib.Data.List.Nodup

/-!
# Methods in a list and methods added to an item

A list of methods makes the set of its methods, each kept at its first occurrence. Adding methods
one by one to the set of a list makes the set of the longer list, unless the first list is empty,
since every method stays every method. So a route item with further methods registers what the list
of all its methods registers.
-/

namespace HttpRouting

namespace MethodSet

def listed : MethodSet → List Method
  | .any => []
  | .only methods => methods

/-- Of the methods that were given each is kept once, in the order of first occurrence. -/
structure FirstOccurrences (given kept : List Method) : Prop where
  mem_iff : ∀ m, m ∈ kept ↔ m ∈ given
  nodup : kept.Nodup
  ordered : kept.Pairwise fun a b => given.idxOf a < given.idxOf b

theorem idxOf_lt_idxOf_append {given : List Method} {a b : Method} (ha : a ∈ given)
    (hb : b ∈ given) (h : given.idxOf a < given.idxOf b) (more : List Method) :
    (given ++ more).idxOf a < (given ++ more).idxOf b := by
  rwa [List.idxOf_append_of_mem ha, List.idxOf_append_of_mem hb]

theorem FirstOccurrences.insertNew {given kept : List Method} (h : FirstOccurrences given kept)
    (m : Method) : FirstOccurrences (given ++ [m]) (insertNew kept m) := by
  have earlier : kept.Pairwise fun a b =>
      (given ++ [m]).idxOf a < (given ++ [m]).idxOf b := by
    refine h.ordered.imp_of_mem fun {a b} ha hb hab => ?_
    exact idxOf_lt_idxOf_append ((h.mem_iff a).mp ha) ((h.mem_iff b).mp hb) hab [m]
  rw [MethodSet.insertNew]
  split
  · next known =>
    refine ⟨?_, h.nodup, earlier⟩
    intro a
    rw [List.mem_append, List.mem_singleton, ← h.mem_iff]
    constructor
    · exact .inl
    · rintro (ha | rfl)
      · exact ha
      · exact known
  · next new =>
    refine ⟨?_, ?_, ?_⟩
    · intro a
      rw [List.mem_append, List.mem_append, h.mem_iff]
    · exact List.nodup_append_comm.mp (List.nodup_cons.mpr ⟨new, h.nodup⟩)
    · rw [List.pairwise_append]
      refine ⟨earlier, List.pairwise_singleton _ _, ?_⟩
      intro a ha b hb
      rw [List.mem_singleton.mp hb]
      have given_a : a ∈ given := (h.mem_iff a).mp ha
      have not_given : m ∉ given := fun hm => new ((h.mem_iff m).mpr hm)
      rw [List.idxOf_append_of_mem given_a, List.idxOf_append_of_notMem not_given]
      exact Nat.lt_of_lt_of_le (List.idxOf_lt_length_of_mem given_a) (Nat.le_add_right _ _)

theorem firstOccurrences_foldl (given : List Method) :
    FirstOccurrences given (given.foldl insertNew []) := by
  induction given using List.reverseRecOn with
  | nil => exact ⟨fun _ => Iff.rfl, List.nodup_nil, List.Pairwise.nil⟩
  | append_singleton given m ih =>
      rw [List.foldl_append]
      exact ih.insertNew m

theorem foldl_insertNew_of_nodup {methods : List Method} (h : methods.Nodup) :
    methods.foldl insertNew [] = methods := by
  induction methods using List.reverseRecOn with
  | nil => rfl
  | append_singleton methods m ih =>
      obtain ⟨new, nodup⟩ := List.nodup_cons.mp (List.nodup_append_comm.mp h)
      rw [List.foldl_append, ih nodup]
      exact if_neg new

theorem ofList_of_ne_nil {methods : List Method} (ne : methods ≠ []) :
    ofList methods = .only (methods.foldl insertNew []) := by
  rw [ofList]
  split
  · next kept => exact absurd ((ofList_eq_any_iff methods).mp (by rw [ofList, kept])) ne
  · rfl

theorem listed_ofList (methods : List Method) :
    (ofList methods).listed = methods.foldl insertNew [] := by
  by_cases empty : methods = []
  · rw [empty]
    rfl
  · rw [ofList_of_ne_nil empty, listed]

theorem insert_ofList {methods : List Method} (ne : methods ≠ []) (m : Method) :
    (ofList methods).insert m = ofList (methods ++ [m]) := by
  have kept := foldl_insertNew_of_nodup (firstOccurrences_foldl methods).nodup
  rw [ofList_of_ne_nil ne, insert, ofList_of_ne_nil (by simp), ofList_of_ne_nil (by simp),
    List.foldl_append, kept, List.foldl_append]

theorem foldl_insert_ofList {methods : List Method} (ne : methods ≠ []) (later : List Method) :
    later.foldl insert (ofList methods) = ofList (methods ++ later) := by
  induction later generalizing methods with
  | nil => rw [List.foldl_nil, List.append_nil]
  | cons m later ih =>
      rw [List.foldl_cons, insert_ofList ne, ih (by simp), List.append_assoc,
        List.singleton_append]

theorem foldl_insert_any (later : List Method) : later.foldl insert .any = .any := by
  induction later with
  | nil => rfl
  | cons m later ih => exact ih

/-- The set accepts exactly the listed methods, or all of them if none is listed, and names each of
them once in the order of first occurrence. -/
structure Lists (methods : List Method) (set : MethodSet) : Prop where
  isAny_iff : set.isAny = true ↔ methods = []
  contains_iff : ∀ m, set.contains m = true ↔ methods = [] ∨ m ∈ methods
  listed : FirstOccurrences methods set.listed
  label_eq : set.label =
    if methods = [] then "*" else "|".intercalate (set.listed.map Method.name)

theorem lists_ofList (methods : List Method) : Lists methods (ofList methods) := by
  have kept := firstOccurrences_foldl methods
  by_cases empty : methods = []
  · subst empty
    exact ⟨by decide, fun m => by simp [ofList, contains], kept, rfl⟩
  · refine ⟨?_, ?_, ?_, ?_⟩
    · simp [ofList_of_ne_nil empty, isAny, empty]
    · intro m
      simp [ofList_of_ne_nil empty, contains, kept.mem_iff, empty]
    · rw [listed_ofList]
      exact kept
    · rw [ofList_of_ne_nil empty, if_neg empty]
      rfl

example : (ofList [.post, .get, .post, .head, .get]).label = "POST|GET|HEAD" := by decide

end MethodSet

namespace Verb

def method? : Verb → Option Method
  | .get => some .get
  | .post => some .post
  | .put => some .put
  | .patch => some .patch
  | .delete => some .delete
  | .head => some .head
  | .options => some .options
  | .any => none

/-- The method of a verb and further ones. The list is empty if the verb is for every method. -/
def listed (verb : Verb) (more : List Method) : List Method :=
  verb.method?.elim [] fun m => m :: more

theorem methods_eq (verb : Verb) : verb.methods = .ofList verb.method?.toList := by
  cases verb <;> rfl

theorem foldl_insert_methods (verb : Verb) (more : List Method) :
    more.foldl MethodSet.insert verb.methods = .ofList (verb.listed more) := by
  rw [methods_eq, listed]
  cases verb.method? with
  | none => exact MethodSet.foldl_insert_any more
  | some m => exact MethodSet.foldl_insert_ofList (List.cons_ne_nil m []) more

end Verb

variable {η : Type}

theorem RouteItem.foldl_or (item : RouteItem η) (more : List Method) :
    more.foldl RouteItem.or item =
      { item with methods := more.foldl MethodSet.insert item.methods } := by
  induction more generalizing item with
  | nil => rfl
  | cons m more ih => exact ih (item.or m)

/-- An item of a verb with further methods makes the builder that the list of all its methods makes,
and leaves the same one where the template does not compile. It has the set of this list. The set of
a list accepts what is listed and names each of its methods once, and the set of a longer list is
made by adding the later methods one by one. -/
theorem Builder.items_register_lists (b : Builder η) (template : String) (handler : η) :
    (∀ (verb : Verb) (more : List Method),
      b.route template (more.foldl RouteItem.or (.ofVerb verb handler)) =
        b.add template (verb.listed more) handler ∧
      b.perform (.route template (more.foldl RouteItem.or (.ofVerb verb handler))) =
        b.perform (.add template (verb.listed more) handler) ∧
      MethodSet.Lists (verb.listed more)
        (more.foldl RouteItem.or (.ofVerb verb handler)).methods) ∧
    (∀ methods, MethodSet.Lists methods (.ofList methods)) ∧
    ∀ (m : Method) (first : List Method) (later : List (List Method)),
      MethodSet.ofList (m :: first ++ later.flatten) =
        later.flatten.foldl MethodSet.insert (.ofList (m :: first)) := by
  refine ⟨?_, MethodSet.lists_ofList, ?_⟩
  · intro verb more
    have item : more.foldl RouteItem.or (.ofVerb verb handler) =
        ⟨.ofList (verb.listed more), handler⟩ := by
      rw [RouteItem.foldl_or, ← verb.foldl_insert_methods more]
      rfl
    rw [item]
    exact ⟨rfl, rfl, MethodSet.lists_ofList _⟩
  · intro m first later
    exact (MethodSet.foldl_insert_ofList (List.cons_ne_nil m first) later.flatten).symm

end HttpRouting
