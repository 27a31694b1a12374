import Authorship.Baseline.Accumulator
import Authorship.Proofs.Tables

/-
Accumulators over parts of a corpus, merged. Under each name a corpus has a list of values or none,
and merging joins what stands under the name on both sides, which is associative and has the empty
corpus for a unit. Adding a vector is merging the corpus of that one vector.
-/
namespace Authorship.Baseline

variable {α : Type}

def joined : Option (List α) → Option (List α) → Option (List α) := Option.merge (· ++ ·)

@[simp] theorem joined_none (a : Option (List α)) : joined a none = a := Option.merge_none_right

@[simp] theorem none_joined (a : Option (List α)) : joined none a = a := Option.merge_none_left

theorem joined_some (a : Option (List α)) (xs : List α) :
    joined a (some xs) = some (a.getD [] ++ xs) := by
  cases a <;> rfl

theorem joined_assoc (a b c : Option (List α)) : joined (joined a b) c = joined a (joined b c) := by
  cases a <;> cases b <;> cases c <;> simp [joined]

namespace Corpus

theorem ext_get {c d : Corpus α} (values : ∀ name, c.values.get? name = d.values.get? name)
    (samples : c.samples = d.samples) : c = d := by
  cases c
  cases d
  rw [Corpus.mk.injEq]
  exact ⟨Table.ext_get values, samples⟩

theorem get_append (t : Table (List α)) (entry : String × List α) (name : String) :
    (append t entry).get? name =
      joined (t.get? name) (if name = entry.1 then some entry.2 else none) := by
  rw [append, Table.get_update]
  by_cases same : name = entry.1
  · rw [if_pos same, if_pos same, same, joined_some]
  · rw [if_neg same, if_neg same, joined_none]

theorem get_fold_append {entries : List (String × List α)} (sorted : Ascending entries)
    (t : Table (List α)) (name : String) :
    (entries.foldl append t).get? name = joined (t.get? name) (entries.lookup name) := by
  induction entries generalizing t with
  | nil => rw [List.foldl_nil, List.lookup_nil, joined_none]
  | cons entry rest ih =>
    obtain ⟨n, xs⟩ := entry
    rw [List.foldl_cons, ih (List.pairwise_cons.mp sorted).2, get_append, lookup_of_cons]
    by_cases same : name = n
    · rw [if_pos same, if_pos same, same, first_name_once sorted, joined_none]
    · rw [if_neg same, if_neg same, joined_none]

theorem get_merge (c d : Corpus α) (name : String) :
    (c.merge d).values.get? name = joined (c.values.get? name) (d.values.get? name) :=
  get_fold_append d.values.ascending c.values name

theorem samples_merge (c d : Corpus α) : (c.merge d).samples = c.samples + d.samples := rfl

theorem merge_empty (c : Corpus α) : c.merge empty = c := rfl

theorem empty_merge (c : Corpus α) : empty.merge c = c := by
  refine ext_get (fun name => ?_) ?_
  · rw [get_merge]
    exact none_joined _
  · rw [samples_merge]
    exact Nat.zero_add _

theorem merge_assoc (c d e : Corpus α) : (c.merge d).merge e = c.merge (d.merge e) := by
  refine ext_get (fun name => ?_) ?_
  · simp only [get_merge, joined_assoc]
  · simp only [samples_merge, Nat.add_assoc]

def singletons (entries : List (String × α)) : List (String × List α) :=
  entries.map fun entry => (entry.1, [entry.2])

def single (v : FeatureVector α) : Corpus α :=
  ⟨⟨singletons v.entries, List.pairwise_map.mpr v.values.ascending⟩, 1⟩

theorem lookup_singletons (entries : List (String × α)) (name : String) :
    (singletons entries).lookup name = (entries.lookup name).map ([·]) := by
  induction entries with
  | nil => rfl
  | cons entry rest ih =>
    obtain ⟨n, x⟩ := entry
    have step : singletons ((n, x) :: rest) = (n, [x]) :: singletons rest := rfl
    rw [step, lookup_of_cons, lookup_of_cons, ih]
    split <;> rfl

theorem get_single (v : FeatureVector α) (name : String) :
    (single v).values.get? name = (v.get? name).map ([·]) :=
  lookup_singletons v.entries name

theorem add_is_merge (c : Corpus α) (v : FeatureVector α) : c.add v = c.merge (single v) := by
  have folded (t : Table (List α)) : (singletons v.entries).foldl append t =
      v.entries.foldl (fun t entry => append t (entry.1, [entry.2])) t := List.foldl_map
  rw [add, merge, ← folded]
  rfl

end Corpus

namespace Accumulator

theorem ext_corpus {a b : Accumulator α} (same : ∀ side, a.corpus side = b.corpus side) :
    a = b := by
  cases a
  cases b
  rw [Accumulator.mk.injEq]
  exact ⟨same .ai, same .human⟩

theorem corpus_merge (a b : Accumulator α) (side : Side) :
    (a.merge b).corpus side = (a.corpus side).merge (b.corpus side) := by
  cases side <;> rfl

theorem corpus_add (a : Accumulator α) (side other : Side) (v : FeatureVector α) :
    (a.add side v).corpus other =
      if side = other then (a.corpus other).add v else a.corpus other := by
  cases side <;> cases other <;> rfl

theorem merge_empty (a : Accumulator α) : a.merge empty = a := rfl

theorem empty_merge (a : Accumulator α) : empty.merge a = a :=
  ext_corpus fun side => by cases side <;> exact Corpus.empty_merge _

theorem merge_assoc (a b c : Accumulator α) : (a.merge b).merge c = a.merge (b.merge c) :=
  ext_corpus fun side => by simp only [corpus_merge, Corpus.merge_assoc]

theorem merge_add (a b : Accumulator α) (side : Side) (v : FeatureVector α) :
    (a.merge b).add side v = a.merge (b.add side v) := by
  refine ext_corpus fun other => ?_
  simp only [corpus_add, corpus_merge]
  split
  · simp only [Corpus.add_is_merge, Corpus.merge_assoc]
  · rfl

abbrev Sample (α : Type) := Side × FeatureVector α

def addAll (a : Accumulator α) (samples : List (Sample α)) : Accumulator α :=
  samples.foldl (fun a sample => a.add sample.1 sample.2) a

def collect (samples : List (Sample α)) : Accumulator α := empty.addAll samples

theorem merge_add_all (a b : Accumulator α) (samples : List (Sample α)) :
    (a.merge b).addAll samples = a.merge (b.addAll samples) := by
  induction samples generalizing b with
  | nil => rfl
  | cons sample rest ih =>
    simp only [addAll, List.foldl_cons]
    rw [merge_add]
    exact ih _

theorem collect_append (first second : List (Sample α)) :
    collect (first ++ second) = (collect first).merge (collect second) := by
  have split : collect (first ++ second) = (collect first).addAll second := List.foldl_append
  rw [split, ← merge_empty (collect first), merge_add_all]
  rfl

/-- The values that vectors of one side have under a name, in the order of the vectors. -/
def valuesOf (side : Side) (name : String) (samples : List (Sample α)) : List α :=
  samples.filterMap fun sample => if sample.1 = side then sample.2.get? name else none

def countOf (side : Side) (samples : List (Sample α)) : Nat := samples.countP (·.1 = side)

/-- What a corpus has under a name no vector has is no list, not an empty one. -/
def listed (xs : List α) : Option (List α) := if xs = [] then none else some xs

theorem listed_append (xs ys : List α) : listed (xs ++ ys) = joined (listed xs) (listed ys) := by
  cases xs with
  | nil => exact (none_joined _).symm
  | cons x xs =>
    cases ys with
    | nil => rw [List.append_nil]; exact (joined_none _).symm
    | cons y ys => rfl

theorem values_append (side : Side) (name : String) (first second : List (Sample α)) :
    valuesOf side name (first ++ second) = valuesOf side name first ++ valuesOf side name second :=
  List.filterMap_append

theorem count_append (side : Side) (first second : List (Sample α)) :
    countOf side (first ++ second) = countOf side first + countOf side second := List.countP_append

theorem collect_one (sample : Sample α) (side : Side) :
    (collect [sample]).corpus side =
      if sample.1 = side then Corpus.single sample.2 else .empty := by
  have added : collect [sample] = empty.add sample.1 sample.2 := rfl
  rw [added, corpus_add]
  split
  · cases side <;> rw [Corpus.add_is_merge] <;> exact Corpus.empty_merge _
  · cases side <;> rfl

theorem collected_values (samples : List (Sample α)) (side : Side) (name : String) :
    ((collect samples).corpus side).values.get? name = listed (valuesOf side name samples) := by
  induction samples with
  | nil => cases side <;> rfl
  | cons sample rest ih =>
    rw [← List.singleton_append, collect_append, corpus_merge, Corpus.get_merge, ih, values_append,
      listed_append, collect_one]
    congr 1
    by_cases same : sample.1 = side
    · simp only [valuesOf, same, ↓reduceIte, List.filterMap_cons, List.filterMap_nil,
        Corpus.get_single]
      cases sample.2.get? name <;> rfl
    · simp only [valuesOf, same, ↓reduceIte, List.filterMap_cons, List.filterMap_nil]
      rfl

theorem collected_samples (samples : List (Sample α)) (side : Side) :
    ((collect samples).corpus side).samples = countOf side samples := by
  induction samples with
  | nil => cases side <;> rfl
  | cons sample rest ih =>
    rw [← List.singleton_append, collect_append, corpus_merge, Corpus.samples_merge, ih,
      count_append, collect_one]
    congr 1
    by_cases same : sample.1 = side
    · rw [if_pos same, countOf, List.countP_singleton, if_pos (by simpa using same)]
      rfl
    · rw [if_neg same, countOf, List.countP_singleton, if_neg (by simpa using same)]
      rfl

end Accumulator

open Accumulator

/-- The order in which accumulators of the parts of a corpus are merged. A part can be empty. -/
inductive MergeTree (α : Type) where
  | leaf (chunk : List (Sample α))
  | node (left right : MergeTree α)

namespace MergeTree

def samples : MergeTree α → List (Sample α)
  | leaf chunk => chunk
  | node left right => left.samples ++ right.samples

def merged : MergeTree α → Accumulator α
  | leaf chunk => collect chunk
  | node left right => left.merged.merge right.merged

theorem merged_is_collected (tree : MergeTree α) : tree.merged = collect tree.samples := by
  induction tree with
  | leaf chunk => rfl
  | node left right left_collected right_collected =>
    rw [merged, samples, collect_append, left_collected, right_collected]

end MergeTree

/-- However a corpus is cut into parts and in whatever tree they are merged, the values stand under
each name in the order of the corpus and every vector is counted once, so that the same statistics
are written. Vectors of different sides can be added in either order. -/
theorem merging_keeps_corpus_order :
    (∀ tree : MergeTree Float, tree.merged = collect tree.samples ∧
      (∀ side name, (tree.merged.corpus side).values.get? name =
        listed (valuesOf side name tree.samples)) ∧
      (∀ side, (tree.merged.corpus side).samples = countOf side tree.samples) ∧
      ∀ written, tree.merged.toJson written = (collect tree.samples).toJson written) ∧
    ∀ (a : Accumulator Float) (v w : FeatureVector Float),
      (a.add .ai v).add .human w = (a.add .human w).add .ai v := by
  refine ⟨fun tree => ?_, fun a v w => rfl⟩
  rw [tree.merged_is_collected]
  exact ⟨rfl, collected_values tree.samples, collected_samples tree.samples, fun _ => rfl⟩

end Authorship.Baseline
