import Mathlib.Algebra.BigOperators.Group.Multiset.Basic
import Mathlib.Data.Finset.Sort
import Mathlib.Data.List.Lex
import Mathlib.Data.Multiset.Lattice
import Mathlib.Order.Lattice.Nat
import Mathlib.Order.Nat
import Nfql.GreedyRuns
import Nfql.Odometer

set_option autoImplicit false

/- Queries over one table. Each branch selects, projects and groups its rows, and keeps some
of the groups; the groups of all branches are joined and flattened. -/
namespace RelationalQueries

open GreedyRuns Odometer

variable {ρ σ κ : Type}

/-- What a branch asks for: `WHERE`, `SELECT`, `GROUP BY` and `HAVING`. -/
structure Selection (ρ σ κ : Type) where
  accepts : ρ → Bool
  project : ρ → σ
  key : σ → κ
  having : Multiset σ → Bool

structure Query (ρ σ κ : Type) where
  selections : List (Selection ρ σ κ)
  joins : List (Multiset σ) → Bool

def Selection.rows (selection : Selection ρ σ κ) (table : Multiset ρ) : Multiset σ :=
  (table.filter fun row => selection.accepts row = true).map selection.project

/-- The value that all rows of a group share is also their greatest. -/
theorem shared_value (value : σ → Nat) (rows : Multiset σ) (row : σ) (member : row ∈ rows)
    (shared : ∀ other ∈ rows, value other = value row) : (rows.map value).sup = value row := by
  apply le_antisymm
  · rw [Multiset.sup_le]
    intro image inside
    obtain ⟨other, found, rfl⟩ := Multiset.mem_map.mp inside
    exact le_of_eq (shared other found)
  · exact Multiset.le_sup (Multiset.mem_map_of_mem value member)

section Meaning

variable [LinearOrder κ]

/-- The rows of equal key, in increasing order of the keys. -/
def classes (key : σ → κ) (rows : Multiset σ) : List (Multiset σ) :=
  (rows.map key).toFinset.sort.map fun value => rows.filter fun row => key row = value

def Selection.groups (selection : Selection ρ σ κ) (table : Multiset ρ) : List (Multiset σ) :=
  (classes selection.key (selection.rows table)).filter selection.having

/-- The tuples of one group from each branch that join, in lexicographic order. -/
def Query.tuples (query : Query ρ σ κ) (table : Multiset ρ) : List (List (Multiset σ)) :=
  (product (query.selections.map fun selection => selection.groups table)).filter query.joins

/-- The rows of each tuple. -/
def Query.answer (query : Query ρ σ κ) (table : Multiset ρ) : List (Multiset σ) :=
  (query.tuples table).map List.sum

theorem classes_le (key : σ → κ) (rows group : Multiset σ) (member : group ∈ classes key rows) :
    group ≤ rows := by
  obtain ⟨value, -, rfl⟩ := List.mem_map.mp member
  exact Multiset.filter_le _ _

theorem groups_card (selection : Selection ρ σ κ) (table : Multiset ρ) (group : Multiset σ)
    (member : group ∈ selection.groups table) : group.card ≤ table.card := by
  obtain ⟨listed, -⟩ := List.mem_filter.mp member
  calc group.card
      ≤ (selection.rows table).card := Multiset.card_le_card (classes_le _ _ group listed)
    _ = (table.filter fun row => selection.accepts row = true).card := Multiset.card_map _ _
    _ ≤ table.card := Multiset.card_le_card (Multiset.filter_le _ _)

/-- Selections of the same rows and keys keep the same groups if they agree on the classes. -/
theorem groups_congr {one other : Selection ρ σ κ} (table : Multiset ρ)
    (rows : one.rows table = other.rows table) (key : one.key = other.key)
    (having : ∀ group ∈ classes other.key (other.rows table), one.having group = other.having group) :
    one.groups table = other.groups table := by
  rw [Selection.groups, Selection.groups, rows, key]
  exact List.filter_congr having

/-- Queries for the same groups have the same tuples if they agree on those there can be. -/
theorem tuples_congr {one other : Query ρ σ κ} (table : Multiset ρ)
    (groups : one.selections.map (fun selection => selection.groups table) =
      other.selections.map fun selection => selection.groups table)
    (joins : ∀ tuple ∈ product (other.selections.map fun selection => selection.groups table),
      one.joins tuple = other.joins tuple) :
    one.tuples table = other.tuples table := by
  rw [Query.tuples, Query.tuples, groups]
  exact List.filter_congr joins

/-- The class of the least key comes first. -/
theorem classes_least (key : σ → κ) (value : κ) (least others : Multiset σ)
    (some_row : ∃ row, row ∈ least) (shared : ∀ row ∈ least, key row = value)
    (above : ∀ row ∈ others, value < key row) :
    classes key (least + others) = least :: classes key others := by
  have later : ∀ other ∈ (others.map key).toFinset, value < other := by
    intro other member
    obtain ⟨row, found, rfl⟩ := Multiset.mem_map.mp (Multiset.mem_toFinset.mp member)
    exact above row found
  have keys : ((least + others).map key).toFinset = insert value (others.map key).toFinset := by
    ext other
    rw [Multiset.map_add, Multiset.toFinset_add, Finset.mem_union, Finset.mem_insert]
    apply or_congr_left
    rw [Multiset.mem_toFinset, Multiset.mem_map]
    constructor
    · rintro ⟨row, member, rfl⟩
      exact shared row member
    · rintro rfl
      obtain ⟨row, member⟩ := some_row
      exact ⟨row, member, shared row member⟩
  have sorted := Finset.sort_insert (· ≤ ·) (fun other member => le_of_lt (later other member))
    fun member => lt_irrefl value (later value member)
  rw [classes, keys, sorted, List.map_cons, classes]
  congr 1
  · have none : others.filter (fun row => key row = value) = 0 :=
      Multiset.filter_eq_nil.mpr fun row member => ne_of_gt (above row member)
    rw [Multiset.filter_add, Multiset.filter_eq_self.mpr shared, none, add_zero]
  · refine List.map_congr_left fun other member => ?_
    have differs := later other ((Finset.mem_sort _).mp member)
    have none : least.filter (fun row => key row = other) = 0 :=
      Multiset.filter_eq_nil.mpr fun row member => by
        rw [shared row member]
        exact ne_of_lt differs
    rw [Multiset.filter_add, none, zero_add]

/-- Lists of rows of equal key, in increasing order of the keys, are the classes. -/
theorem classes_listed (key : σ → κ) (groups : List (List σ)) (listed : Classes key groups) :
    groups.map Multiset.ofList = classes key (groups.flatten : Multiset σ) := by
  induction groups with
  | nil => simp [classes]
  | cons group rest ih =>
      obtain ⟨first, inside⟩ := List.exists_mem_of_ne_nil group (listed.nonempty group (by simp))
      have shared : ∀ row ∈ group, key row = key first := fun row member =>
        listed.constant group (by simp) row member first inside
      rw [List.flatten_cons, ← Multiset.coe_add, List.map_cons, ih listed.tail,
        classes_least key (key first) _ _ ⟨first, inside⟩ shared (listed.below first inside)]

end Meaning

end RelationalQueries
