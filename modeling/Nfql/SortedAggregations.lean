import Mathlib.Data.List.Pairwise
import Nfql.FoldAggregations

set_option autoImplicit false

/- The aggregations that sort the values: `RULE_UNION` and `RULE_MEDIAN`. -/
namespace Nfql

open ThreeWay

section Distinct

/-- The loop keeps some of the values. -/
theorem distinctFrom_sublist (last : BitVec 64) (values : List (BitVec 64)) :
    (distinctFrom last values).Sublist values := by
  induction values generalizing last with
  | nil => exact List.Sublist.slnil
  | cons value rest ih =>
      rw [distinctFrom]
      split
      · exact (ih value).cons_cons value
      · exact (ih last).cons value

/-- It loses no value. -/
theorem mem_distinctFrom (last : BitVec 64) (values : List (BitVec 64)) (value : BitVec 64) :
    value ∈ last :: distinctFrom last values ↔ value ∈ last :: values := by
  induction values generalizing last with
  | nil => exact Iff.rfl
  | cons next rest ih =>
      rw [distinctFrom]
      split
      · rw [List.mem_cons, ih next, ← List.mem_cons]
      · rename_i same
        rw [ih last, not_not.mp same]
        simp

/-- Of values in order it keeps each once. -/
theorem distinctFrom_increasing (last : BitVec 64) (values : List (BitVec 64))
    (sorted : (last :: values).Pairwise (· ≤ ·)) :
    (last :: distinctFrom last values).Pairwise (· < ·) := by
  induction values generalizing last with
  | nil => exact List.pairwise_singleton _ _
  | cons next rest ih =>
      obtain ⟨least, later⟩ := List.pairwise_cons.mp sorted
      have above : ∀ value ∈ rest, next ≤ value := (List.pairwise_cons.mp later).1
      rw [distinctFrom]
      split
      · rename_i differ
        refine List.Pairwise.cons (fun value isMember => ?_) (ih next later)
        have first := least next List.mem_cons_self
        rcases List.mem_cons.mp ((mem_distinctFrom next rest value).mp isMember) with rfl | isLater
        · bv_omega
        · have := above value isLater
          bv_omega
      · rename_i same
        rw [not_not.mp same] at later
        exact ih last later

end Distinct

section Sorting

/-- What `compar` looks at. -/
def low (value : BitVec 64) : Nat := value.toNat % 2 ^ 32

theorem compar_consistent : Consistent compar := compareNat_consistent low

/-- The low 32 bits of the values are ordered as the values are. -/
def LowOrdered (values : List (BitVec 64)) : Prop :=
  ∀ a ∈ values, ∀ b ∈ values, a < b → low a < low b

/-- Values of fewer than 64 bits are their own low bits. -/
theorem lowOrdered_narrow (field : Field) (members : List RecordPtr) (narrow : field.width ≠ .w64) :
    LowOrdered (field.values members) := by
  have small : ∀ value ∈ field.values members, low value = value.toNat := by
    intro value isValue
    obtain ⟨member, -, rfl⟩ := List.mem_map.mp isValue
    have bound := readField_lt field.width member.record field.offset
    have bits : 2 ^ field.width.bits ≤ 2 ^ 32 := by
      cases width : field.width with
      | w8 | w16 | w32 => decide
      | w64 => exact absurd width narrow
    exact Nat.mod_eq_of_lt (by simp only [Field.read]; omega)
  intro a isA b isB less
  rw [small a isA, small b isB]
  exact BitVec.lt_def.mp less

variable (libc : Libc) (values : List (BitVec 64))

theorem mem_sorted (value : BitVec 64) : value ∈ libc.qsort.run compar values ↔ value ∈ values :=
  (libc.qsort.perm compar values).mem_iff

/-- The C library then sorts the values as numbers. -/
theorem sorted_values (ordered : LowOrdered values) :
    (libc.qsort.run compar values).Pairwise (· ≤ ·) := by
  apply (libc.qsort.sorted compar values compar_consistent).imp_of_mem
  intro a b isA isB notAfter
  by_contra after
  have before := ordered b ((mem_sorted libc values b).mp isB) a ((mem_sorted libc values a).mp isA)
    (by bv_omega)
  have positive := (compareNat_pos (low a) (low b)).mpr before
  change compareNat (low a) (low b) ≤ 0 at notAfter
  omega

end Sorting

section Aggregated

theorem distinct_sublist (values : List (BitVec 64)) : (distinct values).Sublist values := by
  cases values with
  | nil => exact List.Sublist.slnil
  | cons value later => exact (distinctFrom_sublist value later).cons_cons value

theorem mem_distinct (values : List (BitVec 64)) (value : BitVec 64) :
    value ∈ distinct values ↔ value ∈ values := by
  cases values with
  | nil => exact Iff.rfl
  | cons first later => exact mem_distinctFrom first later value

theorem distinct_increasing (values : List (BitVec 64)) (sorted : values.Pairwise (· ≤ ·)) :
    (distinct values).Pairwise (· < ·) := by
  cases values with
  | nil => exact List.Pairwise.nil
  | cons first later => exact distinctFrom_increasing first later sorted

variable (libc : Libc) (field : Field) (members : List RecordPtr) (record : Record) (common : Bool)

/-- `RULE_UNION` returns the set of the members' values, in order and each once. -/
def UnionReturned : Prop :=
  ∃ values stored, aggrFunc libc .union field.width members record field.offset common =
      .ok (⟨values⟩, stored) ∧ values.Pairwise (· < ·) ∧
    ∀ value, value ∈ values ↔ value ∈ field.values members

/-- `RULE_MEDIAN` returns the middle one of the members' values in order. -/
def MedianReturned : Prop :=
  ∃ value stored, ∃ sorted : List (BitVec 64),
    aggrFunc libc .median field.width members record field.offset common =
      .ok (⟨[value]⟩, stored) ∧ sorted.Perm (field.values members) ∧
    sorted.Pairwise (· ≤ ·) ∧ sorted[members.length / 2]? = some value

variable {libc field members record common}

/-- Where the low bits are in order, both functions are right. -/
theorem sorted_returned (nonempty : members ≠ []) (inside : members.length ≤ intMax)
    (ordered : LowOrdered (field.values members)) :
    UnionReturned libc field members record common ∧
      MedianReturned libc field members record common := by
  have sorted := sorted_values libc (field.values members) ordered
  constructor
  · refine ⟨_, _, aggrUnion_ok libc field members record inside, distinct_increasing _ sorted, ?_⟩
    intro value
    rw [mem_distinct, mem_sorted]
  · obtain ⟨value, middle⟩ := sorted_middle libc field members nonempty
    have run := aggrFunc_ok libc .median field members record common nonempty fun _ => inside
    simp only [aggrResults, aggrValue, values_length, middle] at run
    exact ⟨value, _, _, run, libc.qsort.perm _ _, sorted, middle⟩

theorem UnionReturned.inside (returned : UnionReturned libc field members record common) :
    members.length ≤ intMax := by
  obtain ⟨values, stored, run, -⟩ := returned
  exact aggrFunc_inside rfl run

/-- A C library that sorts ties in descending order reveals any disorder of the low bits. -/
theorem lowOrdered_of_union (ties : libc.qsort = Qsort.tiesBy BitVec.toNat)
    (returned : UnionReturned libc field members record common) :
    LowOrdered (field.values members) := by
  have inside := returned.inside
  obtain ⟨values, stored, run, increasing, same⟩ := returned
  rw [aggrFunc, aggrUnion_ok libc field members record inside] at run
  cases run
  have tied : (libc.qsort.run compar (field.values members)).Pairwise
      (TiesBy BitVec.toNat compar) := by
    rw [ties]
    exact TiesBy.sorted compar_consistent _
  -- of two values the smaller comes first, so it is not tied with the greater
  have ordered := (increasing.and (tied.sublist (distinct_sublist _))).imp
    (S := fun x y => (x < y → low x < low y) ∧ (y < x → low y < low x)) (by
      rintro x y ⟨upward, below | ⟨-, downward⟩⟩
      · exact ⟨fun _ => (compareNat_neg _ _).mp below, fun downward => by bv_omega⟩
      · bv_omega)
  have symm : Std.Symm fun x y => (x < y → low x < low y) ∧ (y < x → low y < low x) :=
    ⟨fun _ _ => And.symm⟩
  intro a isA b isB less
  exact (ordered.forall ((same a).mpr isA) ((same b).mpr isB) (by bv_omega)).1 less

end Aggregated

/-- Whatever a conforming `qsort` does with ties, both functions are right exactly when
the low 32 bits of the values are ordered as the values are. -/
theorem sortedAggregations_iff (field : Field) (first : RecordPtr) (rest : List RecordPtr) :
    (∀ (libc : Libc) (record : Record) (common : Bool),
      UnionReturned libc field (first :: rest) record common ∧
        MedianReturned libc field (first :: rest) record common) ↔
      (first :: rest).length ≤ intMax ∧ LowOrdered (field.values (first :: rest)) := by
  constructor
  · intro returned
    have union := (returned ⟨Qsort.tiesBy BitVec.toNat, Qsort.insertion⟩ (fun _ => 0#8) false).1
    exact ⟨union.inside, lowOrdered_of_union rfl union⟩
  · rintro ⟨inside, ordered⟩ libc record common
    exact sorted_returned (by simp) inside ordered

/-- The 64-bit values 1 and 2^32 come out in the wrong order. -/
theorem sortedAggregations_fail :
    ¬ ∀ (field : Field) (members : List RecordPtr), members ≠ [] →
      ∀ (libc : Libc) (record : Record) (common : Bool),
        UnionReturned libc field members record common ∧
          MedianReturned libc field members record common := by
  intro returned
  let members : List RecordPtr :=
    [⟨0, fun index => if index = 0 then 1#8 else 0#8⟩,
      ⟨1, fun index => if index = 4 then 1#8 else 0#8⟩]
  have ordered := lowOrdered_of_union rfl (returned ⟨0, .w64⟩ members (by simp [members])
    ⟨Qsort.tiesBy BitVec.toNat, Qsort.insertion⟩ (fun _ => 0#8) false).1
  exact absurd (ordered 1#64 (by decide) 0x100000000#64 (by decide) (by decide)) (by decide)

end Nfql
