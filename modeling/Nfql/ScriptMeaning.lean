import Nfql.Scripts

set_option autoImplicit false

/- The flowquery of a script means what the script means, if no total lies over another
field and all of them fit theirs. -/
namespace Nfql

open Odometer RelationalQueries

section Values

/-- The comparators compute what the conditions of scripts say. -/
theorem compareDelta_condition (condition : Condition) (value : BitVec 64) :
    compareDelta condition.op value (BitVec.ofNat 64 condition.number)
        (BitVec.ofNat 64 condition.delta) = condition.holds value.toNat := by
  have inside := condition.inside
  have small := condition.small
  have number : (BitVec.ofNat 64 condition.number).toNat = condition.number := by
    rw [BitVec.toNat_ofNat]
    omega
  have delta : (BitVec.ofNat 64 condition.delta).toNat = condition.delta := by
    rw [BitVec.toNat_ofNat]
    omega
  have fits : condition.op.Fits value (BitVec.ofNat 64 condition.number)
      (BitVec.ofNat 64 condition.delta) := by
    unfold CompOp.Fits DeltaWindow.AddFits DeltaWindow.SubFits
    rw [number, delta]
    split <;> omega
  have exact := (compareDelta_exact_iff value _ _ condition.op).mpr fits
  rw [number, delta] at exact
  rw [Bool.eq_iff_iff, exact, Condition.holds, decide_eq_true_iff]

/-- So do those of the merger, which get no delta. -/
theorem joins_numbers (op : CompOp) (value1 value2 : BitVec 64) {number1 number2 : Nat}
    (same1 : value1.toNat = number1) (same2 : value2.toNat = number2) :
    op.joins value1 value2 = (decide (number1 ≠ 0) && decide (number2 ≠ 0) &&
      decide (op.Holds number1 number2 0)) := by
  subst same1 same2
  have fits : op.Fits value1 value2 0#64 := by
    unfold CompOp.Fits DeltaWindow.AddFits DeltaWindow.SubFits
    rw [BitVec.toNat_zero]
    split <;> omega
  have exact := (compareDelta_exact_iff value1 value2 0#64 op).mpr fits
  have compared : compareNo op value1 value2 =
      decide (op.Holds value1.toNat value2.toNat 0) := by
    rw [← compareDelta_zero, Bool.eq_iff_iff, exact, decide_eq_true_iff]
    rfl
  have zero : ∀ value : BitVec 64, (value ≠ 0#64) = (value.toNat ≠ 0) := by
    intro value
    rw [ne_eq, ne_eq, ← BitVec.toNat_inj, BitVec.toNat_zero]
  rw [CompOp.joins, compared]
  simp only [zero]

theorem TotalOp.aggrOp_ne_static (op : TotalOp) : op.aggrOp ≠ .static := by
  cases op <;> decide

theorem TotalOp.aggrOp_commutes (op : TotalOp) : op.aggrOp.Commutes := by
  cases op <;> simp [TotalOp.aggrOp, AggrOp.Commutes]

/-- Cut to a field, the values of the aggregations are the totals. -/
theorem over_total (op : TotalOp) (values : Multiset (BitVec 64)) (width : Width) :
    ((op.aggrOp.over values).getD 0#64).toNat % 2 ^ width.bits =
      op.over (values.map BitVec.toNat) % 2 ^ width.bits := by
  cases op with
  | sum =>
      show (BitVec.ofNat 64 _).toNat % _ = _
      rw [BitVec.toNat_ofNat, Nat.mod_mod_of_dvd _ width.pow_bits_dvd]
      rfl
  | count =>
      show (BitVec.ofNat 64 _).toNat % _ = (values.map BitVec.toNat).card % _
      rw [BitVec.toNat_ofNat, Nat.mod_mod_of_dvd _ width.pow_bits_dvd, Multiset.card_map]
  | or =>
      have fold : Multiset.fold (fun a b : Nat => a ||| b) 0 (values.map BitVec.toNat) =
          (Multiset.fold (fun a b : BitVec 64 => a ||| b) 0#64 values).toNat :=
        Multiset.fold_hom _ (m := BitVec.toNat) BitVec.toNat_or 0#64 values
      exact congrArg (· % 2 ^ width.bits) fold.symm
  | xor =>
      have fold : Multiset.fold (fun a b : Nat => a ^^^ b) 0 (values.map BitVec.toNat) =
          (Multiset.fold (fun a b : BitVec 64 => a ^^^ b) 0#64 values).toNat :=
        Multiset.fold_hom _ (m := BitVec.toNat) BitVec.toNat_xor 0#64 values
      exact congrArg (· % 2 ^ width.bits) fold.symm

variable (offset : String → Option Nat)

theorem place_number (field : NamedField) (row : Record) :
    ((field.place offset).read row).toNat = field.number offset row :=
  readField_toNat field.width row _

end Values

/-- Where the images differ, an item is found by its own. -/
theorem find_own {α β : Type} [DecidableEq β] (image : α → β) (items : List α)
    (distinct : (items.map image).Nodup) (item : α) (member : item ∈ items) :
    items.find? (fun other => image other = image item) = some item := by
  cases found : items.find? fun other => image other = image item with
  | none => exact absurd (decide_eq_true rfl) (List.find?_eq_none.mp found item member)
  | some other =>
      have same : image other = image item :=
        of_decide_eq_true (List.find?_some (p := fun other => decide (image other = image item)) found)
      rw [List.inj_on_of_nodup_map distinct (List.mem_of_find?_eq_some found) member same]

theorem dnf_map {τ υ : Type} (holds : υ → Bool) (term : τ → υ) (clauses : List (List τ)) :
    Clauses.dnf holds (clauses.map (List.map term)) =
      Clauses.dnf (fun rule => holds (term rule)) clauses := by
  simp only [Clauses.dnf, List.any_map, List.all_map, Function.comp_def]

section Branch

variable (offset : String → Option Nat) (branch : BranchScript)

theorem branch_keyClause :
    (branch.branch offset).keyClause = branch.keys.map (Key.term offset) := by
  show (branch.grouper.toList.map _).headD [] = (branch.grouper.getD []).map _
  cases branch.grouper <;> rfl

theorem branch_namedFields :
    (branch.branch offset).namedFields =
      branch.namedFields.map (NamedField.place offset) := by
  have keys : ∀ key : Key, (key.term offset).fields = [key.field.place offset] := by
    intro key
    exact if_neg (not_not.mpr rfl)
  have filter : (branch.branch offset).filterFields =
      (branch.filter.flatten.map Prod.fst).map (NamedField.place offset) := by
    unfold Branch.filterFields BranchScript.branch
    rw [List.map_map, List.map_flatten, List.flatMap_map, List.flatMap_def]
    simp only [List.map_map]
    rfl
  have grouper : (branch.branch offset).grouperFields =
      (branch.keys.map Key.field).map (NamedField.place offset) := by
    show (branch.grouper.toList.map (List.map (Key.term offset))).flatMap _ =
      ((branch.grouper.getD []).map _).map _
    cases branch.grouper with
    | none => rfl
    | some clause =>
        simp only [Option.toList_some, List.map_cons, List.map_nil, List.flatMap_cons,
          List.flatMap_nil, List.append_nil, List.flatMap_map, keys, Option.getD_some, List.map_map,
          ← List.map_eq_flatMap]
        rfl
  rw [Branch.namedFields, BranchScript.namedFields, filter, grouper, List.map_append]

theorem branch_totals :
    (branch.branch offset).totals = branch.totals.map (Total.term offset) := by
  have statics : ((branch.statics.map (NamedField.staticTerm offset)).filter
      fun term => decide (term.op ≠ .static)) = [] := by
    rw [List.filter_eq_nil_iff]
    intro term member
    obtain ⟨field, -, rfl⟩ := List.mem_map.mp member
    simp [NamedField.staticTerm]
  have totals : ((branch.totals.map (Total.term offset)).filter
      fun term => decide (term.op ≠ .static)) = branch.totals.map (Total.term offset) := by
    rw [List.filter_eq_self]
    intro term member
    obtain ⟨total, -, rfl⟩ := List.mem_map.mp member
    exact decide_eq_true total.op.aggrOp_ne_static
  unfold Branch.totals BranchScript.branch
  rw [List.filter_append, statics, totals, List.nil_append]

theorem branch_valueFields (value : branch.Value) :
    value.field.place offset ∈ (branch.branch offset).valueFields := by
  unfold Branch.valueFields
  rw [branch_keyClause, branch_totals, List.map_map, List.map_map]
  cases value with
  | ofKey key member => exact List.mem_append_left _ (List.mem_map.mpr ⟨key, member, rfl⟩)
  | ofTotal total member => exact List.mem_append_right _ (List.mem_map.mpr ⟨total, member, rfl⟩)

variable (independent : branch.Independent offset)

include independent

theorem branch_declarative : (branch.branch offset).Declarative where
  single := by
    show (branch.grouper.toList.map _).length ≤ 1
    cases branch.grouper <;> simp
  keys := by
    rw [branch_keyClause]
    intro term member
    obtain ⟨key, -, rfl⟩ := List.mem_map.mp member
    exact ⟨rfl, rfl, rfl, rfl⟩
  statics := by
    intro term member static
    rcases List.mem_append.mp member with repeated | total
    · obtain ⟨field, listed, rfl⟩ := List.mem_map.mp repeated
      rw [branch_namedFields]
      exact List.mem_map_of_mem (branch.named field listed)
    · obtain ⟨summed, -, rfl⟩ := List.mem_map.mp total
      exact absurd static summed.op.aggrOp_ne_static
  commutes := by
    rw [branch_totals]
    intro term member
    obtain ⟨total, -, rfl⟩ := List.mem_map.mp member
    exact total.op.aggrOp_commutes
  unnamed := by
    rw [branch_totals, branch_namedFields]
    intro term isTotal field named
    obtain ⟨total, inTotals, rfl⟩ := List.mem_map.mp isTotal
    obtain ⟨other, inNamed, rfl⟩ := List.mem_map.mp named
    exact independent.unnamed total inTotals other inNamed
  apart := by
    rw [branch_totals, List.pairwise_map]
    exact independent.apart
  groupfilter := by
    intro terms inBranch term member
    obtain ⟨clause, -, rfl⟩ := List.mem_map.mp inBranch
    obtain ⟨⟨value, condition⟩, -, rfl⟩ := List.mem_map.mp member
    exact branch_valueFields offset branch value

/-- No total lies over a key, so the rows' common value is what the cell has. -/
theorem cell_key (key : Key) (member : key ∈ branch.keys) (rows : Multiset Record) :
    ((branch.branch offset).cell true (key.field.place offset) rows).toNat =
      (rows.map (key.field.number offset)).sup := by
  have missing : (branch.totals.map (Total.term offset)).find?
      (fun term => term.field = key.field.place offset) = none := by
    rw [List.find?_eq_none]
    intro term inTotals same
    obtain ⟨total, listed, rfl⟩ := List.mem_map.mp inTotals
    have same : total.field.place offset = key.field.place offset := of_decide_eq_true same
    have apart := independent.unnamed total listed key.field
      (List.mem_append_right _ (List.mem_map_of_mem member))
    rw [same] at apart
    exact Field.notApart_self _ apart
  have bound : (rows.map (key.field.number offset)).sup < 2 ^ 64 := by
    rw [Nat.lt_iff_le_pred (by decide), Multiset.sup_le]
    intro number inside
    obtain ⟨row, -, rfl⟩ := Multiset.mem_map.mp inside
    exact Nat.le_pred_of_lt (lt_of_lt_of_le (load_width_lt _ _ _) key.field.width.pow_bits_le)
  rw [Branch.cell, branch_totals, missing]
  show (BitVec.ofNat 64 (rows.map fun row => ((key.field.place offset).read row).toNat).sup).toNat = _
  rw [funext (place_number offset key.field), BitVec.toNat_ofNat, Nat.mod_eq_of_lt bound]

theorem cell_total (total : Total) (member : total ∈ branch.totals) (rows : Multiset Record) :
    ((branch.branch offset).cell true (total.field.place offset) rows).toNat =
      total.op.over (rows.map (total.field.number offset)) % 2 ^ total.field.width.bits := by
  have found : (branch.totals.map (Total.term offset)).find?
      (fun term => term.field = total.field.place offset) = some (total.term offset) := by
    have places : (branch.totals.map fun other => other.field.place offset).Nodup := by
      refine List.pairwise_map.mpr (independent.apart.imp fun {one other} apart same => ?_)
      rw [same] at apart
      exact Field.notApart_self _ apart
    rw [List.find?_map]
    exact congrArg (Option.map _) (find_own _ branch.totals places total member)
  have numbers : (rows.map (total.field.place offset).read).map BitVec.toNat =
      rows.map (total.field.number offset) := by
    rw [Multiset.map_map, Function.comp_def, funext (place_number offset total.field)]
  rw [Branch.cell, branch_totals, found, ← numbers, ← over_total]
  show (BitVec.ofNat 64 _).toNat = _
  rw [BitVec.toNat_ofNat]
  apply Nat.mod_eq_of_lt
  exact lt_of_lt_of_le (Nat.mod_lt _ (Nat.two_pow_pos _)) total.field.width.pow_bits_le

/-- The cell of a group has the number of its value. -/
theorem cell_number (value : branch.Value) (rows : Multiset Record)
    (fit : branch.TotalsFit offset rows) :
    ((branch.branch offset).cell true (value.field.place offset) rows).toNat =
      value.number offset rows := by
  cases value with
  | ofKey key member => exact cell_key offset branch independent key member rows
  | ofTotal total member =>
      refine (cell_total offset branch independent total member rows).trans ?_
      exact Nat.mod_eq_of_lt (fit total member)

end Branch

/-- The sums of the groups are no greater than that of all rows. -/
theorem totalsFit_of_sums (offset : String → Option Nat) (branch : BranchScript) (io : IoHandler)
    (trace : List Record) (sums : ∀ total ∈ branch.totals, total.op = .sum)
    (whole : ∀ total ∈ branch.totals,
      (((branch.selection offset io).rows (trace : Multiset Record)).map
        (total.field.number offset)).sum < 2 ^ total.field.width.bits) :
    ∀ rows ∈ classes (branch.selection offset io).key
      ((branch.selection offset io).rows (trace : Multiset Record)),
        branch.TotalsFit offset rows := by
  intro rows listed total member
  obtain ⟨others, apart⟩ := Multiset.le_iff_exists_add.mp
    (Multiset.map_le_map (f := total.field.number offset) (classes_le _ _ rows listed))
  have sum := congrArg Multiset.sum apart
  rw [Multiset.sum_add] at sum
  rw [sums total member]
  exact lt_of_le_of_lt (Nat.le.intro sum.symm) (whole total member)

section Script

variable (offset : String → Option Nat)

theorem selection_meaning (branch : BranchScript) (independent : branch.Independent offset)
    (io : IoHandler) (trace : List Record)
    (fit : ∀ rows ∈ classes (branch.selection offset io).key
      ((branch.selection offset io).rows (trace : Multiset Record)), branch.TotalsFit offset rows) :
    ((branch.branch offset).selection io true).groups (trace : Multiset Record) =
      (branch.selection offset io).groups (trace : Multiset Record) := by
  have accepts : (branch.branch offset).accepts = (branch.selection offset io).accepts := by
    funext row
    show Clauses.dnf _ (branch.filter.map _) = Clauses.dnf _ branch.filter
    rw [dnf_map]
    congr 1
    funext term
    exact (compareDelta_condition term.2 _).trans (congrArg _ (place_number offset term.1 row))
  have key : (fun row => (branch.branch offset).keyClause.map fun term =>
      (term.key.read row).toNat) = (branch.selection offset io).key := by
    funext row
    rw [branch_keyClause, List.map_map]
    exact List.map_congr_left fun key _ => place_number offset key.field row
  refine groups_congr _ ?_ key fun rows listed => ?_
  · show ((trace : Multiset Record).filter fun row => (branch.branch offset).accepts row = true).map
      (copyRecord io.readGetRecordSize) = _
    rw [accepts]
    rfl
  · show Clauses.dnf _ (branch.groupfilter.map _) = Clauses.dnf _ branch.groupfilter
    rw [dnf_map]
    congr 1
    funext term
    exact (compareDelta_condition term.2 _).trans
      (congrArg _ (cell_number offset branch independent term.1 rows (fit rows listed)))

theorem branch_get (branches : List BranchScript) (position : Fin branches.length) :
    (branches.map (BranchScript.branch offset)).get (position.cast (List.length_map _).symm) =
      (branches.get position).branch offset :=
  List.getElem_map _

variable (script : Script) (independent : script.Independent offset)

include independent

theorem flowquery_declarative : (script.flowquery offset).Declarative where
  branches := by
    intro run member
    obtain ⟨branch, listed, rfl⟩ := List.mem_map.mp member
    exact branch_declarative offset branch (independent branch listed)
  comparisons := by
    intro terms inQuery term member
    obtain ⟨clause, -, rfl⟩ := List.mem_map.mp inQuery
    obtain ⟨join, -, rfl⟩ := List.mem_map.mp member
    exact ⟨join.op, rfl⟩
  fields1 := by
    intro terms inQuery term member
    obtain ⟨clause, -, rfl⟩ := List.mem_map.mp inQuery
    obtain ⟨join, -, rfl⟩ := List.mem_map.mp member
    have value := branch_valueFields offset _ join.value1
    rw [← branch_get] at value
    exact value
  fields2 := by
    intro terms inQuery term member
    obtain ⟨clause, -, rfl⟩ := List.mem_map.mp inQuery
    obtain ⟨join, -, rfl⟩ := List.mem_map.mp member
    have value := branch_valueFields offset _ join.value2
    rw [← branch_get] at value
    exact value

theorem join_meets (tuple : List (Multiset Record))
    (fit : ∀ (position : Fin script.branches.length) rows, tuple[position.val]? = some rows →
      (script.branches.get position).TotalsFit offset rows) (join : Join script.branches) :
    MergerTerm.meets (script.flowquery offset).branchset true tuple (join.term offset) =
      join.holds offset tuple := by
  have cell1 := cell_number offset _ (independent _ (List.get_mem _ join.branch1)) join.value1
  have cell2 := cell_number offset _ (independent _ (List.get_mem _ join.branch2)) join.value2
  rw [← branch_get] at cell1 cell2
  unfold MergerTerm.meets Join.holds
  simp only [Join.term, Fin.val_cast]
  cases found1 : tuple[join.branch1.val]? with
  | none => rfl
  | some rows1 =>
      cases found2 : tuple[join.branch2.val]? with
      | none => rfl
      | some rows2 =>
          exact joins_numbers join.op _ _ (cell1 rows1 (fit _ _ found1))
            (cell2 rows2 (fit _ _ found2))

omit independent

/-- A group in a tuple is one of its branch's classes. -/
theorem tuple_fit (io : IoHandler) (trace : List Record) (fit : script.TotalsFit offset io trace)
    (tuple : List (Multiset Record))
    (member : tuple ∈ product ((script.meaning offset io).selections.map fun selection =>
      selection.groups (trace : Multiset Record)))
    (position : Fin script.branches.length) (rows : Multiset Record)
    (found : tuple[position.val]? = some rows) :
    (script.branches.get position).TotalsFit offset rows := by
  obtain ⟨length, chosen⟩ := List.forall₂_iff_get.mp ((mem_product _ tuple).mp member)
  obtain ⟨inside, rfl⟩ := List.getElem?_eq_some_iff.mp found
  have kept := chosen position.val (by rw [length]; exact inside) inside
  simp only [List.get_eq_getElem, Script.meaning, List.getElem_map] at kept
  exact fit _ (List.get_mem _ position) _ (List.mem_filter.mp kept).1

include independent

/-- On a trace whose totals fit, the flowquery of a script means what the script means. -/
theorem flowquery_meaning (io : IoHandler) (trace : List Record)
    (fit : script.TotalsFit offset io trace) :
    ((script.flowquery offset).query io true).tuples (trace : Multiset Record) =
      (script.meaning offset io).tuples (trace : Multiset Record) := by
  refine tuples_congr _ ?_ fun tuple member => ?_
  · unfold Flowquery.query Script.meaning Script.flowquery
    simp only [List.map_map]
    exact List.map_congr_left fun branch listed =>
      selection_meaning offset branch (independent branch listed) io trace (fit branch listed)
  · show (List.headD (script.joins.toList.map _) []).all _ = (script.joins.getD []).all _
    have meets := join_meets offset script independent tuple
      (tuple_fit offset script io trace fit tuple member)
    cases script.joins with
    | none => rfl
    | some joins =>
        show (joins.map _).all _ = joins.all _
        exact List.all_map.trans (congrArg joins.all (funext meets))

end Script

end Nfql
