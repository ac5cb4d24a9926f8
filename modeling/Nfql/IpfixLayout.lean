import Mathlib.Data.List.Perm.Subperm
import Mathlib.Order.Bounds.Basic
import Nfql.AlignedFields
import Nfql.IpfixTempl

set_option autoImplicit false

/- The layout of the IPFIX record, and the one that libfixbuf is told. -/
namespace Nfql

open AlignedFields

section Sizes

/-- The name belongs to an information element of a fixed size. -/
def FixedSize (ieName : String) : Prop := 0 < ipfixIeTypeSizeof (getIpfixType ieName)

instance (ieName : String) : Decidable (FixedSize ieName) :=
  inferInstanceAs (Decidable (0 < ipfixIeTypeSizeof (getIpfixType ieName)))

theorem sizeof_le (type : IeType) : ipfixIeTypeSizeof type ≤ 16 := by cases type <;> decide

theorem sizeT_of_lt (value : Int) (nonneg : 0 ≤ value) (small : value < 2 ^ 64) :
    (sizeT value : Int) = value := by
  unfold sizeT
  rw [Int.emod_eq_of_lt nonneg small]
  exact Int.toNat_of_nonneg nonneg

theorem sizeT_natCast (value : Nat) (small : value < 2 ^ 64) : sizeT value = value := by
  have exact := sizeT_of_lt value (by omega) (by omega)
  omega

/-- Below the end of the address space, padding rounds up. -/
theorem paddedOffset_eq (nextOffset size : Nat) (positive : 0 < size)
    (small : nextOffset + size < 2 ^ 64) : paddedOffset nextOffset size = roundUp nextOffset size := by
  have rest := Nat.mod_lt nextOffset positive
  simp only [paddedOffset, roundUp]
  by_cases aligned : nextOffset % size = 0
  · rw [if_pos aligned, if_neg (not_not_intro aligned)]
  · rw [if_neg aligned, if_pos aligned]
    have exact := sizeT_of_lt (nextOffset + (size - (nextOffset % size : Nat))) (by omega) (by omega)
    omega

theorem ssizeT_of_lt (value : Int) (nonneg : 0 ≤ value) (small : value < 2 ^ 63) :
    ssizeT value = value := by
  unfold ssizeT
  apply Int.bmod_eq_of_le <;> omega

/-- A fixed size is a positive `size_t` of at most 16. -/
theorem sizeT_sizeof (ieName : String) (fixed : FixedSize ieName) :
    (sizeT (ipfixIeTypeSizeof (getIpfixType ieName)) : Int) =
        ipfixIeTypeSizeof (getIpfixType ieName) ∧
      0 < sizeT (ipfixIeTypeSizeof (getIpfixType ieName)) ∧
      sizeT (ipfixIeTypeSizeof (getIpfixType ieName)) ≤ 16 := by
  have most := sizeof_le (getIpfixType ieName)
  have exact := sizeT_of_lt (ipfixIeTypeSizeof (getIpfixType ieName)) (le_of_lt fixed) (by omega)
  unfold FixedSize at fixed
  omega

theorem FixedSize.known (ieName : String) (fixed : FixedSize ieName) :
    getIpfixType ieName ≠ .unknown ∧ ieName ∈ ipfixTypes.map Prod.fst := by
  have known : getIpfixType ieName ≠ .unknown := by
    intro unknown
    unfold FixedSize at fixed
    rw [unknown] at fixed
    exact absurd fixed (by decide)
  refine ⟨known, ?_⟩
  by_contra missing
  apply known
  have none : ipfixTypes.lookup ieName = none := by
    rw [List.lookup_eq_none_iff]
    intro entry member
    rw [bne_iff_ne]
    rintro rfl
    exact missing (List.mem_map_of_mem member)
  rw [getIpfixType, none]
  rfl

end Sizes

section Templates

/-- A template of fixed-size elements, laid out without gaps beyond their alignment. -/
structure IpfixTempl.Aligned (templ : IpfixTempl) : Prop where
  names : (templ.arr.map IpfixIe.name).Nodup
  fixed : ∀ ie ∈ templ.arr, FixedSize ie.name
  sizes : ∀ ie ∈ templ.arr, ie.size = sizeT (ipfixIeTypeSizeof (getIpfixType ie.name))
  laid : Laid IpfixIe.offset IpfixIe.size 0 templ.arr templ.nextOffset

theorem IpfixTempl.Aligned.empty : IpfixTempl.empty.Aligned :=
  ⟨List.nodup_nil, by simp [IpfixTempl.empty], by simp [IpfixTempl.empty], rfl⟩

variable {templ : IpfixTempl}

theorem IpfixTempl.Aligned.size_pos (aligned : templ.Aligned) :
    ∀ ie ∈ templ.arr, 0 < ie.size ∧ ie.size ≤ 16 := by
  intro ie member
  rw [aligned.sizes ie member]
  exact (sizeT_sizeof ie.name (aligned.fixed ie member)).2

/-- The table of names bounds the template. -/
theorem IpfixTempl.Aligned.nextOffset_lt (aligned : templ.Aligned) :
    templ.nextOffset < 2 ^ 32 := by
  have listed : templ.arr.map IpfixIe.name ⊆ ipfixTypes.map Prod.fst := by
    intro name member
    obtain ⟨ie, inside, rfl⟩ := List.mem_map.mp member
    exact (FixedSize.known ie.name (aligned.fixed ie inside)).2
  have count := (List.subperm_of_subset aligned.names listed).length_le
  rw [List.length_map, List.length_map] at count
  have table : ipfixTypes.length = 342 := by decide +kernel
  have space := aligned.laid.stop_le 16 aligned.size_pos
  omega

theorem ipfixTemplGetIe_isSome (ieName : String) :
    (ipfixTemplGetIe templ ieName).isSome = true ↔ ieName ∈ templ.arr.map IpfixIe.name := by
  rw [ipfixTemplGetIe, List.find?_isSome, List.mem_map]
  constructor
  · rintro ⟨ie, inside, same⟩
    exact ⟨ie, inside, (of_decide_eq_true same).symm⟩
  · rintro ⟨ie, inside, same⟩
    exact ⟨ie, inside, decide_eq_true same.symm⟩

/-- A name that is there already is not registered again. -/
theorem register_again (ieName : String) (known : ieName ∈ templ.arr.map IpfixIe.name) :
    ipfixTemplIeRegister templ ieName = .ok (some templ) := by
  rw [ipfixTemplIeRegister, if_pos ((ipfixTemplGetIe_isSome ieName).mpr known)]

/-- A new name is placed at the next multiple of its size. -/
theorem register_new (aligned : templ.Aligned) (ieName : String) (fixed : FixedSize ieName)
    (missing : ieName ∉ templ.arr.map IpfixIe.name) :
    ∃ ie templ', ipfixTemplIeRegister templ ieName = .ok (some templ') ∧ ie.name = ieName ∧
      ie.offset = roundUp templ.nextOffset ie.size ∧ templ'.arr = templ.arr ++ [ie] ∧
        templ'.Aligned := by
  obtain ⟨exact, positive, most⟩ := sizeT_sizeof ieName fixed
  have small := aligned.nextOffset_lt
  have absent : ¬ (ipfixTemplGetIe templ ieName).isSome = true :=
    fun found => missing ((ipfixTemplGetIe_isSome ieName).mp found)
  have known := (FixedSize.known ieName fixed).1
  have space : templ.nextOffset + sizeT (ipfixIeTypeSizeof (getIpfixType ieName)) < 2 ^ 64 := by
    omega
  have placed := paddedOffset_eq templ.nextOffset _ positive space
  have whole := roundUp_aligned templ.nextOffset _ positive
  have near := roundUp_lt templ.nextOffset _ positive
  generalize size_eq : sizeT (ipfixIeTypeSizeof (getIpfixType ieName)) = size at *
  let ie : IpfixIe := ⟨ieName, roundUp templ.nextOffset size, size, getIpfixType ieName⟩
  refine ⟨ie, ⟨templ.arr ++ [ie], ie.offset + ie.size⟩, ?_, rfl, rfl, rfl, ?_, ?_, ?_, ?_⟩
  · have next : sizeT ((roundUp templ.nextOffset size : Nat) + (size : Nat)) =
        roundUp templ.nextOffset size + size := by
      have exact := sizeT_of_lt ((roundUp templ.nextOffset size : Nat) + (size : Nat))
        (by omega) (by omega)
      omega
    simp only [ipfixTemplIeRegister, if_neg absent, if_neg known, size_eq, placed, whole, assert,
      beq_self_eq_true, ↓reduceIte, ok_bind, next]
    rfl
  · show ((templ.arr ++ [ie]).map IpfixIe.name).Nodup
    rw [List.map_append, List.map_singleton, ← List.concat_eq_append, List.nodup_concat]
    exact ⟨missing, aligned.names⟩
  · intro other member
    rcases List.mem_append.mp member with old | new
    · exact aligned.fixed other old
    · rw [List.mem_singleton.mp new]
      exact fixed
  · intro other member
    rcases List.mem_append.mp member with old | new
    · exact aligned.sizes other old
    · rw [List.mem_singleton.mp new]
      exact size_eq.symm
  · exact aligned.laid.snoc ie rfl

/-- One registration keeps the layout, keeps the elements that are there, and knows the
name afterwards. -/
theorem register_step (aligned : templ.Aligned) (ieName : String) (fixed : FixedSize ieName) :
    ∃ templ', ipfixTemplIeRegister templ ieName = .ok (some templ') ∧ templ'.Aligned ∧
      templ.arr <+: templ'.arr ∧ ∀ name, name ∈ templ'.arr.map IpfixIe.name ↔
        name ∈ templ.arr.map IpfixIe.name ∨ name = ieName := by
  by_cases known : ieName ∈ templ.arr.map IpfixIe.name
  · refine ⟨templ, register_again ieName known, aligned, List.prefix_rfl, fun name => ?_⟩
    constructor
    · exact .inl
    · rintro (old | rfl)
      · exact old
      · exact known
  · obtain ⟨ie, templ', run, rfl, -, arr, aligned'⟩ := register_new aligned ieName fixed known
    refine ⟨templ', run, aligned', arr ▸ List.prefix_append _ _, fun name => ?_⟩
    rw [arr, List.map_append, List.mem_append, List.map_singleton, List.mem_singleton]

/-- So does a sequence of registrations. -/
theorem registrations_run (aligned : templ.Aligned) (names : List String)
    (fixed : ∀ name ∈ names, FixedSize name) :
    ∃ templ', ipfixTemplRegisterAll templ names = .ok (some templ') ∧ templ'.Aligned ∧
      templ.arr <+: templ'.arr ∧ ∀ name, name ∈ templ'.arr.map IpfixIe.name ↔
        name ∈ templ.arr.map IpfixIe.name ∨ name ∈ names := by
  induction names generalizing templ with
  | nil => exact ⟨templ, rfl, aligned, List.prefix_rfl, by simp⟩
  | cons ieName rest ih =>
      obtain ⟨here, others⟩ := List.forall_mem_cons.mp fixed
      obtain ⟨next, step, aligned', kept, known⟩ := register_step aligned ieName here
      obtain ⟨templ', run, aligned'', kept', known'⟩ := ih aligned' others
      refine ⟨templ', ?_, aligned'', kept.trans kept', fun name => ?_⟩
      · rw [ipfixTemplRegisterAll, step]
        exact run
      · rw [known', known, List.mem_cons, or_assoc]

theorem registrations_append (names later : List String) :
    ipfixTemplRegisterAll templ (names ++ later) = (do
      match ← ipfixTemplRegisterAll templ names with
      | none => .ok none
      | some templ => ipfixTemplRegisterAll templ later) := by
  induction names generalizing templ with
  | nil => rfl
  | cons ieName rest ih =>
      rw [List.cons_append, ipfixTemplRegisterAll, ipfixTemplRegisterAll]
      cases ipfixTemplIeRegister templ ieName with
      | error fault => rfl
      | ok registered =>
          cases registered with
          | none => rfl
          | some templ => exact ih

end Templates

section Specs

/-- The spec element for a piece of the layout. -/
def pieceSpec : Option IpfixIe × Nat → FbInfoElementSpec
  | (none, gap) => fbtemplPadding gap
  | (some ie, _) => ⟨some ie.name, 0⟩

/-- The loop body emits the gap before an element, if there is one, and the element. -/
theorem addIe_ok (spec : List FbInfoElementSpec) (currOffset : Nat) (ie : IpfixIe)
    (before : currOffset ≤ ie.offset) (near : ie.offset < currOffset + 64)
    (small : ie.offset + ie.size < 2 ^ 63) :
    addIe (spec, (currOffset : Int)) ie =
      .ok (spec ++ (filled IpfixIe.offset IpfixIe.size currOffset [ie]).map pieceSpec,
        ((ie.offset + ie.size : Nat) : Int)) := by
  have here : sizeT (currOffset : Int) = currOffset := sizeT_natCast currOffset (by omega)
  have stop : ssizeT ((ie.offset : Int) + ie.size) = ((ie.offset + ie.size : Nat) : Int) := by
    rw [ssizeT_of_lt _ (by omega) (by omega)]
    omega
  by_cases same : ie.offset = currOffset
  · subst same
    simp only [addIe, here, ne_eq, not_true_eq_false, ↓reduceIte, ok_bind, stop, filled,
      List.nil_append, List.map_cons, List.map_nil, pieceSpec]
  · have gap : ssizeT ((ie.offset : Int) - currOffset) = (ie.offset : Int) - currOffset :=
      ssizeT_of_lt _ (by omega) (by omega)
    have next : ssizeT ((currOffset : Int) + ((ie.offset : Int) - currOffset)) = ie.offset := by
      rw [ssizeT_of_lt _ (by omega) (by omega)]
      omega
    have allowed : (decide (0 < (ie.offset : Int) - currOffset) &&
        decide ((ie.offset : Int) - currOffset < 64)) = true := by
      rw [Bool.and_eq_true, decide_eq_true_eq, decide_eq_true_eq]
      omega
    have cast : ((ie.offset - currOffset : Nat) : Int) = (ie.offset : Int) - currOffset := by omega
    simp only [addIe, here, ne_eq, same, not_false_eq_true, ↓reduceIte, gap, assert, allowed,
      ok_bind, next, stop, filled, List.map_append, List.map_cons, List.map_nil, pieceSpec, cast,
      List.append_assoc]

/-- The loop emits the pieces of the layout, and none of its assertions fails. -/
theorem addIe_loop (start stop : Nat) (arr : List IpfixIe) (spec : List FbInfoElementSpec)
    (laid : Laid IpfixIe.offset IpfixIe.size start arr stop)
    (sizes : ∀ ie ∈ arr, 0 < ie.size ∧ ie.size ≤ 16) (small : stop < 2 ^ 63) :
    arr.foldlM addIe (spec, (start : Int)) =
      .ok (spec ++ (filled IpfixIe.offset IpfixIe.size start arr).map pieceSpec, (stop : Int)) := by
  induction arr generalizing start spec with
  | nil =>
      cases laid
      rw [List.foldlM_nil, filled, List.map_nil, List.append_nil]
      rfl
  | cons ie rest ih =>
      obtain ⟨here, others⟩ := List.forall_mem_cons.mp sizes
      have before := le_roundUp start ie.size
      have near := roundUp_lt start ie.size here.1
      rw [← laid.1] at before near
      have inside := laid.2.start_le
      rw [List.foldlM_cons, addIe_ok spec start ie before (by omega) (by omega), ok_bind,
        ih _ _ laid.2 others, List.append_assoc, ← List.map_append]
      simp only [filled, List.append_assoc, List.cons_append, List.nil_append]

end Specs

section Libfixbuf

variable (defaultLength : String → Nat)

/-- The elements up to the one without a name, with the lengths that libfixbuf gives them:
the overriding one, or the default of the information element. -/
def fbElements : List FbInfoElementSpec → List (String × Nat)
  | ⟨some name, lenOverride⟩ :: rest =>
      (name, if lenOverride = 0 then defaultLength name else lenOverride) :: fbElements rest
  | _ => []

/-- The offsets at which libfixbuf puts the elements. -/
def fbPositions (spec : List FbInfoElementSpec) : List (String × Nat) :=
  positions 0 (fbElements defaultLength spec)

/-- The length of a record of these elements. -/
def fbLength (spec : List FbInfoElementSpec) : Nat := extent (fbElements defaultLength spec)

/-- The element is no padding. -/
def isIe (element : String × Nat) : Bool := decide (element.1 ≠ "paddingOctets")

/-- The name of a piece of the layout. -/
def pieceName (piece : Option IpfixIe) : String :=
  match piece with
  | none => "paddingOctets"
  | some ie => ie.name

/-- The default lengths of fixed-size elements are the sizes used here. -/
def DefaultLengths : Prop :=
  ∀ ieName, FixedSize ieName → (defaultLength ieName : Int) = ipfixIeTypeSizeof (getIpfixType ieName)

variable {defaultLength}

theorem fbElements_pieces (agrees : DefaultLengths defaultLength) {templ : IpfixTempl}
    (aligned : templ.Aligned) (pieces : List (Option IpfixIe × Nat))
    (each : ∀ piece ∈ pieces, IsPiece IpfixIe.size templ.arr piece)
    (rest : List FbInfoElementSpec) :
    fbElements defaultLength (pieces.map pieceSpec ++ rest) =
      pieces.map (Prod.map pieceName id) ++ fbElements defaultLength rest := by
  induction pieces with
  | nil => rfl
  | cons piece pieces ih =>
      obtain ⟨here, others⟩ := List.forall_mem_cons.mp each
      rw [List.map_cons, List.cons_append, List.map_cons, List.cons_append, ← ih others]
      obtain ⟨kind, length⟩ := piece
      cases kind with
      | none =>
          have positive : 0 < length := here
          show (_, if ((length : Nat) : Int).toNat = 0 then _ else _) :: _ = _
          rw [Int.toNat_natCast, if_neg (by omega)]
          rfl
      | some ie =>
          obtain ⟨inside, rfl⟩ := here
          have fixed := aligned.fixed ie inside
          have same : defaultLength ie.name = ie.size := by
            have exact := (sizeT_sizeof ie.name fixed).1
            have default := agrees ie.name fixed
            rw [aligned.sizes ie inside]
            omega
          show (_, if (0 : Nat) = 0 then _ else _) :: _ = _
          rw [if_pos rfl, same]
          rfl

theorem not_padding (ieName : String) (fixed : FixedSize ieName) : ieName ≠ "paddingOctets" := by
  rintro rfl
  exact absurd fixed (by decide +kernel)

/-- The padding at the end of a record. -/
def tailPieces (stop : Nat) : List (String × Nat) :=
  if stop % 8 = 0 then [] else [("paddingOctets", 8 - stop % 8)]

/-- libfixbuf is told the pieces of the layout and the padding at the end. -/
theorem ipfixGetFbInfoElemSpec_ok (agrees : DefaultLengths defaultLength) {templ : IpfixTempl}
    (aligned : templ.Aligned) :
    ∃ spec, ipfixGetFbInfoElemSpec templ = .ok spec ∧ fbElements defaultLength spec =
      (filled IpfixIe.offset IpfixIe.size 0 templ.arr).map (Prod.map pieceName id) ++
        tailPieces templ.nextOffset := by
  have small := aligned.nextOffset_lt
  have loop := addIe_loop 0 templ.nextOffset templ.arr [] aligned.laid aligned.size_pos (by omega)
  have signed : ((templ.nextOffset : Nat) : Int).tmod 8 = ((templ.nextOffset % 8 : Nat) : Int) := by
    rw [Int.tmod_eq_emod_of_nonneg (by omega)]
    omega
  have pieces := fbElements_pieces agrees aligned _ aligned.laid.filled_pieces
  rw [List.nil_append] at loop
  unfold ipfixGetFbInfoElemSpec
  rw [show ((0 : Int)) = ((0 : Nat) : Int) from rfl, loop, ok_bind]
  refine ⟨_, rfl, ?_⟩
  rw [List.append_assoc, pieces, signed]
  congr 1
  unfold tailPieces
  by_cases whole : templ.nextOffset % 8 = 0
  · rw [if_pos whole, whole]
    rfl
  · have cast : (8 - ((templ.nextOffset % 8 : Nat) : Int)).toNat = 8 - templ.nextOffset % 8 := by
      omega
    have rest := Nat.mod_lt templ.nextOffset (show 0 < 8 by decide)
    rw [if_neg whole, if_pos (by omega)]
    show (_, if (8 - ((templ.nextOffset % 8 : Nat) : Int)).toNat = 0 then _ else _) :: _ = _
    rw [cast, if_neg (by omega)]
    rfl

/-- Without the padding, the named positions of pieces are those of the fields. -/
theorem filter_padding {templ : IpfixTempl} (aligned : templ.Aligned)
    (placed : List (Option IpfixIe × Nat))
    (inside : ∀ piece ∈ placed, ∀ ie, piece.1 = some ie → ie ∈ templ.arr) :
    (placed.map (Prod.map pieceName id)).filter isIe =
      (placed.filterMap fun piece => piece.1.map fun ie => (ie, piece.2)).map
        fun field => (field.1.name, field.2) := by
  induction placed with
  | nil => rfl
  | cons piece rest ih =>
      obtain ⟨here, others⟩ := List.forall_mem_cons.mp inside
      obtain ⟨kind, position⟩ := piece
      rw [List.map_cons]
      cases kind with
      | none =>
          have padding : ¬ isIe (Prod.map pieceName id (none, position)) = true := by
            simp [isIe, pieceName]
          rw [List.filter_cons_of_neg padding, ih others, List.filterMap_cons_none rfl]
      | some ie =>
          have named := not_padding ie.name (aligned.fixed ie (here ie rfl))
          have kept : isIe (Prod.map pieceName id (some ie, position)) = true :=
            decide_eq_true named
          rw [List.filter_cons_of_pos kept, ih others]
          rfl

/-- The record ends at the next multiple of eight. -/
theorem ipfixTemplGetRecSize_eq (templ : IpfixTempl) (small : templ.nextOffset < 2 ^ 32) :
    ipfixTemplGetRecSize templ = (templ.nextOffset + 7) / 8 * 8 := by
  have exact := sizeT_natCast (templ.nextOffset + 7) (by omega)
  unfold ipfixTemplGetRecSize
  rw [show ((templ.nextOffset : Int) + 7) = ((templ.nextOffset + 7 : Nat) : Int) from rfl, exact,
    Nat.shiftRight_eq_div_pow, Nat.shiftLeft_eq]

end Libfixbuf

section Layouts

/-- The elements have different names and their types' sizes, lie at multiples of these
in increasing order without overlap, and end at `next_offset`. -/
structure IpfixTempl.LaidOut (templ : IpfixTempl) : Prop where
  names : (templ.arr.map IpfixIe.name).Nodup
  sizes : ∀ ie ∈ templ.arr, 0 < ie.size ∧
    (ie.size : Int) = ipfixIeTypeSizeof (getIpfixType ie.name)
  offsets : ∀ ie ∈ templ.arr, ie.offset % ie.size = 0
  increasing : templ.arr.Pairwise fun ie later =>
    ie.offset < later.offset ∧ ie.offset + ie.size ≤ later.offset
  last : ∀ ie, templ.arr.getLast? = some ie → ie.offset + ie.size = templ.nextOffset

/-- The template is what the registrations of the names lead to, and libfixbuf is told
the same layout. -/
structure SameLayout (defaultLength : String → Nat) (names : List String) (templ : IpfixTempl)
    (spec : List FbInfoElementSpec) : Prop where
  registered : ipfixTemplRegisterAll IpfixTempl.empty names = .ok (some templ)
  known : ∀ name, name ∈ templ.arr.map IpfixIe.name ↔ name ∈ names
  laidOut : templ.LaidOut
  /-- No earlier element is moved by a later call. -/
  unmoved : ∀ earlier later, names = earlier ++ later → ∃ before,
    ipfixTemplRegisterAll IpfixTempl.empty earlier = .ok (some before) ∧ before.arr <+: templ.arr
  /-- A repeated name has no effect. -/
  repeated : ∀ name ∈ names, ipfixTemplIeRegister templ name = .ok (some templ)
  /-- None of the assertions on the padding fails. -/
  emitted : ipfixGetFbInfoElemSpec templ = .ok spec
  positions : (fbPositions defaultLength spec).filter isIe =
    templ.arr.map fun ie => (ie.name, ie.offset)
  length : fbLength defaultLength spec = ipfixTemplGetRecSize templ
  recSize : IsLeast { size | 8 ∣ size ∧ templ.nextOffset ≤ size } (ipfixTemplGetRecSize templ)

theorem IpfixTempl.Aligned.laidOut {templ : IpfixTempl} (aligned : templ.Aligned) :
    templ.LaidOut where
  names := aligned.names
  sizes := by
    intro ie member
    refine ⟨(aligned.size_pos ie member).1, ?_⟩
    rw [aligned.sizes ie member]
    exact (sizeT_sizeof ie.name (aligned.fixed ie member)).1
  offsets := aligned.laid.aligned fun ie member => (aligned.size_pos ie member).1
  increasing := by
    refine aligned.laid.ordered.imp_of_mem ?_
    intro ie later member _ ordered
    have positive := (aligned.size_pos ie member).1
    exact ⟨by omega, ordered⟩
  last := aligned.laid.last

/-- Later registrations move no element. -/
theorem registrations_unmoved {templ : IpfixTempl} (earlier later : List String)
    (fixed : ∀ name ∈ earlier ++ later, FixedSize name)
    (run : ipfixTemplRegisterAll IpfixTempl.empty (earlier ++ later) = .ok (some templ)) :
    ∃ before, ipfixTemplRegisterAll IpfixTempl.empty earlier = .ok (some before) ∧
      before.arr <+: templ.arr := by
  obtain ⟨before, first, aligned, -, -⟩ := registrations_run IpfixTempl.Aligned.empty earlier
    fun name member => fixed name (List.mem_append_left _ member)
  obtain ⟨after, second, -, kept, -⟩ := registrations_run aligned later
    fun name member => fixed name (List.mem_append_right _ member)
  rw [registrations_append, first] at run
  have same := second.symm.trans run
  cases same
  exact ⟨before, first, kept⟩

section Emitted

variable {defaultLength : String → Nat} {templ : IpfixTempl} {spec : List FbInfoElementSpec}
  (aligned : templ.Aligned)
  (elements : fbElements defaultLength spec =
    (filled IpfixIe.offset IpfixIe.size 0 templ.arr).map (Prod.map pieceName id) ++
      tailPieces templ.nextOffset)

include aligned elements

/-- Apart from the padding, the emitted elements lie where the template has them. -/
theorem emitted_positions : (fbPositions defaultLength spec).filter isIe =
    templ.arr.map fun ie => (ie.name, ie.offset) := by
  unfold fbPositions
  have inArr : ∀ piece ∈ positions 0 (filled IpfixIe.offset IpfixIe.size 0 templ.arr),
      ∀ ie, piece.1 = some ie → ie ∈ templ.arr := by
    rintro ⟨_, position⟩ member ie rfl
    obtain ⟨length, inside⟩ := mem_positions _ _ _ member
    exact (aligned.laid.filled_pieces _ inside).1
  have tail : ∀ start, (positions start (tailPieces templ.nextOffset)).filter isIe = [] := by
    intro start
    unfold tailPieces
    split <;> rfl
  rw [elements, positions_append, positions_map, List.filter_append, tail, List.append_nil,
    filter_padding aligned _ inArr, aligned.laid.filled_positions, List.map_map]
  rfl

theorem emitted_length : fbLength defaultLength spec = ipfixTemplGetRecSize templ := by
  have extent := aligned.laid.filled_extent
  have lengths : AlignedFields.extent
      ((filled IpfixIe.offset IpfixIe.size 0 templ.arr).map (Prod.map pieceName id)) =
        AlignedFields.extent (filled IpfixIe.offset IpfixIe.size 0 templ.arr) := by
    rw [AlignedFields.extent, List.map_map]
    rfl
  have tail : AlignedFields.extent (tailPieces templ.nextOffset) =
      if templ.nextOffset % 8 = 0 then 0 else 8 - templ.nextOffset % 8 := by
    unfold tailPieces
    split <;> rfl
  rw [fbLength, elements, extent_append, lengths, tail,
    ipfixTemplGetRecSize_eq templ aligned.nextOffset_lt]
  split <;> omega

end Emitted

/-- The record size is the least multiple of eight behind the last element. -/
theorem ipfixTemplGetRecSize_least {templ : IpfixTempl} (aligned : templ.Aligned) :
    IsLeast { size | 8 ∣ size ∧ templ.nextOffset ≤ size } (ipfixTemplGetRecSize templ) := by
  rw [ipfixTemplGetRecSize_eq templ aligned.nextOffset_lt]
  constructor
  · exact ⟨Nat.dvd_mul_left 8 _, by omega⟩
  · rintro other ⟨⟨count, rfl⟩, enough⟩
    omega

/-- The layout of the record and the one told to libfixbuf are the same, whatever
fixed-size elements are registered in whatever order. -/
theorem ipfix_sameLayout (defaultLength : String → Nat) (agrees : DefaultLengths defaultLength)
    (names : List String) (fixed : ∀ name ∈ names, FixedSize name) :
    ∃ templ spec, SameLayout defaultLength names templ spec := by
  obtain ⟨templ, run, aligned, -, known⟩ :=
    registrations_run IpfixTempl.Aligned.empty names fixed
  obtain ⟨spec, emitted, elements⟩ := ipfixGetFbInfoElemSpec_ok agrees aligned
  have known' : ∀ name, name ∈ templ.arr.map IpfixIe.name ↔ name ∈ names := by
    intro name
    rw [known]
    simp [IpfixTempl.empty]
  refine ⟨templ, spec, run, known', aligned.laidOut, ?_, ?_, emitted,
    emitted_positions aligned elements, emitted_length aligned elements,
    ipfixTemplGetRecSize_least aligned⟩
  · rintro earlier later rfl
    exact registrations_unmoved earlier later fixed run
  · intro name member
    exact register_again name ((known' name).mpr member)

theorem ipfix_sameLayout_mixed : ∃ templ spec,
    SameLayout (fun ieName => (ipfixIeTypeSizeof (getIpfixType ieName)).toNat)
      ["protocolIdentifier", "sourceMacAddress", "octetDeltaCount", "protocolIdentifier",
        "sourceIPv6Address"] templ spec :=
  ipfix_sameLayout _ (fun _ fixed => Int.toNat_of_nonneg (le_of_lt fixed)) _ (by decide +kernel)

end Layouts

end Nfql
