import Nfql.IpfixLayout
import Nfql.JsonQuery

set_option autoImplicit false

/- What parsing a query leaves of the template: the registrations alone change it. -/
namespace Nfql

open JsonC

section Preserved

variable {σ α β : Type} {I : σ → Prop} {F : Fault → Prop}

/-- From a template with the property `I`, the run ends in one that has it, or with a
fault that satisfies `F`. -/
def Preserves (I : σ → Prop) (F : Fault → Prop) (run : Parser σ α) : Prop :=
  ∀ templ, I templ →
    match run templ with
    | .ok (_, templ') => I templ'
    | .error fault => F fault

theorem Preserves.pure (a : α) : Preserves I F (Pure.pure a : Parser σ α) :=
  fun _ holds => holds

theorem Preserves.fail (fault : Fault) (allowed : F fault) :
    Preserves I F (Parser.fail fault : Parser σ α) :=
  fun _ _ => allowed

theorem Preserves.bind {first : Parser σ α} {next : α → Parser σ β} (here : Preserves I F first)
    (later : ∀ a, Preserves I F (next a)) : Preserves I F (first >>= next) := by
  intro templ holds
  have before := here templ holds
  have sequence : (first >>= next) templ = first templ >>= fun reached => next reached.1 reached.2 :=
    rfl
  rw [sequence]
  cases run : first templ with
  | error fault =>
      rw [run] at before
      exact before
  | ok reached =>
      rw [run] at before
      exact later reached.1 reached.2 before

theorem Preserves.mapM (f : β → Parser σ α) (items : List β)
    (each : ∀ item, Preserves I F (f item)) : Preserves I F (items.mapM f) := by
  induction items with
  | nil =>
      rw [List.mapM_nil]
      exact Preserves.pure _
  | cons item rest ih =>
      rw [List.mapM_cons]
      exact (each item).bind fun _ => ih.bind fun _ => Preserves.pure _

theorem Preserves.whenEnabled (enabled : Bool) (parse : Parser σ (List α))
    (here : Preserves I F parse) : Preserves I F (whenEnabled enabled parse) := by
  cases enabled with
  | false => exact Preserves.pure _
  | true => exact here

variable (null : F .nullPointer)

include null

theorem Preserves.arrayEach (array : Option Json) (turn : Option Json → Parser σ α)
    (each : ∀ item, Preserves I F (turn item)) : Preserves I F (arrayEach array turn) := by
  unfold Nfql.arrayEach
  cases arrayLength array with
  | none => exact Preserves.fail _ null
  | some length => exact Preserves.mapM _ _ fun index => each _

theorem Preserves.parseDnf (parseTerm : Option Json → Parser σ α)
    (each : ∀ item, Preserves I F (parseTerm item)) (stage : Option Json) :
    Preserves I F (parseDnf parseTerm stage) :=
  Preserves.arrayEach null _ _ fun _ => Preserves.arrayEach null _ _ fun _ => each _

end Preserved

section Parsers

variable {σ : Type} {I : σ → Prop} {F : Fault → Prop} (reader : QueryReader σ)
  (null : F .nullPointer)

include null

theorem Preserves.strdup (json : Option Json) : Preserves I F (strdup reader json) := by
  unfold Nfql.strdup
  cases getString reader.library json with
  | none => exact Preserves.fail _ null
  | some text => exact Preserves.pure _

variable (registers : reader.ipfixEnabled = true → ∀ templ ieName, I templ →
  match reader.ipfixTemplIeRegister templ ieName with
  | none => F (.errExit "ipfix_templ_ie_register")
  | some templ' => I templ')

include registers

theorem Preserves.registerIpfixIe (ie : Option Json) :
    Preserves I F (registerIpfixIe reader ie) := by
  unfold Nfql.registerIpfixIe
  cases getString reader.library ie with
  | none =>
      cases reader.ipfixEnabled with
      | false => exact Preserves.pure _
      | true => exact Preserves.fail _ null
  | some ieName =>
      intro templ holds
      simp only [registerName]
      cases on : reader.ipfixEnabled with
      | false => exact holds
      | true =>
          have registered := registers on templ ieName holds
          rw [if_pos rfl]
          cases result : reader.ipfixTemplIeRegister templ ieName with
          | none =>
              rw [result] at registered
              exact registered
          | some next =>
              rw [result] at registered
              exact registered

theorem Preserves.parseFilterTerm (termItems : Option Json) :
    Preserves I F (parseFilterTerm reader termItems) := by
  unfold Nfql.parseFilterTerm
  refine (Preserves.registerIpfixIe reader null registers _).bind fun _ => ?_
  refine (Preserves.strdup reader null _).bind fun _ => ?_
  refine (Preserves.strdup reader null _).bind fun _ => ?_
  exact (Preserves.strdup reader null _).bind fun _ => Preserves.pure _

theorem Preserves.parseAggrTerm (termItems : Option Json) :
    Preserves I F (parseAggrTerm reader termItems) := by
  unfold Nfql.parseAggrTerm
  refine (Preserves.registerIpfixIe reader null registers _).bind fun _ => ?_
  refine (Preserves.strdup reader null _).bind fun _ => ?_
  refine (Preserves.strdup reader null _).bind fun _ => ?_
  exact (Preserves.strdup reader null _).bind fun _ => Preserves.pure _

theorem Preserves.parseGrouperTerm (termItems : Option Json) :
    Preserves I F (parseGrouperTerm reader termItems) := by
  unfold Nfql.parseGrouperTerm
  refine (Preserves.registerIpfixIe reader null registers _).bind fun _ => ?_
  refine (Preserves.registerIpfixIe reader null registers _).bind fun _ => ?_
  refine (Preserves.strdup reader null _).bind fun _ => ?_
  refine (Preserves.strdup reader null _).bind fun _ => ?_
  refine (Preserves.strdup reader null _).bind fun _ => ?_
  refine (Preserves.strdup reader null _).bind fun _ => ?_
  refine (Preserves.strdup reader null _).bind fun _ => ?_
  exact (Preserves.strdup reader null _).bind fun _ => Preserves.pure _

theorem Preserves.parseMergerTerm (termItems : Option Json) :
    Preserves I F (parseMergerTerm reader termItems) := by
  unfold Nfql.parseMergerTerm
  refine (Preserves.registerIpfixIe reader null registers _).bind fun _ => ?_
  refine (Preserves.registerIpfixIe reader null registers _).bind fun _ => ?_
  refine (Preserves.strdup reader null _).bind fun _ => ?_
  refine (Preserves.strdup reader null _).bind fun _ => ?_
  refine (Preserves.strdup reader null _).bind fun _ => ?_
  refine (Preserves.strdup reader null _).bind fun _ => ?_
  refine (Preserves.strdup reader null _).bind fun _ => ?_
  exact (Preserves.strdup reader null _).bind fun _ => Preserves.pure _

theorem Preserves.parseBranch (stages : Stages) (branchJson : Option Json) :
    Preserves I F (parseBranch reader stages branchJson) := by
  unfold Nfql.parseBranch
  refine (Preserves.whenEnabled _ _ (Preserves.parseDnf null _
    (Preserves.parseFilterTerm reader null registers) _)).bind fun _ => ?_
  refine (Preserves.whenEnabled _ _ (Preserves.parseDnf null _
    (Preserves.parseGrouperTerm reader null registers) _)).bind fun _ => ?_
  refine (Preserves.whenEnabled _ _ (Preserves.arrayEach null _ _ fun _ =>
    Preserves.parseAggrTerm reader null registers _)).bind fun _ => ?_
  exact (Preserves.whenEnabled _ _ (Preserves.parseDnf null _
    (Preserves.parseFilterTerm reader null registers) _)).bind fun _ => Preserves.pure _

theorem Preserves.parseBranches (stages : Stages) (branches : List (Option Json)) :
    Preserves I F (parseBranches reader stages branches) := by
  induction branches generalizing stages with
  | nil => exact Preserves.pure _
  | cons branchJson rest ih =>
      unfold Nfql.parseBranches
      exact (Preserves.parseBranch reader null registers stages branchJson).bind fun _ =>
        (ih _).bind fun _ => Preserves.pure _

/-- A property that registrations keep is kept by `parse_json_query`. -/
theorem Preserves.parseJsonQuery (query : Option Json) :
    Preserves I F (parseJsonQuery reader query) := by
  simp only [Nfql.parseJsonQuery]
  cases arrayLength (objectGet query "branchset") with
  | none => exact Preserves.fail _ null
  | some numBranches =>
      refine (Preserves.parseBranches reader null registers _ _).bind fun _ => ?_
      exact (Preserves.whenEnabled _ _ (Preserves.parseDnf null _
        (Preserves.parseMergerTerm reader null registers) _)).bind fun _ => Preserves.pure _

end Parsers

section Ipfix

/-- Queries in IPFIX mode. A failed assertion ends the registration as a failure does. -/
def QueryReader.ipfix (library : Library) : QueryReader IpfixTempl where
  library := library
  ipfixEnabled := true
  ipfixTemplIeRegister templ ieName :=
    match Nfql.ipfixTemplIeRegister templ ieName with
    | .ok registered => registered
    | .error _ => none
  ioReadGetFieldOffset := ipfixTemplGetIeOffset

/-- A new name makes one new element at the end. -/
theorem register_shape (templ templ' : IpfixTempl) (ieName : String)
    (run : ipfixTemplIeRegister templ ieName = .ok (some templ'))
    (missing : ieName ∉ templ.arr.map IpfixIe.name) :
    ∃ ie, ie.name = ieName ∧ templ'.arr = templ.arr ++ [ie] := by
  have absent : ¬ (ipfixTemplGetIe templ ieName).isSome = true :=
    fun found => missing ((ipfixTemplGetIe_isSome ieName).mp found)
  simp only [ipfixTemplIeRegister, if_neg absent] at run
  split at run
  · cases run
  · obtain ⟨_, -, run⟩ := bind_eq_ok run
    cases run
    exact ⟨_, rfl, rfl⟩

/-- If all its elements have fixed sizes, the template is laid out by their alignment. -/
def AlignedIfFixed (templ : IpfixTempl) : Prop :=
  (∀ ie ∈ templ.arr, FixedSize ie.name) → templ.Aligned

theorem register_alignedIfFixed (templ templ' : IpfixTempl) (ieName : String)
    (run : ipfixTemplIeRegister templ ieName = .ok (some templ')) (before : AlignedIfFixed templ) :
    AlignedIfFixed templ' := by
  intro fixed
  by_cases known : ieName ∈ templ.arr.map IpfixIe.name
  · rw [register_again ieName known] at run
    cases run
    exact before fixed
  · obtain ⟨ie, rfl, arr⟩ := register_shape templ templ' ieName run known
    rw [arr] at fixed
    have aligned := before fun other member => fixed other (List.mem_append_left _ member)
    obtain ⟨ie', next, run', -, -, -, aligned'⟩ :=
      register_new aligned ie.name (fixed ie (by simp)) known
    rw [run] at run'
    cases run'
    exact aligned'

theorem registrations_alignedIfFixed (names : List String) (templ templ' : IpfixTempl)
    (run : ipfixTemplRegisterAll templ names = .ok (some templ'))
    (before : AlignedIfFixed templ) : AlignedIfFixed templ' := by
  induction names generalizing templ with
  | nil =>
      cases run
      exact before
  | cons ieName rest ih =>
      rw [ipfixTemplRegisterAll] at run
      cases step : ipfixTemplIeRegister templ ieName with
      | error fault =>
          rw [step] at run
          cases run
      | ok registered =>
          rw [step] at run
          cases registered with
          | none => cases run
          | some next =>
              exact ih next run (register_alignedIfFixed templ next ieName step before)

/-- The template that a query has been read with. -/
theorem parseJsonQuery_aligned (library : Library) (templ templ' : IpfixTempl)
    (new : ipfixTemplNew = .ok (some templ)) (query : Option Json) (parsed : Stages × JsonQuery)
    (run : parseJsonQuery (QueryReader.ipfix library) query templ = .ok (parsed, templ'))
    (fixed : ∀ ie ∈ templ'.arr, FixedSize ie.name) : templ'.Aligned := by
  have start : AlignedIfFixed templ := registrations_alignedIfFixed _ _ _ new
    fun _ => IpfixTempl.Aligned.empty
  have kept := Preserves.parseJsonQuery (I := AlignedIfFixed) (F := fun _ => True)
    (QueryReader.ipfix library) trivial ?_ query templ start
  · rw [run] at kept
    exact kept fixed
  · intro _ templ ieName before
    simp only [QueryReader.ipfix]
    cases result : ipfixTemplIeRegister templ ieName with
    | error fault => trivial
    | ok registered =>
        cases registered with
        | none => trivial
        | some next => exact register_alignedIfFixed templ next ieName result before

end Ipfix

end Nfql
