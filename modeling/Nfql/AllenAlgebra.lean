import Mathlib.Order.Lattice

set_option autoImplicit false

/- Allen's algebra of intervals over a linear order. -/
namespace AllenAlgebra

/-- An interval of positive length. -/
structure TimeInterval (α : Type) [LinearOrder α] where
  start : α
  stop : α
  proper : start < stop

/-- The thirteen ways in which two intervals can lie to each other. -/
inductive Relation where
  | before | after | meets | metBy | overlaps | overlappedBy | starts | startedBy
  | during | contains | finishes | finishedBy | equals
  deriving DecidableEq, Repr

def Relation.inverse : Relation → Relation
  | .before => .after
  | .after => .before
  | .meets => .metBy
  | .metBy => .meets
  | .overlaps => .overlappedBy
  | .overlappedBy => .overlaps
  | .starts => .startedBy
  | .startedBy => .starts
  | .during => .contains
  | .contains => .during
  | .finishes => .finishedBy
  | .finishedBy => .finishes
  | .equals => .equals

variable {α : Type} [LinearOrder α]

def Relation.Holds (relation : Relation) (first second : TimeInterval α) : Prop :=
  match relation with
  | .before => first.stop < second.start
  | .after => second.stop < first.start
  | .meets => first.stop = second.start
  | .metBy => second.stop = first.start
  | .overlaps => first.start < second.start ∧ second.start < first.stop ∧ first.stop < second.stop
  | .overlappedBy =>
      second.start < first.start ∧ first.start < second.stop ∧ second.stop < first.stop
  | .starts => first.start = second.start ∧ first.stop < second.stop
  | .startedBy => first.start = second.start ∧ second.stop < first.stop
  | .during => second.start < first.start ∧ first.stop < second.stop
  | .contains => first.start < second.start ∧ second.stop < first.stop
  | .finishes => second.start < first.start ∧ first.stop = second.stop
  | .finishedBy => first.start < second.start ∧ first.stop = second.stop
  | .equals => first.start = second.start ∧ first.stop = second.stop

/-- The inverse relation holds of the exchanged intervals. -/
theorem Relation.inverse_holds (relation : Relation) (first second : TimeInterval α) :
    relation.inverse.Holds second first ↔ relation.Holds first second := by
  cases relation <;> simp only [inverse, Holds, eq_comm]

/-- At most one relation holds. -/
theorem Relation.unique (relation other : Relation) (first second : TimeInterval α)
    (holds : relation.Holds first second) (holds' : other.Holds first second) :
    relation = other := by
  have proper := first.proper
  have proper' := second.proper
  cases relation <;> cases other <;> simp only [Holds] at holds holds' <;> grind

/-- Some relation holds. -/
theorem exists_relation (first second : TimeInterval α) :
    ∃ relation : Relation, relation.Holds first second := by
  have proper := first.proper
  have proper' := second.proper
  rcases lt_trichotomy first.stop second.start with before | meets | reaches
  · exact ⟨.before, before⟩
  · exact ⟨.meets, meets⟩
  rcases lt_trichotomy second.stop first.start with after | metBy | reaches'
  · exact ⟨.after, after⟩
  · exact ⟨.metBy, metBy⟩
  rcases lt_trichotomy first.start second.start with earlier | same | later
  · rcases lt_trichotomy first.stop second.stop with sooner | together | outlasts
    · exact ⟨.overlaps, earlier, reaches, sooner⟩
    · exact ⟨.finishedBy, earlier, together⟩
    · exact ⟨.contains, earlier, outlasts⟩
  · rcases lt_trichotomy first.stop second.stop with sooner | together | outlasts
    · exact ⟨.starts, same, sooner⟩
    · exact ⟨.equals, same, together⟩
    · exact ⟨.startedBy, same, outlasts⟩
  · rcases lt_trichotomy first.stop second.stop with sooner | together | outlasts
    · exact ⟨.during, later, sooner⟩
    · exact ⟨.finishes, later, together⟩
    · exact ⟨.overlappedBy, later, reaches', outlasts⟩

/-- Tests that decide the relations single out the one that holds, and the other way round. -/
theorem decides_iff_once {ι : Type} (relation : ι → Relation)
    (bijective : Function.Bijective relation) (test : ι → Prop) (first second : TimeInterval α) :
    (∀ op, test op ↔ (relation op).Holds first second) ↔
      ∃ op, (relation op).Holds first second ∧ ∀ other, test other ↔ other = op := by
  have same (op : ι) (holds : (relation op).Holds first second) (other : ι) :
      (relation other).Holds first second ↔ other = op := by
    constructor
    · exact fun holds' => bijective.1 (Relation.unique _ _ first second holds' holds)
    · rintro rfl
      exact holds
  constructor
  · intro decides
    obtain ⟨_, holds⟩ := exists_relation first second
    obtain ⟨op, rfl⟩ := bijective.2 ‹_›
    exact ⟨op, holds, fun other => (decides other).trans (same op holds other)⟩
  · rintro ⟨op, holds, once⟩ other
    exact (once other).trans (same op holds other).symm

end AllenAlgebra
