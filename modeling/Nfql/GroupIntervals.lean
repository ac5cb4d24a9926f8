import Nfql.GrouperEcho
import Nfql.RunningExtremes

set_option autoImplicit false

/- The interval of a group is the tightest one around its members. -/
namespace Nfql

open RunningExtremes

section Members

variable (io : IoHandler)

theorem ordered_le : Ordered (fun a b : BitVec 64 => a ≤ b) (fun a b => a < b) where
  refl := BitVec.le_refl
  trans _ _ _ := BitVec.le_trans
  wins _ _ := BitVec.le_of_lt
  loses _ _ := BitVec.not_lt.mp

theorem ordered_ge : Ordered (fun a b : BitVec 64 => a ≥ b) (fun a b => b < a) where
  refl := BitVec.le_refl
  trans _ _ _ left right := BitVec.le_trans right left
  wins _ _ := BitVec.le_of_lt
  loses _ _ := BitVec.not_lt.mp

/-- The span's ends are timestamps of the members, and no member lies outside. -/
structure Span.Tight (members : List RecordPtr) (span : Span) : Prop where
  startTs : Extreme (fun a b => a ≤ b) (fun item : RecordPtr => io.recordGetStartTS item.record)
    members span.startTs
  endTs : Extreme (fun a b => a ≥ b) (fun item : RecordPtr => io.recordGetEndTS item.record)
    members span.endTs

/-- Every start of a group restores this. -/
theorem Span.tight_of (item : RecordPtr) : Span.Tight io [item] (Span.of io item) :=
  ⟨Extreme.start ordered_le item, Extreme.start ordered_ge item⟩

/-- Every accepted member keeps it. -/
theorem Span.Tight.widen {members : List RecordPtr} {span : Span}
    (tight : Span.Tight io members span) (item : RecordPtr) :
    Span.Tight io (members ++ [item]) (span.widen io item) :=
  ⟨tight.startTs.step ordered_le item, tight.endTs.step ordered_ge item⟩

theorem Span.Tight.foldl {members : List RecordPtr} {span : Span}
    (tight : Span.Tight io members span) (items : List RecordPtr) :
    Span.Tight io (members ++ items) (items.foldl (Span.widen io) span) := by
  induction items generalizing members span with
  | nil => rwa [List.append_nil]
  | cons item rest ih =>
      have next := ih (tight.widen io item)
      rwa [List.append_assoc, List.singleton_append] at next

theorem Span.ofMembers_tight (members : List RecordPtr) (nonempty : members ≠ []) :
    Span.Tight io members (Span.ofMembers io members) := by
  obtain ⟨first, rest, rfl⟩ := List.exists_cons_of_ne_nil nonempty
  exact (Span.tight_of io first).foldl io rest

end Members

/-- The interval of a group runs from the earliest start of its members to their
latest end. -/
structure Group.TightInterval (io : IoHandler) (group : Group) : Prop where
  startTsMsec : IsLeast {start | ∃ member ∈ group.members,
    io.recordGetStartTS member.record = start} group.aggrResult.aggrRecord.startTsMsec
  endTsMsec : IsGreatest {last | ∃ member ∈ group.members,
    io.recordGetEndTS member.record = last} group.aggrResult.aggrRecord.endTsMsec

/-- A tight interval is the members' own: groups with the same members share it. -/
theorem Group.TightInterval.own {io : IoHandler} {group other : Group}
    (tight : group.TightInterval io) (tight' : other.TightInterval io)
    (same : ∀ member, member ∈ group.members ↔ member ∈ other.members) :
    group.aggrResult.aggrRecord.startTsMsec = other.aggrResult.aggrRecord.startTsMsec ∧
      group.aggrResult.aggrRecord.endTsMsec = other.aggrResult.aggrRecord.endTsMsec := by
  have start := tight.startTsMsec
  have last := tight.endTsMsec
  simp only [same] at start last
  constructor
  · exact BitVec.le_antisymm (start.2 tight'.startTsMsec.1) (tight'.startTsMsec.2 start.1)
  · exact BitVec.le_antisymm (tight'.endTsMsec.2 last.1) (last.2 tight'.endTsMsec.1)

section Run

variable (options : OutputOptions) (libc : Libc) (funcs : GrouperFuncs) (io : IoHandler)
  (groupaggregationsEnabled : Bool) (branch : Branch) (branchId : Nat) (records : List RecordPtr)
  (files : Files)

/-- Whatever the clauses, every group has the interval of its own members. -/
theorem grouper_intervals (produced : Output.Produced)
    (success : Output.grouper options libc funcs io groupaggregationsEnabled branch branchId
      (FilterResult.of records) files = .ok produced) :
    ∀ group ∈ produced.gresult.groupset, group.TightInterval io ∧
      ∀ other : Group, other.TightInterval io →
        (∀ member, member ∈ group.members ↔ member ∈ other.members) →
          group.aggrResult.aggrRecord.startTsMsec = other.aggrResult.aggrRecord.startTsMsec ∧
            group.aggrResult.aggrRecord.endTsMsec = other.aggrResult.aggrRecord.endTsMsec := by
  obtain ⟨gresult, run, leaves⟩ := Output.grouper_leaves options libc funcs io
    groupaggregationsEnabled branch branchId _ files produced success
  rw [leaves.gresult]
  intro group member
  have made := grouper_group libc funcs io groupaggregationsEnabled branch records gresult run
    group member
  have nonempty := groupRuns_nonempty libc funcs branch records _ made.1
  have tight := Span.ofMembers_tight io group.members nonempty
  have interval : group.TightInterval io := by
    refine ⟨?_, ?_⟩
    · rw [made.2.startTs]
      exact tight.startTs.isLeast
    · rw [made.2.endTs]
      exact tight.endTs.isGreatest
  exact ⟨interval, fun other tight' same => interval.own tight' same⟩

end Run

/-- The io handler whose records hold their start in the first byte, and their end in
the second one. -/
def IoHandler.bytes : IoHandler where
  readGetRecordSize := 2
  recordGetStartTS record := readField .w8 record 0
  recordGetEndTS record := readField .w8 record 1

set_option maxRecDepth 100000 in
/-- The flows of two groups, and what the groups span. -/
theorem grouper_intervals_bytes : ∃ produced, Output.grouper Output.resultsOptions Libc.insertion
      GrouperFuncs.generated IoHandler.bytes false
      (Output.grouping [[⟨1, 1, 0#64, .eq, .w8, .w8, .no⟩]]) 0
      (FilterResult.of [⟨0, .ofBytes [5#8, 9#8]⟩, ⟨1, .ofBytes [3#8, 8#8]⟩, ⟨2, .ofBytes [4#8, 9#8]⟩])
      (fun _ => none) = .ok produced ∧
    (produced.gresult.groupset.map fun group => (group.members.length,
      group.aggrResult.aggrRecord.startTsMsec, group.aggrResult.aggrRecord.endTsMsec)) =
        [(1, 3#64, 8#64), (2, 4#64, 9#64)] ∧
    ∀ group ∈ produced.gresult.groupset, group.TightInterval IoHandler.bytes := by
  have evaluated : (Output.grouper Output.resultsOptions Libc.insertion GrouperFuncs.generated
      IoHandler.bytes false (Output.grouping [[⟨1, 1, 0#64, .eq, .w8, .w8, .no⟩]]) 0
      (FilterResult.of [⟨0, .ofBytes [5#8, 9#8]⟩, ⟨1, .ofBytes [3#8, 8#8]⟩, ⟨2, .ofBytes [4#8, 9#8]⟩])
      (fun _ => none)).toOption.map (fun produced => produced.gresult.groupset.map fun group =>
        (group.members.length, group.aggrResult.aggrRecord.startTsMsec,
          group.aggrResult.aggrRecord.endTsMsec)) = some [(1, 3#64, 8#64), (2, 4#64, 9#64)] := by
    decide +kernel
  obtain ⟨produced, run, spans⟩ := ok_of_toOption evaluated
  refine ⟨produced, run, spans, fun group member => ?_⟩
  exact (grouper_intervals _ _ _ _ _ _ _ _ _ produced run group member).1

end Nfql
