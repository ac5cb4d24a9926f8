import Nfql.QueryAnswers
import Nfql.ScriptLoading
import Nfql.ScriptMeaning

set_option autoImplicit false

/- From scripts to answers: the program loads a script, and all its runs end with what the
script asks for. -/
namespace Nfql

open RelationalQueries

section Answered

variable (offset : String → Option Nat) (io : IoHandler) (script : Script) (trace : List Record)

/-- The tuples and streams in memory are those that the script asks for, and the records of
the groups show their keys and totals. -/
structure Script.Answered (mresult : MergerResult) (uresult : UngrouperResult) : Prop where
  numGroupTuples : mresult.numGroupTuples = mresult.groupTuples.length
  tuples : mresult.groupTuples.map (List.map Group.rows) =
    (script.meaning offset io).tuples (trace : Multiset Record)
  numbers : ∀ tuple ∈ mresult.groupTuples, ∀ position : Fin script.branches.length,
    ∃ group, tuple[position.val]? = some group ∧
      ∀ value : (script.branches.get position).Value,
        value.field.number offset group.record = value.number offset group.rows
  numStreams : uresult.numStreams = uresult.streamset.length
  streams : uresult.streamset.map Stream.rows =
    (script.meaning offset io).answer (trace : Multiset Record)

/-- What answers the flowquery answers the script. -/
theorem answers_script (independent : script.Independent offset)
    (fit : script.TotalsFit offset io trace) (mresult : MergerResult) (uresult : UngrouperResult)
    (answers : Answers io true (script.flowquery offset) trace mresult uresult) :
    script.Answered offset io trace mresult uresult where
  numGroupTuples := answers.numGroupTuples
  tuples := by
    rw [answers.tuples, flowquery_meaning offset script independent io trace fit]
  numbers := by
    intro tuple member position
    obtain ⟨group, found, values⟩ :=
      answers.values tuple member (position.cast (List.length_map _).symm)
    refine ⟨group, found, fun value => ?_⟩
    have branch : (script.flowquery offset).branchset.get (position.cast (List.length_map _).symm) =
        (script.branches.get position).branch offset := branch_get offset script.branches position
    rw [branch] at values
    have cell := values _ (branch_valueFields offset _ value)
    have inQuery : tuple.map Group.rows ∈ (script.meaning offset io).tuples
        (trace : Multiset Record) := by
      rw [← flowquery_meaning offset script independent io trace fit, ← answers.tuples]
      exact List.mem_map_of_mem member
    have fits := tuple_fit offset script io trace fit _ (List.mem_filter.mp inQuery).1 position
      group.rows (List.getElem?_map.trans (congrArg (Option.map Group.rows) found))
    rw [← place_number, cell]
    exact cell_number offset _ (independent _ (List.get_mem _ position)) value group.rows fits
  numStreams := answers.numStreams
  streams := by
    rw [answers.streams, RelationalQueries.Query.answer,
      flowquery_meaning offset script independent io trace fit]
    rfl

theorem mul_le_pow (size count : Nat) (large : 2 ≤ size) (positive : 0 < count) :
    count * size ≤ size ^ count := by
  obtain ⟨rest, rfl⟩ := Nat.exists_eq_succ_of_ne_zero (Nat.ne_of_gt positive)
  rw [Nat.pow_succ]
  exact Nat.mul_le_mul_right size (Nat.lt_pow_self large)

/-- As many records as there are tuples of one of them for each branch fit the counters. -/
theorem flowquery_bounded (room : trace.length ^ script.branches.length < intMax) :
    (script.flowquery offset).Bounded trace.length := by
  have count : (script.flowquery offset).branchset.length = script.branches.length :=
    List.length_map _
  have positive : 0 < script.branches.length := List.length_pos_iff.mpr script.some_branch
  have groups : ∀ branch ∈ (script.flowquery offset).branchset,
      branch.maxGroups trace.length = trace.length := by
    intro run member
    obtain ⟨branch, -, rfl⟩ := List.mem_map.mp member
    have single : (branch.branch offset).grouperClauseset.length ≤ 1 := by
      show (branch.grouper.toList.map _).length ≤ 1
      cases branch.grouper <;> simp
    rw [Branch.maxGroups, Nat.max_eq_right single, Nat.one_mul]
  have limit : intMax < 2 ^ 32 := by decide
  have size : trace.length ≤ trace.length ^ script.branches.length :=
    Nat.le_self_pow (by omega) _
  refine ⟨?_, by omega, ?_, ?_, ?_, ?_⟩
  · intro none
    rw [none] at count
    exact absurd count (by simp; omega)
  · intro branch member
    rw [groups branch member]
    omega
  · rw [List.map_congr_left groups, List.map_const', List.prod_replicate, count]
    omega
  · rw [count]
    by_cases large : 2 ≤ trace.length
    · have tuples := mul_le_pow trace.length script.branches.length large positive
      omega
    · have few := script.few
      have product := Nat.mul_le_mul few (show trace.length ≤ 1 by omega)
      omega
  · intro clause inQuery term member
    obtain ⟨joins, -, rfl⟩ := List.mem_map.mp inQuery
    obtain ⟨join, -, rfl⟩ := List.mem_map.mp member
    exact fun isIn => by cases isIn

end Answered

section Sessions

def NamedField.source : NamedField := ⟨"sourceIPv4Address", .w32⟩

def NamedField.destination : NamedField := ⟨"destinationIPv4Address", .w32⟩

def Total.packets : Total := ⟨⟨"packetDeltaCount", .w32⟩, .sum⟩

def Total.octets : Total := ⟨⟨"octetDeltaCount", .w32⟩, .sum⟩

/-- The TCP flows between two addresses, those of more than 20000 packets. -/
def BranchScript.tcpSession : BranchScript where
  filter := [[(⟨"protocolIdentifier", .w8⟩, ⟨.eq, 6, 0, by decide, by decide⟩)]]
  grouper := some [⟨.source, .rel⟩, ⟨.destination, .rel⟩]
  statics := []
  totals := [.packets, .octets]
  groupfilter := [[(.ofTotal .packets (by simp), ⟨.gt, 20000, 0, by decide, by decide⟩)]]
  named := by simp

/-- scripts/queries/build-tcp-session.py: both directions, merged. -/
def Script.tcpSession : Script where
  branches := [.tcpSession, .tcpSession]
  joins := some [
    ⟨0, .ofKey ⟨.source, .rel⟩ (by simp [BranchScript.tcpSession, BranchScript.keys]),
      1, .ofKey ⟨.destination, .rel⟩ (by simp [BranchScript.tcpSession, BranchScript.keys]), .eq, .rel⟩,
    ⟨0, .ofKey ⟨.destination, .rel⟩ (by simp [BranchScript.tcpSession, BranchScript.keys]),
      1, .ofKey ⟨.source, .rel⟩ (by simp [BranchScript.tcpSession, BranchScript.keys]), .eq, .rel⟩]
  some_branch := by simp
  few := by decide

/-- Records of two addresses, two counters and a protocol. -/
def QueryReader.flat : QueryReader Unit where
  library := ⟨JsonC.IntConversion.clamp, fun _ => 0, fun _ => ""⟩
  ipfixEnabled := false
  ipfixTemplIeRegister _ _ := none
  ioReadGetFieldOffset _ name :=
    [("sourceIPv4Address", 0), ("destinationIPv4Address", 4), ("packetDeltaCount", 8),
      ("octetDeltaCount", 12), ("protocolIdentifier", 16)].lookup name

instance (field other : Field) : Decidable (field.Apart other) :=
  inferInstanceAs (Decidable (_ ∨ _))

theorem tcpSession_independent :
    Script.tcpSession.Independent (QueryReader.flat.ioReadGetFieldOffset ()) := by
  intro branch member
  have listed : branch ∈ [BranchScript.tcpSession, BranchScript.tcpSession] := member
  have same : branch = BranchScript.tcpSession := by simpa using listed
  rw [same]
  exact ⟨by decide +kernel, by decide +kernel⟩

end Sessions

end Nfql

namespace Nfql.Emit

open OutputStreams

/-- Whatever the schedule, the output options and the file system, every process of the
flowquery over a trace that is not too long and whose totals fit their fields ends with the
answer to the script, unless an operation on a file is refused. -/
def RunsAnswer (offset : String → Option Nat) (script : Script) (fquery : Flowquery) : Prop :=
  ∀ fileSystem options libc io trace, trace.length ^ script.branches.length < intMax →
    script.TotalsFit offset io trace →
      ∀ performed ended, Process fileSystem options libc io (Stages.all true) fquery trace performed
        none ended →
          ∃ left mresult uresult, ended = .ok left ∧ left.mergerResult = some mresult ∧
            left.ungrouperResult = some uresult ∧ script.Answered offset io trace mresult uresult

/-- Two flows from 1 to 2 of 21000 packets, one back of 30000 packets, a short one from 3
to 1, and one of another protocol. -/
def Script.flows : List Record :=
  [Record.ofBytes [1#8, 0#8, 0#8, 0#8, 2#8, 0#8, 0#8, 0#8, 0x98#8, 0x3a#8, 0#8, 0#8, 1#8, 0#8, 0#8,
      0#8, 6#8],
    Record.ofBytes [2#8, 0#8, 0#8, 0#8, 1#8, 0#8, 0#8, 0#8, 0x30#8, 0x75#8, 0#8, 0#8, 2#8, 0#8, 0#8,
      0#8, 6#8],
    Record.ofBytes [3#8, 0#8, 0#8, 0#8, 1#8, 0#8, 0#8, 0#8, 9#8, 0#8, 0#8, 0#8, 3#8, 0#8, 0#8, 0#8,
      6#8],
    Record.ofBytes [1#8, 0#8, 0#8, 0#8, 2#8, 0#8, 0#8, 0#8, 0x98#8, 0x3a#8, 0#8, 0#8, 4#8, 0#8, 0#8,
      0#8, 17#8],
    Record.ofBytes [1#8, 0#8, 0#8, 0#8, 2#8, 0#8, 0#8, 0#8, 0x70#8, 0x17#8, 0#8, 0#8, 5#8, 0#8, 0#8,
      0#8, 6#8]]

/-- A process of the TCP sessions that leaves two streams of three flows, as the script asks. -/
def SessionsAnswered (offset : String → Option Nat) (io : IoHandler) (fquery : Flowquery)
    (trace : List Record) : Prop :=
  ∃ performed left mresult uresult, Process (fun _ _ => true) Output.resultsOptions Libc.insertion io
      (Stages.all true) fquery trace performed none (.ok left) ∧
    left.mergerResult = some mresult ∧ left.ungrouperResult = some uresult ∧
    uresult.streamset.map Stream.numRecords = [3, 3] ∧
    Script.tcpSession.Answered offset io trace mresult uresult

theorem tcpSession_fits (offset : String → Option Nat) (io : IoHandler) (trace : List Record)
    (packets : (((BranchScript.tcpSession.selection offset io).rows (trace : Multiset Record)).map
      (Total.packets.field.number offset)).sum < 2 ^ 32)
    (octets : (((BranchScript.tcpSession.selection offset io).rows (trace : Multiset Record)).map
      (Total.octets.field.number offset)).sum < 2 ^ 32) :
    Script.tcpSession.TotalsFit offset io trace := by
  intro branch member
  have listed : branch ∈ [BranchScript.tcpSession, BranchScript.tcpSession] := member
  have same : branch = BranchScript.tcpSession := by simpa using listed
  subst same
  have totals : ∀ total ∈ BranchScript.tcpSession.totals, total = .packets ∨ total = .octets := by
    simp [BranchScript.tcpSession]
  refine totalsFit_of_sums offset _ io trace (fun total inTotals => ?_) fun total inTotals => ?_
  · rcases totals total inTotals with rfl | rfl <;> rfl
  · rcases totals total inTotals with rfl | rfl
    · exact packets
    · exact octets

/-- What answers the script of the TCP sessions does so on a trace of such flows. -/
theorem sessions_answered {offset : String → Option Nat} {io : IoHandler} {fquery : Flowquery}
    {trace : List Record} (runs : RunsAnswer offset Script.tcpSession fquery)
    (short : trace.length ≤ 5) (fit : Script.tcpSession.TotalsFit offset io trace)
    (sizes : (engine Libc.insertion io (Stages.all true) fquery trace).toOption.bind
      EngineResult.streamSizes = some [3, 3]) :
    SessionsAnswered offset io fquery trace := by
  have room : trace.length ^ Script.tcpSession.branches.length < intMax :=
    lt_of_le_of_lt (Nat.pow_le_pow_left short 2) (by decide)
  cases success : engine Libc.insertion io (Stages.all true) fquery trace with
  | error fault =>
      rw [success] at sizes
      cases sizes
  | ok result =>
      have finishes : ∃ ops left, Run Output.resultsOptions Libc.insertion io (Stages.all true) fquery
          trace ops (.ok left) :=
        run_succeeds (.inr rfl) (fun _ => le_trans short (by decide)) ⟨result, success⟩
      obtain ⟨ops, left, run⟩ := finishes
      have process : Process (fun _ _ => true) Output.resultsOptions Libc.insertion io
          (Stages.all true) fquery trace ops none (.ok left) :=
        Process.completed ops _ run fun _ _ _ _ => rfl
      obtain ⟨left', mresult, uresult, ended, merged, ungrouped, answered⟩ :=
        runs _ _ Libc.insertion io trace room fit ops _ process
      cases ended
      have plain := run_success run left rfl
      rw [plain] at sizes
      refine ⟨ops, left, mresult, uresult, process, merged, ungrouped, ?_, answered⟩
      have streams : left.ungrouperResult.map
          (fun uresult => uresult.streamset.map Stream.numRecords) = some [3, 3] := sizes
      rw [ungrouped] at streams
      exact Option.some.inj streams

end Nfql.Emit
