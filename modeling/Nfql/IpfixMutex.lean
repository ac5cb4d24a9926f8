import Mathlib.Data.Multiset.Count
import Nfql.Mutexes
import Nfql.RunResults

set_option autoImplicit false

/- The threads that write IPFIX files share one template of libfixbuf, under a mutex. -/
namespace Nfql.Emit.Fixbuf

open Emissions Interleavings Mutexes OutputStreams

section Calls

/-- A session of libfixbuf: the reader's, or that of a file that is written. -/
inductive Session where
  | reader
  | writer (file : ResultFile)
  deriving DecidableEq, Repr

/-- The functions of libfixbuf that are called with a session that has the template, or
with an fbuf for one, and leave the references to the template as they are. -/
inductive FbFunction where
  | fBufAllocForCollection
  | fBufAllocForExport
  | fBufSetInternalTemplate
  | fBufSetExportTemplate
  | fbSessionExportTemplates
  | fBufAppend
  | fBufEmit
  deriving DecidableEq, Repr

/-- A call into libfixbuf. `fBufFree` frees the session of the fbuf. -/
inductive FbCall where
  | fbSessionAddTemplate (session : Session) (internal : Bool)
  | fBufFree (session : Session)
  | other (function : FbFunction) (session : Session)
  deriving DecidableEq, Repr

/-- The library: what a call does to `fb_templ`, by a thread that has the mutex or not. -/
structure Libfixbuf where
  Templ : Type
  call : Bool → Templ → FbCall → Option Templ
  references : Templ → Multiset Session
  freed : Templ → Bool

/-- What the comments in io-ipfix.c rely on: `fb_templ` "is reference counted across
fbSessions and freed with the last session", and as "fixbuf is not designed for
multi-threaded use", the references change under the mutex. -/
structure Libfixbuf.Counts (libfixbuf : Libfixbuf) : Prop where
  fbSessionAddTemplate : ∀ templ session internal, libfixbuf.freed templ = false →
    ∃ next, libfixbuf.call true templ (.fbSessionAddTemplate session internal) = some next ∧
      libfixbuf.references next = session ::ₘ libfixbuf.references templ ∧
      libfixbuf.freed next = false
  fBufFree : ∀ templ session, libfixbuf.freed templ = false →
    session ∈ libfixbuf.references templ →
      ∃ next, libfixbuf.call true templ (.fBufFree session) = some next ∧
        libfixbuf.references next = (libfixbuf.references templ).filter (· ≠ session) ∧
        libfixbuf.freed next = decide (libfixbuf.references next = 0)
  other : ∀ locked templ function session, libfixbuf.freed templ = false →
    session ∈ libfixbuf.references templ →
      ∃ next, libfixbuf.call locked templ (.other function session) = some next ∧
        libfixbuf.references next = libfixbuf.references templ ∧ libfixbuf.freed next = false

/-- `io_ipfix_read_init`. -/
def ioIpfixReadInit : List (Call FbCall) :=
  [.lock, .act (.fbSessionAddTemplate .reader true), .unlock,
    .act (.other .fBufAllocForCollection .reader), .act (.other .fBufSetInternalTemplate .reader)]

/-- `io_ipfix_read_close`. -/
def ioIpfixReadClose : List (Call FbCall) :=
  [.lock, .act (.fBufFree .reader), .unlock]

/-- `io_ipfix_write_init`. -/
def ioIpfixWriteInit (file : ResultFile) : List (Call FbCall) :=
  [.lock, .act (.fbSessionAddTemplate (.writer file) true),
    .act (.fbSessionAddTemplate (.writer file) false), .unlock,
    .act (.other .fBufAllocForExport (.writer file)),
    .act (.other .fBufSetInternalTemplate (.writer file)),
    .act (.other .fBufSetExportTemplate (.writer file)),
    .act (.other .fbSessionExportTemplates (.writer file))]

/-- `io_ipfix_write_record`. -/
def ioIpfixWriteRecord (file : ResultFile) : List (Call FbCall) :=
  [.act (.other .fBufAppend (.writer file))]

/-- `io_ipfix_write_close`. -/
def ioIpfixWriteClose (file : ResultFile) : List (Call FbCall) :=
  [.act (.other .fBufEmit (.writer file)), .lock, .act (.fBufFree (.writer file)), .unlock]

def ioCalls : StreamOp ResultFile Record → List (Call FbCall)
  | .create file => ioIpfixWriteInit file
  | .write file _ => ioIpfixWriteRecord file
  | .close file => ioIpfixWriteClose file

/-- The main thread, or the thread of a branch. -/
abbrev Party := Option Nat

def calledBy (party : Party) (calls : List (Call FbCall)) : List (Party × Call FbCall) :=
  calls.map (Prod.mk party)

/-- What the parties call to perform their operations on streams. -/
def programs (ops : Party → List (StreamOp ResultFile Record)) (party : Party) :
    List (Party × Call FbCall) :=
  calledBy party ((ops party).flatMap ioCalls)

/-- The main thread works alone. -/
def mainOnly (ops : List (StreamOp ResultFile Record)) (party : Party) :
    List (StreamOp ResultFile Record) :=
  match party with
  | none => ops
  | some _ => []

abbrev FbShared (libfixbuf : Libfixbuf) := Shared Party libfixbuf.Templ

abbrev Libfixbuf.step (libfixbuf : Libfixbuf) :
    FbShared libfixbuf → Party × Call FbCall → Option (FbShared libfixbuf) :=
  Shared.step libfixbuf.call

end Calls

section Protocol

/-- What a party may call: it works on files of its own, and knows how many references
their sessions have. -/
def ownCall (owner : ResultFile → Party) (party : Party) (locked : Bool)
    (references : ResultFile → Nat) : FbCall → Option (ResultFile → Nat)
  | .fbSessionAddTemplate (.writer file) _ =>
      if locked = true ∧ owner file = party then
        some (Function.update references file (references file + 1))
      else none
  | .other _ (.writer file) =>
      if owner file = party ∧ 0 < references file then some references else none
  | .fBufFree (.writer file) =>
      if locked = true ∧ owner file = party ∧ 0 < references file then
        some (Function.update references file 0)
      else none
  | .fbSessionAddTemplate .reader _ | .other _ .reader | .fBufFree .reader => none

/-- A call is made on a session that has the template, and changes the references only
under the mutex. -/
def FbCall.Proper (locked : Prop) (references : Multiset Session) : FbCall → Prop
  | .fbSessionAddTemplate _ _ => locked
  | .fBufFree session => locked ∧ session ∈ references
  | .other _ session => session ∈ references

/-- While the reader has its reference, the others are those of the files' owners. -/
structure Counted (libfixbuf : Libfixbuf) (owner : ResultFile → Party) (templ : libfixbuf.Templ)
    (references : Party → ResultFile → Nat) : Prop where
  reader : (libfixbuf.references templ).count .reader = 1
  writers : ∀ file,
    (libfixbuf.references templ).count (.writer file) = references (owner file) file
  alive : libfixbuf.freed templ = false

variable {libfixbuf : Libfixbuf} {owner : ResultFile → Party} {templ : libfixbuf.Templ}
  {references : Party → ResultFile → Nat}

theorem Counted.mem (counted : Counted libfixbuf owner templ references) (file : ResultFile)
    (some_reference : 0 < references (owner file) file) :
    Session.writer file ∈ libfixbuf.references templ := by
  rw [← Multiset.count_pos, counted.writers]
  exact some_reference

/-- A party's change of one file's references leaves those of other files alone. -/
theorem update_others (owner : ResultFile → Party) (references : Party → ResultFile → Nat)
    (changed file : ResultFile) (count : Nat) (apart : file ≠ changed) :
    Function.update references (owner changed)
        (Function.update (references (owner changed)) changed count) (owner file) file =
      references (owner file) file := by
  by_cases same : owner file = owner changed
  · rw [same, Function.update_self, Function.update_of_ne apart]
  · rw [Function.update_of_ne same]

theorem Counted.addTemplate (counts : libfixbuf.Counts)
    (counted : Counted libfixbuf owner templ references) (file : ResultFile) (internal : Bool) :
    ∃ next, libfixbuf.call true templ (.fbSessionAddTemplate (.writer file) internal) = some next ∧
      Counted libfixbuf owner next (Function.update references (owner file)
        (Function.update (references (owner file)) file (references (owner file) file + 1))) := by
  obtain ⟨next, called, added, alive⟩ :=
    counts.fbSessionAddTemplate templ (.writer file) internal counted.alive
  refine ⟨next, called, ?_, fun other => ?_, alive⟩
  · rw [added, Multiset.count_cons_of_ne (by simp)]
    exact counted.reader
  · rw [added]
    by_cases same : other = file
    · rw [same, Multiset.count_cons_self, Function.update_self, Function.update_self,
        counted.writers]
    · rw [update_others owner references file other _ same,
        Multiset.count_cons_of_ne (by simpa using same)]
      exact counted.writers other

/-- The reader's reference keeps the template alive. -/
theorem Counted.bufFree (counts : libfixbuf.Counts)
    (counted : Counted libfixbuf owner templ references) (file : ResultFile)
    (some_reference : 0 < references (owner file) file) :
    ∃ next, libfixbuf.call true templ (.fBufFree (.writer file)) = some next ∧
      Counted libfixbuf owner next (Function.update references (owner file)
        (Function.update (references (owner file)) file 0)) := by
  obtain ⟨next, called, left, freed⟩ := counts.fBufFree templ (.writer file) counted.alive
    (counted.mem file some_reference)
  have reader : (libfixbuf.references next).count .reader = 1 := by
    rw [left, Multiset.count_filter_of_pos (by simp)]
    exact counted.reader
  refine ⟨next, called, reader, fun other => ?_, ?_⟩
  · rw [left]
    by_cases same : other = file
    · rw [same, Multiset.count_filter_of_neg (by simp), Function.update_self,
        Function.update_self]
    · rw [update_others owner references file other _ same,
        Multiset.count_filter_of_pos (by simpa using same)]
      exact counted.writers other
  · rw [freed, decide_eq_false_iff_not]
    intro none
    rw [none, Multiset.count_zero] at reader
    cases reader

theorem Counted.other (counts : libfixbuf.Counts)
    (counted : Counted libfixbuf owner templ references) (file : ResultFile)
    (some_reference : 0 < references (owner file) file) (locked : Bool) (function : FbFunction) :
    ∃ next, libfixbuf.call locked templ (.other function (.writer file)) = some next ∧
      Counted libfixbuf owner next references := by
  obtain ⟨next, called, same, alive⟩ := counts.other locked templ function (.writer file)
    counted.alive (counted.mem file some_reference)
  refine ⟨next, called, ?_, fun file => ?_, alive⟩
  · rw [same]
    exact counted.reader
  · rw [same]
    exact counted.writers file

theorem counted_allows (counts : libfixbuf.Counts) (templ : libfixbuf.Templ)
    (references : Party → ResultFile → Nat) (party : Party) (locked : Bool) (call : FbCall)
    (part : ResultFile → Nat) (counted : Counted libfixbuf owner templ references)
    (allowed : ownCall owner party locked (references party) call = some part) :
    ∃ next, libfixbuf.call locked templ call = some next ∧
      Counted libfixbuf owner next (Function.update references party part) := by
  cases call with
  | fbSessionAddTemplate session internal =>
      cases session with
      | reader => cases allowed
      | writer file =>
          rw [ownCall] at allowed
          by_cases may : locked = true ∧ owner file = party
          · rw [if_pos may, Option.some.injEq] at allowed
            obtain ⟨rfl, rfl⟩ := may
            subst allowed
            exact counted.addTemplate counts file internal
          · rw [if_neg may] at allowed
            cases allowed
  | fBufFree session =>
      cases session with
      | reader => cases allowed
      | writer file =>
          rw [ownCall] at allowed
          by_cases may : locked = true ∧ owner file = party ∧ 0 < references party file
          · rw [if_pos may, Option.some.injEq] at allowed
            obtain ⟨rfl, rfl, some_reference⟩ := may
            subst allowed
            exact counted.bufFree counts file some_reference
          · rw [if_neg may] at allowed
            cases allowed
  | other function session =>
      cases session with
      | reader => cases allowed
      | writer file =>
          rw [ownCall] at allowed
          by_cases may : owner file = party ∧ 0 < references party file
          · rw [if_pos may, Option.some.injEq] at allowed
            obtain ⟨rfl, some_reference⟩ := may
            subst allowed
            rw [Function.update_eq_self]
            exact counted.other counts file some_reference locked function
          · rw [if_neg may] at allowed
            cases allowed

theorem ownCall_proper (party : Party) (locked : Bool) (call : FbCall)
    (part : ResultFile → Nat) (counted : Counted libfixbuf owner templ references)
    (allowed : ownCall owner party locked (references party) call = some part) :
    call.Proper (locked = true) (libfixbuf.references templ) := by
  cases call with
  | fbSessionAddTemplate session internal =>
      cases session with
      | reader => cases allowed
      | writer file =>
          by_cases may : locked = true ∧ owner file = party
          · exact may.1
          · rw [ownCall, if_neg may] at allowed
            cases allowed
  | fBufFree session =>
      cases session with
      | reader => cases allowed
      | writer file =>
          by_cases may : locked = true ∧ owner file = party ∧ 0 < references party file
          · obtain ⟨has, rfl, some_reference⟩ := may
            exact ⟨has, counted.mem file some_reference⟩
          · rw [ownCall, if_neg may] at allowed
            cases allowed
  | other function session =>
      cases session with
      | reader => cases allowed
      | writer file =>
          by_cases may : owner file = party ∧ 0 < references party file
          · obtain ⟨rfl, some_reference⟩ := may
            exact counted.mem file some_reference
          · rw [ownCall, if_neg may] at allowed
            cases allowed

variable (owner)

/-- The session of an open file has two references. -/
def sessionReferences (opened : Finset ResultFile) (file : ResultFile) : Nat :=
  if file ∈ opened then 2 else 0

theorem update_insert (opened : Finset ResultFile) (file : ResultFile) :
    Function.update (sessionReferences opened) file 2 = sessionReferences (insert file opened) := by
  funext other
  by_cases same : other = file
  · subst same
    rw [Function.update_self, sessionReferences, if_pos (Finset.mem_insert_self ..)]
  · rw [Function.update_of_ne same]
    simp only [sessionReferences, Finset.mem_insert, or_iff_right same]

theorem update_erase (opened : Finset ResultFile) (file : ResultFile) :
    Function.update (sessionReferences opened) file 0 = sessionReferences (opened.erase file) := by
  funext other
  by_cases same : other = file
  · subst same
    rw [Function.update_self, sessionReferences, if_neg (Finset.notMem_erase other opened)]
  · rw [Function.update_of_ne same]
    simp only [sessionReferences, Finset.mem_erase, ne_eq, same, not_false_eq_true, true_and]

/-- A party may call what its operation on a stream needs. -/
theorem ioCalls_follow (party : Party) (op : StreamOp ResultFile Record)
    (opened next : Finset ResultFile)
    (taken : StreamOp.stepOn (fun file => owner file = party) opened op = some next) :
    follow (Own.step (ownCall owner)) ⟨false, sessionReferences opened⟩
      (calledBy party (ioCalls op)) = some ⟨false, sessionReferences next⟩ := by
  have own := StreamOp.stepOn_mine taken
  replace taken := StreamOp.stepOn_step opened op next taken
  have references (file : ResultFile) (isOpen : file ∈ opened) :
      sessionReferences opened file = 2 := if_pos isOpen
  cases op with
  | create file =>
      have own : owner file = party := own
      rw [StreamOp.step] at taken
      by_cases isOpen : file ∈ opened
      · rw [if_pos isOpen] at taken
        cases taken
      · rw [if_neg isOpen, Option.some.injEq] at taken
        subst taken
        have none : sessionReferences opened file = 0 := if_neg isOpen
        have both : sessionReferences (insert file opened) file = 2 :=
          if_pos (Finset.mem_insert_self file opened)
        simp [follow, calledBy, ioCalls, ioIpfixWriteInit, Own.step, ownCall, own, none,
          update_insert, both]
  | write file record =>
      have own : owner file = party := own
      rw [StreamOp.step] at taken
      by_cases isOpen : file ∈ opened
      · rw [if_pos isOpen, Option.some.injEq] at taken
        subst taken
        simp [follow, calledBy, ioCalls, ioIpfixWriteRecord, Own.step, ownCall, own,
          references file isOpen]
      · rw [if_neg isOpen] at taken
        cases taken
  | close file =>
      have own : owner file = party := own
      rw [StreamOp.step] at taken
      by_cases isOpen : file ∈ opened
      · rw [if_pos isOpen, Option.some.injEq] at taken
        subst taken
        simp [follow, calledBy, ioCalls, ioIpfixWriteClose, Own.step, ownCall, own,
          references file isOpen, update_erase]
      · rw [if_neg isOpen] at taken
        cases taken

/-- A party that keeps to the protocol of the streams may make all its calls. -/
theorem calls_follow (party : Party) (ops : List (StreamOp ResultFile Record))
    (opened closed : Finset ResultFile)
    (run : follow (StreamOp.stepOn fun file => owner file = party) opened ops = some closed) :
    follow (Own.step (ownCall owner)) ⟨false, sessionReferences opened⟩
      (calledBy party (ops.flatMap ioCalls)) = some ⟨false, sessionReferences closed⟩ := by
  induction ops generalizing opened with
  | nil =>
      cases run
      rfl
  | cons op rest ih =>
      rw [follow, List.foldlM_cons] at run
      obtain ⟨next, taken, run⟩ := Option.bind_eq_some_iff.mp run
      have whole : calledBy party ((op :: rest).flatMap ioCalls) =
          calledBy party (ioCalls op) ++ calledBy party (rest.flatMap ioCalls) := List.map_append
      rw [whole, follow_append (ioCalls_follow owner party op opened next taken)]
      exact ih next run

end Protocol

section Phases

variable (owner : ResultFile → Party)

/-- The reader's session is there, no other, and nobody has the mutex. -/
structure Idle {libfixbuf : Libfixbuf} (shared : FbShared libfixbuf) : Prop where
  holder : shared.holder = none
  reader : libfixbuf.references shared.state = {.reader}
  alive : libfixbuf.freed shared.state = false

theorem programs_owned (ops : Party → List (StreamOp ResultFile Record)) :
    Owned Prod.fst (programs ops) := by
  intro party call member
  obtain ⟨_, -, rfl⟩ := List.mem_map.mp member
  rfl

variable {libfixbuf : Libfixbuf} {idle reached : FbShared libfixbuf} (start : Idle idle)

include start in
theorem idle_agrees :
    Agrees (Counted libfixbuf owner) idle fun _ => ⟨false, sessionReferences ∅⟩ := by
  refine ⟨⟨?_, fun file => ?_, start.alive⟩, fun party => iff_of_false ?_ (by simp)⟩
  · rw [start.reader]
    rfl
  · have none : sessionReferences ∅ file = 0 := if_neg (Finset.notMem_empty file)
    rw [start.reader]
    refine Eq.trans ?_ none.symm
    rw [Multiset.count_eq_zero]
    simp
  · rw [start.holder]
    exact nofun

/-- What parties that share nothing but the template and the mutex come to, from the idle
state on. -/
structure Coordinated (rest : Party → List (Party × Call FbCall))
    (reached : FbShared libfixbuf) : Prop where
  alive : libfixbuf.freed reached.state = false
  proper : ∀ party call later, rest party = (party, .act call) :: later →
    call.Proper (reached.holder = some party) (libfixbuf.references reached.state)
  allowed : ∀ party call later, rest party = (party, call) :: later →
    (∃ next, libfixbuf.step reached (party, call) = some next) ∨
      call = .lock ∧ ∃ other, other ≠ party ∧ reached.holder = some other
  completes : ∃ schedule ends, Interleaves rest schedule ∧
    follow libfixbuf.step reached schedule = some ends

variable {owner} {ops : Party → List (StreamOp ResultFile Record)}
  {rest : Party → List (Party × Call FbCall)} {schedule : List (Party × Call FbCall)}
  (counts : libfixbuf.Counts)

include start counts

theorem phase_agrees (safe : ∀ party, ∃ closed,
      follow (StreamOp.stepOn fun file => owner file = party) ∅ (ops party) = some closed)
    (run : Runs (programs ops) schedule rest)
    (valid : follow libfixbuf.step idle schedule = some reached) :
    ∃ owns, Agrees (Counted libfixbuf owner) reached owns ∧ Finishes (ownCall owner) owns rest ∧
      ∀ party closed,
        follow (StreamOp.stepOn fun file => owner file = party) ∅ (ops party) = some closed →
          follow (Own.step (ownCall owner)) (owns party) (rest party) =
            some ⟨false, sessionReferences closed⟩ := by
  have calls (party : Party) (closed : Finset ResultFile)
      (run : follow (StreamOp.stepOn fun file => owner file = party) ∅ (ops party) = some closed) :=
    calls_follow owner party (ops party) ∅ closed run
  have finishes : Finishes (ownCall owner) (fun _ => ⟨false, sessionReferences ∅⟩)
      (programs ops) := by
    intro party
    obtain ⟨closed, run⟩ := safe party
    exact ⟨_, calls party closed run, rfl⟩
  obtain ⟨owns, agrees, left⟩ := (idle_agrees owner start).run (counted_allows counts)
    (programs_owned ops) finishes run valid
  refine ⟨owns, agrees, fun party => ?_, fun party closed run => ?_⟩
  · rw [left party]
    exact finishes party
  · rw [left party]
    exact calls party closed run

theorem phase_coordinated (parties : Finset Party)
    (others : ∀ party, party ∉ parties → ops party = [])
    (safe : ∀ party, ∃ closed,
      follow (StreamOp.stepOn fun file => owner file = party) ∅ (ops party) = some closed)
    (run : Runs (programs ops) schedule rest)
    (valid : follow libfixbuf.step idle schedule = some reached) : Coordinated rest reached := by
  obtain ⟨owns, agrees, finishes, -⟩ := phase_agrees start counts safe run valid
  have owned : Owned Prod.fst rest := by
    intro party call member
    refine programs_owned ops party call ?_
    rw [← Runs.own Prod.fst run (programs_owned ops) party]
    exact List.mem_append_right _ member
  refine ⟨agrees.state.alive, ?_, ?_, ?_⟩
  · intro party call later next
    obtain ⟨own, taken, -⟩ := finishes.first next
    obtain ⟨part, acted, -⟩ := Option.map_eq_some_iff.mp taken
    rw [agrees.holder party]
    exact ownCall_proper party _ call part agrees.state acted
  · intro party call later next
    obtain ⟨own, taken, -⟩ := finishes.first next
    rcases agrees.step (counted_allows counts) party call own taken with ⟨next, moved, -⟩ | waits
    · exact .inl ⟨next, moved⟩
    · exact .inr waits
  · refine agrees.completes (counted_allows counts) parties (fun party outside => ?_) owned finishes
    have whole := Runs.own Prod.fst run (programs_owned ops) party
    rw [programs, others party outside] at whole
    exact (List.append_eq_nil_iff.mp whole).2

/-- A phase whose streams are all closed ends in the idle state. -/
theorem phase_closed (closed : ∀ party,
      follow (StreamOp.stepOn fun file => owner file = party) ∅ (ops party) = some ∅)
    (run : Interleaves (programs ops) schedule)
    (valid : follow libfixbuf.step idle schedule = some reached) : Idle reached := by
  obtain ⟨owns, agrees, -, ends⟩ :=
    phase_agrees start counts (fun party => ⟨∅, closed party⟩) run valid
  have own (party : Party) : owns party = ⟨false, sessionReferences ∅⟩ :=
    Option.some.inj (ends party ∅ (closed party))
  obtain ⟨⟨reader, writers, alive⟩, holder⟩ := agrees
  constructor
  · cases held : reached.holder with
    | none => rfl
    | some party =>
        have inside := (holder party).mp held
        rw [own] at inside
        cases inside
  · ext session
    cases session with
    | reader => rw [reader, Multiset.count_singleton_self]
    | writer file =>
        have none : sessionReferences ∅ file = 0 := if_neg (Finset.notMem_empty file)
        rw [writers file, own, Multiset.count_singleton, if_neg (by simp)]
        exact none
  · exact alive

end Phases

section Process

variable (options : OutputOptions) (libc : Libc) (io : IoHandler) (stages : Stages)
  (fquery : Flowquery) (trace : List Record)

/-- The operations of the threads that `run_branch_async` starts. -/
def branchOps (filterResults : List (Option FilterResult)) (party : Party) :
    List (StreamOp ResultFile Record) :=
  match party with
  | none => []
  | some branchId =>
      (thread options libc io stages fquery.branchset filterResults branchId).actions

/-- The calls into libfixbuf since the reader was opened, what the parties that run have
left to call, and how the process ends. -/
inductive FbRun : List (Party × Call FbCall) → (Party → List (Party × Call FbCall)) →
    Option (Except Fault EngineLeft) → Prop where
  | reading (schedule : List (Party × Call FbCall)) (rest : Party → List (Party × Call FbCall))
      (run : Runs (programs (mainOnly
        (readTrace options stages.filterEnabled io fquery.branchset trace).actions)) schedule rest) :
      FbRun schedule rest none
  | branches (data : IoData) (filterResults : List (Option FilterResult))
      (first schedule : List (Party × Call FbCall)) (rest : Party → List (Party × Call FbCall))
      (read : (readTrace options stages.filterEnabled io fquery.branchset trace).result =
        .ok (data, filterResults))
      (reads : Interleaves (programs (mainOnly
        (readTrace options stages.filterEnabled io fquery.branchset trace).actions)) first)
      (run : Runs (programs (branchOps options libc io stages fquery filterResults)) schedule rest) :
      FbRun (first ++ schedule) rest none
  | joined (data : IoData) (filterResults : List (Option FilterResult))
      (branchLefts : List BranchLeft) (first second schedule : List (Party × Call FbCall))
      (rest : Party → List (Party × Call FbCall))
      (read : (readTrace options stages.filterEnabled io fquery.branchset trace).result =
        .ok (data, filterResults))
      (left : ∀ branchId,
        (thread options libc io stages fquery.branchset filterResults branchId).result =
          .ok branchLefts[branchId]?)
      (reads : Interleaves (programs (mainOnly
        (readTrace options stages.filterEnabled io fquery.branchset trace).actions)) first)
      (branches : Interleaves (programs (branchOps options libc io stages fquery filterResults))
        second)
      (run : Runs (programs (mainOnly (joined options stages fquery branchLefts).actions)) schedule
        rest) :
      FbRun (first ++ second ++ schedule) rest
        (some ((joined options stages fquery branchLefts).result.map fun results =>
          ⟨data, filterResults, branchLefts, results.1, results.2⟩))

variable {options libc io stages fquery trace}

theorem mainOnly_others (ops : List (StreamOp ResultFile Record)) :
    ∀ party, party ∉ ({none} : Finset Party) → mainOnly ops party = [] := by
  intro party outside
  cases party with
  | none => exact absurd (Finset.mem_singleton_self none) outside
  | some branchId => rfl

/-- The main thread closes what it has opened, or fails. -/
theorem mainOnly_safe {α : Type} {limit : Nat} {run : Emission α}
    (kept : Streams (fun _ => True) limit ∅ run ∅) (party : Party) :
    ∃ closed, follow (StreamOp.stepOn fun _ => none = party) ∅ (mainOnly run.actions party) =
      some closed := by
  cases party with
  | some branchId => exact ⟨∅, rfl⟩
  | none =>
      obtain ⟨closed, followed, -⟩ := kept.safe.reaches
      exact ⟨closed, follow_weaken (StreamOp.stepOn_imp fun _ _ => rfl) followed⟩

theorem mainOnly_closed {α : Type} {limit : Nat} {run : Emission α}
    (kept : Streams (fun _ => True) limit ∅ run ∅) (value : α) (success : run.result = .ok value)
    (party : Party) :
    follow (StreamOp.stepOn fun _ => none = party) ∅ (mainOnly run.actions party) = some ∅ := by
  cases party with
  | some branchId => rfl
  | none => exact follow_weaken (StreamOp.stepOn_imp fun _ _ => rfl) (kept.ends value success)

/-- The threads work for the parties of their branches. -/
def threadParty (file : ResultFile) : Party := some file.branchId

theorem branchOps_others (filterResults : List (Option FilterResult)) :
    ∀ party, party ∉ (Finset.range fquery.branchset.length).image some →
      branchOps options libc io stages fquery filterResults party = [] := by
  intro party outside
  cases party with
  | none => rfl
  | some branchId =>
      have beyond : ¬ branchId < fquery.branchset.length := by simpa using outside
      have none : (fquery.branchset.zip filterResults)[branchId]? = none := by
        rw [List.getElem?_eq_none_iff, List.length_zip]
        omega
      rw [branchOps, thread, none]
      rfl

theorem branchOps_safe (filterResults : List (Option FilterResult)) (party : Party) :
    ∃ closed, follow (StreamOp.stepOn fun file => threadParty file = party) ∅
      (branchOps options libc io stages fquery filterResults party) = some closed := by
  cases party with
  | none => exact ⟨∅, rfl⟩
  | some branchId =>
      have owns := thread_owns options libc io stages fquery.branchset filterResults branchId
      obtain ⟨closed, followed, -⟩ := owns.safe.reaches
      refine ⟨closed, follow_weaken (StreamOp.stepOn_imp fun file own => ?_) followed⟩
      exact congrArg some own

theorem branchOps_closed (filterResults : List (Option FilterResult)) (branchLefts : List BranchLeft)
    (left : ∀ branchId,
      (thread options libc io stages fquery.branchset filterResults branchId).result =
        .ok branchLefts[branchId]?) (party : Party) :
    follow (StreamOp.stepOn fun file => threadParty file = party) ∅
      (branchOps options libc io stages fquery filterResults party) = some ∅ := by
  cases party with
  | none => rfl
  | some branchId =>
      have owns := thread_owns options libc io stages fquery.branchset filterResults branchId
      refine follow_weaken (StreamOp.stepOn_imp fun file own => ?_) (owns.ends _ (left branchId))
      exact congrArg some own

theorem readTrace_opens : Streams (fun _ => True) fquery.branchset.length ∅
    (readTrace options stages.filterEnabled io fquery.branchset trace) ∅ :=
  readTrace_streams options (fun _ => trivial) stages.filterEnabled io fquery.branchset trace

theorem joined_opens (branchLefts : List BranchLeft) :
    Streams (fun _ => True) 2 ∅ (joined options stages fquery branchLefts) ∅ :=
  joined_streams trivial trivial (fun _ => trivial) branchLefts

section Reader

variable {libfixbuf : Libfixbuf} (counts : libfixbuf.Counts)

include counts

/-- The reader's session adds the first reference. -/
theorem reader_opened (templ : libfixbuf.Templ) (unused : libfixbuf.references templ = 0)
    (alive : libfixbuf.freed templ = false) :
    ∃ idle : FbShared libfixbuf, Idle idle ∧
      follow libfixbuf.step ⟨none, templ⟩ (calledBy none ioIpfixReadInit) = some idle := by
  obtain ⟨added, adds, first, alive⟩ := counts.fbSessionAddTemplate templ .reader true alive
  have reader : libfixbuf.references added = {Session.reader} := by
    rw [first, unused]
    rfl
  obtain ⟨allocated, allocates, same, alive⟩ := counts.other false added .fBufAllocForCollection
    .reader alive (by rw [reader]; exact Multiset.mem_singleton_self _)
  rw [reader] at same
  obtain ⟨set, sets, same', alive⟩ := counts.other false allocated .fBufSetInternalTemplate .reader
    alive (by rw [same]; exact Multiset.mem_singleton_self _)
  rw [same] at same'
  refine ⟨⟨none, set⟩, ⟨rfl, same', alive⟩, ?_⟩
  simp [follow, calledBy, ioIpfixReadInit, Shared.step, adds, allocates, sets]

/-- The last session frees the template. -/
theorem reader_closed {idle : FbShared libfixbuf} (last : Idle idle) :
    ∃ templ, follow libfixbuf.step idle (calledBy none ioIpfixReadClose) = some ⟨none, templ⟩ ∧
      libfixbuf.freed templ = true := by
  obtain ⟨templ, frees, left, freed⟩ := counts.fBufFree idle.state .reader last.alive
    (by rw [last.reader]; exact Multiset.mem_singleton_self _)
  refine ⟨templ, ?_, ?_⟩
  · simp [follow, calledBy, ioIpfixReadClose, Shared.step, last.holder, frees]
  · rw [freed, left, last.reader]
    rfl

end Reader

section Whole

variable {libfixbuf : Libfixbuf} (counts : libfixbuf.Counts) (templ : libfixbuf.Templ)
  (unused : libfixbuf.references templ = 0) (alive : libfixbuf.freed templ = false)
  {calls : List (Party × Call FbCall)} {rest : Party → List (Party × Call FbCall)}
  {ended : Option (Except Fault EngineLeft)} {reached : FbShared libfixbuf}

include counts unused alive

/-- Whatever the mutex makes the threads wait, a run that succeeds can be had. -/
theorem fixbuf_exists {ops : List (StreamOp ResultFile Record)} {left : EngineLeft}
    (run : Run options libc io stages fquery trace ops (.ok left)) :
    ∃ calls reached, FbRun options libc io stages fquery trace calls (fun _ => [])
        (some (.ok left)) ∧
      follow libfixbuf.step ⟨none, templ⟩ (calledBy none ioIpfixReadInit ++ calls) =
        some reached := by
  obtain ⟨-, read, -, lefts, finished, -⟩ := run.parts
  have reading : Streams (fun _ => True) fquery.branchset.length ∅
      (readTrace options stages.filterEnabled io fquery.branchset trace) ∅ := readTrace_opens
  have joining : Streams (fun _ => True) 2 ∅ (joined options stages fquery left.branchLefts) ∅ :=
    joined_opens left.branchLefts
  have readClosed := mainOnly_closed reading _ read
  have branchesClosed := branchOps_closed left.filterResults left.branchLefts lefts
  have joinedClosed := mainOnly_closed joining _ finished
  obtain ⟨idle, start, opened⟩ := reader_opened counts templ unused alive
  obtain ⟨first, idle', reads, valid⟩ := (phase_coordinated start counts {none}
    (mainOnly_others _) (fun party => ⟨∅, readClosed party⟩) (Runs.done _) rfl).completes
  have start' := phase_closed start counts readClosed reads valid
  obtain ⟨second, idle'', branches, valid'⟩ := (phase_coordinated start' counts _
    (branchOps_others left.filterResults) (fun party => ⟨∅, branchesClosed party⟩) (Runs.done _)
    rfl).completes
  have start'' := phase_closed start' counts branchesClosed branches valid'
  obtain ⟨third, reached, last, valid''⟩ := (phase_coordinated start'' counts {none}
    (mainOnly_others _) (fun party => ⟨∅, joinedClosed party⟩) (Runs.done _) rfl).completes
  have complete := FbRun.joined left.data left.filterResults left.branchLefts first second third
    (fun _ => []) read lefts reads branches last
  rw [finished] at complete
  refine ⟨first ++ second ++ third, reached, complete, ?_⟩
  rw [follow_append opened, List.append_assoc, follow_append valid, follow_append valid']
  exact valid''

/-- However the parties' calls into libfixbuf interleave, the next call of each is allowed
or waits for the mutex, and all of them can come to their end: the references are changed
under the mutex, the template is not used when it is freed, and no schedule deadlocks. A
process that succeeds frees the template when it closes the reader. -/
theorem fixbuf_protocol (run : FbRun options libc io stages fquery trace calls rest ended)
    (valid : follow libfixbuf.step ⟨none, templ⟩
      (calledBy none ioIpfixReadInit ++ calls) = some reached) :
    Coordinated rest reached ∧ ∀ left, ended = some (.ok left) → (∀ party, rest party = []) →
      ∃ templ, follow libfixbuf.step reached (calledBy none ioIpfixReadClose) =
        some ⟨none, templ⟩ ∧ libfixbuf.freed templ = true := by
  obtain ⟨idle, start, opened⟩ := reader_opened counts templ unused alive
  rw [follow_append opened] at valid
  have reading : Streams (fun _ => True) fquery.branchset.length ∅
      (readTrace options stages.filterEnabled io fquery.branchset trace) ∅ := readTrace_opens
  cases run with
  | reading calls rest run =>
      refine ⟨?_, fun left none => nomatch none⟩
      exact phase_coordinated start counts {none} (mainOnly_others _) (mainOnly_safe reading) run
        valid
  | branches data filterResults first schedule rest read reads run =>
      refine ⟨?_, fun left none => nomatch none⟩
      obtain ⟨middle, before, valid⟩ := follow_split valid
      have start := phase_closed start counts (mainOnly_closed reading _ read) reads before
      exact phase_coordinated start counts _ (branchOps_others filterResults)
        (branchOps_safe filterResults) run valid
  | joined data filterResults branchLefts first second schedule rest read left reads branches run =>
      obtain ⟨later, before, valid⟩ := follow_split valid
      obtain ⟨middle, before, between⟩ := follow_split before
      have start := phase_closed start counts (mainOnly_closed reading _ read) reads before
      have start := phase_closed start counts (branchOps_closed filterResults branchLefts left)
        branches between
      refine ⟨?_, fun whole success finished => ?_⟩
      · exact phase_coordinated start counts {none} (mainOnly_others _)
          (mainOnly_safe (joined_opens branchLefts)) run valid
      · cases ended : (joined options stages fquery branchLefts).result with
        | error fault =>
            rw [ended] at success
            cases success
        | ok results =>
            have complete : rest = fun _ => [] := funext finished
            subst complete
            exact reader_closed counts
              (phase_closed start counts (mainOnly_closed (joined_opens branchLefts) _ ended) run
                valid)

end Whole

/-- A library that counts the references and checks every call. -/
def Libfixbuf.checked : Libfixbuf where
  Templ := Multiset Session × Bool
  references templ := templ.1
  freed templ := templ.2
  call locked templ call :=
    if templ.2 = true then none
    else match call with
      | .fbSessionAddTemplate session _ =>
          if locked then some (session ::ₘ templ.1, false) else none
      | .fBufFree session =>
          if locked = true ∧ session ∈ templ.1 then
            let references := templ.1.filter (· ≠ session)
            some (references, decide (references = 0))
          else none
      | .other _ session => if session ∈ templ.1 then some templ else none

theorem Libfixbuf.checked_counts : checked.Counts where
  fbSessionAddTemplate templ session internal alive := by
    refine ⟨(session ::ₘ templ.1, false), ?_, rfl, rfl⟩
    have alive : templ.2 = false := alive
    simp [checked, alive]
  fBufFree templ session alive inside := by
    have alive : templ.2 = false := alive
    have inside : session ∈ templ.1 := inside
    have called : checked.call true templ (.fBufFree session) = some
        (templ.1.filter (· ≠ session), decide (templ.1.filter (· ≠ session) = 0)) := by
      simp [checked, alive, inside]
    exact ⟨_, called, rfl, rfl⟩
  other locked templ function session alive inside := by
    refine ⟨templ, ?_, rfl, alive⟩
    have alive : templ.2 = false := alive
    have inside : session ∈ templ.1 := inside
    simp [checked, alive, inside]

theorem fixbuf_protocol_sessions : ∃ calls left reached templ,
    FbRun Output.resultsOptions Libc.insertion (IoHandler.untimed 5) (Stages.all true)
      Flowquery.sessions Flowquery.flows calls (fun _ => []) (some (.ok left)) ∧
    left.plain.streamSizes = some [3, 3] ∧
    follow Libfixbuf.checked.step ⟨none, (0, false)⟩ (calledBy none ioIpfixReadInit ++ calls) =
      some reached ∧
    follow Libfixbuf.checked.step reached (calledBy none ioIpfixReadClose) = some ⟨none, templ⟩ ∧
    Libfixbuf.checked.freed templ = true := by
  obtain ⟨ops, left, run, sizes⟩ := sessions_run
  obtain ⟨calls, reached, fixbuf, valid⟩ :=
    fixbuf_exists Libfixbuf.checked_counts (0, false) rfl rfl run
  obtain ⟨-, closes⟩ := fixbuf_protocol Libfixbuf.checked_counts (0, false) rfl rfl fixbuf valid
  obtain ⟨templ, closed, freed⟩ := closes left rfl fun _ => rfl
  exact ⟨calls, left, reached, templ, fixbuf, sizes, valid, closed, freed⟩

end Process

end Nfql.Emit.Fixbuf
