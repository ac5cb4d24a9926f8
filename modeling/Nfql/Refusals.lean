import Nfql.RunResults

set_option autoImplicit false

/- Runs on a file system that may refuse to open, write or close a file. -/
namespace Nfql.Emit

open OutputStreams

section Processes

variable (fileSystem : FileSystem ResultFile Record) (options : OutputOptions) (libc : Libc)
  (io : IoHandler) (stages : Stages) (fquery : Flowquery) (trace : List Record)

/-- What a run performs, the operation that it is refused, and how it ends. The results of
`get_wronly_fd`, `io_write_init`, `io_write_record` and `io_write_close` are all checked:
`errExit` prints the message of the place and ends the process with all its threads. -/
inductive Process : List (StreamOp ResultFile Record) → Option (StreamOp ResultFile Record) →
    Except Fault EngineLeft → Prop where
  | completed (ops : List (StreamOp ResultFile Record)) (ended : Except Fault EngineLeft)
      (run : Run options libc io stages fquery trace ops ended) (granted : Grants fileSystem ops) :
      Process ops none ended
  | aborted (performed later : List (StreamOp ResultFile Record))
      (op : StreamOp ResultFile Record) (ended : Except Fault EngineLeft) (message : String)
      (run : Run options libc io stages fquery trace (performed ++ op :: later) ended)
      (granted : Grants fileSystem performed) (refused : fileSystem performed op = false) :
      Process performed (some op) (.error (.errExit message))

/-- On every file system there is a process. -/
theorem process_exists : ∃ performed refused ended,
    Process fileSystem options libc io stages fquery trace performed refused ended := by
  obtain ⟨ops, ended, run⟩ := run_exists options libc io stages fquery trace
  rcases grants_or_refuses fileSystem ops with granted | ⟨before, op, after, rfl, granted, refused⟩
  · exact ⟨ops, none, ended, Process.completed ops ended run granted⟩
  · exact ⟨before, some op, _, Process.aborted before after op ended "" run granted refused⟩

variable {fileSystem options libc io stages fquery trace}
  {performed : List (StreamOp ResultFile Record)} {refused : Option (StreamOp ResultFile Record)}
  {ended : Except Fault EngineLeft}

/-- A process that is refused nothing performs a whole run. -/
theorem Process.run
    (process : Process fileSystem options libc io stages fquery trace performed none ended) :
    Run options libc io stages fquery trace performed ended := by
  cases process with
  | completed _ run => exact run

/-- A process that succeeds has been refused nothing. -/
theorem Process.granted {left : EngineLeft}
    (process : Process fileSystem options libc io stages fquery trace performed refused
      (.ok left)) : refused = none := by
  cases process with
  | completed => rfl

end Processes

/-- Processes that look for sessions, on a file system that refuses nothing. -/
abbrev SessionsProcess : List (StreamOp ResultFile Record) →
    Option (StreamOp ResultFile Record) → Except Fault EngineLeft → Prop :=
  Process (fun _ _ => true) Output.resultsOptions Libc.insertion (IoHandler.untimed 5)
    (Stages.all true) Flowquery.sessions Flowquery.flows

theorem sessions_process : ∃ performed left, SessionsProcess performed none (.ok left) ∧
    left.plain.streamSizes = some [3, 3] := by
  obtain ⟨ops, left, run, sizes⟩ := sessions_run
  exact ⟨ops, left, Process.completed ops _ run fun _ _ _ _ => rfl, sizes⟩

end Nfql.Emit
