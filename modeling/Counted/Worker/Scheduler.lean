import Counted.Foundations.Keyed
import Counted.Foundations.Run
import Counted.Ingestion.Batch

namespace Counted.Worker

open Foundations

abbrev JobName := JsString

structure Job where
  name : JobName
  every : Duration

/-- How the call of a job's `run` returns: with a promise, or by throwing before there is one,
where the clock then reads `now`. -/
inductive RunCall
  | promises
  | throws (detail : JsString) (now : Instant)

inductive RunOutcome
  | resolved
  | rejected (detail : JsString)

/-- A run of a job, and the end that its `finally` gave it. -/
structure JobRun where
  name : JobName
  startedAt : Instant
  ended : Option Instant

/-- A call of `tick`: its outcome, and the runs it waits for. -/
structure TickCall where
  started : List JobName
  skipped : List JobName
  awaited : List ℕ

inductive RunNowCall
  | unknown
  | joined (run : ℕ)
  | launched (run : ℕ)

/-- A call of `stop`: it waits for the runs in flight when it was called. -/
inductive StopCall
  | waiting (runs : List ℕ)
  | resolved

inductive SchedulerLine
  | ran (job : JobName)
  | failed (job : JobName) (detail : JsString)
  | overrun (job : JobName)
  | started
  | stopped

/-- `inFlight`, `lastFinished` and `timer` are the variables of the closure. The rest is what has
been called and started so far. -/
structure SchedulerState where
  inFlight : List (JobName × ℕ)
  lastFinished : List (JobName × Instant)
  timer : Bool
  runs : List JobRun
  ticks : List TickCall
  runNows : List RunNowCall
  stops : List StopCall
  log : List SchedulerLine

inductive SchedulerAction
  | start
  | wake (now : Instant) (calls : JobName → RunCall)
  | tick (at' : Instant) (calls : JobName → RunCall)
  | runNow (name : JobName) (at' : Instant) (call : RunCall)
  | settle (run : ℕ) (outcome : RunOutcome) (now : Instant)
  | stop
  | stopResolve (call : ℕ)

namespace SchedulerState

def initial : SchedulerState := ⟨[], [], false, [], [], [], [], []⟩

def write (s : SchedulerState) (line : SchedulerLine) : SchedulerState :=
  { s with log := s.log ++ [line] }

def running (s : SchedulerState) : Bool := s.timer || !s.inFlight.isEmpty

/-- No finished run of the job, or the last one finished its interval ago. -/
def due (s : SchedulerState) (job : Job) (at' : Instant) : Bool :=
  (Keyed.lookup (·.1) job.name s.lastFinished).all (fun last ↦ job.every ≤ at' - last.2)

def busy (s : SchedulerState) (name : JobName) : Bool :=
  (Keyed.lookup (·.1) name s.inFlight).isSome

/-- The `finally` of `invoke`. -/
def finish (s : SchedulerState) (run : ℕ) (r : JobRun) (now : Instant) : SchedulerState :=
  { s with
    runs := s.runs.set run { r with ended := some now }
    lastFinished := Keyed.upsert (·.1) (r.name, now) s.lastFinished
    inFlight := Keyed.remove (·.1) r.name s.inFlight }

/-- `invoke` up to its first await, which it does not reach where the job throws at once. -/
def invoke (s : SchedulerState) (name : JobName) (at' : Instant) (call : RunCall) :
    SchedulerState :=
  let run := s.runs.length
  let r : JobRun := ⟨name, at', none⟩
  let s := { s with runs := s.runs ++ [r] }
  match call with
  | .promises => s
  | .throws detail now => (s.write (.failed name detail)).finish run r now

/-- The entry is set when `invoke` has returned. -/
def launchReporting (s : SchedulerState) (name : JobName) (at' : Instant) (call : RunCall) :
    SchedulerState :=
  let run := s.runs.length
  let s := s.invoke name at' call
  { s with inFlight := Keyed.upsert (·.1) (name, run) s.inFlight }

/-- A turn of the loop of `tick`. -/
def tickJob (at' : Instant) (calls : JobName → RunCall) (acc : SchedulerState × TickCall)
    (job : Job) : SchedulerState × TickCall :=
  let (s, call) := acc
  if !s.due job at' then (s, call)
  else if s.busy job.name then
    (s.write (.overrun job.name), { call with skipped := call.skipped ++ [job.name] })
  else
    (s.launchReporting job.name at' (calls job.name),
      { call with
        started := call.started ++ [job.name]
        awaited := call.awaited ++ [s.runs.length] })

/-- The job a name stands for: of several with one name, the last. -/
def byName (jobs : List Job) (name : JobName) : Option Job := jobs.reverse.find? (·.name = name)

variable (jobs : List Job)

def tick (s : SchedulerState) (at' : Instant) (calls : JobName → RunCall) : SchedulerState :=
  let (s, call) := jobs.foldl (tickJob at' calls) (s, ⟨[], [], []⟩)
  { s with ticks := s.ticks ++ [call] }

def runNow (s : SchedulerState) (name : JobName) (at' : Instant) (call : RunCall) :
    SchedulerState :=
  match byName jobs name with
  | none => { s with runNows := s.runNows ++ [.unknown] }
  | some job =>
    match Keyed.lookup (·.1) name s.inFlight with
    | some already => { s with runNows := s.runNows ++ [.joined already.2] }
    | none =>
      let run := s.runs.length
      let s := s.launchReporting job.name at' call
      { s with runNows := s.runNows ++ [.launched run] }

/-- The run of a job settles, and `invoke` goes on to its end. -/
def settle (s : SchedulerState) (run : ℕ) (r : JobRun) (outcome : RunOutcome) (now : Instant) :
    SchedulerState :=
  let line : SchedulerLine := match outcome with
    | .resolved => .ran r.name
    | .rejected detail => .failed r.name detail
  (s.write line).finish run r now

/-- Whether the promise of a run's entry has resolved. -/
def ended (s : SchedulerState) (run : ℕ) : Bool := (s.runs[run]?).any (·.ended.isSome)

def step (s : SchedulerState) : SchedulerAction → Option SchedulerState
  | .start => some (if s.timer then s else { s.write .started with timer := true })
  | .wake now calls => if s.timer then some (s.tick jobs now calls) else none
  | .tick at' calls => some (s.tick jobs at' calls)
  | .runNow name at' call => some (s.runNow jobs name at' call)
  | .settle run outcome now =>
    match s.runs[run]? with
    | some r => if r.ended.isSome then none else some (s.settle run r outcome now)
    | none => none
  | .stop => some { s with timer := false, stops := s.stops ++ [.waiting (s.inFlight.map (·.2))] }
  | .stopResolve call =>
    match s.stops[call]? with
    | some (.waiting runs) =>
      if runs.all s.ended then some { s.write .stopped with stops := s.stops.set call .resolved }
      else none
    | _ => none

end SchedulerState

end Counted.Worker
