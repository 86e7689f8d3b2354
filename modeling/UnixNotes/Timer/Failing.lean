import UnixNotes.Timer.Lives

namespace UnixNotes.Timer.Failing

open Library

inductive SubmitResult where
  | accepted
  | queueFull
  | timeout
  | poolStopping
  deriving DecidableEq

/-- `failed` has the ids whose submission has failed and that no timer has got since, and
`uninitialised` is set once the branch on an unset `result` has been taken; no code reads these. -/
structure Shared where
  scheduler : Timer.Shared := {}
  failed : List TimerId := []
  uninitialised : Bool := false

inductive Instr where
  | scheduler (i : Timer.Instr)
  /-- `states.erase`, under the mutex. -/
  | erase (id : TimerId)
  /-- `finish_in_flight` in the handler of a failed construction of the token. -/
  | finishAgain
  /-- `try_post` or the construction of its argument has thrown; `result` is what the variable
  happens to hold. -/
  | postThrew (task : TimerTask) (result : SubmitResult)
  deriving DecidableEq

inductive Choice where
  | next
  | scheduler (x : Timer.Choice)
  | tokenThrows
  | postThrows (result : SubmitResult)

namespace Instr

/-- A submission that fails without an exception. -/
def refuses (i : Timer.Instr) (x : Timer.Choice) (s : Timer.Shared) : Option TimerId :=
  match i, x with
  | .batch (task :: _), .next =>
    match s.states task.id with
    | none => some task.id
    | some state =>
      if state = .cancelled || s.schedulerState ≠ .running then some task.id else none
  | .submit task, .reject => some task.id
  | _, _ => none

def execScheduler (t : Nat) (i : Timer.Instr) (x : Timer.Choice) (s : Shared) :
    Option (Shared × List Instr) :=
  (i.exec t x s.scheduler).map fun r =>
    ({ s with
        scheduler := r.1
        failed := (refuses i x s.scheduler).toList ++
          s.failed.filter fun id => ¬Issues s.scheduler i id },
      r.2.map .scheduler)

/-- The wrapper and `completion` are destroyed at the end of the iteration. -/
def execPostThrew (task : TimerTask) (result : SubmitResult) (s : Shared) :
    Shared × List Instr :=
  let completion := s.scheduler.submissions
  ({ s with
      scheduler := { s.scheduler with
        submissions := s.scheduler.submissions + 1
        completions := completion :: completion :: s.scheduler.completions }
      failed := task.id :: s.failed
      uninitialised := true },
    (if result = .accepted then [] else [.erase task.id]) ++
      [.scheduler (.dropCompletion completion), .scheduler (.dropCompletion completion)])

def exec (t : Nat) (i : Instr) (x : Choice) (s : Shared) : Option (Shared × List Instr) :=
  match i, x with
  | .scheduler i, .scheduler x => execScheduler t i x s
  -- the constructor of `shared_ptr` runs the deleter before it throws
  | .scheduler (.submit task), .tokenThrows =>
    some ({ s with failed := task.id :: s.failed },
      [.scheduler .finishInFlight, .erase task.id, .finishAgain])
  | .scheduler (.submit task), .postThrows result => some (s, [.postThrew task result])
  | .postThrew task result, .next => some (execPostThrew task result s)
  | .erase id, .next =>
    if s.scheduler.locked then none
    else some ({ s with scheduler.states := s.scheduler.states.erase id }, [])
  | .finishAgain, .next =>
    if s.scheduler.locked then none
    else some ({ s with scheduler.inFlight := s.scheduler.inFlight - 1 }, [])
  | _, _ => none

def toScheduler : Instr → List Timer.Instr
  | .scheduler i => [i]
  | .postThrew task _ => [.submit task]
  | .erase _ | .finishAgain => []

end Instr

abbrev Config := Library.Config Shared Instr

def machine : Library.Machine Shared Instr Choice := ⟨Instr.exec⟩

def init (poolThreads threads : Nat) : Config :=
  ⟨{}, (Timer.init poolThreads threads).threads.map (·.map .scheduler)⟩

def toScheduler (c : Config) : Timer.Config := c.project Shared.scheduler Instr.toScheduler

/-- The completion tokens: those that somebody refers to, and those that are about to be made or
whose deleter has not yet counted their end. -/
def tokens (c : Config) : Nat :=
  c.shared.scheduler.completions.toFinset.card + (toScheduler c).total Timer.Instr.finishing

/-- What is left of an iteration of the loop over the ready tasks. -/
def Instr.iterates : Instr → Bool
  | .scheduler (.submit _) | .scheduler (.rejected _ _) | .scheduler (.dropCompletion _)
  | .scheduler .finishInFlight => true
  | .scheduler _ => false
  | _ => true

/-- The scheduler's thread is not in an iteration. -/
def Between (c : Config) : Prop := ∀ i ∈ c.stack 0, i.iterates = false

instance (c : Config) : Decidable (Between c) :=
  inferInstanceAs (Decidable (∀ i ∈ c.stack 0, i.iterates = false))

/-- The second `finish_in_flight` for a token that could not be made finds no other timer in flight,
and `try_post` does not throw. -/
def Cleans (c : Config) (_ : Nat) : Instr → Prop
  | .finishAgain => c.shared.scheduler.inFlight = 0
  | .postThrew _ _ => False
  | _ => True

instance (c : Config) (t : Nat) (i : Instr) : Decidable (Cleans c t i) :=
  match i with
  | .finishAgain => inferInstanceAs (Decidable (c.shared.scheduler.inFlight = 0))
  | .postThrew _ _ => .isFalse id
  | .scheduler _ | .erase _ => .isTrue trivial

end UnixNotes.Timer.Failing
