import UnixNotes.Timer.Heap
import UnixNotes.Timer.Stop

namespace UnixNotes.Timer

def Operation.callback : Operation → Option Nat
  | .scheduleAfter _ task | .scheduleEvery _ task => task
  | _ => none

namespace Clocked

open Library

/-- `time` is that of the clock when `schedule_after` or `schedule_every` reads it, when the wrapper
calls the callback and when the callback ends; `delay` may be an interval. -/
inductive Event where
  | scheduled (callback : Nat) (time delay : Int)
  | collected
  | submitted (task : TimerTask)
  | started (callback : Nat) (time : Int)
  | finished (callback : Nat) (time : Int)
  deriving DecidableEq

/-- `closures` numbers the closures that calls have handed over, `log` has what has happened, last
event first; no code reads the two. -/
structure Shared where
  scheduler : Timer.Shared := {}
  now : Int
  closures : Nat := 0
  log : List Event := []

inductive Instr where
  | scheduler (i : Timer.Instr)
  | clock
  deriving DecidableEq

inductive Choice where
  | scheduler (x : Timer.Choice)
  | elapse (ticks : Nat)

/-- The clock is read as it is, and every call hands over a closure of its own. -/
def Choice.fits (x : Timer.Choice) (s : Shared) : Bool :=
  match x with
  | .clock time => time = s.now
  | .call operation => operation.callback.all (· = s.closures)
  | _ => true

def Choice.closures : Timer.Choice → Nat
  | .call operation => operation.callback.toList.length
  | _ => 0

namespace Instr

def events (i : Timer.Instr) (x : Timer.Choice) (pushed : List Timer.Instr) (now : Int) :
    List Event :=
  match i, x with
  | .call (.scheduleAfter delay (some callback)) _, _ =>
    if 0 ≤ delay then [.scheduled callback now delay] else []
  | .call (.scheduleEvery interval (some callback)) _, _ =>
    if 0 < interval then [.scheduled callback now interval] else []
  | .waitUntil .., .clock _ => if pushed = [.loop] then [] else [.collected]
  | .submit task, _ => [.submitted task]
  | .startCallback w, _ => [.started w.task.callback now]
  | .runCallback w, .next => [.finished w.task.callback now]
  | _, _ => []

def exec (t : Nat) (i : Instr) (x : Choice) (s : Shared) : Option (Shared × List Instr) :=
  match i, x with
  | .scheduler i, .scheduler x =>
    if Choice.fits x s then
      (i.exec t x s.scheduler).map fun r =>
        ({ s with
            scheduler := r.1
            closures := s.closures + Choice.closures x
            log := events i x r.2 s.now ++ s.log },
          r.2.map .scheduler)
    else none
  | .clock, .elapse ticks => some ({ s with now := s.now + ticks }, [.clock])
  | _, _ => none

def toScheduler : Instr → List Timer.Instr
  | .scheduler i => [i]
  | .clock => []

/-- The expiration that the step computes, as an exact integer. -/
def sum (i : Instr) (s : Shared) : Option Int :=
  match i with
  | .scheduler (.call (.scheduleAfter delay (some _)) _) =>
    if 0 ≤ delay then some (s.now + delay) else none
  | .scheduler (.call (.scheduleEvery interval (some _)) _) =>
    if 0 < interval then some (s.now + interval) else none
  | .scheduler (.leave w) =>
    if s.scheduler.states w.task.id = some .executing ∧ w.task.repeated = true ∧
        s.scheduler.schedulerState = .running then
      some (s.now + w.task.interval)
    else none
  | _ => none

end Instr

abbrev Config := Library.Config Shared Instr

def machine : Library.Machine Shared Instr Choice := ⟨Instr.exec⟩

def init (now : Int) (poolThreads threads : Nat) : Config :=
  ⟨{ now := now }, (Timer.init poolThreads threads).threads.map (·.map .scheduler) ++ [[.clock]]⟩

def toScheduler (c : Config) : Timer.Config := c.project Shared.scheduler Instr.toScheduler

/-- A time that `steady_clock` has. -/
def Representable (time : Int) : Prop := -2 ^ 63 ≤ time ∧ time < 2 ^ 63

instance (time : Int) : Decidable (Representable time) := inferInstanceAs (Decidable (_ ∧ _))

abbrev Fits (c : Config) (_ : Nat) (i : Instr) : Prop := ∀ time ∈ i.sum c.shared, Representable time

def Free : Timer.Instr → Prop
  | .call operation _ => operation.callback = none
  | .schedule .. | .batch _ | .submit _ | .enter _ | .startCallback _ | .runCallback _
  | .leave _ => False
  | _ => True

inductive Moves (s : Shared) : Instr → Shared → List Instr → Prop
  | elapse (ticks : Nat) : Moves s .clock { s with now := s.now + ticks } [.clock]
  | call {i : Timer.Instr} {operation : Operation} (inside : Bool)
      (caller : i = .user ∨ ∃ w, i = .runCallback w)
      (own : ∀ callback ∈ operation.callback, callback = s.closures) :
      Moves s (.scheduler i) { s with closures := s.closures + operation.callback.toList.length }
        [.scheduler (.call operation inside), .scheduler i]
  | after {delay : Int} {callback : Nat} (inside : Bool) (accepted : 0 ≤ delay) :
      Moves s (.scheduler (.call (.scheduleAfter delay (some callback)) inside))
        { s with log := .scheduled callback s.now delay :: s.log }
        [.scheduler (.schedule (plus s.now delay) 0 false callback)]
  | every {interval : Int} {callback : Nat} (inside : Bool) (accepted : 0 < interval) :
      Moves s (.scheduler (.call (.scheduleEvery interval (some callback)) inside))
        { s with log := .scheduled callback s.now interval :: s.log }
        [.scheduler (.schedule (plus s.now interval) interval true callback)]
  | schedule {expiration interval : Int} {repeated : Bool} {callback : Nat} {id : TimerId}
      {scheduler : Timer.Shared} {reply : Reply} (pool : scheduler.pool = s.scheduler.pool)
      (tasks : scheduler.tasks =
        s.scheduler.tasks.orderedInsert TimerTask.Before ⟨id, expiration, interval, repeated, callback⟩) :
      Moves s (.scheduler (.schedule expiration interval repeated callback))
        { s with scheduler := scheduler } [.scheduler (.returned reply)]
  | collect {id : TimerId} {expiration : Int} {scheduler : Timer.Shared}
      (pool : scheduler.pool = s.scheduler.pool)
      (tasks : scheduler.tasks = (collect s.now s.scheduler.tasks s.scheduler.states).2.1) :
      Moves s (.scheduler (.waitUntil id expiration))
        { s with scheduler := scheduler, log := .collected :: s.log }
        [.scheduler (.batch (collect s.now s.scheduler.tasks s.scheduler.states).1)]
  | skip {task : TimerTask} {ready : List TimerTask} {scheduler : Timer.Shared}
      (pool : scheduler.pool = s.scheduler.pool) (tasks : scheduler.tasks = s.scheduler.tasks) :
      Moves s (.scheduler (.batch (task :: ready))) { s with scheduler := scheduler }
        [.scheduler (.batch ready)]
  | pass {task : TimerTask} {ready : List TimerTask} {scheduler : Timer.Shared}
      (pool : scheduler.pool = s.scheduler.pool) (tasks : scheduler.tasks = s.scheduler.tasks) :
      Moves s (.scheduler (.batch (task :: ready))) { s with scheduler := scheduler }
        [.scheduler (.submit task), .scheduler (.batch ready)]
  | accept {task : TimerTask} {completion : Nat} {scheduler : Timer.Shared}
      (pool : scheduler.pool = s.scheduler.pool ++ [⟨task, completion⟩])
      (tasks : scheduler.tasks = s.scheduler.tasks) :
      Moves s (.scheduler (.submit task))
        { s with scheduler := scheduler, log := .submitted task :: s.log }
        [.scheduler (.dropCompletion completion)]
  | reject {task : TimerTask} {completion : Nat} {scheduler : Timer.Shared}
      (pool : scheduler.pool = s.scheduler.pool) (tasks : scheduler.tasks = s.scheduler.tasks) :
      Moves s (.scheduler (.submit task))
        { s with scheduler := scheduler, log := .submitted task :: s.log }
        [.scheduler (.rejected task completion)]
  | run {index : Nat} {w : Wrapper} {scheduler : Timer.Shared}
      (queued : s.scheduler.pool[index]? = some w)
      (pool : scheduler.pool = s.scheduler.pool.eraseIdx index)
      (tasks : scheduler.tasks = s.scheduler.tasks) :
      Moves s (.scheduler .poolWorker) { s with scheduler := scheduler }
        [.scheduler (.enter w), .scheduler .poolWorker]
  | enter {w : Wrapper} {scheduler : Timer.Shared} (pool : scheduler.pool = s.scheduler.pool)
      (tasks : scheduler.tasks = s.scheduler.tasks) :
      Moves s (.scheduler (.enter w)) { s with scheduler := scheduler }
        [.scheduler (.startCallback w)]
  | start {w : Wrapper} {scheduler : Timer.Shared} (pool : scheduler.pool = s.scheduler.pool)
      (tasks : scheduler.tasks = s.scheduler.tasks) :
      Moves s (.scheduler (.startCallback w))
        { s with scheduler := scheduler, log := .started w.task.callback s.now :: s.log }
        [.scheduler (.runCallback w)]
  | finish (w : Wrapper) :
      Moves s (.scheduler (.runCallback w))
        { s with log := .finished w.task.callback s.now :: s.log } [.scheduler (.leave w)]
  | again {w : Wrapper} {scheduler : Timer.Shared}
      (executing : s.scheduler.states w.task.id = some .executing)
      (repeated : w.task.repeated = true) (running : s.scheduler.schedulerState = .running)
      (pool : scheduler.pool = s.scheduler.pool)
      (tasks : scheduler.tasks = s.scheduler.tasks.orderedInsert TimerTask.Before
        { w.task with expiration := plus s.now w.task.interval, repeated := true }) :
      Moves s (.scheduler (.leave w)) { s with scheduler := scheduler }
        [.scheduler (.dropCompletion w.completion)]
  | other {i : Timer.Instr} {scheduler : Timer.Shared} {pushed : List Timer.Instr}
      (pool : scheduler.pool = s.scheduler.pool)
      (tasks : scheduler.tasks.Sublist s.scheduler.tasks) (free : ∀ j ∈ pushed, Free j) :
      Moves s (.scheduler i) { s with scheduler := scheduler } (pushed.map .scheduler)

section Exec

variable {t : Nat} {x : Timer.Choice} {s : Shared} {s' : Timer.Shared} {pushed : List Timer.Instr}

abbrev MovesTo (s : Shared) (i : Timer.Instr) (x : Timer.Choice) (s' : Timer.Shared)
    (pushed : List Timer.Instr) : Prop :=
  Moves s (.scheduler i)
    { s with
      scheduler := s'
      closures := s.closures + Choice.closures x
      log := Instr.events i x pushed s.now ++ s.log }
    (pushed.map .scheduler)

theorem moves_of_call {op : Operation} {inside : Bool} (hfits : Choice.fits x s = true)
    (h : (Timer.Instr.call op inside).exec t x s.scheduler = some (s', pushed)) :
    MovesTo s (.call op inside) x s' pushed := by
  simp only [Timer.Instr.exec] at h
  cases op with
  | scheduleAfter delay task =>
    cases x with
    | clock now =>
      obtain rfl : now = s.now := by simpa [Choice.fits] using hfits
      simp only [Timer.Instr.execCall] at h
      split at h
      · rename_i hnegative
        cases h
        have hevents : Instr.events (.call (.scheduleAfter delay task) inside) (.clock s.now)
            [.returned (.threw "Timer delay cannot be negative")] s.now = [] := by
          cases task with
          | none => rfl
          | some callback => exact if_neg (not_le.mpr hnegative)
        rw [MovesTo, hevents]
        exact .other rfl (List.Sublist.refl _) (by simp [Free])
      · rename_i hnegative
        split at h
        · cases h
          exact .other rfl (List.Sublist.refl _) (by simp [Free])
        · rename_i callback
          cases h
          have hevents : Instr.events (.call (.scheduleAfter delay (some callback)) inside)
              (.clock s.now) [.schedule (plus s.now delay) 0 false callback] s.now =
                [.scheduled callback s.now delay] := if_pos (not_lt.mp hnegative)
          rw [MovesTo, hevents]
          exact .after inside (not_lt.mp hnegative)
    | _ => cases h
  | scheduleEvery interval task =>
    cases x with
    | clock now =>
      obtain rfl : now = s.now := by simpa [Choice.fits] using hfits
      simp only [Timer.Instr.execCall] at h
      split at h
      · rename_i hnegative
        cases h
        have hevents : Instr.events (.call (.scheduleEvery interval task) inside) (.clock s.now)
            [.returned (.threw "Timer interval must be positive")] s.now = [] := by
          cases task with
          | none => rfl
          | some callback => exact if_neg (not_lt.mpr hnegative)
        rw [MovesTo, hevents]
        exact .other rfl (List.Sublist.refl _) (by simp [Free])
      · rename_i hpositive
        split at h
        · cases h
          exact .other rfl (List.Sublist.refl _) (by simp [Free])
        · rename_i callback
          cases h
          have hevents : Instr.events (.call (.scheduleEvery interval (some callback)) inside)
              (.clock s.now) [.schedule (plus s.now interval) interval true callback] s.now =
                [.scheduled callback s.now interval] := if_pos (not_le.mp hpositive)
          rw [MovesTo, hevents]
          exact .every inside (not_le.mp hpositive)
    | _ => cases h
  | start =>
    cases x with
    | next =>
      simp only [Timer.Instr.execCall] at h
      (repeat' split at h) <;> cases h <;>
        exact .other rfl (List.Sublist.refl _) (by simp [Free])
    | fails =>
      simp only [Timer.Instr.execCall] at h
      split at h <;> cases h
      exact .other rfl (List.Sublist.refl _) (by simp [Free])
    | _ => cases h
  | cancel id =>
    cases x with
    | next =>
      simp only [Timer.Instr.execCall, Timer.Instr.execCancel] at h
      (repeat' split at h) <;> cases h <;>
        exact .other rfl (List.Sublist.refl _) (by simp [Free])
    | _ => cases h
  | requestStop | wait | stop =>
    cases x <;> cases h
    exact .other rfl (List.Sublist.refl _) (by simp [Free])

theorem moves_of_waitUntil {id : TimerId} {expiration : Int} (hfits : Choice.fits x s = true)
    (h : (Timer.Instr.waitUntil id expiration).exec t x s.scheduler = some (s', pushed)) :
    MovesTo s (.waitUntil id expiration) x s' pushed := by
  simp only [Timer.Instr.exec, Timer.Instr.execWaitUntil] at h
  obtain ⟨-, h⟩ := Option.ite_none_left_eq_some.mp h
  split at h
  · cases x <;> cases h
    exact .other rfl (List.Sublist.refl _) (by simp [Free])
  · cases x with
    | clock now =>
      obtain rfl : now = s.now := by simpa [Choice.fits] using hfits
      simp only [Timer.Instr.execExpired, Option.some.injEq] at h
      split at h
      · cases h
        exact .other rfl (List.Sublist.refl _) (by simp [Free])
      · split at h <;> cases h
        · exact .other rfl (List.Sublist.refl _) (by simp [Free])
        · exact .collect rfl rfl
    | _ => cases h

theorem moves_of_batch {task : TimerTask} {ready : List TimerTask}
    (h : (Timer.Instr.batch (task :: ready)).exec t x s.scheduler = some (s', pushed)) :
    MovesTo s (.batch (task :: ready)) x s' pushed := by
  cases x with
  | next =>
    obtain ⟨-, h⟩ := Option.ite_none_left_eq_some.mp h
    simp only [Timer.Instr.execBatch, Option.some.injEq] at h
    split at h
    · cases h
      exact .skip rfl rfl
    · split at h
      · cases h
        exact .skip rfl rfl
      · split at h <;> cases h
        · exact .skip rfl rfl
        · exact .pass rfl rfl
  | _ => cases h

theorem moves_of_enter {w : Wrapper}
    (h : (Timer.Instr.enter w).exec t x s.scheduler = some (s', pushed)) :
    MovesTo s (.enter w) x s' pushed := by
  cases x with
  | next =>
    obtain ⟨-, h⟩ := Option.ite_none_left_eq_some.mp h
    simp only [Timer.Instr.execEnter, Option.some.injEq] at h
    split at h <;> cases h
    · exact .enter rfl rfl
    · exact .other rfl (List.Sublist.refl _) (by simp [Free])
    · exact .other rfl (List.Sublist.refl _) (by simp [Free])
  | _ => cases h

theorem moves_of_leave {w : Wrapper} (hfits : Choice.fits x s = true)
    (h : (Timer.Instr.leave w).exec t x s.scheduler = some (s', pushed)) :
    MovesTo s (.leave w) x s' pushed := by
  cases x with
  | clock now =>
    obtain rfl : now = s.now := by simpa [Choice.fits] using hfits
    obtain ⟨-, h⟩ := Option.ite_none_left_eq_some.mp h
    simp only [Timer.Instr.execLeave, Option.some.injEq] at h
    split at h
    · cases h
      exact .other rfl (List.Sublist.refl _) (by simp [Free])
    · rename_i hexecuting
      split at h
      · rename_i hagain
        rw [Bool.and_eq_true, decide_eq_true_eq] at hagain
        cases h
        exact .again hexecuting hagain.1 hagain.2 rfl rfl
      · cases h
        exact .other rfl (List.Sublist.refl _) (by simp [Free])
    · cases h
      exact .other rfl (List.Sublist.refl _) (by simp [Free])
  | _ => cases h

theorem own_of_fits {op : Operation} (h : Choice.fits (.call op) s = true) :
    ∀ callback ∈ op.callback, callback = s.closures := fun callback hmem => by
  simpa [Choice.fits, Option.mem_def.mp hmem] using h

theorem moves_of_scheduler {i : Timer.Instr} (hfits : Choice.fits x s = true)
    (h : i.exec t x s.scheduler = some (s', pushed)) : MovesTo s i x s' pushed := by
  cases i with
  | call op inside => exact moves_of_call hfits h
  | waitUntil id expiration => exact moves_of_waitUntil hfits h
  | enter w => exact moves_of_enter h
  | leave w => exact moves_of_leave hfits h
  | batch ready =>
    cases ready with
    | nil =>
      cases x <;> cases h
      exact .other rfl (List.Sublist.refl _) (by simp [Free])
    | cons task ready => exact moves_of_batch h
  | user =>
    cases x <;> cases h
    exact .call false (.inl rfl) (own_of_fits hfits)
  | startCallback w =>
    cases x <;> cases h
    exact .start rfl rfl
  | runCallback w =>
    cases x <;> cases h
    · exact .finish w
    · exact .call true (.inr ⟨w, rfl⟩) (own_of_fits hfits)
  | schedule expiration interval repeated callback =>
    cases x with
    | next =>
      obtain ⟨-, h⟩ := Option.ite_none_left_eq_some.mp h
      simp only [Timer.Instr.execSchedule, Option.some.injEq] at h
      split at h <;> cases h
      · exact .other rfl (List.Sublist.refl _) (by simp [Free])
      · exact .schedule rfl rfl
    | _ => cases h
  | submit task =>
    cases x <;> cases h
    · exact .accept rfl rfl
    · exact .reject rfl rfl
  | poolWorker =>
    cases x with
    | run index =>
      obtain ⟨w, hqueued, heq⟩ := Option.map_eq_some_iff.mp h
      cases heq
      exact .run hqueued rfl rfl
    | _ => cases h
  | requestStop stop =>
    cases x with
    | next =>
      obtain ⟨-, h⟩ := Option.ite_none_left_eq_some.mp h
      cases h
      refine .other ?_ ?_ ?_
      · rw [Timer.Instr.execRequestStop]
        split <;> rfl
      · rw [Timer.Instr.execRequestStop]
        split <;> exact List.Sublist.refl _
      · cases stop <;> simp [Free]
    | _ => cases h
  | popCancelled =>
    cases x <;> cases h
    exact .other rfl (suffix_dropCancelled ..).sublist (by simp [Free])
  | awaitFinished drain =>
    cases x with
    | next =>
      obtain ⟨-, h⟩ := Option.ite_none_left_eq_some.mp h
      cases h
      exact .other rfl (List.nil_sublist _) (by simp [Free])
    | _ => cases h
  | _ =>
    cases x with
    | next =>
      cases Timer.moves_of_exec (t := t) h <;>
        exact .other rfl (List.Sublist.refl _) (by simp [Free])
    | _ => cases h

theorem moves_of_exec {i : Instr} {x : Choice} {s' : Shared} {pushed : List Instr}
    (h : i.exec t x s = some (s', pushed)) : Moves s i s' pushed := by
  cases i with
  | clock =>
    cases x with
    | elapse ticks => cases h; exact .elapse ticks
    | scheduler x => cases h
  | scheduler i =>
    cases x with
    | elapse ticks => cases h
    | scheduler x =>
      obtain ⟨hfits, h⟩ := Option.ite_none_right_eq_some.mp h
      obtain ⟨r, hexec, heq⟩ := Option.map_eq_some_iff.mp h
      obtain ⟨scheduler, pushed⟩ := r
      cases heq
      exact moves_of_scheduler hfits hexec

end Exec

end Clocked

end UnixNotes.Timer
