import UnixNotes.Timer.Scheduler

namespace UnixNotes.Timer

open Library

inductive Moves (s : Shared) : Instr → Shared → List Instr → Prop
  | call (op : Operation) : Moves s .user s [.call op false, .user]
  | nested (w : Wrapper) (op : Operation) :
      Moves s (.runCallback w) s [.call op true, .runCallback w]
  | refused (op : Operation) (inside : Bool) (what : String) :
      Moves s (.call op inside) s [.returned (.threw what)]
  | started (inside : Bool) (created : s.schedulerState = .created) :
      Moves s (.call .start inside) { s with schedulerState := .running, worker := .running }
        [.returned .done]
  | ask (op : Operation) (inside : Bool) (expiration interval : Int) (repeated : Bool)
      (callback : Nat) : Moves s (.call op inside) s
        [.schedule expiration interval repeated callback]
  | cancelNothing {id : TimerId} (inside : Bool)
      (dead : s.states id = none ∨ s.states id = some .cancelled) :
      Moves s (.call (.cancel id) inside) s [.returned (.cancelled false)]
  | cancel {id : TimerId} {state : TimerState} (inside : Bool) (found : s.states id = some state)
      (live : state ≠ .cancelled) :
      Moves s (.call (.cancel id) inside)
        { s with states := s.states.set id .cancelled, cancelled := id :: s.cancelled }
        [.returned (.cancelled true)]
  | askRequestStop (inside : Bool) : Moves s (.call .requestStop inside) s [.requestStop none]
  | askWait (inside : Bool) : Moves s (.call .wait inside) s [.joinWorker .wait inside]
  | askStop (inside : Bool) : Moves s (.call .stop inside) s [.requestStop (some inside)]
  | scheduleRefused (expiration interval : Int) (repeated : Bool) (callback : Nat)
      (stopped : s.schedulerState ≠ .running) :
      Moves s (.schedule expiration interval repeated callback) s
        [.returned (.threw "TimerScheduler is not running")]
  | schedule (expiration interval : Int) (repeated : Bool) (callback : Nat)
      (running : s.schedulerState = .running) :
      Moves s (.schedule expiration interval repeated callback)
        ({ s with
            nextId := s.nextId + 1
            states := s.states.emplace s.nextId .pending
            issued := s.issued + 1 }.push ⟨s.nextId, expiration, interval, repeated, callback⟩)
        [.returned (.scheduled s.nextId)]
  | requestStop : Moves s (.requestStop none) (Instr.execRequestStop s) [.returned .done]
  | beginStop (inside : Bool) :
      Moves s (.requestStop (some inside)) (Instr.execRequestStop s) [.joinWorker .stop inside]
  | joinInside {drain : Drain} {worker : WorkerThread} (ended : s.worker ≠ .running)
      (joined : worker = s.worker ∨ s.worker = .exited ∧ worker = .joined) :
      Moves s (.joinWorker drain true) { s with worker := worker }
        [.returned (.drained drain true)]
  | join {drain : Drain} {worker : WorkerThread} (ended : s.worker ≠ .running)
      (joined : worker = s.worker ∨ s.worker = .exited ∧ worker = .joined) :
      Moves s (.joinWorker drain false) { s with worker := worker } [.awaitFinished drain]
  | finished (drain : Drain) (idle : s.inFlight = 0) :
      Moves s (.awaitFinished drain)
        { s with tasks := [], states := fun _ => none, schedulerState := .stopped }
        [.returned (.drained drain false)]
  | returned (reply : Reply) : Moves s (.returned reply) s []
  | begin (started : s.worker = .running) : Moves s .worker s [.lockLoop]
  | lockLoop : Moves s .lockLoop { s with locked := true } [.loop]
  | exit (stopped : s.schedulerState ≠ .running) :
      Moves s .loop { s with locked := false, worker := .exited } []
  | sleep : Moves s .loop { s with locked := false } [.waitTasks]
  | popTop : Moves s .loop s [.popCancelled]
  | awaitTop (id : TimerId) (expiration : Int) :
      Moves s .loop { s with locked := false } [.waitUntil id expiration]
  | wakeTasks : Moves s .waitTasks { s with locked := true } [.loop]
  | interrupted (id : TimerId) (expiration : Int) :
      Moves s (.waitUntil id expiration) { s with locked := true } [.popCancelled]
  | early (id : TimerId) (expiration : Int) :
      Moves s (.waitUntil id expiration) { s with locked := true } [.loop]
  | collect (id : TimerId) (expiration now : Int) :
      Moves s (.waitUntil id expiration)
        { s with
          tasks := (collect now s.tasks s.states).2.1
          states := (collect now s.tasks s.states).2.2 }
        [.batch (collect now s.tasks s.states).1]
  | popCancelled : Moves s .popCancelled
      { s with
        tasks := (dropCancelled s.tasks s.states).1
        states := (dropCancelled s.tasks s.states).2 } [.loop]
  | batchDone : Moves s (.batch []) s [.lockLoop]
  | skip (task : TimerTask) (rest : List TimerTask)
      (unexpected : s.states task.id ≠ some .submitted ∧ s.states task.id ≠ some .cancelled) :
      Moves s (.batch (task :: rest)) s [.batch rest]
  | discard (task : TimerTask) (rest : List TimerTask) :
      Moves s (.batch (task :: rest)) { s with states := s.states.erase task.id } [.batch rest]
  | pass (task : TimerTask) (rest : List TimerTask) (ready : s.states task.id = some .submitted) :
      Moves s (.batch (task :: rest)) { s with inFlight := s.inFlight + 1 }
        [.submit task, .batch rest]
  | accepted (task : TimerTask) :
      Moves s (.submit task)
        { s with
          submissions := s.submissions + 1
          completions := s.submissions :: s.submissions :: s.completions
          pool := s.pool ++ [⟨task, s.submissions⟩] }
        [.dropCompletion s.submissions]
  | reject (task : TimerTask) :
      Moves s (.submit task)
        { s with
          submissions := s.submissions + 1
          completions := s.submissions :: s.completions }
        [.rejected task s.submissions]
  | eraseRejected (task : TimerTask) (completion : Nat) :
      Moves s (.rejected task completion) { s with states := s.states.erase task.id }
        [.dropCompletion completion]
  | dropShared {completion : Nat} (shared : completion ∈ s.completions.erase completion) :
      Moves s (.dropCompletion completion)
        { s with completions := s.completions.erase completion } []
  | dropLast {completion : Nat} (last : completion ∉ s.completions.erase completion) :
      Moves s (.dropCompletion completion)
        { s with completions := s.completions.erase completion } [.finishInFlight]
  | finishInFlight : Moves s .finishInFlight { s with inFlight := s.inFlight - 1 } []
  | run {index : Nat} {w : Wrapper} (queued : s.pool[index]? = some w) :
      Moves s .poolWorker { s with pool := s.pool.eraseIdx index } [.enter w, .poolWorker]
  | enterNothing (w : Wrapper)
      (unexpected : s.states w.task.id ≠ some .submitted ∧ s.states w.task.id ≠ some .cancelled) :
      Moves s (.enter w) s [.dropCompletion w.completion]
  | enterCancelled {w : Wrapper} (cancelled : s.states w.task.id = some .cancelled) :
      Moves s (.enter w) { s with states := s.states.erase w.task.id }
        [.dropCompletion w.completion]
  | enter {w : Wrapper} (submitted : s.states w.task.id = some .submitted) :
      Moves s (.enter w) { s with states := s.states.set w.task.id .executing } [.startCallback w]
  | callbackStarts (w : Wrapper) :
      Moves s (.startCallback w) { s with started := w.task.id :: s.started } [.runCallback w]
  | callbackEnds (w : Wrapper) : Moves s (.runCallback w) s [.leave w]
  | leaveNothing {w : Wrapper} (missing : s.states w.task.id = none) :
      Moves s (.leave w) s [.dropCompletion w.completion]
  | again {w : Wrapper} (now : Int) (executing : s.states w.task.id = some .executing)
      (running : s.schedulerState = .running) (repeated : w.task.repeated = true) :
      Moves s (.leave w)
        ({ s with states := s.states.set w.task.id .pending }.push
          { w.task with expiration := plus now w.task.interval, repeated := true })
        [.dropCompletion w.completion]
  | leave (w : Wrapper) :
      Moves s (.leave w) { s with states := s.states.erase w.task.id }
        [.dropCompletion w.completion]

theorem eq_of_init {poolThreads threads t : Nat} {i : Instr}
    (h : (init poolThreads threads).Active t i) : i = .worker ∨ i = .poolWorker ∨ i = .user := by
  obtain ⟨stack, hstack, hi⟩ := Config.mem_threads h
  rw [init, List.mem_cons, List.mem_append] at hstack
  obtain rfl | hstack | hstack := hstack
  · exact .inl (List.mem_singleton.mp hi)
  · obtain ⟨-, rfl⟩ := List.mem_replicate.mp hstack
    exact .inr (.inl (List.mem_singleton.mp hi))
  · obtain ⟨-, rfl⟩ := List.mem_replicate.mp hstack
    exact .inr (.inr (List.mem_singleton.mp hi))

theorem total_init {w : Instr → Nat} (hworker : w .worker = 0) (hpool : w .poolWorker = 0)
    (huser : w .user = 0) (poolThreads threads : Nat) :
    (init poolThreads threads).total w = 0 := by
  refine Config.total_eq_zero fun t i hactive => ?_
  obtain rfl | rfl | rfl := eq_of_init hactive
  · exact hworker
  · exact hpool
  · exact huser

section Exec

variable {t : Nat} {x : Choice} {s s' : Shared} {pushed : List Instr}

theorem moves_of_execCancel {id : TimerId} {inside : Bool}
    (h : Instr.execCancel id s = (s', pushed)) : Moves s (.call (.cancel id) inside) s' pushed := by
  simp only [Instr.execCancel] at h
  split at h
  · rename_i hnone
    cases h
    exact .cancelNothing inside (.inl hnone)
  · rename_i hcancelled
    cases h
    exact .cancelNothing inside (.inr hcancelled)
  · rename_i state hlive hfound
    cases h
    exact .cancel inside hfound hlive

theorem moves_of_execCall {op : Operation} {inside : Bool}
    (h : Instr.execCall op inside x s = some (s', pushed)) : Moves s (.call op inside) s' pushed := by
  cases op with
  | start =>
    cases x with
    | next =>
      simp only [Instr.execCall] at h
      split at h
      · cases h
      · split at h
        · cases h
          exact .refused _ _ _
        · rename_i hcreated
          cases h
          exact .started inside (not_not.mp hcreated)
    | fails =>
      simp only [Instr.execCall] at h
      split at h <;> cases h
      exact .refused _ _ _
    | _ => cases h
  | scheduleAfter delay task =>
    cases x with
    | clock now =>
      simp only [Instr.execCall] at h
      (repeat' split at h) <;> cases h
      · exact .refused _ _ _
      · exact .refused _ _ _
      · exact .ask _ _ _ _ _ _
    | _ => cases h
  | scheduleEvery interval task =>
    cases x with
    | clock now =>
      simp only [Instr.execCall] at h
      (repeat' split at h) <;> cases h
      · exact .refused _ _ _
      · exact .refused _ _ _
      · exact .ask _ _ _ _ _ _
    | _ => cases h
  | cancel id =>
    cases x with
    | next =>
      obtain ⟨-, heq⟩ := Option.ite_none_left_eq_some.mp h
      exact moves_of_execCancel (Option.some.inj heq)
    | _ => cases h
  | requestStop =>
    cases x with
    | next => cases h; exact .askRequestStop inside
    | _ => cases h
  | wait =>
    cases x with
    | next => cases h; exact .askWait inside
    | _ => cases h
  | stop =>
    cases x with
    | next => cases h; exact .askStop inside
    | _ => cases h

theorem moves_of_execSchedule {expiration interval : Int} {repeated : Bool} {callback : Nat}
    (h : Instr.execSchedule expiration interval repeated callback s = (s', pushed)) :
    Moves s (.schedule expiration interval repeated callback) s' pushed := by
  simp only [Instr.execSchedule] at h
  split at h
  · rename_i hstopped
    cases h
    exact .scheduleRefused _ _ _ _ hstopped
  · rename_i hrunning
    cases h
    exact .schedule _ _ _ _ (not_not.mp hrunning)

theorem moves_of_execJoinWorker {drain : Drain} {inside : Bool}
    (h : Instr.execJoinWorker drain inside s = some (s', pushed)) :
    Moves s (.joinWorker drain inside) s' pushed := by
  simp only [Instr.execJoinWorker] at h
  split at h
  · cases h
  · rename_i hexited
    cases h
    cases inside with
    | true => exact .joinInside (by rw [hexited]; nofun) (.inr ⟨hexited, rfl⟩)
    | false => exact .join (by rw [hexited]; nofun) (.inr ⟨hexited, rfl⟩)
  all_goals
    rename_i hworker
    cases h
    cases inside with
    | true => exact .joinInside (by rw [hworker]; nofun) (.inl rfl)
    | false => exact .join (by rw [hworker]; nofun) (.inl rfl)

theorem moves_of_execLoop (h : Instr.execLoop s = (s', pushed)) : Moves s .loop s' pushed := by
  simp only [Instr.execLoop] at h
  split at h
  · rename_i hstopped
    cases h
    exact .exit hstopped
  · split at h
    · cases h
      exact .sleep
    · split at h <;> cases h
      · exact .popTop
      · exact .awaitTop _ _

theorem moves_of_execWaitUntil {id : TimerId} {expiration : Int}
    (h : Instr.execWaitUntil id expiration x s = some (s', pushed)) :
    Moves s (.waitUntil id expiration) s' pushed := by
  simp only [Instr.execWaitUntil] at h
  split at h
  · cases h
  · split at h
    · cases x with
      | next => cases h; exact .interrupted id expiration
      | _ => cases h
    · cases x with
      | clock now =>
        simp only [Instr.execExpired, Option.some.injEq] at h
        split at h
        · cases h
          exact .early id expiration
        · split at h <;> cases h
          · exact .early id expiration
          · exact .collect id expiration now
      | _ => cases h

theorem moves_of_execBatch {task : TimerTask} {rest : List TimerTask}
    (h : Instr.execBatch task rest s = (s', pushed)) :
    Moves s (.batch (task :: rest)) s' pushed := by
  simp only [Instr.execBatch] at h
  split at h
  · rename_i hnone
    cases h
    exact .skip task rest (by rw [hnone]; exact ⟨nofun, nofun⟩)
  · rename_i state hfound
    split at h
    · cases h
      exact .discard task rest
    · rename_i hpass
      rw [Bool.or_eq_true, not_or, decide_eq_true_iff] at hpass
      split at h
      · rename_i hstate
        cases h
        refine .skip task rest ?_
        rw [hfound]
        exact ⟨fun heq => hstate (Option.some.inj heq), fun heq => hpass.1 (Option.some.inj heq)⟩
      · rename_i hstate
        cases h
        exact .pass task rest (by rw [hfound, not_not.mp hstate])

theorem moves_of_execSubmit {task : TimerTask}
    (h : Instr.execSubmit task x s = some (s', pushed)) : Moves s (.submit task) s' pushed := by
  cases x with
  | next => cases h; exact .accepted task
  | reject => cases h; exact .reject task
  | _ => cases h

theorem moves_of_execDropCompletion {completion : Nat}
    (h : Instr.execDropCompletion completion s = (s', pushed)) :
    Moves s (.dropCompletion completion) s' pushed := by
  simp only [Instr.execDropCompletion] at h
  split at h
  · rename_i hshared
    cases h
    exact .dropShared hshared
  · rename_i hlast
    cases h
    exact .dropLast hlast

theorem moves_of_execEnter {w : Wrapper} (h : Instr.execEnter w s = (s', pushed)) :
    Moves s (.enter w) s' pushed := by
  simp only [Instr.execEnter] at h
  split at h
  · rename_i hsubmitted
    cases h
    exact .enter hsubmitted
  · rename_i hcancelled
    cases h
    exact .enterCancelled hcancelled
  · rename_i hsubmitted hcancelled
    cases h
    exact .enterNothing w ⟨hsubmitted, hcancelled⟩

theorem moves_of_execLeave {w : Wrapper} {now : Int}
    (h : Instr.execLeave w now s = (s', pushed)) : Moves s (.leave w) s' pushed := by
  simp only [Instr.execLeave] at h
  split at h
  · rename_i hmissing
    cases h
    exact .leaveNothing hmissing
  · rename_i hexecuting
    split at h
    · rename_i hagain
      rw [Bool.and_eq_true, decide_eq_true_iff] at hagain
      cases h
      exact .again now hexecuting hagain.2 hagain.1
    · cases h
      exact .leave w
  · cases h
    exact .leave w

theorem moves_of_exec {i : Instr} (h : i.exec t x s = some (s', pushed)) : Moves s i s' pushed := by
  cases i with
  | call op inside => exact moves_of_execCall h
  | waitUntil id expiration => exact moves_of_execWaitUntil h
  | submit task => exact moves_of_execSubmit h
  | user =>
    cases x with
    | call op => cases h; exact .call op
    | _ => cases h
  | poolWorker =>
    cases x with
    | run index =>
      obtain ⟨w, hqueued, heq⟩ := Option.map_eq_some_iff.mp h
      cases heq
      exact .run hqueued
    | _ => cases h
  | startCallback w =>
    cases x with
    | next => cases h; exact .callbackStarts w
    | _ => cases h
  | runCallback w =>
    cases x with
    | call op => cases h; exact .nested w op
    | next => cases h; exact .callbackEnds w
    | _ => cases h
  | leave w =>
    cases x with
    | clock now =>
      obtain ⟨-, heq⟩ := Option.ite_none_left_eq_some.mp h
      exact moves_of_execLeave (Option.some.inj heq)
    | _ => cases h
  | batch ready =>
    cases x with
    | next =>
      cases ready with
      | nil => cases h; exact .batchDone
      | cons task rest =>
        obtain ⟨-, heq⟩ := Option.ite_none_left_eq_some.mp h
        exact moves_of_execBatch (Option.some.inj heq)
    | _ => cases ready <;> cases h
  | schedule expiration interval repeated callback =>
    cases x with
    | next =>
      obtain ⟨-, heq⟩ := Option.ite_none_left_eq_some.mp h
      exact moves_of_execSchedule (Option.some.inj heq)
    | _ => cases h
  | requestStop stop =>
    cases x with
    | next =>
      obtain ⟨-, heq⟩ := Option.ite_none_left_eq_some.mp h
      cases stop with
      | none => cases heq; exact .requestStop
      | some inside => cases heq; exact .beginStop inside
    | _ => cases h
  | joinWorker drain inside =>
    cases x with
    | next => exact moves_of_execJoinWorker h
    | _ => cases h
  | awaitFinished drain =>
    cases x with
    | next =>
      obtain ⟨hidle, heq⟩ := Option.ite_none_left_eq_some.mp h
      rw [Bool.or_eq_true, not_or, decide_eq_true_iff, not_not] at hidle
      cases heq
      exact .finished drain hidle.2
    | _ => cases h
  | returned reply =>
    cases x with
    | next => cases h; exact .returned reply
    | _ => cases h
  | worker =>
    cases x with
    | next =>
      obtain ⟨hstarted, heq⟩ := Option.ite_none_right_eq_some.mp h
      cases heq
      exact .begin hstarted
    | _ => cases h
  | lockLoop =>
    cases x with
    | next =>
      obtain ⟨-, heq⟩ := Option.ite_none_left_eq_some.mp h
      cases heq
      exact .lockLoop
    | _ => cases h
  | loop =>
    cases x with
    | next => exact moves_of_execLoop (Option.some.inj h)
    | _ => cases h
  | waitTasks =>
    cases x with
    | next =>
      obtain ⟨-, heq⟩ := Option.ite_none_left_eq_some.mp h
      cases heq
      exact .wakeTasks
    | _ => cases h
  | popCancelled =>
    cases x with
    | next => cases h; exact .popCancelled
    | _ => cases h
  | rejected task completion =>
    cases x with
    | next =>
      obtain ⟨-, heq⟩ := Option.ite_none_left_eq_some.mp h
      cases heq
      exact .eraseRejected task completion
    | _ => cases h
  | dropCompletion completion =>
    cases x with
    | next => exact moves_of_execDropCompletion (Option.some.inj h)
    | _ => cases h
  | finishInFlight =>
    cases x with
    | next =>
      obtain ⟨-, heq⟩ := Option.ite_none_left_eq_some.mp h
      cases heq
      exact .finishInFlight
    | _ => cases h
  | enter w =>
    cases x with
    | next =>
      obtain ⟨-, heq⟩ := Option.ite_none_left_eq_some.mp h
      exact moves_of_execEnter (Option.some.inj heq)
    | _ => cases h

end Exec

theorem Moves.of_startCallback {s s' : Shared} {i : Instr} {pushed : List Instr} {w : Wrapper}
    (h : Moves s i s' pushed) (hmem : .startCallback w ∈ pushed) :
    i = .enter w ∧ s.states w.task.id = some .submitted := by
  cases h with
  | enter submitted =>
    cases List.mem_singleton.mp hmem
    exact ⟨rfl, submitted⟩
  | _ => simp at hmem

end UnixNotes.Timer
