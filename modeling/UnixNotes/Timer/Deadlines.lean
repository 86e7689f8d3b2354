import UnixNotes.Timer.Waking

namespace UnixNotes.Timer

open Library

/-- `wait()` is not called before `start()`. -/
abbrev StartedFirst (c : Config) (_ : Nat) (i : Instr) : Prop :=
  ∀ inside, i = .call .wait inside → c.shared.schedulerState ≠ .created

/-- The loop is in the first thread, and nothing is taken away while it runs. -/
structure Serving (c : Config) : Prop where
  looping : Looping c
  own : ∀ t i, c.Active t i → 0 < i.scheduling → t = 0
  joining : ∀ t drain inside, c.Active t (.joinWorker drain inside) →
    c.shared.schedulerState ≠ .created
  awaiting : ∀ t drain, c.Active t (.awaitFinished drain) →
    c.shared.schedulerState ≠ .created ∧ c.shared.worker ≠ .running
  heap : Heap c.shared.tasks
  reached : ∀ t id expiration, c.Active t (.waitUntil id expiration) →
    ∃ task ∈ c.shared.tasks, task.expiration ≤ expiration

section Moves

variable {s s' : Shared} {i : Instr} {pushed : List Instr}

theorem Moves.scheduling_pos (h : Moves s i s' pushed) :
    ∀ j ∈ pushed, 0 < j.scheduling → 0 < i.scheduling := by
  cases h <;> simp [Instr.scheduling, Instr.looping]

theorem Moves.ne_created (h : Moves s i s' pushed) (hstarted : s.schedulerState ≠ .created) :
    s'.schedulerState ≠ .created := by
  cases h with
  | started => nofun
  | requestStop | beginStop => exact execRequestStop_ne_created s
  | finished => nofun
  | _ => exact hstarted

theorem Moves.worker_ne_running (h : Moves s i s' pushed) (hstarted : s.schedulerState ≠ .created)
    (hended : s.worker ≠ .running) : s'.worker ≠ .running := by
  cases h with
  | started inside created => exact absurd created hstarted
  | requestStop | beginStop => rwa [worker_execRequestStop]
  | joinInside ended joined | join ended joined =>
    obtain rfl | ⟨-, rfl⟩ := joined
    · exact ended
    · nofun
  | exit => nofun
  | _ => exact hended

theorem Moves.of_join {drain : Drain} {inside : Bool} (h : Moves s i s' pushed)
    (hmem : .joinWorker drain inside ∈ pushed) :
    s'.schedulerState ≠ .created ∨ s' = s ∧ i = .call .wait inside := by
  cases h with
  | askWait inside' =>
    obtain ⟨-, rfl⟩ : drain = .wait ∧ inside = inside' := by simpa using hmem
    exact .inr ⟨rfl, rfl⟩
  | beginStop => exact .inl (execRequestStop_ne_created s)
  | _ => simp at hmem

theorem Moves.of_awaitFinished {drain : Drain} (h : Moves s i s' pushed)
    (hmem : .awaitFinished drain ∈ pushed) :
    s'.worker ≠ .running ∧ s'.schedulerState = s.schedulerState ∧ i = .joinWorker drain false := by
  cases h with
  | @join drain' worker ended joined =>
    obtain rfl : drain = drain' := by simpa using hmem
    refine ⟨?_, rfl, rfl⟩
    obtain rfl | ⟨-, rfl⟩ := joined
    · exact ended
    · nofun
  | _ => simp at hmem

theorem Moves.mem_tasks (h : Moves s i s' pushed) (hlooping : i.looping = 0)
    (hawait : ∀ drain, i ≠ .awaitFinished drain) {task : TimerTask} (hmem : task ∈ s.tasks) :
    task ∈ s'.tasks := by
  cases h with
  | schedule | again => exact (List.mem_orderedInsert _).mpr (.inr hmem)
  | requestStop | beginStop =>
    rw [Instr.execRequestStop]
    split <;> exact hmem
  | finished drain => exact absurd rfl (hawait drain)
  | collect | popCancelled => cases hlooping
  | _ => exact hmem

theorem wait_of_execLoop {j : Instr} (h : Instr.execLoop s = (s', pushed)) (hmem : j ∈ pushed)
    (hj : j ≠ .popCancelled) :
    s'.schedulerState = .running ∧ s'.tasks = s.tasks ∧ pushed = [j] ∧
      (j = .waitTasks ∧ s.tasks = [] ∨
        ∃ top tasks, s.tasks = top :: tasks ∧ j = .waitUntil top.id top.expiration) := by
  rw [Instr.execLoop] at h
  split at h
  · cases h
    cases hmem
  · rename_i hrunning
    rw [ne_eq, not_not] at hrunning
    split at h
    · rename_i htasks
      cases h
      obtain rfl := List.mem_singleton.mp hmem
      exact ⟨hrunning, rfl, rfl, .inl ⟨rfl, htasks⟩⟩
    · rename_i top tasks htasks
      split at h
      · cases h
        exact absurd (List.mem_singleton.mp hmem) hj
      · cases h
        obtain rfl := List.mem_singleton.mp hmem
        exact ⟨hrunning, rfl, rfl, .inr ⟨top, tasks, htasks, rfl⟩⟩

theorem execLoop_of_wait {t : Nat} {x : Choice} {j : Instr}
    (h : i.exec t x s = some (s', pushed)) (hmem : j ∈ pushed)
    (hj : j = .waitTasks ∨ ∃ id expiration, j = .waitUntil id expiration) :
    i = .loop ∧ Instr.execLoop s = (s', pushed) := by
  have hloop : i = .loop := by
    cases moves_of_exec (t := t) h with
    | exit | sleep | popTop | awaitTop => rfl
    | _ => obtain rfl | ⟨id, expiration, rfl⟩ := hj <;> simp at hmem
  subst hloop
  cases x with
  | next => exact ⟨rfl, Option.some.inj h⟩
  | _ => cases h

end Moves

namespace Serving

variable {c c' : Config} {t : Nat} {i : Instr} {rest pushed : List Instr} {s : Shared}

theorem init (poolThreads threads : Nat) : Serving (init poolThreads threads) := by
  refine ⟨.init poolThreads threads, fun t i hactive hi => ?_, fun t drain inside hactive => ?_,
    fun t drain hactive => ?_, List.Pairwise.nil, fun t id expiration hactive => ?_⟩
  · cases t with
    | zero => rfl
    | succ t =>
      obtain ⟨stack, hstack, hmem⟩ := Config.mem_threads_succ hactive
      obtain hstack | hstack := List.mem_append.mp hstack <;>
        obtain ⟨-, rfl⟩ := List.mem_replicate.mp hstack <;>
        · rw [List.mem_singleton] at hmem
          subst hmem
          cases hi
  all_goals obtain heq | heq | heq := eq_of_init hactive <;> cases heq

theorem not_await (h : Serving c) (hactive : c.Active t i) (hi : i.looping = 1) {t' : Nat}
    {drain : Drain} : ¬c.Active t' (.awaitFinished drain) := by
  intro hawait
  have hended := h.looping.ended (h.awaiting t' drain hawait).2
  have hle := Config.le_total (w := Instr.looping) hactive
  rw [hended, hi] at hle
  cases hle

theorem step (h : Serving c) (hok : StartedFirst c t i) (hstep : machine.Step c t i c') :
    Serving c' := by
  have hlooping := h.looping.step hstep
  obtain @⟨rest, x, s, pushed, htop, hexec⟩ := hstep
  have hmoves := moves_of_exec (t := t) hexec
  have hactive : c.Active t i := Config.active_of_top htop
  refine ⟨hlooping, fun t' j hj hpos => ?_, fun t' drain inside hj => ?_, fun t' drain hj => ?_,
    heap_moves hmoves h.heap, fun t' id expiration hj => ?_⟩
  · obtain ⟨rfl, hmem⟩ | hold := Config.active_of_replace htop hj
    · exact h.own _ i hactive (hmoves.scheduling_pos j hmem hpos)
    · exact h.own t' j hold hpos
  · obtain ⟨-, hmem⟩ | hold := Config.active_of_replace htop hj
    · obtain hstarted | ⟨rfl, rfl⟩ := hmoves.of_join hmem
      · exact hstarted
      · exact hok inside rfl
    · exact hmoves.ne_created (h.joining t' drain inside hold)
  · obtain ⟨-, hmem⟩ | hold := Config.active_of_replace htop hj
    · obtain ⟨hended, hstate, rfl⟩ := hmoves.of_awaitFinished hmem
      refine ⟨?_, hended⟩
      rw [Config.shared_replace, hstate]
      exact h.joining t drain false hactive
    · obtain ⟨hstarted, hended⟩ := h.awaiting t' drain hold
      exact ⟨hmoves.ne_created hstarted, hmoves.worker_ne_running hstarted hended⟩
  · by_cases hmem : .waitUntil id expiration ∈ pushed
    · obtain ⟨rfl, hloop⟩ := execLoop_of_wait (t := t) hexec hmem (.inr ⟨id, expiration, rfl⟩)
      obtain ⟨-, htasks, -, ⟨hwait, -⟩ | ⟨top, tasks, htop', hwait⟩⟩ :=
        wait_of_execLoop hloop hmem nofun
      · cases hwait
      · cases hwait
        rw [Config.shared_replace, htasks, htop']
        exact ⟨top, List.mem_cons_self .., le_rfl⟩
    · have hi : i.looping = 0 := by
        have hle := Config.weigh_add_le_total (w := Instr.scheduling) htop hj hmem
        have hone := h.looping.one
        have := Looping.looping_le_scheduling i
        rw [show (Instr.waitUntil id expiration).scheduling = 1 from rfl] at hle
        omega
      have hold := (Config.active_of_replace htop hj).resolve_left fun hpushed => hmem hpushed.2
      obtain ⟨task, hmem, hle⟩ := h.reached t' id expiration hold
      have hawait : ∀ drain, i ≠ .awaitFinished drain := by
        rintro drain rfl
        exact h.not_await hold rfl hactive
      exact ⟨task, hmoves.mem_tasks hi hawait hmem, hle⟩

end Serving

namespace Waking

variable {c c' : Config} {t : Nat} {i : Instr} {rest pushed : List Instr} {s : Shared}

theorem flatMap_scheduler (pushed : List Timer.Instr) :
    (pushed.map Instr.scheduler).flatMap Instr.toScheduler = pushed := by
  rw [List.flatMap_map]
  exact List.flatMap_singleton' pushed

theorem toScheduler_init (poolThreads threads : Nat) :
    toScheduler (init poolThreads threads) = Timer.init poolThreads threads := by
  simp only [toScheduler, Config.project, init, List.map_map, Function.comp_def,
    flatMap_scheduler, List.map_id']
  rfl

theorem toScheduler_replace (c : Config) (t : Nat) (s : Shared) (pushed rest : List Instr) :
    toScheduler (c.replace t s (pushed ++ rest)) =
      (toScheduler c).replace t s.scheduler
        (pushed.flatMap Instr.toScheduler ++ rest.flatMap Instr.toScheduler) :=
  Config.project_replace_append ..

theorem step_toScheduler (hstep : machine.Step c t i c') :
    (∃ j, i = .scheduler j ∧ Timer.machine.Step (toScheduler c) t j (toScheduler c')) ∨
      toScheduler c' = toScheduler c := by
  obtain @⟨rest, x, s, pushed, htop, hexec⟩ := hstep
  have hstack := Config.stack_project_top Shared.scheduler Instr.toScheduler htop
  cases moves_of_exec (t := t) hexec with
  | @scheduler t' j x scheduler pushed awake exec =>
    have hflat : ((if Instr.notifies j x c.shared.scheduler then [Instr.notify] else []) ++
        pushed.map Instr.scheduler).flatMap Instr.toScheduler = pushed := by
      rw [List.flatMap_append, flatMap_scheduler]
      split <;> rfl
    refine .inl ⟨j, rfl, ?_⟩
    rw [toScheduler_replace, hflat]
    exact .exec hstack exec
  | wake j =>
    refine .inr ?_
    rw [toScheduler_replace]
    exact Config.replace_top hstack
  | park waits =>
    refine .inr ?_
    rw [toScheduler_replace]
    exact Config.replace_top hstack
  | notify =>
    have hthreads := Config.threads_project_replace (g := Shared.scheduler) htop
      (f := Instr.toScheduler) rfl { c.shared with parked := false }
    exact .inr (congrArg (Library.Config.mk c.shared.scheduler) hthreads)

/-- The deadline of the wait is that of the first timer to expire. -/
def Settled (s : Timer.Shared) : Timer.Instr → Prop
  | .waitTasks => s.schedulerState = .running ∧ s.tasks = []
  | .waitUntil _ expiration =>
    s.schedulerState = .running ∧ ∀ task ∈ s.tasks, expiration ≤ task.expiration
  | _ => False

theorem needWakeup_eq_false {expiration : Int} {tasks : List TimerTask}
    (h : Instr.needWakeup expiration tasks = false) :
    ∃ top ∈ tasks, top.expiration ≤ expiration := by
  cases tasks with
  | nil => cases h
  | cons top tasks => exact ⟨top, List.mem_cons_self .., by simpa [Instr.needWakeup] using h⟩

theorem Settled.push {s : Timer.Shared} {j : Timer.Instr} {task : TimerTask}
    (h : Settled s j) (hquiet : Instr.needWakeup task.expiration s.tasks = false) :
    Settled (s.push task) j := by
  obtain ⟨top, hmem, hle⟩ := needWakeup_eq_false hquiet
  cases j with
  | waitTasks =>
    rw [h.2] at hmem
    cases hmem
  | waitUntil id expiration =>
    refine ⟨h.1, fun other hother => ?_⟩
    obtain rfl | hother := (List.mem_orderedInsert _).mp hother
    · exact (h.2 top hmem).trans hle
    · exact h.2 other hother
  | _ => exact h.elim

theorem Settled.congr {s s' : Timer.Shared} {j : Timer.Instr} (h : Settled s j)
    (hstate : s'.schedulerState = s.schedulerState) (htasks : s'.tasks = s.tasks) :
    Settled s' j := by
  cases j with
  | waitTasks => exact ⟨hstate.trans h.1, htasks.trans h.2⟩
  | waitUntil id expiration => exact ⟨hstate.trans h.1, htasks ▸ h.2⟩
  | _ => exact h.elim

theorem Settled.running {s : Timer.Shared} {j : Timer.Instr} (h : Settled s j) :
    s.schedulerState = .running := by
  cases j with
  | waitTasks | waitUntil => exact h.1
  | _ => exact h.elim

theorem Settled.leave {s : Timer.Shared} {j : Timer.Instr} {w : Wrapper} {now : Int}
    (h : Settled s j) (hquiet : Instr.notifies (.leave w) (.clock now) s = false) :
    Settled (Timer.Instr.execLeave w now s).1 j := by
  rw [Timer.Instr.execLeave]
  split
  · exact h
  · rename_i hexecuting
    split
    · rename_i hagain
      rw [Bool.and_eq_true, decide_eq_true_eq] at hagain
      have hsleeps : Instr.needWakeup (plus now w.task.interval) s.tasks = false := by
        simpa [Instr.notifies, hexecuting, hagain] using hquiet
      refine Settled.push (s := { s with states := _ }) (h.congr ?_ ?_) hsleeps
      · rfl
      · rfl
    · exact h.congr rfl rfl
  · exact h.congr rfl rfl

theorem Settled.exec {s s' : Timer.Shared} {i j : Timer.Instr} {x : Timer.Choice}
    {pushed : List Timer.Instr} (h : Settled s j) (hexec : i.exec t x s = some (s', pushed))
    (hlooping : i.looping = 0) (hawait : ∀ drain, i ≠ .awaitFinished drain)
    (hquiet : Instr.notifies i x s = false) : Settled s' j := by
  have hrunning := h.running
  by_cases hleave : ∃ w, i = .leave w
  · obtain ⟨w, rfl⟩ := hleave
    cases x with
    | clock now =>
      obtain ⟨-, heq⟩ := Option.ite_none_left_eq_some.mp hexec
      have hleft := h.leave hquiet
      rwa [Option.some.inj heq] at hleft
    | _ => cases hexec
  · cases Timer.moves_of_exec (t := t) hexec with
    | started inside created =>
      rw [hrunning] at created
      cases created
    | schedule expiration =>
      have hsleeps : Instr.needWakeup expiration s.tasks = false := by
        simpa [Instr.notifies, hrunning] using hquiet
      refine Settled.push (s := { s with nextId := _, states := _, issued := _ }) (h.congr ?_ ?_) hsleeps
      · rfl
      · rfl
    | requestStop | beginStop => simp [Instr.notifies, hrunning] at hquiet
    | finished drain => exact absurd rfl (hawait drain)
    | lockLoop | exit | sleep | awaitTop | wakeTasks | interrupted | early | collect
    | popCancelled => cases hlooping
    | @again w => exact absurd ⟨w, rfl⟩ hleave
    | _ => exact h.congr rfl rfl

/-- The thread that is parked waits for the first timer, or is about to be notified. -/
structure Watching (c : Config) : Prop where
  serving : Serving (toScheduler c)
  parked : c.shared.parked = true → ∃ j rest, c.stack 0 = .scheduler j :: rest ∧
    Instr.blocks j = true ∧ (Settled c.shared.scheduler j ∨ 0 < c.total Instr.notifying)

namespace Watching

theorem init (poolThreads threads : Nat) : Watching (init poolThreads threads) := by
  refine ⟨?_, nofun⟩
  rw [toScheduler_init]
  exact .init poolThreads threads

theorem active_toScheduler {j : Timer.Instr} (h : c.Active t (.scheduler j)) :
    (toScheduler c).Active t j :=
  Config.active_project _ h (List.mem_singleton_self j)

theorem thread_eq (h : Watching c) {j : Timer.Instr} (htop : c.stack t = .scheduler j :: rest)
    (hj : 0 < j.scheduling) : t = 0 :=
  h.serving.own t j (active_toScheduler (Config.active_of_top htop)) hj

theorem scheduling_of_blocks {j : Timer.Instr} (h : Instr.blocks j = true) : j.looping = 1 := by
  cases j with
  | waitTasks | waitUntil => rfl
  | _ => cases h

theorem settled_of_waits (h : Serving (toScheduler c)) {j : Timer.Instr}
    (hwaits : Instr.waits j c.shared.scheduler = true) :
    Settled c.shared.scheduler j ∧ Instr.blocks j = true := by
  cases j with
  | waitTasks => exact ⟨by simpa [Instr.waits, Settled] using hwaits, rfl⟩
  | waitUntil id expiration =>
    refine ⟨?_, rfl⟩
    have hheap : Heap c.shared.scheduler.tasks := h.heap
    generalize c.shared.scheduler = s at hwaits hheap
    cases htasks : s.tasks with
    | nil => simp [Instr.waits, Shared.interrupted, htasks] at hwaits
    | cons top tasks =>
      simp [Instr.waits, Shared.interrupted, htasks] at hwaits
      rw [htasks] at hheap
      refine ⟨hwaits.1, fun task hmem => ?_⟩
      rw [htasks] at hmem
      exact le_trans hwaits.2.1.1.2 (hheap.top_le task hmem)
  | _ => cases hwaits

theorem step (h : Watching c) (hok : ∀ j, i = .scheduler j → StartedFirst (toScheduler c) t j)
    (hstep : machine.Step c t i c') : Watching c' := by
  have hserving : Serving (toScheduler c') := by
    obtain ⟨j, rfl, hstep'⟩ | heq := step_toScheduler hstep
    · exact h.serving.step (hok j rfl) hstep'
    · rw [heq]
      exact h.serving
  refine ⟨hserving, fun hparked => ?_⟩
  obtain @⟨rest, x, s, pushed, htop, hexec⟩ := hstep
  have htotal := Config.total_replace Instr.notifying htop s pushed
  cases moves_of_exec (t := t) hexec with
  | wake j => cases hparked
  | notify => cases hparked
  | @park j waits =>
    obtain ⟨hsettled, hblocks⟩ := settled_of_waits h.serving waits
    have hlooping := scheduling_of_blocks hblocks
    have hpos := Looping.looping_le_scheduling j
    obtain rfl := h.thread_eq htop (by omega)
    exact ⟨j, rest, Config.stack_replace_self htop _ _, hblocks, .inl hsettled⟩
  | @scheduler t' j x scheduler pushed awake exec =>
    rw [Config.weigh_append] at htotal
    by_cases hbefore : c.shared.parked = true
    · obtain ⟨j₀, rest₀, htop₀, hblocks, hsettled⟩ := h.parked hbefore
      have ht : 0 ≠ t := by
        rintro rfl
        obtain ⟨rfl, -⟩ : j₀ = j ∧ rest₀ = rest := by simpa using htop₀.symm.trans htop
        exact awake ⟨hbefore, hblocks⟩
      refine ⟨j₀, rest₀, (Config.stack_replace_ne _ _ _ ht).trans htop₀, hblocks, ?_⟩
      obtain hsettled | hpending := hsettled
      · by_cases hnotifies : Instr.notifies j x c.shared.scheduler = true
        · have hone : Config.weigh Instr.notifying
              (if Instr.notifies j x c.shared.scheduler then [.notify] else []) = 1 := by
            rw [if_pos hnotifies]
            rfl
          rw [hone, show Instr.notifying (.scheduler j) = 0 from rfl] at htotal
          exact .inr (by omega)
        · refine .inl (hsettled.exec exec ?_ ?_ (Bool.eq_false_iff.mpr hnotifies))
          · have := mt (h.thread_eq htop) ht.symm
            have := Looping.looping_le_scheduling j
            omega
          · rintro drain rfl
            exact h.serving.not_await (active_toScheduler (Config.active_of_top htop₀))
              (scheduling_of_blocks hblocks) (active_toScheduler (Config.active_of_top htop))
      · rw [show Instr.notifying (.scheduler j) = 0 from rfl] at htotal
        exact .inr (by omega)
    · have hany : pushed.any Instr.blocks = true := by
        simpa [Bool.eq_false_iff.mpr hbefore] using hparked
      obtain ⟨j', hmem, hblocks⟩ := List.any_eq_true.mp hany
      have hwait : j' = .waitTasks ∨ ∃ id expiration, j' = .waitUntil id expiration := by
        cases j' with
        | waitTasks => exact .inl rfl
        | waitUntil id expiration => exact .inr ⟨id, expiration, rfl⟩
        | _ => cases hblocks
      obtain ⟨rfl, hloop⟩ := execLoop_of_wait exec hmem hwait
      obtain rfl := h.thread_eq htop Nat.one_pos
      obtain ⟨hrunning, htasks, rfl, hcase⟩ := wait_of_execLoop hloop hmem (by rintro rfl; cases hblocks)
      refine ⟨j', rest, Config.stack_replace_self htop _ _, hblocks, .inl ?_⟩
      obtain ⟨rfl, hempty⟩ | ⟨top, tasks, htop', rfl⟩ := hcase
      · exact ⟨hrunning, htasks.trans hempty⟩
      · have hheap : Heap c.shared.scheduler.tasks := h.serving.heap
        rw [htop'] at hheap
        refine ⟨hrunning, fun task hmem => hheap.top_le task ?_⟩
        rwa [← htop', ← htasks]

end Watching

/-- A call of `wait()` comes after `start()`. -/
abbrev StartedFirst (c : Config) (t : Nat) (i : Instr) : Prop :=
  ∀ j ∈ i.toScheduler, Timer.StartedFirst (toScheduler c) t j

theorem parked_until_first {poolThreads threads : Nat}
    (hrun : machine.Run StartedFirst (init poolThreads threads) c)
    (hparked : c.shared.parked = true) (hquiet : ∀ t, ¬c.Active t .notify) :
    c.shared.scheduler.schedulerState = .running ∧ ∃ rest,
      (c.stack 0 = .scheduler .waitTasks :: rest ∧ c.shared.scheduler.tasks = []) ∨
      ∃ id expiration, c.stack 0 = .scheduler (.waitUntil id expiration) :: rest ∧
        IsLeast {e | ∃ task ∈ c.shared.scheduler.tasks, task.expiration = e} expiration := by
  have h : Watching c := hrun.invariant (.init poolThreads threads) fun hc hok hstep =>
    hc.step (fun j hj => hok j (by rw [hj]; exact List.mem_singleton_self j)) hstep
  obtain ⟨j, rest, htop, hblocks, hsettled⟩ := h.parked hparked
  have hnone : c.total Instr.notifying = 0 := Config.total_eq_zero fun t i hactive => by
    cases i with
    | notify => exact absurd hactive (hquiet t)
    | scheduler i => rfl
  have hsettled := hsettled.resolve_right (by omega)
  refine ⟨hsettled.running, rest, ?_⟩
  cases j with
  | waitTasks => exact .inl ⟨htop, hsettled.2⟩
  | waitUntil id expiration =>
    obtain ⟨task, hmem, hle⟩ := h.serving.reached 0 id expiration
      (Watching.active_toScheduler (Config.active_of_top htop))
    refine .inr ⟨id, expiration, htop, ⟨task, hmem, ?_⟩, ?_⟩
    · exact le_antisymm hle (hsettled.2 task hmem)
    · rintro _ ⟨other, hother, rfl⟩
      exact hsettled.2 other hother
  | _ => exact hsettled.elim

def earlier : List (Nat × Choice) :=
  [(2, .scheduler (.call .start)), (2, .scheduler .next), (2, .scheduler .next),
    (2, .scheduler (.call (.scheduleAfter 9 (some 0)))), (2, .scheduler (.clock 0)),
    (2, .scheduler .next), (2, .next), (2, .scheduler .next), (0, .scheduler .next),
    (0, .scheduler .next), (0, .scheduler .next),
    (2, .scheduler (.call (.scheduleAfter 5 (some 0)))), (2, .scheduler (.clock 1)),
    (2, .scheduler .next), (2, .next), (2, .scheduler .next), (0, .scheduler .next),
    (0, .scheduler .next), (0, .scheduler .next)]

theorem parked_until_first_earlier :
    (machine.follow (init 1 1) earlier).shared.scheduler.schedulerState = .running ∧
      (machine.follow (init 1 1) earlier).stack 0 = [.scheduler (.waitUntil 2 6)] :=
  ⟨(parked_until_first (Machine.run_follow (by decide)) (by decide)
    (not_exists.mp (by decide))).1, by decide⟩

end Waking

end UnixNotes.Timer
