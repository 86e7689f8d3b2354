import UnixNotes.ThreadPool.Pool

namespace UnixNotes.ThreadPool

open Library

namespace Pool

def global (pool : Pool) : List Task := pool.tasks.contents.reduceOption

structure Ok (settings : Settings) (pool : Pool) : Prop where
  tasks : pool.tasks.Represents (pool.global.map some)
  capacity : pool.tasks.capacity = settings.queueCapacity
  localQueues : pool.localQueues.length = settings.workerCount

variable {settings : Settings} {pool : Pool} {tasks : BoundedRingQueue (Option Task)}
  {xs : List Task}

theorem global_eq (h : pool.tasks.Represents (xs.map some)) : pool.global = xs := by
  rw [global, h.contents_eq]
  simp [List.reduceOption, List.filterMap_map]

theorem global_of_represents (h : tasks.Represents (xs.map some)) :
    (pool.setTasks tasks).global = xs := by
  have htasks : (pool.setTasks tasks).tasks.Represents (xs.map some) := h
  exact global_eq htasks

theorem Ok.empty_eq (h : pool.Ok settings) : pool.tasks.empty = pool.global.isEmpty := by
  rw [h.tasks.empty_eq, List.isEmpty_map]

theorem Ok.setTasks (h : pool.Ok settings) (htasks : tasks.Represents (xs.map some))
    (hcapacity : tasks.capacity = pool.tasks.capacity) :
    (pool.setTasks tasks).Ok settings :=
  ⟨by rw [global_of_represents htasks]; exact htasks, hcapacity.trans h.capacity, h.localQueues⟩

theorem Ok.push (h : pool.Ok settings) (hfull : pool.tasks.full = false) (task : Task) :
    ∃ tasks, pool.tasks.push (some task) = .ok tasks ∧
      (pool.setTasks tasks).Ok settings ∧
      (pool.setTasks tasks).global = pool.global ++ [task] := by
  have hroom : (pool.global.map some).length < pool.tasks.capacity := by
    refine Nat.lt_of_le_of_ne h.tasks.length_le fun heq => ?_
    rw [h.tasks.full_eq, heq, decide_eq_false_iff_not] at hfull
    exact hfull rfl
  obtain ⟨tasks, hpush, hrep, hcapacity⟩ := h.tasks.push_eq hroom (some task)
  have hmap : pool.global.map some ++ [some task] = (pool.global ++ [task]).map some := by
    rw [List.map_append, List.map_singleton]
  rw [hmap] at hrep
  exact ⟨tasks, hpush, h.setTasks hrep hcapacity, global_of_represents hrep⟩

theorem Ok.pop (h : pool.Ok settings) {task : Task} {rest : List Task}
    (hglobal : pool.global = task :: rest) :
    ∃ tasks, pool.tasks.pop = .ok (some task, tasks) ∧
      (pool.setTasks tasks).Ok settings ∧
      (pool.setTasks tasks).global = rest := by
  have htasks := h.tasks
  rw [hglobal, List.map_cons] at htasks
  obtain ⟨tasks, hpop, hrep, hcapacity, -⟩ := htasks.pop_eq
  exact ⟨tasks, hpop, h.setTasks hrep hcapacity, global_of_represents hrep⟩

theorem Ok.congr {pool' : Pool} (h : pool.Ok settings) (htasks : pool'.tasks = pool.tasks)
    (hlocal : pool'.localQueues.length = pool.localQueues.length) : pool'.Ok settings := by
  have hglobal : pool'.global = pool.global := by rw [global, global, htasks]
  refine ⟨?_, ?_, hlocal.trans h.localQueues⟩
  · rw [htasks, hglobal]
    exact h.tasks
  · rw [htasks]
    exact h.capacity

theorem ok_pool (P : Process) (p : Nat) : (P.pool p).Ok (P.settings p) := by
  have hrep : (P.pool p).tasks.Represents (([] : List Task).map some) :=
    BoundedRingQueue.represents_new (P.settings p).queueCapacity_pos
  have hglobal : (P.pool p).global = [] := global_eq hrep
  exact ⟨by rw [hglobal]; exact hrep, rfl, List.length_replicate⟩

end Pool

def Shared.Ok (P : Process) (s : Shared) : Prop := ∀ p, (s.pools p).Ok (P.settings p)

/-- What a step does, from a state whose queues are as they should be. -/
inductive Effect (P : Process) (s : Shared) : Instr → Shared → List Instr → Prop
  | ends : Effect P s .user s []
  | calls {i : Instr} {self : Option Worker} (op : Operation) {p : Nat} (hp : p < P.count)
      (code : i = .user ∧ self = none ∨ ∃ task, i = .body self task) :
    Effect P s i { s with issued := s.issued + 1 }
      [.submit self op p ⟨s.issued, op = .submit⟩, i]
  | destroys {p : Nat} (hp : p < P.count) : Effect P s .user s [.destroy p, .user]
  | refuses (op : Operation) (p : Nat) (task : Task) :
    Effect P s (.submit none op p task) (s.refuse task.id) []
  | runsHere {p : Nat} (task : Task) (stopping : (s.pools p).stopping = false) :
    Effect P s (.submit none .submit p task) (s.accept p none task.id) [.start none task]
  | pushes (op : Operation) {p : Nat} {task : Task} {tasks : BoundedRingQueue (Option Task)}
      (locked : (s.pools p).locked = false) (stopping : (s.pools p).stopping = false)
      (ok : ((s.pools p).setTasks tasks).Ok (P.settings p))
      (global : ((s.pools p).setTasks tasks).global = (s.pools p).global ++ [task]) :
    Effect P s (.submit none op p task)
      ((s.set p ((s.pools p).setTasks tasks)).accept p (some p) task.id) [.notify p]
  | pushesOwner (w : Worker) (op : Operation) (p : Nat) (task : Task) :
    Effect P s (.submit (some w) op p task)
      ((s.set w.pool ((s.pools w.pool).setQueue w.index
        (task :: (s.pools w.pool).queue w.index))).accept p (some w.pool) task.id) [.notify p]
  | wakes {p index : Nat} (parked : index ∈ (s.pools p).parked) :
    Effect P s (.notify p)
      (s.set p { s.pools p with parked := (s.pools p).parked.erase index }) []
  | wakesNobody {p : Nat} (parked : (s.pools p).parked = []) : Effect P s (.notify p) s []
  | starts (self : Option Worker) (task : Task) :
    Effect P s (.start self task)
      { s with executed := (self.map Worker.pool, task.id) :: s.executed } [.body self task]
  | returns (self : Option Worker) (task : Task) :
    Effect P s (.body self task) s (self.map Instr.popOwner).toList
  | throws (self : Option Worker) (task : Task) :
    Effect P s (.body self task) s [.throwing self task]
  | catches (self : Option Worker) {task : Task} (packaged : task.packaged = true) :
    Effect P s (.throwing self task) s (self.map Instr.popOwner).toList
  | terminates (self : Option Worker) {task : Task} (packaged : task.packaged = false) :
    Effect P s (.throwing self task) { s with terminated := true } []
  | takesOwn {w : Worker} {task : Task} {queue : List Task}
      (queue_eq : (s.pools w.pool).queue w.index = task :: queue) :
    Effect P s (.popOwner w) (s.set w.pool ((s.pools w.pool).setQueue w.index queue))
      [.start (some w) task]
  | hasNone {w : Worker} (queue_eq : (s.pools w.pool).queue w.index = []) :
    Effect P s (.popOwner w) s [.popGlobal w]
  | takesGlobal {w : Worker} {task : Task} {rest : List Task}
      {tasks : BoundedRingQueue (Option Task)} (global : (s.pools w.pool).global = task :: rest)
      (ok : ((s.pools w.pool).setTasks tasks).Ok (P.settings w.pool))
      (rest_eq : ((s.pools w.pool).setTasks tasks).global = rest) :
    Effect P s (.popGlobal w) (s.set w.pool ((s.pools w.pool).setTasks tasks))
      [.start (some w) task]
  | findsNone {w : Worker} (global : (s.pools w.pool).global = []) :
    Effect P s (.popGlobal w) s [.steal w 1]
  | steals {w : Worker} {offset : Nat} {task : Task} {queue : List Task}
      (queue_eq : (s.pools w.pool).queue ((w.index + offset) % (P.settings w.pool).workerCount) =
        queue ++ [task]) :
    Effect P s (.steal w offset) (s.set w.pool ((s.pools w.pool).setQueue
      ((w.index + offset) % (P.settings w.pool).workerCount) queue)) [.start (some w) task]
  | triesNext {w : Worker} {offset : Nat} (hoffset : offset < (P.settings w.pool).workerCount)
      (queue_eq : (s.pools w.pool).queue
        ((w.index + offset) % (P.settings w.pool).workerCount) = []) :
    Effect P s (.steal w offset) s [.steal w (offset + 1)]
  | givesUp {w : Worker} {offset : Nat} (hoffset : (P.settings w.pool).workerCount ≤ offset) :
    Effect P s (.steal w offset) s [.lockWait w]
  | locks {w : Worker} (locked : (s.pools w.pool).locked = false) :
    Effect P s (.lockWait w) (s.set w.pool { s.pools w.pool with locked := true }) [.evaluate w]
  | doesNotWait {w : Worker} (busy : (s.pools w.pool).stopping = true ∨
      (s.pools w.pool).global ≠ []) : Effect P s (.evaluate w) s [.testExit w]
  | looks {w : Worker} (stopping : (s.pools w.pool).stopping = false)
      (global : (s.pools w.pool).global = []) : Effect P s (.evaluate w) s [.look w 0]
  | looksNext {w : Worker} {offset : Nat} (hoffset : offset < (P.settings w.pool).workerCount)
      (queue_eq : (s.pools w.pool).queue
        ((w.index + offset) % (P.settings w.pool).workerCount) = []) :
    Effect P s (.look w offset) s [.look w (offset + 1)]
  | hasSeen {w : Worker} {offset : Nat} (hoffset : offset < (P.settings w.pool).workerCount)
      (queue_ne : (s.pools w.pool).queue
        ((w.index + offset) % (P.settings w.pool).workerCount) ≠ []) :
    Effect P s (.look w offset) s [.testExit w]
  | hasLooked {w : Worker} {offset : Nat} (hoffset : (P.settings w.pool).workerCount ≤ offset) :
    Effect P s (.look w offset) s [.park w]
  | parks (w : Worker) :
    Effect P s (.park w) (s.set w.pool { s.pools w.pool with
      locked := false
      parked := w.index :: (s.pools w.pool).parked }) [.parked w]
  | resumes {w : Worker} (locked : (s.pools w.pool).locked = false)
      (parked : w.index ∉ (s.pools w.pool).parked) :
    Effect P s (.parked w) (s.set w.pool { s.pools w.pool with locked := true }) [.evaluate w]
  | wakesUp {w : Worker} (parked : w.index ∈ (s.pools w.pool).parked) :
    Effect P s (.parked w) (s.set w.pool { s.pools w.pool with
      parked := (s.pools w.pool).parked.erase w.index }) [.parked w]
  | testsLocal {w : Worker} (stopping : (s.pools w.pool).stopping = true)
      (global : (s.pools w.pool).global = []) : Effect P s (.testExit w) s [.testLocal w 0]
  | goesOn {w : Worker} (busy : (s.pools w.pool).stopping = false ∨
      (s.pools w.pool).global ≠ []) :
    Effect P s (.testExit w) (s.set w.pool { s.pools w.pool with locked := false }) [.popOwner w]
  | testsNext {w : Worker} {index : Nat} (hindex : index < (P.settings w.pool).workerCount)
      (queue_eq : (s.pools w.pool).queue index = []) :
    Effect P s (.testLocal w index) s [.testLocal w (index + 1)]
  | hasWork {w : Worker} {index : Nat} (hindex : index < (P.settings w.pool).workerCount)
      (queue_ne : (s.pools w.pool).queue index ≠ []) :
    Effect P s (.testLocal w index) (s.set w.pool { s.pools w.pool with locked := false })
      [.popOwner w]
  | exits {w : Worker} {index : Nat} (hindex : (P.settings w.pool).workerCount ≤ index) :
    Effect P s (.testLocal w index) (s.set w.pool { s.pools w.pool with
      locked := false
      exited := w.index :: (s.pools w.pool).exited }) []
  | stops {p : Nat} (locked : (s.pools p).locked = false) (stopping : (s.pools p).stopping = false) :
    Effect P s (.destroy p) (s.set p { s.pools p with stopping := true }) [.notifyAll p, .join p]
  | wakesAll (p : Nat) : Effect P s (.notifyAll p) (s.set p { s.pools p with parked := [] }) []
  | joins {p : Nat}
      (exited : ∀ index < (P.settings p).workerCount, index ∈ (s.pools p).exited) :
    Effect P s (.join p) (s.set p { s.pools p with destroyed := true }) []

theorem effect_of_execSubmit {P : Process} {s s' : Shared} {op : Operation} {p : Nat} {task : Task}
    {x : Choice} {pushed : List Instr} (hs : s.Ok P)
    (h : Instr.execSubmit P.settings op p task x s = some (s', pushed)) :
    Effect P s (.submit none op p task) s' pushed := by
  simp only [Instr.execSubmit] at h
  split at h
  · cases h
  · rename_i hlocked
    rw [Bool.not_eq_true] at hlocked
    split at h
    · split at h
      · cases h
        exact .refuses op p task
      · rename_i hstopping
        rw [Bool.not_eq_true] at hstopping
        split at h
        · cases op with
          | tryPost =>
            cases h
            exact .refuses _ p task
          | submit =>
            simp only at h
            split at h
            · cases h
              exact .refuses _ p task
            · cases h
              exact .refuses _ p task
            · cases h
              exact .runsHere task hstopping
          | _ => cases h
        · rename_i hfull
          rw [Bool.not_eq_true] at hfull
          obtain ⟨tasks, hpush, hok, hglobal⟩ := (hs p).push hfull task
          simp only [Instr.pushGlobal, hpush] at h
          cases h
          exact .pushes op hlocked hstopping hok hglobal
    · split at h
      · cases h
        exact .refuses op p task
      · cases h
    · cases h

theorem effect_of_execNotify {P : Process} {s s' : Shared} {p : Nat} {x : Choice}
    {pushed : List Instr} (h : Instr.execNotify p x s = some (s', pushed)) :
    Effect P s (.notify p) s' pushed := by
  simp only [Instr.execNotify] at h
  split at h
  · split at h
    · rename_i hparked
      cases h
      exact .wakes hparked
    · cases h
  · split at h
    · rename_i hparked
      cases h
      exact .wakesNobody hparked
    · cases h
  · cases h

theorem effect_of_execPopOwner {P : Process} {s s' : Shared} {w : Worker} {pushed : List Instr}
    (h : Instr.execPopOwner w s = (s', pushed)) : Effect P s (.popOwner w) s' pushed := by
  simp only [Instr.execPopOwner] at h
  split at h
  · rename_i hqueue
    cases h
    exact .hasNone hqueue
  · rename_i hqueue
    cases h
    exact .takesOwn hqueue

theorem effect_of_execPopGlobal {P : Process} {s s' : Shared} {w : Worker} {pushed : List Instr}
    (hs : s.Ok P) (h : Instr.execPopGlobal w s = (s', pushed)) :
    Effect P s (.popGlobal w) s' pushed := by
  simp only [Instr.execPopGlobal, (hs w.pool).empty_eq] at h
  cases hglobal : (s.pools w.pool).global with
  | nil =>
    rw [hglobal, List.isEmpty_nil, if_pos rfl] at h
    cases h
    exact .findsNone hglobal
  | cons task rest =>
    obtain ⟨tasks, hpop, hok, hrest⟩ := (hs w.pool).pop hglobal
    rw [hglobal, List.isEmpty_cons, if_neg Bool.false_ne_true] at h
    simp only [hpop] at h
    cases h
    exact .takesGlobal hglobal hok hrest

theorem effect_of_execSteal {P : Process} {s s' : Shared} {w : Worker} {offset : Nat}
    {pushed : List Instr}
    (h : Instr.execSteal (P.settings w.pool).workerCount w offset s = (s', pushed)) :
    Effect P s (.steal w offset) s' pushed := by
  simp only [Instr.execSteal] at h
  split at h
  · rename_i hoffset
    split at h
    · rename_i hlast
      cases h
      exact .triesNext hoffset (List.getLast?_eq_none_iff.mp hlast)
    · rename_i task hlast
      cases h
      refine .steals ?_
      exact (List.dropLast_append_getLast? task hlast).symm
  · rename_i hoffset
    cases h
    exact .givesUp (Nat.not_lt.mp hoffset)

theorem effect_of_execEvaluate {P : Process} {s s' : Shared} {w : Worker} {pushed : List Instr}
    (hs : s.Ok P) (h : Instr.execEvaluate w s = (s', pushed)) :
    Effect P s (.evaluate w) s' pushed := by
  simp only [Instr.execEvaluate, (hs w.pool).empty_eq] at h
  split at h <;> rename_i hbusy <;> cases h
  · exact .doesNotWait (by simpa using hbusy)
  · simp only [Bool.or_eq_true, Bool.not_eq_true', not_or, Bool.not_eq_true, Bool.not_eq_false,
      List.isEmpty_iff] at hbusy
    exact .looks hbusy.1 hbusy.2

theorem effect_of_execLook {P : Process} {s s' : Shared} {w : Worker} {offset : Nat}
    {pushed : List Instr}
    (h : Instr.execLook (P.settings w.pool).workerCount w offset s = (s', pushed)) :
    Effect P s (.look w offset) s' pushed := by
  simp only [Instr.execLook] at h
  split at h
  · rename_i hoffset
    split at h
    · rename_i hqueue
      cases h
      exact .looksNext hoffset hqueue
    · rename_i hqueue
      cases h
      exact .hasSeen hoffset hqueue
  · rename_i hoffset
    cases h
    exact .hasLooked (Nat.not_lt.mp hoffset)

theorem effect_of_execParked {P : Process} {s s' : Shared} {w : Worker} {x : Choice}
    {pushed : List Instr} (h : Instr.execParked w x s = some (s', pushed)) :
    Effect P s (.parked w) s' pushed := by
  simp only [Instr.execParked] at h
  split at h
  · split at h
    · cases h
    · rename_i hparked
      simp only [Bool.or_eq_true, decide_eq_true_eq, not_or, Bool.not_eq_true] at hparked
      cases h
      exact .resumes hparked.1 hparked.2
  · split at h
    · rename_i hparked
      cases h
      exact .wakesUp hparked
    · cases h
  · cases h

theorem effect_of_execTestExit {P : Process} {s s' : Shared} {w : Worker} {pushed : List Instr}
    (hs : s.Ok P) (h : Instr.execTestExit w s = (s', pushed)) :
    Effect P s (.testExit w) s' pushed := by
  simp only [Instr.execTestExit, (hs w.pool).empty_eq] at h
  split at h <;> rename_i hexit <;> cases h
  · simp only [Bool.and_eq_true, List.isEmpty_iff] at hexit
    exact .testsLocal hexit.1 hexit.2
  · simp only [Bool.and_eq_true, List.isEmpty_iff, not_and] at hexit
    refine .goesOn (or_iff_not_imp_left.mpr fun hstopping => hexit ?_)
    exact Bool.not_eq_false _ ▸ hstopping

theorem effect_of_execTestLocal {P : Process} {s s' : Shared} {w : Worker} {index : Nat}
    {pushed : List Instr}
    (h : Instr.execTestLocal (P.settings w.pool).workerCount w index s = (s', pushed)) :
    Effect P s (.testLocal w index) s' pushed := by
  simp only [Instr.execTestLocal] at h
  split at h
  · rename_i hindex
    split at h <;> rename_i hqueue <;> cases h
    · exact .testsNext hindex hqueue
    · exact .hasWork hindex hqueue
  · rename_i hindex
    cases h
    exact .exits (Nat.not_lt.mp hindex)

theorem effect_of_execThrowing {P : Process} {s s' : Shared} {self : Option Worker} {task : Task}
    {pushed : List Instr} (h : Instr.execThrowing self task s = (s', pushed)) :
    Effect P s (.throwing self task) s' pushed := by
  simp only [Instr.execThrowing] at h
  split at h <;> rename_i hpackaged <;> cases h
  · exact .catches self hpackaged
  · exact .terminates self (by simpa using hpackaged)

theorem effect_of_exec {P : Process} {s s' : Shared} {t : Nat} {i : Instr} {x : Choice}
    {pushed : List Instr} (hs : s.Ok P)
    (h : Instr.exec P.count P.settings t i x s = some (s', pushed)) : Effect P s i s' pushed := by
  simp only [Instr.exec] at h
  split at h
  · cases h
  split at h
  case h_1 =>
    cases h
    exact .ends
  case h_2 op p =>
    split at h
    · cases h
      exact .calls op ‹_› (.inl ⟨rfl, rfl⟩)
    · cases h
  case h_3 p =>
    split at h
    · cases h
      exact .destroys ‹_›
    · cases h
  case h_4 w op p task =>
    cases h
    exact .pushesOwner w op p task
  case h_5 op p task => exact effect_of_execSubmit hs h
  case h_6 p => exact effect_of_execNotify h
  case h_7 self task =>
    cases h
    exact .starts self task
  case h_8 self task =>
    cases h
    exact .returns self task
  case h_9 self task =>
    cases h
    exact .throws self task
  case h_10 self task op p =>
    split at h
    · cases h
      exact .calls op ‹_› (.inr ⟨task, rfl⟩)
    · cases h
  case h_11 self task => exact effect_of_execThrowing (Option.some.inj h)
  case h_12 w => exact effect_of_execPopOwner (Option.some.inj h)
  case h_13 w =>
    split at h
    · cases h
    · exact effect_of_execPopGlobal hs (Option.some.inj h)
  case h_14 w offset => exact effect_of_execSteal (Option.some.inj h)
  case h_15 w =>
    split at h
    · cases h
    · rename_i hlocked
      cases h
      exact .locks (by simpa using hlocked)
  case h_16 w => exact effect_of_execEvaluate hs (Option.some.inj h)
  case h_17 w offset => exact effect_of_execLook (Option.some.inj h)
  case h_18 w =>
    cases h
    exact .parks w
  case h_19 w => exact effect_of_execParked h
  case h_20 w => exact effect_of_execTestExit hs (Option.some.inj h)
  case h_21 w index => exact effect_of_execTestLocal (Option.some.inj h)
  case h_22 p =>
    split at h
    · cases h
    · rename_i hstop
      simp only [Bool.or_eq_true, not_or, Bool.not_eq_true] at hstop
      cases h
      exact .stops hstop.1 hstop.2
  case h_23 p =>
    cases h
    exact .wakesAll p
  case h_24 p =>
    split at h
    · cases h
      exact .joins ‹_›
    · cases h
  case h_25 => cases h

theorem not_terminated_of_exec {P : Process} {s s' : Shared} {t : Nat} {i : Instr} {x : Choice}
    {pushed : List Instr} (h : Instr.exec P.count P.settings t i x s = some (s', pushed)) :
    s.terminated = false := by
  simp only [Instr.exec] at h
  split at h
  · cases h
  · rename_i hterminated
    exact Bool.not_eq_true _ ▸ hterminated

end UnixNotes.ThreadPool
