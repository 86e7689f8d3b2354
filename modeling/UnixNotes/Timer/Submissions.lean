import UnixNotes.Timer.Punctual

namespace UnixNotes.Timer.Clocked

open Library

/-- What has been submitted of the timers that were collected last. -/
def current : List Event → List TimerTask
  | [] => []
  | .collected :: _ => []
  | .submitted task :: log => current log ++ [task]
  | _ :: log => current log

def InOrder : List Event → Prop
  | [] => True
  | e :: log => (current (e :: log)).Pairwise TimerTask.Before ∧ InOrder log

theorem InOrder.current {log : List Event} (h : InOrder log) :
    (current log).Pairwise TimerTask.Before := by
  cases log with
  | nil => exact List.Pairwise.nil
  | cons e log => exact h.1

theorem InOrder.before {after before : List Event} (h : InOrder (after ++ before)) :
    InOrder before := by
  induction after with
  | nil => exact h
  | cons e after ih => exact ih h.2

theorem current_append {after before : List Event} (h : .collected ∉ after) :
    ∃ tasks, current (after ++ before) = current before ++ tasks := by
  induction after with
  | nil => exact ⟨[], (List.append_nil _).symm⟩
  | cons e after ih =>
    obtain ⟨tasks, heq⟩ := ih fun hmem => h (List.mem_cons_of_mem e hmem)
    cases e with
    | collected => exact absurd (List.mem_cons_self ..) h
    | submitted task => exact ⟨tasks ++ [task], by rw [List.cons_append, current, heq, List.append_assoc]⟩
    | _ => exact ⟨tasks, heq⟩

/-- The timers of a batch come in the order in which they came off the heap. -/
structure Ordered (c : Config) : Prop where
  looping : Looping (toScheduler c)
  heap : Heap c.shared.scheduler.tasks
  sorted : InOrder c.shared.log
  top : ∀ t task, .scheduler (.submit task) ∉ (c.stack t).tail
  submit : ∀ {t task rest}, c.stack t = .scheduler (.submit task) :: rest →
    ∃ ready below, rest = .scheduler (.batch ready) :: below ∧
      (current c.shared.log ++ task :: ready).Pairwise TimerTask.Before
  batch : ∀ {t ready}, c.Active t (.scheduler (.batch ready)) →
    (current c.shared.log ++ ready).Pairwise TimerTask.Before

section Projection

variable {c c' : Config} {t : Nat} {i : Instr}

theorem flatMap_scheduler (pushed : List Timer.Instr) :
    (pushed.map Instr.scheduler).flatMap Instr.toScheduler = pushed := by
  rw [List.flatMap_map]
  exact List.flatMap_singleton' pushed

theorem threads_toScheduler_init (now : Int) (poolThreads threads : Nat) :
    (toScheduler (init now poolThreads threads)).threads =
      (Timer.init poolThreads threads).threads ++ [[]] := by
  simp only [toScheduler, Config.project, init, List.map_append, List.map_map, Function.comp_def,
    flatMap_scheduler, List.map_id']
  rfl

theorem looping_init (now : Int) (poolThreads threads : Nat) :
    Looping (toScheduler (init now poolThreads threads)) := by
  have htotal (w : Timer.Instr → Nat) : (toScheduler (init now poolThreads threads)).total w =
      (Timer.init poolThreads threads).total w := by
    rw [Config.total, threads_toScheduler_init, List.map_append, List.sum_append]
    rfl
  have hinit := Looping.init poolThreads threads
  refine ⟨?_, fun hended => ?_, fun _ => rfl⟩
  · rw [htotal]
    exact hinit.one
  · rw [htotal]
    exact hinit.ended hended

theorem step_toScheduler (hstep : machine.Step c t i c') :
    (∃ j, i = .scheduler j ∧ Timer.machine.Step (toScheduler c) t j (toScheduler c')) ∨
      toScheduler c' = toScheduler c := by
  obtain @⟨rest, x, s, pushed, htop, hexec⟩ := hstep
  cases i with
  | clock =>
    cases x with
    | elapse ticks =>
      cases hexec
      have hthreads : (c.replace t c.shared (.clock :: rest)).threads = c.threads :=
        congrArg Library.Config.threads (Config.replace_top htop)
      refine .inr ?_
      rw [toScheduler, Config.project, toScheduler, Config.project, ← hthreads]
      rfl
    | scheduler x => cases hexec
  | scheduler j =>
    cases x with
    | elapse ticks => cases hexec
    | scheduler x =>
      obtain ⟨-, hexec⟩ := Option.ite_none_right_eq_some.mp hexec
      obtain ⟨r, hbase, heq⟩ := Option.map_eq_some_iff.mp hexec
      cases heq
      refine .inl ⟨j, rfl, ?_⟩
      rw [toScheduler, toScheduler, Config.project_replace_append, flatMap_scheduler]
      exact .exec (Config.stack_project_top Shared.scheduler Instr.toScheduler htop) hbase

end Projection

section Alone

variable {c : Config} {t t' : Nat} {rest : List Instr}

theorem active_toScheduler {j : Timer.Instr} (h : c.Active t (.scheduler j)) :
    (toScheduler c).Active t j :=
  Config.active_project _ h (List.mem_singleton_self j)

theorem alone_of_stack {c : Timer.Config} (h : Looping c) {i j : Timer.Instr}
    {rest : List Timer.Instr} (htop : c.stack t = i :: rest) (hi : i.scheduling = 1)
    (hactive : c.Active t' j) (hj : j.scheduling = 1) : t' = t ∧ j = i := by
  refine (Config.active_replace htop c.shared [] hactive).resolve_right fun hrest => ?_
  have hle := Config.weigh_add_le_total (w := Timer.Instr.scheduling) htop hrest List.not_mem_nil
  have hone := h.one
  omega

theorem alone (h : Looping (toScheduler c)) {i j : Timer.Instr}
    (htop : c.stack t = .scheduler i :: rest) (hi : i.scheduling = 1)
    (hactive : c.Active t' (.scheduler j)) (hj : j.scheduling = 1) : t' = t ∧ j = i :=
  alone_of_stack h (Config.stack_project_top Shared.scheduler Instr.toScheduler htop) hi
    (active_toScheduler hactive) hj

theorem alone_below (h : Looping (toScheduler c)) {task : TimerTask} {ready ready' : List TimerTask}
    (htop : c.stack t = .scheduler (.submit task) :: .scheduler (.batch ready) :: rest)
    (hactive : c.Active t' (.scheduler (.batch ready'))) : t' = t ∧ ready' = ready := by
  let base := toScheduler c
  have hstack : base.stack t = .submit task :: .batch ready :: rest.flatMap Instr.toScheduler :=
    Config.stack_project_top Shared.scheduler Instr.toScheduler htop
  let left := base.replace t base.shared ([] ++ .batch ready :: rest.flatMap Instr.toScheduler)
  have htotal : left.total Timer.Instr.scheduling = base.total Timer.Instr.scheduling :=
    Config.total_replace Timer.Instr.scheduling hstack base.shared []
  have hleft : left.Active t' (.batch ready') :=
    (Config.active_replace hstack base.shared [] (active_toScheduler hactive)).resolve_left nofun
  have htop' : left.stack t = .batch ready :: rest.flatMap Instr.toScheduler :=
    Config.stack_replace_self hstack _ _
  obtain ⟨rfl, heq⟩ | hrest := Config.active_replace htop' left.shared [] hleft
  · cases heq
    exact ⟨rfl, rfl⟩
  · have hle := Config.weigh_add_le_total (w := Timer.Instr.scheduling) htop' hrest List.not_mem_nil
    have hone : base.total Timer.Instr.scheduling ≤ 1 := h.one
    rw [htotal] at hle
    have hbatch (ready : List TimerTask) : (Timer.Instr.batch ready).scheduling = 1 := rfl
    rw [hbatch, hbatch] at hle
    omega

end Alone

section Step

variable {s s' : Shared} {i : Instr} {pushed : List Instr}

theorem Moves.not_below (h : Moves s i s' pushed) (task : TimerTask) :
    .scheduler (.submit task) ∉ pushed.tail := by
  cases h with
  | call _ caller => obtain rfl | ⟨w, rfl⟩ := caller <;> simp
  | other pool tasks free =>
    intro hmem
    obtain ⟨j, hj, heq⟩ := List.mem_map.mp (List.mem_of_mem_tail hmem)
    cases heq
    exact free _ hj
  | _ => simp

theorem Moves.batch_of_submit {task : TimerTask} {below : List Instr}
    (h : Moves s i s' (.scheduler (.submit task) :: below)) :
    ∃ ready, i = .scheduler (.batch (task :: ready)) ∧ below = [.scheduler (.batch ready)] ∧
      s'.log = s.log := by
  generalize hpushed : Instr.scheduler (.submit task) :: below = pushed at h
  cases h with
  | @pass task' ready =>
    cases hpushed
    exact ⟨ready, rfl, rfl, rfl⟩
  | @other j scheduler pushed pool tasks free =>
    cases pushed with
    | nil => cases hpushed
    | cons k pushed =>
      cases hpushed
      exact (free _ (List.mem_cons_self ..)).elim
  | _ => cases hpushed

variable {c c' : Config} {t : Nat} {rest : List Instr}

theorem top_replace (h : Ordered c) (htop : c.stack t = i :: rest) (hmoves : Moves c.shared i s pushed)
    (t' : Nat) (task : TimerTask) :
    .scheduler (.submit task) ∉ ((c.replace t s (pushed ++ rest)).stack t').tail := by
  by_cases ht : t' = t
  · subst ht
    have hrest : .scheduler (.submit task) ∉ rest := by
      have := h.top t' task
      rwa [htop] at this
    have hpushed := hmoves.not_below task
    rw [Config.stack_replace_self htop]
    cases pushed with
    | nil => exact fun hmem => hrest (List.mem_of_mem_tail hmem)
    | cons j pushed =>
      rw [List.cons_append, List.tail_cons, List.mem_append]
      exact not_or.mpr ⟨hpushed, hrest⟩
  · rw [Config.stack_replace_ne _ _ _ ht]
    exact h.top t' task

theorem Ordered.keep (h : Ordered c) (htop : c.stack t = i :: rest)
    (hmoves : Moves c.shared i s pushed)
    (hlooping : Looping (toScheduler (c.replace t s (pushed ++ rest))))
    (hheap : Heap s.scheduler.tasks) (hsorted : InOrder s.log)
    (hcurrent : current s.log = current c.shared.log)
    (hbatch : ∀ ready, .scheduler (.batch ready) ∈ pushed →
      (current c.shared.log ++ ready).Pairwise TimerTask.Before) :
    Ordered (c.replace t s (pushed ++ rest)) := by
  refine ⟨hlooping, hheap, hsorted, top_replace h htop hmoves, fun {t' task rest'} htop' => ?_,
    fun {t' ready} hactive => ?_⟩
  · rw [Config.shared_replace, hcurrent]
    by_cases ht : t' = t
    · subst ht
      rw [Config.stack_replace_self htop] at htop'
      cases pushed with
      | nil =>
        have hnot := h.top t' task
        rw [htop, List.tail_cons] at hnot
        rw [List.nil_append] at htop'
        exact absurd (htop' ▸ List.mem_cons_self ..) hnot
      | cons j pushed =>
        obtain ⟨rfl, rfl⟩ := List.cons.inj htop'
        obtain ⟨ready, rfl, rfl, -⟩ := hmoves.batch_of_submit
        exact ⟨ready, rest, rfl, h.batch (Config.active_of_top htop)⟩
    · rw [Config.stack_replace_ne _ _ _ ht] at htop'
      exact h.submit htop'
  · rw [Config.shared_replace, hcurrent]
    obtain ⟨-, hmem⟩ | hold := Config.active_of_replace htop hactive
    · exact hbatch ready hmem
    · exact h.batch hold

theorem Ordered.handOver (h : Ordered c) {task : TimerTask} {i : Timer.Instr}
    (htop : c.stack t = .scheduler (.submit task) :: rest)
    (hmoves : Moves c.shared (.scheduler (.submit task)) s [.scheduler i])
    (hlooping : Looping (toScheduler (c.replace t s ([Instr.scheduler i] ++ rest))))
    (hheap : Heap s.scheduler.tasks) (hlog : s.log = .submitted task :: c.shared.log)
    (hi : ∀ ready, i ≠ .batch ready) (hsubmit : ∀ task, i ≠ .submit task) :
    Ordered (c.replace t s ([Instr.scheduler i] ++ rest)) := by
  obtain ⟨ready, below, rfl, hsorted⟩ := h.submit htop
  have hcurrent : current s.log = current c.shared.log ++ [task] := by
    rw [hlog]
    rfl
  refine ⟨hlooping, hheap, ?_, top_replace h htop hmoves, fun {t' task' rest'} htop' => ?_,
    fun {t' ready'} hactive => ?_⟩
  · rw [Config.shared_replace, hlog]
    refine ⟨hsorted.sublist (List.Sublist.append_left ?_ _), h.sorted⟩
    exact (List.nil_sublist ready).cons_cons task
  · by_cases ht : t' = t
    · subst ht
      rw [Config.stack_replace_self htop] at htop'
      cases htop'
      exact absurd rfl (hsubmit task')
    · rw [Config.stack_replace_ne _ _ _ ht] at htop'
      obtain ⟨ready', below', rfl, -⟩ := h.submit htop'
      have hactive : c.Active t' (.scheduler (.batch ready')) := by
        rw [Config.Active, htop']
        exact List.mem_cons_of_mem _ (List.mem_cons_self ..)
      exact absurd (alone_below h.looping htop hactive).1 ht
  · rw [Config.shared_replace, hcurrent, List.append_assoc]
    obtain ⟨-, hmem⟩ | hold := Config.active_of_replace htop hactive
    · cases List.mem_singleton.mp hmem
      exact absurd rfl (hi ready')
    · obtain ⟨-, rfl⟩ := alone_below h.looping htop hold
      exact hsorted

theorem Ordered.collect (h : Ordered c) {id : TimerId} {expiration : Int} {ready : List TimerTask}
    (htop : c.stack t = .scheduler (.waitUntil id expiration) :: rest)
    (hmoves : Moves c.shared (.scheduler (.waitUntil id expiration)) s [.scheduler (.batch ready)])
    (hlooping : Looping (toScheduler (c.replace t s ([Instr.scheduler (.batch ready)] ++ rest))))
    (hheap : Heap s.scheduler.tasks) (hlog : s.log = .collected :: c.shared.log)
    (hready : Heap ready) :
    Ordered (c.replace t s ([Instr.scheduler (.batch ready)] ++ rest)) := by
  have hcurrent : current s.log = [] := by
    rw [hlog]
    rfl
  have hno (t' : Nat) (ready' : List TimerTask) : ¬c.Active t' (.scheduler (.batch ready')) :=
    fun hactive => nomatch (alone h.looping htop rfl hactive rfl).2
  refine ⟨hlooping, hheap, ?_, top_replace h htop hmoves, fun {t' task' rest'} htop' => ?_,
    fun {t' ready'} hactive => ?_⟩
  · rw [Config.shared_replace, hlog]
    exact ⟨List.Pairwise.nil, h.sorted⟩
  · by_cases ht : t' = t
    · subst ht
      rw [Config.stack_replace_self htop] at htop'
      cases htop'
    · rw [Config.stack_replace_ne _ _ _ ht] at htop'
      obtain ⟨ready', below', rfl, -⟩ := h.submit htop'
      refine absurd ?_ (hno t' ready')
      rw [Config.Active, htop']
      exact List.mem_cons_of_mem _ (List.mem_cons_self ..)
  · rw [Config.shared_replace, hcurrent, List.nil_append]
    obtain ⟨-, hmem⟩ | hold := Config.active_of_replace htop hactive
    · cases List.mem_singleton.mp hmem
      exact hready
    · exact absurd hold (hno _ _)

theorem Ordered.init (now : Int) (poolThreads threads : Nat) :
    Ordered (init now poolThreads threads) := by
  have hidle {t : Nat} {j : Timer.Instr}
      (hactive : (Clocked.init now poolThreads threads).Active t (.scheduler j)) :
      j = .worker ∨ j = .poolWorker ∨ j = .user := by
    obtain heq | heq | heq | heq := idle_of_init hactive <;> cases heq
    · exact .inl rfl
    · exact .inr (.inl rfl)
    · exact .inr (.inr rfl)
  refine ⟨looping_init now poolThreads threads, List.Pairwise.nil, trivial,
    fun t task hmem => ?_, fun {t task rest} htop => ?_, fun {t ready} hactive => ?_⟩
  · obtain heq | heq | heq := hidle (t := t) (List.mem_of_mem_tail hmem) <;> cases heq
  · obtain heq | heq | heq := hidle (Config.active_of_top htop) <;> cases heq
  · obtain heq | heq | heq := hidle hactive <;> cases heq

theorem Moves.heap (h : Moves s i s' pushed) (hheap : Heap s.scheduler.tasks) :
    Heap s'.scheduler.tasks := by
  cases h with
  | schedule pool tasks | again executing repeated running pool tasks =>
    rw [tasks]
    exact hheap.orderedInsert _ _
  | collect pool tasks =>
    rw [tasks]
    exact hheap.sublist ((List.sublist_append_right ..).trans (sublist_collect ..).1)
  | skip pool tasks | pass pool tasks | accept pool tasks | reject pool tasks | run queued pool tasks
  | enter pool tasks | start pool tasks =>
    rw [tasks]
    exact hheap
  | other pool tasks free => exact hheap.sublist tasks
  | _ => exact hheap

theorem Ordered.step (h : Ordered c) (hstep : machine.Step c t i c') : Ordered c' := by
  have hlooping : Looping (toScheduler c') := by
    obtain ⟨j, rfl, hstep'⟩ | heq := step_toScheduler hstep
    · exact h.looping.step hstep'
    · rw [heq]
      exact h.looping
  obtain @⟨rest, x, s, pushed, htop, hexec⟩ := hstep
  have hmoves := moves_of_exec (t := t) hexec
  have hheap := hmoves.heap h.heap
  cases hmoves with
  | collect pool tasks =>
    have hsub := (sublist_collect c.shared.now c.shared.scheduler.tasks c.shared.scheduler.states).1
    exact h.collect htop (.collect pool tasks) hlooping hheap rfl
      (h.heap.sublist ((List.sublist_append_left ..).trans hsub))
  | accept pool tasks =>
    exact h.handOver htop (.accept pool tasks) hlooping hheap rfl (fun _ => nofun) fun _ => nofun
  | reject pool tasks =>
    exact h.handOver htop (.reject pool tasks) hlooping hheap rfl (fun _ => nofun) fun _ => nofun
  | @skip task ready scheduler pool tasks =>
    refine h.keep htop (.skip pool tasks) hlooping hheap h.sorted rfl fun ready' hmem => ?_
    cases List.mem_singleton.mp hmem
    refine (h.batch (Config.active_of_top htop)).sublist (List.Sublist.append_left ?_ _)
    exact List.sublist_cons_self task ready
  | @pass task ready scheduler pool tasks =>
    refine h.keep htop (.pass pool tasks) hlooping hheap h.sorted rfl fun ready' hmem => ?_
    obtain rfl : ready' = ready := by simpa using hmem
    refine (h.batch (Config.active_of_top htop)).sublist (List.Sublist.append_left ?_ _)
    exact List.sublist_cons_self task ready'
  | @other j scheduler pushed pool tasks free =>
    refine h.keep htop (.other pool tasks free) hlooping hheap h.sorted rfl fun ready hmem => ?_
    obtain ⟨k, hpushed, heq⟩ := List.mem_map.mp hmem
    cases heq
    exact (free _ hpushed).elim
  | @call j operation inside caller own =>
    refine h.keep htop (.call inside caller own) hlooping hheap h.sorted rfl fun ready hmem => ?_
    obtain rfl | ⟨w, rfl⟩ := caller <;> simp at hmem
  | elapse ticks => exact h.keep htop (.elapse ticks) hlooping hheap h.sorted rfl (by simp)
  | after inside accepted => exact h.keep htop (.after inside accepted) hlooping hheap ⟨h.sorted.current, h.sorted⟩ rfl (by simp)
  | every inside accepted => exact h.keep htop (.every inside accepted) hlooping hheap ⟨h.sorted.current, h.sorted⟩ rfl (by simp)
  | schedule pool tasks => exact h.keep htop (.schedule pool tasks) hlooping hheap h.sorted rfl (by simp)
  | run queued pool tasks => exact h.keep htop (.run queued pool tasks) hlooping hheap h.sorted rfl (by simp)
  | enter pool tasks => exact h.keep htop (.enter pool tasks) hlooping hheap h.sorted rfl (by simp)
  | start pool tasks => exact h.keep htop (.start pool tasks) hlooping hheap ⟨h.sorted.current, h.sorted⟩ rfl (by simp)
  | finish w => exact h.keep htop (.finish w) hlooping hheap ⟨h.sorted.current, h.sorted⟩ rfl (by simp)
  | again executing repeated running pool tasks =>
    exact h.keep htop (.again executing repeated running pool tasks) hlooping hheap h.sorted rfl (by simp)

end Step

/-- No callback is early, and the timers of a batch are submitted in order. -/
theorem starts_on_time {now : Int} {poolThreads threads : Nat} {c : Config}
    (hrun : machine.Run Fits (init now poolThreads threads) c) :
    (∀ after before callback time, c.shared.log = after ++ .started callback time :: before →
      (∃ asked delay, .scheduled callback asked delay ∈ before) ∧
      ∀ asked delay, .scheduled callback asked delay ∈ before →
        asked + delay ≤ time ∧
        ∀ finished, .finished callback finished ∈ before → finished + delay ≤ time) ∧
    ∀ after between before a b,
      c.shared.log = after ++ .submitted b :: (between ++ .submitted a :: before) →
      .collected ∉ between → a.Before b := by
  have htimed : Timed c := hrun.invariant (.init now poolThreads threads) fun hc hok hstep =>
    hc.step hok hstep
  refine ⟨fun after before callback time hlog => ?_,
    fun after between before a b hlog hbetween => ?_⟩
  · have hpunctual := htimed.punctual
    rw [hlog] at hpunctual
    obtain ⟨asked, delay, hasked, hle, hfinished⟩ := hpunctual.onTime
    refine ⟨⟨asked, delay, hasked.scheduled⟩, fun asked' delay' hmem => ?_⟩
    obtain ⟨rfl, rfl⟩ := hasked.once hmem
    exact ⟨hle, hfinished⟩
  · have hordered : Ordered c := hrun.invariant (.init now poolThreads threads) fun hc _ hstep =>
      hc.step hstep
    have hsorted := hordered.sorted
    rw [hlog] at hsorted
    obtain ⟨tasks, hcurrent⟩ : ∃ tasks, current (between ++ .submitted a :: before) =
        current (.submitted a :: before) ++ tasks := current_append hbetween
    have hbatch := hsorted.before.current
    rw [current, hcurrent] at hbatch
    refine (List.pairwise_append.mp hbatch).2.2 a ?_ b (List.mem_singleton_self b)
    exact List.mem_append_left _ (List.mem_append_right _ (List.mem_singleton_self a))

def twice : List (Nat × Choice) :=
  [(2, .scheduler (.call .start)), (2, .scheduler .next), (2, .scheduler .next),
    (2, .scheduler (.call (.scheduleEvery 5 (some 0)))), (2, .scheduler (.clock 0)),
    (2, .scheduler .next), (2, .scheduler .next), (0, .scheduler .next), (0, .scheduler .next),
    (0, .scheduler .next), (3, .elapse 5), (0, .scheduler (.clock 5)), (0, .scheduler .next),
    (0, .scheduler .next), (0, .scheduler .next), (1, .scheduler (.run 0)), (1, .scheduler .next),
    (1, .scheduler .next), (3, .elapse 2), (1, .scheduler .next), (1, .scheduler (.clock 7)),
    (1, .scheduler .next), (1, .scheduler .next), (0, .scheduler .next), (0, .scheduler .next), (0, .scheduler .next),
    (3, .elapse 5), (0, .scheduler (.clock 12)), (0, .scheduler .next), (0, .scheduler .next),
    (0, .scheduler .next), (1, .scheduler (.run 0)), (1, .scheduler .next), (1, .scheduler .next)]

theorem starts_on_time_twice :
    ∃ before, (machine.follow (init 0 1 1) twice).shared.log = [] ++ .started 0 12 :: before ∧
      .finished 0 7 ∈ before ∧ (7 : Int) + 5 ≤ 12 := by
  have hrun : machine.Run Fits (init 0 1 1) (machine.follow (init 0 1 1) twice) :=
    Machine.run_follow (by decide)
  have hlog : (machine.follow (init 0 1 1) twice).shared.log =
      [] ++ .started 0 12 :: (machine.follow (init 0 1 1) twice).shared.log.tail := by
    decide
  have hfinished : .finished 0 7 ∈ (machine.follow (init 0 1 1) twice).shared.log.tail := by
    decide
  have hstarts := (starts_on_time hrun).1 [] _ 0 12 hlog
  exact ⟨_, hlog, hfinished, (hstarts.2 0 5 (by decide)).2 7 hfinished⟩

/-- The greatest delay is added to a clock that is not at 0. -/
def greatest : List (Nat × Choice) :=
  [(2, .scheduler (.call .start)), (2, .scheduler .next), (2, .scheduler .next),
    (2, .scheduler (.call (.scheduleAfter (2 ^ 63 - 1) (some 0)))), (2, .scheduler (.clock 1)),
    (2, .scheduler .next), (2, .scheduler .next), (0, .scheduler .next), (0, .scheduler .next),
    (0, .scheduler .next), (0, .scheduler (.clock 1)), (0, .scheduler .next), (0, .scheduler .next),
    (0, .scheduler .next), (1, .scheduler (.run 0)), (1, .scheduler .next), (1, .scheduler .next)]

theorem starts_at_once : ∃ c, machine.Reaches (init 1 1 1) c ∧ ∃ before time asked delay,
    c.shared.log = .started 0 time :: before ∧ .scheduled 0 asked delay ∈ before ∧ 0 ≤ delay ∧
      time < asked + delay := by
  refine ⟨machine.follow (init 1 1 1) greatest, Machine.reaches_follow _,
    (machine.follow (init 1 1 1) greatest).shared.log.tail, 1, 1, 2 ^ 63 - 1, ?_⟩
  decide

end UnixNotes.Timer.Clocked
