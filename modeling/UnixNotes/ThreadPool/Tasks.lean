import Mathlib.Data.List.Perm.Subperm
import UnixNotes.ThreadPool.Threads

namespace UnixNotes.ThreadPool

open Library

def Task.named (id : Nat) (task : Task) : Nat := if task.id = id then 1 else 0

def Pool.weight (w : Task → Nat) (pool : Pool) : Nat :=
  Config.weigh w pool.global + (pool.localQueues.map (Config.weigh w)).sum

def Pool.count (pool : Pool) (id : Nat) : Nat := pool.weight (Task.named id)

namespace Shared

def given (s : Shared) (runner : Option Nat) (id : Nat) : Nat :=
  (s.accepted.map fun a => (a.runner, a.id)).count (runner, id)

def kept (s : Shared) (runner : Option Nat) (id : Nat) : Nat :=
  match runner with
  | none => 0
  | some p => (s.pools p).count id

def done (s : Shared) (runner : Option Nat) (id : Nat) : Nat := s.executed.count (runner, id)

def decided (s : Shared) (id : Nat) : Nat :=
  (s.accepted.map Submission.id).count id + s.refused.count id

end Shared

namespace Instr

def starting (runner : Option Nat) (id : Nat) : Instr → Nat
  | .start self task => if self.map Worker.pool = runner ∧ task.id = id then 1 else 0
  | _ => 0

def submitting (id : Nat) : Instr → Nat
  | .submit _ _ _ task => task.named id
  | _ => 0

end Instr

namespace Pool

variable {pool : Pool} {tasks : BoundedRingQueue (Option Task)} {task : Task}

theorem weight_append (h : (pool.setTasks tasks).global = pool.global ++ [task]) (w : Task → Nat) :
    (pool.setTasks tasks).weight w = pool.weight w + w task := by
  rw [weight, weight, h, Config.weigh_append, Config.weigh_cons, Config.weigh_nil]
  change _ + (pool.localQueues.map _).sum = _
  omega

theorem weight_tail {rest : List Task} (hglobal : pool.global = task :: rest)
    (h : (pool.setTasks tasks).global = rest) (w : Task → Nat) :
    (pool.setTasks tasks).weight w + w task = pool.weight w := by
  rw [weight, weight, h, hglobal, Config.weigh_cons]
  change _ + (pool.localQueues.map _).sum + _ = _
  omega

theorem weight_setQueue {index : Nat} (hindex : index < pool.localQueues.length)
    (queue : List Task) (w : Task → Nat) :
    (pool.setQueue index queue).weight w + Config.weigh w (pool.queue index) =
      pool.weight w + Config.weigh w queue := by
  have hsum := Config.sum_set w pool.localQueues index queue hindex
  have hglobal : (pool.setQueue index queue).global = pool.global := rfl
  rw [weight, weight, hglobal]
  change _ + ((pool.localQueues.set index queue).map _).sum + Config.weigh _
    (pool.localQueues.getD index []) = _
  omega

theorem lt_of_queue {index : Nat} (h : pool.queue index ≠ []) :
    index < pool.localQueues.length := by
  by_contra hlt
  rw [queue, List.getD_eq_getElem?_getD, List.getElem?_eq_none (Nat.not_lt.mp hlt)] at h
  exact h rfl

theorem weight_cons {index : Nat} (hindex : index < pool.localQueues.length) (task : Task)
    (w : Task → Nat) :
    (pool.setQueue index (task :: pool.queue index)).weight w = pool.weight w + w task := by
  have hweight := weight_setQueue hindex (task :: pool.queue index) w
  rw [Config.weigh_cons] at hweight
  omega

theorem weight_of_cons {index : Nat} {queue : List Task} (h : pool.queue index = task :: queue)
    (w : Task → Nat) : (pool.setQueue index queue).weight w + w task = pool.weight w := by
  have hweight := weight_setQueue (lt_of_queue (h ▸ List.cons_ne_nil task queue)) queue w
  rw [h, Config.weigh_cons] at hweight
  omega

theorem weight_of_concat {index : Nat} {queue : List Task} (h : pool.queue index = queue ++ [task])
    (w : Task → Nat) : (pool.setQueue index queue).weight w + w task = pool.weight w := by
  have hne : queue ++ [task] ≠ [] :=
    List.append_ne_nil_of_right_ne_nil queue (List.cons_ne_nil task [])
  have hweight := weight_setQueue (lt_of_queue (h ▸ hne)) queue w
  rw [h, Config.weigh_append, Config.weigh_cons, Config.weigh_nil] at hweight
  omega

end Pool

section Exec

variable {P : Process} {s s' : Shared} {i : Instr} {pushed : List Instr}

theorem kept_set {q : Nat} {pool : Pool} {id : Nat} (h : pool.count id = (s.pools q).count id)
    (runner : Option Nat) : (s.set q pool).kept runner id = s.kept runner id := by
  cases runner with
  | none => rfl
  | some p =>
    rw [Shared.kept, Shared.kept, Shared.pools_set]
    split
    · rename_i heq
      rw [heq, h]
    · rfl

theorem kept_push {q : Nat} {pool : Pool} {task : Task} {id : Nat}
    (h : pool.count id = (s.pools q).count id + task.named id) (runner : Option Nat) :
    (s.set q pool).kept runner id =
      s.kept runner id + if some q = runner ∧ task.id = id then 1 else 0 := by
  cases runner with
  | none => simp [Shared.kept]
  | some p =>
    rw [Shared.kept, Shared.kept, Shared.pools_set]
    by_cases hp : p = q
    · subst hp
      rw [if_pos rfl, h, Task.named]
      simp
    · simp [hp, Ne.symm hp]

theorem kept_pop {w : Worker} {pool : Pool} {task : Task} {id : Nat}
    (h : pool.count id + task.named id = (s.pools w.pool).count id) (runner : Option Nat) :
    (s.set w.pool pool).kept runner id + (Instr.start (some w) task).starting runner id =
      s.kept runner id := by
  cases runner with
  | none => simp [Shared.kept, Instr.starting]
  | some p =>
    rw [Shared.kept, Shared.kept, Shared.pools_set]
    by_cases hp : p = w.pool
    · subst hp
      rw [if_pos rfl, ← h, Task.named]
      simp [Instr.starting]
    · simp [hp, Ne.symm hp, Instr.starting]

theorem given_accept (p : Nat) (runner runner' : Option Nat) (id id' : Nat) :
    (s.accept p runner id).given runner' id' =
      s.given runner' id' + if runner = runner' ∧ id = id' then 1 else 0 := by
  rw [Shared.given, Shared.accept, List.map_cons, List.count_cons]
  simp only [Shared.given, beq_iff_eq, Prod.mk.injEq]

/-- A task is accepted, held, about to start and started in turn. -/
structure Moved (i : Instr) (s s' : Shared) (pushed : List Instr) : Prop where
  task : ∀ runner id, s'.given runner id + (s.done runner id + s.kept runner id +
      i.starting runner id) =
    s.given runner id + (s'.done runner id + s'.kept runner id +
      Config.weigh (Instr.starting runner id) pushed)
  decided : ∀ id, s'.decided id + Config.weigh (Instr.submitting id) pushed +
      (if id < s.issued then 1 else 0) =
    s.decided id + i.submitting id + (if id < s'.issued then 1 else 0)

theorem Moved.of_kept (hdone : s'.executed = s.executed) (haccepted : s'.accepted = s.accepted)
    (hrefused : s'.refused = s.refused) (hissued : s'.issued = s.issued)
    (hkept : ∀ runner id, s'.kept runner id + Config.weigh (Instr.starting runner id) pushed =
      s.kept runner id + i.starting runner id)
    (hsubmitting : ∀ id, Config.weigh (Instr.submitting id) pushed = i.submitting id) :
    Moved i s s' pushed := by
  refine ⟨fun runner id => ?_, fun id => ?_⟩
  · have := hkept runner id
    simp only [Shared.given, Shared.done, hdone, haccepted]
    omega
  · simp only [Shared.decided, haccepted, hrefused, hissued, hsubmitting]

theorem decided_accept (p : Nat) (runner : Option Nat) (id id' : Nat) :
    (s.accept p runner id).decided id' = s.decided id' + if id = id' then 1 else 0 := by
  rw [Shared.decided, Shared.accept, List.map_cons, List.count_cons]
  simp only [Shared.decided, beq_iff_eq]
  omega

theorem Moved.of_push {q : Nat} {pool : Pool} {self : Option Worker} {task : Task}
    (hcount : ∀ id, pool.count id = (s.pools q).count id + task.named id) (op : Operation)
    (p : Nat) : Moved (.submit self op p task) s ((s.set q pool).accept p (some q) task.id)
      [.notify p] := by
  refine ⟨fun runner id => ?_, fun id => ?_⟩
  · have hkept := kept_push (hcount id) runner
    rw [given_accept]
    change s.given runner id + _ + (s.done runner id + s.kept runner id + 0) =
      s.given runner id + (s.done runner id + (s.set q pool).kept runner id + 0)
    omega
  · rw [decided_accept]
    exact congrArg (· + _) (Nat.add_zero _)

theorem Moved.of_pop {w : Worker} {pool : Pool} {task : Task}
    (hcount : ∀ id, pool.count id + task.named id = (s.pools w.pool).count id)
    (hstarting : ∀ runner id, i.starting runner id = 0) (hsubmitting : ∀ id, i.submitting id = 0) :
    Moved i s (s.set w.pool pool) [.start (some w) task] :=
  .of_kept rfl rfl rfl rfl
    (fun runner id => by
      rw [Config.weigh_cons, Config.weigh_nil, Nat.add_zero, kept_pop (hcount id), hstarting,
        Nat.add_zero])
    fun id => (hsubmitting id).symm

theorem Effect.moved {owner : Option Worker} (h : Effect P s i s' pushed) (hs : s.Ok P)
    (hplaced : i.Placed P.count owner) (howner : ∀ w ∈ owner, w ∈ P.workers) :
    Moved i s s' pushed := by
  cases h with
  | calls op hp code =>
    have hmoved : ∀ j : Instr, (∀ runner id, j.starting runner id = 0) →
        (∀ id, j.submitting id = 0) → ∀ self p, Moved j s { s with issued := s.issued + 1 }
          [.submit self op p ⟨s.issued, op = .submit⟩, j] := by
      intro j hstarting hsubmitting self p
      refine ⟨fun runner id => ?_, fun id => ?_⟩
      · rw [Config.weigh_cons, Config.weigh_cons, hstarting]
        rfl
      · rw [Config.weigh_cons, Config.weigh_cons, hsubmitting]
        change _ + ((if s.issued = id then 1 else 0) + 0) + _ =
          _ + (if id < s.issued + 1 then 1 else 0)
        simp only [Shared.decided]
        split <;> split <;> split <;> omega
    obtain ⟨rfl, rfl⟩ | ⟨task, rfl⟩ := code
    · exact hmoved .user (fun _ _ => rfl) (fun _ => rfl) _ _
    · exact hmoved (.body _ task) (fun _ _ => rfl) (fun _ => rfl) _ _
  | refuses op p task =>
    refine ⟨fun runner id => rfl, fun id => ?_⟩
    change (s.accepted.map Submission.id).count id + (task.id :: s.refused).count id + 0 +
      (if id < s.issued then 1 else 0) =
        s.decided id + task.named id + (if id < s.issued then 1 else 0)
    rw [List.count_cons, Task.named, Shared.decided]
    simp only [beq_iff_eq]
    omega
  | runsHere task stopping =>
    refine ⟨fun runner id => ?_, fun id => ?_⟩
    · rw [given_accept, Config.weigh_cons]
      simp only [Instr.starting, Option.map_none, Config.weigh_nil]
      change _ + (s.done runner id + s.kept runner id + 0) =
        _ + (s.done runner id + s.kept runner id + _)
      omega
    · rw [decided_accept]
      exact congrArg (· + _) (Nat.add_zero _)
  | pushes op locked stopping ok global =>
    exact .of_push (fun id => Pool.weight_append global (Task.named id)) op _
  | pushesOwner w op p task =>
    have hw := (Process.mem_workers.mp (howner w hplaced.1.symm)).2
    rw [← (hs w.pool).localQueues] at hw
    exact .of_push (fun id => Pool.weight_cons hw task (Task.named id)) op p
  | starts self task =>
    refine ⟨fun runner id => ?_, fun id => rfl⟩
    have hdone : ({ s with executed := (self.map Worker.pool, task.id) :: s.executed }
        : Shared).done runner id =
        s.done runner id + (Instr.start self task).starting runner id := by
      simp only [Shared.done, List.count_cons, beq_iff_eq, Prod.mk.injEq, Instr.starting]
    rw [hdone]
    change s.given runner id + (s.done runner id + s.kept runner id + _) =
      s.given runner id + (s.done runner id + _ + s.kept runner id + 0)
    omega
  | takesOwn queue_eq =>
    exact .of_pop (fun id => Pool.weight_of_cons queue_eq (Task.named id)) (fun _ _ => rfl)
      fun _ => rfl
  | takesGlobal global ok rest_eq =>
    exact .of_pop (fun id => Pool.weight_tail global rest_eq (Task.named id)) (fun _ _ => rfl)
      fun _ => rfl
  | steals queue_eq =>
    exact .of_pop (fun id => Pool.weight_of_concat queue_eq (Task.named id)) (fun _ _ => rfl)
      fun _ => rfl
  | returns self task => cases self <;> exact ⟨fun _ _ => rfl, fun _ => rfl⟩
  | catches self packaged => cases self <;> exact ⟨fun _ _ => rfl, fun _ => rfl⟩
  | _ =>
    first
      | exact ⟨fun _ _ => rfl, fun _ => rfl⟩
      | exact .of_kept rfl rfl rfl rfl (fun runner id => congrArg (· + 0) (kept_set (by rfl) runner))
          fun _ => rfl

end Exec

structure Tasks (P : Process) (c : Config) : Prop where
  threads : Threads P c
  task : ∀ runner id, c.shared.given runner id =
    c.shared.done runner id + c.shared.kept runner id + c.total (Instr.starting runner id)
  decided : ∀ id, c.shared.decided id + c.total (Instr.submitting id) =
    if id < c.shared.issued then 1 else 0

theorem tasks_init {P : Process} {users : Nat} : Tasks P (P.init users) := by
  have hnone : ∀ w : Instr → Nat, (∀ self, w (.popOwner self) = 0) → w .user = 0 →
      (P.init users).total w = 0 := by
    intro w howner huser
    refine Library.Config.total_eq_zero fun t i hactive => ?_
    obtain ⟨self, -, rfl⟩ | ⟨-, rfl⟩ := init_active hactive
    · exact howner self
    · exact huser
  refine ⟨threads_init, fun runner id => ?_, fun id => ?_⟩
  · rw [hnone _ (fun _ => rfl) rfl]
    cases runner with
    | none => rfl
    | some p =>
      have hrep : (P.pool p).tasks.Represents (([] : List Task).map some) :=
        BoundedRingQueue.represents_new (P.settings p).queueCapacity_pos
      have hglobal := Pool.global_eq hrep
      change 0 = 0 + (P.pool p).count id + 0
      rw [Pool.count, Pool.weight, hglobal]
      simp [Process.pool, Config.weigh]
  · rw [hnone _ (fun _ => rfl) rfl]
    rfl

theorem getElem?_workers {P : Process} {t : Nat} : ∀ w ∈ P.workers[t]?, w ∈ P.workers :=
  fun _ hw => List.mem_of_getElem? hw

variable {P : Process} {c c' : Config} {t : Nat} {i : Instr}

theorem Tasks.step (h : Tasks P c) (hstep : P.machine.Step c t i c') : Tasks P c' := by
  have hthreads := h.threads.step hstep
  obtain ⟨rest, s, pushed, htop, heffect, rfl, -⟩ := h.threads.effect hstep
  have hmoved := heffect.moved h.threads.ok
    (h.threads.placed t i (Library.Config.active_of_top htop)) getElem?_workers
  refine ⟨hthreads, fun runner id => ?_, fun id => ?_⟩
  · have := Library.Config.total_replace (Instr.starting runner id) htop s pushed
    have := hmoved.task runner id
    have := h.task runner id
    rw [Library.Config.shared_replace]
    omega
  · have := Library.Config.total_replace (Instr.submitting id) htop s pushed
    have := hmoved.decided id
    have := h.decided id
    rw [Library.Config.shared_replace]
    omega

theorem Tasks.decided_le_one (h : Tasks P c) (id : Nat) : c.shared.decided id ≤ 1 := by
  have hdecided := h.decided id
  split at hdecided <;> omega

theorem Tasks.done_le_given (h : Tasks P c) (runner : Option Nat) (id : Nat) :
    c.shared.done runner id ≤ c.shared.given runner id := by
  have := h.task runner id
  omega

theorem Tasks.executed_subperm (h : Tasks P c) :
    c.shared.executed.Subperm (c.shared.accepted.map fun a => (a.runner, a.id)) := by
  refine List.subperm_ext_iff.mpr fun entry _ => ?_
  exact h.done_le_given entry.1 entry.2

theorem Tasks.ids_subperm (h : Tasks P c) :
    (c.shared.executed.map Prod.snd).Subperm (c.shared.accepted.map Submission.id) := by
  obtain ⟨entries, hperm, hsublist⟩ := h.executed_subperm
  have hids := hsublist.map Prod.snd
  rw [List.map_map] at hids
  exact ⟨entries.map Prod.snd, hperm.map Prod.snd, hids⟩

theorem Tasks.nodup_accepted (h : Tasks P c) : (c.shared.accepted.map Submission.id).Nodup := by
  refine List.nodup_iff_count_le_one.mpr fun id => ?_
  have := h.decided_le_one id
  rw [Shared.decided] at this
  omega

theorem Tasks.nodup_executed (h : Tasks P c) : (c.shared.executed.map Prod.snd).Nodup := by
  obtain ⟨entries, hperm, hsublist⟩ := h.ids_subperm
  exact hperm.nodup_iff.mp (h.nodup_accepted.sublist hsublist)

theorem Tasks.not_executed_of_refused (h : Tasks P c) {id : Nat} (hrefused : id ∈ c.shared.refused) :
    id ∉ c.shared.executed.map Prod.snd := by
  intro hexecuted
  have haccepted := List.count_pos_iff.mpr (h.ids_subperm.subset hexecuted)
  have hcount := List.count_pos_iff.mpr hrefused
  have hle := h.decided_le_one id
  rw [Shared.decided] at hle
  omega

end UnixNotes.ThreadPool
