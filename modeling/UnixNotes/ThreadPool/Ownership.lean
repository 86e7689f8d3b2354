import UnixNotes.ThreadPool.Completion

namespace UnixNotes.ThreadPool

open Library

theorem Pool.count_of_queued {pool : Pool} {id : Nat} (h : pool.Queued id) : 0 < pool.count id := by
  have hnamed : ∀ {queue : List Task} {task : Task}, task ∈ queue → task.id = id →
      1 ≤ Library.Config.weigh (Task.named id) queue := by
    intro queue task hmem hid
    have hle := Library.Config.le_weigh (w := Task.named id) hmem
    rwa [Task.named, if_pos hid] at hle
  obtain ⟨task, hmem, hid⟩ | ⟨queue, hqueue, task, hmem, hid⟩ := h
  · exact Nat.lt_of_lt_of_le (hnamed hmem hid) (Nat.le_add_right ..)
  · have hle := Library.Config.le_weigh (w := Library.Config.weigh (Task.named id)) hqueue
    exact Nat.lt_of_lt_of_le (hnamed hmem hid) (Nat.le_add_left_of_le hle)

section Run

variable {P : Process} {c c' : Config} {t : Nat} {i : Instr}

theorem Tasks.eq_of_id (h : Tasks P c) {a b : Submission} (ha : a ∈ c.shared.accepted)
    (hb : b ∈ c.shared.accepted) (hid : a.id = b.id) : a = b :=
  List.inj_on_of_nodup_map h.nodup_accepted ha hb hid

theorem Tasks.runner_of_queued (h : Tasks P c) {a : Submission} (ha : a ∈ c.shared.accepted)
    {p : Nat} (hqueued : (c.shared.pools p).Queued a.id) : a.runner = some p := by
  have hkept : 0 < c.shared.kept (some p) a.id := Pool.count_of_queued hqueued
  have htask := h.task (some p) a.id
  have hgiven : 0 < c.shared.given (some p) a.id := by omega
  obtain ⟨b, hb, heq⟩ := List.mem_map.mp (List.count_pos_iff.mp hgiven)
  obtain ⟨hrunner, hid⟩ := Prod.mk.inj heq
  rw [h.eq_of_id ha hb hid.symm, hrunner]

theorem Tasks.runner_of_executed (h : Tasks P c) {a : Submission} (ha : a ∈ c.shared.accepted)
    {runner : Option Nat} (hexecuted : (runner, a.id) ∈ c.shared.executed) : runner = a.runner := by
  obtain ⟨b, hb, heq⟩ := List.mem_map.mp (h.executed_subperm.subset hexecuted)
  obtain ⟨hrunner, hid⟩ := Prod.mk.inj heq
  rw [h.eq_of_id ha hb hid.symm, hrunner]

theorem Effect.accepts {s s' : Shared} {pushed : List Instr} (h : Effect P s i s' pushed)
    (hhome : i.atHome = true) {a : Submission} (ha : a ∈ s'.accepted) : a ∈ s.accepted ∨
      (s.pools a.pool).stopping = false ∨ ∃ w op task, i = .submit (some w) op w.pool task ∧
        a.pool = w.pool := by
  cases h with
  | pushes op locked stopping ok global =>
    obtain rfl | ha := List.mem_cons.mp ha
    · exact .inr (.inl stopping)
    · exact .inl ha
  | pushesOwner w op p task =>
    have hp : w.pool = p := of_decide_eq_true hhome
    subst hp
    obtain rfl | ha := List.mem_cons.mp ha
    · exact .inr (.inr ⟨w, op, task, rfl, rfl⟩)
    · exact .inl ha
  | runsHere task stopping =>
    obtain rfl | ha := List.mem_cons.mp ha
    · exact .inr (.inl stopping)
    · exact .inl ha
  | _ => exact .inl ha

/-- A task that pool `a.pool` accepted into a queue is its own from then on. -/
structure Owned (P : Process) (c : Config) : Prop where
  queued : ∀ a ∈ c.shared.accepted, ∀ p, (c.shared.pools p).Queued a.id → p = a.pool
  executed : ∀ a ∈ c.shared.accepted, a.runner ≠ none →
    ∀ runner, (runner, a.id) ∈ c.shared.executed → runner = some a.pool
  stopping : ∀ t i c', P.machine.Step c t i c' → i.atHome = true →
    ∀ a ∈ c'.shared.accepted, a ∈ c.shared.accepted ∨
      (c.shared.pools a.pool).destroyed = false ∧ ((c.shared.pools a.pool).stopping = false ∨
        ∃ w, P.workers[t]? = some w ∧ w.pool = a.pool)
  drained : ∀ a ∈ c.shared.accepted, a.runner ≠ none →
    (c.shared.pools a.pool).destroyed = true → (some a.pool, a.id) ∈ c.shared.executed

theorem Shutdown.stopping_of_destroyed (h : Shutdown P c) {p : Nat}
    (hdestroyed : (c.shared.pools p).destroyed = true) : (c.shared.pools p).stopping = true :=
  (h.exited ⟨p, 0⟩ (h.destroyed p hdestroyed 0 (P.settings p).workerCount_pos)).1.stopping

theorem Shutdown.accepts (h : Shutdown P c) (hstep : P.machine.Step c t i c')
    (hhome : i.atHome = true) {a : Submission} (ha : a ∈ c'.shared.accepted) :
    a ∈ c.shared.accepted ∨
      (c.shared.pools a.pool).destroyed = false ∧ ((c.shared.pools a.pool).stopping = false ∨
        ∃ w, P.workers[t]? = some w ∧ w.pool = a.pool) := by
  obtain ⟨rest, s, pushed, htop, heffect, rfl, -⟩ := h.tasks.threads.effect hstep
  obtain hold | hstopping | ⟨w, op, task, rfl, hpool⟩ := heffect.accepts hhome ha
  · exact .inl hold
  · refine .inr ⟨?_, .inl hstopping⟩
    by_contra hdestroyed
    rw [h.stopping_of_destroyed (Bool.not_eq_false _ ▸ hdestroyed)] at hstopping
    cases hstopping
  · have howner := h.tasks.threads.owner_of_submit (Library.Config.active_of_top htop)
    refine .inr ⟨?_, .inr ⟨w, howner, hpool.symm⟩⟩
    by_contra hdestroyed
    rw [(h.drained (Bool.not_eq_false _ ▸ hdestroyed)).workers t w howner hpool.symm] at htop
    cases htop

/-- Where workers submit to their own pool only, every pool has its tasks to itself. -/
theorem owned_of_atHome {users : Nat}
    (hrun : P.machine.Run (fun _ _ i => i.atHome = true) (P.init users) c) : Owned P c := by
  have hshutdown := (resting_of_reaches hrun.reaches).shutdown
  have hrunner := runner_of_atHome (fun _ _ _ hok => hok) hrun
  refine ⟨fun a ha p hqueued => ?_, fun a ha hnone runner hexecuted => ?_,
    fun t i c' hstep hhome a ha => hshutdown.accepts hstep hhome ha,
    fun a ha hnone hdestroyed => ?_⟩
  · have heq := hshutdown.tasks.runner_of_queued ha hqueued
    obtain hnone | hsome := hrunner a ha
    · rw [hnone] at heq
      cases heq
    · exact Option.some.inj (heq.symm.trans hsome)
  · exact (hshutdown.tasks.runner_of_executed ha hexecuted).trans
      ((hrunner a ha).resolve_left hnone)
  · have hsome := (hrunner a ha).resolve_left hnone
    have hexecuted := (hshutdown.drained hdestroyed).executed a ha hsome
    rwa [hsome] at hexecuted

end Run

def twoPools : Process := ⟨2, fun _ => ⟨1, 1, .abort, Nat.one_pos, Nat.one_pos⟩⟩

def homeMoves : List (Nat × Choice) :=
  [(2, .submit .tryPost 0), (2, .next), (2, .next), (2, .submit .submit 1), (2, .next), (2, .next),
    (1, .next), (1, .next), (1, .next), (1, .submit .submit 1), (1, .next), (1, .next), (0, .next),
    (0, .next), (0, .next), (0, .next), (2, .destroy 0), (2, .next), (2, .next), (0, .next),
    (0, .next), (0, .next), (0, .next), (0, .next), (0, .next), (0, .next), (0, .next), (2, .next)]

theorem owned_of_atHome_two :
    ((twoPools.machine.follow (twoPools.init 1) homeMoves).shared.pools 0).destroyed = true ∧
      Owned twoPools (twoPools.machine.follow (twoPools.init 1) homeMoves) :=
  ⟨by decide, owned_of_atHome (Machine.run_follow (by decide))⟩

/-- A worker of pool 1 submits to pool 0, which is then destroyed. -/
def crossMoves : List (Nat × Choice) :=
  [(2, .submit .submit 1), (2, .next), (2, .next), (1, .next), (1, .next), (1, .next),
    (1, .submit .submit 0), (1, .next), (1, .next), (2, .destroy 0), (2, .next), (2, .next),
    (0, .next), (0, .next), (0, .next), (0, .next), (0, .next), (0, .next), (0, .next), (0, .next),
    (2, .next)]

theorem crossed_pools : ∃ c, twoPools.machine.Reaches (twoPools.init 1) c ∧
    ∃ a ∈ c.shared.accepted, a.pool = 0 ∧ a.runner = some 1 ∧ (c.shared.pools 1).Queued a.id ∧
      (c.shared.pools 0).destroyed = true ∧ a.id ∉ c.shared.executed.map Prod.snd :=
  ⟨twoPools.machine.follow (twoPools.init 1) crossMoves, Machine.reaches_follow _,
    ⟨0, some 1, 1⟩, by decide⟩

end UnixNotes.ThreadPool
