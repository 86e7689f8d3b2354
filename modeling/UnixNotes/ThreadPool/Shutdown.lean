import UnixNotes.ThreadPool.Tasks

namespace UnixNotes.ThreadPool

open Library

namespace Shared

variable {s : Shared} {R : Pool → Prop} {p q : Nat} {pool : Pool}

theorem set_of (h : R (s.pools p)) (hpool : p = q → R (s.pools q) → R pool) :
    R ((s.set q pool).pools p) := by
  rw [pools_set]
  split
  · rename_i heq
    exact hpool heq (heq ▸ h)
  · exact h

theorem of_set (h : R ((s.set q pool).pools p)) (hpool : p = q → R pool → R (s.pools q)) :
    R (s.pools p) := by
  rw [pools_set] at h
  split at h
  · rename_i heq
    exact heq ▸ hpool heq h
  · exact h

end Shared

namespace Pool

theorem queue_setQueue_ne (pool : Pool) {index index' : Nat} (queue : List Task)
    (h : index' ≠ index) : (pool.setQueue index queue).queue index' = pool.queue index' := by
  simp only [Pool.queue, setQueue, List.getD_eq_getElem?_getD, List.getElem?_set_ne h.symm]

theorem queue_setQueue_nil (pool : Pool) (index : Nat) :
    (pool.setQueue index []).queue index = [] := by
  simp only [Pool.queue, setQueue, List.getD_eq_getElem?_getD, List.getElem?_set]
  split
  · split <;> rfl
  · simp_all

theorem queue_setQueue_of_nil {pool : Pool} {index index' : Nat} {queue : List Task}
    (h : pool.queue index' = []) (hqueue : index' = index → queue = []) :
    (pool.setQueue index queue).queue index' = [] := by
  by_cases heq : index' = index
  · rw [hqueue heq, heq]
    exact queue_setQueue_nil pool index
  · rw [queue_setQueue_ne pool queue heq]
    exact h

structure Closed (pool : Pool) : Prop where
  stopping : pool.stopping = true
  global : pool.global = []

end Pool

section Exec

variable {P : Process} {s s' : Shared} {i : Instr} {pushed : List Instr}

theorem Effect.queue_nil (h : Effect P s i s' pushed) {p index : Nat}
    (hnil : (s.pools p).queue index = [])
    (hsubmit : ∀ op q task, i ≠ .submit (some ⟨p, index⟩) op q task) :
    (s'.pools p).queue index = [] := by
  cases h with
  | pushesOwner w op q task =>
    refine Shared.set_of (R := fun pool => pool.queue index = []) hnil fun hp hold => ?_
    refine Pool.queue_setQueue_of_nil hold fun hindex => ?_
    rw [hp, hindex] at hsubmit
    exact absurd rfl (hsubmit op q task)
  | takesOwn queue_eq =>
    refine Shared.set_of (R := fun pool => pool.queue index = []) hnil fun _ hold => ?_
    refine Pool.queue_setQueue_of_nil hold fun hindex => ?_
    rw [hindex, queue_eq] at hold
    cases hold
  | steals queue_eq =>
    refine Shared.set_of (R := fun pool => pool.queue index = []) hnil fun _ hold => ?_
    refine Pool.queue_setQueue_of_nil hold fun hindex => ?_
    rw [hindex, queue_eq] at hold
    exact absurd hold (List.append_ne_nil_of_right_ne_nil _ (List.cons_ne_nil _ _))
  | _ =>
    first
      | exact hnil
      | exact Shared.set_of (R := fun pool => pool.queue index = []) hnil fun _ hold => hold

theorem Effect.closed (h : Effect P s i s' pushed) {p : Nat} (hclosed : (s.pools p).Closed) :
    (s'.pools p).Closed := by
  cases h with
  | pushes op locked stopping ok global =>
    refine Shared.set_of (R := Pool.Closed) hclosed fun _ hold => ?_
    rw [hold.stopping] at stopping
    cases stopping
  | takesGlobal global ok rest_eq =>
    refine Shared.set_of (R := Pool.Closed) hclosed fun _ hold => ?_
    rw [hold.global] at global
    cases global
  | stops locked stopping =>
    exact Shared.set_of (R := Pool.Closed) hclosed fun _ hold => ⟨rfl, hold.global⟩
  | _ =>
    first
      | exact hclosed
      | exact Shared.set_of (R := Pool.Closed) hclosed fun _ hold => ⟨hold.stopping, hold.global⟩

theorem Effect.exited_mono (h : Effect P s i s' pushed) {p index : Nat}
    (hexited : index ∈ (s.pools p).exited) : index ∈ (s'.pools p).exited := by
  cases h with
  | exits hindex =>
    exact Shared.set_of (R := fun pool => index ∈ pool.exited) hexited
      fun _ hold => List.mem_cons_of_mem _ hold
  | _ =>
    first
      | exact hexited
      | exact Shared.set_of (R := fun pool => index ∈ pool.exited) hexited fun _ hold => hold

theorem Effect.exited (h : Effect P s i s' pushed) {w : Worker}
    (hexited : w.index ∈ (s'.pools w.pool).exited) :
    w.index ∈ (s.pools w.pool).exited ∨
      pushed = [] ∧ ∃ k, (P.settings w.pool).workerCount ≤ k ∧ i = .testLocal w k := by
  cases h with
  | exits hindex =>
    rename_i v k
    by_cases hw : w = v
    · subst hw
      exact .inr ⟨rfl, k, hindex, rfl⟩
    · refine .inl (Shared.of_set (R := fun pool => w.index ∈ pool.exited) hexited
        fun hp hold => ?_)
      refine (List.mem_cons.mp hold).resolve_left fun hindex => hw ?_
      exact congrArg₂ Worker.mk hp hindex
  | _ =>
    first
      | exact .inl hexited
      | exact .inl (Shared.of_set (R := fun pool => w.index ∈ pool.exited) hexited
          fun _ hold => hold)

theorem Effect.destroyed (h : Effect P s i s' pushed) {p : Nat}
    (hdestroyed : (s'.pools p).destroyed = true) : (s.pools p).destroyed = true ∨
      ∀ index < (P.settings p).workerCount, index ∈ (s.pools p).exited := by
  cases h with
  | joins exited =>
    rename_i q
    by_cases hp : p = q
    · subst hp
      exact .inr exited
    · exact .inl (Shared.of_set (R := fun pool => pool.destroyed = true) hdestroyed
        fun heq => absurd heq hp)
  | _ =>
    first
      | exact .inl hdestroyed
      | exact .inl (Shared.of_set (R := fun pool => pool.destroyed = true) hdestroyed
          fun _ hold => hold)

theorem Effect.testLocal (h : Effect P s i s' pushed) {w : Worker} {k : Nat}
    (hmem : .testLocal w k ∈ pushed) : s' = s ∧
      (k = 0 ∧ (s.pools w.pool).Closed ∨
        ∃ k', k = k' + 1 ∧ i = .testLocal w k' ∧ (s.pools w.pool).queue k' = []) := by
  cases h with
  | testsLocal stopping global =>
    cases List.mem_singleton.mp hmem
    exact ⟨rfl, .inl ⟨rfl, stopping, global⟩⟩
  | testsNext hindex queue_eq =>
    cases List.mem_singleton.mp hmem
    exact ⟨rfl, .inr ⟨_, rfl, rfl, queue_eq⟩⟩
  | calls op hp code => obtain ⟨rfl, rfl⟩ | ⟨task, rfl⟩ := code <;> simp at hmem
  | returns self task => cases self <;> simp at hmem
  | catches self packaged => cases self <;> simp at hmem
  | _ => simp at hmem

end Exec

namespace Instr

def waits : Instr → Bool
  | .user => true
  | .body _ _ => true
  | .join _ => true
  | _ => false

end Instr

theorem Effect.waits {P : Process} {s s' : Shared} {i : Instr} {pushed : List Instr}
    (h : Effect P s i s' pushed) : ∀ j ∈ pushed.tail, ¬j.waits = false := by
  cases h with
  | calls op hp code =>
    intro j hj
    cases List.mem_singleton.mp hj
    obtain ⟨rfl, rfl⟩ | ⟨task, rfl⟩ := code <;> simp [Instr.waits]
  | returns self task => cases self <;> simp
  | catches self packaged => cases self <;> simp
  | _ => simp [Instr.waits]

theorem Process.nodup_workers (P : Process) : P.workers.Nodup := by
  refine List.nodup_flatMap.mpr ⟨fun p _ => ?_, ?_⟩
  · exact List.nodup_range.map fun _ _ heq => (Worker.mk.inj heq).2
  · refine List.nodup_range.imp fun {p q} hne w hp hq => ?_
    obtain ⟨_, -, rfl⟩ := List.mem_map.mp hp
    obtain ⟨_, -, heq⟩ := List.mem_map.mp hq
    exact hne (Worker.mk.inj heq).1.symm

theorem Process.thread_unique {P : Process} {w : Worker} {t t' : Nat}
    (h : P.workers[t]? = some w) (h' : P.workers[t']? = some w) : t = t' := by
  obtain ⟨ht, -⟩ := List.getElem?_eq_some_iff.mp h
  exact (List.getElem?_inj ht P.nodup_workers).mp (h.trans h'.symm)

/-- Workers leave their loop when the pool is closed and their queue is empty, and the destructor
returns after all of them. -/
structure Shutdown (P : Process) (c : Config) : Prop where
  tasks : Tasks P c
  heads : c.HeadOnly fun i => i.waits = false
  tested : ∀ t w k, c.Active t (.testLocal w k) →
    (c.shared.pools w.pool).Closed ∧ (w.index < k → (c.shared.pools w.pool).queue w.index = [])
  exited : ∀ w, w.index ∈ (c.shared.pools w.pool).exited →
    (c.shared.pools w.pool).Closed ∧ (c.shared.pools w.pool).queue w.index = [] ∧
      ∀ t, P.workers[t]? = some w → c.stack t = []
  destroyed : ∀ p, (c.shared.pools p).destroyed = true →
    ∀ index < (P.settings p).workerCount, index ∈ (c.shared.pools p).exited

theorem shutdown_init {P : Process} {users : Nat} : Shutdown P (P.init users) := by
  refine ⟨tasks_init, ?_, ?_, ?_, ?_⟩
  · intro t j hj
    cases htop : (P.init users).stack t with
    | nil =>
      rw [htop] at hj
      cases hj
    | cons i rest =>
      obtain ⟨rfl, -⟩ := init_stack htop
      rw [htop] at hj
      cases hj
  · intro t w k hactive
    obtain ⟨_, -, heq⟩ | ⟨-, heq⟩ := init_active hactive <;> cases heq
  · exact fun w hexited => absurd hexited List.not_mem_nil
  · exact fun p hdestroyed => absurd hdestroyed Bool.false_ne_true

section Step

variable {P : Process} {c c' : Config} {t : Nat} {i : Instr}

theorem Threads.owner_of_submit (h : Threads P c) {w : Worker} {op : Operation} {p : Nat}
    {task : Task} (hactive : c.Active t (.submit (some w) op p task)) :
    P.workers[t]? = some w := (h.placed t _ hactive).1.symm

theorem Shutdown.not_submitting (h : Shutdown P c) {rest : List Instr} (htop : c.stack t = i :: rest)
    {t' : Nat} {j : Instr} {w : Worker} (hactive : c.Active t' j) (hj : j.waits = false)
    (howner : P.workers[t']? = some w) {op : Operation} {q : Nat} {task : Task}
    (hne : j ≠ .submit (some w) op q task) : i ≠ .submit (some w) op q task := by
  rintro rfl
  have hself := h.tasks.threads.owner_of_submit (Library.Config.active_of_top htop)
  cases Process.thread_unique hself howner
  exact hne (h.heads.eq_top htop hactive hj)

theorem Shutdown.step (h : Shutdown P c) (hstep : P.machine.Step c t i c') : Shutdown P c' := by
  have htasks := h.tasks.step hstep
  obtain ⟨rest, s, pushed, htop, heffect, rfl, -⟩ := h.tasks.threads.effect hstep
  have hactive := Library.Config.active_of_top htop
  refine ⟨htasks, h.heads.replace htop heffect.waits, ?_, ?_, ?_⟩
  · intro t' w k hj
    obtain ⟨rfl, hmem⟩ | hold := Library.Config.active_of_replace htop hj
    · obtain ⟨rfl, ⟨rfl, hclosed⟩ | ⟨k, rfl, rfl, hnil⟩⟩ := heffect.testLocal hmem
      · exact ⟨hclosed, fun hlt => absurd hlt (Nat.not_lt_zero _)⟩
      · obtain ⟨hclosed, hown⟩ := h.tested _ w k hactive
        refine ⟨hclosed, fun hlt => ?_⟩
        obtain heq | hlt := Nat.eq_or_lt_of_le (Nat.le_of_lt_succ hlt)
        · rw [Library.Config.shared_replace, heq]
          exact hnil
        · exact hown hlt
    · obtain ⟨hclosed, hown⟩ := h.tested t' w k hold
      refine ⟨heffect.closed hclosed, fun hlt => heffect.queue_nil (hown hlt) fun op q task => ?_⟩
      exact h.not_submitting htop hold rfl (h.tasks.threads.placed t' _ hold) nofun
  · intro w hexited
    obtain hexited | ⟨rfl, k, hk, rfl⟩ := heffect.exited hexited
    · obtain ⟨hclosed, hnil, hstack⟩ := h.exited w hexited
      refine ⟨heffect.closed hclosed, heffect.queue_nil hnil fun op q task => ?_,
        fun t' howner => ?_⟩
      · rintro rfl
        rw [hstack t (h.tasks.threads.owner_of_submit hactive)] at htop
        cases htop
      · rw [Library.Config.stack_replace_ne _ _ _ fun heq => ?_]
        · exact hstack t' howner
        · rw [← heq, hstack t' howner] at htop
          cases htop
    · have howner : P.workers[t]? = some w := h.tasks.threads.placed t _ hactive
      obtain ⟨hclosed, hown⟩ := h.tested t w k hactive
      have hindex := (Process.mem_workers.mp (getElem?_workers w howner)).2
      refine ⟨heffect.closed hclosed,
        heffect.queue_nil (hown (Nat.lt_of_lt_of_le hindex hk)) nofun, fun t' howner' => ?_⟩
      cases Process.thread_unique howner howner'
      rw [Library.Config.stack_replace_self htop, List.nil_append]
      exact h.tasks.threads.looping.rest_eq_nil htop rfl
  · intro p hdestroyed index hindex
    obtain hdestroyed | hexited := heffect.destroyed hdestroyed
    · exact heffect.exited_mono (h.destroyed p hdestroyed index hindex)
    · exact heffect.exited_mono (hexited index hindex)

theorem Shutdown.starting_eq_zero (h : Shutdown P c) {p : Nat}
    (hnone : ∀ t w task, P.workers[t]? = some w → w.pool = p → ¬c.Active t (.start (some w) task))
    (id : Nat) : c.total (Instr.starting (some p) id) = 0 := by
  refine Library.Config.total_eq_zero fun t j hj => ?_
  cases j with
  | start self task =>
    cases self with
    | none => rfl
    | some w =>
      have howner : P.workers[t]? = some w := (h.tasks.threads.placed t _ hj).symm
      refine if_neg fun heq => hnone t w task howner ?_ hj
      exact Option.some.inj heq.1
  | _ => rfl

theorem Pool.count_eq_zero {pool : Pool} (hglobal : pool.global = [])
    (hlocal : ∀ queue ∈ pool.localQueues, queue = []) (id : Nat) : pool.count id = 0 := by
  rw [Pool.count, Pool.weight, hglobal, Library.Config.weigh_nil, Nat.zero_add]
  refine Library.Config.weigh_eq_zero (w := Library.Config.weigh (Task.named id)) fun queue hmem => ?_
  rw [hlocal queue hmem]
  rfl

theorem Pool.Ok.local_nil {settings : Settings} {pool : Pool} (h : pool.Ok settings)
    (hnil : ∀ index < settings.workerCount, pool.queue index = []) :
    ∀ queue ∈ pool.localQueues, queue = [] := by
  intro queue hmem
  obtain ⟨index, hindex, rfl⟩ := List.mem_iff_getElem.mp hmem
  have heq := hnil index (h.localQueues ▸ hindex)
  rwa [Pool.queue, List.getD_eq_getElem?_getD, List.getElem?_eq_getElem hindex] at heq

theorem Tasks.executed_of_accepted (h : Tasks P c) {a : Submission} (ha : a ∈ c.shared.accepted)
    (hkept : c.shared.kept a.runner a.id = 0) (hstarting : c.total (Instr.starting a.runner a.id) = 0) :
    (a.runner, a.id) ∈ c.shared.executed := by
  have hgiven : 0 < c.shared.given a.runner a.id :=
    List.count_pos_iff.mpr (List.mem_map.mpr ⟨a, ha, rfl⟩)
  have htask := h.task a.runner a.id
  refine List.count_pos_iff.mp ?_
  change 0 < c.shared.done a.runner a.id
  omega

structure Drained (P : Process) (p : Nat) (c : Config) : Prop where
  global : (c.shared.pools p).global = []
  localQueues : ∀ queue ∈ (c.shared.pools p).localQueues, queue = []
  workers : ∀ t w, P.workers[t]? = some w → w.pool = p → c.stack t = []
  executed : ∀ a ∈ c.shared.accepted, a.runner = some p → (a.runner, a.id) ∈ c.shared.executed

theorem Shutdown.drained_of_exited (h : Shutdown P c) {p : Nat}
    (hexited : ∀ index < (P.settings p).workerCount, index ∈ (c.shared.pools p).exited) :
    Drained P p c := by
  have hclosed := (h.exited ⟨p, 0⟩ (hexited 0 (P.settings p).workerCount_pos)).1
  have hlocal := (h.tasks.threads.ok p).local_nil fun index hindex =>
    (h.exited ⟨p, index⟩ (hexited index hindex)).2.1
  have hstack : ∀ t w, P.workers[t]? = some w → w.pool = p → c.stack t = [] := by
    rintro t w howner rfl
    have hindex := (Process.mem_workers.mp (getElem?_workers w howner)).2
    exact (h.exited w (hexited w.index hindex)).2.2 t howner
  refine ⟨hclosed.global, hlocal, hstack, fun a ha hrunner => ?_⟩
  refine h.tasks.executed_of_accepted ha ?_ ?_
  · rw [hrunner]
    exact Pool.count_eq_zero hclosed.global hlocal a.id
  · rw [hrunner]
    refine h.starting_eq_zero (fun t w task howner hp hactive => ?_) a.id
    rw [Library.Config.Active, hstack t w howner hp] at hactive
    cases hactive

theorem Shutdown.drained (h : Shutdown P c) {p : Nat}
    (hdestroyed : (c.shared.pools p).destroyed = true) : Drained P p c :=
  h.drained_of_exited (h.destroyed p hdestroyed)

end Step

end UnixNotes.ThreadPool
