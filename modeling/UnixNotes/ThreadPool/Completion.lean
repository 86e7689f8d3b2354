import UnixNotes.Library.Inevitable
import UnixNotes.ThreadPool.Destructors
import UnixNotes.ThreadPool.Measure

namespace UnixNotes.ThreadPool

open Library

/-- A step that no caller, exception, timeout or spurious wakeup decides about. -/
def Choice.onward : Choice → Bool
  | .next | .wake _ => true
  | _ => false

def GoesOn (P : Process) (c : Config) (t : Nat) : Prop :=
  ∃ x, x.onward = true ∧ (P.machine.next c t x).isSome

section Exec

variable {P : Process} {s : Shared} {i : Instr} {t : Nat}

theorem goesOn_of_exec {c : Config} {rest : List Instr} (htop : c.stack t = i :: rest)
    (h : ∃ x, x.onward = true ∧ (Instr.exec P.count P.settings t i x c.shared).isSome) :
    GoesOn P c t := by
  obtain ⟨x, hx, hsome⟩ := h
  refine ⟨x, hx, ?_⟩
  rw [Machine.next, htop]
  exact Option.isSome_map.trans hsome

theorem exec_of_holding (hterminated : s.terminated = false) {p : Nat} (hi : i.holding p ≠ 0) :
    ∃ x, x.onward = true ∧ (Instr.exec P.count P.settings t i x s).isSome := by
  refine ⟨.next, rfl, ?_⟩
  cases i with
  | evaluate w => simp [Instr.exec, hterminated]
  | look w offset => simp [Instr.exec, hterminated]
  | park w => simp [Instr.exec, hterminated]
  | testExit w => simp [Instr.exec, hterminated]
  | testLocal w index => simp [Instr.exec, hterminated]
  | _ => exact absurd rfl hi

theorem exec_of_notify (hterminated : s.terminated = false) (p : Nat) :
    ∃ x, x.onward = true ∧ (Instr.exec P.count P.settings t (.notify p) x s).isSome := by
  cases hparked : (s.pools p).parked with
  | nil => exact ⟨.next, rfl, by simp [Instr.exec, Instr.execNotify, hterminated, hparked]⟩
  | cons index parked =>
    exact ⟨.wake index, rfl, by simp [Instr.exec, Instr.execNotify, hterminated, hparked]⟩

theorem exec_of_worker (hterminated : s.terminated = false) {w : Worker}
    (hplaced : i.Placed P.count (some w)) (hlocked : (s.pools w.pool).locked = false)
    (hparked : w.index ∉ (s.pools w.pool).parked) :
    ∃ x, x.onward = true ∧ (Instr.exec P.count P.settings t i x s).isSome := by
  cases i with
  | submit self op p task =>
    obtain ⟨rfl, -⟩ := hplaced
    exact ⟨.next, rfl, by simp [Instr.exec, hterminated]⟩
  | notify p => exact exec_of_notify hterminated p
  | start self task => exact ⟨.next, rfl, by simp [Instr.exec, hterminated]⟩
  | body self task => exact ⟨.next, rfl, by simp [Instr.exec, hterminated]⟩
  | throwing self task => exact ⟨.next, rfl, by simp [Instr.exec, hterminated]⟩
  | popOwner v => exact ⟨.next, rfl, by simp [Instr.exec, hterminated]⟩
  | popGlobal v =>
    cases hplaced
    exact ⟨.next, rfl, by simp [Instr.exec, hterminated, hlocked]⟩
  | steal v offset => exact ⟨.next, rfl, by simp [Instr.exec, hterminated]⟩
  | lockWait v =>
    cases hplaced
    exact ⟨.next, rfl, by simp [Instr.exec, hterminated, hlocked]⟩
  | evaluate v => exact ⟨.next, rfl, by simp [Instr.exec, hterminated]⟩
  | look v offset => exact ⟨.next, rfl, by simp [Instr.exec, hterminated]⟩
  | park v => exact ⟨.next, rfl, by simp [Instr.exec, hterminated]⟩
  | parked v =>
    cases hplaced
    exact ⟨.next, rfl, by simp [Instr.exec, Instr.execParked, hterminated, hlocked, hparked]⟩
  | testExit v => exact ⟨.next, rfl, by simp [Instr.exec, hterminated]⟩
  | testLocal v index => exact ⟨.next, rfl, by simp [Instr.exec, hterminated]⟩
  | _ => cases hplaced

end Exec

/-- A worker of pool `p`, or a thread that is about to wake one or to leave its destructor, can go
on. -/
def Advances (P : Process) (p : Nat) (c : Config) : Prop :=
  ∃ t, GoesOn P c t ∧ ((∃ w, P.workers[t]? = some w ∧ w.pool = p) ∨
    (c.stack t).head? ∈ [some (.notify p), some (.notifyAll p), some (.join p)])

section Run

variable {P : Process} {c : Config} {t : Nat}

theorem Shutdown.stack_of_active (h : Shutdown P c) {j : Instr} (hactive : c.Active t j)
    (hj : j.waits = false) : ∃ rest, c.stack t = j :: rest := by
  cases htop : c.stack t with
  | nil =>
    rw [Library.Config.Active, htop] at hactive
    cases hactive
  | cons i rest =>
    rw [h.heads.eq_top htop hactive hj]
    exact ⟨rest, rfl⟩

theorem Shutdown.advances_of_locked (h : Shutdown P c) (hterminated : c.shared.terminated = false)
    {p : Nat} (hlocked : (c.shared.pools p).locked = true) : Advances P p c := by
  have hholding : ∃ t j, c.Active t j ∧ j.holding p ≠ 0 := by
    by_contra hnone
    have hzero : c.total (Instr.holding p) = 0 := by
      refine Library.Config.total_eq_zero fun t j hactive => ?_
      by_contra hne
      exact hnone ⟨t, j, hactive, hne⟩
    rw [h.tasks.threads.held p, held, if_pos hlocked] at hzero
    cases hzero
  obtain ⟨t, j, hactive, hj⟩ := hholding
  have hplaced := h.tasks.threads.placed t j hactive
  have hw : j.waits = false ∧ ∃ w, P.workers[t]? = some w ∧ w.pool = p := by
    cases j with
    | evaluate w => exact ⟨rfl, w, hplaced, by simpa [Instr.holding] using hj⟩
    | look w offset => exact ⟨rfl, w, hplaced, by simpa [Instr.holding] using hj⟩
    | park w => exact ⟨rfl, w, hplaced, by simpa [Instr.holding] using hj⟩
    | testExit w => exact ⟨rfl, w, hplaced, by simpa [Instr.holding] using hj⟩
    | testLocal w index => exact ⟨rfl, w, hplaced, by simpa [Instr.holding] using hj⟩
    | _ => exact absurd rfl hj
  obtain ⟨rest, htop⟩ := h.stack_of_active hactive hw.1
  exact ⟨t, goesOn_of_exec htop (exec_of_holding hterminated hj), .inl hw.2⟩

theorem Resting.advances_of_worker (h : Resting P c) (hterminated : c.shared.terminated = false)
    {p index : Nat} (hp : p < P.count) (hindex : index < (P.settings p).workerCount)
    (hexited : index ∉ (c.shared.pools p).exited) (hparked : index ∉ (c.shared.pools p).parked) :
    Advances P p c := by
  by_cases hlocked : (c.shared.pools p).locked = true
  · exact h.shutdown.advances_of_locked hterminated hlocked
  · have hworker : ⟨p, index⟩ ∈ P.workers := Process.mem_workers.mpr ⟨hp, hindex⟩
    obtain ⟨t, howner⟩ := List.mem_iff_getElem?.mp hworker
    obtain hnot | hin | ⟨j, hactive, -⟩ := h.left t _ howner
    · rw [hnot] at hterminated
      cases hterminated
    · exact absurd hin hexited
    · cases htop : c.stack t with
      | nil =>
        rw [Library.Config.Active, htop] at hactive
        cases hactive
      | cons i rest =>
        have hplaced := h.shutdown.tasks.threads.placed t i (Library.Config.active_of_top htop)
        rw [howner] at hplaced
        refine ⟨t, goesOn_of_exec htop ?_, .inl ⟨_, howner, rfl⟩⟩
        exact exec_of_worker hterminated hplaced (Bool.not_eq_true _ ▸ hlocked) hparked

theorem Resting.advances_of_stopping (h : Resting P c) (hterminated : c.shared.terminated = false)
    {p : Nat} (hstopping : (c.shared.pools p).stopping = true)
    {index : Nat} (hparked : index ∈ (c.shared.pools p).parked) : Advances P p c := by
  obtain hnone | ⟨t, hactive⟩ := h.stopping p hstopping
  · rw [hnone] at hparked
    cases hparked
  · obtain ⟨rest, htop⟩ := h.shutdown.stack_of_active hactive rfl
    refine ⟨t, goesOn_of_exec htop ⟨.next, rfl, by simp [Instr.exec, hterminated]⟩, .inr ?_⟩
    simp [htop]

theorem Resting.advances_of_all_parked (h : Resting P c)
    (hterminated : c.shared.terminated = false) {p : Nat}
    (hall : ∀ index < (P.settings p).workerCount, index ∈ (c.shared.pools p).parked)
    {a : Submission} (ha : a ∈ c.shared.accepted) (hrunner : a.runner = some p)
    (hexecuted : (a.runner, a.id) ∉ c.shared.executed) : Advances P p c := by
  obtain hnil | ⟨t, hactive⟩ := h.waiting p hall
  · refine absurd (h.shutdown.tasks.executed_of_accepted ha ?_ ?_) hexecuted
    · rw [hrunner]
      refine Pool.count_eq_zero hnil ?_ a.id
      exact (h.shutdown.tasks.threads.ok p).local_nil fun index hindex =>
        (h.parked ⟨p, index⟩ (hall index hindex)).1
    · rw [hrunner]
      refine h.shutdown.starting_eq_zero (fun t w task howner hw hactive => ?_) a.id
      subst hw
      have hindex := (Process.mem_workers.mp (getElem?_workers w howner)).2
      exact h.not_parked hactive rfl nofun howner (hall w.index hindex)
  · obtain ⟨rest, htop⟩ := h.shutdown.stack_of_active hactive rfl
    refine ⟨t, goesOn_of_exec htop (exec_of_notify hterminated p), .inr ?_⟩
    simp [htop]

theorem Resting.advances (h : Resting P c) (hterminated : c.shared.terminated = false) {p : Nat}
    (hp : p < P.count) (hwork : (∃ a ∈ c.shared.accepted, a.runner = some p ∧
        (a.runner, a.id) ∉ c.shared.executed) ∨ ∃ t rest, c.stack t = .join p :: rest) :
    Advances P p c := by
  by_cases hfree : ∃ index < (P.settings p).workerCount,
      index ∉ (c.shared.pools p).exited ∧ index ∉ (c.shared.pools p).parked
  · obtain ⟨index, hindex, hexited, hparked⟩ := hfree
    exact h.advances_of_worker hterminated hp hindex hexited hparked
  · have hall : ∀ index < (P.settings p).workerCount,
        index ∉ (c.shared.pools p).exited → index ∈ (c.shared.pools p).parked := by
      intro index hindex hexited
      by_contra hparked
      exact hfree ⟨index, hindex, hexited, hparked⟩
    by_cases hexited : ∀ index < (P.settings p).workerCount, index ∈ (c.shared.pools p).exited
    · -- The destructor returns.
      obtain ⟨a, ha, hrunner, hexecuted⟩ | ⟨t, rest, htop⟩ := hwork
      · exact absurd ((h.shutdown.drained_of_exited hexited).executed a ha hrunner) hexecuted
      · refine ⟨t, goesOn_of_exec htop ⟨.next, rfl, ?_⟩, .inr (by simp [htop])⟩
        simp [Instr.exec, hterminated, if_pos hexited]
    · push Not at hexited
      obtain ⟨index, hindex, hexited⟩ := hexited
      by_cases hstopping : (c.shared.pools p).stopping = true
      · exact h.advances_of_stopping hterminated hstopping (hall index hindex hexited)
      · obtain ⟨a, ha, hrunner, hexecuted⟩ | ⟨t, rest, htop⟩ := hwork
        · refine h.advances_of_all_parked hterminated (fun index hindex => ?_) ha hrunner hexecuted
          exact hall index hindex fun hexited =>
            hstopping (h.shutdown.exited ⟨p, index⟩ hexited).1.stopping
        · exact absurd (h.joining t p (Library.Config.active_of_top htop)) hstopping

end Run

namespace Instr

def quiet : Instr → Bool
  | .throwing _ _ => false
  | _ => true

def caught : Instr → Bool
  | .throwing _ task => task.packaged
  | _ => true

def atHome : Instr → Bool
  | .submit (some w) _ p _ => w.pool = p
  | _ => true

end Instr

def Quiet (c : Config) : Prop := c.All fun i => i.quiet = true

def Caught (c : Config) : Prop := c.All fun i => i.caught = true

instance (c : Config) : Decidable (Quiet c) :=
  inferInstanceAs (Decidable (∀ stack ∈ c.threads, ∀ i ∈ stack, i.quiet = true))

instance (c : Config) : Decidable (Caught c) :=
  inferInstanceAs (Decidable (∀ stack ∈ c.threads, ∀ i ∈ stack, i.caught = true))

/-- What only an exception breaks, and one of a posted task does. -/
structure Keeps (q : Instr → Bool) : Prop where
  quiet : ∀ i : Instr, i.quiet = true → q i = true
  caught : ∀ i : Instr, q i = true → i.caught = true

theorem keeps_quiet : Keeps Instr.quiet := by
  refine ⟨fun _ => id, fun i hi => ?_⟩
  cases i with
  | throwing self task => cases hi
  | _ => rfl

theorem Quiet.caught {c : Config} (h : Quiet c) : Caught c :=
  fun stack hstack i hi => keeps_quiet.caught i (h stack hstack i hi)

theorem keeps_caught : Keeps Instr.caught := by
  refine ⟨fun i hi => ?_, fun _ => id⟩
  cases i with
  | throwing self task => cases hi
  | _ => rfl

def Pool.Queued (pool : Pool) (id : Nat) : Prop :=
  (∃ task ∈ pool.global, task.id = id) ∨
    ∃ queue ∈ pool.localQueues, ∃ task ∈ queue, task.id = id

instance (pool : Pool) (id : Nat) : Decidable (pool.Queued id) :=
  inferInstanceAs (Decidable ((∃ task ∈ pool.global, task.id = id) ∨
    ∃ queue ∈ pool.localQueues, ∃ task ∈ queue, task.id = id))

/-- Every task that was accepted is started once: when its pool is destroyed it was, and until then
it is in a queue of its pool or about to start, and the pool goes on. -/
structure Served (P : Process) (c : Config) : Prop where
  terminated : c.shared.terminated = false
  once : (c.shared.executed.map Prod.snd).Nodup
  accepted : ∀ entry ∈ c.shared.executed, ∃ a ∈ c.shared.accepted, (a.runner, a.id) = entry
  refused : ∀ id ∈ c.shared.refused, id ∉ c.shared.executed.map Prod.snd
  kept : ∀ a ∈ c.shared.accepted, (a.runner, a.id) ∈ c.shared.executed ∨
    (∃ p, a.runner = some p ∧ (c.shared.pools p).Queued a.id) ∨
      ∃ t self task, (c.stack t).head? = some (.start self task) ∧
        self.map Worker.pool = a.runner ∧ task.id = a.id ∧ GoesOn P c t
  advances : ∀ p < P.count, ((∃ a ∈ c.shared.accepted, a.runner = some p ∧
      (a.runner, a.id) ∉ c.shared.executed) ∨ ∃ t rest, c.stack t = .join p :: rest) →
    Advances P p c
  loops : ∀ t w, P.workers[t]? = some w → c.stack t = [] →
    (c.shared.pools w.pool).stopping = true
  drained : ∀ p, (c.shared.pools p).destroyed = true → Drained P p c

theorem Pool.queued_of_count {pool : Pool} {id : Nat} (h : pool.count id ≠ 0) : pool.Queued id := by
  by_contra hnone
  simp only [Pool.Queued, not_or, not_exists, not_and] at hnone
  have hzero : ∀ queue : List Task, (∀ task ∈ queue, ¬task.id = id) →
      Library.Config.weigh (Task.named id) queue = 0 := fun queue hqueue =>
    Library.Config.weigh_eq_zero fun task hmem => if_neg (hqueue task hmem)
  refine h ?_
  rw [Pool.count, Pool.weight, hzero _ hnone.1, Nat.zero_add]
  exact Library.Config.weigh_eq_zero (w := Library.Config.weigh (Task.named id))
    fun queue hmem => hzero queue (hnone.2 queue hmem)

section Run

variable {P : Process} {c c' : Config} {t : Nat} {i : Instr}

theorem Resting.kept (h : Resting P c) (hterminated : c.shared.terminated = false)
    {a : Submission} (ha : a ∈ c.shared.accepted)
    (hexecuted : (a.runner, a.id) ∉ c.shared.executed) :
    (∃ p, a.runner = some p ∧ (c.shared.pools p).Queued a.id) ∨
      ∃ t self task, (c.stack t).head? = some (.start self task) ∧
        self.map Worker.pool = a.runner ∧ task.id = a.id ∧ GoesOn P c t := by
  by_cases hstarting : c.total (Instr.starting a.runner a.id) = 0
  · by_cases hkept : c.shared.kept a.runner a.id = 0
    · exact absurd (h.shutdown.tasks.executed_of_accepted ha hkept hstarting) hexecuted
    · cases hrunner : a.runner with
      | none =>
        rw [hrunner] at hkept
        exact absurd rfl hkept
      | some p =>
        rw [hrunner] at hkept
        exact .inl ⟨p, rfl, Pool.queued_of_count hkept⟩
  · have hactive : ∃ t j, c.Active t j ∧ j.starting a.runner a.id ≠ 0 := by
      by_contra hnone
      refine hstarting (Library.Config.total_eq_zero fun t j hactive => ?_)
      by_contra hne
      exact hnone ⟨t, j, hactive, hne⟩
    obtain ⟨t, j, hactive, hj⟩ := hactive
    cases j with
    | start self task =>
      rw [Instr.starting, ne_eq, ite_eq_right_iff, Classical.not_imp] at hj
      obtain ⟨rest, htop⟩ := h.shutdown.stack_of_active hactive rfl
      refine .inr ⟨t, self, task, by rw [htop, List.head?_cons], hj.1.1, hj.1.2, ?_⟩
      exact goesOn_of_exec htop ⟨.next, rfl, by simp [Instr.exec, hterminated]⟩
    | _ => exact absurd rfl hj

theorem Resting.served (h : Resting P c) (hterminated : c.shared.terminated = false) :
    Served P c where
  terminated := hterminated
  once := h.shutdown.tasks.nodup_executed
  accepted := by
    intro entry hentry
    obtain ⟨a, ha, heq⟩ := List.mem_map.mp (h.shutdown.tasks.executed_subperm.subset hentry)
    exact ⟨a, ha, heq⟩
  refused := fun id hid => h.shutdown.tasks.not_executed_of_refused hid
  kept := fun a ha => or_iff_not_imp_left.mpr (h.kept hterminated ha)
  advances := fun p hp => h.advances hterminated hp
  loops := by
    intro t w howner hstack
    obtain hnot | hexited | ⟨j, hactive, -⟩ := h.left t w howner
    · rw [hnot] at hterminated
      cases hterminated
    · exact (h.shutdown.exited w hexited).1.stopping
    · rw [Library.Config.Active, hstack] at hactive
      cases hactive
  drained := fun p => h.shutdown.drained

theorem not_terminated_of_step (hthreads : Threads P c) (hcaught : Caught c)
    (hstep : P.machine.Step c t i c') : c'.shared.terminated = false := by
  obtain ⟨rest, s, pushed, htop, heffect, rfl, hterminated⟩ := hthreads.effect hstep
  cases heffect with
  | terminates self packaged =>
    rename_i task
    have htask : task.packaged = true := hcaught.of_active (Library.Config.active_of_top htop)
    rw [htask] at packaged
    cases packaged
  | _ => exact hterminated

theorem served_of_caught {users : Nat}
    (hrun : P.machine.Run (fun c _ _ => Caught c) (P.init users) c) : Served P c := by
  refine (resting_of_reaches hrun.reaches).served ?_
  have hinv : Threads P c ∧ c.shared.terminated = false := by
    refine hrun.invariant (I := fun c => Threads P c ∧ c.shared.terminated = false)
      ⟨threads_init, rfl⟩ fun h hcaught hstep => ?_
    exact ⟨h.1.step hstep, not_terminated_of_step h.1 hcaught hstep⟩
  exact hinv.2

/-- A step of the pools and of the code that they run, which ends what it has begun and submits
nothing more. -/
def Process.Goes (P : Process) (ok : Config → Prop) (c c' : Config) : Prop :=
  ∃ t x, x.own = true ∧ P.machine.next c t x = some c' ∧ ok c'

/-- All tasks that were accepted have been started, and the destructors that wait for the workers
have returned. -/
structure Finished (c : Config) : Prop where
  executed : ∀ a ∈ c.shared.accepted, (a.runner, a.id) ∈ c.shared.executed
  destroyed : ∀ t p, ¬c.Active t (.join p)

theorem Served.goesOn (h : Served P c) (hdestroying : Destroying P c) :
    Finished c ∨ ∃ t, GoesOn P c t := by
  have hadvances {p : Nat} (hp : Advances P p c) : ∃ t, GoesOn P c t := hp.imp fun _ => And.left
  by_cases hexecuted : ∀ a ∈ c.shared.accepted, (a.runner, a.id) ∈ c.shared.executed
  · by_cases hjoin : ∃ t p, c.Active t (.join p)
    · obtain ⟨t, p, hactive⟩ := hjoin
      obtain ⟨hp, htop | htop⟩ := hdestroying.joining t p hactive
      · exact .inr (hadvances (h.advances p hp (.inr ⟨t, _, htop⟩)))
      · exact .inr ⟨t, goesOn_of_exec htop ⟨.next, rfl, by simp [Instr.exec, h.terminated]⟩⟩
    · exact .inl ⟨hexecuted, fun t p hactive => hjoin ⟨t, p, hactive⟩⟩
  · push Not at hexecuted
    obtain ⟨a, ha, hnot⟩ := hexecuted
    cases hrunner : a.runner with
    | some p =>
      have hp := hdestroying.accepted a ha p hrunner
      exact .inr (hadvances (h.advances p hp (.inl ⟨a, ha, hrunner, hnot⟩)))
    | none =>
      obtain hdone | ⟨p, hsome, -⟩ | ⟨t, -, -, -, -, -, hgoes⟩ := h.kept a ha
      · exact absurd hdone hnot
      · rw [hrunner] at hsome
        cases hsome
      · exact .inr ⟨t, hgoes⟩

theorem quiet_of_onward {s s' : Shared} {x : Choice} {pushed : List Instr} (hs : s.Ok P)
    (h : Instr.exec P.count P.settings t i x s = some (s', pushed)) (hx : x.onward = true) :
    ∀ j ∈ pushed, j.quiet = true := by
  have hrunning : s.terminated = false := not_terminated_of_exec (t := t) h
  cases effect_of_exec (t := t) hs h with
  | throws self task =>
    cases self <;> cases x <;> simp [Instr.exec, hrunning, Choice.onward] at h hx
  | calls op hp code => obtain ⟨rfl, rfl⟩ | ⟨task, rfl⟩ := code <;> simp [Instr.quiet]
  | returns self task | catches self packaged => cases self <;> simp [Instr.quiet]
  | _ => simp [Instr.quiet]

theorem Keeps.next {q : Instr → Bool} (hq : Keeps q) (hthreads : Threads P c)
    (hall : c.All fun i => q i = true) {x : Choice} (hx : x.onward = true)
    (hnext : P.machine.next c t x = some c') : c'.All fun i => q i = true := by
  obtain ⟨i, rest, s, pushed, htop, hexec, rfl⟩ := Machine.exec_of_next hnext
  refine Library.Config.all_of_active fun t' j hj => ?_
  obtain ⟨rfl, hmem⟩ | hold := Library.Config.active_of_replace htop hj
  · exact hq.quiet j (quiet_of_onward (t := t') hthreads.ok hexec hx j hmem)
  · exact hall.of_active hold

/-- Whatever order the threads run in, the pools finish once nothing more is submitted, as every
step lowers what is left to do. -/
theorem Keeps.inevitable {q : Instr → Bool} (hq : Keeps q) {users : Nat}
    (hreach : P.machine.Reaches (P.init users) c) (hterminated : c.shared.terminated = false)
    (hall : c.All fun i => q i = true) :
    Inevitable (P.Goes fun c => c.All fun i => q i = true) Finished c := by
  refine .of_measure
    (I := fun c => Resting P c ∧ Destroying P c ∧ c.shared.terminated = false ∧
      c.All fun i => q i = true) (remaining P) ?_ ?_
    ⟨resting_of_reaches hreach, destroying_of_reaches hreach, hterminated, hall⟩
  · rintro c c' ⟨hresting, hdestroying, -, hall⟩ ⟨t, x, hx, hnext, hall'⟩
    have htasks := hresting.shutdown.tasks
    obtain ⟨i, -, hstep⟩ := Machine.step_of_next hnext
    have hcaught : Caught c := fun stack hstack i hi => hq.caught i (hall stack hstack i hi)
    exact ⟨⟨hresting.step hstep, hdestroying.step htasks.threads hstep,
      not_terminated_of_step htasks.threads hcaught hstep, hall'⟩, remaining_lt htasks hnext hx⟩
  · rintro c ⟨hresting, hdestroying, hterminated, hall⟩
    refine ((hresting.served hterminated).goesOn hdestroying).imp_right ?_
    rintro ⟨t, x, hx, hsome⟩
    obtain ⟨c', hnext⟩ := Option.isSome_iff_exists.mp hsome
    refine ⟨c', t, x, ?_, hnext, hq.next hresting.shutdown.tasks.threads hall hx hnext⟩
    cases x <;> first | rfl | cases hx

theorem eq_of_terminated (hterminated : c.shared.terminated = true)
    (hrun : P.machine.Reaches c c') : c' = c := by
  refine hrun.invariant (I := fun c' => c' = c) rfl ?_
  rintro _ _ t i rfl - ⟨htop, hexec⟩
  rw [not_terminated_of_exec (t := t) hexec] at hterminated
  cases hterminated

theorem Effect.runner {s s' : Shared} {pushed : List Instr} (h : Effect P s i s' pushed)
    (hhome : i.atHome = true)
    (hold : ∀ a ∈ s.accepted, a.runner = none ∨ a.runner = some a.pool) :
    ∀ a ∈ s'.accepted, a.runner = none ∨ a.runner = some a.pool := by
  intro a ha
  cases h with
  | pushes op locked stopping ok global =>
    obtain rfl | ha := List.mem_cons.mp ha
    · exact .inr rfl
    · exact hold a ha
  | pushesOwner w op p task =>
    obtain rfl | ha := List.mem_cons.mp ha
    · exact .inr (congrArg some (of_decide_eq_true hhome))
    · exact hold a ha
  | runsHere task stopping =>
    obtain rfl | ha := List.mem_cons.mp ha
    · exact .inl rfl
    · exact hold a ha
  | _ => exact hold a ha

theorem runner_of_atHome {users : Nat} {ok : Config → Nat → Instr → Prop}
    (hhome : ∀ c t i, ok c t i → i.atHome = true) (hrun : P.machine.Run ok (P.init users) c) :
    ∀ a ∈ c.shared.accepted, a.runner = none ∨ a.runner = some a.pool := by
  have hinv : Threads P c ∧
      ∀ a ∈ c.shared.accepted, a.runner = none ∨ a.runner = some a.pool := by
    refine hrun.invariant (I := fun c => Threads P c ∧
        ∀ a ∈ c.shared.accepted, a.runner = none ∨ a.runner = some a.pool)
      ⟨threads_init, fun a ha => absurd ha List.not_mem_nil⟩ fun h hok hstep => ?_
    refine ⟨h.1.step hstep, ?_⟩
    obtain ⟨rest, s, pushed, htop, heffect, rfl, -⟩ := h.1.effect hstep
    exact heffect.runner (hhome _ _ _ hok) h.2
  exact hinv.2

/-- External threads and the workers of a pool submit to it, and no task throws. Whenever they stop
submitting, every task that was accepted comes to be executed. -/
theorem accepted_tasks_executed_once {users : Nat}
    (hrun : P.machine.Run (fun c _ i => Quiet c ∧ i.atHome = true) (P.init users) c) :
    Served P c ∧ (∀ a ∈ c.shared.accepted, a.runner = none ∨ a.runner = some a.pool) ∧
      (Quiet c → Inevitable (P.Goes Quiet) Finished c) := by
  have hserved : Served P c := served_of_caught (hrun.mono fun _ _ _ hok => hok.1.caught)
  exact ⟨hserved, runner_of_atHome (fun _ _ _ hok => hok.2) hrun,
    keeps_quiet.inevitable hrun.reaches hserved.terminated⟩

def nestedMoves : List (Nat × Choice) :=
  [(2, .submit .postWait 0), (2, .next), (2, .next), (0, .next), (0, .next), (0, .next),
    (0, .submit .submit 0), (0, .next), (2, .destroy 0), (2, .next)]

def nested : Config := onePool.machine.follow (onePool.init 1) nestedMoves

theorem accepted_tasks_executed_once_nested :
    (⟨0, some 0, 1⟩ ∈ nested.shared.accepted ∧ (some 0, 1) ∉ nested.shared.executed ∧
      nested.Active 2 (.join 0)) ∧
    Served onePool nested ∧
    (∀ a ∈ nested.shared.accepted, a.runner = none ∨ a.runner = some a.pool) ∧
    Inevitable (onePool.Goes Quiet) Finished nested := by
  have hrun : onePool.machine.Run (fun c _ i => Quiet c ∧ i.atHome = true) (onePool.init 1) nested :=
    Machine.run_follow (by decide)
  obtain ⟨hserved, hrunner, hinevitable⟩ := accepted_tasks_executed_once hrun
  exact ⟨by decide, hserved, hrunner, hinevitable (by decide)⟩

end Run

end UnixNotes.ThreadPool
