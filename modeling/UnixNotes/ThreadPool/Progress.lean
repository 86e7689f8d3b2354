import UnixNotes.ThreadPool.Shutdown

namespace UnixNotes.ThreadPool

open Library

structure Pool.Idle (pool : Pool) : Prop where
  stopping : pool.stopping = false
  global : pool.global = []

section Exec

variable {P : Process} {s s' : Shared} {i : Instr} {pushed : List Instr}

theorem Effect.stopping (h : Effect P s i s' pushed) {p : Nat}
    (hstopping : (s.pools p).stopping = true) : (s'.pools p).stopping = true := by
  cases h with
  | stops locked stopping =>
    exact Shared.set_of (R := fun pool => pool.stopping = true) hstopping fun _ _ => rfl
  | _ =>
    first
      | exact hstopping
      | exact Shared.set_of (R := fun pool => pool.stopping = true) hstopping fun _ hold => hold

theorem Effect.idle (h : Effect P s i s' pushed) {p : Nat} (hlocked : (s.pools p).locked = true)
    (hidle : (s.pools p).Idle) : (s'.pools p).Idle := by
  cases h with
  | pushes op locked stopping ok global =>
    refine Shared.set_of (R := Pool.Idle) hidle fun heq _ => ?_
    rw [heq, locked] at hlocked
    cases hlocked
  | takesGlobal global ok rest_eq =>
    refine Shared.set_of (R := Pool.Idle) hidle fun _ hold => ?_
    rw [hold.global] at global
    cases global
  | stops locked stopping =>
    refine Shared.set_of (R := Pool.Idle) hidle fun heq _ => ?_
    rw [heq, locked] at hlocked
    cases hlocked
  | _ =>
    first
      | exact hidle
      | exact Shared.set_of (R := Pool.Idle) hidle fun _ hold => ⟨hold.stopping, hold.global⟩

theorem Effect.look (h : Effect P s i s' pushed) {w : Worker} {k : Nat}
    (hmem : .look w k ∈ pushed) : s' = s ∧
      (k = 0 ∧ (s.pools w.pool).Idle ∨
        ∃ k', k = k' + 1 ∧ i = .look w k' ∧ k' < (P.settings w.pool).workerCount ∧
          (s.pools w.pool).queue ((w.index + k') % (P.settings w.pool).workerCount) = []) := by
  cases h with
  | looks stopping global =>
    cases List.mem_singleton.mp hmem
    exact ⟨rfl, .inl ⟨rfl, stopping, global⟩⟩
  | looksNext hoffset queue_eq =>
    cases List.mem_singleton.mp hmem
    exact ⟨rfl, .inr ⟨_, rfl, rfl, hoffset, queue_eq⟩⟩
  | calls op hp code => obtain ⟨rfl, rfl⟩ | ⟨task, rfl⟩ := code <;> simp at hmem
  | returns self task => cases self <;> simp at hmem
  | catches self packaged => cases self <;> simp at hmem
  | _ => simp at hmem

theorem Effect.park (h : Effect P s i s' pushed) {w : Worker} (hmem : .park w ∈ pushed) :
    s' = s ∧ ∃ k, i = .look w k ∧ (P.settings w.pool).workerCount ≤ k := by
  cases h with
  | hasLooked hoffset =>
    cases List.mem_singleton.mp hmem
    exact ⟨rfl, _, rfl, hoffset⟩
  | calls op hp code => obtain ⟨rfl, rfl⟩ | ⟨task, rfl⟩ := code <;> simp at hmem
  | returns self task => cases self <;> simp at hmem
  | catches self packaged => cases self <;> simp at hmem
  | _ => simp at hmem

theorem Effect.join (h : Effect P s i s' pushed) {p : Nat} (hmem : .join p ∈ pushed) :
    (s'.pools p).stopping = true := by
  cases h with
  | stops locked stopping =>
    simp only [List.mem_cons, reduceCtorEq, List.not_mem_nil, or_false, false_or] at hmem
    cases hmem
    simp
  | calls op hp code => obtain ⟨rfl, rfl⟩ | ⟨task, rfl⟩ := code <;> simp at hmem
  | returns self task => cases self <;> simp at hmem
  | catches self packaged => cases self <;> simp at hmem
  | _ => simp at hmem

theorem Effect.parked (h : Effect P s i s' pushed) {w : Worker}
    (hparked : w.index ∈ (s'.pools w.pool).parked) :
    w.index ∈ (s.pools w.pool).parked ∨ i = .park w ∧ pushed = [.parked w] := by
  cases h with
  | parks v =>
    by_cases hw : w = v
    · subst hw
      exact .inr ⟨rfl, rfl⟩
    · refine .inl (Shared.of_set (R := fun pool => w.index ∈ pool.parked) hparked
        fun hp hold => ?_)
      refine (List.mem_cons.mp hold).resolve_left fun hindex => hw ?_
      exact congrArg₂ Worker.mk hp hindex
  | wakes parked =>
    exact .inl (Shared.of_set (R := fun pool => w.index ∈ pool.parked) hparked
      fun _ hold => List.mem_of_mem_erase hold)
  | wakesUp parked =>
    exact .inl (Shared.of_set (R := fun pool => w.index ∈ pool.parked) hparked
      fun _ hold => List.mem_of_mem_erase hold)
  | wakesAll p =>
    exact .inl (Shared.of_set (R := fun pool => w.index ∈ pool.parked) hparked
      fun _ hold => absurd hold List.not_mem_nil)
  | _ =>
    first
      | exact .inl hparked
      | exact .inl (Shared.of_set (R := fun pool => w.index ∈ pool.parked) hparked
          fun _ hold => hold)

theorem Effect.nodup_parked (h : Effect P s i s' pushed) {p : Nat}
    (hnodup : (s.pools p).parked.Nodup)
    (hpark : ∀ w, i = .park w → w.index ∉ (s.pools w.pool).parked) :
    (s'.pools p).parked.Nodup := by
  cases h with
  | parks w =>
    exact Shared.set_of (R := fun pool => pool.parked.Nodup) hnodup
      fun _ hold => List.nodup_cons.mpr ⟨hpark w rfl, hold⟩
  | wakes parked =>
    exact Shared.set_of (R := fun pool => pool.parked.Nodup) hnodup
      fun _ hold => hold.erase _
  | wakesUp parked =>
    exact Shared.set_of (R := fun pool => pool.parked.Nodup) hnodup
      fun _ hold => hold.erase _
  | wakesAll p =>
    exact Shared.set_of (R := fun pool => pool.parked.Nodup) hnodup fun _ _ => List.nodup_nil
  | _ =>
    first
      | exact hnodup
      | exact Shared.set_of (R := fun pool => pool.parked.Nodup) hnodup fun _ hold => hold

theorem Effect.global_nil (h : Effect P s i s' pushed) {p : Nat} (hnil : (s.pools p).global = []) :
    (s'.pools p).global = [] ∨ .notify p ∈ pushed := by
  cases h with
  | pushes op locked stopping ok global =>
    rename_i q task tasks
    by_cases hp : p = q
    · subst hp
      exact .inr (List.mem_singleton.mpr rfl)
    · exact .inl (Shared.set_of (R := fun pool => pool.global = []) hnil
        fun heq => absurd heq hp)
  | takesGlobal global ok rest_eq =>
    refine .inl (Shared.set_of (R := fun pool => pool.global = []) hnil fun _ hold => ?_)
    rw [hold] at global
    cases global
  | _ =>
    first
      | exact .inl hnil
      | exact .inl (Shared.set_of (R := fun pool => pool.global = []) hnil fun _ hold => hold)

theorem Effect.leaves (h : Effect P s i s' pushed) (hi : i.looping = true) :
    (∃ j ∈ pushed, j.looping = true) ∨ s'.terminated = true ∨
      ∃ w k, i = .testLocal w k ∧ w.index ∈ (s'.pools w.pool).exited := by
  have hany : (pushed.any Instr.looping) = true → ∃ j ∈ pushed, j.looping = true :=
    List.any_eq_true.mp
  cases h with
  | calls op hp code =>
    obtain ⟨rfl, rfl⟩ | ⟨task, rfl⟩ := code
    · cases hi
    · exact .inl ⟨_, List.mem_cons_of_mem _ (List.mem_singleton.mpr rfl), hi⟩
  | returns self task =>
    cases self with
    | none => cases hi
    | some w => exact .inl (hany rfl)
  | catches self packaged =>
    cases self with
    | none => cases hi
    | some w => exact .inl (hany rfl)
  | starts self task => exact .inl ⟨_, List.mem_singleton.mpr rfl, hi⟩
  | throws self task => exact .inl ⟨_, List.mem_singleton.mpr rfl, hi⟩
  | terminates self packaged => exact .inr (.inl rfl)
  | exits hindex =>
    refine .inr (.inr ⟨_, _, rfl, ?_⟩)
    rw [Shared.pools_set, if_pos rfl]
    exact List.mem_cons_self ..
  | _ =>
    first
      | exact .inl (hany rfl)
      | cases hi

end Exec

/-- A worker that waits on `not_empty` has seen its queue and the global queue empty. -/
structure Resting (P : Process) (c : Config) : Prop where
  shutdown : Shutdown P c
  left : ∀ t w, P.workers[t]? = some w → c.shared.terminated = true ∨
    w.index ∈ (c.shared.pools w.pool).exited ∨ ∃ j, c.Active t j ∧ j.looping = true
  looking : ∀ t w k, c.Active t (.look w k) →
    (c.shared.pools w.pool).Idle ∧ (0 < k → (c.shared.pools w.pool).queue w.index = [])
  parking : ∀ t w, c.Active t (.park w) →
    (c.shared.pools w.pool).Idle ∧ (c.shared.pools w.pool).queue w.index = []
  parked : ∀ w, w.index ∈ (c.shared.pools w.pool).parked →
    (c.shared.pools w.pool).queue w.index = [] ∧
      ∃ t, P.workers[t]? = some w ∧ c.Active t (.parked w)
  nodup : ∀ p, (c.shared.pools p).parked.Nodup
  stopping : ∀ p, (c.shared.pools p).stopping = true →
    (c.shared.pools p).parked = [] ∨ ∃ t, c.Active t (.notifyAll p)
  waiting : ∀ p, (∀ index < (P.settings p).workerCount, index ∈ (c.shared.pools p).parked) →
    (c.shared.pools p).global = [] ∨ ∃ t, c.Active t (.notify p)
  joining : ∀ t p, c.Active t (.join p) → (c.shared.pools p).stopping = true

theorem resting_init {P : Process} {users : Nat} : Resting P (P.init users) := by
  have hnone : ∀ {t j}, (P.init users).Active t j → j = .user ∨ ∃ w, j = .popOwner w := by
    intro t j hactive
    obtain ⟨w, -, rfl⟩ | ⟨-, rfl⟩ := init_active hactive
    · exact .inr ⟨w, rfl⟩
    · exact .inl rfl
  refine ⟨shutdown_init, ?_, ?_, ?_, ?_, ?_, ?_, ?_, ?_⟩
  · intro t w howner
    refine .inr (.inr ⟨.popOwner w, ?_, rfl⟩)
    obtain ⟨ht, -⟩ := List.getElem?_eq_some_iff.mp howner
    have hget : ((P.workers.map fun w => [Instr.popOwner w]) ++
        List.replicate users [Instr.user])[t]? = some [.popOwner w] := by
      rw [List.getElem?_append_left (by rwa [List.length_map]), List.getElem?_map, howner]
      rfl
    rw [Library.Config.Active, Library.Config.stack, List.getD_eq_getElem?_getD, Process.init, hget]
    exact List.mem_singleton.mpr rfl
  · intro t w k hactive
    obtain heq | ⟨_, heq⟩ := hnone hactive <;> cases heq
  · intro t w hactive
    obtain heq | ⟨_, heq⟩ := hnone hactive <;> cases heq
  · exact fun w hparked => absurd hparked List.not_mem_nil
  · exact fun p => List.nodup_nil
  · exact fun p _ => .inl rfl
  · exact fun p hall => absurd (hall 0 (P.settings p).workerCount_pos) List.not_mem_nil
  · intro t p hactive
    obtain heq | ⟨_, heq⟩ := hnone hactive <;> cases heq

section Step

variable {P : Process} {c c' : Config} {t : Nat} {i : Instr} {rest : List Instr} {s : Shared}
  {pushed : List Instr}

theorem Threads.locked_of_holding (h : Threads P c) {j : Instr} {p : Nat} (hactive : c.Active t j)
    (hj : j.holding p = 1) : (c.shared.pools p).locked = true := by
  have hle := Library.Config.le_total (w := Instr.holding p) hactive
  rw [h.held p, ThreadPool.held, hj] at hle
  split at hle
  · assumption
  · cases hle

theorem Resting.left_step (h : Resting P c) (htop : c.stack t = i :: rest)
    (heffect : Effect P c.shared i s pushed) (hterminated : c.shared.terminated = false) {t' : Nat}
    {w : Worker} (howner : P.workers[t']? = some w) : s.terminated = true ∨
      w.index ∈ (s.pools w.pool).exited ∨
        ∃ j, (c.replace t s (pushed ++ rest)).Active t' j ∧ j.looping = true := by
  obtain hnot | hexited | ⟨j, hactive, hlooping⟩ := h.left t' w howner
  · rw [hnot] at hterminated
    cases hterminated
  · exact .inr (.inl (heffect.exited_mono hexited))
  · obtain ⟨rfl, rfl⟩ | hkept := Library.Config.active_replace htop s pushed hactive
    · obtain ⟨j', hmem, hj'⟩ | hend | ⟨v, k, rfl, hexited⟩ := heffect.leaves hlooping
      · exact .inr (.inr ⟨j', Library.Config.active_replace_of_pushed htop s hmem, hj'⟩)
      · exact .inl hend
      · have hv : P.workers[t']? = some v := h.shutdown.tasks.threads.placed t' _ hactive
        cases howner.symm.trans hv
        exact .inr (.inl hexited)
    · exact .inr (.inr ⟨j, hkept, hlooping⟩)

theorem Resting.looking_step (h : Resting P c) (htop : c.stack t = i :: rest)
    (heffect : Effect P c.shared i s pushed) {t' : Nat} {w : Worker} {k : Nat}
    (hactive : (c.replace t s (pushed ++ rest)).Active t' (.look w k)) :
    (s.pools w.pool).Idle ∧ (0 < k → (s.pools w.pool).queue w.index = []) := by
  have hthreads := h.shutdown.tasks.threads
  obtain ⟨rfl, hmem⟩ | hold := Library.Config.active_of_replace htop hactive
  · obtain ⟨rfl, ⟨rfl, hidle⟩ | ⟨k, rfl, rfl, hk, hnil⟩⟩ := heffect.look hmem
    · exact ⟨hidle, fun hlt => absurd hlt (Nat.lt_irrefl 0)⟩
    · have htop' := Library.Config.active_of_top htop
      obtain ⟨hidle, hown⟩ := h.looking _ w k htop'
      refine ⟨hidle, fun _ => ?_⟩
      cases k with
      | zero =>
        have hindex := (Process.mem_workers.mp
          (getElem?_workers w (hthreads.placed _ _ htop'))).2
        rwa [Nat.add_zero, Nat.mod_eq_of_lt hindex] at hnil
      | succ k => exact hown (Nat.succ_pos k)
  · obtain ⟨hidle, hown⟩ := h.looking t' w k hold
    refine ⟨heffect.idle (hthreads.locked_of_holding hold (if_pos rfl)) hidle, fun hk => ?_⟩
    refine heffect.queue_nil (hown hk) fun op q task => ?_
    exact h.shutdown.not_submitting htop hold rfl (hthreads.placed t' _ hold) nofun

theorem Resting.parking_step (h : Resting P c) (htop : c.stack t = i :: rest)
    (heffect : Effect P c.shared i s pushed) {t' : Nat} {w : Worker}
    (hactive : (c.replace t s (pushed ++ rest)).Active t' (.park w)) :
    (s.pools w.pool).Idle ∧ (s.pools w.pool).queue w.index = [] := by
  have hthreads := h.shutdown.tasks.threads
  obtain ⟨rfl, hmem⟩ | hold := Library.Config.active_of_replace htop hactive
  · obtain ⟨rfl, k, rfl, hk⟩ := heffect.park hmem
    obtain ⟨hidle, hown⟩ := h.looking _ w k (Library.Config.active_of_top htop)
    exact ⟨hidle, hown (Nat.lt_of_lt_of_le (P.settings w.pool).workerCount_pos hk)⟩
  · obtain ⟨hidle, hown⟩ := h.parking t' w hold
    refine ⟨heffect.idle (hthreads.locked_of_holding hold (if_pos rfl)) hidle, ?_⟩
    refine heffect.queue_nil hown fun op q task => ?_
    exact h.shutdown.not_submitting htop hold rfl (hthreads.placed t' _ hold) nofun

theorem Resting.not_parked (h : Resting P c) {j : Instr} {w : Worker} (hactive : c.Active t j)
    (hj : j.waits = false) (hne : j ≠ .parked w) (howner : P.workers[t]? = some w) :
    w.index ∉ (c.shared.pools w.pool).parked := by
  intro hparked
  obtain ⟨-, t', howner', hactive'⟩ := h.parked w hparked
  cases Process.thread_unique howner howner'
  cases htop : c.stack t with
  | nil =>
    rw [Library.Config.Active, htop] at hactive
    cases hactive
  | cons i rest =>
    have heq := h.shutdown.heads.eq_top htop hactive hj
    exact hne (heq.trans (h.shutdown.heads.eq_top htop hactive' rfl).symm)

theorem Resting.parked_step (h : Resting P c) (htop : c.stack t = i :: rest)
    (heffect : Effect P c.shared i s pushed) {w : Worker}
    (hparked : w.index ∈ (s.pools w.pool).parked) :
    (s.pools w.pool).queue w.index = [] ∧
      ∃ t', P.workers[t']? = some w ∧
        (c.replace t s (pushed ++ rest)).Active t' (.parked w) := by
  have hthreads := h.shutdown.tasks.threads
  have htop' := Library.Config.active_of_top htop
  obtain hold | ⟨rfl, rfl⟩ := heffect.parked hparked
  · obtain ⟨hnil, t', howner, hactive⟩ := h.parked w hold
    refine ⟨heffect.queue_nil hnil fun op q task => ?_, t', howner, ?_⟩
    · exact h.shutdown.not_submitting htop hactive rfl howner nofun
    · obtain ⟨rfl, rfl⟩ | hkept := Library.Config.active_replace htop s pushed hactive
      · cases heffect with
        | resumes locked parked => exact absurd hold parked
        | wakesUp parked =>
          rw [Shared.pools_set, if_pos rfl] at hparked
          exact absurd hparked (h.nodup w.pool).not_mem_erase
        | calls op hp code => obtain ⟨heq, -⟩ | ⟨_, heq⟩ := code <;> cases heq
      · exact hkept
  · refine ⟨heffect.queue_nil (h.parking t w htop').2 nofun, t, hthreads.placed t _ htop', ?_⟩
    exact Library.Config.active_replace_of_pushed htop s (List.mem_singleton.mpr rfl)

theorem Resting.stopping_step (h : Resting P c) (htop : c.stack t = i :: rest)
    (heffect : Effect P c.shared i s pushed) {p : Nat} (hstopping : (s.pools p).stopping = true) :
    (s.pools p).parked = [] ∨ ∃ t', (c.replace t s (pushed ++ rest)).Active t' (.notifyAll p) := by
  have hold : (c.shared.pools p).stopping = true ∨ .notifyAll p ∈ pushed := by
    cases heffect with
    | stops locked stopping =>
      rename_i q
      by_cases hp : p = q
      · subst hp
        exact .inr (List.mem_cons_self ..)
      · exact .inl (Shared.of_set (R := fun pool => pool.stopping = true) hstopping
          fun heq => absurd heq hp)
    | _ =>
      first
        | exact .inl hstopping
        | exact .inl (Shared.of_set (R := fun pool => pool.stopping = true) hstopping
            fun _ hold => hold)
  obtain hold | hmem := hold
  · by_cases hi : i = .notifyAll p
    · subst hi
      cases heffect with
      | wakesAll p =>
        rw [Shared.pools_set, if_pos rfl]
        exact .inl rfl
      | calls op hp code => obtain ⟨heq, -⟩ | ⟨_, heq⟩ := code <;> cases heq
    · obtain hnone | ⟨t', hactive⟩ := h.stopping p hold
      · refine .inl (List.eq_nil_iff_forall_not_mem.mpr fun index hparked => ?_)
        obtain hparked | ⟨rfl, -⟩ := heffect.parked (w := ⟨p, index⟩) hparked
        · rw [hnone] at hparked
          cases hparked
        · rw [(h.parking t _ (Library.Config.active_of_top htop)).1.stopping] at hold
          cases hold
      · exact .inr ⟨t', Library.Config.active_replace_of_ne htop s pushed hactive (Ne.symm hi)⟩
  · exact .inr ⟨t, Library.Config.active_replace_of_pushed htop s hmem⟩

theorem Resting.waiting_step (h : Resting P c) (htop : c.stack t = i :: rest)
    (heffect : Effect P c.shared i s pushed) {p : Nat}
    (hall : ∀ index < (P.settings p).workerCount, index ∈ (s.pools p).parked) :
    (s.pools p).global = [] ∨ ∃ t', (c.replace t s (pushed ++ rest)).Active t' (.notify p) := by
  have hkept : (c.shared.pools p).global = [] →
      (s.pools p).global = [] ∨ ∃ t', (c.replace t s (pushed ++ rest)).Active t' (.notify p) :=
    fun hnil => (heffect.global_nil hnil).imp_right fun hmem =>
      ⟨t, Library.Config.active_replace_of_pushed htop s hmem⟩
  by_cases hpark : ∃ index, i = .park ⟨p, index⟩
  · obtain ⟨index, rfl⟩ := hpark
    exact hkept (h.parking t _ (Library.Config.active_of_top htop)).1.global
  · have hold : ∀ index < (P.settings p).workerCount, index ∈ (c.shared.pools p).parked := by
      intro index hindex
      refine (heffect.parked (w := ⟨p, index⟩) (hall index hindex)).resolve_right fun heq => ?_
      exact hpark ⟨index, heq.1⟩
    obtain hnil | ⟨t', hactive⟩ := h.waiting p hold
    · exact hkept hnil
    · by_cases hi : i = .notify p
      · subst hi
        cases heffect with
        | wakes parked =>
          rename_i index
          obtain ⟨-, t'', howner, -⟩ := h.parked ⟨p, index⟩ parked
          have hindex := (Process.mem_workers.mp (getElem?_workers _ howner)).2
          have hparked := hall index hindex
          rw [Shared.pools_set, if_pos rfl] at hparked
          exact absurd hparked (h.nodup p).not_mem_erase
        | wakesNobody parked =>
          have hparked := hall 0 (P.settings p).workerCount_pos
          rw [parked] at hparked
          cases hparked
        | calls op hp code => obtain ⟨heq, -⟩ | ⟨_, heq⟩ := code <;> cases heq
      · exact .inr ⟨t', Library.Config.active_replace_of_ne htop s pushed hactive (Ne.symm hi)⟩

theorem Resting.step (h : Resting P c) (hstep : P.machine.Step c t i c') : Resting P c' := by
  have hshutdown := h.shutdown.step hstep
  obtain ⟨rest, s, pushed, htop, heffect, rfl, hterminated⟩ :=
    h.shutdown.tasks.threads.effect hstep
  have htop' := Library.Config.active_of_top htop
  refine ⟨hshutdown, fun _ _ => h.left_step htop heffect hterminated,
    fun _ _ _ => h.looking_step htop heffect, fun _ _ => h.parking_step htop heffect,
    fun _ => h.parked_step htop heffect, fun p => ?_, fun _ => h.stopping_step htop heffect,
    fun _ => h.waiting_step htop heffect, fun t' p hactive => ?_⟩
  · refine heffect.nodup_parked (h.nodup p) ?_
    rintro w rfl
    exact h.not_parked htop' rfl nofun (h.shutdown.tasks.threads.placed t _ htop')
  · obtain ⟨rfl, hmem⟩ | hold := Library.Config.active_of_replace htop hactive
    · exact heffect.join hmem
    · exact heffect.stopping (h.joining t' p hold)

theorem resting_of_reaches {users : Nat} (hrun : P.machine.Reaches (P.init users) c) :
    Resting P c :=
  hrun.invariant resting_init fun h _ hstep => h.step hstep

end Step

end UnixNotes.ThreadPool
