import UnixNotes.Logger.Drain

namespace UnixNotes.Logger.AsyncLogger

open Library

def Condition.over : Condition → State → Bool
  | .data, _ => false
  | .space, state => state != .running
  | .flush, state => state = .stopped || state = .failed

def NotifyAhead (c : Config) (condition : Condition) : Prop :=
  ∃ t, c.Active t (.notifyAll condition)

instance (c : Config) (condition : Condition) : Decidable (NotifyAhead c condition) :=
  inferInstanceAs (Decidable (∃ t, c.Active t (.notifyAll condition)))

namespace Instr

def announces : Condition → Instr → Bool
  | .space, .storeStopping => true
  | .flush, .closeOutput => true
  | .flush, .stopFailed => true
  | .flush, .storeStopped => true
  | _, _ => false

def notifiesAll (condition : Condition) (i : Instr) : Bool := i = .notifyAll condition

end Instr

section Exec

variable {t : Nat} {i : Instr} {x : Choice} {s s' : Shared} {pushed : List Instr}

theorem announced_of_exec (hcreated : s.state ≠ .created) (h : i.exec t x s = some (s', pushed))
    (condition : Condition) : i.announces condition = true ∨
      Config.followed (Instr.announces condition) (Instr.notifiesAll condition) pushed = true := by
  by_cases hstop : i.part = .stop
  · rw [exec_of_stop hstop] at h
    cases i with
    | stopState =>
      cases hstate : s.state with
      | created => exact absurd hstate hcreated
      | _ =>
        simp only [Instr.execStop, hstate] at h
        cases h
        cases condition <;> exact .inr rfl
    | stopFailed =>
      cases condition with
      | flush => exact .inl rfl
      | _ =>
        simp only [Instr.execStop] at h
        split at h <;> cases h <;> exact .inr rfl
    | _ =>
      simp only [Instr.execStop] at h
      (repeat' split at h) <;> cases h <;> cases condition <;> exact .inr rfl
  · refine .inr (Config.followed_of_forall fun j hj => ?_)
    by_cases hj' : j.part = .stop
    · rw [stop_of_exec hstop h j hj hj']
      cases condition <;> rfl
    · cases j <;> first | exact absurd rfl hj' | (cases condition <;> rfl)

theorem sync_of_exec (hsync : i.part ≠ .sync) (h : i.exec t x s = some (s', pushed))
    {condition : Condition} (hcondition : condition ≠ .data) :
    s'.waiting condition = s.waiting condition ∧
      s'.owner condition.mutex = s.owner condition.mutex := by
  have hmutex : condition.mutex ≠ .wake := by
    cases condition with
    | data => exact absurd rfl hcondition
    | _ => nofun
  unfold Instr.exec at h
  split at h
  · split at h <;> cases h <;> exact ⟨rfl, rfl⟩
  · cases i
    all_goals
      simp only [Instr.execLog] at h
      (repeat' split at h) <;> cases h <;> exact ⟨rfl, rfl⟩
  · cases i
    all_goals
      simp only [Instr.execFlush] at h
      (repeat' split at h) <;> cases h <;> exact ⟨rfl, rfl⟩
  · cases i
    all_goals
      simp only [Instr.execStop] at h
      (repeat' split at h) <;> cases h <;> exact ⟨rfl, rfl⟩
  · contradiction
  · cases i with
    | appendRecord record =>
      cases x with
      | append outcome =>
        cases h
        cases outcome <;> exact ⟨rfl, rfl⟩
      | _ => cases h
    | parkTimed =>
      cases h
      exact ⟨Function.update_of_ne hcondition _ _, Function.update_of_ne hmutex _ _⟩
    | parkedTimed =>
      simp only [Instr.execWorker] at h
      (repeat' split at h) <;> cases h <;>
        first
          | exact ⟨rfl, rfl⟩
          | exact ⟨Function.update_of_ne hcondition _ _, rfl⟩
    | _ =>
      simp only [Instr.execWorker] at h
      (repeat' split at h) <;> cases h <;> exact ⟨rfl, rfl⟩

theorem waiting_cases (h : i.exec t x s = some (s', pushed)) {condition : Condition}
    (hcondition : condition ≠ .data) :
    s'.waiting condition = s.waiting condition ∨
    (i = .notifyAll condition ∧ s'.waiting condition = []) ∨
    (i = .park condition ∧ s'.waiting condition = t :: s.waiting condition) ∨
    (i = .parked condition ∧ s'.waiting condition = (s.waiting condition).erase t) ∨
    (i = .notifyOne condition ∧
      ∃ k ∈ s.waiting condition, s'.waiting condition = (s.waiting condition).erase k) := by
  by_cases hsync : i.part = .sync
  · rw [exec_of_sync hsync] at h
    have hupdate : ∀ {other : Condition} {waiting : List Nat}, condition ≠ other →
        Function.update s.waiting other waiting condition = s.waiting condition :=
      fun hne => Function.update_of_ne hne _ _
    cases i with
    | lock mutex =>
      simp only [Instr.execSync] at h
      split at h <;> cases h
      exact .inl rfl
    | unlock mutex =>
      cases h
      exact .inl rfl
    | notifyOne other =>
      simp only [Instr.execSync] at h
      split at h
      · cases h
        exact .inl rfl
      · rename_i k _
        split at h <;> cases h
        by_cases heq : condition = other
        · subst heq
          exact .inr (.inr (.inr (.inr ⟨rfl, k, ‹_›, Function.update_self ..⟩)))
        · exact .inl (hupdate heq)
      · cases h
    | notifyAll other =>
      cases h
      by_cases heq : condition = other
      · subst heq
        exact .inr (.inl ⟨rfl, Function.update_self ..⟩)
      · exact .inl (hupdate heq)
    | park other =>
      cases h
      by_cases heq : condition = other
      · subst heq
        exact .inr (.inr (.inl ⟨rfl, Function.update_self ..⟩))
      · exact .inl (hupdate heq)
    | parked other =>
      simp only [Instr.execSync] at h
      split at h
      · cases h
        exact .inl rfl
      · split at h <;> cases h
        by_cases heq : condition = other
        · subst heq
          exact .inr (.inr (.inr (.inl ⟨rfl, Function.update_self ..⟩)))
        · exact .inl (hupdate heq)
    | _ => cases hsync
  · exact .inl (sync_of_exec hsync h hcondition).1

end Exec

structure Announced (c : Config) : Prop where
  followed : ∀ condition, c.Followed (Instr.announces condition) (Instr.notifiesAll condition)

theorem announced_init {config : LoggerConfig} {n : Nat} : Announced (init config n) := by
  refine ⟨fun condition t => ?_⟩
  cases htop : (init config n).stack t with
  | nil => rfl
  | cons i rest =>
    obtain ⟨rfl, ⟨-, rfl⟩ | ⟨-, rfl⟩⟩ := init_stack htop <;> cases condition <;> rfl

theorem Announced.step {c c' : Config} {t : Nat} {i : Instr} (h : Announced c)
    (hwriting : Writing c) (hstep : machine.Step c t i c') : Announced c' := by
  obtain @⟨rest, x, s, pushed, htop, hexec⟩ := hstep
  exact ⟨fun condition =>
    (h.followed condition).replace htop (announced_of_exec hwriting.created hexec condition)⟩

theorem NotifyAhead.step {c c' : Config} {t : Nat} {i : Instr} {condition : Condition}
    (h : NotifyAhead c condition) (hstep : machine.Step c t i c') :
    NotifyAhead c' condition ∨ i = .notifyAll condition := by
  obtain @⟨rest, x, s, pushed, htop, hexec⟩ := hstep
  obtain ⟨t', hactive⟩ := h
  obtain ⟨-, heq⟩ | hactive := Library.Config.active_replace htop s pushed hactive
  · exact .inr heq.symm
  · exact .inl ⟨t', hactive⟩

/-- When nobody is to wait any more, the last `notify_all` is still to be made or nobody waits. -/
def Woken (c : Config) : Prop :=
  ∀ condition, condition.over c.shared.state = true →
    NotifyAhead c condition ∨ c.shared.waiting condition = []

/-- Whoever waits after the state has changed does so before the last `notify_all`. -/
def ParksInTime (c : Config) (_ : Nat) (i : Instr) : Prop :=
  ∀ condition, i = .park condition → condition.over c.shared.state = true →
    NotifyAhead c condition

theorem ahead_of_over {c c' : Config} {t : Nat} {i : Instr} (hannounced : Announced c)
    (hwriting : Writing c) (hleaving : Leaving c) (hstep : machine.Step c t i c')
    {condition : Condition} (hover : condition.over c'.shared.state = true)
    (hbefore : condition.over c.shared.state = false) : NotifyAhead c' condition := by
  obtain @⟨rest, x, s, pushed, htop, hexec⟩ := hstep
  have hfollowed : i.announces condition = true →
      NotifyAhead (c.replace t s (pushed ++ rest)) condition := by
    intro hi
    obtain ⟨j, hj, hnotifies⟩ :=
      List.any_eq_true.mp ((hannounced.followed condition).any_of_top htop hi)
    obtain rfl : j = .notifyAll condition := of_decide_eq_true hnotifies
    refine ⟨t, ?_⟩
    rw [Library.Config.Active, Library.Config.stack_replace_self htop]
    exact List.mem_append_right pushed hj
  rw [Library.Config.shared_replace] at hover
  obtain heq | ⟨rfl, heq⟩ | ⟨rfl, heq⟩ | ⟨rfl, heq⟩ := state_cases hexec <;> rw [heq] at hover
  · rw [hbefore] at hover
    cases hover
  · cases condition with
    | space => exact hfollowed rfl
    | _ => cases hover
  · cases condition with
    | data => cases hover
    | flush => exact hfollowed rfl
    | space =>
      have hfinished := hwriting.stop t _ (Library.Config.active_of_top htop) rfl
      exact absurd (bne_eq_false_iff_eq.mp hbefore) (hleaving.finished hfinished)
  · cases hexec
    refine ⟨t, Library.Config.active_replace_of_pushed htop _ ?_⟩
    cases condition with
    | data => cases hover
    | _ => simp

theorem Woken.step {c c' : Config} {t : Nat} {i : Instr} (h : Woken c) (hannounced : Announced c)
    (hwriting : Writing c) (hleaving : Leaving c) (hok : ParksInTime c t i)
    (hstep : machine.Step c t i c') : Woken c' := by
  intro condition hover
  cases hbefore : condition.over c.shared.state with
  | false => exact .inl (ahead_of_over hannounced hwriting hleaving hstep hover hbefore)
  | true =>
    have hdata : condition ≠ .data := by
      rintro rfl
      cases hover
    have hexec := hstep
    obtain @⟨rest, x, s, pushed, htop, hexec⟩ := hexec
    have hwaiting := waiting_cases hexec hdata
    obtain hahead | hnobody := h condition hbefore
    · obtain hahead | rfl := hahead.step hstep
      · exact .inl hahead
      · cases hexec
        exact .inr (Function.update_self ..)
    · rw [hnobody] at hwaiting
      obtain heq | ⟨-, heq⟩ | ⟨rfl, -⟩ | ⟨-, heq⟩ | ⟨-, k, hk, -⟩ := hwaiting
      · exact .inr heq
      · exact .inr heq
      · exact .inl (((hok condition rfl hbefore).step hstep).resolve_right nofun)
      · exact .inr heq
      · cases hk

structure Waking (c : Config) : Prop where
  shape : Shape c
  writing : Writing c
  leaving : Leaving c
  announced : Announced c
  woken : Woken c

theorem waking_init {config : LoggerConfig} {n : Nat} : Waking (init config n) :=
  ⟨shape_init, writing_init, leaving_init, announced_init, fun condition h => by
    cases condition <;> cases h⟩

theorem Waking.step {c c' : Config} {t : Nat} {i : Instr} (h : Waking c) (hok : ParksInTime c t i)
    (hstep : machine.Step c t i c') : Waking c' :=
  ⟨h.shape.step hstep, h.writing.step h.shape hstep, h.leaving.step h.writing hstep,
    h.announced.step h.writing hstep,
    h.woken.step h.announced h.writing h.leaving hok hstep⟩

/-- The worker and every `stop` have made their notifications to those who wait. -/
def Notified (c : Config) : Prop := ¬NotifyAhead c .space ∧ ¬NotifyAhead c .flush

theorem nobody_waits {config : LoggerConfig} {n : Nat} {c : Config}
    (hrun : machine.Run ParksInTime (init config n) c)
    (hstate : c.shared.state = .stopped ∨ c.shared.state = .failed) (hnotified : Notified c) :
    c.shared.waiting .space = [] ∧ c.shared.waiting .flush = [] := by
  have h : Waking c := hrun.invariant waking_init fun h hok hstep => h.step hok hstep
  obtain ⟨hspace, hflush⟩ := hnotified
  obtain hstate | hstate := hstate <;>
    exact ⟨(h.woken .space (by rw [hstate]; rfl)).resolve_left hspace,
      (h.woken .flush (by rw [hstate]; rfl)).resolve_left hflush⟩

instance (c : Config) (t : Nat) (i : Instr) : Decidable (ParksInTime c t i) :=
  decidable_of_iff (∀ condition ∈ [Condition.data, .space, .flush], i = .park condition →
      condition.over c.shared.state = true → NotifyAhead c condition) <| by
    refine ⟨fun h condition => h condition ?_, fun h condition _ => h condition⟩
    cases condition <;> simp

def flushCalled : List (Nat × Choice) :=
  (1, .log oneCall) :: turns 1 4 ++ (1, .record 0 0) :: turns 1 14 ++ (1, .flush) :: turns 1 14 ++
    turns 0 11 ++ [(0, Choice.append .buffered)]

theorem nobody_waits_for_flush : (machine.follow (init { maxQueueSize := 2 } 1)
      (flushCalled ++ turns 1 1 ++ turns 0 6 ++ (0, .fails) :: turns 0 8)).shared.waiting .space = [] ∧
    (machine.follow (init { maxQueueSize := 2 } 1)
      (flushCalled ++ turns 1 1 ++ turns 0 6 ++ (0, .fails) :: turns 0 8)).shared.waiting .flush =
        [] :=
  nobody_waits
    (Machine.run_follow (c := init { maxQueueSize := 2 } 1) (by decide +kernel))
    (by decide +kernel) ⟨by decide +kernel, by decide +kernel⟩

/-- The worker fails and makes its notifications after the caller has found the state `running` and
before it waits. -/
theorem flush_waits_for_nobody : ∃ c, machine.Reaches (init { maxQueueSize := 2 } 1) c ∧
    c.shared.state = .failed ∧ c.shared.workerFinished = true ∧ Notified c ∧
    (∀ t i, c.Active t i → i.part ≠ .stop) ∧ c.shared.waiting .flush = [1] :=
  ⟨machine.follow (init { maxQueueSize := 2 } 1)
      (flushCalled ++ turns 0 6 ++ (0, .fails) :: turns 0 8 ++ turns 1 1),
    Machine.reaches_follow _, by decide +kernel, by decide +kernel,
    ⟨by decide +kernel, by decide +kernel⟩,
    fun _ _ => Library.Config.All.of_active (P := fun i : Instr => i.part ≠ .stop)
      (by decide +kernel),
    by decide +kernel⟩

end UnixNotes.Logger.AsyncLogger
