import UnixNotes.Rpc.Client.EventLoop

namespace UnixNotes.Rpc.Client

open Library

inductive TimerStep (s s' : State) (id : Nat) : Instr → List Instr → Prop
  | keep {i pushed} (timer : s'.loop.timers id = s.loop.timers id) : TimerStep s s' id i pushed
  | deadline {k pushed} (fresh : id = s.loop.timerCount)
      (functor : (s'.loop.timers id).functor = .onDeadline (s.calls.call k).requestId)
      (phase : (s'.loop.timers id).phase = .pending) : TimerStep s s' id (.armDeadline k) pushed
  | reconnect {delay pushed} (fresh : id = s.loop.timerCount)
      (functor : (s'.loop.timers id).functor = .reconnectTimer)
      (phase : (s'.loop.timers id).phase = .pending) :
    TimerStep s s' id (.loop (.armReconnect delay)) pushed
  | cancel {pushed} (functor : (s'.loop.timers id).functor = (s.loop.timers id).functor)
      (before : (s.loop.timers id).phase ≠ .finished)
      (phase : (s'.loop.timers id).phase = .cancelled) :
    TimerStep s s' id (.loop (.cancelTimer id)) pushed
  | submit {pushed} (functor : (s'.loop.timers id).functor = (s.loop.timers id).functor)
      (before : (s.loop.timers id).phase = .pending)
      (phase : (s'.loop.timers id).phase = .submitted) :
    TimerStep s s' id (.loop .timerService) pushed
  | run {pushed} (functor : (s'.loop.timers id).functor = (s.loop.timers id).functor)
      (before : (s.loop.timers id).phase = .submitted)
      (phase : (s'.loop.timers id).phase = .executing)
      (queues : .loop (.queueInLoop (s.loop.timers id).functor) ∈ pushed) :
    TimerStep s s' id (.loop .timerService) pushed
  | finish {pushed} (functor : (s'.loop.timers id).functor = (s.loop.timers id).functor)
      (phase : (s'.loop.timers id).phase = .finished) :
    TimerStep s s' id (.loop (.finishTimer id)) pushed

section Exec

variable {t : Nat} {x : Choice} {s s' : State} {i : Instr} {pushed : List Instr}

theorem setPhase_self (loop : Loop) (id : Nat) (phase : TimerPhase) :
    (loop.setPhase id phase).timers id = { loop.timers id with phase := phase } := by
  simp [Loop.setPhase]

theorem setPhase_ne (loop : Loop) {id id' : Nat} (phase : TimerPhase) (h : id ≠ id') :
    (loop.setPhase id' phase).timers id = loop.timers id := by
  simp [Loop.setPhase, h]

theorem addTimer_self (loop : Loop) (delay : Nat) (functor : Functor) :
    (loop.addTimer delay functor).timers loop.timerCount =
      { functor := functor, expiration := loop.now + delay, phase := .pending } := by
  simp [Loop.addTimer]

theorem addTimer_ne (loop : Loop) (delay : Nat) (functor : Functor) {id : Nat}
    (h : id ≠ loop.timerCount) : (loop.addTimer delay functor).timers id = loop.timers id := by
  simp [Loop.addTimer, h]

theorem loop_timerStep {i : LoopInstr} {loop : Loop} (h : i.exec x s = some (loop, pushed))
    (id : Nat) : TimerStep s { s with loop := loop } id (.loop i) pushed := by
  cases i
  case armReconnect delay =>
    cases h
    by_cases hid : id = s.loop.timerCount
    · subst hid
      exact .reconnect rfl (by simp [addTimer_self]) (by simp [addTimer_self])
    · exact .keep (addTimer_ne _ _ _ hid)
  case cancelTimer id' =>
    simp only [LoopInstr.exec] at h
    split at h <;> cases h
    · exact .keep rfl
    · rename_i hbefore
      by_cases hid : id = id'
      · subst hid
        exact .cancel (by simp [setPhase_self]) hbefore (by simp [setPhase_self])
      · exact .keep (setPhase_ne _ _ hid)
  case finishTimer id' =>
    cases h
    by_cases hid : id = id'
    · subst hid
      exact .finish (by simp [setPhase_self]) (by simp [setPhase_self])
    · exact .keep (setPhase_ne _ _ hid)
  case timerService =>
    simp only [LoopInstr.exec] at h
    (repeat' split at h) <;> cases h
    · exact .keep rfl
    · rename_i id' hbefore
      by_cases hid : id = id'
      · subst hid
        exact .submit (by simp [setPhase_self]) hbefore.1 (by simp [setPhase_self])
      · exact .keep (setPhase_ne _ _ hid)
    · rename_i id' hbefore
      by_cases hid : id = id'
      · subst hid
        exact .run (by simp [setPhase_self]) hbefore (by simp [setPhase_self]) (by simp)
      · exact .keep (setPhase_ne _ _ hid)
  all_goals
    simp only [LoopInstr.exec] at h
    (repeat' split at h) <;> cases h <;> exact .keep rfl

theorem timerStep_of_exec (h : i.exec t x s = some (s', pushed)) (id : Nat) :
    TimerStep s s' id i pushed := by
  cases i with
  | call i =>
    obtain ⟨⟨calls, pushed⟩, -, heq⟩ := Option.map_eq_some_iff.mp h
    cases heq
    exact .keep rfl
  | net i =>
    obtain ⟨⟨net, pushed⟩, -, heq⟩ := Option.map_eq_some_iff.mp h
    cases heq
    exact .keep rfl
  | loop i =>
    obtain ⟨⟨loop, pushed⟩, hexec, heq⟩ := Option.map_eq_some_iff.mp h
    cases heq
    exact loop_timerStep hexec id
  | armDeadline k =>
    cases h
    by_cases hid : id = s.loop.timerCount
    · subst hid
      exact .deadline rfl (by simp [addTimer_self]) (by simp [addTimer_self])
    · exact .keep (addTimer_ne _ _ _ hid)

theorem exec_timerCount (h : i.exec t x s = some (s', pushed)) :
    s.loop.timerCount ≤ s'.loop.timerCount ∧
      ((∃ k, i = .armDeadline k) ∨ (∃ delay, i = .loop (.armReconnect delay)) →
        s.loop.timerCount < s'.loop.timerCount) := by
  cases i with
  | call i =>
    obtain ⟨⟨calls, pushed⟩, -, heq⟩ := Option.map_eq_some_iff.mp h
    cases heq
    simp
  | net i =>
    obtain ⟨⟨net, pushed⟩, -, heq⟩ := Option.map_eq_some_iff.mp h
    cases heq
    simp
  | loop i =>
    obtain ⟨⟨loop, pushed⟩, hexec, heq⟩ := Option.map_eq_some_iff.mp h
    cases heq
    cases i
    case armReconnect delay =>
      cases hexec
      simp [Loop.addTimer]
    all_goals
      simp only [LoopInstr.exec] at hexec
      (repeat' split at hexec) <;> cases hexec <;> simp [Loop.setPhase]
  | armDeadline k =>
    cases h
    simp [Loop.addTimer]

theorem run_finishing {id : Nat} (h : (Instr.loop .timerService).exec t x s = some (s', pushed))
    (hpushed : .loop (.finishTimer id) ∈ pushed) :
    (s.loop.timers id).phase = .submitted ∧ (s'.loop.timers id).phase = .executing := by
  obtain ⟨⟨loop, pushed⟩, hexec, heq⟩ := Option.map_eq_some_iff.mp h
  cases heq
  simp only [LoopInstr.exec] at hexec
  (repeat' split at hexec) <;> cases hexec
  · simp at hpushed
  · simp at hpushed
  · rename_i id' hphase
    obtain rfl : id = id' := by simpa using hpushed
    exact ⟨hphase, by simp [setPhase_self]⟩

end Exec

/-- The timer has not been cancelled, and its callback has not been started. -/
def Armed (c : ClientConfig) (id : Nat) : Prop :=
  (c.shared.loop.timers id).phase = .pending ∨ (c.shared.loop.timers id).phase = .submitted

instance (c : ClientConfig) (id : Nat) : Decidable (Armed c id) :=
  inferInstanceAs (Decidable (_ ∨ _))

structure TimersValid (c : ClientConfig) : Prop where
  positive : 0 < c.shared.loop.timerCount
  functor : ∀ id, (c.shared.loop.timers id).functor = .reconnectTimer ∨
    ∃ requestId, (c.shared.loop.timers id).functor = .onDeadline requestId
  fresh : ∀ id, c.shared.loop.timerCount ≤ id → (c.shared.loop.timers id).phase = .finished
  finishing : ∀ t id, c.Active t (.loop (.finishTimer id)) →
    id < c.shared.loop.timerCount ∧ ¬Armed c id

namespace TimersValid

variable {c c' : ClientConfig} {t : Nat} {i : Instr}

theorem lt_timerCount (h : TimersValid c) {id : Nat} (harmed : Armed c id) :
    id < c.shared.loop.timerCount := by
  by_contra hge
  have hfinished := h.fresh id (Nat.not_lt.mp hge)
  rw [Armed, hfinished] at harmed
  simp at harmed

theorem step (h : TimersValid c) (hstep : client.Step c t i c') : TimersValid c' := by
  obtain @⟨rest, x, s, pushed, htop, hexec⟩ := hstep
  have hcount := exec_timerCount hexec
  have htimer := timerStep_of_exec hexec
  constructor
  · exact Nat.lt_of_lt_of_le h.positive hcount.1
  · intro id
    rw [Config.shared_replace]
    cases htimer id with
    | keep timer =>
      rw [timer]
      exact h.functor id
    | deadline _ functor => exact .inr ⟨_, functor⟩
    | reconnect _ functor => exact .inl functor
    | cancel functor | submit functor | run functor | finish functor =>
      rw [functor]
      exact h.functor id
  · intro id hid
    rw [Config.shared_replace] at hid ⊢
    have hbefore := h.fresh id (Nat.le_trans hcount.1 hid)
    cases htimer id with
    | keep timer => rw [timer, hbefore]
    | deadline fresh =>
      have := hcount.2 (.inl ⟨_, rfl⟩)
      omega
    | reconnect fresh =>
      have := hcount.2 (.inr ⟨_, rfl⟩)
      omega
    | cancel _ before => exact absurd hbefore before
    | submit _ before =>
      rw [before] at hbefore
      cases hbefore
    | run _ before =>
      rw [before] at hbefore
      cases hbefore
    | finish _ phase => exact phase
  · intro t' id hactive
    obtain ⟨-, hpushed⟩ | hbefore := Config.active_of_replace htop hactive
    · cases pushes_of_exec hexec _ hpushed
      obtain ⟨hrun, hphase⟩ := run_finishing (t := t) hexec hpushed
      refine ⟨Nat.lt_of_lt_of_le (h.lt_timerCount (.inr hrun)) hcount.1, ?_⟩
      rw [Armed, Config.shared_replace, hphase]
      simp
    · obtain ⟨hlt, hdone⟩ := h.finishing t' id hbefore
      refine ⟨Nat.lt_of_lt_of_le hlt hcount.1, ?_⟩
      rw [Armed] at hdone ⊢
      rw [Config.shared_replace]
      cases htimer id with
      | keep timer => rwa [timer]
      | deadline fresh => omega
      | reconnect fresh => omega
      | cancel _ _ phase => simp [phase]
      | submit _ before => exact absurd (.inl before) hdone
      | run _ before => exact absurd (.inr before) hdone
      | finish _ phase => simp [phase]

end TimersValid

theorem init_timersValid (timerThreads users : Nat) : TimersValid (init timerThreads users) where
  positive := Nat.one_pos
  functor := fun _ => .inl rfl
  fresh := fun _ _ => rfl
  finishing := by
    intro t id hactive
    obtain h | h | h := mem_init_stack hactive <;> cases h

theorem functor_of_lt {t : Nat} {x : Choice} {s s' : State} {i : Instr} {pushed : List Instr}
    (h : i.exec t x s = some (s', pushed)) {id : Nat} (hlt : id < s.loop.timerCount) :
    (s'.loop.timers id).functor = (s.loop.timers id).functor := by
  cases timerStep_of_exec h id with
  | keep timer => rw [timer]
  | deadline fresh => omega
  | reconnect fresh => omega
  | cancel functor | submit functor | run functor | finish functor => exact functor

theorem Armed.step {c c' : ClientConfig} {t : Nat} {i : Instr} {id : Nat} (h : Armed c id)
    (hvalid : TimersValid c) (hstep : client.Step c t i c') :
    (c'.shared.loop.timers id).functor = (c.shared.loop.timers id).functor ∧
      (Armed c' id ∨ Queued c' (c.shared.loop.timers id).functor ∨ i = .loop (.cancelTimer id)) := by
  obtain @⟨rest, x, s, pushed, htop, hexec⟩ := hstep
  have hlt := hvalid.lt_timerCount h
  simp only [Armed, Config.shared_replace]
  cases timerStep_of_exec hexec id with
  | keep timer =>
    rw [timer]
    exact ⟨rfl, .inl h⟩
  | deadline fresh => omega
  | reconnect fresh => omega
  | cancel functor => exact ⟨functor, .inr (.inr rfl)⟩
  | submit functor _ phase => exact ⟨functor, .inl (.inr phase)⟩
  | run functor _ _ queues =>
    exact ⟨functor, .inr (.inl (.inr ⟨t, Config.active_replace_of_pushed htop s queues⟩))⟩
  | finish =>
    exact absurd h (hvalid.finishing t id (Config.active_of_top htop)).2

end UnixNotes.Rpc.Client
