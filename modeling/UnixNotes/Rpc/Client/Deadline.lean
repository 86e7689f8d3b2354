import UnixNotes.Rpc.Client.Callback
import UnixNotes.Rpc.Client.Timers

namespace UnixNotes.Rpc.Client

open Library

/-- The deadline of call `k` is still to come: its timer is armed, or its functor is on its way to
the loop or running there. -/
def DeadlineOutstanding (c : ClientConfig) (k : Nat) : Prop :=
  (Armed c (c.shared.calls.call k).timerId ∧
    (c.shared.loop.timers (c.shared.calls.call k).timerId).functor =
      .onDeadline (c.shared.calls.call k).requestId) ∨
  Queued c (.onDeadline (c.shared.calls.call k).requestId) ∨
  ∃ t, c.Active t (.call (.failPending (c.shared.calls.call k).requestId .timeout
    (ascii "RPC call timed out")))

def insertingCall : Instr → Option Nat
  | .net (.checkState k) | .call (.insertPending k) => some k
  | _ => none

/-- No deadline passes between arming the timer of a call and inserting the call. -/
def KeepsDeadline (c : ClientConfig) (_ : Nat) : Instr → Prop
  | .call (.failPending requestId .timeout _) =>
    c.All fun i => ∀ k ∈ insertingCall i, (c.shared.calls.call k).requestId ≠ requestId
  | _ => True

instance (c : ClientConfig) (t : Nat) (i : Instr) : Decidable (KeepsDeadline c t i) := by
  unfold KeepsDeadline
  split <;> infer_instance

def timedCall : Instr → Option Nat
  | .net (.checkState k) | .call (.insertPending k) | .call (.completePending k _) => some k
  | _ => none

theorem ownedCall_of_timedCall {i : Instr} {k : Nat} (h : timedCall i = some k) :
    ownedCall i = some k := by
  unfold timedCall at h
  split at h <;> cases h <;> rfl

theorem timedCall_of_insertingCall {i : Instr} {k : Nat} (h : insertingCall i = some k) :
    timedCall i = some k := by
  unfold insertingCall at h
  split at h <;> cases h <;> rfl

def Inserting (c : ClientConfig) (k : Nat) : Prop := ∃ t i, c.Active t i ∧ insertingCall i = some k

def Live (c : ClientConfig) (k : Nat) : Prop := IsPending c.shared.calls k ∨ Inserting c k

def Timed (c : ClientConfig) (k : Nat) : Prop :=
  IsPending c.shared.calls k ∨ ∃ t i, c.Active t i ∧ timedCall i = some k

theorem Live.timed {c : ClientConfig} {k : Nat} (h : Live c k) : Timed c k :=
  h.imp_right fun ⟨t, i, hactive, hi⟩ => ⟨t, i, hactive, timedCall_of_insertingCall hi⟩

section Exec

variable {t : Nat} {x : Choice} {s s' : State} {i : Instr} {pushed : List Instr} {k : Nat}

theorem pushes_insertingCall {j : Instr} (h : Pushes t s i j) (hj : insertingCall j = some k) :
    i = .armDeadline k ∨ insertingCall i = some k := by
  cases h <;> cases hj
  case checkState => exact .inl rfl
  case insertPending => exact .inr rfl

theorem pushes_timedCall (hkeyed : Keyed s.calls) {j : Instr} (h : Pushes t s i j)
    (hj : timedCall j = some k) :
    i = .armDeadline k ∨ timedCall i = some k ∨ IsPending s.calls k := by
  cases h <;> cases hj
  case checkState => exact .inl rfl
  case insertPending => exact .inr (.inl rfl)
  case completeOne hfind => exact .inr (.inr (hkeyed.isPending hfind))
  case failOne hfind => exact .inr (.inr (hkeyed.isPending hfind))
  case failAll hk => exact .inr (.inr (hkeyed.mem_pendingList.mp hk))
  case failSent hk => exact .inr (.inr (hkeyed.mem_pendingList.mp hk))
  case expire hk => exact .inr (.inr (hkeyed.mem_pendingList.mp hk))

theorem instr_timerId (h : i.exec t x s = some (s', pushed)) (hbegun : k < s.calls.callCount)
    (harm : i ≠ .armDeadline k) (hcomplete : ∀ response, i ≠ .call (.completePending k response)) :
    (s'.calls.call k).timerId = (s.calls.call k).timerId := by
  obtain hsame | ⟨i, rfl, hstep⟩ | ⟨rfl, -⟩ := call_of_exec h hbegun
  · rw [hsame]
  · generalize s'.calls.call k = call at hstep ⊢
    cases hstep with
    | keep same => rw [same]
    | resetTimer => exact absurd rfl (hcomplete _)
    | complete =>
      rw [Call.complete]
      split <;> rfl
    | countAttempt =>
      rw [countAttempt]
      split <;> rfl
    | _ => rfl
  · exact absurd rfl harm

theorem instr_requestId (h : i.exec t x s = some (s', pushed)) (hbegun : k < s.calls.callCount)
    (hfirst : i ≠ .call (.nextRequestId k)) (hsecond : i ≠ .call (.retryRequestId k)) :
    (s'.calls.call k).requestId = (s.calls.call k).requestId := by
  obtain hsame | ⟨i, rfl, hstep⟩ | ⟨rfl, hset⟩ := call_of_exec h hbegun
  · rw [hsame]
  · generalize s'.calls.call k = call at hstep ⊢
    cases hstep with
    | keep same => rw [same]
    | firstRequestId => exact absurd rfl hfirst
    | secondRequestId => exact absurd rfl hsecond
    | complete => exact Call.complete_requestId ..
    | countAttempt =>
      rw [countAttempt]
      split <;> rfl
    | _ => rfl
  · rw [hset]

end Exec

section Calls

variable {c c' : ClientConfig} {t : Nat} {i : Instr} {k : Nat}

theorem Timed.begun (h : Timed c k) (howned : Owned c) : k < c.shared.calls.callCount := by
  obtain hpending | ⟨t, i, hactive, hi⟩ := h
  · exact lt_callCount_of_pending
      (Nat.le_trans (Nat.le_add_right _ _) (howned.once k)) hpending
  · exact howned.begun hactive (ownedCall_of_timedCall hi)

theorem Timed.owner {rest : List Instr} (h : Timed c k) (howned : Owned c)
    (htop : c.stack t = i :: rest) (hown : ownedCall i = some k) : timedCall i = some k := by
  obtain hpending | ⟨t', j, hactive, hj⟩ := h
  · exact absurd hpending (reserve_eq_zero_of_owned (howned.allowance htop) hown).2
  · obtain rfl | htotal := Config.eq_or_add_le_total (w := own k) htop hactive
    · exact hj
    · have honce := howned.once k
      rw [own_eq_one hown, own_eq_one (ownedCall_of_timedCall hj)] at htotal
      omega

theorem Timed.requestId {rest : List Instr} {x : Choice} {s : State} {pushed : List Instr}
    (h : Timed c k) (howned : Owned c) (htop : c.stack t = i :: rest)
    (hexec : i.exec t x c.shared = some (s, pushed)) :
    (s.calls.call k).requestId = (c.shared.calls.call k).requestId := by
  refine instr_requestId hexec (h.begun howned) ?_ ?_
  · rintro rfl
    cases h.owner howned htop rfl
  · rintro rfl
    cases h.owner howned htop rfl

theorem Timed.of_step (hlife : Lifecycle c) (hstep : client.Step c t i c') (h : Timed c' k) :
    Timed c k ∨ i = .armDeadline k := by
  obtain @⟨rest, x, s, pushed, htop, hexec⟩ := hstep
  obtain hpending | ⟨t', j, hactive, hj⟩ := h
  · obtain hbefore | rfl := instr_pending hexec hlife.keyed hpending
    · exact .inl (.inl hbefore)
    · exact .inl (.inr ⟨t, _, Config.active_of_top htop, rfl⟩)
  · obtain ⟨-, hpushed⟩ | hbefore := Config.active_of_replace htop hactive
    · obtain harm | hi | hpending :=
        pushes_timedCall hlife.keyed (pushes_of_exec hexec j hpushed) hj
      · exact .inr harm
      · exact .inl (.inr ⟨t, i, Config.active_of_top htop, hi⟩)
      · exact .inl (.inl hpending)
    · exact .inl (.inr ⟨t', j, hbefore, hj⟩)

theorem Timed.passed {rest : List Instr} {x : Choice} {s : State} {pushed : List Instr}
    (hlife : Lifecycle c) (htop : c.stack t = i :: rest)
    (hexec : i.exec t x c.shared = some (s, pushed)) (hown : ownedCall i = some k)
    (hi : i ≠ .call (.insertPending k)) (h : Timed (c.replace t s (pushed ++ rest)) k) :
    ∃ j ∈ pushed, timedCall j = some k := by
  obtain hpending | ⟨t', j, hactive, hj⟩ := h
  · obtain hbefore | rfl := instr_pending hexec hlife.keyed hpending
    · exact absurd hbefore (reserve_eq_zero_of_owned (hlife.allowance htop) hown).2
    · exact absurd rfl hi
  · by_cases hpushed : j ∈ pushed
    · exact ⟨j, hpushed, hj⟩
    · exact absurd hown (hlife.unique htop hactive hpushed (ownedCall_of_timedCall hj))

theorem Timed.kept {rest : List Instr} {x : Choice} {s : State} {pushed : List Instr}
    (hlife : Lifecycle c) (htop : c.stack t = i :: rest)
    (hexec : i.exec t x c.shared = some (s, pushed)) (harm : i ≠ .armDeadline k)
    (h : Timed (c.replace t s (pushed ++ rest)) k) :
    Timed c k ∧ (s.calls.call k).timerId = (c.shared.calls.call k).timerId ∧
      (s.calls.call k).requestId = (c.shared.calls.call k).requestId := by
  have hbefore := (Timed.of_step hlife (.exec htop hexec) h).resolve_right harm
  refine ⟨hbefore, instr_timerId hexec (hbefore.begun hlife.toOwned) harm ?_,
    hbefore.requestId hlife.toOwned htop hexec⟩
  rintro response rfl
  obtain ⟨j, hpushed, hj⟩ := h.passed hlife htop hexec rfl (by simp)
  have hpushes := pushes_of_exec hexec j hpushed
  cases hpushes <;> cases hj

theorem Live.of_step (hlife : Lifecycle c) (hstep : client.Step c t i c') (h : Live c' k) :
    Live c k ∨ i = .armDeadline k := by
  obtain @⟨rest, x, s, pushed, htop, hexec⟩ := hstep
  obtain hpending | ⟨t', j, hactive, hj⟩ := h
  · obtain hbefore | rfl := instr_pending hexec hlife.keyed hpending
    · exact .inl (.inl hbefore)
    · exact .inl (.inr ⟨t, _, Config.active_of_top htop, rfl⟩)
  · obtain ⟨-, hpushed⟩ | hbefore := Config.active_of_replace htop hactive
    · obtain harm | hi := pushes_insertingCall (pushes_of_exec hexec j hpushed) hj
      · exact .inr harm
      · exact .inl (.inr ⟨t, i, Config.active_of_top htop, hi⟩)
    · exact .inl (.inr ⟨t', j, hbefore, hj⟩)

end Calls

structure Deadlines (c : ClientConfig) : Prop extends Lifecycle c, TimersValid c where
  timer : ∀ k, Timed c k → (c.shared.calls.call k).timerId < c.shared.loop.timerCount ∧
    (c.shared.loop.timers (c.shared.calls.call k).timerId).functor =
      .onDeadline (c.shared.calls.call k).requestId
  distinct : ∀ j k, Timed c j → Timed c k →
    (c.shared.calls.call j).timerId = (c.shared.calls.call k).timerId → j = k
  zero : (c.shared.loop.timers 0).functor = .reconnectTimer
  reconnect : c.shared.net.reconnectTimerId < c.shared.loop.timerCount ∧
    (c.shared.loop.timers c.shared.net.reconnectTimerId).functor = .reconnectTimer
  storing : ∀ t id, c.Active t (.net (.storeReconnectTimer id)) →
    id < c.shared.loop.timerCount ∧ (c.shared.loop.timers id).functor = .reconnectTimer
  cancelling : ∀ t id, c.Active t (.loop (.cancelTimer id)) →
    id < c.shared.loop.timerCount ∧ ∀ k, Timed c k → (c.shared.calls.call k).timerId ≠ id
  outstanding : ∀ k, Live c k → DeadlineOutstanding c k

theorem net_reconnectTimerId {t : Nat} {x : Choice} {s s' : State} {i : Instr}
    {pushed : List Instr} (h : i.exec t x s = some (s', pushed)) :
    s'.net.reconnectTimerId = s.net.reconnectTimerId ∨ s'.net.reconnectTimerId = 0 ∨
      i = .net (.storeReconnectTimer s'.net.reconnectTimerId) := by
  cases i with
  | call i | loop i =>
    obtain ⟨r, -, heq⟩ := Option.map_eq_some_iff.mp h
    cases heq
    exact .inl rfl
  | net i =>
    obtain ⟨⟨net, pushed⟩, hexec, heq⟩ := Option.map_eq_some_iff.mp h
    cases heq
    cases i
    case storeReconnectTimer id =>
      cases hexec
      exact .inr (.inr rfl)
    case cancelReconnectTimer =>
      cases hexec
      exact .inr (.inl rfl)
    case reconnectTimer =>
      simp only [NetInstr.exec] at hexec
      split at hexec <;> cases hexec <;> exact .inr (.inl rfl)
    all_goals
      simp only [NetInstr.exec] at hexec
      (repeat' split at hexec) <;> cases hexec <;> exact .inl rfl
  | armDeadline k =>
    cases h
    exact .inl rfl

section Step

variable {c : ClientConfig} {t : Nat} {i : Instr} {rest : List Instr} {x : Choice} {s : State}
  {pushed : List Instr} {k : Nat} (h : Deadlines c) (htop : c.stack t = i :: rest)
  (hexec : i.exec t x c.shared = some (s, pushed))
include h htop hexec

theorem Deadlines.timer_step (hk : Timed (c.replace t s (pushed ++ rest)) k) :
    (s.calls.call k).timerId < s.loop.timerCount ∧
      (s.loop.timers (s.calls.call k).timerId).functor =
        .onDeadline (s.calls.call k).requestId := by
  have hcount := exec_timerCount hexec
  by_cases harm : i = .armDeadline k
  · subst harm
    have hlt := hcount.2 (.inl ⟨k, rfl⟩)
    cases hexec
    simp only [CallTable.set_call_self, addTimer_self]
    exact ⟨hlt, trivial⟩
  · obtain ⟨hbefore, htimer, hid⟩ := hk.kept h.toLifecycle htop hexec harm
    obtain ⟨hlt, hfunctor⟩ := h.timer k hbefore
    rw [htimer, hid, functor_of_lt hexec hlt]
    exact ⟨Nat.lt_of_lt_of_le hlt hcount.1, hfunctor⟩

omit h htop in
theorem armDeadline_timerId (harm : i = .armDeadline k) :
    (s.calls.call k).timerId = c.shared.loop.timerCount := by
  subst harm
  cases hexec
  rw [CallTable.set_call_self]

theorem Deadlines.distinct_step {j : Nat} (hj : Timed (c.replace t s (pushed ++ rest)) j)
    (hk : Timed (c.replace t s (pushed ++ rest)) k)
    (heq : (s.calls.call j).timerId = (s.calls.call k).timerId) : j = k := by
  by_cases hjarm : i = .armDeadline j
  · by_cases hkarm : i = .armDeadline k
    · exact Instr.armDeadline.inj (hjarm.symm.trans hkarm)
    · obtain ⟨hbefore, htimer, -⟩ := hk.kept h.toLifecycle htop hexec hkarm
      have hlt := (h.timer k hbefore).1
      rw [armDeadline_timerId hexec hjarm, htimer] at heq
      omega
  · obtain ⟨hjbefore, hjtimer, -⟩ := hj.kept h.toLifecycle htop hexec hjarm
    by_cases hkarm : i = .armDeadline k
    · have hlt := (h.timer j hjbefore).1
      rw [armDeadline_timerId hexec hkarm, hjtimer] at heq
      omega
    · obtain ⟨hkbefore, hktimer, -⟩ := hk.kept h.toLifecycle htop hexec hkarm
      rw [hjtimer, hktimer] at heq
      exact h.distinct j k hjbefore hkbefore heq

theorem Deadlines.reconnect_step : s.net.reconnectTimerId < s.loop.timerCount ∧
    (s.loop.timers s.net.reconnectTimerId).functor = .reconnectTimer := by
  have hkeep : ∀ id, id < c.shared.loop.timerCount ∧
      (c.shared.loop.timers id).functor = .reconnectTimer →
        id < s.loop.timerCount ∧ (s.loop.timers id).functor = .reconnectTimer := by
    rintro id ⟨hlt, hfunctor⟩
    rw [functor_of_lt hexec hlt]
    exact ⟨Nat.lt_of_lt_of_le hlt (exec_timerCount hexec).1, hfunctor⟩
  obtain hsame | hzero | hstore := net_reconnectTimerId hexec
  · rw [hsame]
    exact hkeep _ h.reconnect
  · rw [hzero]
    exact hkeep 0 ⟨h.positive, h.zero⟩
  · exact hkeep _ (h.storing t _ (hstore ▸ Config.active_of_top htop))

theorem Deadlines.storing_step {t' id : Nat}
    (hactive : (c.replace t s (pushed ++ rest)).Active t' (.net (.storeReconnectTimer id))) :
    id < s.loop.timerCount ∧ (s.loop.timers id).functor = .reconnectTimer := by
  obtain ⟨-, hpushed⟩ | hbefore := Config.active_of_replace htop hactive
  · cases pushes_of_exec hexec _ hpushed with
    | storeReconnect =>
      have hlt := (exec_timerCount hexec).2 (.inr ⟨_, rfl⟩)
      cases hexec
      exact ⟨hlt, by simp [addTimer_self]⟩
  · obtain ⟨hlt, hfunctor⟩ := h.storing t' id hbefore
    rw [functor_of_lt hexec hlt]
    exact ⟨Nat.lt_of_lt_of_le hlt (exec_timerCount hexec).1, hfunctor⟩

theorem Deadlines.cancelling_step {t' id : Nat}
    (hactive : (c.replace t s (pushed ++ rest)).Active t' (.loop (.cancelTimer id))) :
    id < s.loop.timerCount ∧
      ∀ k, Timed (c.replace t s (pushed ++ rest)) k → (s.calls.call k).timerId ≠ id := by
  have hcount := (exec_timerCount hexec).1
  have hother : ∀ j, ownedCall i = some j → i ≠ .call (.insertPending j) → Timed c j →
      (∀ j' ∈ pushed, timedCall j' ≠ some j) → (∀ k, i ≠ .armDeadline k) →
      ∀ k, Timed (c.replace t s (pushed ++ rest)) k →
        (s.calls.call k).timerId ≠ (c.shared.calls.call j).timerId := by
    intro j hown hi hj hpassed harm k hk heq
    obtain ⟨hbefore, htimer, -⟩ := hk.kept h.toLifecycle htop hexec (harm k)
    rw [htimer] at heq
    obtain rfl := h.distinct k j hbefore hj heq
    obtain ⟨j', hj', htimed⟩ := hk.passed h.toLifecycle htop hexec hown hi
    exact hpassed j' hj' htimed
  obtain ⟨-, hpushed⟩ | hbefore := Config.active_of_replace htop hactive
  · cases pushes_of_exec hexec _ hpushed with
    | @cancelDeadline j response hset =>
      have htimed : Timed c j := .inr ⟨t, _, Config.active_of_top htop, rfl⟩
      refine ⟨Nat.lt_of_lt_of_le (h.timer j htimed).1 hcount,
        hother j rfl (by simp) htimed ?_ (by simp)⟩
      intro j' hj' hj
      cases pushes_of_exec hexec j' hj' <;> cases hj
    | @failFastTimer j hfail =>
      have htimed : Timed c j := .inr ⟨t, _, Config.active_of_top htop, rfl⟩
      refine ⟨Nat.lt_of_lt_of_le (h.timer j htimed).1 hcount,
        hother j rfl (by simp) htimed ?_ (by simp)⟩
      intro j' hj' hj
      cases pushes_of_exec hexec j' hj' <;> cases hj
      rename_i hpass
      exact hpass hfail
    | cancelReconnect hset =>
      refine ⟨Nat.lt_of_lt_of_le h.reconnect.1 hcount, fun k hk heq => ?_⟩
      obtain ⟨hbefore, htimer, -⟩ := hk.kept h.toLifecycle htop hexec (by simp)
      have hfunctor := (h.timer k hbefore).2
      rw [← htimer, heq, h.reconnect.2] at hfunctor
      cases hfunctor
  · obtain ⟨hlt, hdistinct⟩ := h.cancelling t' id hbefore
    refine ⟨Nat.lt_of_lt_of_le hlt hcount, fun k hk heq => ?_⟩
    by_cases harm : i = .armDeadline k
    · rw [armDeadline_timerId hexec harm] at heq
      omega
    · obtain ⟨hkbefore, htimer, -⟩ := hk.kept h.toLifecycle htop hexec harm
      rw [htimer] at heq
      exact hdistinct k hkbefore heq

theorem Deadlines.live_of_failPending {requestId : UInt64} {errorMessage : ByteString}
    (hi : i = .call (.failPending requestId .timeout errorMessage)) (hok : KeepsDeadline c t i)
    (hk : Live (c.replace t s (pushed ++ rest)) k) :
    (c.shared.calls.call k).requestId ≠ requestId := by
  subst hi
  have hid := (hk.timed.kept h.toLifecycle htop hexec (by simp)).2.2
  obtain hlive | harm := Live.of_step h.toLifecycle (.exec htop hexec) hk
  · obtain hpending | ⟨t', j, hactive, hj⟩ := hlive
    · rintro rfl
      have hstill : IsPending s.calls k := by
        refine hk.resolve_right ?_
        rintro ⟨t', j, hactive, hj⟩
        have hown := ownedCall_of_timedCall (timedCall_of_insertingCall hj)
        obtain ⟨-, hpushed⟩ | hbefore := Config.active_of_replace htop hactive
        · cases pushes_of_exec hexec j hpushed
          cases hj
        · exact h.unowned hpending hbefore hown
      obtain ⟨⟨calls, pushed⟩, hfail, heq⟩ := Option.map_eq_some_iff.mp hexec
      cases heq
      rw [IsPending] at hpending
      rw [IsPending, hid] at hstill
      simp only [CallInstr.exec, hpending] at hfail
      cases hfail
      simp at hstill
    · exact hok.of_active hactive k hj
  · cases harm

theorem Deadlines.outstanding_step (hok : KeepsDeadline c t i)
    (hk : Live (c.replace t s (pushed ++ rest)) k) :
    DeadlineOutstanding (c.replace t s (pushed ++ rest)) k := by
  by_cases harm : i = .armDeadline k
  · refine .inl ⟨?_, (h.timer_step htop hexec hk.timed).2⟩
    subst harm
    cases hexec
    simp [Armed, addTimer_self]
  · obtain ⟨htimed, htimer, hid⟩ := hk.timed.kept h.toLifecycle htop hexec harm
    have hlive := (Live.of_step h.toLifecycle (.exec htop hexec) hk).resolve_right harm
    have hstep : client.Step c t i (c.replace t s (pushed ++ rest)) := .exec htop hexec
    rw [DeadlineOutstanding, Config.shared_replace, htimer, hid]
    obtain ⟨harmed, hfunctor⟩ | hqueued | ⟨t', hactive⟩ := h.outstanding k hlive
    · obtain ⟨hsame, harmed' | hqueued | hcancel⟩ := harmed.step h.toTimersValid hstep
      · exact .inl ⟨harmed', hsame.trans hfunctor⟩
      · exact .inr (.inl (hfunctor ▸ hqueued))
      · subst hcancel
        exact absurd rfl ((h.cancelling t _ (Config.active_of_top htop)).2 k htimed)
    · obtain hqueued | ⟨-, hbody⟩ := hqueued.step hstep
      · exact .inr (.inl hqueued)
      · exact .inr (.inr ⟨t, hbody _ (List.mem_singleton.mpr rfl)⟩)
    · refine .inr (.inr ⟨t', Config.active_replace_of_ne htop s pushed hactive ?_⟩)
      intro heq
      exact h.live_of_failPending htop hexec heq.symm hok hk rfl

end Step

theorem Deadlines.step {c c' : ClientConfig} {t : Nat} {i : Instr} (h : Deadlines c)
    (hok : KeepsDeadline c t i) (hstep : client.Step c t i c') : Deadlines c' := by
  have hlife := h.toLifecycle.step hstep
  have hvalid := h.toTimersValid.step hstep
  obtain @⟨rest, x, s, pushed, htop, hexec⟩ := hstep
  exact { hlife, hvalid with
    timer := fun _ hk => h.timer_step htop hexec hk
    distinct := fun _ _ hj hk heq => h.distinct_step htop hexec hj hk heq
    zero := (functor_of_lt hexec h.positive).trans h.zero
    reconnect := h.reconnect_step htop hexec
    storing := fun _ _ hactive => h.storing_step htop hexec hactive
    cancelling := fun _ _ hactive => h.cancelling_step htop hexec hactive
    outstanding := fun _ hk => h.outstanding_step htop hexec hok hk }

theorem Deadlines.init (timerThreads users : Nat) : Deadlines (init timerThreads users) := by
  have htimed : ∀ k, ¬Timed (Client.init timerThreads users) k := by
    rintro k (hpending | ⟨t, i, hactive, hi⟩)
    · cases hpending
    · obtain rfl | rfl | rfl := mem_init_stack hactive <;> cases hi
  exact { Lifecycle.init timerThreads users, init_timersValid timerThreads users with
    timer := fun k hk => absurd hk (htimed k)
    distinct := fun j k hj => absurd hj (htimed j)
    zero := rfl
    reconnect := ⟨Nat.one_pos, rfl⟩
    storing := by
      intro t id hactive
      obtain h | h | h := mem_init_stack hactive <;> cases h
    cancelling := by
      intro t id hactive
      obtain h | h | h := mem_init_stack hactive <;> cases h
    outstanding := fun k hk => absurd hk.timed (htimed k) }

/-- Unless a deadline passes before its call is inserted, no pending call outlives its deadline. -/
theorem pending_deadline_outstanding {timerThreads users : Nat} {c : ClientConfig}
    (hrun : client.Run KeepsDeadline (init timerThreads users) c) :
    ∀ k ∈ c.shared.calls.pendingList, DeadlineOutstanding c k := by
  have h : Deadlines c :=
    hrun.invariant (.init timerThreads users) fun h hok hstep => h.step hok hstep
  exact fun k hk => h.outstanding k (.inl (h.keyed.mem_pendingList.mp hk))

def waitingCall : ClientConfig :=
  client.follow (init 1 1) ((2, .operation (.callAsync {} { failFast := false } false)) ::
    List.replicate 6 (2, .next))

theorem pending_deadline_outstanding_waiting : DeadlineOutstanding waitingCall 0 :=
  pending_deadline_outstanding (Machine.run_follow (c := init 1 1) (by decide)) 0 (by decide)

/-- The deadline of a call passes on the other threads before its caller inserts it. -/
def lateInsertion : ClientConfig :=
  client.follow (init 1 1)
    ((2, Choice.operation (.callAsync {} { timeout := 1, failFast := false } false)) ::
      List.replicate 4 (2, .next) ++
      [(1, Choice.tick 1), (1, .submitTimer 1), (1, .runTimer 1), (1, .next), (1, .next),
        (0, .poll []), (0, .next), (0, .next), (2, .next), (2, .next)])

def queuesOrFails : Instr → Bool
  | .loop (.queueInLoop _) | .call (.failPending _ _ _) => true
  | _ => false

theorem deadline_consumed :
    client.Reaches (init 1 1) lateInsertion ∧ 0 ∈ lateInsertion.shared.calls.pendingList ∧
      ¬DeadlineOutstanding lateInsertion 0 := by
  have hstacks : lateInsertion.All fun i => queuesOrFails i = false := by decide
  refine ⟨Machine.reaches_follow _, by decide, ?_⟩
  rintro (⟨harmed, -⟩ | (hmem | ⟨t, hactive⟩) | ⟨t, hactive⟩)
  · exact absurd harmed (by decide)
  · have hempty : lateInsertion.shared.loop.pendingFunctors = [] := rfl
    rw [hempty] at hmem
    cases hmem
  · cases hstacks.of_active hactive
  · cases hstacks.of_active hactive

end UnixNotes.Rpc.Client
