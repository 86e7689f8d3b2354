import UnixNotes.Rpc.Client.CallStep
import UnixNotes.Rpc.Client.ConnectionState
import UnixNotes.Rpc.Client.Lifecycle

namespace UnixNotes.Rpc.Client

open Library

/-- `failSentPending` takes such a call out of `pendingCalls`. -/
def MustFail (call : Call) : Prop := call.state = .sent ∨ call.options.failFast = true

instance (call : Call) : Decidable (MustFail call) := inferInstanceAs (Decidable (_ ∨ _))

/-- Every pending call that must fail is about to be failed. -/
def sweeps : Instr → Bool
  | .call (.failSentPending _ _) | .call (.failAllPending _ _) => true
  | _ => false

def Covered (c : ClientConfig) : Prop :=
  c.shared.net.Established ∨ Opening c ∨ Losing c ∨ ∃ t i, c.Active t i ∧ sweeps i = true

instance (net : Net) : Decidable net.Established :=
  decidable_of_iff (∃ n ∈ net.connection, (net.connections n).state = .kConnected) Iff.rfl

instance (c : ClientConfig) : Decidable (Covered c) :=
  inferInstanceAs (Decidable (c.shared.net.Established ∨ Opening c ∨ Losing c ∨
    ∃ t i, c.Active t i ∧ sweeps i = true))

/-- Calls that must fail are inserted, and calls are sent, only before the sweep that follows the
loss of the connection; and no open connection is taken for lost. -/
def KeepsSwept (c : ClientConfig) (_ : Nat) : Instr → Prop
  | .call (.insertPending k) => MustFail (c.shared.calls.call k) → Covered c
  | .call (.markSent k _) => IsPending c.shared.calls k →
    (c.shared.calls.call k).state = .waitingToSend → Covered c
  | .net (.updateConnectionState state) => state ≠ .connected →
    ∀ n ∈ c.shared.net.connection, (c.shared.net.connections n).state = .kConnected →
      CloseOrdered c n ∨ StopAhead c
  | _ => True

instance (calls : CallTable) (k : Nat) : Decidable (IsPending calls k) :=
  inferInstanceAs (Decidable (_ = _))

instance (c : ClientConfig) (t : Nat) (i : Instr) : Decidable (KeepsSwept c t i) := by
  rcases i with ⟨⟨⟩⟩ | ⟨⟨⟩⟩ | i | k <;> dsimp only [KeepsSwept] <;> infer_instance

theorem KeepsSwept.established {c : ClientConfig} {t : Nat} {i : Instr} (h : KeepsSwept c t i) :
    KeepsEstablished c i := by
  rintro state rfl hne n hheld hstate
  exact h hne n hheld hstate

def unsentCall : Instr → Option Nat
  | .call (.nextRequestId k) | .call (.retryRequestId k) | .call (.callAsyncInternal k) => some k
  | .armDeadline k | .net (.checkState k) | .call (.insertPending k) => some k
  | _ => none

theorem ownedCall_of_unsentCall {i : Instr} {k : Nat} (h : unsentCall i = some k) :
    ownedCall i = some k := by
  unfold unsentCall at h
  split at h <;> cases h <;> rfl

section Exec

variable {t : Nat} {x : Choice} {s s' : State} {i : Instr} {pushed : List Instr} {k : Nat}

theorem pushes_unsentCall {j : Instr} (h : Pushes t s i j) (hj : unsentCall j = some k) :
    unsentCall i = some k ∨ i = .call .userCode ∧ k = s.calls.callCount := by
  cases h <;> cases hj
  case userCall => exact .inr ⟨rfl, rfl⟩
  all_goals exact .inl rfl

theorem begin_waiting {calls : CallTable} (h : CallInstr.userCode.exec t x s = some (calls, pushed))
    {j : Instr} (hj : j ∈ pushed) (hunsent : unsentCall j = some k) :
    (calls.call k).state = .waitingToSend := by
  simp only [CallInstr.exec] at h
  split at h
  · rename_i operation
    cases operation
    case callAsync request options callback =>
      cases h
      obtain rfl | hj := List.mem_cons.mp hj
      · cases hunsent
        exact congrArg Call.state (CallTable.set_call_self ..)
      · cases List.mem_singleton.mp hj
        cases hunsent
    all_goals
      cases h
      obtain rfl | hj := List.mem_cons.mp hj
      · cases hunsent
      · cases List.mem_singleton.mp hj
        cases hunsent
  · cases h
    cases hj

theorem failCalls_kept {calls : CallTable} {ks : List Nat}
    (h : IsPending (calls.failCalls ks) k) :
    IsPending calls k ∧ k ∉ ks ∧ (calls.failCalls ks).call k = calls.call k := by
  rw [IsPending, CallTable.failCalls_requestId, CallTable.failCalls_pendingCalls,
    PendingMap.find_removeCalls] at h
  exact ⟨h.1, h.2, if_neg h.2⟩

theorem erase_gone {calls : CallTable} {requestId : UInt64} (hkeyed : Keyed calls)
    (hfind : calls.pendingCalls.find requestId = some k) (state : PendingState) :
    ¬IsPending ((calls.setState k state).setPending (calls.pendingCalls.erase requestId)) k := by
  have hid := hkeyed requestId k hfind
  simp [IsPending, CallTable.setState, hid]

theorem exec_state (h : i.exec t x s = some (s', pushed)) (hkeyed : Keyed s.calls)
    (hbegun : k < s.calls.callCount) :
    (s'.calls.call k).state = (s.calls.call k).state ∨
      IsPending s.calls k ∧ (IsPending s'.calls k → (s'.calls.call k).state = .sent) := by
  by_cases hsame : (s'.calls.call k).state = (s.calls.call k).state
  · exact .inl hsame
  · refine .inr ?_
    obtain heq | ⟨i, rfl, hstep⟩ | ⟨rfl, hset⟩ := call_of_exec h hbegun
    · exact absurd (congrArg Call.state heq) hsame
    · obtain ⟨⟨calls, pushed⟩, hexec, heq⟩ := Option.map_eq_some_iff.mp h
      cases heq
      have hfailed : ∀ {ks : List Nat}, IsPending (s.calls.failCalls ks) k →
          ((s.calls.failCalls ks).call k).state = (s.calls.call k).state :=
        fun hkept => congrArg Call.state (failCalls_kept hkept).2.2
      generalize hcall : calls.call k = call at hstep
      have hsame' : call.state ≠ (s.calls.call k).state := fun heq => hsame (hcall ▸ heq)
      cases hstep with
      | markSent pending => exact ⟨pending, fun _ => rfl⟩
      | completeOne pending =>
        simp only [CallInstr.exec, pending] at hexec
        cases hexec
        exact ⟨hkeyed.isPending pending, fun hstill => absurd hstill (erase_gone hkeyed pending _)⟩
      | failOne pending =>
        simp only [CallInstr.exec, pending] at hexec
        cases hexec
        exact ⟨hkeyed.isPending pending, fun hstill => absurd hstill (erase_gone hkeyed pending _)⟩
      | failAll pending | failSent pending =>
        refine ⟨hkeyed.mem_pendingList.mp pending, fun hkept => ?_⟩
        simp only [CallInstr.exec] at hexec
        (repeat' split at hexec) <;> cases hexec
        exact absurd (hfailed hkept) hsame
      | expire pending =>
        refine ⟨hkeyed.mem_pendingList.mp pending, fun hkept => ?_⟩
        simp only [CallInstr.exec] at hexec
        (repeat' split at hexec) <;> cases hexec
        all_goals
          rename_i ks hperm _
          rw [CallTable.countAttempts_congr Call.state _ _ _ fun _ _ => rfl] at hsame
          rw [IsPending, CallTable.countAttempts_requestId] at hkept
          exact absurd (hfailed hkept) hsame
      | countAttempt pending =>
        rw [countAttempt] at hsame'
        split at hsame' <;> exact absurd rfl hsame'
      | complete =>
        rw [Call.complete] at hsame'
        split at hsame' <;> exact absurd rfl hsame'
      | keep same => exact absurd (congrArg Call.state same) hsame'
      | _ => exact absurd rfl hsame'
    · rw [hset] at hsame
      exact absurd rfl hsame

theorem exec_mustFail (h : i.exec t x s = some (s', pushed)) (hbegun : k < s.calls.callCount)
    (hfail : MustFail (s'.calls.call k)) :
    MustFail (s.calls.call k) ∨ ∃ n, i = .call (.markSent k n) ∧ IsPending s.calls k ∧
      (s.calls.call k).state = .waitingToSend := by
  obtain hsame | ⟨i, rfl, hstep⟩ | ⟨rfl, hset⟩ := call_of_exec h hbegun
  · rw [hsame] at hfail
    exact .inl hfail
  · generalize s'.calls.call k = call at hstep hfail
    cases hstep with
    | keep same => exact .inl (same ▸ hfail)
    | markSent pending waiting => exact .inr ⟨_, rfl, pending, waiting⟩
    | complete =>
      rw [Call.complete] at hfail
      split at hfail <;> exact .inl hfail
    | countAttempt =>
      rw [countAttempt] at hfail
      split at hfail <;> exact .inl hfail
    | completeOne | failAll | failSent | expire =>
      exact .inl (.inr (hfail.resolve_left fun hstate => by cases hstate))
    | failOne =>
      refine .inl (.inr (hfail.resolve_left fun hstate => ?_))
      simp only [failedState] at hstate
      split at hstate <;> cases hstate
    | _ => exact .inl hfail
  · rw [hset] at hfail
    exact .inl hfail

theorem not_mustFail_of_sweep (h : i.exec t x s = some (s', pushed)) (hsweep : sweeps i = true)
    (hpending : IsPending s'.calls k) : ¬MustFail (s'.calls.call k) := by
  unfold sweeps at hsweep
  split at hsweep
  · obtain ⟨⟨calls, pushed⟩, hexec, heq⟩ := Option.map_eq_some_iff.mp h
    cases heq
    simp only [CallInstr.exec] at hexec
    (repeat' split at hexec) <;> cases hexec
    rename_i ks hperm
    obtain ⟨hfind, hkept, hcall⟩ := failCalls_kept hpending
    intro hfail
    rw [hcall] at hfail
    refine hkept (hperm.mem_iff.mpr (mem_select.mpr ⟨⟨_, hfind⟩, ?_⟩))
    simpa [MustFail] using hfail
  · obtain ⟨⟨calls, pushed⟩, hexec, heq⟩ := Option.map_eq_some_iff.mp h
    cases heq
    simp only [CallInstr.exec] at hexec
    (repeat' split at hexec) <;> cases hexec
    rename_i ks hperm
    obtain ⟨hfind, hkept, -⟩ := failCalls_kept hpending
    exact absurd (hperm.mem_iff.mpr (mem_pendingList.mpr ⟨_, hfind⟩)) hkept
  · cases hsweep

end Exec

section Step

variable {c c' : ClientConfig} {t : Nat} {i : Instr}

theorem Covered.step (h : Covered c) (hconnections : Connections c)
    (hstopping : c.shared.net.stopping = false) (hstep : client.Step c t i c')
    (hsweep : sweeps i = false) : Covered c' := by
  obtain hestablished | ⟨t', n, hopening⟩ | hlosing | ⟨t', j, hactive, hj⟩ := h
  · obtain hestablished | hlosing | hopening :=
      established_step hestablished (hconnections.running hstopping) hstep
    · exact .inl hestablished
    · exact .inr (.inr (.inl hlosing))
    · exact .inr (.inl hopening)
  · obtain @⟨rest, x, s, pushed, htop, hexec⟩ := hstep
    by_cases hi : .net (.connectEstablished n) = i
    · subst hi
      have hheld := (hconnections.connecting t n (Config.active_of_top htop)).1
      cases hexec
      exact .inl ⟨n, hheld, setSocketState_self ..⟩
    · exact .inr (.inl ⟨t', n, Config.active_replace_of_ne htop s pushed hopening hi⟩)
  · obtain hlosing | ⟨n, rfl, hlost⟩ := hlosing.step hconnections hstopping hstep
    · exact .inr (.inr (.inl hlosing))
    · obtain @⟨rest, x, s, pushed, htop, hexec⟩ := hstep
      obtain ⟨⟨net, pushed⟩, hchange, heq⟩ := Option.map_eq_some_iff.mp hexec
      cases heq
      simp only [NetInstr.exec, hlost] at hchange
      cases hchange
      exact .inr (.inr (.inr ⟨t, _, Config.active_replace_of_pushed htop _
        (List.mem_cons_self ..), rfl⟩))
  · obtain @⟨rest, x, s, pushed, htop, hexec⟩ := hstep
    refine .inr (.inr (.inr ⟨t', j, Config.active_replace_of_ne htop s pushed hactive ?_, hj⟩))
    rintro rfl
    rw [hsweep] at hj
    cases hj

end Step

structure Waiting (c : ClientConfig) : Prop extends Lifecycle c where
  unsent : ∀ t i k, c.Active t i → unsentCall i = some k →
    (c.shared.calls.call k).state = .waitingToSend
  waiting : ∀ k, IsPending c.shared.calls k →
    (c.shared.calls.call k).state = .waitingToSend ∨ (c.shared.calls.call k).state = .sent

section Step

variable {c : ClientConfig} {t : Nat} {i : Instr} {rest : List Instr} {x : Choice} {s : State}
  {pushed : List Instr} {k : Nat} (h : Waiting c) (htop : c.stack t = i :: rest)
  (hexec : i.exec t x c.shared = some (s, pushed))
include h htop hexec

theorem Waiting.unsent_step {t' : Nat} {j : Instr}
    (hactive : (c.replace t s (pushed ++ rest)).Active t' j) (hj : unsentCall j = some k) :
    (s.calls.call k).state = .waitingToSend := by
  have hkept : ∀ {t' j}, c.Active t' j → unsentCall j = some k →
      (s.calls.call k).state = .waitingToSend := by
    intro t' j hbefore hj
    have hown := ownedCall_of_unsentCall hj
    obtain hsame | ⟨hpending, -⟩ := exec_state hexec h.keyed (h.begun hbefore hown)
    · rw [hsame]
      exact h.unsent t' j k hbefore hj
    · exact absurd hown (h.unowned hpending hbefore)
  obtain ⟨-, hpushed⟩ | hbefore := Config.active_of_replace htop hactive
  · obtain hi | ⟨rfl, rfl⟩ := pushes_unsentCall (pushes_of_exec hexec j hpushed) hj
    · exact hkept (Config.active_of_top htop) hi
    · obtain ⟨⟨calls, pushed⟩, hbegin, heq⟩ := Option.map_eq_some_iff.mp hexec
      cases heq
      exact begin_waiting hbegin hpushed hj
  · exact hkept hbefore hj

theorem Waiting.waiting_step (hpending : IsPending s.calls k) :
    (s.calls.call k).state = .waitingToSend ∨ (s.calls.call k).state = .sent := by
  obtain hbefore | rfl := instr_pending hexec h.keyed hpending
  · have hbegun := lt_callCount_of_pending
      (Nat.le_trans (Nat.le_add_right _ _) (h.once k)) hbefore
    obtain hsame | ⟨-, hsent⟩ := exec_state hexec h.keyed hbegun
    · rw [hsame]
      exact h.waiting k hbefore
    · exact .inr (hsent hpending)
  · have hactive := Config.active_of_top htop
    have hwaiting := h.unsent t _ k hactive rfl
    obtain hsame | ⟨hbefore, -⟩ :=
      exec_state (i := .call (.insertPending k)) hexec h.keyed (h.begun hactive rfl)
    · exact .inl (hsame.trans hwaiting)
    · exact absurd rfl (h.unowned hbefore hactive)

end Step

theorem Waiting.step {c c' : ClientConfig} {t : Nat} {i : Instr} (h : Waiting c)
    (hstep : client.Step c t i c') : Waiting c' := by
  have hlife := h.toLifecycle.step hstep
  obtain @⟨rest, x, s, pushed, htop, hexec⟩ := hstep
  exact { hlife with
    unsent := fun _ _ _ hactive hj => h.unsent_step htop hexec hactive hj
    waiting := fun _ hpending => h.waiting_step htop hexec hpending }

theorem Waiting.init (timerThreads users : Nat) : Waiting (init timerThreads users) where
  toLifecycle := .init timerThreads users
  unsent := by
    intro t i k hactive hi
    obtain rfl | rfl | rfl := mem_init_stack hactive <;> cases hi
  waiting := by
    intro k hpending
    cases hpending

/-- Calls that must fail wait for a sweep, or for a connection whose loss brings one. -/
structure Swept (c : ClientConfig) : Prop extends Tracked c, Waiting c where
  covered : c.shared.net.stopping = false → ∀ k, IsPending c.shared.calls k →
    MustFail (c.shared.calls.call k) → Covered c

theorem Swept.step {c c' : ClientConfig} {t : Nat} {i : Instr} (h : Swept c)
    (hok : KeepsSwept c t i) (hstep : client.Step c t i c') : Swept c' where
  toTracked := h.toTracked.step hok.established hstep
  toWaiting := h.toWaiting.step hstep
  covered := by
    intro hstopping k hpending hfail
    have hbefore := stopping_of_step hstep hstopping
    have hsweep : sweeps i = false := by
      obtain @⟨rest, x, s, pushed, htop, hexec⟩ := hstep
      by_contra hsweep
      exact not_mustFail_of_sweep hexec (Bool.not_eq_false _ ▸ hsweep) hpending hfail
    suffices hcovered : Covered c from hcovered.step h.toConnections hbefore hstep hsweep
    obtain @⟨rest, x, s, pushed, htop, hexec⟩ := hstep
    rw [Config.shared_replace] at hpending hfail
    obtain hp | rfl := instr_pending hexec h.keyed hpending
    · have hbegun := lt_callCount_of_pending
        (Nat.le_trans (Nat.le_add_right _ _) (h.once k)) hp
      obtain hmust | ⟨n, rfl, -, hwaiting⟩ := exec_mustFail hexec hbegun hfail
      · exact h.covered hbefore k hp hmust
      · exact hok hp hwaiting
    · have hbegun := h.begun (k := k) (Config.active_of_top htop) rfl
      obtain hmust | ⟨n, heq, -⟩ :=
        exec_mustFail (i := .call (.insertPending k)) hexec hbegun hfail
      · exact hok hmust
      · cases heq

theorem Swept.init (timerThreads users : Nat) : Swept (init timerThreads users) where
  toTracked := .init timerThreads users
  toWaiting := .init timerThreads users
  covered := by
    intro _ k hpending
    cases hpending

/-- While no call is inserted or sent behind the sweep, a client without connection is left with
calls that wait to be sent. -/
theorem quiescent_pending_waiting {timerThreads users : Nat} {c : ClientConfig}
    (hrun : client.Run KeepsSwept (init timerThreads users) c) (hquiescent : Quiescent c)
    (hstopping : c.shared.net.stopping = false)
    (hstate : c.shared.net.connectionState ≠ .connected) :
    ∀ k ∈ c.shared.calls.pendingList, (c.shared.calls.call k).state = .waitingToSend ∧
      (c.shared.calls.call k).options.failFast = false := by
  have h : Swept c := hrun.invariant (.init timerThreads users) fun h hok hstep => h.step hok hstep
  intro k hk
  have hpending := h.keyed.mem_pendingList.mp hk
  have hkeep : ¬MustFail (c.shared.calls.call k) := by
    intro hfail
    obtain hestablished | ⟨t, n, hopening⟩ | hlosing | ⟨t, i, hactive, hi⟩ :=
      h.covered hstopping k hpending hfail
    · exact hstate ((hquiescent.connected_iff h.toTracked hstopping).mpr hestablished)
    · exact hquiescent.not_net hopening
    · exact hquiescent.not_losing hlosing
    · obtain rfl | rfl | rfl := hquiescent.idle t i hactive <;> cases hi
  obtain ⟨hunsent, hslow⟩ := not_or.mp hkeep
  exact ⟨(h.waiting k hpending).resolve_right hunsent, Bool.not_eq_true _ ▸ hslow⟩

/-- A call has been sent when the connection is lost, and another one is queued after that. -/
def lostConnection : ClientConfig :=
  client.follow connectedClient
    ((2, Choice.operation (.callAsync {} {} false)) :: List.replicate 7 (2, .next) ++
      (2, Choice.order [0]) :: List.replicate 5 (2, .next) ++
      (0, Choice.poll [.closed 0]) :: List.replicate 6 (0, .next) ++
      (0, Choice.order [0]) :: List.replicate 12 (0, .next) ++
      (2, Choice.operation (.callAsync {} { failFast := false } false)) ::
        List.replicate 7 (2, .next))

theorem quiescent_pending_waiting_lost :
    (lostConnection.shared.calls.call 0).completed.map (·.errorCode) =
        some RpcErrorCode.networkError.toInt32 ∧
      lostConnection.shared.calls.pendingList = [1] ∧
      (lostConnection.shared.calls.call 1).state = .waitingToSend ∧
      (lostConnection.shared.calls.call 1).options.failFast = false := by
  have hrun : client.Run KeepsSwept (init 1 1) connectedClient :=
    Machine.run_follow (c := init 1 1) (by decide)
  exact ⟨by decide, by decide, quiescent_pending_waiting (hrun.trans (Machine.run_follow (by decide)))
    (quiescent_of_stacks (by decide) (by decide)) (by decide) (by decide) 1 (by decide)⟩

/-- The connection is lost between the look at `connectionState_` and the insertion of a call that
must fail fast. -/
def strandedCall : ClientConfig :=
  client.follow connectedClient
    ((2, Choice.operation (.callAsync {} {} false)) :: List.replicate 5 (2, .next) ++
      (0, Choice.poll [.closed 0]) :: List.replicate 6 (0, .next) ++ [(0, Choice.order [])] ++
      List.replicate 6 (0, Choice.next) ++ List.replicate 2 (2, Choice.next))

theorem call_left_queued :
    client.Reaches (init 1 1) strandedCall ∧ Quiescent strandedCall ∧
      strandedCall.shared.net.stopping = false ∧
      strandedCall.shared.net.connectionState = .reconnecting ∧
      0 ∈ strandedCall.shared.calls.pendingList ∧
      (strandedCall.shared.calls.call 0).options.failFast = true :=
  ⟨(Machine.reaches_follow (c := init 1 1) _).trans (Machine.reaches_follow _),
    quiescent_of_stacks (by decide) (by decide), by decide, by decide, by decide, by decide⟩

end UnixNotes.Rpc.Client
