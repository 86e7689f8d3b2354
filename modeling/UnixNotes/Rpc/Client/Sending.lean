import UnixNotes.Rpc.Client.PendingSweep

namespace UnixNotes.Rpc.Client

open Library

/-- `TcpConnection::send` is invoked with the frame of the call `k`. -/
def sends (k : Nat) : Instr → Bool
  | .call (.send j _) => j = k
  | _ => false

theorem sends_eq_true {k : Nat} {i : Instr} : sends k i = true ↔ ∃ n, i = .call (.send k n) := by
  constructor
  · intro h
    unfold sends at h
    split at h
    · obtain rfl := of_decide_eq_true h
      exact ⟨_, rfl⟩
    · cases h
  · rintro ⟨n, rfl⟩
    exact decide_eq_true rfl

def sendCount (k : Nat) (steps : List (Nat × Instr)) : Nat := steps.countP fun step => sends k step.2

def sendToken (k : Nat) (i : Instr) : Nat := if sends k i then 1 else 0

theorem sendCount_append_singleton (k : Nat) (steps : List (Nat × Instr)) (t : Nat) (i : Instr) :
    sendCount k (steps ++ [(t, i)]) = sendCount k steps + sendToken k i := by
  simp [sendCount, sendToken]

section Exec

variable {t : Nat} {x : Choice} {s s' : State} {i : Instr} {pushed : List Instr} {k : Nat}

theorem exec_waiting (h : i.exec t x s = some (s', pushed)) (hbegun : k < s.calls.callCount)
    (hwaiting : (s'.calls.call k).state = .waitingToSend) :
    (s.calls.call k).state = .waitingToSend := by
  obtain hsame | ⟨i, rfl, hstep⟩ | ⟨rfl, hset⟩ := call_of_exec h hbegun
  · exact hsame ▸ hwaiting
  · generalize s'.calls.call k = call at hstep hwaiting
    cases hstep with
    | keep same => exact same ▸ hwaiting
    | complete =>
      rw [Call.complete] at hwaiting
      split at hwaiting <;> exact hwaiting
    | countAttempt =>
      rw [countAttempt] at hwaiting
      split at hwaiting <;> exact hwaiting
    | failOne =>
      simp only [failedState] at hwaiting
      split at hwaiting <;> cases hwaiting
    | markSent | completeOne | failAll | failSent | expire => cases hwaiting
    | _ => exact hwaiting
  · rw [hset] at hwaiting
    exact hwaiting

theorem exec_sent (h : i.exec t x s = some (s', pushed)) (hbegun : k < s.calls.callCount)
    (hsent : (s'.calls.call k).state = .sent) :
    (s.calls.call k).state = .sent ∨ (s.calls.call k).state = .waitingToSend ∧
      ∃ n, i = .call (.markSent k n) ∧ pushed = [.call (.send k n)] := by
  obtain hsame | ⟨i, rfl, hstep⟩ | ⟨rfl, hset⟩ := call_of_exec h hbegun
  · exact .inl (hsame ▸ hsent)
  · generalize s'.calls.call k = call at hstep hsent
    cases hstep with
    | keep same => exact .inl (same ▸ hsent)
    | @markSent n pending waiting =>
      obtain ⟨⟨calls, pushed⟩, hexec, heq⟩ := Option.map_eq_some_iff.mp h
      cases heq
      simp only [CallInstr.exec, pending, waiting] at hexec
      cases hexec
      exact .inr ⟨waiting, n, rfl, rfl⟩
    | complete =>
      rw [Call.complete] at hsent
      split at hsent <;> exact .inl hsent
    | countAttempt =>
      rw [countAttempt] at hsent
      split at hsent <;> exact .inl hsent
    | failOne =>
      simp only [failedState] at hsent
      split at hsent <;> cases hsent
    | completeOne | failAll | failSent | expire => cases hsent
    | _ => exact .inl hsent
  · rw [hset] at hsent
    exact .inl hsent

theorem send_pushed {n : Nat} (h : i.exec t x s = some (s', pushed))
    (hj : .call (.send k n) ∈ pushed) :
    i = .call (.markSent k n) ∧ pushed = [.call (.send k n)] ∧ IsPending s.calls k ∧
      (s.calls.call k).state = .waitingToSend ∧ (s'.calls.call k).state = .sent := by
  cases pushes_of_exec h _ hj
  obtain ⟨⟨calls, pushed⟩, hexec, heq⟩ := Option.map_eq_some_iff.mp h
  cases heq
  simp only [CallInstr.exec] at hexec
  split at hexec <;> cases hexec
  · rename_i hpending
    exact ⟨rfl, rfl, hpending.1, hpending.2, congrArg Call.state (CallTable.set_call_self ..)⟩
  · cases hj

theorem weigh_sendToken (h : i.exec t x s = some (s', pushed)) :
    Config.weigh (sendToken k) pushed = 0 ∨ Config.weigh (sendToken k) pushed = 1 ∧
      (s.calls.call k).state = .waitingToSend ∧ (s'.calls.call k).state = .sent ∧
      IsPending s.calls k := by
  by_cases hnone : ∀ j ∈ pushed, sends k j = false
  · refine .inl (Config.weigh_eq_zero fun j hj => ?_)
    simp [sendToken, hnone j hj]
  · refine .inr ?_
    simp only [not_forall, Bool.not_eq_false] at hnone
    obtain ⟨j, hj, hsends⟩ := hnone
    obtain ⟨n, rfl⟩ := sends_eq_true.mp hsends
    obtain ⟨-, rfl, hpending, hwaiting, hsent⟩ := send_pushed h hj
    exact ⟨by simp [sendToken, sends], hwaiting, hsent, hpending⟩

end Exec

structure Sending (steps : List (Nat × Instr)) (c : ClientConfig) : Prop extends Waiting c where
  unsentCount : ∀ k, (k < c.shared.calls.callCount →
    (c.shared.calls.call k).state = .waitingToSend) → sendCount k steps + c.total (sendToken k) = 0
  sentCount : ∀ k, k < c.shared.calls.callCount → (c.shared.calls.call k).state = .sent →
    sendCount k steps + c.total (sendToken k) = 1
  atMostOnce : ∀ k, sendCount k steps + c.total (sendToken k) ≤ 1

theorem Sending.step {steps : List (Nat × Instr)} {c c' : ClientConfig} {t : Nat} {i : Instr}
    (h : Sending steps c) (hstep : client.Step c t i c') : Sending (steps ++ [(t, i)]) c' := by
  have hwaiting := h.toWaiting.step hstep
  obtain @⟨rest, x, s, pushed, htop, hexec⟩ := hstep
  have htotal : ∀ k, sendCount k (steps ++ [(t, i)]) +
      (c.replace t s (pushed ++ rest)).total (sendToken k) =
      sendCount k steps + c.total (sendToken k) + Config.weigh (sendToken k) pushed := by
    intro k
    have := Config.total_replace (sendToken k) htop s pushed
    rw [sendCount_append_singleton]
    omega
  have hbegun : ∀ k, IsPending c.shared.calls k → k < c.shared.calls.callCount := fun k hpending =>
    lt_callCount_of_pending (Nat.le_trans (Nat.le_add_right _ _) (h.once k)) hpending
  refine { hwaiting with unsentCount := ?_, sentCount := ?_, atMostOnce := ?_ }
  · intro k hunsent
    rw [Config.shared_replace] at hunsent
    rw [htotal]
    obtain hnone | ⟨-, -, hsent, hpending⟩ := weigh_sendToken (k := k) hexec
    · rw [hnone, h.unsentCount k fun hk =>
        exec_waiting hexec hk (hunsent (Nat.lt_of_lt_of_le hk (callCount_le_of_exec hexec)))]
    · have hk := Nat.lt_of_lt_of_le (hbegun k hpending) (callCount_le_of_exec hexec)
      rw [hunsent hk] at hsent
      cases hsent
  · intro k hk hsent
    rw [Config.shared_replace] at hk hsent
    rw [htotal]
    obtain hbefore | ⟨request, options, callback, hnew⟩ := begin_of_exec hexec hk
    · obtain hsame | ⟨hunsent, n, rfl, rfl⟩ := exec_sent hexec hbefore hsent
      · have hcount := h.sentCount k hbefore hsame
        obtain hnone | ⟨-, hunsent, -⟩ := weigh_sendToken (k := k) hexec
        · rw [hnone, hcount]
        · rw [hsame] at hunsent
          cases hunsent
      · rw [h.unsentCount k fun _ => hunsent]
        simp [sendToken, sends]
    · rw [hnew] at hsent
      cases hsent
  · intro k
    rw [htotal]
    obtain hnone | ⟨hone, hunsent, -⟩ := weigh_sendToken (k := k) hexec
    · rw [hnone]
      exact h.atMostOnce k
    · rw [hone, h.unsentCount k fun _ => hunsent]

theorem Sending.init (timerThreads users : Nat) : Sending [] (init timerThreads users) where
  toWaiting := .init timerThreads users
  unsentCount := by
    intro k _
    rw [total_init rfl rfl rfl]
    rfl
  sentCount := by
    intro k hk
    cases hk
  atMostOnce := by
    intro k
    rw [total_init rfl rfl rfl]
    exact Nat.zero_le 1

theorem Sending.trace {timerThreads users : Nat} {steps : List (Nat × Instr)} {c : ClientConfig}
    (h : client.Trace (Client.init timerThreads users) steps c) : Sending steps c :=
  h.invariant (.init timerThreads users) fun h hstep => h.step hstep

theorem not_waiting_of_reaches {c c' : ClientConfig} {k : Nat} (hrun : client.Reaches c c')
    (hk : k < c.shared.calls.callCount) (hsent : (c.shared.calls.call k).state ≠ .waitingToSend) :
    k < c'.shared.calls.callCount ∧ (c'.shared.calls.call k).state ≠ .waitingToSend := by
  refine hrun.invariant (I := fun c => k < c.shared.calls.callCount ∧
    (c.shared.calls.call k).state ≠ .waitingToSend) ⟨hk, hsent⟩ ?_
  rintro c c' t i ⟨hk, hsent⟩ - ⟨-, hexec⟩
  exact ⟨Nat.lt_of_lt_of_le hk (callCount_le_of_exec hexec),
    fun hwaiting => hsent (exec_waiting hexec hk hwaiting)⟩

/-- In every run the frame of a call is handed to a connection at most once, and a call that was
sent never waits again. -/
theorem sent_once {timerThreads users : Nat} {steps : List (Nat × Instr)} {c : ClientConfig}
    (htrace : client.Trace (init timerThreads users) steps c) (k : Nat) :
    sendCount k steps ≤ 1 ∧
      (k < c.shared.calls.callCount → (c.shared.calls.call k).state = .sent →
        ∀ c', client.Reaches c c' → (c'.shared.calls.call k).state ≠ .waitingToSend) := by
  refine ⟨Nat.le_trans (Nat.le_add_right _ _) ((Sending.trace htrace).atMostOnce k), ?_⟩
  intro hk hsent c' hrun
  exact (not_waiting_of_reaches hrun hk (by simp [hsent])).2

def callMoves : List (Nat × Choice) :=
  (2, Choice.operation (.callAsync {} {} false)) :: List.replicate 7 (2, .next) ++
    [(2, Choice.order [0])] ++ List.replicate 4 (2, Choice.next)

theorem sent_once_call : ∃ steps,
    client.Trace (init 1 1) steps (client.follow connectedClient callMoves) ∧
      sendCount 0 steps = 1 ∧
      ∀ c, client.Reaches (client.follow connectedClient callMoves) c →
        (c.shared.calls.call 0).state ≠ .waitingToSend := by
  have htrace : client.Trace (init 1 1) _ (client.follow connectedClient callMoves) :=
    (Machine.trace_follow (by decide)).trans (Machine.trace_follow (by decide))
  refine ⟨_, htrace, ?_, (sent_once htrace 0).2 (by decide) (by decide)⟩
  decide

/-- A response completes only a call whose frame was handed to a connection, and leaves the calls
that wait as they are. -/
def AnswersSent (steps : List (Nat × Instr)) (calls calls' : CallTable) (response : RpcResponse) :
    Prop :=
  (∀ k, IsPending calls k → ¬IsPending calls' k → 0 < sendCount k steps) ∧
    ∀ k, (calls.call k).requestId = response.requestId → (calls.call k).state = .waitingToSend →
      calls'.call k = calls.call k ∧ (IsPending calls' k ↔ IsPending calls k)

/-- The call was marked as sent, and its frame handed to a connection. -/
def HandedOver (c : ClientConfig) (k : Nat) : Prop :=
  (c.shared.calls.call k).state ≠ .waitingToSend ∧ ∀ t n, ¬c.Active t (.call (.send k n))

theorem erase_other {calls : CallTable} {requestId : UInt64} {j k : Nat}
    (hfind : calls.pendingCalls.find requestId = some j) (state : PendingState) (hk : k ≠ j) :
    ((calls.setState j state).setPending (calls.pendingCalls.erase requestId)).call k =
        calls.call k ∧
      (IsPending ((calls.setState j state).setPending (calls.pendingCalls.erase requestId)) k ↔
        IsPending calls k) := by
  have hcall : (calls.setState j state).call k = calls.call k := CallTable.set_call_ne _ _ hk
  refine ⟨hcall, ?_⟩
  rw [IsPending, IsPending, CallTable.setPending_call, CallTable.setPending_pendingCalls, hcall]
  by_cases hid : (calls.call k).requestId = requestId
  · rw [hid, PendingMap.find_erase_self, hfind]
    simpa using hk.symm
  · rw [PendingMap.find_erase_ne hid]

/-- In every run a response does what it may exactly when it names no call that waits or is about
to be handed over. -/
theorem response_answers_sent_iff {timerThreads users : Nat} {steps : List (Nat × Instr)}
    {c c' : ClientConfig} {t : Nat} {response : RpcResponse}
    (htrace : client.Trace (init timerThreads users) steps c)
    (hstep : client.Step c t (.call (.completeResponse response)) c') :
    AnswersSent steps c.shared.calls c'.shared.calls response ↔
      ∀ k, c.shared.calls.pendingCalls.find response.requestId = some k → HandedOver c k := by
  have h := Sending.trace htrace
  obtain @⟨rest, x, s, pushed, htop, hexec⟩ := hstep
  obtain ⟨⟨calls, pushed⟩, hanswer, heq⟩ := Option.map_eq_some_iff.mp hexec
  cases heq
  rw [Config.shared_replace]
  simp only [CallInstr.exec] at hanswer
  split at hanswer
  · rename_i hnone
    cases hanswer
    constructor
    · intro _ k hfind
      rw [hnone] at hfind
      cases hfind
    · intro _
      exact ⟨fun k hpending hgone => absurd hpending hgone, fun k _ _ => ⟨rfl, Iff.rfl⟩⟩
  · rename_i j hfind
    cases hanswer
    have hpending := h.keyed.isPending hfind
    have hgone := erase_gone h.keyed hfind .completed
    constructor
    · rintro ⟨hanswers, hwaiting⟩ k hk
      obtain rfl : j = k := Option.some.inj (hfind.symm.trans hk)
      refine ⟨fun hunsent => ?_, fun t' n hactive => ?_⟩
      · exact hgone ((hwaiting j (h.keyed _ _ hfind) hunsent).2.mpr hpending)
      · have hhanded := hanswers j hpending hgone
        have htoken := Config.le_total (w := sendToken j) hactive
        have honce := h.atMostOnce j
        simp only [sendToken, sends, decide_true, if_true] at htoken
        omega
    · intro hhanded
      obtain ⟨hnotWaiting, hsends⟩ := hhanded j hfind
      constructor
      · intro k hbefore hafter
        obtain rfl : k = j := by
          by_contra hk
          exact hafter ((erase_other hfind .completed hk).2.mpr hbefore)
        have hbegun := lt_callCount_of_pending
          (Nat.le_trans (Nat.le_add_right _ _) (h.once k)) hbefore
        have hcount := h.sentCount k hbegun ((h.waiting k hbefore).resolve_left hnotWaiting)
        rw [Config.total_eq_zero fun t' i hactive => ?_] at hcount
        · omega
        · rw [sendToken, if_neg]
          intro hsend
          obtain ⟨n, rfl⟩ := sends_eq_true.mp hsend
          exact hsends t' n hactive
      · intro k _ hunsent
        have hk : k ≠ j := by
          rintro rfl
          exact hnotWaiting hunsent
        exact erase_other hfind .completed hk

def responseMoves : List (Nat × Choice) :=
  [(0, .poll [.readable 0 [77, 82, 80, 67, 0, 1, 0, 2, 0, 0, 0, 0, 0, 0, 0, 1, 0, 0, 0, 8, 0, 0, 0,
    0, 0, 0, 0, 0, 0, 0, 0, 0] false]), (0, .next), (0, .next)]

def lateResponse : ClientConfig := client.follow connectedClient (callMoves ++ responseMoves)

set_option maxRecDepth 10000 in
theorem response_answers_sent_iff_late : ∃ steps,
    AnswersSent steps lateResponse.shared.calls
      (client.follow lateResponse [(0, .next)]).shared.calls { requestId := 1 } := by
  have htrace : client.Trace (init 1 1) _ lateResponse :=
    (Machine.trace_follow (by decide)).trans (Machine.trace_follow (by decide))
  refine ⟨_, (response_answers_sent_iff htrace
    (Machine.step_follow (by decide) (by decide))).mpr ?_⟩
  intro k hfind
  have hk : lateResponse.shared.calls.pendingCalls.find 1 = some 0 := by decide
  obtain rfl : 0 = k := Option.some.inj (hk.symm.trans hfind)
  refine ⟨by decide, fun t n hactive => ?_⟩
  have hnone : lateResponse.All fun i => sends 0 i = false := by decide
  cases hnone.of_active hactive

/-- The peer answers a call as soon as that is inserted. -/
def earlyResponse : ClientConfig :=
  client.follow connectedClient
    ((2, Choice.operation (.callAsync {} {} false)) :: List.replicate 6 (2, .next) ++ responseMoves)

set_option maxRecDepth 10000 in
theorem early_response_answers : ∃ steps,
    client.Trace (init 1 1) steps earlyResponse ∧
      client.Step earlyResponse 0 (.call (.completeResponse { requestId := 1 }))
        (client.follow earlyResponse [(0, .next)]) ∧
      sendCount 0 steps = 0 ∧ (earlyResponse.shared.calls.call 0).state = .waitingToSend ∧
      IsPending earlyResponse.shared.calls 0 ∧
      ¬IsPending (client.follow earlyResponse [(0, .next)]).shared.calls 0 := by
  have htrace : client.Trace (init 1 1) _ earlyResponse :=
    (Machine.trace_follow (by decide)).trans (Machine.trace_follow (by decide))
  refine ⟨_, htrace, Machine.step_follow (by decide) (by decide), ?_,
    by decide, by decide, by decide⟩
  decide

end UnixNotes.Rpc.Client
