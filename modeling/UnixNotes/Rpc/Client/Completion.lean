import UnixNotes.Rpc.Client.ConnectionState
import UnixNotes.Rpc.Client.Lifecycle

namespace UnixNotes.Rpc.Client

open Library

section Future

variable {t : Nat} {x : Choice} {s s' : State} {pushed : List Instr} {k : Nat}

theorem instr_completed {i : Instr} (h : i.exec t x s = some (s', pushed))
    (hbegun : k < s.calls.callCount)
    (hi : ∀ response route, i ≠ .call (.complete k response route)) :
    (s'.calls.call k).completed = (s.calls.call k).completed ∧
      (s'.calls.call k).completions = (s.calls.call k).completions := by
  obtain hsame | ⟨i, rfl, hstep⟩ | ⟨rfl, hset⟩ := call_of_exec h hbegun
  · rw [hsame]
    exact ⟨rfl, rfl⟩
  · generalize s'.calls.call k = call at hstep ⊢
    cases hstep with
    | keep same => simp [same]
    | complete => exact absurd rfl (hi _ _)
    | countAttempt =>
      rw [countAttempt]
      split <;> exact ⟨rfl, rfl⟩
    | _ => exact ⟨rfl, rfl⟩
  · rw [hset]
    exact ⟨rfl, rfl⟩

end Future

namespace Lifecycle

variable {c c' : ClientConfig} {k : Nat} {response : RpcResponse}

theorem completions_length (h : Lifecycle c) (hk : k < c.shared.calls.callCount) :
    (c.shared.calls.call k).completions.length ≤ 1 := by
  have hsettled := h.settled k hk
  rw [Account.Settled] at hsettled
  split at hsettled
  · have hcompletions : (c.shared.calls.call k).completions = [] := hsettled.completions
    simp [hcompletions]
  · obtain ⟨⟨t, hcompletions⟩, -⟩ := hsettled
    have hcompletions : (c.shared.calls.call k).completions = [_] := hcompletions
    simp [hcompletions]

theorem invocations_length (h : Lifecycle c) (hk : k < c.shared.calls.callCount) :
    (c.shared.calls.call k).invocations.length ≤ 1 := by
  have hsettled := h.settled k hk
  rw [Account.Settled] at hsettled
  split at hsettled
  · have hinvocations : (c.shared.calls.call k).invocations = [] := hsettled.invocations
    simp [hinvocations]
  · obtain ⟨-, -, hinvocations⟩ := hsettled
    have hinvocations : (c.shared.calls.call k).invocations = [] ∨
        (c.shared.calls.call k).invocations = [_] := hinvocations
    obtain hnone | hone := hinvocations
    · simp [hnone]
    · simp [hone]

theorem completed_requestId (h : Lifecycle c) (hk : k < c.shared.calls.callCount)
    (hcompleted : (c.shared.calls.call k).completed = some response) :
    response.requestId = (c.shared.calls.call k).requestId := by
  have hsettled := h.settled k hk
  have hcompleted : (c.shared.calls.call k).account.completed = some response := hcompleted
  rw [Account.Settled, hcompleted] at hsettled
  exact hsettled.2.1

theorem not_pending_of_completed (h : Lifecycle c)
    (hcompleted : (c.shared.calls.call k).completed = some response) :
    k ∉ c.shared.calls.pendingList := by
  intro hpending
  have hopen : (c.shared.calls.call k).completed = none :=
    (h.pending k (h.keyed.mem_pendingList.mp hpending)).completed
  rw [hcompleted] at hopen
  cases hopen

theorem complete_open (h : Lifecycle c) {t : Nat} {route : Route}
    (hactive : c.Active t (.call (.complete k response route))) :
    (c.shared.calls.call k).completed = none ∧
      response.requestId = (c.shared.calls.call k).requestId := by
  obtain ⟨hopen, hid, -⟩ := complete_phase (h.phase t _ k hactive rfl)
  exact ⟨hopen.completed, hid⟩

theorem not_pending_of_owned (h : Lifecycle c) {t : Nat} {i : Instr} {rest : List Instr}
    (htop : c.stack t = i :: rest) (hown : ownedCall i = some k) :
    k ∉ c.shared.calls.pendingList := fun hpending =>
  (reserve_eq_zero_of_owned (h.allowance htop) hown).2 (h.keyed.mem_pendingList.mp hpending)

theorem completed_step {t : Nat} {i : Instr} (h : Lifecycle c) (hk : k < c.shared.calls.callCount)
    (hcompleted : (c.shared.calls.call k).completed = some response)
    (hstep : client.Step c t i c') : (c'.shared.calls.call k).completed = some response := by
  obtain @⟨rest, x, s, pushed, htop, hexec⟩ := hstep
  have hi : ∀ response route, i ≠ .call (.complete k response route) := by
    rintro response' route rfl
    have hopen := (h.complete_open (Config.active_of_top htop)).1
    rw [hcompleted] at hopen
    cases hopen
  rw [Config.shared_replace, (instr_completed hexec hk hi).1]
  exact hcompleted

theorem completed_run (h : Lifecycle c) (hk : k < c.shared.calls.callCount)
    (hcompleted : (c.shared.calls.call k).completed = some response) (hrun : client.Reaches c c') :
    Lifecycle c' ∧ k < c'.shared.calls.callCount ∧
      (c'.shared.calls.call k).completed = some response := by
  induction hrun with
  | start => exact ⟨h, hk, hcompleted⟩
  | step _ _ hstep ih =>
    obtain ⟨h, hk, hcompleted⟩ := ih
    refine ⟨h.step hstep, ?_, h.completed_step hk hcompleted hstep⟩
    obtain @⟨rest, x, s, pushed, htop, hexec⟩ := hstep
    exact Nat.lt_of_lt_of_le hk (callCount_le_of_exec hexec)

end Lifecycle

/-- The future of a call: completed at most once, and final. -/
structure FutureFinal (c c' : ClientConfig) (k : Nat) : Prop where
  once : (c.shared.calls.call k).completions.length ≤ 1
  kept : ∀ response, (c.shared.calls.call k).completed = some response →
    (c'.shared.calls.call k).completed = some response
  own : ∀ response, (c.shared.calls.call k).completed = some response →
    response.requestId = (c.shared.calls.call k).requestId
  removed : ∀ response, (c.shared.calls.call k).completed = some response →
    k ∉ c.shared.calls.pendingList

structure Untouched (c c' : ClientConfig) (j : Nat) : Prop where
  call : c'.shared.calls.call j = c.shared.calls.call j
  pending : j ∈ c'.shared.calls.pendingList ↔ j ∈ c.shared.calls.pendingList
  owner : ∀ t i, c'.Active t i → ownedCall i = some j → c.Active t i

theorem Lifecycle.completeResponse_untouched {c c' : ClientConfig} {t : Nat}
    {response : RpcResponse} (h : Lifecycle c)
    (hstep : client.Step c t (.call (.completeResponse response)) c') {j : Nat}
    (hj : (c.shared.calls.call j).requestId ≠ response.requestId) : Untouched c c' j := by
  have h' := h.step hstep
  obtain @⟨rest, x, s, pushed, htop, hexec⟩ := hstep
  have howner : ∀ i ∈ pushed, ownedCall i ≠ some j := by
    intro i hi hown
    obtain ⟨⟨calls, pushed⟩, hresponse, heq⟩ := Option.map_eq_some_iff.mp hexec
    cases heq
    simp only [CallInstr.exec] at hresponse
    split at hresponse <;> cases hresponse
    · cases hi
    · rename_i k hfind
      cases List.mem_singleton.mp hi
      cases hown
      exact hj (h.keyed _ _ hfind)
  have hcall : s.calls.call j = c.shared.calls.call j ∧
      (IsPending s.calls j ↔ IsPending c.shared.calls j) := by
    obtain ⟨⟨calls, pushed⟩, hresponse, heq⟩ := Option.map_eq_some_iff.mp hexec
    cases heq
    simp only [CallInstr.exec] at hresponse
    split at hresponse <;> cases hresponse
    · exact ⟨rfl, .rfl⟩
    · rename_i k hfind
      have hne : j ≠ k := by
        rintro rfl
        exact hj (h.keyed _ _ hfind)
      have hset : ((c.shared.calls.setState k .completed).call j) = c.shared.calls.call j := by
        simp [CallTable.setState, hne]
      refine ⟨hset, ?_⟩
      rw [IsPending, IsPending, CallTable.setPending_call, hset,
        CallTable.setPending_pendingCalls, PendingMap.find_erase_ne hj]
  constructor
  · exact hcall.1
  · rw [h'.keyed.mem_pendingList, h.keyed.mem_pendingList]
    exact hcall.2
  · intro t' i hactive hown
    exact (Config.active_of_replace htop hactive).resolve_left fun hi => howner i hi.2 hown

/-- Whatever removes a call: its future is completed at most once, for good and with a response of
its own id, when the call is not pending any more; and a response touches no other call. -/
theorem futures_completed_once {timerThreads users : Nat} {c c' : ClientConfig}
    (hreach : client.Reaches (init timerThreads users) c) (hlater : client.Reaches c c') :
    (∀ k, k < c.shared.calls.callCount → FutureFinal c c' k) ∧
    (∀ t k response route c₁, client.Step c t (.call (.complete k response route)) c₁ →
      k ∉ c.shared.calls.pendingList ∧ (c.shared.calls.call k).completed = none ∧
        response.requestId = (c.shared.calls.call k).requestId ∧
        ∀ j, j ≠ k → Untouched c c₁ j) ∧
    ∀ t response c₁, client.Step c t (.call (.completeResponse response)) c₁ →
      ∀ j, (c.shared.calls.call j).requestId ≠ response.requestId → Untouched c c₁ j := by
  have h := Lifecycle.run hreach
  refine ⟨?_, ?_, ?_⟩
  · intro k hk
    constructor
    · exact h.completions_length hk
    · intro response hcompleted
      exact (h.completed_run hk hcompleted hlater).2.2
    · intro response hcompleted
      exact h.completed_requestId hk hcompleted
    · intro response hcompleted
      exact h.not_pending_of_completed hcompleted
  · intro t k response route c₁ hstep
    obtain @⟨rest, x, s, pushed, htop, hexec⟩ := hstep
    obtain ⟨hopen, hid⟩ := h.complete_open (Config.active_of_top htop)
    refine ⟨h.not_pending_of_owned htop rfl, hopen, hid, fun j hj => ?_⟩
    cases hexec
    constructor
    · simp [hj]
    · exact .rfl
    · intro t' i hactive hown
      refine (Config.active_of_replace htop hactive).resolve_left fun hi => ?_
      cases List.mem_singleton.mp hi.2
      cases hown
      exact hj rfl
  · intro t response c₁ hstep j hj
    exact h.completeResponse_untouched hstep hj

/-- A connected client sends two calls, and the peer answers the second one twice; the second answer
is still to be handled. -/
def answeredTwice : ClientConfig :=
  let call (k : Nat) : List (Nat × Choice) :=
    (2, .operation (.callAsync {} {} false)) :: List.replicate 7 (2, .next) ++
      (2, .order [k]) :: List.replicate 5 (2, .next)
  let answer : ByteString := [77, 82, 80, 67, 0, 1, 0, 2, 0, 0, 0, 0, 0, 0, 0, 2, 0, 0, 0, 8, 0, 0, 0,
    0, 0, 0, 0, 0, 0, 0, 0, 0]
  client.follow connectedClient (call 0 ++ call 1 ++
    (0, .poll [.readable 0 (answer ++ answer) false]) :: List.replicate 9 (0, .next))

set_option maxRecDepth 10000 in
theorem futures_completed_once_answered_twice :
    (answeredTwice.shared.calls.call 1).completions.length = 1 ∧
      FutureFinal answeredTwice (client.follow answeredTwice [(0, .next)]) 1 ∧
      Untouched answeredTwice (client.follow answeredTwice [(0, .next)]) 0 := by
  have hreach : client.Reaches (init 1 1) answeredTwice :=
    (Machine.reaches_follow (c := init 1 1) _).trans (Machine.reaches_follow _)
  have honce := futures_completed_once hreach (Machine.reaches_follow [(0, .next)])
  exact ⟨by decide, honce.1 1 (by decide),
    honce.2.2 0 { requestId := 2 } _ (Machine.step_follow (by decide) (by decide)) 0 (by decide)⟩

end UnixNotes.Rpc.Client
