import UnixNotes.Rpc.Client.CallStep
import UnixNotes.Rpc.Client.Ownership

namespace UnixNotes.Rpc.Client

open Library

structure Account where
  requestId : UInt64
  localCallback : Bool
  callback : Bool
  hasCallback : Bool
  completed : Option RpcResponse
  completions : List (Nat × RpcResponse)
  invocations : List RpcResponse

def Call.account (call : Call) : Account where
  requestId := call.requestId
  localCallback := call.localCallback
  callback := call.callback
  hasCallback := call.hasCallback
  completed := call.completed
  completions := call.completions
  invocations := call.invocations

namespace Account

/-- The future is not completed and the callback has not been run. -/
structure Open (a : Account) : Prop where
  completed : a.completed = none
  completions : a.completions = []
  invocations : a.invocations = []

structure Fresh (a : Account) : Prop extends Open a where
  localCallback : a.localCallback = a.hasCallback

structure Prepared (a : Account) : Prop extends Open a where
  callback : a.callback = a.hasCallback

/-- At most one completion, whose response stays, with the id of the call, and is all the callback
was ever given. -/
def Settled (a : Account) : Prop :=
  match a.completed with
  | none => a.Open
  | some response =>
    (∃ t, a.completions = [(t, response)]) ∧ response.requestId = a.requestId ∧
      (a.invocations = [] ∨ a.invocations = [response])

theorem Open.settled {a : Account} (h : a.Open) : a.Settled := by
  rw [Settled, h.completed]
  exact h

end Account

/-- What holds of a call while `i` is in charge of it. -/
def Phase : Instr → Account → Prop
  | .call (.nextRequestId _), a | .call (.retryRequestId _), a | .call (.callAsyncInternal _), a =>
    a.Fresh
  | .armDeadline _, a | .net (.checkState _), a | .call (.insertPending _), a => a.Prepared
  | .call (.completePending _ response), a | .call (.complete _ response .pending), a =>
    a.Prepared ∧ response.requestId = a.requestId
  | .call (.complete _ response .param), a => a.Open ∧ response.requestId = a.requestId
  | .call (.invokeCallback _ response route), a =>
    a.Settled ∧ a.completed = some response ∧ a.invocations = [] ∧
      (route = .pending → a.callback = a.hasCallback)
  | _, _ => True

theorem Call.complete_account {call : Call} (hopen : call.account.Open) (t : Nat)
    (response : RpcResponse) :
    (call.complete t response).account =
      { call.account with completed := some response, completions := [(t, response)] } := by
  obtain ⟨hcompleted, hcompletions, -⟩ := hopen
  simp only [Call.account] at hcompleted hcompletions
  simp [Call.complete, Call.account, hcompleted, hcompletions]

theorem Call.invoke_settled {call : Call} {response : RpcResponse} (h : call.account.Settled)
    (hcompleted : call.completed = some response) (hinvocations : call.invocations = []) :
    (call.invoke response).account.Settled := by
  simp only [Account.Settled, Call.account, Call.invoke, hcompleted] at h ⊢
  exact ⟨h.1, h.2.1, .inr (by simp [hinvocations])⟩

structure Lifecycle (c : ClientConfig) : Prop extends Owned c where
  phase : ∀ t i k, c.Active t i → ownedCall i = some k →
    Phase i (c.shared.calls.call k).account
  pending : ∀ k, IsPending c.shared.calls k → (c.shared.calls.call k).account.Prepared
  settled : ∀ k, k < c.shared.calls.callCount → (c.shared.calls.call k).account.Settled

theorem set_account (calls : CallTable) (j : Nat) (call : Call) (k : Nat)
    (h : call.account = (calls.call j).account) :
    ((calls.set j call).call k).account = (calls.call k).account :=
  calls.set_congr Call.account j call k h

@[simp] theorem failCalls_account (calls : CallTable) (ks : List Nat) (k : Nat) :
    ((calls.failCalls ks).call k).account = (calls.call k).account :=
  calls.failCalls_congr Call.account ks k fun _ => rfl

@[simp] theorem countAttempts_account (calls : CallTable) (ks : List Nat) (k : Nat) :
    ((calls.countAttempts ks).call k).account = (calls.call k).account :=
  calls.countAttempts_congr Call.account ks k fun _ _ => rfl

theorem exec_account {t : Nat} {x : Choice} {s : State} {i : CallInstr} {calls : CallTable}
    {pushed : List Instr} (h : i.exec t x s = some (calls, pushed)) {k : Nat}
    (hk : ownedCall (.call i) ≠ some k) (hbegun : k < s.calls.callCount) :
    (calls.call k).account = (s.calls.call k).account := by
  have hstep := callStep_of_exec h hbegun
  generalize calls.call k = call at hstep ⊢
  cases hstep with
  | keep same => rw [same]
  | setCancel | markSent | completeOne | failOne | failAll | failSent | expire => rfl
  | countAttempt =>
    rw [countAttempt]
    split <;> rfl
  | _ => exact absurd rfl hk

theorem find_erase {m : PendingMap} {id id' : UInt64} {k : Nat}
    (h : PendingMap.find (m.erase id') id = some k) : m.find id = some k := by
  by_cases hid : id = id'
  · simp [hid] at h
  · rwa [PendingMap.find_erase_ne hid] at h

theorem exec_find {t : Nat} {x : Choice} {s : State} {i : CallInstr} {calls : CallTable}
    {pushed : List Instr} (h : i.exec t x s = some (calls, pushed)) {id : UInt64} {k : Nat}
    (hfind : calls.pendingCalls.find id = some k) :
    s.calls.pendingCalls.find id = some k ∨
      i = .insertPending k ∧ id = (s.calls.call k).requestId := by
  cases i
  case userCode =>
    refine .inl ?_
    simp only [CallInstr.exec] at h
    split at h
    · rename_i operation
      cases operation <;>
        · cases h
          exact hfind
    · cases h
      exact hfind
  case recordClientResponse response =>
    cases h
    rw [CallTable.recordClientResponse_pendingCalls] at hfind
    exact .inl hfind
  case invokeCallback j response route =>
    cases route
    · simp only [CallInstr.exec] at h
      split at h <;> cases h <;> exact .inl hfind
    · simp only [CallInstr.exec] at h
      split at h
      · obtain ⟨stored, -, heq⟩ := Option.map_eq_some_iff.mp h
        cases heq
        exact .inl hfind
      · cases h
        exact .inl hfind
  case insertPending j =>
    simp only [CallInstr.exec] at h
    split at h <;> cases h
    · exact .inl hfind
    · rw [CallTable.setPending_pendingCalls] at hfind
      by_cases hid : id = (s.calls.call j).requestId
      · rw [hid, PendingMap.find_insert_self, Option.some.injEq] at hfind
        subst hfind
        exact .inr ⟨rfl, hid⟩
      · rw [PendingMap.find_insert_ne hid] at hfind
        exact .inl hfind
  case completeResponse response =>
    simp only [CallInstr.exec] at h
    split at h <;> cases h
    · exact .inl hfind
    · exact .inl (find_erase hfind)
  case failPending requestId errorCode errorMessage =>
    simp only [CallInstr.exec] at h
    split at h <;> cases h
    · exact .inl hfind
    · exact .inl (find_erase hfind)
  case failAllPending errorCode errorMessage =>
    simp only [CallInstr.exec] at h
    (repeat' split at h) <;> cases h
    exact .inl (PendingMap.find_removeCalls.mp hfind).1
  case failSentPending errorCode errorMessage =>
    simp only [CallInstr.exec] at h
    (repeat' split at h) <;> cases h
    exact .inl (PendingMap.find_removeCalls.mp hfind).1
  case expireRetryExhaustedPending message =>
    simp only [CallInstr.exec] at h
    (repeat' split at h) <;> cases h <;> exact .inl (PendingMap.find_removeCalls.mp hfind).1
  all_goals
    simp only [CallInstr.exec] at h
    (repeat' split at h) <;> cases h <;> exact .inl hfind

theorem reserve_eq_zero_of_owned {s : State} {i : Instr} {k : Nat}
    (honce : ∀ k, reserve s.calls k + own k i ≤ 1) (hk : ownedCall i = some k) :
    k < s.calls.callCount ∧ ¬IsPending s.calls k := by
  have := honce k
  rw [own_eq_one hk, reserve, beginToken, pendingToken] at this
  constructor
  · by_contra hlt
    rw [if_neg hlt] at this
    omega
  · intro hpending
    rw [IsPending] at hpending
    rw [if_pos hpending] at this
    omega

theorem lt_callCount_of_pending {calls : CallTable} {k : Nat} (honce : reserve calls k ≤ 1)
    (hpending : IsPending calls k) : k < calls.callCount := by
  by_contra hlt
  rw [IsPending] at hpending
  rw [reserve, beginToken, pendingToken, if_neg hlt, if_pos hpending] at honce
  omega

section Exec

variable {t : Nat} {x : Choice} {s : State} {i : CallInstr} {calls : CallTable}
  {pushed : List Instr} (h : i.exec t x s = some (calls, pushed)) (hkeyed : Keyed s.calls)
  (honce : ∀ k, reserve s.calls k + own k (.call i) ≤ 1)
include h hkeyed honce

omit hkeyed in
theorem exec_requestId {k : Nat} (hpending : IsPending s.calls k) :
    (calls.call k).requestId = (s.calls.call k).requestId := by
  have hk : ownedCall (.call i) ≠ some k := fun hk =>
    (reserve_eq_zero_of_owned honce hk).2 hpending
  have hlt := lt_callCount_of_pending (Nat.le_trans (Nat.le_add_right _ _) (honce k)) hpending
  exact congrArg Account.requestId (exec_account h hk hlt)

theorem exec_keyed : Keyed calls := by
  intro id k hfind
  rcases exec_find h hfind with hfind' | ⟨rfl, rfl⟩
  · rw [exec_requestId h honce (hkeyed.isPending hfind')]
    exact hkeyed id k hfind'
  · simp only [CallInstr.exec] at h
    split at h <;> cases h <;> rfl

omit honce in
theorem exec_pending {k : Nat} (hpending : IsPending calls k) :
    IsPending s.calls k ∨ i = .insertPending k := by
  rcases exec_find h hpending with hfind | ⟨rfl, -⟩
  · exact .inl (hkeyed.isPending hfind)
  · exact .inr rfl

end Exec

theorem checkState_own {t : Nat} {x : Choice} {s : State} {j : Nat} {net : Net}
    {pushed : List Instr} (h : (NetInstr.checkState j).exec t x s = some (net, pushed)) (k : Nat) :
    Config.weigh (own k) pushed = if j = k then 1 else 0 := by
  simp only [NetInstr.exec] at h
  (repeat' split at h) <;> cases h <;> simp [failFast, finishCall, startConnect, own, ownedCall]

theorem net_own {t : Nat} {x : Choice} {s : State} {i : NetInstr} {net : Net}
    {pushed : List Instr} (h : i.exec t x s = some (net, pushed)) (k : Nat) :
    Config.weigh (own k) pushed ≤ own k (.net i) := by
  by_cases hi : ∃ j, i = .checkState j
  · obtain ⟨j, rfl⟩ := hi
    rw [checkState_own h, own_call k j rfl]
  · rw [weigh_own_eq_zero (net_owned h fun j hj => hi ⟨j, hj⟩)]
    exact Nat.zero_le _

theorem instr_exec {t : Nat} {x : Choice} {s s' : State} {i : Instr} {pushed : List Instr}
    (h : i.exec t x s = some (s', pushed)) (hkeyed : Keyed s.calls)
    (honce : ∀ k, reserve s.calls k + own k i ≤ 1) :
    Keyed s'.calls ∧
      ∀ k, reserve s'.calls k + Config.weigh (own k) pushed ≤ reserve s.calls k + own k i := by
  cases i with
  | call i =>
    obtain ⟨⟨calls, pushed⟩, hexec, heq⟩ := Option.map_eq_some_iff.mp h
    cases heq
    exact ⟨exec_keyed hexec hkeyed honce, exec_tokens hexec hkeyed honce⟩
  | net i =>
    obtain ⟨⟨net, pushed⟩, hexec, heq⟩ := Option.map_eq_some_iff.mp h
    cases heq
    exact ⟨hkeyed, fun k => Nat.add_le_add_left (net_own hexec k) _⟩
  | loop i =>
    obtain ⟨⟨loop, pushed⟩, hexec, heq⟩ := Option.map_eq_some_iff.mp h
    cases heq
    refine ⟨hkeyed, fun k => ?_⟩
    rw [weigh_own_eq_zero (loop_owned hexec)]
    exact Nat.le_add_right _ _
  | armDeadline j =>
    cases h
    have hid := fun k => set_requestId s.calls j
      { s.calls.call j with timerId := s.loop.timerCount } k rfl
    refine ⟨?_, fun k => tokens_of_keep k (hid k) rfl rfl (by simp [own, ownedCall])⟩
    intro id k hfind
    rw [hid k]
    exact hkeyed id k hfind

theorem Owned.allowance {c : ClientConfig} (h : Owned c) {t : Nat} {i : Instr} {rest : List Instr}
    (htop : c.stack t = i :: rest) (k : Nat) : reserve c.shared.calls k + own k i ≤ 1 :=
  Nat.le_trans (Nat.add_le_add_left (Config.le_total (Config.active_of_top htop)) _) (h.once k)

theorem Owned.step {c c' : ClientConfig} {t : Nat} {i : Instr} (h : Owned c)
    (hstep : client.Step c t i c') : Owned c' := by
  obtain @⟨rest, x, s, pushed, htop, hexec⟩ := hstep
  obtain ⟨hkeyed, htokens⟩ := instr_exec hexec h.keyed (h.allowance htop)
  refine ⟨hkeyed, fun k => ?_⟩
  have htotal := Config.total_replace (own k) htop s pushed
  have honce := h.once k
  have htoken := htokens k
  rw [Config.shared_replace]
  omega

section Phases

variable {t : Nat} {x : Choice} {s : State} {i : CallInstr} {calls : CallTable}
  {pushed : List Instr}

theorem completeEach_phase {ks : List Nat} {errorCode : RpcErrorCode} {errorMessage : ByteString}
    (hid : ∀ k, (calls.call k).account = (s.calls.call k).account)
    (hks : ∀ k ∈ ks, (s.calls.call k).account.Prepared) {j : Instr}
    (hj : j ∈ s.calls.completeEach ks errorCode errorMessage) {k : Nat}
    (hown : ownedCall j = some k) : Phase j (calls.call k).account := by
  obtain ⟨k', hk', rfl⟩ := List.mem_map.mp hj
  cases hown
  rw [hid]
  exact ⟨hks k hk', rfl⟩

theorem finishCall_phase {a : Account} {j : Nat} {response : RpcResponse} {route : Route}
    (h : Phase (.call (.complete j response route)) a) {j' : Instr}
    (hj : j' ∈ finishCall j response route) {k : Nat} (hown : ownedCall j' = some k) :
    k = j ∧ Phase j' a := by
  simp only [finishCall, List.mem_cons, List.not_mem_nil, or_false] at hj
  obtain rfl | rfl := hj
  · cases hown
  · cases hown
    exact ⟨rfl, h⟩

theorem complete_phase {a : Account} {j : Nat} {response : RpcResponse} {route : Route}
    (h : Phase (.call (.complete j response route)) a) :
    a.Open ∧ response.requestId = a.requestId ∧ (route = .pending → a.callback = a.hasCallback) := by
  cases route with
  | param => exact ⟨h.1, h.2, by simp⟩
  | pending => exact ⟨h.1.toOpen, h.2, fun _ => h.1.callback⟩

/-- What is handed on is in the phase that its new owner expects. -/
def HandsOn (calls : CallTable) (pushed : List Instr) : Prop :=
  ∀ j ∈ pushed, ∀ k, ownedCall j = some k → Phase j (calls.call k).account

theorem handsOn_userCode (h : CallInstr.userCode.exec t x s = some (calls, pushed)) :
    HandsOn calls pushed := by
  intro j hj k hown
  simp only [CallInstr.exec] at h
  split at h
  · rename_i operation
    cases operation
    case callAsync request options callback =>
      cases h
      simp only [Operation.begin, List.cons_append, List.nil_append, List.mem_cons,
        List.not_mem_nil, or_false] at hj
      obtain rfl | rfl := hj
      · cases hown
        simp only [Operation.begin, CallTable.set_call_self]
        exact ⟨⟨rfl, rfl, rfl⟩, rfl⟩
      · cases hown
    all_goals
      cases h
      simp only [Operation.begin, List.cons_append, List.nil_append, List.mem_cons,
        List.not_mem_nil, or_false] at hj
      obtain rfl | rfl := hj <;> cases hown
  · cases h
    cases hj

theorem handsOn_nextRequestId {n : Nat}
    (h : (CallInstr.nextRequestId n).exec t x s = some (calls, pushed))
    (hphase : Phase (.call (.nextRequestId n)) (s.calls.call n).account) :
    HandsOn calls pushed := by
  intro j hj k hown
  obtain ⟨⟨hcompleted, hcompletions, hinvocations⟩, hlocal⟩ := hphase
  simp only [CallInstr.exec] at h
  split at h <;> cases h <;> cases List.mem_singleton.mp hj <;> cases hown
  · exact ⟨⟨hcompleted, hcompletions, hinvocations⟩, hlocal⟩
  · simp only [CallTable.set_call_self]
    exact ⟨⟨hcompleted, hcompletions, hinvocations⟩, hlocal⟩

theorem handsOn_callAsyncInternal {n : Nat}
    (h : (CallInstr.callAsyncInternal n).exec t x s = some (calls, pushed))
    (hfresh : (s.calls.call n).account.Fresh) : HandsOn calls pushed := by
  intro j hj k hown
  have hparam (response : RpcResponse)
      (hid : response.requestId = (s.calls.call n).account.requestId) :
      Phase (.call (.complete n response .param)) (s.calls.call n).account :=
    ⟨hfresh.toOpen, hid⟩
  simp only [CallInstr.exec] at h
  split at h
  · cases h
    obtain ⟨rfl, hcomplete⟩ := finishCall_phase (hparam _ rfl) hj hown
    exact hcomplete
  · split at h
    · cases h
      obtain ⟨rfl, hcomplete⟩ := finishCall_phase (hparam _ rfl) hj hown
      exact hcomplete
    · cases h
      simp only [List.mem_cons, List.not_mem_nil, or_false] at hj
      obtain rfl | rfl := hj <;> cases hown
      simp only [CallTable.set_call_self]
      exact ⟨⟨hfresh.completed, hfresh.completions, hfresh.invocations⟩, hfresh.localCallback⟩

theorem handsOn_complete {n : Nat} {response : RpcResponse} {route : Route}
    (h : (CallInstr.complete n response route).exec t x s = some (calls, pushed))
    (hphase : Phase (.call (.complete n response route)) (s.calls.call n).account) :
    HandsOn calls pushed := by
  intro j hj k hown
  obtain ⟨hopen, hid, hcallback⟩ := complete_phase hphase
  cases h
  cases List.mem_singleton.mp hj
  cases hown
  rw [CallTable.set_call_self, Call.complete_account hopen]
  exact ⟨⟨⟨t, rfl⟩, hid, .inl hopen.invocations⟩, rfl, hopen.invocations, hcallback⟩

theorem handsOn_invokeCallback {n : Nat} {response : RpcResponse} {route : Route}
    (h : (CallInstr.invokeCallback n response route).exec t x s = some (calls, pushed)) :
    HandsOn calls pushed := by
  intro j hj k hown
  cases route with
  | param =>
    simp only [CallInstr.exec] at h
    split at h <;> cases h
    · cases List.mem_singleton.mp hj
      cases hown
    · cases hj
  | pending =>
    simp only [CallInstr.exec] at h
    split at h
    · obtain ⟨stored, -, heq⟩ := Option.map_eq_some_iff.mp h
      cases heq
      cases List.mem_singleton.mp hj
      cases hown
    · cases h
      cases hj

theorem handsOn_erase (hkeyed : Keyed s.calls) {requestId : UInt64} {n : Nat}
    (hfind : s.calls.pendingCalls.find requestId = some n)
    (hprepared : (s.calls.call n).account.Prepared) (state : PendingState) {response : RpcResponse}
    (hresponse : response.requestId = requestId) :
    HandsOn ((s.calls.setState n state).setPending (s.calls.pendingCalls.erase requestId))
      [.call (.completePending n response)] := by
  intro j hj k hown
  cases List.mem_singleton.mp hj
  cases hown
  have haccount : ((s.calls.setState n state).call n).account = (s.calls.call n).account :=
    set_account _ _ _ _ rfl
  rw [CallTable.setPending_call, haccount]
  exact ⟨hprepared, hresponse.trans (hkeyed _ _ hfind).symm⟩

theorem handsOn_failAllPending {errorCode : RpcErrorCode} {errorMessage : ByteString}
    (h : (CallInstr.failAllPending errorCode errorMessage).exec t x s = some (calls, pushed))
    (hkeyed : Keyed s.calls)
    (hpending : ∀ k, IsPending s.calls k → (s.calls.call k).account.Prepared) :
    HandsOn calls pushed := by
  intro j hj k hown
  simp only [CallInstr.exec] at h
  (repeat' split at h) <;> cases h
  rename_i ks hperm
  refine completeEach_phase (failCalls_account s.calls ks) ?_ hj hown
  intro k' hk'
  exact hpending k' (hkeyed.mem_pendingList.mp (hperm.mem_iff.mp hk'))

theorem handsOn_failSentPending {errorCode : RpcErrorCode} {errorMessage : ByteString}
    (h : (CallInstr.failSentPending errorCode errorMessage).exec t x s = some (calls, pushed))
    (hkeyed : Keyed s.calls)
    (hpending : ∀ k, IsPending s.calls k → (s.calls.call k).account.Prepared) :
    HandsOn calls pushed := by
  intro j hj k hown
  simp only [CallInstr.exec] at h
  (repeat' split at h) <;> cases h
  rename_i ks hperm
  refine completeEach_phase (failCalls_account s.calls ks) ?_ hj hown
  intro k' hk'
  obtain ⟨⟨id, hfind⟩, -⟩ := mem_select.mp (hperm.mem_iff.mp hk')
  exact hpending k' (hkeyed.isPending hfind)

theorem handsOn_expireRetryExhaustedPending {message : ByteString}
    (h : (CallInstr.expireRetryExhaustedPending message).exec t x s = some (calls, pushed))
    (hkeyed : Keyed s.calls)
    (hpending : ∀ k, IsPending s.calls k → (s.calls.call k).account.Prepared) :
    HandsOn calls pushed := by
  intro j hj k hown
  simp only [CallInstr.exec] at h
  (repeat' split at h) <;> cases h
  all_goals
    rename_i ks hperm _
    rcases List.mem_append.mp hj with hj | hj
    · refine completeEach_phase (fun k => ?_) ?_ hj hown
      · rw [countAttempts_account, failCalls_account]
      · intro k' hk'
        obtain ⟨⟨id, hfind⟩, -⟩ := mem_select.mp (hperm.mem_iff.mp hk')
        exact hpending k' (hkeyed.isPending hfind)
    · simp only [List.mem_cons, List.not_mem_nil, or_false] at hj
      obtain rfl | rfl := hj <;> cases hown

theorem handsOn_completePending {n : Nat} {response : RpcResponse}
    (h : (CallInstr.completePending n response).exec t x s = some (calls, pushed))
    (hphase : Phase (.call (.complete n response .pending)) (s.calls.call n).account) :
    HandsOn calls pushed := by
  intro j hj k hown
  cases h
  rcases List.mem_append.mp hj with hj | hj
  · rw [cancelTimerIfSet] at hj
    split at hj
    · cases hj
    · cases List.mem_singleton.mp hj
      cases hown
  · rw [set_account s.calls n { s.calls.call n with timerId := 0 } k rfl]
    obtain ⟨rfl, hcomplete⟩ := finishCall_phase hphase hj hown
    exact hcomplete

theorem exec_phase (h : i.exec t x s = some (calls, pushed)) (hkeyed : Keyed s.calls)
    (hphase : ∀ k, ownedCall (.call i) = some k → Phase (.call i) (s.calls.call k).account)
    (hpending : ∀ k, IsPending s.calls k → (s.calls.call k).account.Prepared) :
    HandsOn calls pushed := by
  cases i
  case userCode => exact handsOn_userCode h
  case nextRequestId n => exact handsOn_nextRequestId h (hphase n rfl)
  case callAsyncInternal n => exact handsOn_callAsyncInternal h (hphase n rfl)
  case complete n response route => exact handsOn_complete h (hphase n rfl)
  case invokeCallback n response route => exact handsOn_invokeCallback h
  case failAllPending errorCode errorMessage => exact handsOn_failAllPending h hkeyed hpending
  case failSentPending errorCode errorMessage => exact handsOn_failSentPending h hkeyed hpending
  case expireRetryExhaustedPending message =>
    exact handsOn_expireRetryExhaustedPending h hkeyed hpending
  case completePending n response => exact handsOn_completePending h (hphase n rfl)
  case completeResponse response =>
    simp only [CallInstr.exec] at h
    split at h <;> cases h
    · intro j hj
      cases hj
    · rename_i n hfind
      exact handsOn_erase hkeyed hfind (hpending n (hkeyed.isPending hfind)) _ rfl
  case failPending requestId errorCode errorMessage =>
    simp only [CallInstr.exec] at h
    split at h <;> cases h
    · intro j hj
      cases hj
    · rename_i n hfind
      exact handsOn_erase hkeyed hfind (hpending n (hkeyed.isPending hfind)) _ rfl
  case retryRequestId n =>
    obtain ⟨⟨hcompleted, hcompletions, hinvocations⟩, hlocal⟩ := hphase n rfl
    intro j hj k hown
    cases h
    cases List.mem_singleton.mp hj
    cases hown
    simp only [CallTable.set_call_self]
    exact ⟨⟨hcompleted, hcompletions, hinvocations⟩, hlocal⟩
  case send n m =>
    intro j hj k hown
    cases h
    rw [runInLoop_owned t _ _ hj] at hown
    cases hown
  case snapshotPending =>
    intro j hj k hown
    simp only [CallInstr.exec] at h
    (repeat' split at h) <;> cases h
    obtain ⟨k', -, rfl⟩ := List.mem_map.mp hj
    cases hown
  all_goals
    intro j hj k hown
    simp only [CallInstr.exec] at h
    (repeat' split at h) <;> cases h <;>
      first
      | (cases List.mem_singleton.mp hj
         cases hown)
      | cases hj

theorem exec_settled (h : i.exec t x s = some (calls, pushed)) {k : Nat}
    (hown : ownedCall (.call i) = some k) (hphase : Phase (.call i) (s.calls.call k).account) :
    (calls.call k).account.Settled := by
  cases i <;> cases hown
  case nextRequestId =>
    obtain ⟨⟨hcompleted, hcompletions, hinvocations⟩, -⟩ := hphase
    apply Account.Open.settled
    simp only [CallInstr.exec] at h
    split at h <;> cases h
    · exact ⟨hcompleted, hcompletions, hinvocations⟩
    · rw [CallTable.set_call_self]
      exact ⟨hcompleted, hcompletions, hinvocations⟩
  case retryRequestId =>
    obtain ⟨⟨hcompleted, hcompletions, hinvocations⟩, -⟩ := hphase
    apply Account.Open.settled
    cases h
    rw [CallTable.set_call_self]
    exact ⟨hcompleted, hcompletions, hinvocations⟩
  case callAsyncInternal =>
    obtain ⟨⟨hcompleted, hcompletions, hinvocations⟩, -⟩ := hphase
    apply Account.Open.settled
    simp only [CallInstr.exec] at h
    (repeat' split at h) <;> cases h
    · exact ⟨hcompleted, hcompletions, hinvocations⟩
    · exact ⟨hcompleted, hcompletions, hinvocations⟩
    · rw [CallTable.set_call_self]
      exact ⟨hcompleted, hcompletions, hinvocations⟩
  case insertPending =>
    obtain ⟨hopen, -⟩ := hphase
    apply Account.Open.settled
    simp only [CallInstr.exec] at h
    split at h <;> cases h <;> exact hopen
  case completePending response =>
    cases h
    rw [set_account s.calls k { s.calls.call k with timerId := 0 } k rfl]
    exact hphase.1.toOpen.settled
  case complete response route =>
    obtain ⟨hopen, hid, -⟩ := complete_phase hphase
    cases h
    rw [CallTable.set_call_self, Call.complete_account hopen]
    exact ⟨⟨t, rfl⟩, hid, .inl hopen.invocations⟩
  case invokeCallback response route =>
    obtain ⟨hsettled, hcompleted, hinvocations, -⟩ := hphase
    cases route
    · simp only [CallInstr.exec] at h
      split at h <;> cases h
      · rw [CallTable.set_call_self]
        exact Call.invoke_settled hsettled hcompleted hinvocations
      · exact hsettled
    · simp only [CallInstr.exec] at h
      split at h
      · obtain ⟨stored, hstored, heq⟩ := Option.map_eq_some_iff.mp h
        cases heq
        rw [CallTable.set_call_self]
        exact Call.invoke_settled hsettled hstored hinvocations
      · cases h
        exact hsettled

end Phases

section Step

variable {t : Nat} {x : Choice} {s s' : State} {i : Instr} {pushed : List Instr}

theorem instr_account (h : i.exec t x s = some (s', pushed)) {k : Nat}
    (hk : ownedCall i ≠ some k) (hbegun : k < s.calls.callCount) :
    (s'.calls.call k).account = (s.calls.call k).account := by
  cases i with
  | call i =>
    obtain ⟨⟨calls, pushed⟩, hexec, heq⟩ := Option.map_eq_some_iff.mp h
    cases heq
    exact exec_account hexec hk hbegun
  | net i | loop i =>
    obtain ⟨r, -, heq⟩ := Option.map_eq_some_iff.mp h
    cases heq
    rfl
  | armDeadline j =>
    cases h
    exact set_account s.calls j { s.calls.call j with timerId := s.loop.timerCount } k rfl

theorem checkState_phase {j : Nat} {net : Net}
    (h : (NetInstr.checkState j).exec t x s = some (net, pushed))
    (hprepared : (s.calls.call j).account.Prepared) {j' : Instr} (hj : j' ∈ pushed) {k : Nat}
    (hown : ownedCall j' = some k) : Phase j' (s.calls.call k).account := by
  have hfail : ∀ errorCode errorMessage, j' ∈ failFast j (s.calls.call j) errorCode errorMessage →
      Phase j' (s.calls.call k).account := by
    intro errorCode errorMessage hj
    rcases List.mem_cons.mp hj with rfl | hj
    · cases hown
    · obtain ⟨rfl, hcomplete⟩ := finishCall_phase
        (show Phase (.call (.complete j _ .param)) (s.calls.call j).account from
          ⟨hprepared.toOpen, rfl⟩) hj hown
      exact hcomplete
  simp only [NetInstr.exec] at h
  split at h
  · cases h
    exact hfail _ _ hj
  · split at h
    · cases h
      simp only [List.mem_cons, List.not_mem_nil, or_false] at hj
      obtain rfl | rfl := hj <;> cases hown
      exact hprepared
    · split at h
      · cases h
        exact hfail _ _ hj
      · split at h <;> cases h
        · simp only [startConnect, List.cons_append, List.nil_append, List.mem_cons,
            List.not_mem_nil, or_false] at hj
          obtain rfl | rfl | rfl | rfl := hj <;> cases hown
          exact hprepared
        · simp only [List.mem_cons, List.not_mem_nil, or_false] at hj
          obtain rfl | rfl := hj <;> cases hown
          exact hprepared

theorem instr_phase (h : i.exec t x s = some (s', pushed)) (hkeyed : Keyed s.calls)
    (hphase : ∀ k, ownedCall i = some k → Phase i (s.calls.call k).account)
    (hpending : ∀ k, IsPending s.calls k → (s.calls.call k).account.Prepared) {j : Instr}
    (hj : j ∈ pushed) {k : Nat} (hown : ownedCall j = some k) :
    Phase j (s'.calls.call k).account := by
  cases i with
  | call i =>
    obtain ⟨⟨calls, pushed⟩, hexec, heq⟩ := Option.map_eq_some_iff.mp h
    cases heq
    exact exec_phase hexec hkeyed hphase hpending j hj k hown
  | net i =>
    obtain ⟨⟨net, pushed⟩, hexec, heq⟩ := Option.map_eq_some_iff.mp h
    cases heq
    by_cases hi : ∃ j, i = .checkState j
    · obtain ⟨j, rfl⟩ := hi
      exact checkState_phase hexec (hphase j rfl) hj hown
    · rw [net_owned hexec (fun j hj => hi ⟨j, hj⟩) _ hj] at hown
      cases hown
  | loop i =>
    obtain ⟨⟨loop, pushed⟩, hexec, heq⟩ := Option.map_eq_some_iff.mp h
    cases heq
    rw [loop_owned hexec _ hj] at hown
    cases hown
  | armDeadline j =>
    cases h
    cases List.mem_singleton.mp hj
    cases hown
    rw [set_account s.calls k { s.calls.call k with timerId := s.loop.timerCount } k rfl]
    exact hphase k rfl

theorem instr_pending (h : i.exec t x s = some (s', pushed)) (hkeyed : Keyed s.calls) {k : Nat}
    (hpending : IsPending s'.calls k) :
    IsPending s.calls k ∨ i = .call (.insertPending k) := by
  cases i with
  | call i =>
    obtain ⟨⟨calls, pushed⟩, hexec, heq⟩ := Option.map_eq_some_iff.mp h
    cases heq
    exact (exec_pending hexec hkeyed hpending).imp_right (congrArg Instr.call)
  | net i =>
    obtain ⟨⟨net, pushed⟩, hexec, heq⟩ := Option.map_eq_some_iff.mp h
    cases heq
    exact .inl hpending
  | loop i =>
    obtain ⟨⟨loop, pushed⟩, hexec, heq⟩ := Option.map_eq_some_iff.mp h
    cases heq
    exact .inl hpending
  | armDeadline j =>
    cases h
    exact .inl (hkeyed.isPending hpending)

theorem instr_settled (h : i.exec t x s = some (s', pushed))
    (honce : ∀ k, reserve s.calls k + own k i ≤ 1)
    (hphase : ∀ k, ownedCall i = some k → Phase i (s.calls.call k).account)
    (hsettled : ∀ k, k < s.calls.callCount → (s.calls.call k).account.Settled) {k : Nat}
    (hk : k < s'.calls.callCount) : (s'.calls.call k).account.Settled := by
  cases i with
  | call i =>
    obtain ⟨⟨calls, pushed⟩, hexec, heq⟩ := Option.map_eq_some_iff.mp h
    cases heq
    by_cases hown : ownedCall (.call i) = some k
    · exact exec_settled hexec hown (hphase k hown)
    · obtain hbegun | ⟨request, options, callback, hnew⟩ := begin_of_exec h hk
      · rw [exec_account hexec hown hbegun]
        exact hsettled k hbegun
      · rw [hnew]
        exact Account.Open.settled ⟨rfl, rfl, rfl⟩
  | net i =>
    obtain ⟨⟨net, pushed⟩, hexec, heq⟩ := Option.map_eq_some_iff.mp h
    cases heq
    exact hsettled k hk
  | loop i =>
    obtain ⟨⟨loop, pushed⟩, hexec, heq⟩ := Option.map_eq_some_iff.mp h
    cases heq
    exact hsettled k hk
  | armDeadline j =>
    cases h
    rw [set_account s.calls j { s.calls.call j with timerId := s.loop.timerCount } k rfl]
    exact hsettled k hk

end Step

theorem Owned.unique {c : ClientConfig} (h : Owned c) {t : Nat} {i : Instr} {rest : List Instr}
    (htop : c.stack t = i :: rest) {s : State} {pushed : List Instr} {t' : Nat} {j : Instr}
    (hactive : (c.replace t s (pushed ++ rest)).Active t' j) (hj : j ∉ pushed) {k : Nat}
    (hown : ownedCall j = some k) : ownedCall i ≠ some k := by
  intro hi
  have htotal := Config.weigh_add_le_total (w := own k) htop hactive hj
  have honce := h.once k
  rw [own_eq_one hi, own_eq_one hown] at htotal
  omega

theorem Owned.begun {c : ClientConfig} (h : Owned c) {t : Nat} {i : Instr} (hactive : c.Active t i)
    {k : Nat} (hown : ownedCall i = some k) : k < c.shared.calls.callCount := by
  have hle : own k i ≤ c.total (own k) := Config.le_total hactive
  have honce := h.once k
  rw [own_eq_one hown] at hle
  by_contra hlt
  rw [reserve, beginToken, if_neg hlt] at honce
  omega

theorem Owned.unowned {c : ClientConfig} (h : Owned c) {k : Nat}
    (hpending : IsPending c.shared.calls k) {t : Nat} {j : Instr} (hactive : c.Active t j) :
    ownedCall j ≠ some k := by
  intro hown
  have hle : own k j ≤ c.total (own k) := Config.le_total hactive
  have honce := h.once k
  have hfind : c.shared.calls.pendingCalls.find (c.shared.calls.call k).requestId = some k :=
    hpending
  rw [own_eq_one hown] at hle
  rw [reserve, pendingToken, if_pos hfind] at honce
  omega

theorem Lifecycle.step {c c' : ClientConfig} {t : Nat} {i : Instr} (h : Lifecycle c)
    (hstep : client.Step c t i c') : Lifecycle c' := by
  have howned := h.toOwned.step hstep
  obtain @⟨rest, x, s, pushed, htop, hexec⟩ := hstep
  have honce := h.allowance htop
  have hphase := fun k => h.phase t i k (Config.active_of_top htop)
  have hkept : ∀ k, ownedCall i ≠ some k → k < c.shared.calls.callCount →
      (s.calls.call k).account = (c.shared.calls.call k).account :=
    fun k => instr_account hexec
  refine { howned with phase := ?_, pending := ?_, settled := ?_ }
  · intro t' j k hactive hown
    by_cases hj : j ∈ pushed
    · exact instr_phase hexec h.keyed hphase h.pending hj hown
    · have hother := h.unique htop hactive hj hown
      have hbefore := (Config.active_of_replace htop hactive).resolve_left fun hp => hj hp.2
      rw [Config.shared_replace, hkept k hother (h.begun hbefore hown)]
      exact h.phase t' j k hbefore hown
  · intro k hpending
    rw [Config.shared_replace] at hpending ⊢
    rcases instr_pending hexec h.keyed hpending with hbefore | rfl
    · have hother : ownedCall i ≠ some k := fun hown =>
        (reserve_eq_zero_of_owned honce hown).2 hbefore
      have hlt := lt_callCount_of_pending (Nat.le_trans (Nat.le_add_right _ _) (honce k)) hbefore
      rw [hkept k hother hlt]
      exact h.pending k hbefore
    · obtain ⟨⟨calls, pushed⟩, hinsert, heq⟩ := Option.map_eq_some_iff.mp hexec
      cases heq
      have hprepared := hphase k rfl
      simp only [CallInstr.exec] at hinsert
      split at hinsert <;> cases hinsert <;> exact hprepared
  · intro k hk
    exact instr_settled hexec honce hphase h.settled hk

theorem Lifecycle.init (timerThreads users : Nat) : Lifecycle (init timerThreads users) where
  keyed := by
    intro id k hfind
    cases hfind
  once := by
    intro k
    have htotal : (Client.init timerThreads users).total (own k) = 0 := by
      apply Config.total_eq_zero
      intro t i hactive
      obtain rfl | rfl | rfl := mem_init_stack hactive <;> rfl
    rw [htotal]
    simp [reserve, beginToken, pendingToken, Client.init, PendingMap.find]
  phase := by
    intro t i k hactive hown
    obtain rfl | rfl | rfl := mem_init_stack hactive <;> cases hown
  pending := by
    intro k hpending
    cases hpending
  settled := by
    intro k hk
    exact absurd hk (Nat.not_lt_zero k)

theorem Lifecycle.run {ok : ClientConfig → Nat → Instr → Prop} {timerThreads users : Nat}
    {c : ClientConfig} (h : client.Run ok (Client.init timerThreads users) c) : Lifecycle c :=
  h.invariant (.init timerThreads users) fun hlife _ hstep => hlife.step hstep

end UnixNotes.Rpc.Client
