import UnixNotes.Rpc.Client.PendingCalls

namespace UnixNotes.Rpc.Client

open Library

/-! ### Who is in charge of a call

A call that has begun and whose callback has not been run is in `pendingCalls`, or exactly one
instruction of all threads is in charge of it. -/

def ownedCall : Instr → Option Nat
  | .call (.nextRequestId k) | .call (.retryRequestId k) | .call (.callAsyncInternal k)
  | .armDeadline k | .net (.checkState k) | .call (.insertPending k)
  | .call (.completePending k _) | .call (.complete k _ _) | .call (.invokeCallback k _ _) => some k
  | _ => none

def own (k : Nat) (i : Instr) : Nat := if ownedCall i = some k then 1 else 0

def beginToken (callCount k : Nat) : Nat := if k < callCount then 0 else 1

def pendingToken (m : PendingMap) (id : UInt64) (k : Nat) : Nat := if m.find id = some k then 1 else 0

/-- The tokens of call `k` that no instruction holds: that of a call that is still to begin, and
that of a pending one. -/
def reserve (calls : CallTable) (k : Nat) : Nat :=
  beginToken calls.callCount k + pendingToken calls.pendingCalls (calls.call k).requestId k

structure Owned (c : ClientConfig) : Prop where
  keyed : Keyed c.shared.calls
  once : ∀ k, reserve c.shared.calls k + c.total (own k) ≤ 1

theorem own_eq_one {k : Nat} {i : Instr} (h : ownedCall i = some k) : own k i = 1 := if_pos h

theorem own_eq_zero {k : Nat} {i : Instr} (h : ownedCall i ≠ some k) : own k i = 0 := if_neg h

theorem weigh_own_eq_zero {k : Nat} {instrs : List Instr} (h : ∀ j ∈ instrs, ownedCall j = none) :
    Config.weigh (own k) instrs = 0 :=
  Config.weigh_eq_zero fun j hj => own_eq_zero (by rw [h j hj]; simp)

theorem body_owned (functor : Functor) : ∀ j ∈ functor.body, ownedCall j = none := by
  cases functor <;> simp [Functor.body, stopClient, ownedCall]

theorem runInLoop_owned (t : Nat) (functor : Functor) :
    ∀ j ∈ runInLoop t functor, ownedCall j = none := by
  rw [runInLoop]
  split
  · exact body_owned functor
  · simp [ownedCall]

theorem net_owned {t : Nat} {x : Choice} {s : State} {i : NetInstr} {net : Net}
    {pushed : List Instr} (h : i.exec t x s = some (net, pushed)) (hi : ∀ k, i ≠ .checkState k) :
    ∀ j ∈ pushed, ownedCall j = none := by
  have hrun := runInLoop_owned t
  cases i
  case checkState k => exact absurd rfl (hi k)
  all_goals
    simp only [NetInstr.exec] at h
    (repeat' split at h) <;> cases h <;>
      first | exact hrun _ | simp [startConnect, stopClient, cancelTimerIfSet, ownedCall]

theorem loop_owned {x : Choice} {s : State} {i : LoopInstr} {loop : Loop} {pushed : List Instr}
    (h : i.exec x s = some (loop, pushed)) : ∀ j ∈ pushed, ownedCall j = none := by
  cases i
  case loop =>
    simp only [LoopInstr.exec] at h
    (repeat' split at h) <;> cases h
    · simp
    · rename_i events _
      have hevents : ∀ event : Event, ownedCall event.handler = none := by
        intro event
        cases event <;> rfl
      simp only [List.mem_append, List.mem_map]
      rintro j (⟨event, -, rfl⟩ | hj)
      · exact hevents event
      · simp only [List.mem_cons, List.not_mem_nil, or_false] at hj
        obtain rfl | rfl := hj <;> rfl
  case doPendingFunctors =>
    cases h
    simp only [List.mem_flatMap]
    rintro j ⟨functor, -, hj⟩
    exact body_owned functor j hj
  all_goals
    simp only [LoopInstr.exec] at h
    (repeat' split at h) <;> cases h <;> simp [ownedCall]

theorem reserve_congr (calls calls' : CallTable) (k : Nat)
    (hid : (calls'.call k).requestId = (calls.call k).requestId)
    (hpending : calls'.pendingCalls = calls.pendingCalls)
    (hcount : calls'.callCount = calls.callCount) : reserve calls' k = reserve calls k := by
  simp only [reserve, hid, hpending, hcount]

theorem set_requestId (calls : CallTable) (j : Nat) (call : Call) (k : Nat)
    (hid : call.requestId = (calls.call j).requestId) :
    ((calls.set j call).call k).requestId = (calls.call k).requestId :=
  calls.set_congr Call.requestId j call k hid

theorem tokens_of_keep {calls calls' : CallTable} {i : Instr} {pushed : List Instr} (k : Nat)
    (hid : (calls'.call k).requestId = (calls.call k).requestId)
    (hpending : calls'.pendingCalls = calls.pendingCalls)
    (hcount : calls'.callCount = calls.callCount)
    (hweigh : Config.weigh (own k) pushed ≤ own k i) :
    reserve calls' k + Config.weigh (own k) pushed ≤ reserve calls k + own k i :=
  Nat.add_le_add (Nat.le_of_eq (reserve_congr calls calls' k hid hpending hcount)) hweigh

@[simp] theorem weigh_completeEach (calls : CallTable) (ks : List Nat) (errorCode : RpcErrorCode)
    (errorMessage : ByteString) (k : Nat) :
    Config.weigh (own k) (calls.completeEach ks errorCode errorMessage) = ks.count k := by
  induction ks with
  | nil => rfl
  | cons j ks ih =>
    rw [CallTable.completeEach, List.map_cons, Config.weigh_cons, List.count_cons]
    rw [CallTable.completeEach] at ih
    rw [ih, own, ownedCall]
    simp only [Option.some.injEq, beq_iff_eq]
    omega

theorem reserve_failCalls {calls : CallTable} (hkeyed : Keyed calls) {p : Call → Bool}
    {ks : List Nat} (hperm : ks.Perm (calls.select p)) (k : Nat) :
    reserve (calls.failCalls ks) k + ks.count k ≤ reserve calls k := by
  have hid := calls.failCalls_requestId ks k
  have hcount : ks.count k ≤ 1 := by
    rw [hperm.count_eq, CallTable.select]
    exact Nat.le_trans (List.filter_sublist.count_le k) (hkeyed.count_pendingList k)
  simp only [reserve, hid, CallTable.failCalls_pendingCalls, CallTable.failCalls_callCount]
  by_cases hk : k ∈ ks
  · have hpending : calls.pendingCalls.find (calls.call k).requestId = some k := by
      obtain ⟨⟨id, hfind⟩, -⟩ := mem_select.mp (hperm.mem_iff.mp hk)
      exact hkeyed.isPending hfind
    simp only [pendingToken, PendingMap.find_removeCalls, hk, hpending, not_true_eq_false,
      and_false, if_false, if_true]
    omega
  · simp only [pendingToken, PendingMap.find_removeCalls, hk, not_false_eq_true, and_true,
      List.count_eq_zero.mpr hk]
    exact Nat.le_refl _

theorem reserve_erase {calls : CallTable} {id : UInt64} {j : Nat}
    (hfind : calls.pendingCalls.find id = some j) (hid : (calls.call j).requestId = id)
    (state : PendingState) (k : Nat) :
    reserve ((calls.setState j state).setPending (calls.pendingCalls.erase id)) k +
      (if j = k then 1 else 0) ≤ reserve calls k := by
  have hcall : ((calls.setState j state).call k).requestId = (calls.call k).requestId := by
    by_cases hk : k = j
    · subst hk
      simp [CallTable.setState]
    · simp [CallTable.setState, hk]
  simp only [reserve, CallTable.setPending_call, hcall,
    CallTable.setPending_pendingCalls, CallTable.setPending_callCount]
  by_cases hk : j = k
  · subst hk
    simp [pendingToken, hid, hfind, CallTable.setState]
  · by_cases hkey : (calls.call k).requestId = id
    · simp [pendingToken, hkey, hk, CallTable.setState]
    · simp [pendingToken, PendingMap.find_erase_ne hkey, hk, CallTable.setState]

theorem pendingToken_eq_zero {calls : CallTable} (hkeyed : Keyed calls) {k : Nat}
    (h : pendingToken calls.pendingCalls (calls.call k).requestId k = 0) (id : UInt64) :
    pendingToken calls.pendingCalls id k = 0 := by
  rw [pendingToken]
  split
  · rename_i hfind
    rw [hkeyed id k hfind, pendingToken, if_pos hfind] at h
    exact h
  · rfl

theorem reserve_identify {calls : CallTable} (hkeyed : Keyed calls) {j : Nat}
    (hj : reserve calls j = 0) (next requestId : UInt64) (k : Nat) :
    reserve (({ calls with nextRequestId := next } : CallTable).set j
      { calls.call j with requestId := requestId }) k = reserve calls k := by
  by_cases hk : k = j
  · subst hk
    have hpending : pendingToken calls.pendingCalls (calls.call k).requestId k = 0 := by
      rw [reserve] at hj
      omega
    simp only [reserve, CallTable.set_call_self, CallTable.set_pendingCalls,
      CallTable.set_callCount, pendingToken_eq_zero hkeyed hpending]
  · exact reserve_congr _ _ _ (by simp [hk]) rfl rfl

theorem reserve_insert {calls : CallTable} {j : Nat}
    (hfree : (calls.call j).requestId ∉ calls.pendingCalls) (k : Nat) :
    reserve (calls.setPending (calls.pendingCalls.insert (calls.call j).requestId j)) k ≤
      reserve calls k + if j = k then 1 else 0 := by
  have hnone := PendingMap.find_eq_none.mpr hfree
  simp only [reserve, CallTable.setPending_call, CallTable.setPending_pendingCalls,
    CallTable.setPending_callCount]
  by_cases hk : j = k
  · subst hk
    simp [pendingToken]
  · by_cases hkey : (calls.call k).requestId = (calls.call j).requestId
    · simp [pendingToken, hkey, hk]
    · simp [pendingToken, PendingMap.find_insert_ne hkey, hk]

theorem reserve_begin {calls : CallTable} (hkeyed : Keyed calls)
    (honce : reserve calls calls.callCount ≤ 1) {call : Call} (hcall : call.requestId = 0) (k : Nat) :
    reserve ({ calls.set calls.callCount call with callCount := calls.callCount + 1 } : CallTable) k +
      (if calls.callCount = k then 1 else 0) = reserve calls k := by
  by_cases hk : k = calls.callCount
  · subst hk
    have hpending : pendingToken calls.pendingCalls (calls.call calls.callCount).requestId
        calls.callCount = 0 := by
      simp only [reserve, beginToken, Nat.lt_irrefl, if_false] at honce
      omega
    simp [reserve, beginToken, hcall, hpending, pendingToken_eq_zero hkeyed hpending]
  · have hne : calls.callCount ≠ k := Ne.symm hk
    have hlt : k < calls.callCount + 1 ↔ k < calls.callCount := by omega
    simp [reserve, beginToken, hk, hne, hlt]

theorem own_call (k j : Nat) {i : Instr} (h : ownedCall i = some j) :
    own k i = if j = k then 1 else 0 := by
  simp [own, h]

theorem runInLoop_own (t : Nat) (functor : Functor) (k : Nat) :
    Config.weigh (own k) (runInLoop t functor) = 0 :=
  weigh_own_eq_zero (runInLoop_owned t functor)

theorem finishCall_own (j : Nat) (response : RpcResponse) (route : Route) (k : Nat) :
    Config.weigh (own k) (finishCall j response route) = if j = k then 1 else 0 := by
  simp [finishCall, own, ownedCall]

theorem cancelTimerIfSet_own (id k : Nat) : Config.weigh (own k) (cancelTimerIfSet id) = 0 := by
  rw [cancelTimerIfSet]
  split <;> simp [own, ownedCall]

/-- What a step on calls hands on: its own token, or that of a call that begins or stops being
pending. -/
def KeepsTokens (s : State) (i : CallInstr) (calls : CallTable) (pushed : List Instr) : Prop :=
  ∀ k, reserve calls k + Config.weigh (own k) pushed ≤ reserve s.calls k + own k (.call i)

section Tokens

variable {t : Nat} {x : Choice} {s : State} {calls : CallTable} {pushed : List Instr}

theorem tokens_userCode (h : CallInstr.userCode.exec t x s = some (calls, pushed))
    (hkeyed : Keyed s.calls) (hfresh : reserve s.calls s.calls.callCount ≤ 1) :
    KeepsTokens s .userCode calls pushed := by
  intro k
  simp only [CallInstr.exec] at h
  split at h
  · rename_i operation
    cases operation
    case callAsync request options callback =>
      cases h
      have hweigh : Config.weigh (own k)
          ([Instr.call (.nextRequestId s.calls.callCount)] ++ [Instr.call .userCode]) =
          if s.calls.callCount = k then 1 else 0 := by
        simp [own, ownedCall]
      change _ + Config.weigh (own k) ([_] ++ _) ≤ _
      rw [hweigh]
      exact Nat.le_trans (Nat.le_of_eq (reserve_begin hkeyed hfresh rfl k)) (Nat.le_add_right _ _)
    all_goals
      cases h
      simp [Operation.begin, own, ownedCall]
  · cases h
    simp

theorem tokens_nextRequestId {j : Nat}
    (h : (CallInstr.nextRequestId j).exec t x s = some (calls, pushed)) (hkeyed : Keyed s.calls)
    (hj : reserve s.calls j = 0) : KeepsTokens s (.nextRequestId j) calls pushed := by
  intro k
  simp only [CallInstr.exec] at h
  split at h
  · cases h
    exact tokens_of_keep k rfl rfl rfl (by simp [own, ownedCall])
  · cases h
    rw [reserve_identify hkeyed hj]
    simp [own, ownedCall]

theorem tokens_callAsyncInternal {j : Nat}
    (h : (CallInstr.callAsyncInternal j).exec t x s = some (calls, pushed)) :
    KeepsTokens s (.callAsyncInternal j) calls pushed := by
  intro k
  simp only [CallInstr.exec] at h
  split at h
  · cases h
    exact tokens_of_keep k rfl rfl rfl (by rw [finishCall_own, own_call k j rfl])
  · split at h
    · cases h
      exact tokens_of_keep k rfl rfl rfl (by rw [finishCall_own, own_call k j rfl])
    · cases h
      refine tokens_of_keep k ?_ rfl rfl (by simp [own, ownedCall])
      exact set_requestId { s.calls with totalCalls := s.calls.totalCalls + 1 } j _ k rfl

theorem tokens_invokeCallback {j : Nat} {response : RpcResponse} {route : Route}
    (h : (CallInstr.invokeCallback j response route).exec t x s = some (calls, pushed)) :
    KeepsTokens s (.invokeCallback j response route) calls pushed := by
  intro k
  cases route with
  | param =>
    simp only [CallInstr.exec] at h
    split at h
    · cases h
      exact tokens_of_keep k (set_requestId _ j _ k rfl) rfl rfl (by simp [own, ownedCall])
    · cases h
      simp
  | pending =>
    simp only [CallInstr.exec] at h
    split at h
    · obtain ⟨stored, -, heq⟩ := Option.map_eq_some_iff.mp h
      cases heq
      exact tokens_of_keep k (set_requestId _ j _ k rfl) rfl rfl (by simp [own, ownedCall])
    · cases h
      simp

theorem tokens_insertPending {j : Nat}
    (h : (CallInstr.insertPending j).exec t x s = some (calls, pushed)) :
    KeepsTokens s (.insertPending j) calls pushed := by
  intro k
  simp only [CallInstr.exec] at h
  split at h
  · cases h
    simp
  · rename_i hfree
    cases h
    rw [own_call k j rfl, Config.weigh_nil]
    exact reserve_insert hfree k

theorem tokens_snapshotPending
    (h : CallInstr.snapshotPending.exec t x s = some (calls, pushed)) :
    KeepsTokens s .snapshotPending calls pushed := by
  intro k
  simp only [CallInstr.exec] at h
  split at h
  · rename_i ks
    split at h
    · cases h
      have hsend : ∀ i ∈ ks.map fun k => Instr.call (.sendPendingCall k), ownedCall i = none := by
        simp [ownedCall]
      exact tokens_of_keep k rfl rfl rfl (by rw [weigh_own_eq_zero hsend]; exact Nat.zero_le _)
    · cases h
  · cases h

theorem tokens_erase (hkeyed : Keyed s.calls) {requestId : UInt64} {j : Nat}
    (hfind : s.calls.pendingCalls.find requestId = some j) (state : PendingState)
    (response : RpcResponse) (k : Nat) :
    reserve ((s.calls.setState j state).setPending (s.calls.pendingCalls.erase requestId)) k +
        Config.weigh (own k) [.call (.completePending j response)] ≤ reserve s.calls k := by
  have herase := reserve_erase hfind (hkeyed _ _ hfind) state k
  rw [Config.weigh_cons, Config.weigh_nil, own_call k j rfl]
  omega

theorem tokens_completeResponse {response : RpcResponse}
    (h : (CallInstr.completeResponse response).exec t x s = some (calls, pushed))
    (hkeyed : Keyed s.calls) : KeepsTokens s (.completeResponse response) calls pushed := by
  intro k
  simp only [CallInstr.exec] at h
  split at h
  · cases h
    simp
  · rename_i j hfind
    cases h
    exact Nat.le_trans (tokens_erase hkeyed hfind _ _ k) (Nat.le_add_right _ _)

theorem tokens_failPending {requestId : UInt64} {errorCode : RpcErrorCode}
    {errorMessage : ByteString}
    (h : (CallInstr.failPending requestId errorCode errorMessage).exec t x s =
      some (calls, pushed)) (hkeyed : Keyed s.calls) :
    KeepsTokens s (.failPending requestId errorCode errorMessage) calls pushed := by
  intro k
  simp only [CallInstr.exec] at h
  split at h
  · cases h
    simp
  · rename_i j hfind
    cases h
    exact Nat.le_trans (tokens_erase hkeyed hfind _ _ k) (Nat.le_add_right _ _)

theorem tokens_failAllPending {errorCode : RpcErrorCode} {errorMessage : ByteString}
    (h : (CallInstr.failAllPending errorCode errorMessage).exec t x s = some (calls, pushed))
    (hkeyed : Keyed s.calls) :
    KeepsTokens s (.failAllPending errorCode errorMessage) calls pushed := by
  intro k
  simp only [CallInstr.exec] at h
  (repeat' split at h) <;> cases h
  rename_i ks hperm
  have hall : ks.Perm (s.calls.select fun _ => true) := by
    simpa [CallTable.select] using hperm
  rw [weigh_completeEach]
  exact Nat.le_trans (reserve_failCalls hkeyed hall k) (Nat.le_add_right _ _)

theorem tokens_failSentPending {errorCode : RpcErrorCode} {errorMessage : ByteString}
    (h : (CallInstr.failSentPending errorCode errorMessage).exec t x s = some (calls, pushed))
    (hkeyed : Keyed s.calls) :
    KeepsTokens s (.failSentPending errorCode errorMessage) calls pushed := by
  intro k
  simp only [CallInstr.exec] at h
  (repeat' split at h) <;> cases h
  rename_i ks hperm
  rw [weigh_completeEach]
  exact Nat.le_trans (reserve_failCalls hkeyed hperm k) (Nat.le_add_right _ _)

theorem tokens_expireRetryExhaustedPending {message : ByteString}
    (h : (CallInstr.expireRetryExhaustedPending message).exec t x s = some (calls, pushed))
    (hkeyed : Keyed s.calls) :
    KeepsTokens s (.expireRetryExhaustedPending message) calls pushed := by
  intro k
  simp only [CallInstr.exec] at h
  split at h
  · split at h
    · rename_i ks hperm
      cases h
      have hrest : ∀ i ∈ (if !((s.calls.select isWaiting).filter fun k => k ∉ ks).isEmpty then
          [Instr.net (.updateConnectionState .reconnecting), .net .scheduleReconnect]
        else [.net (.updateConnectionState .disconnected),
          .call (.failAllPending .networkError message)]), ownedCall i = none := by
        split <;> simp [ownedCall]
      rw [Config.weigh_append, weigh_completeEach, weigh_own_eq_zero hrest,
        reserve_congr (s.calls.failCalls ks) _ k (CallTable.countAttempts_requestId ..) rfl rfl]
      exact Nat.le_trans (reserve_failCalls hkeyed hperm k) (Nat.le_add_right _ _)
    · cases h
  · cases h

theorem exec_tokens {i : CallInstr} (h : i.exec t x s = some (calls, pushed))
    (hkeyed : Keyed s.calls) (honce : ∀ k, reserve s.calls k + own k (.call i) ≤ 1) :
    KeepsTokens s i calls pushed := by
  have hmine : ∀ j, ownedCall (.call i) = some j → reserve s.calls j = 0 := by
    intro j hj
    have := honce j
    rw [own_eq_one hj] at this
    omega
  cases i with
  | userCode => exact tokens_userCode h hkeyed (Nat.le_trans (Nat.le_add_right _ _) (honce _))
  | nextRequestId j => exact tokens_nextRequestId h hkeyed (hmine j rfl)
  | callAsyncInternal j => exact tokens_callAsyncInternal h
  | invokeCallback j response route => exact tokens_invokeCallback h
  | insertPending j => exact tokens_insertPending h
  | snapshotPending => exact tokens_snapshotPending h
  | completeResponse response => exact tokens_completeResponse h hkeyed
  | failPending requestId errorCode errorMessage => exact tokens_failPending h hkeyed
  | failAllPending errorCode errorMessage => exact tokens_failAllPending h hkeyed
  | failSentPending errorCode errorMessage => exact tokens_failSentPending h hkeyed
  | expireRetryExhaustedPending message => exact tokens_expireRetryExhaustedPending h hkeyed
  | retryRequestId j =>
    intro k
    cases h
    rw [reserve_identify hkeyed (hmine j rfl)]
    simp [own, ownedCall]
  | setCancel j =>
    intro k
    simp only [CallInstr.exec] at h
    split at h
    · cases h
      exact tokens_of_keep k (set_requestId _ j _ k rfl) rfl rfl (by simp)
    · cases h
      simp
  | recordClientResponse response =>
    intro k
    cases h
    exact tokens_of_keep k (by simp) (by simp) (by simp) (by simp)
  | complete j response route =>
    intro k
    cases h
    exact tokens_of_keep k (set_requestId _ j _ k (Call.complete_requestId ..)) rfl rfl
      (by simp [own, ownedCall])
  | markSent j n =>
    intro k
    simp only [CallInstr.exec] at h
    split at h
    · cases h
      exact tokens_of_keep k (set_requestId _ j _ k rfl) rfl rfl (by simp [own, ownedCall])
    · cases h
      simp
  | send j n =>
    intro k
    cases h
    exact tokens_of_keep k rfl rfl rfl (by rw [runInLoop_own]; exact Nat.zero_le _)
  | completePending j response =>
    intro k
    cases h
    refine tokens_of_keep k (set_requestId _ j _ k rfl) rfl rfl ?_
    rw [Config.weigh_append, cancelTimerIfSet_own, finishCall_own, own_call k j rfl]
    omega
  | destroy =>
    intro k
    cases h
    exact tokens_of_keep k rfl rfl rfl (by simp [own, ownedCall])
  | sendPendingCall j | fetchConnection j | cancel j | cancelPending requestId =>
    intro k
    simp only [CallInstr.exec] at h
    split at h <;> cases h <;> simp [own, ownedCall]

end Tokens

end UnixNotes.Rpc.Client
