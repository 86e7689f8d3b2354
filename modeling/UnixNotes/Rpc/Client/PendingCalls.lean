import UnixNotes.Rpc.Client.Exec

namespace UnixNotes.Rpc.Client

@[simp] theorem Call.complete_requestId (call : Call) (t : Nat) (response : RpcResponse) :
    (call.complete t response).requestId = call.requestId := by
  simp only [Call.complete]
  split <;> rfl

@[simp] theorem Call.invoke_requestId (call : Call) (response : RpcResponse) :
    (call.invoke response).requestId = call.requestId := rfl

namespace CallTable

@[simp] theorem set_call_self (calls : CallTable) (k : Nat) (call : Call) :
    (calls.set k call).call k = call := by
  simp [set]

@[simp] theorem set_call_ne (calls : CallTable) {k j : Nat} (call : Call) (h : j ≠ k) :
    (calls.set k call).call j = calls.call j := by
  simp [set, h]

theorem set_congr {β : Type} (f : Call → β) (calls : CallTable) (j : Nat) (call : Call) (k : Nat)
    (h : f call = f (calls.call j)) : f ((calls.set j call).call k) = f (calls.call k) := by
  by_cases hk : k = j
  · subst hk
    rw [set_call_self, h]
  · rw [set_call_ne _ _ hk]

theorem failCalls_congr {β : Type} (f : Call → β) (calls : CallTable) (ks : List Nat) (k : Nat)
    (h : ∀ call : Call, f { call with state := .failed } = f call) :
    f ((calls.failCalls ks).call k) = f (calls.call k) := by
  simp only [failCalls]
  split
  · exact h _
  · rfl

theorem countAttempts_congr {β : Type} (f : Call → β) (calls : CallTable) (ks : List Nat) (k : Nat)
    (h : ∀ (call : Call) (request : RpcRequest), f { call with request := request } = f call) :
    f ((calls.countAttempts ks).call k) = f (calls.call k) := by
  simp only [countAttempts, countAttempt]
  split
  · split
    · exact h _ _
    · rfl
  · rfl

@[simp] theorem set_pendingCalls (calls : CallTable) (k : Nat) (call : Call) :
    (calls.set k call).pendingCalls = calls.pendingCalls := rfl

@[simp] theorem set_callCount (calls : CallTable) (k : Nat) (call : Call) :
    (calls.set k call).callCount = calls.callCount := rfl

@[simp] theorem setPending_call (calls : CallTable) (m : PendingMap) :
    (calls.setPending m).call = calls.call := rfl

@[simp] theorem setPending_pendingCalls (calls : CallTable) (m : PendingMap) :
    (calls.setPending m).pendingCalls = m := rfl

@[simp] theorem setPending_callCount (calls : CallTable) (m : PendingMap) :
    (calls.setPending m).callCount = calls.callCount := rfl

@[simp] theorem recordClientResponse_call (calls : CallTable) (response : RpcResponse) :
    (calls.recordClientResponse response).call = calls.call := by
  rw [recordClientResponse]
  split
  · rfl
  · dsimp only
    split
    · rfl
    · split <;> rfl

@[simp] theorem recordClientResponse_pendingCalls (calls : CallTable) (response : RpcResponse) :
    (calls.recordClientResponse response).pendingCalls = calls.pendingCalls := by
  rw [recordClientResponse]
  split
  · rfl
  · dsimp only
    split
    · rfl
    · split <;> rfl

@[simp] theorem recordClientResponse_callCount (calls : CallTable) (response : RpcResponse) :
    (calls.recordClientResponse response).callCount = calls.callCount := by
  rw [recordClientResponse]
  split
  · rfl
  · dsimp only
    split
    · rfl
    · split <;> rfl

@[simp] theorem failCalls_callCount (calls : CallTable) (ks : List Nat) :
    (calls.failCalls ks).callCount = calls.callCount := rfl

@[simp] theorem failCalls_pendingCalls (calls : CallTable) (ks : List Nat) :
    (calls.failCalls ks).pendingCalls = removeCalls calls.pendingCalls ks := rfl

@[simp] theorem failCalls_requestId (calls : CallTable) (ks : List Nat) (k : Nat) :
    ((calls.failCalls ks).call k).requestId = (calls.call k).requestId :=
  failCalls_congr Call.requestId calls ks k fun _ => rfl

@[simp] theorem countAttempts_requestId (calls : CallTable) (ks : List Nat) (k : Nat) :
    ((calls.countAttempts ks).call k).requestId = (calls.call k).requestId :=
  countAttempts_congr Call.requestId calls ks k fun _ _ => rfl

end CallTable

namespace PendingMap

variable {m : PendingMap} {id : UInt64} {k : Nat}

theorem find_eq_some : m.find id = some k ↔ ⟨id, k⟩ ∈ m.entries := AList.mem_lookup_iff

theorem find_eq_none : m.find id = none ↔ id ∉ m := AList.lookup_eq_none

@[simp] theorem find_erase_self : PendingMap.find (m.erase id) id = none := AList.lookup_erase id m

theorem find_erase_ne {id' : UInt64} (h : id' ≠ id) :
    PendingMap.find (m.erase id) id' = m.find id' := AList.lookup_erase_ne h

@[simp] theorem find_insert_self : PendingMap.find (m.insert id k) id = some k :=
  AList.lookup_insert m

theorem find_insert_ne {id' : UInt64} (h : id' ≠ id) :
    PendingMap.find (m.insert id k) id' = m.find id' := AList.lookup_insert_ne h

theorem find_removeCalls {ks : List Nat} :
    (removeCalls m ks).find id = some k ↔ m.find id = some k ∧ k ∉ ks := by
  rw [find_eq_some, find_eq_some, removeCalls, List.mem_filter]
  simp

end PendingMap

theorem mem_pendingList {calls : CallTable} {k : Nat} :
    k ∈ calls.pendingList ↔ ∃ id, calls.pendingCalls.find id = some k := by
  simp only [PendingMap.find_eq_some, CallTable.pendingList, List.mem_map]
  constructor
  · rintro ⟨⟨id, k'⟩, hentry, rfl⟩
    exact ⟨id, hentry⟩
  · rintro ⟨id, hentry⟩
    exact ⟨⟨id, k⟩, hentry, rfl⟩

theorem mem_select {calls : CallTable} {p : Call → Bool} {k : Nat} :
    k ∈ calls.select p ↔
      (∃ id, calls.pendingCalls.find id = some k) ∧ p (calls.call k) = true := by
  rw [CallTable.select, List.mem_filter, mem_pendingList]

/-- Every entry is found under the request id of its call. -/
def Keyed (calls : CallTable) : Prop :=
  ∀ id k, calls.pendingCalls.find id = some k → (calls.call k).requestId = id

def IsPending (calls : CallTable) (k : Nat) : Prop :=
  calls.pendingCalls.find (calls.call k).requestId = some k

theorem Keyed.isPending {calls : CallTable} (h : Keyed calls) {id : UInt64} {k : Nat}
    (hfind : calls.pendingCalls.find id = some k) : IsPending calls k := by
  rw [IsPending, h id k hfind]
  exact hfind

theorem Keyed.mem_pendingList {calls : CallTable} (h : Keyed calls) {k : Nat} :
    k ∈ calls.pendingList ↔ IsPending calls k := by
  rw [Client.mem_pendingList]
  exact ⟨fun ⟨_, hfind⟩ => h.isPending hfind, fun hpending => ⟨_, hpending⟩⟩

theorem Keyed.count_pendingList {calls : CallTable} (h : Keyed calls) (k : Nat) :
    calls.pendingList.count k ≤ 1 := by
  have hentry : ∀ entry ∈ calls.pendingCalls.entries,
      entry.2 = k → entry = ⟨(calls.call k).requestId, k⟩ := by
    rintro ⟨id, k'⟩ hmem rfl
    rw [h id k' (PendingMap.find_eq_some.mpr hmem)]
  have hnodup : calls.pendingCalls.entries.Nodup := calls.pendingCalls.nodupKeys.nodup
  calc
    calls.pendingList.count k
        = calls.pendingCalls.entries.countP fun entry => entry.2 == k := by
      rw [CallTable.pendingList, List.count, List.countP_map]
      rfl
    _ ≤ calls.pendingCalls.entries.count ⟨(calls.call k).requestId, k⟩ := by
      apply List.countP_mono_left
      intro entry hmem heq
      simpa using hentry entry hmem (by simpa using heq)
    _ ≤ 1 := List.nodup_iff_count_le_one.mp hnodup _

end UnixNotes.Rpc.Client
