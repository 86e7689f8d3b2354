import UnixNotes.Rpc.Client.PendingCalls

namespace UnixNotes.Rpc.Client

/-- What an instruction of thread `t` does to the call `k`. -/
inductive CallStep (t : Nat) (s : State) (k : Nat) : CallInstr → Call → Prop
  | keep {i call} (same : call = s.calls.call k) : CallStep t s k i call
  | firstRequestId {requestId} :
    CallStep t s k (.nextRequestId k) { s.calls.call k with requestId := requestId }
  | secondRequestId {requestId} :
    CallStep t s k (.retryRequestId k) { s.calls.call k with requestId := requestId }
  | prepare {request deadline frame} : CallStep t s k (.callAsyncInternal k)
      { s.calls.call k with
        request := request
        deadline := deadline
        callback := (s.calls.call k).localCallback
        localCallback := false
        frame := frame }
  | setCancel : CallStep t s k (.setCancel k) { s.calls.call k with cancel := true }
  | complete {response route} :
    CallStep t s k (.complete k response route) ((s.calls.call k).complete t response)
  | invokeParam {response} (callback : (s.calls.call k).localCallback = true) :
    CallStep t s k (.invokeCallback k response .param) ((s.calls.call k).invoke response)
  | invokePending {response stored} (callback : (s.calls.call k).callback = true)
      (completed : (s.calls.call k).completed = some stored) :
    CallStep t s k (.invokeCallback k response .pending) ((s.calls.call k).invoke stored)
  | markSent {n} (pending : s.calls.pendingCalls.find (s.calls.call k).requestId = some k)
      (waiting : (s.calls.call k).state = .waitingToSend) :
    CallStep t s k (.markSent k n) { s.calls.call k with state := .sent }
  | completeOne {response} (pending : s.calls.pendingCalls.find response.requestId = some k) :
    CallStep t s k (.completeResponse response) { s.calls.call k with state := .completed }
  | failOne {requestId errorCode errorMessage}
      (pending : s.calls.pendingCalls.find requestId = some k) :
    CallStep t s k (.failPending requestId errorCode errorMessage)
      { s.calls.call k with state := failedState errorCode }
  | failAll {errorCode errorMessage} (pending : k ∈ s.calls.pendingList) :
    CallStep t s k (.failAllPending errorCode errorMessage)
      { s.calls.call k with state := .failed }
  | failSent {errorCode errorMessage} (pending : k ∈ s.calls.pendingList) :
    CallStep t s k (.failSentPending errorCode errorMessage)
      { s.calls.call k with state := .failed }
  | expire {message} (pending : k ∈ s.calls.pendingList) :
    CallStep t s k (.expireRetryExhaustedPending message) { s.calls.call k with state := .failed }
  | countAttempt {message} (pending : k ∈ s.calls.pendingList)
      (left : isRetryExhausted (s.calls.call k) = false) :
    CallStep t s k (.expireRetryExhaustedPending message) (countAttempt (s.calls.call k))
  | resetTimer {response} :
    CallStep t s k (.completePending k response) { s.calls.call k with timerId := 0 }

section Exec

variable {t : Nat} {x : Choice} {s : State} {i : CallInstr} {k : Nat}

theorem set_callStep {calls : CallTable} {j : Nat} {call : Call}
    (hcalls : calls.call = s.calls.call) (h : j = k → CallStep t s k i call) :
    CallStep t s k i ((calls.set j call).call k) := by
  by_cases hk : k = j
  · subst hk
    rw [CallTable.set_call_self]
    exact h rfl
  · rw [CallTable.set_call_ne _ _ hk, hcalls]
    exact .keep rfl

theorem failCalls_callStep {ks : List Nat} {p : Call → Bool} (hperm : ks.Perm (s.calls.select p))
    (h : k ∈ s.calls.pendingList → CallStep t s k i { s.calls.call k with state := .failed }) :
    CallStep t s k i ((s.calls.failCalls ks).call k) := by
  simp only [CallTable.failCalls]
  split
  · rename_i hk
    exact h (List.mem_filter.mp (hperm.mem_iff.mp hk)).1
  · exact .keep rfl

theorem callStep_of_exec {calls : CallTable} {pushed : List Instr}
    (h : i.exec t x s = some (calls, pushed)) (hbegun : k < s.calls.callCount) :
    CallStep t s k i (calls.call k) := by
  cases i
  case userCode =>
    simp only [CallInstr.exec] at h
    split at h
    · rename_i operation
      cases operation
      case callAsync request options callback =>
        cases h
        exact .keep (CallTable.set_call_ne _ _ (Nat.ne_of_lt hbegun))
      all_goals
        cases h
        exact .keep rfl
    · cases h
      exact .keep rfl
  case nextRequestId j =>
    simp only [CallInstr.exec] at h
    split at h <;> cases h
    · exact .keep rfl
    · exact set_callStep rfl fun hj => hj ▸ .firstRequestId
  case retryRequestId j =>
    cases h
    exact set_callStep rfl fun hj => hj ▸ .secondRequestId
  case callAsyncInternal j =>
    simp only [CallInstr.exec] at h
    (repeat' split at h) <;> cases h
    · exact .keep rfl
    · exact .keep rfl
    · exact set_callStep rfl fun hj => hj ▸ .prepare
  case setCancel j =>
    simp only [CallInstr.exec] at h
    split at h <;> cases h
    · exact set_callStep rfl fun hj => hj ▸ .setCancel
    · exact .keep rfl
  case recordClientResponse response =>
    cases h
    exact .keep (by rw [CallTable.recordClientResponse_call])
  case complete j response route =>
    cases h
    exact set_callStep rfl fun hj => hj ▸ .complete
  case invokeCallback j response route =>
    cases route
    · simp only [CallInstr.exec] at h
      split at h <;> cases h
      · rename_i hcallback
        exact set_callStep rfl (by rintro rfl; exact .invokeParam hcallback)
      · exact .keep rfl
    · simp only [CallInstr.exec] at h
      split at h
      · rename_i hcallback
        obtain ⟨stored, hstored, heq⟩ := Option.map_eq_some_iff.mp h
        cases heq
        exact set_callStep rfl (by rintro rfl; exact .invokePending hcallback hstored)
      · cases h
        exact .keep rfl
  case markSent j n =>
    simp only [CallInstr.exec] at h
    split at h <;> cases h
    · rename_i hpending
      exact set_callStep rfl (by rintro rfl; exact .markSent hpending.1 hpending.2)
    · exact .keep rfl
  case completeResponse response =>
    simp only [CallInstr.exec] at h
    split at h <;> cases h
    · exact .keep rfl
    · rename_i j hfind
      exact set_callStep rfl (by rintro rfl; exact .completeOne hfind)
  case failPending requestId errorCode errorMessage =>
    simp only [CallInstr.exec] at h
    split at h <;> cases h
    · exact .keep rfl
    · rename_i j hfind
      exact set_callStep rfl (by rintro rfl; exact .failOne hfind)
  case failAllPending errorCode errorMessage =>
    simp only [CallInstr.exec] at h
    (repeat' split at h) <;> cases h
    rename_i ks hperm
    have hall : ks.Perm (s.calls.select fun _ => true) := by
      simpa [CallTable.select] using hperm
    exact failCalls_callStep hall .failAll
  case failSentPending errorCode errorMessage =>
    simp only [CallInstr.exec] at h
    (repeat' split at h) <;> cases h
    rename_i ks hperm
    exact failCalls_callStep hperm .failSent
  case expireRetryExhaustedPending message =>
    simp only [CallInstr.exec] at h
    (repeat' split at h) <;> cases h
    all_goals
      rename_i ks hperm _
      simp only [CallTable.countAttempts]
      split
      · rename_i hk
        have hfilter := List.mem_filter.mp hk
        have hkept : k ∉ ks := by simpa using hfilter.2
        have hpending := (List.mem_filter.mp hfilter.1).1
        simp only [CallTable.failCalls, if_neg hkept]
        refine .countAttempt hpending (Bool.not_eq_true _ ▸ fun hexhausted => hkept ?_)
        exact hperm.mem_iff.mpr (List.mem_filter.mpr ⟨hpending, hexhausted⟩)
      · exact failCalls_callStep hperm .expire
  case completePending j response =>
    cases h
    exact set_callStep rfl fun hj => hj ▸ .resetTimer
  all_goals
    simp only [CallInstr.exec] at h
    (repeat' split at h) <;> cases h <;> exact .keep rfl

theorem call_of_exec {i : Instr} {s' : State} {pushed : List Instr}
    (h : i.exec t x s = some (s', pushed)) (hbegun : k < s.calls.callCount) :
    s'.calls.call k = s.calls.call k ∨
      (∃ i', i = .call i' ∧ CallStep t s k i' (s'.calls.call k)) ∨
      i = .armDeadline k ∧
        s'.calls.call k = { s.calls.call k with timerId := s.loop.timerCount } := by
  cases i with
  | call i =>
    obtain ⟨⟨calls, pushed⟩, hexec, heq⟩ := Option.map_eq_some_iff.mp h
    cases heq
    exact .inr (.inl ⟨i, rfl, callStep_of_exec hexec hbegun⟩)
  | net i =>
    obtain ⟨⟨net, pushed⟩, -, heq⟩ := Option.map_eq_some_iff.mp h
    cases heq
    exact .inl rfl
  | loop i =>
    obtain ⟨⟨loop, pushed⟩, -, heq⟩ := Option.map_eq_some_iff.mp h
    cases heq
    exact .inl rfl
  | armDeadline j =>
    cases h
    by_cases hk : k = j
    · subst hk
      exact .inr (.inr ⟨rfl, CallTable.set_call_self ..⟩)
    · exact .inl (CallTable.set_call_ne _ _ hk)

theorem callCount_of_exec {calls : CallTable} {pushed : List Instr}
    (h : i.exec t x s = some (calls, pushed)) :
    calls.callCount = s.calls.callCount ∨
      ∃ request options callback, i = .userCode ∧
        calls = (Operation.begin s.calls (.callAsync request options callback)).1 := by
  cases i
  case userCode =>
    simp only [CallInstr.exec] at h
    split at h
    · rename_i operation
      cases operation
      case callAsync request options callback =>
        cases h
        exact .inr ⟨request, options, callback, rfl, rfl⟩
      all_goals
        cases h
        exact .inl rfl
    · cases h
      exact .inl rfl
  case recordClientResponse response =>
    cases h
    exact .inl (CallTable.recordClientResponse_callCount ..)
  case invokeCallback j response route =>
    cases route
    · simp only [CallInstr.exec] at h
      split at h <;> cases h <;> exact .inl rfl
    · simp only [CallInstr.exec] at h
      split at h
      · obtain ⟨stored, -, heq⟩ := Option.map_eq_some_iff.mp h
        cases heq
        exact .inl rfl
      · cases h
        exact .inl rfl
  all_goals
    simp only [CallInstr.exec] at h
    (repeat' split at h) <;> cases h <;> exact .inl rfl

theorem callCount_le_of_exec {i : Instr} {s' : State} {pushed : List Instr}
    (h : i.exec t x s = some (s', pushed)) : s.calls.callCount ≤ s'.calls.callCount := by
  cases i with
  | call i =>
    obtain ⟨⟨calls, pushed⟩, hexec, heq⟩ := Option.map_eq_some_iff.mp h
    cases heq
    obtain hsame | ⟨request, options, callback, -, rfl⟩ := callCount_of_exec hexec
    · exact Nat.le_of_eq hsame.symm
    · exact Nat.le_succ _
  | net i | loop i =>
    obtain ⟨r, -, heq⟩ := Option.map_eq_some_iff.mp h
    cases heq
    exact Nat.le_refl _
  | armDeadline j =>
    cases h
    exact Nat.le_refl _

theorem begin_of_exec {i : Instr} {s' : State} {pushed : List Instr}
    (h : i.exec t x s = some (s', pushed)) (hk : k < s'.calls.callCount) :
    k < s.calls.callCount ∨ ∃ request options callback, s'.calls.call k =
      { request := request, options := options, localCallback := callback,
        hasCallback := callback } := by
  cases i with
  | call i =>
    obtain ⟨⟨calls, pushed⟩, hexec, heq⟩ := Option.map_eq_some_iff.mp h
    cases heq
    obtain hsame | ⟨request, options, callback, -, rfl⟩ := callCount_of_exec hexec
    · exact .inl (hsame ▸ hk)
    · obtain hbegun | rfl := Nat.lt_succ_iff_lt_or_eq.mp hk
      · exact .inl hbegun
      · exact .inr ⟨request, options, callback, CallTable.set_call_self ..⟩
  | net i | loop i =>
    obtain ⟨r, -, heq⟩ := Option.map_eq_some_iff.mp h
    cases heq
    exact .inl hk
  | armDeadline j =>
    cases h
    exact .inl hk

end Exec

end UnixNotes.Rpc.Client
