import UnixNotes.Library.Counter
import UnixNotes.Rpc.Client.ConnectionState
import UnixNotes.Rpc.Client.RequestIds

namespace UnixNotes.Rpc.Client

open Library

def startToken : Instr → Nat
  | .call (.nextRequestId _) | .call (.retryRequestId _) | .call (.callAsyncInternal _) => 1
  | _ => 0

/-- A call that is counted, is not pending and has no outcome recorded. -/
def openToken : Instr → Nat
  | .armDeadline _ | .net (.checkState _) | .call (.insertPending _)
  | .call (.completePending _ _) | .call (.recordClientResponse _) => 1
  | _ => 0

def CallTable.accounted (calls : CallTable) : Nat :=
  calls.successCalls.toNat + calls.failedCalls.toNat + calls.pendingList.length

theorem length_pendingList (calls : CallTable) :
    calls.pendingList.length = calls.pendingCalls.keys.length := by
  simp [CallTable.pendingList, AList.keys, List.keys]

theorem length_pendingList_erase {calls : CallTable} {requestId : UInt64} {k : Nat}
    (hfind : calls.pendingCalls.find requestId = some k) (state : PendingState) :
    ((calls.setState k state).setPending (calls.pendingCalls.erase requestId)).pendingList.length +
      1 = calls.pendingList.length := by
  have hmem : requestId ∈ calls.pendingCalls.keys := by
    rw [← AList.mem_keys]
    by_contra hnone
    rw [PendingMap.find_eq_none.mpr hnone] at hfind
    cases hfind
  rw [length_pendingList, length_pendingList, CallTable.setPending_pendingCalls, AList.keys_erase,
    List.length_erase_of_mem hmem]
  exact Nat.succ_pred_eq_of_pos (List.length_pos_of_mem hmem)

theorem length_pendingList_insert {calls : CallTable} {requestId : UInt64} {k : Nat}
    (hfresh : requestId ∉ calls.pendingCalls) :
    (calls.setPending (calls.pendingCalls.insert requestId k)).pendingList.length =
      calls.pendingList.length + 1 := by
  rw [AList.mem_keys] at hfresh
  rw [length_pendingList, length_pendingList, CallTable.setPending_pendingCalls, AList.keys_insert,
    List.erase_of_not_mem hfresh, List.length_cons]

theorem length_pendingList_failCalls {calls : CallTable} {ks : List Nat} {p : Call → Bool}
    (hperm : ks.Perm (calls.select p)) :
    (calls.failCalls ks).pendingList.length + ks.length = calls.pendingList.length := by
  have hkept : (calls.failCalls ks).pendingList = calls.pendingList.filter fun k => k ∉ ks := by
    simp only [CallTable.pendingList, CallTable.failCalls_pendingCalls, removeCalls,
      List.filter_map]
    rfl
  have htaken : calls.select p = calls.pendingList.filter fun k => k ∈ ks := by
    refine List.filter_congr fun k hk => ?_
    have hmem := hperm.mem_iff (a := k)
    rw [CallTable.select, List.mem_filter] at hmem
    simp [hmem, hk]
  rw [hkept, hperm.length_eq, htaken,
    calls.pendingList.length_eq_length_filter_add fun k => decide (k ∈ ks), Nat.add_comm]
  simp

theorem weigh_completeEach_open (calls : CallTable) (ks : List Nat) (errorCode : RpcErrorCode)
    (errorMessage : ByteString) :
    Config.weigh openToken (calls.completeEach ks errorCode errorMessage) = ks.length := by
  induction ks with
  | nil => rfl
  | cons k ks ih =>
    rw [CallTable.completeEach] at ih
    rw [CallTable.completeEach, List.map_cons, Config.weigh_cons, ih, openToken, List.length_cons,
      Nat.add_comm]

def countsCalls : CallInstr → Bool
  | .nextRequestId _ | .retryRequestId _ | .callAsyncInternal _ | .recordClientResponse _
  | .insertPending _ | .completeResponse _ | .failPending _ _ _ | .failAllPending _ _
  | .failSentPending _ _ | .expireRetryExhaustedPending _ => true
  | _ => false

section Exec

variable {t : Nat} {x : Choice} {s s' : State} {pushed : List Instr} {k : Nat}

theorem counters_of_exec {i : CallInstr} {calls : CallTable}
    (h : i.exec t x s = some (calls, pushed)) (hi : countsCalls i = false) :
    calls = { s.calls with
      callCount := calls.callCount, call := calls.call, alive := calls.alive } := by
  cases i
  case userCode =>
    simp only [CallInstr.exec] at h
    split at h
    · rename_i operation
      cases operation <;> cases h <;> rfl
    · cases h
      rfl
  case invokeCallback j response route =>
    cases route
    · simp only [CallInstr.exec] at h
      split at h <;> cases h <;> rfl
    · simp only [CallInstr.exec] at h
      split at h
      · obtain ⟨stored, -, heq⟩ := Option.map_eq_some_iff.mp h
        cases heq
        rfl
      · cases h
        rfl
  all_goals first
    | cases hi
      done
    | simp only [CallInstr.exec] at h
      (repeat' split at h) <;> cases h <;> rfl

theorem openToken_of_pushes {i j : Instr} (h : Pushes t s i j) (hj : openToken j ≠ 0) :
    (∃ i', i = .call i' ∧ (countsCalls i' = true ∨ ∃ k response, i' = .completePending k response)) ∨
      (∃ k, i = .armDeadline k) ∨ ∃ k, i = .net (.checkState k) := by
  cases h
  case recordUnsent | armDeadline | completeOne | failOne | failAll | failSent | expire =>
    exact .inl ⟨_, rfl, .inl rfl⟩
  case recordPending => exact .inl ⟨_, rfl, .inr ⟨_, _, rfl⟩⟩
  case checkState => exact .inr (.inl ⟨_, rfl⟩)
  all_goals first
    | exact absurd rfl hj
    | exact .inr (.inr ⟨_, rfl⟩)

@[simp] theorem weigh_openToken_finishCall (response : RpcResponse) (route : Route) :
    Config.weigh openToken (finishCall k response route) = 1 := rfl

@[simp] theorem weigh_openToken_cancelTimerIfSet (id : Nat) :
    Config.weigh openToken (cancelTimerIfSet id) = 0 := by
  rw [cancelTimerIfSet]
  split <;> rfl

theorem accounted_recordClientResponse {calls : CallTable} {response : RpcResponse}
    (hroom : calls.successCalls.toNat + calls.failedCalls.toNat + 1 < 2 ^ 64) :
    (calls.recordClientResponse response).accounted = calls.accounted + 1 := by
  have hsuccess := toNat_succ (n := calls.successCalls) (by omega)
  have hfailed := toNat_succ (n := calls.failedCalls) (by omega)
  simp only [CallTable.recordClientResponse, CallTable.accounted, CallTable.pendingList]
  split
  · simp only [hsuccess]
    omega
  · (repeat' split) <;> simp only [hfailed] <;> omega

theorem outcomes_recordClientResponse {calls : CallTable} {response : RpcResponse}
    (hroom : calls.successCalls.toNat + calls.failedCalls.toNat + 1 < 2 ^ 64)
    (h : calls.timeoutCalls.toNat + calls.cancelledCalls.toNat ≤ calls.failedCalls.toNat) :
    (calls.recordClientResponse response).timeoutCalls.toNat +
      (calls.recordClientResponse response).cancelledCalls.toNat ≤
        (calls.recordClientResponse response).failedCalls.toNat := by
  have hfailed := toNat_succ (n := calls.failedCalls) (by omega)
  have htimeout := toNat_succ (n := calls.timeoutCalls) (by omega)
  have hcancelled := toNat_succ (n := calls.cancelledCalls) (by omega)
  simp only [CallTable.recordClientResponse]
  split
  · exact h
  · (repeat' split) <;> simp only [hfailed, htimeout, hcancelled] <;> omega

theorem accounted_erase {calls : CallTable} {requestId : UInt64}
    (hfind : calls.pendingCalls.find requestId = some k) {state : PendingState} :
    ((calls.setState k state).setPending (calls.pendingCalls.erase requestId)).accounted + 1 =
      calls.accounted := by
  rw [CallTable.accounted, Nat.add_assoc, length_pendingList_erase hfind]
  rfl

theorem accounted_failCalls {calls : CallTable} {ks : List Nat} {p : Call → Bool}
    (hperm : ks.Perm (calls.select p)) :
    (calls.failCalls ks).accounted + ks.length = calls.accounted := by
  rw [CallTable.accounted, Nat.add_assoc, length_pendingList_failCalls hperm]
  rfl

theorem exec_accounted {i : CallInstr} {calls : CallTable}
    (h : i.exec t x s = some (calls, pushed))
    (hfresh : ∀ k, i = .insertPending k →
      (s.calls.call k).requestId ∉ s.calls.pendingCalls)
    (hstart : ∀ k, i = .callAsyncInternal k → s.calls.totalCalls.toNat + 1 < 2 ^ 64)
    (hroom : ∀ response, i = .recordClientResponse response →
      s.calls.successCalls.toNat + s.calls.failedCalls.toNat + 1 < 2 ^ 64) :
    calls.accounted + Config.weigh openToken pushed + s.calls.totalCalls.toNat =
      s.calls.accounted + openToken (.call i) + calls.totalCalls.toNat := by
  cases i
  case nextRequestId k | retryRequestId k =>
    simp only [CallInstr.exec] at h
    (repeat' split at h) <;> cases h <;> rfl
  case callAsyncInternal k =>
    have hcount := toNat_succ (hstart k rfl)
    simp only [CallInstr.exec] at h
    (repeat' split at h) <;> cases h <;>
      simp only [CallTable.accounted, CallTable.pendingList, CallTable.set, hcount, openToken,
        weigh_openToken_finishCall, Config.weigh_cons, Config.weigh_nil] <;>
      omega
  case recordClientResponse response =>
    cases h
    have htotal : (s.calls.recordClientResponse response).totalCalls = s.calls.totalCalls := by
      simp only [CallTable.recordClientResponse]
      (repeat' split) <;> rfl
    rw [accounted_recordClientResponse (hroom response rfl), htotal]
    simp only [openToken, Config.weigh_nil]
  case insertPending k =>
    have hinsert := hfresh k rfl
    simp only [CallInstr.exec, if_neg hinsert] at h
    cases h
    have hlength := length_pendingList_insert (k := k) hinsert
    simp only [CallTable.accounted, hlength, openToken, Config.weigh_nil]
    rfl
  case completeResponse response | failPending requestId errorCode errorMessage =>
    simp only [CallInstr.exec] at h
    split at h <;> cases h
    · rfl
    · rename_i j hfind
      rw [← accounted_erase hfind]
      rfl
  case failAllPending errorCode errorMessage =>
    simp only [CallInstr.exec] at h
    (repeat' split at h) <;> cases h
    rename_i ks hperm
    have hall : ks.Perm (s.calls.select fun _ => true) := by
      simpa [CallTable.select] using hperm
    rw [← accounted_failCalls hall, weigh_completeEach_open]
    rfl
  case failSentPending errorCode errorMessage =>
    simp only [CallInstr.exec] at h
    (repeat' split at h) <;> cases h
    rename_i ks hperm
    rw [← accounted_failCalls hperm, weigh_completeEach_open]
    rfl
  case expireRetryExhaustedPending message =>
    simp only [CallInstr.exec] at h
    (repeat' split at h) <;> cases h
    all_goals
      rename_i ks hperm _
      rw [← accounted_failCalls hperm, Config.weigh_append, weigh_completeEach_open]
      rfl
  case completePending k response =>
    cases h
    rw [Config.weigh_append, weigh_openToken_cancelTimerIfSet, weigh_openToken_finishCall,
      Nat.zero_add]
    rfl
  all_goals
    have hcounters := counters_of_exec h rfl
    have hnone : Config.weigh openToken pushed = 0 := by
      refine Config.weigh_eq_zero fun j hj => ?_
      by_contra hopen
      have hexec : (Instr.call _).exec t x s = some ({ s with calls := calls }, pushed) :=
        Option.map_eq_some_iff.mpr ⟨_, h, rfl⟩
      obtain ⟨i, heq, hcounts | ⟨k, response, rfl⟩⟩ | ⟨k, heq⟩ | ⟨k, heq⟩ :=
        openToken_of_pushes (pushes_of_exec hexec j hj) hopen
      all_goals cases heq
      cases hcounts
    rw [hnone, hcounters]
    rfl

theorem totalCalls_of_exec {i : CallInstr} {calls : CallTable}
    (h : i.exec t x s = some (calls, pushed)) (hi : ∀ k, i ≠ .callAsyncInternal k) :
    calls.totalCalls = s.calls.totalCalls := by
  cases hcounts : countsCalls i with
  | false => rw [counters_of_exec h hcounts]
  | true =>
    cases i
    case callAsyncInternal k => exact absurd rfl (hi k)
    case recordClientResponse response =>
      cases h
      simp only [CallTable.recordClientResponse]
      (repeat' split) <;> rfl
    all_goals first
      | cases hcounts
        done
      | simp only [CallInstr.exec] at h
        (repeat' split at h) <;> cases h <;> rfl

theorem outcomes_of_exec {i : CallInstr} {calls : CallTable}
    (h : i.exec t x s = some (calls, pushed)) (hi : ∀ response, i ≠ .recordClientResponse response) :
    calls.failedCalls = s.calls.failedCalls ∧ calls.timeoutCalls = s.calls.timeoutCalls ∧
      calls.cancelledCalls = s.calls.cancelledCalls := by
  cases hcounts : countsCalls i with
  | false =>
    rw [counters_of_exec h hcounts]
    exact ⟨rfl, rfl, rfl⟩
  | true =>
    cases i
    case recordClientResponse response => exact absurd rfl (hi response)
    all_goals first
      | cases hcounts
        done
      | simp only [CallInstr.exec] at h
        (repeat' split at h) <;> cases h <;> exact ⟨rfl, rfl, rfl⟩

theorem startToken_of_pushes {i j : Instr} (h : Pushes t s i j) (hj : startToken j ≠ 0) :
    i = .call .userCode ∨ (∃ k, i = .call (.nextRequestId k)) ∨
      ∃ k, i = .call (.retryRequestId k) := by
  cases h
  case userCall => exact .inl rfl
  case retryRequestId | firstRequestId => exact .inr (.inl ⟨_, rfl⟩)
  case secondRequestId => exact .inr (.inr ⟨_, rfl⟩)
  all_goals exact absurd rfl hj

theorem exec_started {i : CallInstr} {calls : CallTable}
    (h : i.exec t x s = some (calls, pushed))
    (hstart : ∀ k, i = .callAsyncInternal k → s.calls.totalCalls.toNat + 1 < 2 ^ 64) :
    calls.totalCalls.toNat + Config.weigh startToken pushed + s.calls.callCount =
      s.calls.totalCalls.toNat + startToken (.call i) + calls.callCount := by
  cases i
  case userCode =>
    simp only [CallInstr.exec] at h
    split at h
    · rename_i operation
      cases operation
      case callAsync request options callback =>
        cases h
        simp only [Operation.begin, List.cons_append, List.nil_append, Config.weigh_cons,
          Config.weigh_nil, startToken, CallTable.set]
        omega
      all_goals
        cases h
        rfl
    · cases h
      rfl
  case nextRequestId k | retryRequestId k =>
    simp only [CallInstr.exec] at h
    (repeat' split at h) <;> cases h <;> rfl
  case callAsyncInternal k =>
    have hcount := toNat_succ (hstart k rfl)
    simp only [CallInstr.exec] at h
    (repeat' split at h) <;> cases h <;>
      simp only [CallTable.set, hcount, startToken, finishCall, Config.weigh_cons,
        Config.weigh_nil, Nat.add_zero]
  all_goals
    have htotal := totalCalls_of_exec h (by simp)
    have hnone : Config.weigh startToken pushed = 0 := by
      refine Config.weigh_eq_zero fun j hj => ?_
      by_contra hstarts
      have hexec : (Instr.call _).exec t x s = some ({ s with calls := calls }, pushed) :=
        Option.map_eq_some_iff.mpr ⟨_, h, rfl⟩
      obtain heq | ⟨k, heq⟩ | ⟨k, heq⟩ :=
        startToken_of_pushes (pushes_of_exec hexec j hj) hstarts <;> cases heq
    obtain hcount | ⟨request, options, callback, heq, -⟩ := callCount_of_exec h
    · rw [hnone, htotal, hcount]
      rfl
    · cases heq

theorem net_open {i : NetInstr} {net : Net} (h : i.exec t x s = some (net, pushed)) :
    Config.weigh openToken pushed = openToken (.net i) ∧ Config.weigh startToken pushed = 0 := by
  by_cases hi : ∃ k, i = .checkState k
  · obtain ⟨k, rfl⟩ := hi
    simp only [NetInstr.exec] at h
    (repeat' split at h) <;> cases h <;> exact ⟨rfl, rfl⟩
  · have hexec : (Instr.net i).exec t x s = some ({ s with net := net }, pushed) :=
      Option.map_eq_some_iff.mpr ⟨_, h, rfl⟩
    have hopen : openToken (.net i) = 0 := by
      cases i
      case checkState k => exact absurd ⟨k, rfl⟩ hi
      all_goals rfl
    rw [hopen]
    constructor
    · refine Config.weigh_eq_zero fun j hj => ?_
      by_contra hopens
      obtain ⟨i, heq, -⟩ | ⟨k, heq⟩ | ⟨k, heq⟩ :=
        openToken_of_pushes (pushes_of_exec hexec j hj) hopens <;> cases heq
      exact hi ⟨k, rfl⟩
    · refine Config.weigh_eq_zero fun j hj => ?_
      by_contra hstarts
      obtain heq | ⟨k, heq⟩ | ⟨k, heq⟩ :=
        startToken_of_pushes (pushes_of_exec hexec j hj) hstarts <;> cases heq

theorem loop_open {i : LoopInstr} {loop : Loop} (h : i.exec x s = some (loop, pushed)) :
    Config.weigh openToken pushed = 0 ∧ Config.weigh startToken pushed = 0 := by
  have hexec : (Instr.loop i).exec 0 x s = some ({ s with loop := loop }, pushed) :=
    Option.map_eq_some_iff.mpr ⟨_, h, rfl⟩
  constructor
  · refine Config.weigh_eq_zero fun j hj => ?_
    by_contra hopens
    obtain ⟨i, heq, -⟩ | ⟨k, heq⟩ | ⟨k, heq⟩ :=
      openToken_of_pushes (pushes_of_exec hexec j hj) hopens <;> cases heq
  · refine Config.weigh_eq_zero fun j hj => ?_
    by_contra hstarts
    obtain heq | ⟨k, heq⟩ | ⟨k, heq⟩ :=
      startToken_of_pushes (pushes_of_exec hexec j hj) hstarts <;> cases heq

end Exec

/-- Every call that began is still to be counted, open, pending or has one outcome. -/
structure Counted (c : ClientConfig) : Prop extends Numbered c where
  started : c.shared.calls.totalCalls.toNat + c.total startToken = c.shared.calls.callCount
  conserved : c.shared.calls.totalCalls.toNat = c.shared.calls.accounted + c.total openToken
  outcomes : c.shared.calls.timeoutCalls.toNat + c.shared.calls.cancelledCalls.toNat ≤
    c.shared.calls.failedCalls.toNat

section Step

variable {c : ClientConfig} {t : Nat} {i : Instr} {rest : List Instr} {x : Choice} {s : State}
  {pushed : List Instr} {k : Nat} (h : Counted c) (htop : c.stack t = i :: rest)
  (hexec : i.exec t x c.shared = some (s, pushed)) (hbound : c.shared.calls.callCount < 2 ^ 64)
include h htop hbound

theorem Counted.start_room (hi : i = .call (.callAsyncInternal k)) :
    c.shared.calls.totalCalls.toNat + 1 < 2 ^ 64 := by
  have htoken := Config.le_total (w := startToken) (Config.active_of_top htop)
  have hstarted := h.started
  rw [hi, startToken] at htoken
  omega

theorem Counted.record_room {response : RpcResponse}
    (hi : i = .call (.recordClientResponse response)) :
    c.shared.calls.successCalls.toNat + c.shared.calls.failedCalls.toNat + 1 < 2 ^ 64 := by
  have htoken := Config.le_total (w := openToken) (Config.active_of_top htop)
  have hstarted := h.started
  have hconserved := h.conserved
  rw [hi, openToken] at htoken
  rw [CallTable.accounted] at hconserved
  omega

include hexec

theorem Counted.exec_tokens :
    s.calls.totalCalls.toNat + Config.weigh startToken pushed + c.shared.calls.callCount =
        c.shared.calls.totalCalls.toNat + startToken i + s.calls.callCount ∧
      s.calls.accounted + Config.weigh openToken pushed + c.shared.calls.totalCalls.toNat =
        c.shared.calls.accounted + openToken i + s.calls.totalCalls.toNat := by
  cases i with
  | call i =>
    obtain ⟨⟨calls, pushed⟩, hcall, heq⟩ := Option.map_eq_some_iff.mp hexec
    cases heq
    refine ⟨exec_started hcall ?_, exec_accounted hcall ?_ ?_ ?_⟩
    · rintro k rfl
      exact h.start_room htop hbound rfl
    · rintro k rfl
      exact h.insert_fresh (Config.active_of_top htop)
    · rintro k rfl
      exact h.start_room htop hbound rfl
    · rintro response rfl
      exact h.record_room htop hbound rfl
  | net i =>
    obtain ⟨⟨net, pushed⟩, hnet, heq⟩ := Option.map_eq_some_iff.mp hexec
    cases heq
    obtain ⟨hopen, hstart⟩ := net_open hnet
    rw [hopen, hstart]
    exact ⟨rfl, rfl⟩
  | loop i =>
    obtain ⟨⟨loop, pushed⟩, hloop, heq⟩ := Option.map_eq_some_iff.mp hexec
    cases heq
    obtain ⟨hopen, hstart⟩ := loop_open hloop
    rw [hopen, hstart]
    exact ⟨rfl, rfl⟩
  | armDeadline k =>
    cases hexec
    exact ⟨rfl, rfl⟩

theorem Counted.outcomes_step :
    s.calls.timeoutCalls.toNat + s.calls.cancelledCalls.toNat ≤ s.calls.failedCalls.toNat := by
  have houtcomes := h.outcomes
  cases i with
  | call i =>
    obtain ⟨⟨calls, pushed⟩, hcall, heq⟩ := Option.map_eq_some_iff.mp hexec
    cases heq
    by_cases hi : ∃ response, i = .recordClientResponse response
    · obtain ⟨response, rfl⟩ := hi
      cases hcall
      exact outcomes_recordClientResponse (h.record_room htop hbound rfl) houtcomes
    · obtain ⟨hfailed, htimeout, hcancelled⟩ :=
        outcomes_of_exec hcall fun response heq => hi ⟨response, heq⟩
      rw [hfailed, htimeout, hcancelled]
      exact houtcomes
  | net i | loop i =>
    obtain ⟨r, -, heq⟩ := Option.map_eq_some_iff.mp hexec
    cases heq
    exact houtcomes
  | armDeadline k =>
    cases hexec
    exact houtcomes

end Step

theorem Counted.step {c c' : ClientConfig} {t : Nat} {i : Instr} (h : Counted c)
    (hstep : client.Step c t i c') (hbound : c'.shared.calls.callCount < 2 ^ 64) : Counted c' := by
  have hnumbered := h.toNumbered.step hstep hbound
  obtain @⟨rest, x, s, pushed, htop, hexec⟩ := hstep
  have hbefore := Nat.lt_of_le_of_lt (callCount_le_of_exec hexec) hbound
  have hstarted := h.started
  have hconserved := h.conserved
  have hstart := Config.total_replace startToken htop s pushed
  have hopen := Config.total_replace openToken htop s pushed
  obtain ⟨hstartTokens, hopenTokens⟩ := h.exec_tokens htop hexec hbefore
  refine { hnumbered with started := ?_, conserved := ?_,
                          outcomes := h.outcomes_step htop hexec hbefore }
  · rw [Config.shared_replace]
    omega
  · rw [Config.shared_replace]
    omega

theorem Counted.init (timerThreads users : Nat) : Counted (init timerThreads users) where
  toNumbered := .init timerThreads users
  started := by
    rw [total_init rfl rfl rfl]
    rfl
  conserved := by
    rw [total_init rfl rfl rfl]
    rfl
  outcomes := Nat.le_refl _

theorem Counted.run {timerThreads users : Nat} {c : ClientConfig}
    (hrun : client.Reaches (Client.init timerThreads users) c)
    (hbound : c.shared.calls.callCount < 2 ^ 64) : Counted c := by
  refine hrun.invariant (I := fun c => c.shared.calls.callCount < 2 ^ 64 → Counted c)
    (fun _ => .init timerThreads users) ?_ hbound
  intro c c' t i h _ hstep hbound
  refine (h (Nat.lt_of_le_of_lt ?_ hbound)).step hstep hbound
  obtain ⟨-, hexec⟩ := hstep
  exact callCount_le_of_exec hexec

def userAt (s : State) (stack : List Instr) : ClientConfig :=
  ⟨s, [[.loop .loop], [.loop .timerService], stack]⟩

theorem userAt_step {s s' : State} {i : Instr} {rest pushed : List Instr} {x : Choice}
    (h : i.exec 2 x s = some (s', pushed)) :
    client.Reaches (userAt s (i :: rest)) (userAt s' (pushed ++ rest)) := by
  have hstep : client.Step (userAt s (i :: rest)) 2 i
      ((userAt s (i :: rest)).replace 2 s' (pushed ++ rest)) := .exec rfl h
  exact .step .start trivial hstep

structure Tally (s : State) (failed timeout : UInt64) : Prop where
  failed : s.calls.failedCalls = failed
  timeout : s.calls.timeoutCalls = timeout
  cancelled : s.calls.cancelledCalls = 0
  functors : s.loop.pendingFunctors = []

end UnixNotes.Rpc.Client
