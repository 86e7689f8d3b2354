import UnixNotes.Rpc.Client.Deadline

namespace UnixNotes.Rpc.Client

open Library

def fetchToken : Instr → Nat
  | .call (.nextRequestId _) => 1
  | _ => 0

def numberedCall : Instr → Option Nat
  | .call (.callAsyncInternal k) | .call (.insertPending k) => some k
  | .armDeadline k | .net (.checkState k) => some k
  | _ => none

section Exec

variable {t : Nat} {x : Choice} {s s' : State} {pushed : List Instr} {k : Nat}

theorem ownedCall_of_numberedCall {i : Instr} (h : numberedCall i = some k) :
    ownedCall i = some k := by
  unfold numberedCall at h
  split at h <;> cases h <;> rfl

theorem pushes_numberedCall {i j : Instr} (h : Pushes t s i j) (hj : numberedCall j = some k) :
    numberedCall i = some k ∨ i = .call (.nextRequestId k) ∨ i = .call (.retryRequestId k) := by
  cases h <;> cases hj
  case firstRequestId => exact .inr (.inl rfl)
  case secondRequestId => exact .inr (.inr rfl)
  all_goals exact .inl rfl

theorem nextRequestId_of_exec {i : CallInstr} {calls : CallTable}
    (h : i.exec t x s = some (calls, pushed)) (hfirst : ∀ k, i ≠ .nextRequestId k)
    (hsecond : ∀ k, i ≠ .retryRequestId k) : calls.nextRequestId = s.calls.nextRequestId := by
  cases i
  case nextRequestId k => exact absurd rfl (hfirst k)
  case retryRequestId k => exact absurd rfl (hsecond k)
  case userCode =>
    simp only [CallInstr.exec] at h
    split at h
    · rename_i operation
      cases operation <;> cases h <;> rfl
    · cases h
      rfl
  case recordClientResponse response =>
    cases h
    simp only [CallTable.recordClientResponse]
    (repeat' split) <;> rfl
  case invokeCallback j response route =>
    cases route
    · simp only [CallInstr.exec] at h
      split at h <;> cases h <;> rfl
    · simp only [CallInstr.exec] at h
      split at h
      · obtain ⟨stored, -, heq⟩ := Option.map_eq_some_iff.mp h
        cases heq
        rfl
      · cases h
        rfl
  all_goals
    simp only [CallInstr.exec] at h
    (repeat' split at h) <;> cases h <;> rfl

theorem callCount_fetchToken {i : Instr} (h : i.exec t x s = some (s', pushed)) :
    s'.calls.callCount = s.calls.callCount + Config.weigh fetchToken pushed := by
  have hnone : (∀ k, .call (.nextRequestId k) ∉ pushed) → Config.weigh fetchToken pushed = 0 := by
    intro hnone
    refine Config.weigh_eq_zero fun j hj => ?_
    unfold fetchToken
    split
    · exact absurd hj (hnone _)
    · rfl
  by_cases hi : i = .call .userCode
  · subst hi
    obtain ⟨⟨calls, pushed⟩, hexec, heq⟩ := Option.map_eq_some_iff.mp h
    cases heq
    simp only [CallInstr.exec] at hexec
    split at hexec
    · rename_i operation
      cases operation <;> cases hexec <;> rfl
    · cases hexec
      rfl
  · rw [hnone]
    · cases i with
      | call i =>
        obtain ⟨⟨calls, pushed⟩, hexec, heq⟩ := Option.map_eq_some_iff.mp h
        cases heq
        obtain hsame | ⟨request, options, callback, rfl, -⟩ := callCount_of_exec hexec
        · exact hsame
        · exact absurd rfl hi
      | net i | loop i =>
        obtain ⟨r, -, heq⟩ := Option.map_eq_some_iff.mp h
        cases heq
        rfl
      | armDeadline j =>
        cases h
        rfl
    · intro k hk
      cases pushes_of_exec h _ hk
      exact hi rfl

theorem nextRequestId_exec (h : (Instr.call (.nextRequestId k)).exec t x s = some (s', pushed))
    (hnext : s.calls.nextRequestId ≠ 0) :
    s'.calls.nextRequestId = s.calls.nextRequestId + 1 ∧
      s'.calls.callCount = s.calls.callCount ∧
      (s'.calls.call k).requestId = s.calls.nextRequestId ∧
      (∀ j, j ≠ k → s'.calls.call j = s.calls.call j) ∧
      pushed = [.call (.callAsyncInternal k)] := by
  obtain ⟨⟨calls, pushed⟩, hexec, heq⟩ := Option.map_eq_some_iff.mp h
  cases heq
  simp only [CallInstr.exec, if_neg hnext] at hexec
  cases hexec
  exact ⟨rfl, rfl, congrArg Call.requestId (CallTable.set_call_self ..),
    fun j hj => CallTable.set_call_ne _ _ hj, rfl⟩

end Exec

/-- The calls that have a request id took the ids from 1 on, one each. -/
structure Numbered (c : ClientConfig) : Prop extends Lifecycle c where
  unfetched : c.total fetchToken ≤ c.shared.calls.callCount
  next : c.shared.calls.nextRequestId =
    UInt64.ofNat (c.shared.calls.callCount + 1 - c.total fetchToken)
  noRetry : ∀ t k, ¬c.Active t (.call (.retryRequestId k))
  fetched : ∀ k, k < c.shared.calls.callCount →
    (c.shared.calls.call k).requestId.toNat + c.total fetchToken ≤ c.shared.calls.callCount
  numbered : ∀ t i k, c.Active t i → numberedCall i = some k →
    (c.shared.calls.call k).requestId ≠ 0
  distinct : ∀ j k, j < c.shared.calls.callCount → k < c.shared.calls.callCount → j ≠ k →
    (c.shared.calls.call j).requestId = (c.shared.calls.call k).requestId →
      (c.shared.calls.call j).requestId = 0

section Step

variable {c : ClientConfig} {t : Nat} {i : Instr} {rest : List Instr} {x : Choice} {s : State}
  {pushed : List Instr} {k : Nat} (h : Numbered c) (htop : c.stack t = i :: rest)
  (hexec : i.exec t x c.shared = some (s, pushed))
include h htop

theorem Numbered.next_toNat (hbound : c.shared.calls.callCount < 2 ^ 64)
    (hi : i = .call (.nextRequestId k)) :
    c.shared.calls.nextRequestId.toNat = c.shared.calls.callCount + 1 - c.total fetchToken ∧
      0 < c.total fetchToken := by
  subst hi
  have htoken := Config.le_total (w := fetchToken) (Config.active_of_top htop)
  rw [fetchToken] at htoken
  rw [h.next, UInt64.toNat_ofNat_of_lt' (by rw [UInt64.size]; omega)]
  exact ⟨rfl, htoken⟩

theorem Numbered.not_retry (k : Nat) : i ≠ .call (.retryRequestId k) := by
  rintro rfl
  exact h.noRetry t k (Config.active_of_top htop)

include hexec

theorem Numbered.requestId_step (hfirst : ∀ k, i ≠ .call (.nextRequestId k))
    (hk : k < s.calls.callCount) :
    k < c.shared.calls.callCount ∧
        (s.calls.call k).requestId = (c.shared.calls.call k).requestId ∨
      (s.calls.call k).requestId = 0 := by
  obtain hbegun | ⟨request, options, callback, hnew⟩ := begin_of_exec hexec hk
  · exact .inl ⟨hbegun, instr_requestId hexec hbegun (hfirst k) (h.not_retry htop k)⟩
  · exact .inr (congrArg Call.requestId hnew)

theorem Numbered.next_step (hfirst : ∀ k, i ≠ .call (.nextRequestId k)) :
    s.calls.nextRequestId = c.shared.calls.nextRequestId := by
  have hsecond := h.not_retry htop
  cases i with
  | call i =>
    obtain ⟨⟨calls, pushed⟩, hcall, heq⟩ := Option.map_eq_some_iff.mp hexec
    cases heq
    exact nextRequestId_of_exec hcall (fun k heq => hfirst k (congrArg _ heq))
      fun k heq => hsecond k (congrArg _ heq)
  | net i | loop i =>
    obtain ⟨r, -, heq⟩ := Option.map_eq_some_iff.mp hexec
    cases heq
    rfl
  | armDeadline j =>
    cases hexec
    rfl

omit h in
theorem total_fetchToken (hfirst : ∀ k, i ≠ .call (.nextRequestId k)) :
    (c.replace t s (pushed ++ rest)).total fetchToken + c.shared.calls.callCount =
      c.total fetchToken + s.calls.callCount := by
  have htotal := Config.total_replace fetchToken htop s pushed
  have hcount := callCount_fetchToken hexec
  have hzero : fetchToken i = 0 := by
    unfold fetchToken
    split
    · exact absurd rfl (hfirst _)
    · rfl
  omega

theorem Numbered.step_other (hfirst : ∀ k, i ≠ .call (.nextRequestId k))
    (hlife : Lifecycle (c.replace t s (pushed ++ rest))) :
    Numbered (c.replace t s (pushed ++ rest)) := by
  have htotal := total_fetchToken htop hexec hfirst
  have hunfetched := h.unfetched
  have hcount := callCount_le_of_exec hexec
  refine { hlife with unfetched := ?_, next := ?_, noRetry := ?_, fetched := ?_, numbered := ?_,
                      distinct := ?_ }
  · rw [Config.shared_replace]
    omega
  · rw [Config.shared_replace, h.next_step htop hexec hfirst, h.next]
    congr 1
    omega
  · intro t' k hactive
    obtain ⟨-, hpushed⟩ | hbefore := Config.active_of_replace htop hactive
    · cases pushes_of_exec hexec _ hpushed
      exact hfirst k rfl
    · exact h.noRetry t' k hbefore
  · intro k hk
    rw [Config.shared_replace] at hk ⊢
    obtain ⟨hbegun, hid⟩ | hid := h.requestId_step htop hexec hfirst hk
    · have := h.fetched k hbegun
      rw [hid]
      omega
    · rw [hid, UInt64.toNat_zero]
      omega
  · intro t' j k hactive hj
    rw [Config.shared_replace]
    have hkept : ∀ {t' j}, c.Active t' j → numberedCall j = some k →
        (s.calls.call k).requestId ≠ 0 := by
      intro t' j hbefore hj
      have hbegun := h.begun hbefore (ownedCall_of_numberedCall hj)
      rw [instr_requestId hexec hbegun (hfirst k) (h.not_retry htop k)]
      exact h.numbered t' j k hbefore hj
    obtain ⟨-, hpushed⟩ | hbefore := Config.active_of_replace htop hactive
    · obtain hi | hi | hi := pushes_numberedCall (pushes_of_exec hexec j hpushed) hj
      · exact hkept (Config.active_of_top htop) hi
      · exact absurd hi (hfirst k)
      · exact absurd hi (h.not_retry htop k)
    · exact hkept hbefore hj
  · intro j k hj hk hne heq
    rw [Config.shared_replace] at hj hk heq ⊢
    obtain ⟨hbegun, hid⟩ | hid := h.requestId_step htop hexec hfirst hj
    · obtain ⟨hbegun', hid'⟩ | hid' := h.requestId_step htop hexec hfirst hk
      · rw [hid, hid'] at heq
        rw [hid]
        exact h.distinct j k hbegun hbegun' hne heq
      · exact heq.trans hid'
    · exact hid

theorem Numbered.step_fetch (hbound : c.shared.calls.callCount < 2 ^ 64)
    (hi : i = .call (.nextRequestId k)) (hlife : Lifecycle (c.replace t s (pushed ++ rest))) :
    Numbered (c.replace t s (pushed ++ rest)) := by
  obtain ⟨hnext, hpos⟩ := h.next_toNat htop hbound hi
  have hunfetched := h.unfetched
  have hzero : c.shared.calls.nextRequestId ≠ 0 := by
    intro hzero
    rw [hzero, UInt64.toNat_zero] at hnext
    omega
  subst hi
  have hbegun : k < c.shared.calls.callCount := h.begun (Config.active_of_top htop) rfl
  have htotal := Config.total_replace fetchToken htop s pushed
  obtain ⟨hnextId, hcount, hid, hother, rfl⟩ := nextRequestId_exec hexec hzero
  simp only [Config.weigh_cons, Config.weigh_nil, fetchToken] at htotal
  have hids : ∀ j, j < c.shared.calls.callCount → j ≠ k →
      (s.calls.call j).requestId.toNat + c.total fetchToken ≤ c.shared.calls.callCount := by
    intro j hj hne
    rw [hother j hne]
    exact h.fetched j hj
  refine { hlife with unfetched := ?_, next := ?_, noRetry := ?_, fetched := ?_, numbered := ?_,
                      distinct := ?_ }
  · rw [Config.shared_replace, hcount]
    omega
  · rw [Config.shared_replace, hnextId, h.next, hcount, ← UInt64.ofNat_one, ← UInt64.ofNat_add]
    congr 1
    omega
  · intro t' k' hactive
    obtain ⟨-, hpushed⟩ | hbefore := Config.active_of_replace htop hactive
    · cases List.mem_singleton.mp hpushed
    · exact h.noRetry t' k' hbefore
  · intro j hj
    rw [Config.shared_replace, hcount] at hj ⊢
    by_cases hne : j = k
    · rw [hne, hid, hnext]
      omega
    · have := hids j hj hne
      omega
  · intro t' j k' hactive hj
    rw [Config.shared_replace]
    by_cases hne : k' = k
    · rw [hne, hid]
      exact hzero
    · rw [hother k' hne]
      obtain ⟨-, hpushed⟩ | hbefore := Config.active_of_replace htop hactive
      · cases List.mem_singleton.mp hpushed
        cases hj
        exact absurd rfl hne
      · exact h.numbered t' j k' hbefore hj
  · intro j j' hj hj' hne heq
    rw [Config.shared_replace] at hj hj' heq ⊢
    rw [hcount] at hj hj'
    -- No other call has the id that is fetched here.
    have hfresh : ∀ j, j < c.shared.calls.callCount → j ≠ k →
        (s.calls.call j).requestId ≠ (s.calls.call k).requestId := by
      intro j hj hne heq
      have := hids j hj hne
      rw [heq, hid, hnext] at this
      omega
    by_cases hk : j = k
    · exact absurd (hk ▸ heq.symm) (hfresh j' hj' fun hk' => hne (hk.trans hk'.symm))
    · by_cases hk' : j' = k
      · exact absurd (hk' ▸ heq) (hfresh j hj hk)
      · rw [hother j hk] at heq ⊢
        rw [hother j' hk'] at heq
        exact h.distinct j j' hj hj' hne heq

end Step

theorem Numbered.step {c c' : ClientConfig} {t : Nat} {i : Instr} (h : Numbered c)
    (hstep : client.Step c t i c') (hbound : c'.shared.calls.callCount < 2 ^ 64) :
    Numbered c' := by
  have hlife := h.toLifecycle.step hstep
  obtain @⟨rest, x, s, pushed, htop, hexec⟩ := hstep
  have hcount := callCount_le_of_exec hexec
  by_cases hi : ∃ k, i = .call (.nextRequestId k)
  · obtain ⟨k, hi⟩ := hi
    exact h.step_fetch htop hexec (Nat.lt_of_le_of_lt hcount hbound) hi hlife
  · exact h.step_other htop hexec (fun k hk => hi ⟨k, hk⟩) hlife

theorem Numbered.init (timerThreads users : Nat) : Numbered (init timerThreads users) where
  toLifecycle := .init timerThreads users
  unfetched := Nat.le_of_eq (total_init rfl rfl rfl)
  next := by
    rw [total_init rfl rfl rfl]
    rfl
  noRetry := by
    intro t k hactive
    obtain h | h | h := mem_init_stack hactive <;> cases h
  fetched := by
    intro k hk
    cases hk
  numbered := by
    intro t i k hactive hi
    obtain rfl | rfl | rfl := mem_init_stack hactive <;> cases hi
  distinct := by
    intro j k hj
    cases hj

theorem Numbered.insert_fresh {c : ClientConfig} (h : Numbered c) {t k : Nat}
    (hactive : c.Active t (.call (.insertPending k))) :
    (c.shared.calls.call k).requestId ∉ c.shared.calls.pendingCalls := by
  rw [← PendingMap.find_eq_none, Option.eq_none_iff_forall_ne_some]
  intro j hfind
  have hid := h.keyed _ _ hfind
  by_cases hj : j = k
  · subst hj
    exact h.unowned hfind hactive rfl
  · have hpending := h.keyed.isPending hfind
    have hbegun := lt_callCount_of_pending
      (Nat.le_trans (Nat.le_add_right _ _) (h.once j)) hpending
    have hzero := h.distinct j k hbegun (h.begun hactive rfl) hj hid
    exact h.numbered t _ k hactive rfl (hid.symm.trans hzero)

end UnixNotes.Rpc.Client
