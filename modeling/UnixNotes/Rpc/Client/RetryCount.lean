import UnixNotes.Library.Logged
import UnixNotes.Rpc.Client.Frames

namespace UnixNotes.Rpc.Client

open Library

/-- A call is submitted with the attempt of the caller's request, or a connection error is handled
while the calls in `waiting` are queued. -/
inductive RetryEvent where
  | submitted (k : Nat) (attempt : UInt32)
  | connectionError (waiting : List Nat)
  deriving DecidableEq

def retryEvents (i : Instr) (s _ : State) (_ : List Instr) : List RetryEvent :=
  match i with
  | .call (.callAsyncInternal k) => [.submitted k (s.calls.call k).request.attempt]
  | .call (.expireRetryExhaustedPending _) => [.connectionError (s.calls.select isWaiting)]
  | _ => []

def RetryEvent.submission (k : Nat) : RetryEvent → Option UInt32
  | .submitted j attempt => if j = k then some attempt else none
  | .connectionError _ => none

def RetryEvent.strikes (k : Nat) : RetryEvent → Bool
  | .submitted _ _ => false
  | .connectionError waiting => k ∈ waiting

/-- The attempts that the call was submitted with. -/
def submissions (k : Nat) (log : List RetryEvent) : List UInt32 :=
  log.filterMap (RetryEvent.submission k)

/-- The connection errors that were handled while the call was queued. -/
def errors (k : Nat) (log : List RetryEvent) : Nat := log.countP (RetryEvent.strikes k)

/-- Where the count starts. -/
def firstAttempt (attempt : UInt32) : UInt32 := if attempt = 0 then 1 else attempt

/-- The connection error on which a call gives up. -/
def lastError (attempt : UInt32) (maxRetries : Nat) : Nat :=
  max 1 (maxRetries + 2 - (firstAttempt attempt).toNat)

theorem firstAttempt_pos (attempt : UInt32) : 0 < (firstAttempt attempt).toNat := by
  rw [firstAttempt]
  split
  · decide
  · rename_i hne
    by_contra hzero
    exact hne (UInt32.toNat_inj.mp (Nat.eq_zero_of_not_pos hzero))

structure Attempted (call : Call) (attempt : UInt32) (n : Nat) : Prop where
  attempt : call.request.attempt.toNat = (firstAttempt attempt).toNat + n
  limit : n = 0 ∨ call.request.attempt.toNat ≤ call.options.maxRetries + 1

theorem Attempted.congr {call call' : Call} {attempt : UInt32} {n : Nat} (h : Attempted call attempt n)
    (hrequest : call'.request = call.request) (hoptions : call'.options = call.options) :
    Attempted call' attempt n :=
  ⟨hrequest ▸ h.attempt, hrequest ▸ hoptions ▸ h.limit⟩

theorem Attempted.exhausted_iff {call : Call} {attempt : UInt32} {n : Nat}
    (h : Attempted call attempt n) (hwaiting : isWaiting call = true)
    (hretry : call.options.retryEnabled = true) :
    isRetryExhausted call = true ↔ call.options.maxRetries + 1 ≤ call.request.attempt.toNat := by
  have hpos := firstAttempt_pos attempt
  have hattempt := h.attempt
  have hne : call.request.attempt ≠ 0 := by
    intro hzero
    rw [hzero] at hattempt
    change 0 = _ at hattempt
    omega
  rw [isRetryExhausted, hwaiting, hretry, completedRetries, if_neg hne]
  simp only [Bool.true_and, decide_eq_true_eq]
  omega

theorem Attempted.countAttempt {call : Call} {attempt : UInt32} {n : Nat}
    (h : Attempted call attempt n) (hwaiting : isWaiting call = true)
    (hretry : call.options.retryEnabled = true) (hleft : isRetryExhausted call = false)
    (hmax : call.options.maxRetries + 1 < 2 ^ 32) :
    (Client.countAttempt call).request.attempt.toNat = call.request.attempt.toNat + 1 ∧
      Attempted (Client.countAttempt call) attempt (n + 1) := by
  have hlimit := mt (h.exhausted_iff hwaiting hretry).mpr (Bool.eq_false_iff.mp hleft)
  have hcounted : Client.countAttempt call =
      { call with request := { call.request with attempt := call.request.attempt + 1 } } := by
    rw [Client.countAttempt, hwaiting, hretry]
    rfl
  have hnext : (call.request.attempt + 1).toNat = call.request.attempt.toNat + 1 := by
    rw [UInt32.toNat_add]
    exact Nat.mod_eq_of_lt (by change _ + 1 < 2 ^ 32; omega)
  have hattempt := h.attempt
  rw [hcounted]
  refine ⟨hnext, hnext.trans (by omega), .inr ?_⟩
  change (call.request.attempt + 1).toNat ≤ call.options.maxRetries + 1
  omega

theorem Attempted.exhausted_iff_last {call : Call} {attempt : UInt32} {n : Nat}
    (h : Attempted call attempt n) (hwaiting : isWaiting call = true)
    (hretry : call.options.retryEnabled = true) :
    n + 1 ≤ lastError attempt call.options.maxRetries ∧
      (isRetryExhausted call = true ↔ n + 1 = lastError attempt call.options.maxRetries) := by
  have hpos := firstAttempt_pos attempt
  have hattempt := h.attempt
  have hlimit := h.limit
  rw [h.exhausted_iff hwaiting hretry, lastError]
  omega

def unpreparedCall : Instr → Option Nat
  | .call (.nextRequestId k) | .call (.retryRequestId k) | .call (.callAsyncInternal k) => some k
  | _ => none

theorem ownedCall_of_unpreparedCall {i : Instr} {k : Nat} (h : unpreparedCall i = some k) :
    ownedCall i = some k := by
  unfold unpreparedCall at h
  split at h <;> cases h <;> rfl

def Unlogged (k : Nat) (log : List RetryEvent) : Prop := submissions k log = [] ∧ errors k log = 0

section Exec

variable {t : Nat} {x : Choice} {s s' : State} {i : Instr} {pushed : List Instr} {k : Nat}
  {log : List RetryEvent}

theorem pushes_unpreparedCall {j : Instr} (h : Pushes t s i j) (hj : unpreparedCall j = some k) :
    unpreparedCall i = some k ∧ i ≠ .call (.callAsyncInternal k) ∨
      i = .call .userCode ∧ k = s.calls.callCount := by
  cases h <;> cases hj
  case userCall => exact .inr ⟨rfl, rfl⟩
  all_goals exact .inl ⟨rfl, nofun⟩

variable (s' pushed log) in
theorem retryEvents_quiet (hprepare : i ≠ .call (.callAsyncInternal k))
    (hstrike : (∀ message, i ≠ .call (.expireRetryExhaustedPending message)) ∨
      k ∉ s.calls.select isWaiting) :
    submissions k (retryEvents i s s' pushed ++ log) = submissions k log ∧
      errors k (retryEvents i s s' pushed ++ log) = errors k log := by
  unfold retryEvents
  split
  · rename_i j
    have hne : j ≠ k := fun heq => hprepare (heq ▸ rfl)
    simp [submissions, errors, RetryEvent.submission, RetryEvent.strikes, hne]
  · rename_i message
    have hnot := hstrike.resolve_left fun h => h message rfl
    simp [submissions, errors, List.filterMap_cons, RetryEvent.submission, RetryEvent.strikes, hnot]
  · exact ⟨rfl, rfl⟩

theorem attempt_of_exec (h : i.exec t x s = some (s', pushed)) (hbegun : k < s.calls.callCount)
    (hprepare : i ≠ .call (.callAsyncInternal k))
    (hstrike : (∀ message, i ≠ .call (.expireRetryExhaustedPending message)) ∨
      k ∉ s.calls.select isWaiting) :
    (s'.calls.call k).request = (s.calls.call k).request ∧
      (s'.calls.call k).options = (s.calls.call k).options := by
  obtain hsame | ⟨i, rfl, hstep⟩ | ⟨rfl, hset⟩ := call_of_exec h hbegun
  · rw [hsame]
    exact ⟨rfl, rfl⟩
  · generalize s'.calls.call k = call at hstep ⊢
    cases hstep with
    | keep same =>
      rw [same]
      exact ⟨rfl, rfl⟩
    | prepare => exact absurd rfl hprepare
    | complete =>
      rw [Call.complete]
      split <;> exact ⟨rfl, rfl⟩
    | @countAttempt message pending left =>
      have hnot := hstrike.resolve_left fun h => h message rfl
      rw [countAttempt, if_neg]
      · exact ⟨rfl, rfl⟩
      · intro hcounted
        exact hnot (List.mem_filter.mpr ⟨pending, (Bool.and_eq_true_iff.mp hcounted).1⟩)
    | _ => exact ⟨rfl, rfl⟩
  · rw [hset]
    exact ⟨rfl, rfl⟩

theorem attempt_of_prepare (h : (Instr.call (.callAsyncInternal k)).exec t x s = some (s', pushed))
    {j : Instr} (hj : j ∈ pushed) (hencoded : encodedCall j = some k) :
    (s'.calls.call k).request.attempt = firstAttempt (s.calls.call k).request.attempt := by
  obtain ⟨⟨calls, pushed⟩, hexec, heq⟩ := Option.map_eq_some_iff.mp h
  cases heq
  simp only [CallInstr.exec] at hexec
  split at hexec
  · cases hexec
    simp only [finishCall, List.mem_cons, List.not_mem_nil, or_false] at hj
    obtain rfl | rfl := hj <;> cases hencoded
  · split at hexec <;> cases hexec
    · simp only [finishCall, List.mem_cons, List.not_mem_nil, or_false] at hj
      obtain rfl | rfl := hj <;> cases hencoded
    · rw [CallTable.set_call_self]
      rfl

def exhaust (call : Call) (k : Nat) : Instr :=
  .call (.completePending k (errorResponse call.requestId .retryExhausted
    (ascii "RPC retry attempts exhausted")))

theorem expire_of_exec {message : ByteString}
    (h : (Instr.call (.expireRetryExhaustedPending message)).exec t x s = some (s', pushed))
    (hk : k ∈ s.calls.select isWaiting) :
    isRetryExhausted (s.calls.call k) = true ∧ (s'.calls.call k).state = .failed ∧
        exhaust (s.calls.call k) k ∈ pushed ∨
      isRetryExhausted (s.calls.call k) = false ∧
        s'.calls.call k = countAttempt (s.calls.call k) := by
  obtain ⟨⟨calls, pushed⟩, hexec, heq⟩ := Option.map_eq_some_iff.mp h
  cases heq
  simp only [CallInstr.exec] at hexec
  split at hexec
  · split at hexec
    · rename_i ks hperm
      cases hexec
      have hmem : k ∈ ks ↔ isRetryExhausted (s.calls.call k) = true := by
        rw [hperm.mem_iff, CallTable.select, List.mem_filter]
        exact and_iff_right (List.mem_filter.mp hk).1
      cases hexhausted : isRetryExhausted (s.calls.call k) with
      | true =>
        have hfailed := hmem.mpr hexhausted
        refine .inl ⟨rfl, ?_, List.mem_append_left _ (List.mem_map.mpr ⟨k, hfailed, rfl⟩)⟩
        simp [CallTable.countAttempts, CallTable.failCalls, hfailed]
      | false =>
        have hleft : k ∉ ks := fun hfailed => by
          rw [hmem.mp hfailed] at hexhausted
          cases hexhausted
        refine .inr ⟨rfl, ?_⟩
        simp [CallTable.countAttempts, CallTable.failCalls, hleft, hk]
    · cases hexec
  · cases hexec

end Exec

structure Retrying (c : ClientConfig) (log : List RetryEvent) : Prop extends Waiting c where
  fresh : ∀ k, c.shared.calls.callCount ≤ k → Unlogged k log
  unprepared : ∀ t i k, c.Active t i → unpreparedCall i = some k → Unlogged k log
  encoded : ∀ t i k, c.Active t i → encodedCall i = some k → errors k log = 0 ∧
    ∃ attempt, submissions k log = [attempt] ∧
      (c.shared.calls.call k).request.attempt = firstAttempt attempt
  entries : ∀ k, IsPending c.shared.calls k → ∃ attempt, submissions k log = [attempt] ∧
    (isWaiting (c.shared.calls.call k) = true →
      (c.shared.calls.call k).options.retryEnabled = true →
      (c.shared.calls.call k).options.maxRetries + 1 < 2 ^ 32 →
      Attempted (c.shared.calls.call k) attempt (errors k log))

section Step

variable {c : ClientConfig} {log : List RetryEvent} {t : Nat} {i : Instr} {rest : List Instr}
  {x : Choice} {s : State} {pushed : List Instr} {k : Nat} (h : Retrying c log)
  (htop : c.stack t = i :: rest) (hexec : i.exec t x c.shared = some (s, pushed))
include h

theorem Retrying.not_struck (howned : ¬IsPending c.shared.calls k) :
    k ∉ c.shared.calls.select isWaiting := fun hmem =>
  howned (h.keyed.mem_pendingList.mp (List.mem_filter.mp hmem).1)

include htop

theorem Retrying.pending_begun (hpending : IsPending c.shared.calls k) :
    k < c.shared.calls.callCount ∧ i ≠ .call (.callAsyncInternal k) := by
  refine ⟨lt_callCount_of_pending (Nat.le_trans (Nat.le_add_right _ _) (h.once k)) hpending, ?_⟩
  rintro rfl
  exact h.unowned hpending (Config.active_of_top htop) rfl

theorem Retrying.fresh_step (hexec : i.exec t x c.shared = some (s, pushed))
    (hk : s.calls.callCount ≤ k) : Unlogged k (retryEvents i c.shared s pushed ++ log) := by
  have hbefore := Nat.le_trans (callCount_le_of_exec hexec) hk
  have hprepare : i ≠ .call (.callAsyncInternal k) := by
    rintro rfl
    exact absurd (h.begun (Config.active_of_top htop) rfl) (Nat.not_lt.mpr hbefore)
  have hpending : ¬IsPending c.shared.calls k := fun hpending =>
    absurd (h.pending_begun htop hpending).1 (Nat.not_lt.mpr hbefore)
  obtain ⟨hsubmissions, herrors⟩ := retryEvents_quiet s pushed log
    hprepare (.inr (h.not_struck hpending))
  rw [Unlogged, hsubmissions, herrors]
  exact h.fresh k hbefore

theorem Retrying.quiet_of_owned {t' : Nat} {j : Instr}
    (hactive : (c.replace t s (pushed ++ rest)).Active t' j) (hj : j ∉ pushed)
    (hown : ownedCall j = some k) : c.Active t' j ∧ k < c.shared.calls.callCount ∧
      i ≠ .call (.callAsyncInternal k) ∧ k ∉ c.shared.calls.select isWaiting := by
  have hbefore := (Config.active_of_replace htop hactive).resolve_left fun hp => hj hp.2
  refine ⟨hbefore, h.begun hbefore hown, ?_, h.not_struck fun hpending =>
    h.unowned hpending hbefore hown⟩
  rintro rfl
  exact h.unique htop hactive hj hown rfl

include hexec

theorem Retrying.unprepared_step {t' : Nat} {j : Instr}
    (hactive : (c.replace t s (pushed ++ rest)).Active t' j) (hj : unpreparedCall j = some k) :
    Unlogged k (retryEvents i c.shared s pushed ++ log) := by
  by_cases hpushed : j ∈ pushed
  · obtain ⟨hbefore, hprepare⟩ | ⟨rfl, rfl⟩ :=
      pushes_unpreparedCall (pushes_of_exec hexec j hpushed) hj
    · have hi := Config.active_of_top htop
      have hstrike := h.not_struck (k := k) fun hpending =>
        h.unowned hpending hi (ownedCall_of_unpreparedCall hbefore)
      obtain ⟨hsubmissions, herrors⟩ := retryEvents_quiet s pushed log
        hprepare (.inr hstrike)
      rw [Unlogged, hsubmissions, herrors]
      exact h.unprepared t i k hi hbefore
    · exact h.fresh _ (Nat.le_refl _)
  · obtain ⟨hbefore, -, hprepare, hstrike⟩ :=
      h.quiet_of_owned htop hactive hpushed (ownedCall_of_unpreparedCall hj)
    obtain ⟨hsubmissions, herrors⟩ := retryEvents_quiet s pushed log
      hprepare (.inr hstrike)
    rw [Unlogged, hsubmissions, herrors]
    exact h.unprepared t' j k hbefore hj

theorem Retrying.encoded_step {t' : Nat} {j : Instr}
    (hactive : (c.replace t s (pushed ++ rest)).Active t' j) (hj : encodedCall j = some k) :
    errors k (retryEvents i c.shared s pushed ++ log) = 0 ∧
      ∃ attempt, submissions k (retryEvents i c.shared s pushed ++ log) = [attempt] ∧
        (s.calls.call k).request.attempt = firstAttempt attempt := by
  have hi := Config.active_of_top htop
  by_cases hpushed : j ∈ pushed
  · obtain hencoded | rfl := pushes_encodedCall (pushes_of_exec hexec j hpushed) hj
    · have hown := ownedCall_of_encodedCall hencoded
      have hstrike := h.not_struck (k := k) fun hpending => h.unowned hpending hi hown
      have hprepare : i ≠ .call (.callAsyncInternal k) := by
        rintro rfl
        cases hencoded
      obtain ⟨hsubmissions, herrors⟩ := retryEvents_quiet s pushed log
        hprepare (.inr hstrike)
      obtain ⟨hrequest, -⟩ := attempt_of_exec hexec (h.begun hi hown) hprepare (.inr hstrike)
      rw [hsubmissions, herrors, hrequest]
      exact h.encoded t i k hi hencoded
    · obtain ⟨hsubmissions, herrors⟩ := h.unprepared t _ k hi rfl
      refine ⟨?_, _, ?_, attempt_of_prepare hexec hpushed hj⟩
      · simpa [errors, retryEvents, RetryEvent.strikes] using herrors
      · simpa [submissions, retryEvents, RetryEvent.submission] using hsubmissions
  · obtain ⟨hbefore, hbegun, hprepare, hstrike⟩ :=
      h.quiet_of_owned htop hactive hpushed (ownedCall_of_encodedCall hj)
    obtain ⟨hsubmissions, herrors⟩ := retryEvents_quiet s pushed log
      hprepare (.inr hstrike)
    obtain ⟨hrequest, -⟩ := attempt_of_exec hexec hbegun hprepare (.inr hstrike)
    rw [hsubmissions, herrors, hrequest]
    exact h.encoded t' j k hbefore hj

theorem Retrying.entries_step (hpending : IsPending s.calls k) :
    ∃ attempt, submissions k (retryEvents i c.shared s pushed ++ log) = [attempt] ∧
      (isWaiting (s.calls.call k) = true → (s.calls.call k).options.retryEnabled = true →
        (s.calls.call k).options.maxRetries + 1 < 2 ^ 32 →
        Attempted (s.calls.call k) attempt (errors k (retryEvents i c.shared s pushed ++ log))) := by
  have hi := Config.active_of_top htop
  obtain hbefore | rfl := instr_pending hexec h.keyed hpending
  · obtain ⟨hbegun, hprepare⟩ := h.pending_begun htop hbefore
    obtain ⟨attempt, hsubmissions, hcounted⟩ := h.entries k hbefore
    by_cases hstrike : (∀ message, i ≠ .call (.expireRetryExhaustedPending message)) ∨
        k ∉ c.shared.calls.select isWaiting
    · obtain ⟨hquiet, herrors⟩ := retryEvents_quiet s pushed log
        hprepare hstrike
      obtain ⟨hrequest, hoptions⟩ := attempt_of_exec hexec hbegun hprepare hstrike
      refine ⟨attempt, hquiet.trans hsubmissions, fun hwaiting hretry hmax => ?_⟩
      rw [herrors]
      rw [hoptions] at hretry hmax
      have hwaited : isWaiting (c.shared.calls.call k) = true :=
        decide_eq_true (exec_waiting hexec hbegun (of_decide_eq_true hwaiting))
      exact (hcounted hwaited hretry hmax).congr hrequest hoptions
    · simp only [not_or, not_forall, not_not] at hstrike
      obtain ⟨⟨message, rfl⟩, hstruck⟩ := hstrike
      refine ⟨attempt, hsubmissions, fun hwaiting hretry hmax => ?_⟩
      have herrors : errors k (retryEvents (.call (.expireRetryExhaustedPending message)) c.shared s
          pushed ++ log) = errors k log + 1 := by
        simp [errors, retryEvents, RetryEvent.strikes, hstruck]
      rw [herrors]
      obtain ⟨-, hfailed, -⟩ | ⟨hleft, hcall⟩ := expire_of_exec hexec hstruck
      · rw [isWaiting, hfailed] at hwaiting
        cases hwaiting
      · have hoptions : (s.calls.call k).options = (c.shared.calls.call k).options := by
          rw [hcall, countAttempt]
          split <;> rfl
        have hwaited := (List.mem_filter.mp hstruck).2
        rw [hoptions] at hretry hmax
        rw [hcall]
        exact ((hcounted hwaited hretry hmax).countAttempt hwaited hretry hleft hmax).2
  · obtain ⟨herrors, attempt, hsubmissions, hattempt⟩ := h.encoded t _ k hi rfl
    obtain ⟨hrequest, -⟩ := attempt_of_exec hexec (h.begun hi rfl) (by rintro ⟨⟩)
      (.inl (by rintro _ ⟨⟩))
    refine ⟨attempt, hsubmissions, fun _ _ _ => ⟨?_, .inl herrors⟩⟩
    change _ = _ + errors k log
    rw [hrequest, hattempt, herrors, Nat.add_zero]

end Step

abbrev retryLog : Machine (Logged State RetryEvent) Instr Choice := client.logged retryEvents

abbrev RetryConfig := Config (Logged State RetryEvent) Instr

def retryInit (timerThreads users : Nat) : RetryConfig :=
  ⟨⟨{}, []⟩, (init timerThreads users).threads⟩

theorem Retrying.step {c c' : RetryConfig} {t : Nat} {i : Instr}
    (h : Retrying c.base c.shared.log) (hstep : retryLog.Step c t i c') :
    Retrying c'.base c'.shared.log := by
  have hwaiting := h.toWaiting.step hstep.base
  obtain ⟨rest, x, pushed, htop, hexec, hc', hlog⟩ := hstep.of_logged
  rw [hlog]
  rw [hc'] at hwaiting ⊢
  exact { hwaiting with
    fresh := fun _ hk => h.fresh_step htop hexec hk
    unprepared := fun _ _ _ hactive hj => h.unprepared_step htop hexec hactive hj
    encoded := fun _ _ _ hactive hj => h.encoded_step htop hexec hactive hj
    entries := fun _ hpending => h.entries_step htop hexec hpending }

theorem Retrying.init (timerThreads users : Nat) : Retrying (init timerThreads users) [] where
  toWaiting := .init timerThreads users
  fresh := fun _ _ => ⟨rfl, rfl⟩
  unprepared := fun _ _ _ _ _ => ⟨rfl, rfl⟩
  encoded := by
    intro t i k hactive hi
    obtain rfl | rfl | rfl := mem_init_stack hactive <;> cases hi
  entries := by
    intro k hpending
    cases hpending

/-- A queued call with retries and the attempt it was submitted with: no connection error later than
the last one finds it queued, and it is ended by the last one; on any other its attempt goes up by
one. -/
theorem exhausted_on_last_error {timerThreads users : Nat} {c c' : RetryConfig} {t k : Nat}
    {message : ByteString} (hrun : retryLog.Reaches (retryInit timerThreads users) c)
    (hstep : retryLog.Step c t (.call (.expireRetryExhaustedPending message)) c')
    (hqueued : k ∈ c.base.shared.calls.select isWaiting)
    (hretry : (c.base.shared.calls.call k).options.retryEnabled = true)
    (hmax : (c.base.shared.calls.call k).options.maxRetries + 1 < 2 ^ 32) :
    ∃ attempt, submissions k c.shared.log = [attempt] ∧
      errors k c'.shared.log = errors k c.shared.log + 1 ∧
      errors k c'.shared.log ≤
        lastError attempt (c.base.shared.calls.call k).options.maxRetries ∧
      if errors k c'.shared.log = lastError attempt (c.base.shared.calls.call k).options.maxRetries then
        (c'.base.shared.calls.call k).state = .failed ∧
          c'.base.Active t (exhaust (c.base.shared.calls.call k) k)
      else (c'.base.shared.calls.call k).state = .waitingToSend ∧
        (c'.base.shared.calls.call k).request.attempt.toNat =
          (c.base.shared.calls.call k).request.attempt.toNat + 1 := by
  have h : Retrying c.base c.shared.log :=
    hrun.invariant (I := fun c => Retrying c.base c.shared.log) (.init timerThreads users)
      fun h _ hstep => h.step hstep
  obtain ⟨rest, x, pushed, htop, hexec, hc', hlog⟩ := hstep.of_logged
  obtain ⟨hlisted, hwaiting⟩ := List.mem_filter.mp hqueued
  obtain ⟨attempt, hsubmissions, hcounted⟩ := h.entries k (h.keyed.mem_pendingList.mp hlisted)
  have hcounted := hcounted hwaiting hretry hmax
  have herrors : errors k c'.shared.log = errors k c.shared.log + 1 := by
    rw [hlog]
    simp [errors, retryEvents, RetryEvent.strikes, hqueued]
  obtain ⟨hle, hlast⟩ := hcounted.exhausted_iff_last hwaiting hretry
  rw [← herrors] at hle hlast
  refine ⟨attempt, hsubmissions, herrors, hle, ?_⟩
  obtain ⟨hexhausted, hfailed, hpushed⟩ | ⟨hleft, hcall⟩ := expire_of_exec hexec hqueued
  · rw [if_pos (hlast.mp hexhausted)]
    refine ⟨hfailed, ?_⟩
    rw [hc']
    exact Config.active_replace_of_pushed htop _ hpushed
  · rw [if_neg (mt hlast.mpr (Bool.eq_false_iff.mp hleft)), hcall]
    refine ⟨?_, (hcounted.countAttempt hwaiting hretry hleft hmax).1⟩
    rw [countAttempt]
    split <;> exact of_decide_eq_true hwaiting

def failedAttempt (attempt : UInt32) : RetryConfig :=
  retryLog.follow (retryInit 1 1)
    ((2, Choice.operation (.callAsync { attempt := attempt }
        { failFast := false, retryEnabled := true, maxRetries := 1 } false)) ::
      List.replicate 10 (2, .next) ++
      [(0, Choice.poll []), (0, .next), (0, .connectResult (.noSocket ⟨24, []⟩)), (0, .next)])

theorem exhausted_on_last_error_second :
    ∃ attempt, submissions 0 (failedAttempt 0).shared.log = [attempt] ∧
      errors 0 (retryLog.follow (failedAttempt 0) [(0, .order [])]).shared.log =
        errors 0 (failedAttempt 0).shared.log + 1 ∧
      errors 0 (retryLog.follow (failedAttempt 0) [(0, .order [])]).shared.log ≤
        lastError attempt ((failedAttempt 0).base.shared.calls.call 0).options.maxRetries ∧
      if errors 0 (retryLog.follow (failedAttempt 0) [(0, .order [])]).shared.log =
          lastError attempt ((failedAttempt 0).base.shared.calls.call 0).options.maxRetries then
        ((retryLog.follow (failedAttempt 0) [(0, .order [])]).base.shared.calls.call 0).state =
            .failed ∧
          (retryLog.follow (failedAttempt 0) [(0, .order [])]).base.Active 0
            (exhaust ((failedAttempt 0).base.shared.calls.call 0) 0)
      else
        ((retryLog.follow (failedAttempt 0) [(0, .order [])]).base.shared.calls.call 0).state =
            .waitingToSend ∧
          ((retryLog.follow (failedAttempt 0) [(0, .order [])]).base.shared.calls.call
              0).request.attempt.toNat =
            ((failedAttempt 0).base.shared.calls.call 0).request.attempt.toNat + 1 :=
  @exhausted_on_last_error _ _ _ _ _ _ []
    (Machine.reaches_follow (c := retryInit 1 1) _)
    (Machine.step_follow (by decide) (by decide)) (by decide) (by decide) (by decide)

/-- A call that was submitted as the second attempt is ended by the first connection error. -/
theorem preset_attempt_exhausted :
    retryLog.Reaches (retryInit 1 1)
        (retryLog.follow (failedAttempt 2) [(0, .order [0])]) ∧
      submissions 0 (retryLog.follow (failedAttempt 2) [(0, .order [0])]).shared.log = [2] ∧
      ((retryLog.follow (failedAttempt 2) [(0, .order [0])]).base.shared.calls.call
        0).options.maxRetries = 1 ∧
      errors 0 (retryLog.follow (failedAttempt 2) [(0, .order [0])]).shared.log = 1 ∧
      ((retryLog.follow (failedAttempt 2) [(0, .order [0])]).base.shared.calls.call 0).state =
        .failed ∧
      (retryLog.follow (failedAttempt 2) [(0, .order [0])]).base.Active 0
        (exhaust ((failedAttempt 2).base.shared.calls.call 0) 0) :=
  ⟨(Machine.reaches_follow _).trans (Machine.reaches_follow _), by decide, by decide, by decide,
    by decide, by decide⟩

end UnixNotes.Rpc.Client
