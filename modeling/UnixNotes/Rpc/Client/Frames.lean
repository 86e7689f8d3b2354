import UnixNotes.Rpc.Client.Sending
import UnixNotes.Rpc.RoundTrip

namespace UnixNotes.Rpc.Client

open Library
open Reactor (Buffer)

/-- The stored bytes are those of the stored request. -/
def FrameAgrees (call : Call) : Prop :=
  ∀ (buffer : Buffer) message, buffer.peek = call.frame →
    ∃ buffer', RpcCodec.tryDecodeRequest buffer message = (.complete, buffer', call.request) ∧
      buffer'.peek = []

/-- No attempt is counted: every call with retries that waits has none left. -/
def KeepsAttempts (c : ClientConfig) (_ : Nat) : Instr → Prop
  | .call (.expireRetryExhaustedPending _) => ∀ k ∈ c.shared.calls.select isWaiting,
    (c.shared.calls.call k).options.retryEnabled = true →
      isRetryExhausted (c.shared.calls.call k) = true
  | _ => True

instance (c : ClientConfig) (t : Nat) (i : Instr) : Decidable (KeepsAttempts c t i) := by
  unfold KeepsAttempts
  split <;> infer_instance

def encodedCall : Instr → Option Nat
  | .armDeadline k | .net (.checkState k) | .call (.insertPending k) => some k
  | _ => none

section Exec

variable {t : Nat} {x : Choice} {s s' : State} {i : Instr} {pushed : List Instr} {k : Nat}

theorem FrameAgrees.congr {call call' : Call} (h : FrameAgrees call)
    (hframe : call'.frame = call.frame) (hrequest : call'.request = call.request) : FrameAgrees call' := by
  intro buffer message hpeek
  rw [hrequest]
  exact h buffer message (hframe ▸ hpeek)

theorem prepared_agrees {call : Call} {requestId : UInt64} {request : RpcRequest}
    {options : RpcCallOptions}
    (h : RpcCodec.encodeRequest (prepareRequest requestId request options) = .ok call.frame)
    (hrequest : call.request = prepareRequest requestId request options) : FrameAgrees call := by
  intro buffer message hpeek
  rw [← List.append_nil call.frame] at hpeek
  obtain ⟨buffer', hdecode, hrest⟩ := RpcCodec.tryDecodeRequest_encodeRequest h hpeek message
  refine ⟨buffer', ?_, hrest⟩
  rw [hdecode, hrequest, prepareRequest, serializerOrRaw_of_ne (serializerOrRaw_ne_nil _)]

theorem callAsyncInternal_agrees (h : (Instr.call (.callAsyncInternal k)).exec t x s =
    some (s', pushed)) {j : Instr} (hj : j ∈ pushed) (hencoded : encodedCall j = some k) :
    FrameAgrees (s'.calls.call k) := by
  obtain ⟨⟨calls, pushed⟩, hexec, heq⟩ := Option.map_eq_some_iff.mp h
  cases heq
  simp only [CallInstr.exec] at hexec
  split at hexec
  · cases hexec
    simp only [finishCall, List.mem_cons, List.not_mem_nil, or_false] at hj
    obtain rfl | rfl := hj <;> cases hencoded
  · split at hexec <;> cases hexec
    · simp only [finishCall, List.mem_cons, List.not_mem_nil, or_false] at hj
      obtain rfl | rfl := hj <;> cases hencoded
    · rename_i hencode
      rw [CallTable.set_call_self]
      exact prepared_agrees hencode rfl

theorem exec_agrees {c : ClientConfig} (h : i.exec t x c.shared = some (s', pushed))
    (hok : KeepsAttempts c t i) (hbegun : k < c.shared.calls.callCount)
    (hi : i ≠ .call (.callAsyncInternal k)) (hagrees : FrameAgrees (c.shared.calls.call k)) :
    FrameAgrees (s'.calls.call k) := by
  obtain hsame | ⟨i, rfl, hstep⟩ | ⟨rfl, hset⟩ := call_of_exec h hbegun
  · exact hsame ▸ hagrees
  · generalize s'.calls.call k = call at hstep ⊢
    cases hstep with
    | keep same => exact same ▸ hagrees
    | prepare => exact absurd rfl hi
    | complete =>
      rw [Call.complete]
      split <;> exact hagrees.congr rfl rfl
    | countAttempt pending left =>
      rw [countAttempt, if_neg]
      · exact hagrees
      · intro hcounted
        obtain ⟨hwaiting, henabled⟩ := Bool.and_eq_true_iff.mp hcounted
        rw [hok k (List.mem_filter.mpr ⟨pending, hwaiting⟩) henabled] at left
        cases left
    | _ => exact hagrees.congr rfl rfl
  · rw [hset]
    exact hagrees.congr rfl rfl

theorem pushes_encodedCall {j : Instr} (h : Pushes t s i j) (hj : encodedCall j = some k) :
    encodedCall i = some k ∨ i = .call (.callAsyncInternal k) := by
  cases h <;> cases hj
  case armDeadline => exact .inr rfl
  all_goals exact .inl rfl

theorem ownedCall_of_encodedCall (h : encodedCall i = some k) : ownedCall i = some k := by
  unfold encodedCall at h
  split at h <;> cases h <;> rfl

end Exec

structure Framed (c : ClientConfig) : Prop extends Waiting c where
  encoded : ∀ t i k, c.Active t i → encodedCall i = some k → FrameAgrees (c.shared.calls.call k)
  entries : ∀ k, IsPending c.shared.calls k → FrameAgrees (c.shared.calls.call k)
  handed : ∀ t n k, c.Active t (.call (.send k n)) → k < c.shared.calls.callCount ∧
    (c.shared.calls.call k).state ≠ .waitingToSend ∧ FrameAgrees (c.shared.calls.call k)

section Step

variable {c : ClientConfig} {t : Nat} {i : Instr} {rest : List Instr} {x : Choice} {s : State}
  {pushed : List Instr} {k : Nat} (h : Framed c) (hok : KeepsAttempts c t i)
  (htop : c.stack t = i :: rest) (hexec : i.exec t x c.shared = some (s, pushed))
include h hok htop hexec

theorem Framed.encoded_step {t' : Nat} {j : Instr}
    (hactive : (c.replace t s (pushed ++ rest)).Active t' j) (hj : encodedCall j = some k) :
    FrameAgrees (s.calls.call k) := by
  have hi := Config.active_of_top htop
  by_cases hpushed : j ∈ pushed
  · obtain hencoded | rfl := pushes_encodedCall (pushes_of_exec hexec j hpushed) hj
    · refine exec_agrees hexec hok (h.begun hi (ownedCall_of_encodedCall hencoded)) ?_
        (h.encoded t i k hi hencoded)
      rintro rfl
      cases hencoded
    · exact callAsyncInternal_agrees hexec hpushed hj
  · have hown := ownedCall_of_encodedCall hj
    have hother := h.unique htop hactive hpushed hown
    have hbefore := (Config.active_of_replace htop hactive).resolve_left fun hp => hpushed hp.2
    refine exec_agrees hexec hok (h.begun hbefore hown) ?_ (h.encoded t' j k hbefore hj)
    rintro rfl
    exact hother rfl

theorem Framed.entries_step (hpending : IsPending s.calls k) : FrameAgrees (s.calls.call k) := by
  have hi := Config.active_of_top htop
  obtain hbefore | rfl := instr_pending hexec h.keyed hpending
  · have hbegun := lt_callCount_of_pending
      (Nat.le_trans (Nat.le_add_right _ _) (h.once k)) hbefore
    refine exec_agrees hexec hok hbegun ?_ (h.entries k hbefore)
    rintro rfl
    exact h.unowned hbefore hi rfl
  · exact exec_agrees (i := .call (.insertPending k)) hexec hok (h.begun hi rfl) (by simp)
      (h.encoded t _ k hi rfl)

theorem Framed.handed_step {t' n : Nat}
    (hactive : (c.replace t s (pushed ++ rest)).Active t' (.call (.send k n))) :
    k < s.calls.callCount ∧ (s.calls.call k).state ≠ .waitingToSend ∧
      FrameAgrees (s.calls.call k) := by
  obtain ⟨-, hpushed⟩ | hbefore := Config.active_of_replace htop hactive
  · obtain ⟨rfl, -, hpending, -, hsent⟩ := send_pushed hexec hpushed
    have hbegun := lt_callCount_of_pending
      (Nat.le_trans (Nat.le_add_right _ _) (h.once k)) hpending
    exact ⟨Nat.lt_of_lt_of_le hbegun (callCount_le_of_exec hexec), by simp [hsent],
      exec_agrees hexec hok hbegun (by simp) (h.entries k hpending)⟩
  · obtain ⟨hbegun, hsent, hagrees⟩ := h.handed t' n k hbefore
    refine ⟨Nat.lt_of_lt_of_le hbegun (callCount_le_of_exec hexec),
      fun hwaiting => hsent (exec_waiting hexec hbegun hwaiting), ?_⟩
    refine exec_agrees hexec hok hbegun ?_ hagrees
    rintro rfl
    exact hsent (h.unsent t _ k (Config.active_of_top htop) rfl)

end Step

theorem Framed.step {c c' : ClientConfig} {t : Nat} {i : Instr} (h : Framed c)
    (hok : KeepsAttempts c t i) (hstep : client.Step c t i c') : Framed c' := by
  have hwaiting := h.toWaiting.step hstep
  obtain @⟨rest, x, s, pushed, htop, hexec⟩ := hstep
  exact { hwaiting with
    encoded := fun _ _ _ hactive hj => h.encoded_step hok htop hexec hactive hj
    entries := fun _ hpending => h.entries_step hok htop hexec hpending
    handed := fun _ _ _ hactive => h.handed_step hok htop hexec hactive }

theorem Framed.init (timerThreads users : Nat) : Framed (init timerThreads users) where
  toWaiting := .init timerThreads users
  encoded := by
    intro t i k hactive hi
    obtain rfl | rfl | rfl := mem_init_stack hactive <;> cases hi
  entries := by
    intro k hpending
    cases hpending
  handed := by
    intro t n k hactive
    obtain h | h | h := mem_init_stack hactive <;> cases h

/-- While no attempt is counted, every pending call stores the frame of its request, and such are
the frames that are handed to connections. -/
theorem frames_agree {timerThreads users : Nat} {c : ClientConfig}
    (hrun : client.Run KeepsAttempts (init timerThreads users) c) :
    (∀ k ∈ c.shared.calls.pendingList, FrameAgrees (c.shared.calls.call k)) ∧
      ∀ t n k, c.Active t (.call (.send k n)) → FrameAgrees (c.shared.calls.call k) := by
  have h : Framed c :=
    hrun.invariant (.init timerThreads users) fun h hok hstep => h.step hok hstep
  exact ⟨fun k hk => h.entries k (h.keyed.mem_pendingList.mp hk),
    fun t n k hactive => (h.handed t n k hactive).2.2⟩

def queuedCall : ClientConfig :=
  client.follow (init 1 1)
    ((2, Choice.operation (.callAsync {} { failFast := false } false)) ::
        List.replicate 10 (2, .next) ++
      [(0, Choice.poll []), (0, .next), (0, .connectResult .inProgress)])

theorem frames_agree_queued : FrameAgrees (queuedCall.shared.calls.call 0) :=
  (frames_agree (Machine.run_follow (c := init 1 1) (by decide))).1 0 (by decide)

def retriedCall : ClientConfig :=
  client.follow (init 1 1)
    ((2, Choice.operation (.callAsync {}
        { failFast := false, retryEnabled := true, maxRetries := 1 } false)) ::
      List.replicate 10 (2, .next) ++
      [(0, Choice.poll []), (0, .next), (0, .connectResult (.refused ⟨111, []⟩)), (0, .next),
        (0, .next), (0, .order [])])

set_option maxRecDepth 10000 in
theorem attempt_not_in_frame : client.Reaches (init 1 1) retriedCall ∧
    0 ∈ retriedCall.shared.calls.pendingList ∧
    (retriedCall.shared.calls.call 0).request.attempt = 2 ∧
    ¬FrameAgrees (retriedCall.shared.calls.call 0) := by
  have hcounted : (retriedCall.shared.calls.call 0).request.attempt = 2 := by decide
  refine ⟨Machine.reaches_follow _, by decide, hcounted, fun hagrees => ?_⟩
  obtain ⟨buffer', hdecode, -⟩ := hagrees
    (Buffer.empty.append (retriedCall.shared.calls.call 0).frame) {} (by simp)
  have hattempt : (RpcCodec.tryDecodeRequest
      (Buffer.empty.append (retriedCall.shared.calls.call 0).frame) {}).2.2.attempt = 1 := by
    decide
  rw [hdecode] at hattempt
  exact absurd (hcounted.symm.trans hattempt) (by decide)

end UnixNotes.Rpc.Client
