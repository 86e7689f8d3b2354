import UnixNotes.Rpc.Client.Completion
import UnixNotes.Rpc.Client.Pushes

namespace UnixNotes.Rpc.Client

open Library

/-- `callAsyncInternal` ends no call itself whose callback it has moved to the `PendingCall`. -/
def KeepsCallback (c : ClientConfig) (_ : Nat) : Instr → Prop
  | .net (.checkState k) =>
    (c.shared.calls.call k).callback = true → ¬ShouldFailFast c.shared k
  | _ => True

instance (c : ClientConfig) (t : Nat) (i : Instr) : Decidable (KeepsCallback c t i) := by
  unfold KeepsCallback
  split <;> infer_instance

/-- Between `c₀` and `c₁` thread `t` has run one instruction of its stack and all that came of it. -/
def Returned (c₀ c₁ : ClientConfig) (t : Nat) : Prop := ∃ i, c₀.stack t = i :: c₁.stack t

/-- The callback of call `k` is invoked at most once, and with the response of the future when the
operation that completed that has returned. -/
structure CallbackInvoked (c₀ c₁ : ClientConfig) (k : Nat) : Prop where
  once : (c₁.shared.calls.call k).invocations.length ≤ 1
  returned : ∀ t response, Returned c₀ c₁ t →
    (k < c₀.shared.calls.callCount → (c₀.shared.calls.call k).completed = none) →
    (t, response) ∈ (c₁.shared.calls.call k).completions →
    (c₁.shared.calls.call k).invocations = [response]

def Held : Instr → Account → Prop
  | .call (.complete _ _ .param), a | .call (.invokeCallback _ _ .param), a =>
    a.hasCallback = true → a.localCallback = true
  | _, _ => True

structure Delivering (c : ClientConfig) : Prop extends Lifecycle c where
  held : ∀ t i k, c.Active t i → ownedCall i = some k → Held i (c.shared.calls.call k).account
  delivered : ∀ k, k < c.shared.calls.callCount → (c.shared.calls.call k).hasCallback = true →
    ∀ t response, (t, response) ∈ (c.shared.calls.call k).completions →
      (c.shared.calls.call k).invocations = [response] ∨
        ∃ route, c.Active t (.call (.invokeCallback k response route))

section Step

variable {t : Nat} {x : Choice} {s s' : State} {i : Instr} {pushed : List Instr}

theorem exec_held (h : i.exec t x s = some (s', pushed))
    (hphase : ∀ k, ownedCall i = some k → Phase i (s.calls.call k).account)
    (hheld : ∀ k, ownedCall i = some k → Held i (s.calls.call k).account)
    (hok : ∀ k, i = .net (.checkState k) → (s.calls.call k).callback = true → ¬ShouldFailFast s k)
    {j : Instr} (hj : j ∈ pushed) {k : Nat} (hown : ownedCall j = some k) :
    Held j (s'.calls.call k).account := by
  have hpushes := pushes_of_exec h j hj
  unfold Held
  split
  · rename_i k' response
    cases hown
    cases hpushes with
    | completeUnsent =>
      have hfresh : (s.calls.call k).account.Fresh := hphase k rfl
      have hlocal : (s.calls.call k).localCallback = (s.calls.call k).hasCallback :=
        hfresh.localCallback
      obtain ⟨⟨calls, pushed⟩, hexec, heq⟩ := Option.map_eq_some_iff.mp h
      cases heq
      simp only [CallInstr.exec] at hexec
      (repeat' split at hexec) <;> cases hexec
      · exact fun hcallback => hlocal.trans hcallback
      · exact fun hcallback => hlocal.trans hcallback
      · simp at hj
    | failFast hfail =>
      have hprepared : (s.calls.call k).account.Prepared := hphase k rfl
      have hcallback : (s.calls.call k).callback = (s.calls.call k).hasCallback :=
        hprepared.callback
      obtain ⟨⟨net, pushed⟩, hexec, heq⟩ := Option.map_eq_some_iff.mp h
      cases heq
      intro hhas
      exact absurd hfail (hok k rfl (hcallback.trans hhas))
  · rename_i k' response
    cases hown
    cases hpushes with
    | invokeCallback =>
      have hlocal : (s.calls.call k).hasCallback = true → (s.calls.call k).localCallback = true :=
        hheld k rfl
      obtain ⟨hopen, -, -⟩ := complete_phase (hphase k rfl)
      cases h
      rw [CallTable.set_call_self, Call.complete_account hopen]
      exact hlocal
  · trivial

theorem phase_open {a : Account} {k : Nat} (hown : ownedCall i = some k) (hphase : Phase i a)
    (hi : ∀ response route, i ≠ .call (.invokeCallback k response route)) : a.Open := by
  unfold ownedCall at hown
  split at hown <;> cases hown
  · exact hphase.toOpen
  · exact hphase.toOpen
  · exact hphase.toOpen
  · exact hphase.toOpen
  · exact hphase.toOpen
  · exact hphase.toOpen
  · exact hphase.1.toOpen
  · exact (complete_phase hphase).1
  · exact absurd rfl (hi _ _)

theorem invokeCallback_delivers {k : Nat} {response : RpcResponse} {route : Route}
    (h : (Instr.call (.invokeCallback k response route)).exec t x s = some (s', pushed))
    (hphase : Phase (.call (.invokeCallback k response route)) (s.calls.call k).account)
    (hheld : Held (.call (.invokeCallback k response route)) (s.calls.call k).account)
    (hhas : (s'.calls.call k).hasCallback = true) :
    (s'.calls.call k).invocations = [response] := by
  obtain ⟨-, hcompleted, hinvocations, hcallback⟩ := hphase
  have hcompleted : (s.calls.call k).completed = some response := hcompleted
  have hinvocations : (s.calls.call k).invocations = [] := hinvocations
  obtain ⟨⟨calls, pushed⟩, hexec, heq⟩ := Option.map_eq_some_iff.mp h
  cases heq
  cases route with
  | param =>
    simp only [CallInstr.exec] at hexec
    split at hexec <;> cases hexec
    · simp [Call.invoke, hinvocations]
    · rename_i hempty
      exact absurd (hheld hhas) hempty
  | pending =>
    simp only [CallInstr.exec, hcompleted, Option.map_some] at hexec
    split at hexec <;> cases hexec
    · simp [Call.invoke, hinvocations]
    · rename_i hempty
      exact absurd ((hcallback rfl).trans hhas) hempty

theorem Account.Settled.completions_eq {a : Account} (h : a.Settled)
    {response response' : RpcResponse} {t : Nat} (hcompleted : a.completed = some response)
    (hmem : (t, response') ∈ a.completions) : response' = response := by
  rw [Account.Settled, hcompleted] at h
  obtain ⟨⟨t', hcompletions⟩, -⟩ := h
  rw [hcompletions, List.mem_singleton] at hmem
  exact congrArg Prod.snd hmem

theorem owner_delivers (h : i.exec t x s = some (s', pushed)) {k : Nat}
    (hbegun : k < s.calls.callCount) (hown : ownedCall i = some k)
    (hphase : Phase i (s.calls.call k).account) (hheld : Held i (s.calls.call k).account)
    (hhas : (s'.calls.call k).hasCallback = true) {t' : Nat} {response : RpcResponse}
    (hmem : (t', response) ∈ (s'.calls.call k).completions) :
    (s'.calls.call k).invocations = [response] ∨
      t' = t ∧ ∃ route, .call (.invokeCallback k response route) ∈ pushed := by
  by_cases hinvoke : ∃ response route, i = .call (.invokeCallback k response route)
  · obtain ⟨response', route, rfl⟩ := hinvoke
    rw [(instr_completed h hbegun (by simp)).2] at hmem
    obtain rfl := hphase.1.completions_eq hphase.2.1 hmem
    exact .inl (invokeCallback_delivers h hphase hheld hhas)
  · have hopen := phase_open hown hphase fun response' route heq => hinvoke ⟨response', route, heq⟩
    by_cases hcomplete : ∃ response route, i = .call (.complete k response route)
    · obtain ⟨response', route, rfl⟩ := hcomplete
      cases h
      have hcompletions : (((s.calls.set k ((s.calls.call k).complete t response')).call
          k)).account.completions = [(t, response')] := by
        rw [CallTable.set_call_self, Call.complete_account hopen]
      have hmem : (t', response) ∈ [(t, response')] := hcompletions ▸ hmem
      cases List.mem_singleton.mp hmem
      exact .inr ⟨rfl, route, List.mem_singleton.mpr rfl⟩
    · have hcompletions : (s.calls.call k).completions = [] := hopen.completions
      rw [(instr_completed h hbegun fun response' route heq => hcomplete ⟨response', route, heq⟩).2,
        hcompletions] at hmem
      cases hmem

end Step

theorem Delivering.step {c c' : ClientConfig} {t : Nat} {i : Instr} (h : Delivering c)
    (hok : KeepsCallback c t i) (hstep : client.Step c t i c') : Delivering c' := by
  have hlife := h.toLifecycle.step hstep
  obtain @⟨rest, x, s, pushed, htop, hexec⟩ := hstep
  have hactive := Config.active_of_top htop
  refine { hlife with held := ?_, delivered := ?_ }
  · intro t' j k hj hown
    by_cases hpushed : j ∈ pushed
    · refine exec_held hexec (fun k => h.phase t i k hactive) (fun k => h.held t i k hactive) ?_
        hpushed hown
      rintro k rfl hcallback
      exact hok hcallback
    · have hother := h.unique htop hj hpushed hown
      have hbefore := (Config.active_of_replace htop hj).resolve_left fun hp => hpushed hp.2
      rw [Config.shared_replace, instr_account hexec hother (h.begun hbefore hown)]
      exact h.held t' j k hbefore hown
  · intro k hk hhas t' response hmem
    rw [Config.shared_replace] at hk hhas hmem ⊢
    by_cases hbegun : k < c.shared.calls.callCount
    · by_cases hown : ownedCall i = some k
      · obtain hinvoked | ⟨rfl, route, hpushed⟩ := owner_delivers hexec hbegun hown
          (h.phase t i k hactive hown) (h.held t i k hactive hown) hhas hmem
        · exact .inl hinvoked
        · exact .inr ⟨route, Config.active_replace_of_pushed htop s hpushed⟩
      · have haccount := instr_account hexec hown hbegun
        have hcompletions : (s.calls.call k).completions = (c.shared.calls.call k).completions :=
          congrArg Account.completions haccount
        have hinvocations : (s.calls.call k).invocations = (c.shared.calls.call k).invocations :=
          congrArg Account.invocations haccount
        have hbefore : (c.shared.calls.call k).hasCallback = true :=
          (congrArg Account.hasCallback haccount).symm.trans hhas
        rw [hcompletions] at hmem
        rw [hinvocations]
        obtain hinvoked | ⟨route, hinvoke⟩ := h.delivered k hbegun hbefore t' response hmem
        · exact .inl hinvoked
        · refine .inr ⟨route, Config.active_replace_of_ne htop s pushed hinvoke ?_⟩
          rintro rfl
          exact hown rfl
    · obtain ⟨request, options, callback, hnew⟩ := (begin_of_exec hexec hk).resolve_left hbegun
      rw [hnew] at hmem
      cases hmem

theorem Delivering.init (timerThreads users : Nat) : Delivering (init timerThreads users) where
  toLifecycle := .init timerThreads users
  held := by
    intro t i k hactive hown
    obtain rfl | rfl | rfl := mem_init_stack hactive <;> cases hown
  delivered := by
    intro k hk
    exact absurd hk (Nat.not_lt_zero k)

theorem Delivering.run {c₀ c : ClientConfig} (h : Delivering c₀)
    (hrun : client.Run KeepsCallback c₀ c) : Delivering c :=
  hrun.invariant h fun h hok hstep => h.step hok hstep

/-- Unless a call ends itself after its callback has been moved, the callback is invoked once, with
the response of the future, before the operation that completed that returns. -/
theorem callbacks_invoked {timerThreads users : Nat} {c₀ c₁ : ClientConfig}
    (hrun : client.Run KeepsCallback (init timerThreads users) c₀)
    (hlater : client.Run KeepsCallback c₀ c₁) {k : Nat} (hk : k < c₁.shared.calls.callCount)
    (hhas : (c₁.shared.calls.call k).hasCallback = true) : CallbackInvoked c₀ c₁ k := by
  have h₀ := (Delivering.init timerThreads users).run hrun
  have h₁ := h₀.run hlater
  constructor
  · exact h₁.invocations_length hk
  · rintro t response ⟨i, hreturned⟩ hopen hmem
    refine (h₁.delivered k hk hhas t response hmem).resolve_right ?_
    rintro ⟨route, hinvoke⟩
    -- What is left of the stack was there before, when the future was not completed.
    have hbefore : c₀.Active t (.call (.invokeCallback k response route)) := by
      rw [Config.Active, hreturned]
      exact List.mem_cons_of_mem i hinvoke
    obtain ⟨-, hcompleted, -⟩ := h₀.phase t _ k hbefore rfl
    have hcompleted : (c₀.shared.calls.call k).completed = some response := hcompleted
    rw [hopen (h₀.begun hbefore rfl)] at hcompleted
    cases hcompleted

def cancelWaiting : ClientConfig :=
  client.follow (init 1 1) ((2, Choice.operation (.callAsync {} { failFast := false } true)) ::
    List.replicate 10 (2, .next) ++ [(2, Choice.operation (.cancel 0))])

theorem callbacks_invoked_cancelled :
    CallbackInvoked cancelWaiting (client.follow cancelWaiting (List.replicate 9 (2, .next))) 0 :=
  callbacks_invoked (Machine.run_follow (c := init 1 1) (by decide))
    (Machine.run_follow (by decide)) (by decide) (by decide)

/-- A user calls with a callback and the default options. -/
def callWithCallback : ClientConfig :=
  client.follow (init 1 1) [(2, .operation (.callAsync {} {} true))]

def notConnected : ClientConfig := client.follow callWithCallback (List.replicate 9 (2, .next))

theorem callback_lost :
    client.Reaches (init 1 1) callWithCallback ∧ client.Reaches callWithCallback notConnected ∧
      0 < notConnected.shared.calls.callCount ∧
      (notConnected.shared.calls.call 0).hasCallback = true ∧
      ¬CallbackInvoked callWithCallback notConnected 0 := by
  refine ⟨Machine.reaches_follow _, Machine.reaches_follow _, by decide, by decide, fun h => ?_⟩
  have hreturned : Returned callWithCallback notConnected 2 := ⟨_, rfl⟩
  have hinvoked := h.returned 2
    (errorResponse 1 .networkError (ascii "RPC client is not connected")) hreturned
    (fun _ => by decide) (by decide)
  have hnone : (notConnected.shared.calls.call 0).invocations = [] := by decide
  rw [hnone] at hinvoked
  cases hinvoked

end UnixNotes.Rpc.Client
