import UnixNotes.Rpc.Client.Pushes

namespace UnixNotes.Rpc.Client

open Library

def Queued (c : ClientConfig) (functor : Functor) : Prop :=
  functor ∈ c.shared.loop.pendingFunctors ∨ ∃ t, c.Active t (.loop (.queueInLoop functor))

section Functors

variable {t : Nat} {x : Choice} {s s' : State} {i : Instr} {pushed : List Instr}

theorem exec_pendingFunctors (h : i.exec t x s = some (s', pushed)) :
    s'.loop.pendingFunctors = s.loop.pendingFunctors ∨
      (i = .loop .doPendingFunctors ∧ s'.loop.pendingFunctors = []) ∨
      ∃ functor, i = .loop (.queueInLoop functor) ∧
        s'.loop.pendingFunctors = s.loop.pendingFunctors ++ [functor] := by
  cases i with
  | call i =>
    obtain ⟨⟨calls, pushed⟩, -, heq⟩ := Option.map_eq_some_iff.mp h
    cases heq
    exact .inl rfl
  | net i =>
    obtain ⟨⟨net, pushed⟩, -, heq⟩ := Option.map_eq_some_iff.mp h
    cases heq
    exact .inl rfl
  | loop i =>
    obtain ⟨⟨loop, pushed⟩, hexec, heq⟩ := Option.map_eq_some_iff.mp h
    cases heq
    cases i
    case doPendingFunctors =>
      cases hexec
      exact .inr (.inl ⟨rfl, rfl⟩)
    case queueInLoop functor =>
      cases hexec
      exact .inr (.inr ⟨functor, rfl, rfl⟩)
    all_goals
      simp only [LoopInstr.exec] at hexec
      (repeat' split at hexec) <;> cases hexec <;> exact .inl rfl
  | armDeadline k =>
    cases h
    exact .inl rfl

end Functors

section Queue

variable {c c' : ClientConfig} {t : Nat} {i : Instr} {functor : Functor}

theorem Queued.step (h : Queued c functor) (hstep : client.Step c t i c') :
    Queued c' functor ∨ i = .loop .doPendingFunctors ∧ ∀ j ∈ functor.body, c'.Active t j := by
  obtain @⟨rest, x, s, pushed, htop, hexec⟩ := hstep
  cases h with
  | inl hmem =>
    obtain hsame | ⟨rfl, -⟩ | ⟨functor', -, happend⟩ := exec_pendingFunctors hexec
    · refine .inl (.inl ?_)
      rw [Config.shared_replace, hsame]
      exact hmem
    · refine .inr ⟨rfl, fun j hj => Config.active_replace_of_pushed htop s ?_⟩
      cases hexec
      exact List.mem_flatMap.mpr ⟨functor, hmem, hj⟩
    · refine .inl (.inl ?_)
      rw [Config.shared_replace, happend]
      exact List.mem_append_left _ hmem
  | inr hactive =>
    obtain ⟨t', hactive⟩ := hactive
    by_cases hi : i = .loop (.queueInLoop functor)
    · subst hi
      refine .inl (.inl ?_)
      cases hexec
      exact List.mem_append_right _ (List.mem_singleton.mpr rfl)
    · exact .inl (.inr ⟨t', Config.active_replace_of_ne htop s pushed hactive (Ne.symm hi)⟩)

end Queue

def LoopOnly : Instr → Prop
  | .loop .loop | .loop .doPendingFunctors | .loop (.armReconnect _) => True
  | .call (.expireRetryExhaustedPending _) | .call (.failSentPending _ _) => True
  | .net (.updateConnectionState state) => state = .connected
  | .net .reconnectTimer | .net .scheduleReconnect | .net (.storeReconnectTimer _) => True
  | .net .startInLoop | .net .connected | .net .stopInLoop | .net (.handleWrite _)
  | .net (.handleError _) | .net (.reportError _) => True
  | .net .newConnection | .net (.connectEstablished _) | .net (.onConnection _)
  | .net (.onConnectionError _) => True
  | .net (.handleRead _ _ _) | .net (.onMessage _) | .net (.sendInLoop _ _)
  | .net (.handleClose _) | .net (.removeConnection _) | .net (.connectDestroyed _)
  | .net (.forceCloseInLoop _) | .net .resetTcpClient | .net .dropConnection => True
  | _ => False

def LoopBound (c : ClientConfig) : Prop := ∀ t i, c.Active t i → LoopOnly i → t = 0

theorem pushes_loopOnly {t : Nat} {s : State} {i j : Instr} (h : Pushes t s i j)
    (hj : LoopOnly j) : isInLoopThread t = true ∨ LoopOnly i := by
  cases h <;> simp_all [LoopOnly]

theorem LoopBound.step {c c' : ClientConfig} {t : Nat} {i : Instr} (h : LoopBound c)
    (hstep : client.Step c t i c') : LoopBound c' := by
  obtain @⟨rest, x, s, pushed, htop, hexec⟩ := hstep
  intro t' j hactive hj
  obtain ⟨rfl, hpushed⟩ | hbefore := Config.active_of_replace htop hactive
  · obtain hloop | hi := pushes_loopOnly (pushes_of_exec hexec j hpushed) hj
    · exact beq_iff_eq.mp hloop
    · exact h t' i (Config.active_of_top htop) hi
  · exact h t' j hbefore hj

end UnixNotes.Rpc.Client
