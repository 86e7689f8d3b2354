import UnixNotes.Rpc.Client.Connection

namespace UnixNotes.Rpc.Client

open Library

/-- No operation and no callback is in progress, and no functor is queued. -/
structure Quiescent (c : ClientConfig) : Prop where
  idle : ∀ t i, c.Active t i → i = .loop .loop ∨ i = .loop .timerService ∨ i = .call .userCode
  functors : c.shared.loop.pendingFunctors = []

def CloseOrdered (c : ClientConfig) (n : Nat) : Prop :=
  Queued c (.forceCloseInLoop n) ∨ (∃ t, c.Active t (.net (.forceCloseInLoop n))) ∨
    ∃ t, c.Active t (.net (.handleClose n))

def StopAhead (c : ClientConfig) : Prop := ∃ t, c.Active t (.net .stopConnection)

def Losing (c : ClientConfig) : Prop :=
  ∃ t n, c.Active t (.net (.removeConnection n)) ∨ c.Active t (.net (.connectDestroyed n)) ∨
    c.Active t (.net (.onConnection n)) ∧ (c.shared.net.connections n).state = .kDisconnected

def Opening (c : ClientConfig) : Prop := ∃ t n, c.Active t (.net (.connectEstablished n))

instance (c : ClientConfig) (functor : Functor) : Decidable (Queued c functor) :=
  inferInstanceAs (Decidable (_ ∨ _))

instance (c : ClientConfig) (n : Nat) : Decidable (CloseOrdered c n) :=
  inferInstanceAs (Decidable (_ ∨ _ ∨ _))

instance (c : ClientConfig) : Decidable (StopAhead c) :=
  inferInstanceAs (Decidable (∃ t, c.Active t (.net .stopConnection)))

def loses (net : Net) : Instr → Bool
  | .net (.removeConnection _) | .net (.connectDestroyed _) => true
  | .net (.onConnection n) => (net.connections n).state = .kDisconnected
  | _ => false

theorem losing_iff {c : ClientConfig} :
    Losing c ↔ ∃ t i, c.Active t i ∧ loses c.shared.net i = true := by
  constructor
  · rintro ⟨t, n, hactive | hactive | ⟨hactive, hstate⟩⟩
    · exact ⟨t, _, hactive, rfl⟩
    · exact ⟨t, _, hactive, rfl⟩
    · exact ⟨t, _, hactive, decide_eq_true hstate⟩
  · rintro ⟨t, i, hactive, hi⟩
    unfold loses at hi
    split at hi
    · exact ⟨t, _, .inl hactive⟩
    · exact ⟨t, _, .inr (.inl hactive)⟩
    · exact ⟨t, _, .inr (.inr ⟨hactive, of_decide_eq_true hi⟩)⟩
    · cases hi

instance (c : ClientConfig) : Decidable (Losing c) := decidable_of_iff _ losing_iff.symm

def opens : Instr → Bool
  | .net (.connectEstablished _) => true
  | _ => false

theorem opening_iff {c : ClientConfig} : Opening c ↔ ∃ t i, c.Active t i ∧ opens i = true := by
  constructor
  · rintro ⟨t, n, hactive⟩
    exact ⟨t, _, hactive, rfl⟩
  · rintro ⟨t, i, hactive, hi⟩
    unfold opens at hi
    split at hi
    · exact ⟨t, _, hactive⟩
    · cases hi

instance (c : ClientConfig) : Decidable (Opening c) := decidable_of_iff _ opening_iff.symm

section Ahead

variable {c c' : ClientConfig} {t : Nat} {i : Instr}

theorem CloseOrdered.step {n : Nat} (h : CloseOrdered c n) (hstep : client.Step c t i c') :
    CloseOrdered c' n ∨ (i = .net (.forceCloseInLoop n) ∨ i = .net (.handleClose n)) ∧
      (c'.shared.net.connections n).state ≠ .kConnected := by
  obtain hqueued | ⟨t', hactive⟩ | ⟨t', hactive⟩ := h
  · obtain hqueued | ⟨-, hbody⟩ := hqueued.step hstep
    · exact .inl (.inl hqueued)
    · exact .inl (.inr (.inl ⟨t, hbody _ (List.mem_singleton.mpr rfl)⟩))
  · obtain @⟨rest, x, s, pushed, htop, hexec⟩ := hstep
    by_cases hi : .net (.forceCloseInLoop n) = i
    · subst hi
      obtain ⟨⟨net, pushed⟩, hclose, heq⟩ := Option.map_eq_some_iff.mp hexec
      cases heq
      simp only [NetInstr.exec] at hclose
      split at hclose <;> cases hclose
      · exact .inl (.inr (.inr ⟨t, Config.active_replace_of_pushed htop _
          (List.mem_singleton.mpr rfl)⟩))
      · exact .inr ⟨.inl rfl, ‹_›⟩
    · exact .inl (.inr (.inl ⟨t', Config.active_replace_of_ne htop s pushed hactive hi⟩))
  · obtain @⟨rest, x, s, pushed, htop, hexec⟩ := hstep
    by_cases hi : .net (.handleClose n) = i
    · subst hi
      refine .inr ⟨.inr rfl, ?_⟩
      obtain ⟨⟨net, pushed⟩, hclose, heq⟩ := Option.map_eq_some_iff.mp hexec
      cases heq
      simp only [NetInstr.exec] at hclose
      split at hclose <;> cases hclose
      · rename_i hstate
        rw [Config.shared_replace, hstate]
        simp
      all_goals
        rw [Config.shared_replace, setSocketState_self]
        simp
    · exact .inl (.inr (.inr ⟨t', Config.active_replace_of_ne htop s pushed hactive hi⟩))

theorem StopAhead.step (h : StopAhead c) (hstep : client.Step c t i c') :
    StopAhead c' ∨ ∀ n, c.shared.net.connection = some n → CloseOrdered c' n := by
  obtain ⟨t', hactive⟩ := h
  obtain @⟨rest, x, s, pushed, htop, hexec⟩ := hstep
  by_cases hi : .net .stopConnection = i
  · subst hi
    refine .inr fun n hconnection => ?_
    obtain ⟨⟨net, pushed⟩, hstop, heq⟩ := Option.map_eq_some_iff.mp hexec
    cases heq
    simp only [NetInstr.exec, hconnection] at hstop
    cases hstop
    rw [runInLoop]
    split
    · exact .inr (.inl ⟨t, Config.active_replace_of_pushed htop _ (List.mem_singleton.mpr rfl)⟩)
    · exact .inl (.inr ⟨t, Config.active_replace_of_pushed htop _ (List.mem_singleton.mpr rfl)⟩)
  · exact .inl ⟨t', Config.active_replace_of_ne htop s pushed hactive hi⟩

theorem Connections.link_of_chained (h : Connections c) {rest : List Instr} {x : Choice} {s : State}
    {pushed : List Instr} (htop : c.stack t = i :: rest)
    (hexec : i.exec t x c.shared = some (s, pushed)) {t' : Nat} {j : Instr}
    (hactive : c.Active t' j) (hj : Chained j) (hne : j ≠ i) :
    ¬LoopOnly i ∧ s.net.link = c.shared.net.link := by
  have hi : ¬LoopOnly i := by
    intro hi
    obtain rfl := h.bound t i (Config.active_of_top htop) hi
    obtain rfl := h.bound t' j hactive hj.loopOnly
    exact hne (h.head.eq_top htop hactive hj)
  exact ⟨hi, exec_link hexec hi⟩

theorem Losing.step (h : Losing c) (hconnections : Connections c)
    (hstopping : c.shared.net.stopping = false) (hstep : client.Step c t i c') :
    Losing c' ∨ ∃ n, i = .net (.onConnection n) ∧
      (c.shared.net.connections n).state = .kDisconnected := by
  obtain ⟨t', n, hactive⟩ := h
  have hrunning := hconnections.running hstopping
  obtain @⟨rest, x, s, pushed, htop, hexec⟩ := hstep
  obtain hremove | hdestroy | ⟨hchange, hstate⟩ := hactive
  · by_cases hi : .net (.removeConnection n) = i
    · subst hi
      cases hexec
      exact .inl ⟨t, n, .inr (.inl (Config.active_replace_of_pushed htop _ (by simp)))⟩
    · exact .inl ⟨t', n, .inl (Config.active_replace_of_ne htop s pushed hremove hi)⟩
  · by_cases hi : .net (.connectDestroyed n) = i
    · subst hi
      cases hexec
      refine .inl ⟨t, n, .inr (.inr ⟨Config.active_replace_of_pushed htop _ ?_, ?_⟩)⟩
      · rw [if_pos (hrunning.connections n)]
        exact List.mem_singleton.mpr rfl
      · exact setSocketState_self ..
    · exact .inl ⟨t', n, .inr (.inl (Config.active_replace_of_ne htop s pushed hdestroy hi))⟩
  · by_cases hi : .net (.onConnection n) = i
    · exact .inr ⟨n, hi.symm, hstate⟩
    · have hlink := (hconnections.link_of_chained htop hexec hchange trivial hi).2
      have hsame : s.net.connections = c.shared.net.connections := congrArg Link.connections hlink
      refine .inl ⟨t', n, .inr (.inr ⟨Config.active_replace_of_ne htop s pushed hchange hi, ?_⟩)⟩
      rw [Config.shared_replace, hsame]
      exact hstate

end Ahead

section Exec

variable {t : Nat} {x : Choice} {s s' : State} {i : Instr} {pushed : List Instr}

theorem exec_connected (h : i.exec t x s = some (s', pushed))
    (hstate : s'.net.connectionState = .connected) :
    s.net.connectionState = .connected ∨ i = .net (.updateConnectionState .connected) := by
  obtain hsame | ⟨i, net, rfl, hexec, rfl⟩ := net_of_exec h
  · rw [← hsame]
    exact .inl hstate
  · cases i
    case updateConnectionState state =>
      cases hexec
      obtain rfl : state = .connected := hstate
      exact .inr rfl
    all_goals
      refine .inl ?_
      simp only [NetInstr.exec] at hexec
      (repeat' split at hexec) <;> cases hexec <;> first | exact hstate | cases hstate

theorem exec_disconnected (h : i.exec t x s = some (s', pushed))
    (hstate : s.net.connectionState = .connected) :
    s'.net.connectionState = .connected ∨
      (∃ state, i = .net (.updateConnectionState state) ∧ state ≠ .connected) ∨
      .net .stopConnection ∈ pushed ∨ s'.net.stopping = true := by
  obtain hsame | ⟨i, net, rfl, hexec, rfl⟩ := net_of_exec h
  · rw [hsame]
    exact .inl hstate
  · cases i
    case updateConnectionState state =>
      by_cases hconnected : state = .connected
      · cases hexec
        exact .inl hconnected
      · exact .inr (.inl ⟨state, rfl, hconnected⟩)
    case disconnect =>
      cases hexec
      exact .inr (.inr (.inl (by simp [stopClient])))
    case destroy =>
      cases hexec
      exact .inr (.inr (.inr rfl))
    case connectWaitUntil deadline =>
      simp only [NetInstr.exec] at hexec
      (repeat' split at hexec) <;> cases hexec
      · exact .inr (.inr (.inl (by simp [stopClient])))
      · exact .inl hstate
    all_goals
      refine .inl ?_
      simp only [NetInstr.exec] at hexec
      (repeat' split at hexec) <;> cases hexec <;> first | exact hstate | simp_all

theorem exec_undesired (h : i.exec t x s = some (s', pushed))
    (hdesired : s'.net.desiredConnected = false) :
    s.net.desiredConnected = false ∨ .net .stopConnection ∈ pushed ∨ s'.net.stopping = true := by
  obtain hsame | ⟨i, net, rfl, hexec, rfl⟩ := net_of_exec h
  · rw [← hsame]
    exact .inl hdesired
  · cases i
    case disconnect =>
      cases hexec
      exact .inr (.inl (by simp [stopClient]))
    case destroy =>
      cases hexec
      exact .inr (.inr rfl)
    case connectWaitUntil deadline =>
      simp only [NetInstr.exec] at hexec
      (repeat' split at hexec) <;> cases hexec
      · exact .inr (.inl (by simp [stopClient]))
      · exact .inl hdesired
    all_goals
      refine .inl ?_
      simp only [NetInstr.exec] at hexec
      (repeat' split at hexec) <;> cases hexec <;> first | exact hdesired | cases hdesired

end Exec

/-- The client takes an established connection for lost only when its close has been ordered, and
takes a new connection only when no other is left open and somebody wants one. -/
def KeepsConsistent (c : ClientConfig) (_ : Nat) : Instr → Prop
  | .net (.updateConnectionState state) => state ≠ .connected →
    ∀ n ∈ c.shared.net.connection, (c.shared.net.connections n).state = .kConnected →
      CloseOrdered c n ∨ StopAhead c
  | .net .newConnection =>
    (∀ n < c.shared.net.connectionCount, (c.shared.net.connections n).state = .kConnected →
      CloseOrdered c n) ∧ (c.shared.net.desiredConnected = true ∨ StopAhead c)
  | _ => True

instance (c : ClientConfig) (t : Nat) (i : Instr) : Decidable (KeepsConsistent c t i) := by
  unfold KeepsConsistent
  split <;> infer_instance

def LossAhead (c : ClientConfig) : Prop :=
  Losing c ∨ ∃ t state, state ≠ .connected ∧ c.Active t (.net (.updateConnectionState state))

def Known (c : ClientConfig) (n : Nat) : Prop :=
  c.shared.net.connectionState = .connected ∨ (∃ t, c.Active t (.net (.onConnection n))) ∨
    (∃ t, c.Active t (.net (.updateConnectionState .connected))) ∨ CloseOrdered c n ∨ StopAhead c

section Step

variable {c c' : ClientConfig} {t : Nat} {i : Instr}

/-- The client takes no established connection for lost whose close is not ordered. -/
def KeepsEstablished (c : ClientConfig) (i : Instr) : Prop :=
  ∀ state, i = .net (.updateConnectionState state) → state ≠ .connected →
    ∀ n, c.shared.net.connection = some n → (c.shared.net.connections n).state = .kConnected →
      CloseOrdered c n ∨ StopAhead c

theorem held_kept {x : Choice} {s s' : State} {pushed : List Instr}
    (h : i.exec t x s = some (s', pushed)) {n : Nat} (hheld : s'.net.connection = some n)
    (hstate : (s'.net.connections n).state = .kConnected) :
    s.net.connection = some n ∧
      ((s.net.connections n).state = .kConnected ∨ i = .net (.connectEstablished n)) := by
  obtain hsame | ⟨i, net, rfl, hexec, rfl⟩ := net_of_exec h
  · rw [← hsame]
    exact ⟨hheld, .inl hstate⟩
  · have hsocket := socketStep_of_exec hexec n
    have hkeep : ∀ hconnection : net.connection = s.net.connection, s.net.connection = some n :=
      fun hconnection => hconnection.symm.trans hheld
    cases heldStep_of_exec hexec with
    | keep connection =>
      refine ⟨hkeep connection, ?_⟩
      cases hsocket with
      | keep state => exact .inl (state.symm.trans hstate)
      | connected => exact .inr rfl
      | connecting _ state | closed state | destroyed state | dropped state =>
        rw [state] at hstate
        cases hstate
    | hold connection =>
      cases hexec
      cases hheld
      rw [setConnection_self] at hstate
      cases hstate
    | remove _ connection =>
      rw [connection] at hheld
      cases hheld
    | drop connection =>
      rw [connection] at hheld
      cases hheld

theorem Known.step (h : ∀ n, c.shared.net.connection = some n →
      (c.shared.net.connections n).state = .kConnected → Known c n)
    (hok : KeepsEstablished c i) (hstep : client.Step c t i c')
    (hstopping : c'.shared.net.stopping = false) (hrunning : Running c) {n : Nat}
    (hheld : c'.shared.net.connection = some n)
    (hstate : (c'.shared.net.connections n).state = .kConnected) : Known c' n := by
  have hstep' := hstep
  obtain @⟨rest, x, s, pushed, htop, hexec⟩ := hstep
  obtain ⟨hbefore, hconnected | rfl⟩ := held_kept hexec hheld hstate
  · obtain hknown | ⟨t', hchange⟩ | ⟨t', hupdate⟩ | hclose | hstop := h n hbefore hconnected
    · obtain hstill | ⟨state, rfl, hne⟩ | hpushed | htrue := exec_disconnected hexec hknown
      · exact .inl hstill
      · obtain hclose | hstop := hok state rfl hne n hbefore hconnected
        · obtain hclose | ⟨-, hlost⟩ := hclose.step hstep'
          · exact .inr (.inr (.inr (.inl hclose)))
          · exact absurd hstate hlost
        · obtain hstop | hclose := hstop.step hstep'
          · exact .inr (.inr (.inr (.inr hstop)))
          · exact .inr (.inr (.inr (.inl (hclose n hbefore))))
      · exact .inr (.inr (.inr (.inr ⟨t, Config.active_replace_of_pushed htop s hpushed⟩)))
      · rw [Config.shared_replace, htrue] at hstopping
        cases hstopping
    · by_cases hi : .net (.onConnection n) = i
      · subst hi
        refine .inr (.inr (.inl ⟨t, Config.active_replace_of_pushed htop s ?_⟩))
        obtain ⟨⟨net, pushed⟩, honConnection, heq⟩ := Option.map_eq_some_iff.mp hexec
        cases heq
        simp only [NetInstr.exec, if_pos hconnected] at honConnection
        cases honConnection
        exact List.mem_cons_self ..
      · exact .inr (.inl ⟨t', Config.active_replace_of_ne htop s pushed hchange hi⟩)
    · by_cases hi : .net (.updateConnectionState .connected) = i
      · subst hi
        cases hexec
        exact .inl rfl
      · exact .inr (.inr (.inl ⟨t', Config.active_replace_of_ne htop s pushed hupdate hi⟩))
    · obtain hclose | ⟨-, hlost⟩ := hclose.step hstep'
      · exact .inr (.inr (.inr (.inl hclose)))
      · exact absurd hstate hlost
    · obtain hstop | hclose := hstop.step hstep'
      · exact .inr (.inr (.inr (.inr hstop)))
      · exact .inr (.inr (.inr (.inl (hclose n hbefore))))
  · refine .inr (.inl ⟨t, Config.active_replace_of_pushed htop s ?_⟩)
    cases hexec
    rw [if_pos (hrunning.connections n)]
    exact List.mem_singleton.mpr rfl

theorem established_step (h : c.shared.net.Established) (hrunning : Running c)
    (hstep : client.Step c t i c') : c'.shared.net.Established ∨ Losing c' ∨ Opening c' := by
  obtain ⟨n, hheld, hstate⟩ := h
  obtain @⟨rest, x, s, pushed, htop, hexec⟩ := hstep
  have hi := hrunning.active t i (Config.active_of_top htop)
  have hexec' := hexec
  obtain hsame | ⟨i, net, rfl, hnet, rfl⟩ := net_of_exec hexec
  · refine .inl ⟨n, ?_, ?_⟩ <;> rw [Config.shared_replace, hsame]
    · exact hheld
    · exact hstate
  · cases heldStep_of_exec hnet with
    | keep connection =>
      cases socketStep_of_exec hnet n with
      | keep state => exact .inl ⟨n, connection.trans hheld, state.trans hstate⟩
      | connecting =>
        cases hnet
        exact .inr (.inr ⟨t, _, Config.active_replace_of_pushed htop _
          (List.mem_singleton.mpr rfl)⟩)
      | connected state => exact .inl ⟨n, connection.trans hheld, state⟩
      | closed =>
        refine .inr (.inl ⟨t, n, .inl (Config.active_replace_of_pushed htop _ ?_)⟩)
        simp only [NetInstr.exec, hstate, hrunning.connections n] at hnet
        cases hnet
        exact List.mem_singleton.mpr rfl
      | destroyed state =>
        refine .inr (.inl ⟨t, n, .inr (.inr ⟨Config.active_replace_of_pushed htop _ ?_, state⟩)⟩)
        cases hnet
        rw [if_pos (hrunning.connections n)]
        exact List.mem_singleton.mpr rfl
      | dropped => exact absurd trivial hi
    | hold =>
      cases hnet
      exact .inr (.inr ⟨t, _, Config.active_replace_of_pushed htop _
        (List.mem_singleton.mpr rfl)⟩)
    | @remove m =>
      cases hnet
      exact .inr (.inl ⟨t, m, .inr (.inl (Config.active_replace_of_pushed htop _ (by simp)))⟩)
    | drop => exact absurd trivial hi

theorem connected_step (h : c.shared.net.connectionState = .connected →
      c.shared.net.Established ∨ Opening c ∨ LossAhead c)
    (hconnections : Connections c) (hstopping : c.shared.net.stopping = false)
    (hstep : client.Step c t i c') (hstate : c'.shared.net.connectionState = .connected) :
    c'.shared.net.Established ∨ Opening c' ∨ LossAhead c' := by
  have hrunning := hconnections.running hstopping
  have hlosing : ∀ {c : ClientConfig}, c.shared.net.Established ∨ Losing c ∨ Opening c →
      c.shared.net.Established ∨ Opening c ∨ LossAhead c := by
    rintro c (hestablished | hlosing | hopening)
    · exact .inl hestablished
    · exact .inr (.inr (.inl hlosing))
    · exact .inr (.inl hopening)
  have hstep' := hstep
  obtain @⟨rest, x, s, pushed, htop, hexec⟩ := hstep
  obtain hbefore | rfl := exec_connected hexec hstate
  · obtain hestablished | ⟨t', n, hopening⟩ | hlosing' | ⟨t', state, hne, hupdate⟩ := h hbefore
    · exact hlosing (established_step hestablished hrunning hstep')
    · by_cases hi : .net (.connectEstablished n) = i
      · subst hi
        have hheld := (hconnections.connecting t n (Config.active_of_top htop)).1
        cases hexec
        exact .inl ⟨n, hheld, setSocketState_self ..⟩
      · exact .inr (.inl ⟨t', n, Config.active_replace_of_ne htop s pushed hopening hi⟩)
    · obtain hlosing' | ⟨n, rfl, hlost⟩ := hlosing'.step hconnections hstopping hstep'
      · exact .inr (.inr (.inl hlosing'))
      · obtain ⟨⟨net, pushed⟩, honConnection, heq⟩ := Option.map_eq_some_iff.mp hexec
        cases heq
        simp only [NetInstr.exec, hlost] at honConnection
        split at honConnection
        · contradiction
        · split at honConnection <;> cases honConnection
          · exact .inr (.inr (.inr ⟨t, .reconnecting, by simp,
              Config.active_replace_of_pushed htop _ (by simp)⟩))
          · exact .inr (.inr (.inr ⟨t, .disconnected, by simp,
              Config.active_replace_of_pushed htop _ (by simp)⟩))
    · by_cases hi : .net (.updateConnectionState state) = i
      · subst hi
        cases hexec
        exact absurd hstate hne
      · exact .inr (.inr (.inr ⟨t', state, hne,
          Config.active_replace_of_ne htop s pushed hupdate hi⟩))
  · have hestablished := hconnections.updating t (Config.active_of_top htop)
    cases hexec
    exact .inl hestablished

end Step

structure Tracked (c : ClientConfig) : Prop extends Connections c where
  known : c.shared.net.stopping = false → ∀ n, c.shared.net.connection = some n →
    (c.shared.net.connections n).state = .kConnected → Known c n
  backed : c.shared.net.stopping = false → c.shared.net.connectionState = .connected →
    c.shared.net.Established ∨ Opening c ∨ LossAhead c

theorem stopping_of_step {c c' : ClientConfig} {t : Nat} {i : Instr}
    (hstep : client.Step c t i c') (hstopping : c'.shared.net.stopping = false) :
    c.shared.net.stopping = false := by
  obtain @⟨rest, x, s, pushed, htop, hexec⟩ := hstep
  obtain hsame | ⟨-, htrue⟩ := exec_stopping hexec
  · rw [← hsame]
    exact hstopping
  · rw [Config.shared_replace, htrue] at hstopping
    cases hstopping

theorem Tracked.step {c c' : ClientConfig} {t : Nat} {i : Instr} (h : Tracked c)
    (hok : KeepsEstablished c i) (hstep : client.Step c t i c') : Tracked c' where
  toConnections := h.toConnections.step hstep
  known := by
    intro hstopping n hheld hstate
    have hbefore := stopping_of_step hstep hstopping
    exact Known.step (h.known hbefore) hok hstep hstopping (h.running hbefore) hheld hstate
  backed := by
    intro hstopping hstate
    have hbefore := stopping_of_step hstep hstopping
    exact connected_step (h.backed hbefore) h.toConnections hbefore hstep hstate

theorem Tracked.init (timerThreads users : Nat) : Tracked (init timerThreads users) where
  toConnections := .init timerThreads users
  known := by
    intro _ n hheld
    cases hheld
  backed := by
    intro _ hstate
    cases hstate

section Quiescent

variable {c : ClientConfig} (h : Quiescent c)
include h

theorem Quiescent.not_queued (functor : Functor) : ¬Queued c functor := by
  rintro (hmem | ⟨t, hactive⟩)
  · rw [h.functors] at hmem
    cases hmem
  · obtain hi | hi | hi := h.idle t _ hactive <;> cases hi

theorem Quiescent.not_net {t : Nat} {i : NetInstr} : ¬c.Active t (.net i) := by
  intro hactive
  obtain hi | hi | hi := h.idle t _ hactive <;> cases hi

theorem Quiescent.not_closeOrdered (n : Nat) : ¬CloseOrdered c n := by
  rintro (hqueued | ⟨t, hactive⟩ | ⟨t, hactive⟩)
  · exact h.not_queued _ hqueued
  · exact h.not_net hactive
  · exact h.not_net hactive

theorem Quiescent.not_stopAhead : ¬StopAhead c := fun ⟨_, hactive⟩ => h.not_net hactive

theorem Quiescent.not_losing : ¬Losing c := by
  rintro ⟨t, n, hactive | hactive | ⟨hactive, -⟩⟩ <;> exact h.not_net hactive

theorem Quiescent.connected_iff (htracked : Tracked c) (hstopping : c.shared.net.stopping = false) :
    c.shared.net.connectionState = .connected ↔ c.shared.net.Established := by
  constructor
  · intro hstate
    obtain hestablished | ⟨t, n, hopening⟩ | hlosing | ⟨t, state, -, hupdate⟩ :=
      htracked.backed hstopping hstate
    · exact hestablished
    · exact absurd hopening h.not_net
    · exact absurd hlosing h.not_losing
    · exact absurd hupdate h.not_net
  · rintro ⟨n, hheld, hstate⟩
    obtain hknown | ⟨t, hchange⟩ | ⟨t, hupdate⟩ | hclose | hstop :=
      htracked.known hstopping n hheld hstate
    · exact hknown
    · exact absurd hchange h.not_net
    · exact absurd hupdate h.not_net
    · exact absurd hclose (h.not_closeOrdered n)
    · exact absurd hstop h.not_stopAhead

end Quiescent

theorem KeepsConsistent.established {c : ClientConfig} {t : Nat} {i : Instr}
    (h : KeepsConsistent c t i) : KeepsEstablished c i := by
  rintro state rfl hne n hheld hstate
  exact h hne n hheld hstate

def Holds (c : ClientConfig) (n : Nat) : Prop :=
  c.shared.net.connection = some n ∧ ((c.shared.net.connections n).state = .kConnected ∨
    ∃ t, c.Active t (.net (.connectEstablished n)))

structure Single (c : ClientConfig) : Prop extends Tracked c where
  single : c.shared.net.stopping = false → ∀ n, n < c.shared.net.connectionCount →
    (c.shared.net.connections n).state = .kConnected →
      c.shared.net.connection = some n ∨ CloseOrdered c n
  wanted : c.shared.net.stopping = false → c.shared.net.desiredConnected = false →
    ∀ n, Holds c n → CloseOrdered c n ∨ StopAhead c

section Step

variable {c c' : ClientConfig} {t : Nat} {i : Instr}

theorem Single.single_step (h : Single c) (hok : KeepsConsistent c t i)
    (hstep : client.Step c t i c') (hstopping : c'.shared.net.stopping = false) {n : Nat}
    (hn : n < c'.shared.net.connectionCount)
    (hstate : (c'.shared.net.connections n).state = .kConnected) :
    c'.shared.net.connection = some n ∨ CloseOrdered c' n := by
  have hbefore := stopping_of_step hstep hstopping
  have hrunning := h.running hbefore
  have hclosing : CloseOrdered c n → CloseOrdered c' n := fun hclose =>
    (hclose.step hstep).resolve_right fun hlost => hlost.2 hstate
  obtain @⟨rest, x, s, pushed, htop, hexec⟩ := hstep
  have hactive := Config.active_of_top htop
  have hi := hrunning.active t i hactive
  obtain hsame | ⟨i, net, rfl, hnet, rfl⟩ := net_of_exec hexec
  · rw [Config.shared_replace, hsame] at hn hstate ⊢
    exact (h.single hbefore n hn hstate).imp_right hclosing
  · cases heldStep_of_exec hnet with
    | keep connection count =>
      rw [Config.shared_replace, count] at hn
      cases socketStep_of_exec hnet n with
      | keep state =>
        refine (h.single hbefore n hn (state.symm.trans hstate)).imp ?_ hclosing
        exact connection.trans
      | connected => exact .inl (connection.trans (h.connecting t n hactive).1)
      | connecting _ state | closed state | destroyed state | dropped state =>
        rw [Config.shared_replace, state] at hstate
        cases hstate
    | hold connection count =>
      refine .inr (hclosing (hok.1 n ?_ ?_))
      · by_contra hge
        have : n = c.shared.net.connectionCount := by
          rw [Config.shared_replace, count] at hn
          omega
        subst this
        cases hnet
        rw [Config.shared_replace, setConnection_self] at hstate
        cases hstate
      · cases hnet
        have hne : n ≠ c.shared.net.connectionCount := by
          rintro rfl
          rw [Config.shared_replace, setConnection_self] at hstate
          cases hstate
        rw [Config.shared_replace, setConnection_ne _ _ hne] at hstate
        exact hstate
    | @remove m held _ count =>
      rw [Config.shared_replace, count] at hn
      cases socketStep_of_exec hnet n with
      | keep state =>
        have hopen := state.symm.trans hstate
        obtain hheld | hclose := h.single hbefore n hn hopen
        · cases held.symm.trans hheld
          rw [h.removing t n hactive] at hopen
          cases hopen
        · exact .inr (hclosing hclose)
    | drop => exact absurd trivial hi

theorem Holds.of_step {n : Nat} (h : Holds c' n) (hconnections : Connections c)
    (hstep : client.Step c t i c') :
    i = .net .newConnection ∨ Holds c n := by
  obtain ⟨hheld, hopen⟩ := h
  obtain @⟨rest, x, s, pushed, htop, hexec⟩ := hstep
  by_cases hnew : i = .net .newConnection
  · exact .inl hnew
  · refine .inr ?_
    obtain hstate | ⟨t', hactive⟩ := hopen
    · obtain ⟨hbefore, hconnected | rfl⟩ := held_kept hexec hheld hstate
      · exact ⟨hbefore, .inl hconnected⟩
      · exact ⟨hbefore, .inr ⟨t, Config.active_of_top htop⟩⟩
    · obtain ⟨-, hpushed⟩ | hbefore := Config.active_of_replace htop hactive
      · cases pushes_of_exec hexec _ hpushed
        exact absurd rfl hnew
      · exact ⟨(hconnections.connecting t' n hbefore).1, .inr ⟨t', hbefore⟩⟩

theorem CloseOrdered.kept {n : Nat} (h : CloseOrdered c n) (hconnections : Connections c)
    (hstep : client.Step c t i c') (hholds : Holds c' n) : CloseOrdered c' n := by
  refine (h.step hstep).resolve_right ?_
  rintro ⟨hi, hlost⟩
  obtain hstate | ⟨t', hactive⟩ := hholds.2
  · exact hlost hstate
  · obtain @⟨rest, x, s, pushed, htop, hexec⟩ := hstep
    obtain ⟨-, hpushed⟩ | hbefore := Config.active_of_replace htop hactive
    · cases pushes_of_exec hexec _ hpushed
      simp at hi
    · obtain ⟨hloop, -⟩ := hconnections.link_of_chained htop hexec hbefore trivial (by
        rintro rfl
        simp at hi)
      obtain rfl | rfl := hi <;> exact hloop trivial

theorem Single.wanted_step (h : Single c) (hok : KeepsConsistent c t i)
    (hstep : client.Step c t i c') (hstopping : c'.shared.net.stopping = false)
    (hdesired : c'.shared.net.desiredConnected = false) {n : Nat} (hholds : Holds c' n) :
    CloseOrdered c' n ∨ StopAhead c' := by
  have hbefore := stopping_of_step hstep hstopping
  have hkept : StopAhead c → (StopAhead c' ∨ ∀ n, c.shared.net.connection = some n →
      CloseOrdered c' n) := fun hstop => hstop.step hstep
  obtain @⟨rest, x, s, pushed, htop, hexec⟩ := id hstep
  obtain hundesired | hpushed | htrue := exec_undesired hexec hdesired
  · obtain rfl | hheld := hholds.of_step h.toConnections hstep
    · obtain hwanted | ⟨t', hstop⟩ := hok.2
      · rw [hundesired] at hwanted
        cases hwanted
      · exact .inr ⟨t', Config.active_replace_of_ne htop s pushed hstop (by simp)⟩
    · obtain hclose | hstop := h.wanted hbefore hundesired n hheld
      · exact .inl (hclose.kept h.toConnections hstep hholds)
      · obtain hstop | hclose := hkept hstop
        · exact .inr hstop
        · exact .inl (hclose n hheld.1)
  · exact .inr ⟨t, Config.active_replace_of_pushed htop s hpushed⟩
  · rw [Config.shared_replace, htrue] at hstopping
    cases hstopping

end Step

theorem Single.step {c c' : ClientConfig} {t : Nat} {i : Instr} (h : Single c)
    (hok : KeepsConsistent c t i) (hstep : client.Step c t i c') : Single c' where
  toTracked := h.toTracked.step hok.established hstep
  single := fun hstopping _ hn hstate => h.single_step hok hstep hstopping hn hstate
  wanted := fun hstopping hdesired _ hholds => h.wanted_step hok hstep hstopping hdesired hholds

theorem Single.init (timerThreads users : Nat) : Single (init timerThreads users) where
  toTracked := .init timerThreads users
  single := by
    intro _ n hn
    cases hn
  wanted := by
    rintro _ _ n ⟨hheld, -⟩
    cases hheld

theorem quiescent_of_stacks {c : ClientConfig}
    (hidle : c.All fun i => i = .loop .loop ∨ i = .loop .timerService ∨ i = .call .userCode)
    (hfunctors : c.shared.loop.pendingFunctors = []) : Quiescent c :=
  ⟨fun _ _ hactive => hidle.of_active hactive, hfunctors⟩

def connectedClient : ClientConfig :=
  client.follow (init 1 1)
    ((2, Choice.operation (.connect 1000)) :: List.replicate 5 (2, .next) ++
      [(0, Choice.poll []), (0, .next), (0, .connectResult .connected)] ++
      List.replicate 6 (0, Choice.next) ++ [(0, Choice.order []), (2, .next)])

end UnixNotes.Rpc.Client
