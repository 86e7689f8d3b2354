import UnixNotes.Rpc.Client.Timers

namespace UnixNotes.Rpc.Client

open Library

structure Link where
  connectorState : ConnectorState
  callbacks : Bool
  connection : Option Nat
  connectionCount : Nat
  connections : Nat → TcpConnection

def Net.link (net : Net) : Link where
  connectorState := net.connector.state
  callbacks := net.connector.callbacks
  connection := net.connection
  connectionCount := net.connectionCount
  connections := net.connections

theorem established_congr {net net' : Net} (h : net'.link = net.link) :
    net'.Established ↔ net.Established := by
  have hconnection : net'.connection = net.connection := congrArg Link.connection h
  have hconnections : net'.connections = net.connections := congrArg Link.connections h
  rw [Net.Established, Net.Established, hconnection, hconnections]

section Exec

variable {t : Nat} {x : Choice} {s s' : State} {i : Instr} {pushed : List Instr}

theorem net_of_exec (h : i.exec t x s = some (s', pushed)) :
    s'.net = s.net ∨
      ∃ i' net, i = .net i' ∧ i'.exec t x s = some (net, pushed) ∧ s' = { s with net := net } := by
  cases i with
  | call i | loop i =>
    obtain ⟨r, -, heq⟩ := Option.map_eq_some_iff.mp h
    cases heq
    exact .inl rfl
  | net i =>
    obtain ⟨⟨net, pushed⟩, hexec, heq⟩ := Option.map_eq_some_iff.mp h
    cases heq
    exact .inr ⟨i, net, rfl, hexec, rfl⟩
  | armDeadline k =>
    cases h
    exact .inl rfl

theorem exec_link (h : i.exec t x s = some (s', pushed)) (hi : ¬LoopOnly i) :
    s'.net.link = s.net.link := by
  obtain hsame | ⟨i, net, rfl, hexec, rfl⟩ := net_of_exec h
  · rw [hsame]
  · cases i
    all_goals first | exact absurd trivial hi | skip
    all_goals
      simp only [NetInstr.exec] at hexec
      (repeat' split at hexec) <;> cases hexec <;> rfl

theorem exec_stopping (h : i.exec t x s = some (s', pushed)) :
    s'.net.stopping = s.net.stopping ∨ i = .net .destroy ∧ s'.net.stopping = true := by
  obtain hsame | ⟨i, net, rfl, hexec, rfl⟩ := net_of_exec h
  · rw [hsame]
    exact .inl rfl
  · cases i
    case destroy =>
      cases hexec
      exact .inr ⟨rfl, rfl⟩
    all_goals
      refine .inl ?_
      simp only [NetInstr.exec] at hexec
      (repeat' split at hexec) <;> cases hexec <;> rfl

inductive SocketStep (net net' : Net) (n : Nat) : NetInstr → Prop
  | keep {j} (state : (net'.connections n).state = (net.connections n).state) :
    SocketStep net net' n j
  | connecting (fresh : n = net.connectionCount)
      (state : (net'.connections n).state = .kConnecting) : SocketStep net net' n .newConnection
  | connected (state : (net'.connections n).state = .kConnected) :
    SocketStep net net' n (.connectEstablished n)
  | closed (state : (net'.connections n).state = .kDisconnected) :
    SocketStep net net' n (.handleClose n)
  | destroyed (state : (net'.connections n).state = .kDisconnected) :
    SocketStep net net' n (.connectDestroyed n)
  | dropped (state : (net'.connections n).state = .kDisconnected) :
    SocketStep net net' n .dropConnection

theorem setConnection_self (net : Net) (n : Nat) (connection : TcpConnection) :
    (net.setConnection n connection).connections n = connection := by
  simp [Net.setConnection]

theorem setConnection_ne (net : Net) {n m : Nat} (connection : TcpConnection) (h : m ≠ n) :
    (net.setConnection n connection).connections m = net.connections m := by
  simp [Net.setConnection, h]

theorem setSocketState_self (net : Net) (n : Nat) (state : SocketState) :
    ((net.setSocketState n state).connections n).state = state := by
  simp [Net.setSocketState, Net.setConnection]

theorem setSocketState_ne (net : Net) {n m : Nat} (state : SocketState) (h : m ≠ n) :
    (net.setSocketState n state).connections m = net.connections m :=
  setConnection_ne net _ h

theorem socketStep_of_exec {i : NetInstr} {net : Net} (h : i.exec t x s = some (net, pushed))
    (n : Nat) : SocketStep s.net net n i := by
  cases i
  case newConnection =>
    cases h
    by_cases hn : n = s.net.connectionCount
    · subst hn
      exact .connecting rfl (by rw [setConnection_self])
    · exact .keep (by rw [setConnection_ne _ _ hn])
  case connectEstablished m =>
    cases h
    by_cases hn : n = m
    · subst hn
      exact .connected (setSocketState_self ..)
    · exact .keep (by rw [setSocketState_ne _ _ hn])
  case handleRead m bytes eof =>
    cases h
    by_cases hn : n = m
    · subst hn
      exact .keep (by rw [setConnection_self])
    · exact .keep (by rw [setConnection_ne _ _ hn])
  case onMessage m =>
    simp only [NetInstr.exec] at h
    split at h <;> cases h
    · exact .keep rfl
    · exact .keep rfl
    · by_cases hn : n = m
      · subst hn
        exact .keep (by rw [setConnection_self])
      · exact .keep (by rw [setConnection_ne _ _ hn])
  case handleClose m =>
    simp only [NetInstr.exec] at h
    split at h <;> cases h
    · exact .keep rfl
    all_goals
      by_cases hn : n = m
      · subst hn
        exact .closed (setSocketState_self ..)
      · exact .keep (by rw [setSocketState_ne _ _ hn])
  case connectDestroyed m =>
    cases h
    by_cases hn : n = m
    · subst hn
      exact .destroyed (setSocketState_self ..)
    · exact .keep (by rw [setSocketState_ne _ _ hn])
  case dropConnection =>
    simp only [NetInstr.exec] at h
    split at h <;> cases h
    · exact .keep rfl
    · rename_i m _
      by_cases hn : n = m
      · subst hn
        exact .dropped (by rw [setConnection_self])
      · exact .keep (by rw [setConnection_ne _ _ hn])
  all_goals
    simp only [NetInstr.exec] at h
    (repeat' split at h) <;> cases h <;> exact .keep rfl

inductive HeldStep (net net' : Net) : NetInstr → Prop
  | keep {j} (connection : net'.connection = net.connection)
      (count : net'.connectionCount = net.connectionCount) : HeldStep net net' j
  | hold (connection : net'.connection = some net.connectionCount)
      (count : net'.connectionCount = net.connectionCount + 1) : HeldStep net net' .newConnection
  | remove {n} (held : net.connection = some n) (connection : net'.connection = none)
      (count : net'.connectionCount = net.connectionCount) :
    HeldStep net net' (.removeConnection n)
  | drop (connection : net'.connection = none)
      (count : net'.connectionCount = net.connectionCount) : HeldStep net net' .dropConnection

theorem heldStep_of_exec {i : NetInstr} {net : Net} (h : i.exec t x s = some (net, pushed)) :
    HeldStep s.net net i := by
  cases i
  case newConnection =>
    cases h
    exact .hold rfl rfl
  case removeConnection n =>
    cases h
    by_cases hn : s.net.connection = some n
    · exact .remove hn (if_pos hn) rfl
    · exact .keep (if_neg hn) rfl
  case dropConnection =>
    simp only [NetInstr.exec] at h
    split at h <;> cases h
    · exact .keep rfl rfl
    · exact .drop rfl rfl
  all_goals
    simp only [NetInstr.exec] at h
    (repeat' split at h) <;> cases h <;> exact .keep rfl rfl

end Exec

def StopOnly : Instr → Prop
  | .loop .destroyInLoop | .loop (.queueInLoop (.destroyTcpClient _)) => True
  | .net .resetTcpClient | .net .dropConnection => True
  | _ => False

structure Running (c : ClientConfig) : Prop where
  active : ∀ t i, c.Active t i → ¬StopOnly i
  queued : ∀ m, .destroyTcpClient m ∉ c.shared.loop.pendingFunctors
  connector : c.shared.net.connector.callbacks = true
  connections : ∀ n, (c.shared.net.connections n).callbacks = true

theorem pushes_stopOnly {t : Nat} {s : State} {i j : Instr} (h : Pushes t s i j)
    (htimers : ∀ id, (s.loop.timers id).functor = .reconnectTimer ∨
      ∃ requestId, (s.loop.timers id).functor = .onDeadline requestId)
    (hj : StopOnly j) :
    i = .net .destroy ∨ StopOnly i ∨ ∃ m, .destroyTcpClient m ∈ s.loop.pendingFunctors := by
  cases h
  case runTimer id hphase =>
    obtain hfunctor | ⟨requestId, hfunctor⟩ := htimers id
    · rw [hfunctor] at hj
      exact hj.elim
    · rw [hfunctor] at hj
      exact hj.elim
  case runDestroyReset m hmem => exact .inr (.inr ⟨m, hmem⟩)
  all_goals first | exact hj.elim | exact .inl rfl | exact .inr (.inl trivial)

theorem exec_callbacks {t : Nat} {x : Choice} {s s' : State} {i : Instr} {pushed : List Instr}
    (h : i.exec t x s = some (s', pushed)) (hi : ¬StopOnly i)
    (hconnector : s.net.connector.callbacks = true)
    (hconnections : ∀ n, (s.net.connections n).callbacks = true) :
    s'.net.connector.callbacks = true ∧ ∀ n, (s'.net.connections n).callbacks = true := by
  have hset : ∀ (net : Net) n connection, (∀ m, (net.connections m).callbacks = true) →
      connection.callbacks = true →
        ∀ m, ((net.setConnection n connection).connections m).callbacks = true := by
    intro net n connection hnet hconnection m
    by_cases hm : m = n
    · subst hm
      rwa [setConnection_self]
    · rw [setConnection_ne _ _ hm]
      exact hnet m
  obtain hsame | ⟨i, net, rfl, hexec, rfl⟩ := net_of_exec h
  · rw [hsame]
    exact ⟨hconnector, hconnections⟩
  · cases i
    case resetTcpClient | dropConnection => exact absurd trivial hi
    case onMessage n =>
      simp only [NetInstr.exec] at hexec
      split at hexec <;> cases hexec
      · exact ⟨hconnector, hconnections⟩
      · exact ⟨hconnector, hconnections⟩
      · exact ⟨hconnector, hset _ _ _ hconnections (hconnections n)⟩
    case newConnection =>
      cases hexec
      exact ⟨hconnector, hset _ _ _ hconnections rfl⟩
    case handleRead n _ _ | connectEstablished n | connectDestroyed n =>
      cases hexec
      exact ⟨hconnector, hset _ _ _ hconnections (hconnections n)⟩
    case handleClose n =>
      simp only [NetInstr.exec] at hexec
      split at hexec <;> cases hexec
      · exact ⟨hconnector, hconnections⟩
      all_goals exact ⟨hconnector, hset _ _ _ hconnections (hconnections n)⟩
    all_goals
      simp only [NetInstr.exec] at hexec
      (repeat' split at hexec) <;> cases hexec <;> exact ⟨hconnector, hconnections⟩

theorem Running.step {c c' : ClientConfig} {t : Nat} {i : Instr} (h : Running c)
    (hvalid : TimersValid c) (hstep : client.Step c t i c')
    (hstopping : c'.shared.net.stopping = false) : Running c' := by
  obtain @⟨rest, x, s, pushed, htop, hexec⟩ := hstep
  have hactive := Config.active_of_top htop
  have hi := h.active t i hactive
  have hdestroy : i ≠ .net .destroy := by
    rintro rfl
    cases hexec
    cases hstopping
  obtain ⟨hconnector, hconnections⟩ := exec_callbacks hexec hi h.connector h.connections
  refine ⟨?_, ?_, hconnector, hconnections⟩
  · intro t' j hj hstop
    obtain ⟨-, hpushed⟩ | hbefore := Config.active_of_replace htop hj
    · obtain heq | hi' | ⟨m, hmem⟩ :=
        pushes_stopOnly (pushes_of_exec hexec j hpushed) hvalid.functor hstop
      · exact hdestroy heq
      · exact hi hi'
      · exact h.queued m hmem
    · exact h.active t' j hbefore hstop
  · intro m hmem
    rw [Config.shared_replace] at hmem
    obtain hsame | ⟨-, hempty⟩ | ⟨functor, rfl, happend⟩ := exec_pendingFunctors hexec
    · rw [hsame] at hmem
      exact h.queued m hmem
    · rw [hempty] at hmem
      cases hmem
    · rw [happend, List.mem_append, List.mem_singleton] at hmem
      obtain hmem | rfl := hmem
      · exact h.queued m hmem
      · exact hi trivial

def Chained : Instr → Prop
  | .net .connected | .net (.reportError _) | .net (.onConnectionError _) => True
  | .net .newConnection | .net (.connectEstablished _) | .net (.onConnection _) => True
  | .net (.updateConnectionState state) => state = .connected
  | .net (.removeConnection _) | .call (.expireRetryExhaustedPending _) => True
  | _ => False

theorem Chained.loopOnly {i : Instr} (h : Chained i) : LoopOnly i := by
  unfold Chained at h
  split at h
  all_goals trivial

theorem net_tail {t : Nat} {x : Choice} {s : State} {i : NetInstr} {net : Net}
    {pushed : List Instr} (h : i.exec t x s = some (net, pushed)) :
    ∀ j ∈ pushed.tail, ¬Chained j := by
  intro j hj hchained
  cases net_pushes h j (List.mem_of_mem_tail hj) <;> cases hchained
  all_goals
    simp only [NetInstr.exec] at h
    (repeat' split at h) <;> cases h <;> simp at hj

theorem exec_tail {t : Nat} {x : Choice} {s s' : State} {i : Instr} {pushed : List Instr}
    (h : i.exec t x s = some (s', pushed)) : ∀ j ∈ pushed.tail, ¬Chained j := by
  cases i with
  | net i =>
    obtain ⟨⟨net, pushed⟩, hexec, heq⟩ := Option.map_eq_some_iff.mp h
    cases heq
    exact net_tail hexec
  | call i | loop i | armDeadline k =>
    intro j hj
    cases pushes_of_exec h j (List.mem_of_mem_tail hj) <;> simp [Chained]

structure Connections (c : ClientConfig) : Prop extends TimersValid c where
  bound : LoopBound c
  head : c.HeadOnly Chained
  running : c.shared.net.stopping = false → Running c
  connecting : ∀ t n, c.Active t (.net (.connectEstablished n)) →
    c.shared.net.connection = some n ∧ (c.shared.net.connections n).state = .kConnecting
  changed : ∀ t n, c.Active t (.net (.onConnection n)) →
    (c.shared.net.connections n).state = .kDisconnected ∨
      c.shared.net.connection = some n ∧ (c.shared.net.connections n).state = .kConnected
  removing : ∀ t n, c.Active t (.net (.removeConnection n)) →
    (c.shared.net.connections n).state = .kDisconnected
  updating : ∀ t, c.Active t (.net (.updateConnectionState .connected)) →
    c.shared.net.Established

section Step

variable {c : ClientConfig} {t : Nat} {i : Instr} {rest : List Instr} {x : Choice} {s : State}
  {pushed : List Instr} (h : Connections c) (htop : c.stack t = i :: rest)
  (hexec : i.exec t x c.shared = some (s, pushed))
include h htop hexec

theorem Connections.chained_kept {t' : Nat} {j : Instr}
    (hactive : (c.replace t s (pushed ++ rest)).Active t' j) (hj : Chained j)
    (hpushed : j ∉ pushed) : c.Active t' j ∧ s.net.link = c.shared.net.link := by
  have hbefore := (Config.active_of_replace htop hactive).resolve_left fun hp => hpushed hp.2
  refine ⟨hbefore, exec_link hexec fun hi => ?_⟩
  obtain rfl := h.bound t i (Config.active_of_top htop) hi
  obtain rfl := h.bound t' j hbefore hj.loopOnly
  rw [Config.Active, Config.stack_replace_self htop, List.mem_append] at hactive
  refine h.head 0 j ?_ hj
  rw [htop, List.tail_cons]
  exact hactive.resolve_left hpushed

theorem Connections.connecting_step {t' n : Nat}
    (hactive : (c.replace t s (pushed ++ rest)).Active t' (.net (.connectEstablished n))) :
    s.net.connection = some n ∧ (s.net.connections n).state = .kConnecting := by
  by_cases hpushed : .net (.connectEstablished n) ∈ pushed
  · cases pushes_of_exec hexec _ hpushed
    cases hexec
    exact ⟨rfl, by rw [setConnection_self]⟩
  · obtain ⟨hbefore, hlink⟩ := h.chained_kept htop hexec hactive trivial hpushed
    have hconnection : s.net.connection = c.shared.net.connection := congrArg Link.connection hlink
    have hconnections : s.net.connections = c.shared.net.connections :=
      congrArg Link.connections hlink
    rw [hconnection, hconnections]
    exact h.connecting t' n hbefore

theorem Connections.changed_step {t' n : Nat}
    (hactive : (c.replace t s (pushed ++ rest)).Active t' (.net (.onConnection n))) :
    (s.net.connections n).state = .kDisconnected ∨
      s.net.connection = some n ∧ (s.net.connections n).state = .kConnected := by
  by_cases hpushed : .net (.onConnection n) ∈ pushed
  · cases pushes_of_exec hexec _ hpushed with
    | established =>
      have hheld := (h.connecting t n (Config.active_of_top htop)).1
      cases hexec
      exact .inr ⟨hheld, setSocketState_self ..⟩
    | destroyed =>
      cases hexec
      exact .inl (setSocketState_self ..)
  · obtain ⟨hbefore, hlink⟩ := h.chained_kept htop hexec hactive trivial hpushed
    have hconnection : s.net.connection = c.shared.net.connection := congrArg Link.connection hlink
    have hconnections : s.net.connections = c.shared.net.connections :=
      congrArg Link.connections hlink
    rw [hconnection, hconnections]
    exact h.changed t' n hbefore

theorem Connections.removing_step {t' n : Nat}
    (hactive : (c.replace t s (pushed ++ rest)).Active t' (.net (.removeConnection n))) :
    (s.net.connections n).state = .kDisconnected := by
  by_cases hpushed : .net (.removeConnection n) ∈ pushed
  · cases pushes_of_exec hexec _ hpushed with
    | removeConnection =>
      obtain ⟨⟨net, pushed⟩, hclose, heq⟩ := Option.map_eq_some_iff.mp hexec
      cases heq
      simp only [NetInstr.exec] at hclose
      split at hclose <;> cases hclose
      · cases hpushed
      all_goals exact setSocketState_self ..
  · obtain ⟨hbefore, hlink⟩ := h.chained_kept htop hexec hactive trivial hpushed
    have hconnections : s.net.connections = c.shared.net.connections :=
      congrArg Link.connections hlink
    rw [hconnections]
    exact h.removing t' n hbefore

theorem Connections.updating_step {t' : Nat}
    (hactive : (c.replace t s (pushed ++ rest)).Active t'
      (.net (.updateConnectionState .connected))) : s.net.Established := by
  by_cases hpushed : .net (.updateConnectionState .connected) ∈ pushed
  · cases pushes_of_exec hexec _ hpushed with
    | @onConnected n hstate =>
      obtain hdisconnected | ⟨hheld, -⟩ := h.changed t n (Config.active_of_top htop)
      · rw [hstate] at hdisconnected
        cases hdisconnected
      · obtain ⟨⟨net, pushed⟩, hchange, heq⟩ := Option.map_eq_some_iff.mp hexec
        cases heq
        simp only [NetInstr.exec, if_pos hstate] at hchange
        cases hchange
        exact ⟨n, hheld, hstate⟩
  · obtain ⟨hbefore, hlink⟩ := h.chained_kept htop hexec hactive rfl hpushed
    exact (established_congr hlink).mpr (h.updating t' hbefore)

end Step

theorem Connections.step {c c' : ClientConfig} {t : Nat} {i : Instr} (h : Connections c)
    (hstep : client.Step c t i c') : Connections c' := by
  have hvalid := h.toTimersValid.step hstep
  have hbound := h.bound.step hstep
  have hrunning : c'.shared.net.stopping = false → Running c' := by
    intro hstopping
    refine (h.running ?_).step h.toTimersValid hstep hstopping
    obtain @⟨rest, x, s, pushed, htop, hexec⟩ := hstep
    obtain hsame | ⟨-, htrue⟩ := exec_stopping hexec
    · rw [← hsame]
      exact hstopping
    · rw [Config.shared_replace, htrue] at hstopping
      cases hstopping
  obtain @⟨rest, x, s, pushed, htop, hexec⟩ := hstep
  exact { hvalid with
    bound := hbound
    head := h.head.replace htop (exec_tail hexec)
    running := hrunning
    connecting := fun _ _ hactive => h.connecting_step htop hexec hactive
    changed := fun _ _ hactive => h.changed_step htop hexec hactive
    removing := fun _ _ hactive => h.removing_step htop hexec hactive
    updating := fun _ hactive => h.updating_step htop hexec hactive }

theorem init_loop_thread {timerThreads users t : Nat}
    (h : (init timerThreads users).Active t (.loop .loop)) : t = 0 := by
  cases t with
  | zero => rfl
  | succ t =>
    rw [Config.Active, Config.stack, List.getD] at h
    simp only [Client.init, List.getElem?_cons_succ] at h
    cases hget : (List.replicate timerThreads [Instr.loop .timerService] ++
        List.replicate users [Instr.call .userCode])[t]? with
    | none => simp [hget] at h
    | some stack =>
      rw [hget, Option.getD_some] at h
      obtain hmem | hmem := List.mem_append.mp (List.mem_of_getElem? hget) <;>
        · rw [List.eq_of_mem_replicate hmem] at h
          cases List.mem_singleton.mp h

theorem Connections.init (timerThreads users : Nat) : Connections (init timerThreads users) where
  toTimersValid := init_timersValid timerThreads users
  bound := by
    intro t i hactive hi
    obtain rfl | rfl | rfl := mem_init_stack hactive
    · exact init_loop_thread hactive
    all_goals exact hi.elim
  head := by
    intro t j hj
    obtain rfl | rfl | rfl := mem_init_stack (List.mem_of_mem_tail hj) <;> simp [Chained]
  running := by
    intro _
    refine ⟨?_, fun m => List.not_mem_nil, rfl, fun n => rfl⟩
    intro t i hactive
    obtain rfl | rfl | rfl := mem_init_stack hactive <;> simp [StopOnly]
  connecting := by
    intro t n hactive
    obtain h | h | h := mem_init_stack hactive <;> cases h
  changed := by
    intro t n hactive
    obtain h | h | h := mem_init_stack hactive <;> cases h
  removing := by
    intro t n hactive
    obtain h | h | h := mem_init_stack hactive <;> cases h
  updating := by
    intro t hactive
    obtain h | h | h := mem_init_stack hactive <;> cases h

end UnixNotes.Rpc.Client
