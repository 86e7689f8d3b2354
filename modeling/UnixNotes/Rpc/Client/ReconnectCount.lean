import UnixNotes.Library.Counter
import UnixNotes.Library.Logged
import UnixNotes.Rpc.Client.ConnectionState

namespace UnixNotes.Rpc.Client

open Library

/-- `startConnectIfNeeded(Reconnecting)` is called, or a handler announces that it will be. -/
inductive ReconnectEvent where
  | attempt
  | announcement
  deriving DecidableEq

def mayRetry (call : Call) : Bool := isWaiting call && !isRetryExhausted call

/-- A loss of the connection is announced while the connection is wanted, and a connection error when
it leaves a call that may try again. -/
def reconnectEvents (i : Instr) (s _ : State) (_ : List Instr) : List ReconnectEvent :=
  match i with
  | .net .reconnectTimer =>
    if s.net.desiredConnected = false ∨ s.net.stopping then [] else [.attempt]
  | .net (.onConnection n) =>
    if (s.net.connections n).state ≠ .kConnected ∧ s.net.desiredConnected ∧ ¬s.net.stopping then
      [.announcement]
    else []
  | .call (.expireRetryExhaustedPending _) =>
    if s.calls.select mayRetry = [] then [] else [.announcement]
  | _ => []

def reconnectToken : Instr → Nat
  | .net (.updateConnectionState state) => if state = .reconnecting then 1 else 0
  | .net .countReconnect => 1
  | _ => 0

def updates : Instr → Bool
  | .net .reconnectTimer | .net (.onConnection _) | .net (.updateConnectionState _)
  | .call (.expireRetryExhaustedPending _) => true
  | _ => false

section Exec

variable {t : Nat} {x : Choice} {s s' : State} {i : Instr} {pushed : List Instr}

theorem updates_of_pushes {j : Instr} (h : Pushes t s i j) (hj : reconnectToken j ≠ 0) :
    updates i = true := by
  cases h
  all_goals first
    | rfl
    | exact absurd rfl hj

theorem weigh_reconnectToken_eq_zero (h : i.exec t x s = some (s', pushed))
    (hi : updates i = false) : Config.weigh reconnectToken pushed = 0 := by
  refine Config.weigh_eq_zero fun j hj => ?_
  by_contra htoken
  rw [updates_of_pushes (pushes_of_exec h j hj) htoken] at hi
  cases hi

theorem reconnectCount_of_exec (h : i.exec t x s = some (s', pushed))
    (hi : i ≠ .net .countReconnect) : s'.net.reconnectCount = s.net.reconnectCount := by
  obtain hsame | ⟨i, net, rfl, hexec, rfl⟩ := net_of_exec h
  · rw [hsame]
  · cases i
    case countReconnect => exact absurd rfl hi
    all_goals
      simp only [NetInstr.exec] at hexec
      (repeat' split at hexec) <;> cases hexec <;> rfl

theorem weigh_completeEach_reconnect (calls : CallTable) (ks : List Nat) (errorCode : RpcErrorCode)
    (errorMessage : ByteString) :
    Config.weigh reconnectToken (calls.completeEach ks errorCode errorMessage) = 0 := by
  refine Config.weigh_eq_zero fun i hi => ?_
  obtain ⟨k, -, rfl⟩ := List.mem_map.mp hi
  rfl

theorem filter_isWaiting_eq {calls : CallTable} {ks : List Nat}
    (hperm : ks.Perm (calls.select isRetryExhausted)) :
    (calls.select isWaiting).filter (fun k => k ∉ ks) = calls.select mayRetry := by
  rw [CallTable.select, CallTable.select, List.filter_filter]
  refine List.filter_congr fun k hk => ?_
  have hmem := hperm.mem_iff (a := k)
  rw [CallTable.select, List.mem_filter] at hmem
  rw [mayRetry, Bool.and_comm]
  congr 1
  cases hexhausted : isRetryExhausted (calls.call k) <;> simp [hmem, hk, hexhausted]

theorem weigh_updateConnectionState (state : ConnectionState) (callback : Bool) :
    Config.weigh reconnectToken ((if callback then [.call .userCode] else []) ++
      if state = .reconnecting then [.net .countReconnect] else []) =
        reconnectToken (.net (.updateConnectionState state)) := by
  cases callback <;> cases state <;> rfl

theorem weigh_reconnectTimer (h : (Instr.net .reconnectTimer).exec t x s = some (s', pushed)) :
    Config.weigh reconnectToken pushed =
      (reconnectEvents (.net .reconnectTimer) s s' pushed).length := by
  simp only [Instr.exec, NetInstr.exec] at h
  split at h <;> rename_i hwanted <;> cases h
  · simp only [reconnectEvents, if_pos hwanted]
    rfl
  · simp only [reconnectEvents, if_neg hwanted]
    rfl

theorem weigh_onConnection {n : Nat}
    (h : (Instr.net (.onConnection n)).exec t x s = some (s', pushed)) :
    Config.weigh reconnectToken pushed =
      (reconnectEvents (.net (.onConnection n)) s s' pushed).length := by
  simp only [Instr.exec, NetInstr.exec] at h
  split at h <;> rename_i hstate <;> cases h
  · simp [reconnectEvents, hstate, reconnectToken]
  · simp only [reconnectEvents, ne_eq, hstate, not_false_eq_true, true_and]
    split <;> rfl

theorem weigh_expireRetryExhaustedPending {message : ByteString}
    (h : (Instr.call (.expireRetryExhaustedPending message)).exec t x s = some (s', pushed)) :
    Config.weigh reconnectToken pushed =
      (reconnectEvents (.call (.expireRetryExhaustedPending message)) s s' pushed).length := by
  simp only [Instr.exec, CallInstr.exec] at h
  split at h
  · split at h <;> cases h
    rename_i hperm
    rw [Config.weigh_append, weigh_completeEach_reconnect, filter_isWaiting_eq hperm,
      reconnectEvents]
    cases s.calls.select mayRetry <;> rfl
  · cases h

theorem weigh_reconnectToken (h : i.exec t x s = some (s', pushed))
    (hi : i ≠ .net .countReconnect) : Config.weigh reconnectToken pushed =
      reconnectToken i + (reconnectEvents i s s' pushed).length := by
  cases i with
  | net i =>
    cases i with
    | reconnectTimer => exact (weigh_reconnectTimer h).trans (Nat.zero_add _).symm
    | onConnection n => exact (weigh_onConnection h).trans (Nat.zero_add _).symm
    | updateConnectionState state =>
      cases h
      exact weigh_updateConnectionState state s.net.stateCallback
    | countReconnect => exact absurd rfl hi
    | _ => exact weigh_reconnectToken_eq_zero h rfl
  | call i =>
    cases i with
    | expireRetryExhaustedPending message =>
      exact (weigh_expireRetryExhaustedPending h).trans (Nat.zero_add _).symm
    | _ => exact weigh_reconnectToken_eq_zero h rfl
  | loop i => exact weigh_reconnectToken_eq_zero h rfl
  | armDeadline k => exact weigh_reconnectToken_eq_zero h rfl

end Exec

abbrev reconnectLog : Machine (Logged State ReconnectEvent) Instr Choice :=
  client.logged reconnectEvents

abbrev ReconnectConfig := Config (Logged State ReconnectEvent) Instr

def reconnectInit (timerThreads users : Nat) : ReconnectConfig :=
  ⟨⟨{}, []⟩, (init timerThreads users).threads⟩

def uncounted (c : ReconnectConfig) : Nat := c.base.total reconnectToken

theorem reconnectCount_step {c c' : ReconnectConfig} {t : Nat} {i : Instr}
    (h : c.base.shared.net.reconnectCount + UInt64.ofNat (uncounted c) =
      UInt64.ofNat c.shared.log.length) (hstep : reconnectLog.Step c t i c') :
    c'.base.shared.net.reconnectCount + UInt64.ofNat (uncounted c') =
      UInt64.ofNat c'.shared.log.length := by
  obtain ⟨rest, x, pushed, htop, hexec, hc', hlog⟩ := hstep.of_logged
  have htotal := Config.total_replace reconnectToken htop c'.base.shared pushed
  rw [← hc'] at htotal
  by_cases hi : i = .net .countReconnect
  · subst hi
    obtain ⟨hshared, rfl⟩ := Prod.mk.inj (Option.some.inj hexec)
    have hcount : c'.base.shared.net.reconnectCount = c.base.shared.net.reconnectCount + 1 := by
      rw [← hshared]
    have htokens : uncounted c = 1 + uncounted c' := by
      change uncounted c' + 1 = uncounted c + 0 at htotal
      omega
    rw [hlog, hcount, UInt64.add_assoc]
    rw [htokens, UInt64.ofNat_add] at h
    exact h
  · have hweigh := weigh_reconnectToken hexec hi
    rw [hlog, List.length_append, reconnectCount_of_exec hexec hi]
    have htokens : uncounted c' = (reconnectEvents i c.base.shared c'.base.shared pushed).length +
        uncounted c := by
      simp only [uncounted]
      omega
    rw [htokens, UInt64.ofNat_add, UInt64.ofNat_add, ← h]
    exact add_left_comm ..

theorem length_eq_count (log : List ReconnectEvent) :
    log.length = log.count .attempt + log.count .announcement := by
  induction log with
  | nil => rfl
  | cons event log ih => cases event <;> simp [ih] <;> omega

/-- The counter counts the announcements too: it is the number of attempts when there are none, or
so many that it has come around. -/
theorem reconnectCount_eq_attempts_iff {timerThreads users : Nat} {c : ReconnectConfig}
    (hrun : reconnectLog.Reaches (reconnectInit timerThreads users) c) :
    c.base.shared.net.reconnectCount + UInt64.ofNat (uncounted c) =
      UInt64.ofNat (c.shared.log.count .attempt) ↔
        2 ^ 64 ∣ c.shared.log.count .announcement := by
  have hinit : uncounted (reconnectInit timerThreads users) = 0 := total_init rfl rfl rfl
  have hstart : (reconnectInit timerThreads users).base.shared.net.reconnectCount +
      UInt64.ofNat (uncounted (reconnectInit timerThreads users)) =
        UInt64.ofNat (reconnectInit timerThreads users).shared.log.length := by
    rw [hinit]
    rfl
  have hall : c.base.shared.net.reconnectCount + UInt64.ofNat (uncounted c) =
      UInt64.ofNat c.shared.log.length :=
    hrun.invariant hstart fun h _ hstep => reconnectCount_step h hstep
  rw [hall, length_eq_count, UInt64.ofNat_add, add_eq_left, UInt64.ofNat_eq_iff_mod_eq_toNat]
  exact Nat.dvd_iff_mod_eq_zero.symm

/-- A queued call starts an attempt that fails, and the timer starts the second one. -/
def secondAttempt : ReconnectConfig :=
  reconnectLog.follow (reconnectInit 1 1)
    ((2, Choice.operation (.callAsync {} { failFast := false } false)) ::
        List.replicate 10 (2, .next) ++
      [(0, Choice.poll []), (0, .next), (0, .connectResult (.noSocket ⟨24, []⟩)), (0, .next),
        (0, .order [])] ++ List.replicate 5 (0, Choice.next) ++
      [(1, Choice.tick 100), (1, .submitTimer 2), (1, .runTimer 2), (1, .next), (1, .next),
        (0, .poll [])] ++ List.replicate 5 (0, Choice.next) ++
      [(0, Choice.connectResult .inProgress)])

theorem reconnectCount_eq_attempts_iff_second :
    secondAttempt.base.shared.net.reconnectCount + UInt64.ofNat (uncounted secondAttempt) =
      UInt64.ofNat (secondAttempt.shared.log.count .attempt) ↔
        2 ^ 64 ∣ secondAttempt.shared.log.count .announcement :=
  reconnectCount_eq_attempts_iff (Machine.reaches_follow (c := reconnectInit 1 1) _)

theorem attempt_counted_twice :
    reconnectLog.Reaches (reconnectInit 1 1) secondAttempt ∧ Quiescent secondAttempt.base ∧
      secondAttempt.base.shared.net.reconnectCount = 2 ∧
      secondAttempt.shared.log.count .attempt = 1 :=
  ⟨Machine.reaches_follow _, quiescent_of_stacks (by decide) (by decide), by decide, by decide⟩

end UnixNotes.Rpc.Client
