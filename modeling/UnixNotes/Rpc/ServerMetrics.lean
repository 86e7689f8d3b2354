import UnixNotes.Library.Counter
import UnixNotes.Rpc.ServerThreads

namespace UnixNotes.Rpc.Server

open Library

@[simp] def openToken : Instr → Nat
  | .checkSerializer _ | .findMethod _ | .countQueued _ | .tryPost _ | .sendError _ _ _
  | .recordResponse _ | .runTask _ | .encodeResponse _ | .encodeFallback _ | .taskThrew => 1
  | _ => 0

@[simp] def queuedToken : Instr → Nat
  | .tryPost _ | .uncountQueued | .runTask _ => 1
  | _ => 0

@[simp] def queueableToken : Instr → Nat
  | .checkSerializer _ | .findMethod _ | .countQueued _ => 1
  | _ => 0

@[simp] def rejectableToken : Instr → Nat
  | .checkSerializer _ | .findMethod _ | .countQueued _ | .tryPost _ | .countRejected => 1
  | _ => 0

@[simp] def rejectionToken : Instr → Nat
  | .countRejected => 1
  | _ => 0

@[simp] def errorCodeToken : Instr → Nat
  | .recordErrorCode _ => 1
  | _ => 0

@[simp] def serverErrorToken : Instr → Nat
  | .sendError _ errorCode _ => if errorCode = .serverError then 1 else 0
  | .recordResponse response | .recordErrorCode response =>
    if response.errorCode = RpcErrorCode.serverError.toInt32 then 1 else 0
  | _ => 0

/-- The requests between their `fetch_add` and their `fetch_sub` on `currentQueueSize_`. -/
def queuedRequests (c : ServerConfig) : Nat := c.shared.tasks.length + c.total queuedToken

structure Counted (c : ServerConfig) : Prop where
  received : c.shared.counters.totalRequests.toNat = c.shared.received
  outcome : c.shared.counters.totalRequests.toNat =
    c.shared.counters.successResponses.toNat + c.shared.counters.failedResponses.toNat +
      c.shared.tasks.length + c.total openToken
  queued : c.shared.counters.currentQueueSize.toNat = queuedRequests c
  queueable : queuedRequests c + c.total queueableToken ≤ c.shared.counters.totalRequests.toNat
  rejectable : c.shared.counters.queueRejected.toNat + c.total rejectableToken ≤
    c.shared.counters.totalRequests.toNat
  errorCodes : c.shared.counters.serverErrorResponses.toNat + c.total errorCodeToken ≤
    c.shared.counters.failedResponses.toNat
  rejections : c.shared.counters.queueRejected.toNat + c.total rejectionToken ≤
    c.shared.counters.serverErrorResponses.toNat + c.total serverErrorToken

/-- The counters that `i` adds to do not wrap around, and `currentQueueSize_` is not zero when it is
decremented. -/
structure Room (counters : ServerCounters) (i : Instr) : Prop where
  total : ∀ request, i = .handleRequest request → counters.totalRequests.toNat + 1 < 2 ^ 64
  queue : ∀ request, i = .countQueued request → counters.currentQueueSize.toNat + 1 < 2 ^ 64
  unqueue : i = .uncountQueued → 0 < counters.currentQueueSize.toNat
  rejected : i = .countRejected → counters.queueRejected.toNat + 1 < 2 ^ 64
  response : ∀ response, i = .recordResponse response →
    counters.successResponses.toNat + counters.failedResponses.toNat + 1 < 2 ^ 64
  errorCode : ∀ response, i = .recordErrorCode response →
    counters.serverErrorResponses.toNat + 1 < 2 ^ 64

structure Balanced (s : State) (i : Instr) (s' : State) (pushed : List Instr) : Prop where
  received : s'.counters.totalRequests.toNat + s.received =
    s.counters.totalRequests.toNat + s'.received
  outcome : s'.counters.successResponses.toNat + s'.counters.failedResponses.toNat +
      s'.tasks.length + Config.weigh openToken pushed + s.counters.totalRequests.toNat =
    s.counters.successResponses.toNat + s.counters.failedResponses.toNat + s.tasks.length +
      openToken i + s'.counters.totalRequests.toNat
  queued : s'.counters.currentQueueSize.toNat + s.tasks.length + queuedToken i =
    s.counters.currentQueueSize.toNat + s'.tasks.length + Config.weigh queuedToken pushed
  queueable : s'.tasks.length + Config.weigh queuedToken pushed +
      Config.weigh queueableToken pushed + s.counters.totalRequests.toNat ≤
    s.tasks.length + queuedToken i + queueableToken i + s'.counters.totalRequests.toNat
  rejectable : s'.counters.queueRejected.toNat + Config.weigh rejectableToken pushed +
      s.counters.totalRequests.toNat ≤
    s.counters.queueRejected.toNat + rejectableToken i + s'.counters.totalRequests.toNat
  errorCodes : s'.counters.serverErrorResponses.toNat + Config.weigh errorCodeToken pushed +
      s.counters.failedResponses.toNat ≤
    s.counters.serverErrorResponses.toNat + errorCodeToken i + s'.counters.failedResponses.toNat
  rejections : s'.counters.queueRejected.toNat + Config.weigh rejectionToken pushed +
      s.counters.serverErrorResponses.toNat + serverErrorToken i ≤
    s.counters.queueRejected.toNat + rejectionToken i +
      s'.counters.serverErrorResponses.toNat + Config.weigh serverErrorToken pushed

section Exec

variable {s s' : State} {i : Instr} {x : Choice} {pushed : List Instr}

theorem Balanced.of_tokens (hcounters : s'.counters = s.counters) (htasks : s'.tasks = s.tasks)
    (hreceived : s'.received = s.received)
    (hopen : Config.weigh openToken pushed = openToken i)
    (hqueued : Config.weigh queuedToken pushed = queuedToken i)
    (hqueueable : Config.weigh queueableToken pushed ≤ queueableToken i)
    (hrejectable : Config.weigh rejectableToken pushed ≤ rejectableToken i)
    (herrorCode : Config.weigh errorCodeToken pushed ≤ errorCodeToken i)
    (hrejection : Config.weigh rejectionToken pushed ≤ rejectionToken i)
    (hserverError : serverErrorToken i ≤ Config.weigh serverErrorToken pushed) :
    Balanced s i s' pushed := by
  constructor <;> rw [hcounters] <;> (try rw [htasks]) <;> omega

theorem weigh_messages {w : Instr → Nat} (hmessage : ∀ request, w (.handleRequest request) = 0)
    (hloop : w .eventLoop = 0) (requests : List RpcRequest) :
    Config.weigh w (requests.map Instr.handleRequest ++ [Instr.eventLoop]) = 0 := by
  refine Config.weigh_eq_zero fun j hj => ?_
  simp only [List.mem_append, List.mem_map, List.mem_singleton] at hj
  obtain ⟨request, -, rfl⟩ | rfl := hj
  · exact hmessage request
  · exact hloop

theorem messages_balanced (requests : List RpcRequest) :
    Balanced s .eventLoop s (requests.map Instr.handleRequest ++ [Instr.eventLoop]) :=
  .of_tokens rfl rfl rfl (weigh_messages (fun _ => rfl) rfl _) (weigh_messages (fun _ => rfl) rfl _)
    (Nat.le_of_eq (weigh_messages (fun _ => rfl) rfl _))
    (Nat.le_of_eq (weigh_messages (fun _ => rfl) rfl _))
    (Nat.le_of_eq (weigh_messages (fun _ => rfl) rfl _))
    (Nat.le_of_eq (weigh_messages (fun _ => rfl) rfl _)) (Nat.zero_le _)

theorem sendError_balanced (request : RpcRequest) (errorCode : RpcErrorCode)
    (errorMessage : ByteString) (micros : Int64) :
    Balanced s (.sendError request errorCode errorMessage) s
      [.recordResponse (errorReply request errorCode errorMessage micros),
        .sendEncoded (errorReply request errorCode errorMessage micros)] := by
  refine .of_tokens rfl rfl rfl rfl rfl (Nat.le_refl _) (Nat.le_refl _) (Nat.le_refl _)
    (Nat.le_refl _) ?_
  by_cases hcode : errorCode = .serverError
  · simp [errorReply, hcode]
  · simp [hcode]

theorem countResponse_balanced {response : RpcResponse}
    (hroom : s.counters.successResponses.toNat + s.counters.failedResponses.toNat + 1 < 2 ^ 64) :
    Balanced s (.recordResponse response)
      { s with counters := countResponse s.counters response }
      (if response.errorCode = 0 then [] else [.recordErrorCode response]) := by
  have hsuccess := toNat_succ (n := s.counters.successResponses) (by omega)
  have hfailed := toNat_succ (n := s.counters.failedResponses) (by omega)
  by_cases hok : response.errorCode = 0
  · have hcode : (0 : Int32) ≠ RpcErrorCode.serverError.toInt32 := by decide
    constructor <;> simp [countResponse, hok, hsuccess, hcode]
    omega
  · constructor <;> simp [countResponse, hok, hfailed] <;> omega

theorem countErrorCode_balanced {response : RpcResponse}
    (hroom : s.counters.serverErrorResponses.toNat + 1 < 2 ^ 64) :
    Balanced s (.recordErrorCode response)
      { s with counters := countErrorCode s.counters response } [] := by
  have hserverError := toNat_succ hroom
  have htimeout : RpcErrorCode.timeout.toInt32 ≠ RpcErrorCode.serverError.toInt32 := by decide
  have hservice : RpcErrorCode.serviceNotFound.toInt32 ≠ RpcErrorCode.serverError.toInt32 := by decide
  have hmethod : RpcErrorCode.methodNotFound.toInt32 ≠ RpcErrorCode.serverError.toInt32 := by decide
  simp only [countErrorCode]
  (repeat' split) <;> constructor <;> simp [*, Nat.add_assoc]

theorem exec_balanced (h : i.exec x s = some (s', pushed)) (hroom : Room s.counters i) :
    Balanced s i s' pushed := by
  cases i
  case eventLoop =>
    simp only [Instr.exec] at h
    split at h <;> cases h
    exact messages_balanced _
  case sendError request errorCode errorMessage =>
    simp only [Instr.exec] at h
    split at h <;> cases h
    exact sendError_balanced request errorCode errorMessage _
  case handleRequest request =>
    cases h
    have htotal := toNat_succ (hroom.total request rfl)
    constructor <;> simp only [htotal, openToken, queuedToken, queueableToken, rejectableToken,
      rejectionToken, errorCodeToken, serverErrorToken, Config.weigh_cons, Config.weigh_nil] <;> omega
  case countQueued request =>
    cases h
    have hqueue := toNat_succ (hroom.queue request rfl)
    constructor <;> simp [State.setQueueSize, hqueue]
    all_goals omega
  case tryPost request =>
    simp only [Instr.exec] at h
    split at h <;> cases h <;> constructor <;>
      simp only [openToken, queuedToken, queueableToken, rejectableToken, rejectionToken,
        errorCodeToken, serverErrorToken, List.length_append, List.length_singleton,
        Config.weigh_cons, Config.weigh_nil, if_true] <;> omega
  case uncountQueued =>
    cases h
    have hqueue := toNat_pred (hroom.unqueue rfl)
    constructor <;> simp [State.setQueueSize]
    omega
  case countRejected =>
    cases h
    have hrejected := toNat_succ (hroom.rejected rfl)
    constructor <;> simp only [hrejected, openToken, queuedToken, queueableToken, rejectableToken,
      rejectionToken, errorCodeToken, serverErrorToken, Config.weigh_nil] <;> omega
  case recordResponse response =>
    cases h
    exact countResponse_balanced (hroom.response response rfl)
  case recordErrorCode response =>
    cases h
    exact countErrorCode_balanced (hroom.errorCode response rfl)
  case workerLoop =>
    simp only [Instr.exec] at h
    split at h
    · rename_i htasks
      cases h
      constructor <;> simp [htasks] <;> omega
    · split at h <;> cases h
      exact .of_tokens rfl rfl rfl rfl rfl (by simp) (by simp) (by simp) (by simp) (by simp)
  all_goals
    simp only [Instr.exec] at h
    (repeat' split at h) <;> cases h
    all_goals refine .of_tokens rfl rfl rfl ?_ ?_ ?_ ?_ ?_ ?_ ?_ <;> simp

theorem received_le_of_exec (h : i.exec x s = some (s', pushed)) :
    s.received ≤ s'.received := by
  cases i
  case handleRequest request =>
    cases h
    exact Nat.le_succ _
  all_goals
    simp only [Instr.exec] at h
    (repeat' split at h) <;> cases h <;> exact Nat.le_refl _

end Exec

section Step

variable {c : ServerConfig} {t : Nat} {i : Instr} {rest : List Instr} {s : State} {x : Choice}
  {pushed : List Instr} (h : Counted c) (htop : c.stack t = i :: rest)
include h htop

theorem Counted.replace (hbalanced : Balanced c.shared i s pushed) :
    Counted (c.replace t s (pushed ++ rest)) := by
  have hopens := Config.total_replace openToken htop s pushed
  have hqueues := Config.total_replace queuedToken htop s pushed
  have hqueueables := Config.total_replace queueableToken htop s pushed
  have hrejectables := Config.total_replace rejectableToken htop s pushed
  have herrorCodes := Config.total_replace errorCodeToken htop s pushed
  have hrejections := Config.total_replace rejectionToken htop s pushed
  have hserverErrors := Config.total_replace serverErrorToken htop s pushed
  obtain ⟨h₁, h₂, h₃, h₄, h₅, h₆, h₇⟩ := h
  obtain ⟨b₁, b₂, b₃, b₄, b₅, b₆, b₇⟩ := hbalanced
  simp only [queuedRequests] at h₃ h₄
  constructor <;> simp only [Config.shared_replace, queuedRequests] <;> omega

theorem Counted.no_underflow (hi : i = .uncountQueued) :
    0 < c.shared.counters.currentQueueSize.toNat := by
  have htoken := Config.le_total (w := queuedToken) (Config.active_of_top htop)
  rw [h.queued, queuedRequests]
  rw [hi, queuedToken] at htoken
  omega

theorem Counted.room (hexec : i.exec x c.shared = some (s, pushed))
    (hbound : s.received < 2 ^ 64) : Room c.shared.counters i where
  total := by
    rintro request rfl
    cases hexec
    rw [h.received]
    exact hbound
  queue := by
    rintro request rfl
    have htoken := Config.le_total (w := queueableToken) (Config.active_of_top htop)
    have hqueueable := h.queueable
    have hreceived := received_le_of_exec hexec
    rw [h.received] at hqueueable
    rw [queueableToken] at htoken
    rw [h.queued]
    omega
  unqueue := h.no_underflow htop
  rejected := by
    rintro rfl
    have htoken := Config.le_total (w := rejectableToken) (Config.active_of_top htop)
    have hrejectable := h.rejectable
    have hreceived := received_le_of_exec hexec
    rw [h.received] at hrejectable
    rw [rejectableToken] at htoken
    omega
  response := by
    rintro response rfl
    have htoken := Config.le_total (w := openToken) (Config.active_of_top htop)
    have houtcome := h.outcome
    have hreceived := received_le_of_exec hexec
    rw [h.received] at houtcome
    rw [openToken] at htoken
    omega
  errorCode := by
    rintro response rfl
    have htoken := Config.le_total (w := errorCodeToken) (Config.active_of_top htop)
    have herrorCodes := h.errorCodes
    have houtcome := h.outcome
    have hreceived := received_le_of_exec hexec
    rw [h.received] at houtcome
    rw [errorCodeToken] at htoken
    omega

end Step

theorem total_idle {c : ServerConfig}
    (h : ∀ t i, c.Active t i → i = .owner ∨ i = .eventLoop ∨ i = .workerLoop) {w : Instr → Nat}
    (howner : w .owner = 0) (hloop : w .eventLoop = 0) (hworker : w .workerLoop = 0) :
    c.total w = 0 := by
  refine Config.total_eq_zero fun t i hactive => ?_
  obtain rfl | rfl | rfl := h t i hactive
  · exact howner
  · exact hloop
  · exact hworker

theorem Counted.init (queueCapacity ioThreads workers : Nat) :
    Counted (init queueCapacity ioThreads workers) := by
  have htotal : ∀ {w : Instr → Nat}, w .owner = 0 → w .eventLoop = 0 → w .workerLoop = 0 →
      (Server.init queueCapacity ioThreads workers).total w = 0 :=
    total_idle fun _ _ => mem_init_stack
  constructor
  · rfl
  · rw [htotal rfl rfl rfl]
    rfl
  · rw [queuedRequests, htotal rfl rfl rfl]
    rfl
  · rw [queuedRequests, htotal rfl rfl rfl, htotal rfl rfl rfl]
    exact Nat.zero_le _
  all_goals
    rw [htotal rfl rfl rfl]
    exact Nat.zero_le _

theorem Counted.run {queueCapacity ioThreads workers : Nat} {c : ServerConfig}
    (hrun : server.Reaches (Server.init queueCapacity ioThreads workers) c)
    (hbound : c.shared.received < 2 ^ 64) : Counted c := by
  refine hrun.invariant (I := fun c => c.shared.received < 2 ^ 64 → Counted c)
    (fun _ => .init queueCapacity ioThreads workers) ?_ hbound
  rintro c c' t i h - hstep hbound
  obtain @⟨rest, x, s, pushed, htop, hexec⟩ := hstep
  have hcounted := h (Nat.lt_of_le_of_lt (received_le_of_exec hexec) hbound)
  exact hcounted.replace htop (exec_balanced hexec (hcounted.room htop hexec hbound))

/-- No request is in progress: every thread waits for work, and no task is queued. -/
structure Quiescent (c : ServerConfig) : Prop where
  idle : ∀ t i, c.Active t i → i = .owner ∨ i = .eventLoop ∨ i = .workerLoop
  tasks : c.shared.tasks = []

theorem quiescent_of_stacks {c : ServerConfig}
    (hidle : c.All fun i => i = .owner ∨ i = .eventLoop ∨ i = .workerLoop)
    (htasks : c.shared.tasks = []) : Quiescent c :=
  ⟨fun _ _ hactive => hidle.of_active hactive, htasks⟩

/-- Of less than 2^64 requests each has one outcome once it is no longer in progress, a rejection is
a server error, and the queue size is at every moment the number of requests that were counted in
and not yet out. -/
theorem requests_counted {queueCapacity ioThreads workers : Nat} {c : ServerConfig}
    (hrun : server.Reaches (init queueCapacity ioThreads workers) c)
    (hbound : c.shared.received < 2 ^ 64) :
    (Quiescent c → c.shared.counters.totalRequests.toNat =
          c.shared.counters.successResponses.toNat + c.shared.counters.failedResponses.toNat ∧
        c.shared.counters.queueRejected.toNat ≤ c.shared.counters.serverErrorResponses.toNat ∧
        c.shared.counters.currentQueueSize = 0) ∧
      c.shared.counters.currentQueueSize.toNat = queuedRequests c ∧
      ∀ t, (c.stack t).head? = some .uncountQueued →
        0 < c.shared.counters.currentQueueSize.toNat := by
  have h := Counted.run hrun hbound
  refine ⟨fun hquiescent => ?_, h.queued, fun t hhead => ?_⟩
  · have htotal : ∀ {w : Instr → Nat}, w .owner = 0 → w .eventLoop = 0 → w .workerLoop = 0 →
        c.total w = 0 := total_idle hquiescent.idle
    have houtcome := h.outcome
    have hqueued := h.queued
    have hrejections := h.rejections
    rw [htotal rfl rfl rfl, hquiescent.tasks] at houtcome
    rw [queuedRequests, htotal rfl rfl rfl, hquiescent.tasks] at hqueued
    rw [htotal rfl rfl rfl, htotal rfl rfl rfl] at hrejections
    exact ⟨houtcome, hrejections, UInt64.toNat_inj.mp hqueued⟩
  · obtain ⟨rest, htop⟩ := List.head?_eq_some_iff.mp hhead
    exact h.no_underflow htop rfl

def answeredServer : ServerConfig :=
  server.follow (init 1 1 1)
    ((1, .messages [{ serviceName := ascii "s", methodName := ascii "m" }]) ::
      List.replicate 3 (1, .next) ++ (1, .time 0) :: List.replicate 3 (1, .next))

theorem requests_counted_answered :
    answeredServer.shared.counters.totalRequests.toNat =
          answeredServer.shared.counters.successResponses.toNat +
            answeredServer.shared.counters.failedResponses.toNat ∧
        answeredServer.shared.counters.queueRejected.toNat ≤
          answeredServer.shared.counters.serverErrorResponses.toNat ∧
        answeredServer.shared.counters.currentQueueSize = 0 :=
  (requests_counted (Machine.reaches_follow (c := init 1 1 1) _) (by decide +kernel)).1
    (quiescent_of_stacks (by decide +kernel) (by decide +kernel))

/-! ### Counters that overflow -/

def echoRequest : RpcRequest := { serviceName := ascii "s", methodName := ascii "m" }

def echoRegistry : ServiceRegistry :=
  (ServiceRegistry.empty.registerMethod (ascii "s") (ascii "m")
    (some fun _ response => ⟨response, .returned⟩)).2

def fullServer (counters : ServerCounters) (replies : List Reply) (received : Nat) :
    ServerConfig :=
  ⟨{ registry := echoRegistry, counters := counters, tasks := [echoRequest], replies := replies,
     received := received },
    [[.owner], [.eventLoop], [.workerLoop]]⟩

theorem reaches_fullServer :
    server.Reaches (init 1 1 1) (fullServer { totalRequests := 1, currentQueueSize := 1 } [] 1) :=
  Machine.reaches_follow (M := server) (c := init 1 1 1)
    ((0, .registerMethod (ascii "s") (ascii "m") (some fun _ response => ⟨response, .returned⟩)) ::
      (1, .messages [echoRequest]) :: List.replicate 5 (1, .next))

def rejectMoves : List (Nat × Choice) :=
  (1, Choice.messages [echoRequest]) :: List.replicate 7 (1, .next) ++
    (1, Choice.time 0) :: List.replicate 3 (1, .next)

def rejectedOnce (counters : ServerCounters) : ServerCounters :=
  { counters with
    totalRequests := counters.totalRequests + 1
    failedResponses := counters.failedResponses + 1
    serverErrorResponses := counters.serverErrorResponses + 1
    queueRejected := counters.queueRejected + 1
    currentQueueSize := counters.currentQueueSize + 1 - 1 }

theorem reject_one (counters : ServerCounters) (replies : List Reply) (received : Nat) :
    ∃ replies', server.Reaches (fullServer counters replies received)
      (fullServer (rejectedOnce counters) replies' (received + 1)) := by
  have hfollow : server.follow (fullServer counters replies received) rejectMoves =
      fullServer (rejectedOnce counters)
        (server.follow (fullServer counters replies received) rejectMoves).shared.replies
        (received + 1) := rfl
  exact ⟨_, hfollow ▸ Machine.reaches_follow rejectMoves⟩

theorem reject_many (n : Nat) : ∃ counters replies received,
    server.Reaches (init 1 1 1) (fullServer counters replies received) ∧
      counters.queueRejected = UInt64.ofNat n ∧
      counters.serverErrorResponses = UInt64.ofNat n := by
  induction n with
  | zero => exact ⟨_, _, _, reaches_fullServer, rfl, rfl⟩
  | succ n ih =>
    obtain ⟨counters, replies, received, hrun, hrejected, herrors⟩ := ih
    obtain ⟨replies', hlast⟩ := reject_one counters replies received
    refine ⟨rejectedOnce counters, replies', _, hrun.trans hlast, ?_, ?_⟩
    · rw [rejectedOnce, hrejected, UInt64.ofNat_add]
      rfl
    · rw [rejectedOnce, herrors, UInt64.ofNat_add]
      rfl

def throwMoves : List (Nat × Choice) :=
  (2, Choice.next) :: (2, .handler ⟨{}, .threwOther⟩ 0) :: List.replicate 4 (2, .next) ++
    [(2, Choice.connectionAlive true)]

theorem throw_one (counters : ServerCounters) (replies : List Reply) (received : Nat) :
    ∃ s, server.Reaches (fullServer counters replies received)
        ⟨s, [[.owner], [.eventLoop], [.workerLoop]]⟩ ∧
      s.tasks = [] ∧ s.counters = { counters with
        failedResponses := counters.failedResponses + 1
        serverErrorResponses := counters.serverErrorResponses + 1
        currentQueueSize := counters.currentQueueSize - 1 } := by
  have hfollow : server.follow (fullServer counters replies received) throwMoves =
      ⟨{ registry := echoRegistry
         counters := { counters with
           failedResponses := counters.failedResponses + 1
           serverErrorResponses := counters.serverErrorResponses + 1
           currentQueueSize := counters.currentQueueSize - 1 }
         replies := (server.follow (fullServer counters replies received) throwMoves).shared.replies
         received := received }, [[.owner], [.eventLoop], [.workerLoop]]⟩ := rfl
  exact ⟨_, hfollow ▸ Machine.reaches_follow throwMoves, rfl, rfl⟩

/-- After 2^64 - 1 rejections a handler throws: the server errors wrap around. -/
theorem server_errors_overflow : ∃ c, server.Reaches (init 1 1 1) c ∧ Quiescent c ∧
    ¬c.shared.counters.queueRejected.toNat ≤ c.shared.counters.serverErrorResponses.toNat := by
  obtain ⟨counters, replies, received, hrun, hrejected, herrors⟩ := reject_many (2 ^ 64 - 1)
  obtain ⟨s, hlast, htasks, hcounters⟩ := throw_one counters replies received
  refine ⟨_, hrun.trans hlast, quiescent_of_stacks (by simp [Config.All]) htasks, ?_⟩
  rw [hcounters]
  simp only [hrejected, herrors]
  decide

end UnixNotes.Rpc.Server
