import UnixNotes.Library.Logged
import UnixNotes.Reactor.LifetimeDeferred

namespace UnixNotes.Reactor.Lifetime

open Library

variable {site : Site} {t : Nat} {i : Instr} {rest : List Instr} {s s' : Shared}
  {pushed : List Instr}

inductive Event where
  /-- The connection callback, with the state that it finds. -/
  | called (state : TcpConnection.State)
  /-- The message callback. -/
  | message
  | destroyed
  deriving DecidableEq

def events (i : Instr) (_ s' : Shared) (pushed : List Instr) : List Event :=
  match i with
  | .connection .connectEstablished =>
    if .callback ∈ pushed then [.called s'.connection.state] else []
  | .connection .connectDestroyed =>
    (if .callback ∈ pushed then [.called s'.connection.state] else []) ++ [.destroyed]
  | .connection .handleRead => if .callback ∈ pushed then [.message] else []
  | _ => []

abbrev Recorded := Library.Config (Logged Shared Event) Instr

def recorded (site : Site) : Library.Machine (Logged Shared Event) Instr Choice :=
  (machine site).logged events

def recordedInit (site : Site) (users : Nat) : Recorded :=
  ⟨⟨(init site users).shared, []⟩, (init site users).threads⟩

structure Orderly (log : List Event) : Prop where
  connected : log.count (.called .kConnected) ≤ 1
  disconnected : log.count (.called .kDisconnected) ≤ 1
  destroyed : log.count .destroyed ≤ 1
  order : ∀ later earlier, log = later ++ .called .kDisconnected :: earlier →
    .called .kConnected ∈ earlier ∧ .message ∉ later

/-- The connection of a client is not read once it has been closed, unless the client has taken its
callbacks back. -/
def ReadsOpen (site : Site) (c : Recorded) (_ : Nat) (i : Instr) : Prop :=
  site.owner = .client → i = .connection .handleRead → c.shared.base.callbacks = true →
    c.shared.base.connection.state ≠ .kDisconnected

instance (site : Site) (c : Recorded) (t : Nat) (i : Instr) : Decidable (ReadsOpen site c t i) :=
  inferInstanceAs (Decidable (_ → _))

theorem callbacks_of_mem {callbacks : Bool} {j : TcpConnection.Instr}
    {calls : List TcpConnection.Instr}
    (h : .callback ∈ calls.flatMap (Instr.ofConnection callbacks j)) : callbacks = true := by
  obtain ⟨k, -, hmem⟩ := List.mem_flatMap.mp h
  cases callbacks with
  | true => rfl
  | false => cases k <;> simp [Instr.ofConnection] at hmem

theorem Moves.events_cases (h : Moves site t s i s' pushed) :
    (i = .connection .connectEstablished ∧ s'.connection.state = .kConnected ∧
        events i s s' pushed = if s.callbacks = true then [.called .kConnected] else []) ∨
      (i = .connection .connectDestroyed ∧ s'.connection.state = .kDisconnected ∧
        events i s s' pushed =
          (if s.callbacks = true then [.called .kDisconnected] else []) ++ [.destroyed]) ∨
      (i = .connection .handleRead ∧ s.callbacks = true ∧ events i s s' pushed = [.message]) ∨
      events i s s' pushed = [] ∧ i ≠ .connection .connectEstablished ∧
        i ≠ .connection .connectDestroyed := by
  by_cases hi : ∃ j, i = .connection j
  · obtain ⟨j, rfl⟩ := hi
    cases h with
    | ask hi =>
      obtain heq | hacts := hi
      · cases heq
      · exact hacts.elim
    | skip hi => simp at hi
    | letGo hi => simp at hi
    | returned hi => simp at hi
    | copy hi | call hi => exact hi.elim
    | connection exec =>
      have hmoves := TcpConnection.moves_of_exec exec
      cases j with
      | connectEstablished =>
        cases hmoves with
        | event idle => exact idle.elim
        | established =>
          refine .inl ⟨rfl, rfl, ?_⟩
          cases hcallbacks : s.callbacks <;> simp [events, Instr.ofConnection]
      | connectDestroyed =>
        refine .inr (.inl ⟨rfl, ?_⟩)
        cases hmoves with
        | event idle => exact idle.elim
        | destroyed closed =>
          refine ⟨closed, ?_⟩
          cases hcallbacks : s.callbacks <;> simp [events, Instr.ofConnection, closed]
        | destroy =>
          refine ⟨rfl, ?_⟩
          cases hcallbacks : s.callbacks <;>
            simp [events, Instr.ofConnection, TcpConnection.Shared.close]
      | handleRead =>
        rename_i calls
        refine .inr (.inr ?_)
        by_cases hmem : .callback ∈ calls.flatMap (Instr.ofConnection s.callbacks .handleRead)
        · exact .inl ⟨rfl, callbacks_of_mem hmem, if_pos hmem⟩
        · exact .inr ⟨if_neg hmem, by rintro ⟨⟩, by rintro ⟨⟩⟩
      | _ => exact .inr (.inr (.inr ⟨rfl, by rintro ⟨⟩, by rintro ⟨⟩⟩))
  · refine .inr (.inr (.inr ⟨?_, fun heq => hi ⟨_, heq⟩, fun heq => hi ⟨_, heq⟩⟩))
    cases i with
    | connection j => exact absurd ⟨j, rfl⟩ hi
    | _ => rfl

structure Told (site : Site) (c : Config) (log : List Event) : Prop where
  connected : log.count (.called .kConnected) + due site .connectEstablished c ≤ 1
  destroyed : log.count .destroyed + due site .connectDestroyed c + pending site c ≤ 1
  disconnected : log.count (.called .kDisconnected) ≤ log.count .destroyed
  opened : c.shared.connection.state ≠ .kConnecting → .called .kConnected ∈ log
  closed : .destroyed ∈ log → c.shared.connection.state = .kDisconnected
  order : ∀ later earlier, log = later ++ .called .kDisconnected :: earlier →
    .called .kConnected ∈ earlier ∧ .message ∉ later

structure Kind (site : Site) (c : Config) (log : List Event) : Prop where
  placed : Placed site c
  client : site.owner = .client → Direct site c
  settled : ∀ base, site.owner = .server base → Settled site c
  deferred : ∀ base, site.owner = .server base → Deferred site c
  unexposed : ∀ base, site.owner = .server base → .destroyed ∈ log → ¬Exposed site c

theorem establishes_eq : Instr.establishes = Instr.calls .connectEstablished := by
  funext i
  cases i with
  | queueInLoop target f => cases f <;> rfl
  | connection j => cases j <;> rfl
  | _ => rfl

theorem establishing_eq {c : Config} : establishing site c = due site .connectEstablished c := by
  rw [establishing, establishes_eq, due]

theorem order_append {first log : List Event}
    (h : ∀ later earlier, log = later ++ .called .kDisconnected :: earlier →
      .called .kConnected ∈ earlier ∧ .message ∉ later)
    (hfirst : .called .kDisconnected ∉ first)
    (hmessage : .message ∈ first → .called .kDisconnected ∉ log) (later earlier : List Event)
    (heq : first ++ log = later ++ .called .kDisconnected :: earlier) :
    .called .kConnected ∈ earlier ∧ .message ∉ later := by
  obtain ⟨later', rfl, hlog⟩ | ⟨earlier', rfl, hrest⟩ := List.append_eq_append_iff.mp heq
  · obtain ⟨hconnected, hnone⟩ := h later' earlier hlog
    refine ⟨hconnected, fun hmem => ?_⟩
    obtain hmem | hmem := List.mem_append.mp hmem
    · exact hmessage hmem (hlog ▸ by simp)
    · exact hnone hmem
  · cases earlier' with
    | nil =>
      rw [List.append_nil] at hfirst hmessage
      have hlog : log = [] ++ .called .kDisconnected :: earlier := hrest.symm
      obtain ⟨hconnected, -⟩ := h [] earlier hlog
      exact ⟨hconnected, fun hmem => hmessage hmem (hlog ▸ List.mem_cons_self ..)⟩
    | cons first earlier' =>
      rw [List.cons_append, List.cons.injEq] at hrest
      exact absurd (by simp [hrest.1]) hfirst

theorem order_destroyed {log : List Event} (hmem : .called .kConnected ∈ log)
    (hnot : .called .kDisconnected ∉ log) (later earlier : List Event)
    (heq : .called .kDisconnected :: .destroyed :: log =
      later ++ .called .kDisconnected :: earlier) :
    .called .kConnected ∈ earlier ∧ .message ∉ later := by
  cases later with
  | nil =>
    obtain rfl := (List.cons.inj heq).2
    exact ⟨List.mem_cons_of_mem _ hmem, nofun⟩
  | cons first later =>
    have hlog := (List.cons.inj heq).2
    have hcalled : .called .kDisconnected ∈ .destroyed :: log := hlog ▸ by simp
    exact absurd ((List.mem_cons.mp hcalled).resolve_left nofun) hnot

namespace Kind

variable {c : Config} {log : List Event}

theorem established (h : Kind site c log)
    (htop : c.stack t = .connection .connectEstablished :: rest) :
    c.shared.connection.state = .kConnecting ∧ c.shared.callbacks = true := by
  have hdue : 0 < due site .connectEstablished c :=
    due_pos owners_established (Config.active_of_top htop)
  cases hsite : site.owner with
  | client =>
    obtain ⟨hnone, -⟩ | ⟨-, hstate, hcallbacks, -⟩ := (h.client hsite).opening
    · exact absurd hdue (Nat.not_lt.mpr (Nat.le_of_eq hnone))
    · exact ⟨hstate, hcallbacks⟩
  | server base =>
    refine ⟨?_, (h.deferred base hsite).callbacks⟩
    by_contra hopened
    have hnone := (h.settled base hsite).fresh hopened
    rw [establishing_eq] at hnone
    exact absurd hdue (Nat.not_lt.mpr (Nat.le_of_eq hnone))

section Step

variable (h : Kind site c log) (htop : c.stack t = i :: rest)
  (hmoves : Moves site t c.shared i s pushed)

include h htop

theorem connecting {j : TcpConnection.Instr} (hi : i = .connection j) (hsite : site.owner = .client)
    (hstate : c.shared.connection.state = .kConnecting) : j = .connectEstablished := by
  subst hi
  obtain ⟨-, hopened⟩ | ⟨-, -, -, rest', hio⟩ := (h.client hsite).opening
  · exact absurd hstate hopened
  · obtain rfl := (h.placed.fits t _ (Config.active_of_top htop)).1
    rw [hio] at htop
    cases htop
    rfl

include hmoves

theorem opened (hopened : s.connection.state ≠ .kConnecting) :
    c.shared.connection.state ≠ .kConnecting ∨ i = .connection .connectEstablished := by
  refine or_iff_not_imp_left.mpr fun hnot => ?_
  rw [not_not] at hnot
  obtain heq | ⟨j, x, calls, rfl, exec, -⟩ := hmoves.connection_eq
  · rw [heq] at hopened
    exact absurd hnot hopened
  · cases hsite : site.owner with
    | client => rw [h.connecting htop rfl hsite hnot]
    | server base =>
      have hactive := Config.active_of_top htop
      have hsettled := h.settled base hsite
      obtain ⟨rfl, -⟩ | heq | ⟨rfl | rfl, -⟩ | ⟨hconnected, -⟩ :=
        state_cases (TcpConnection.moves_of_exec exec)
      · rfl
      · exact absurd (heq.trans hnot) hopened
      · exact absurd hnot (hsettled.late t _ hactive trivial)
      · exact absurd (hnot.symm.trans (hsettled.closing t _ hactive trivial)) nofun
      · exact absurd (hnot.symm.trans hconnected) nofun

theorem closed (hclosed : c.shared.connection.state = .kDisconnected) :
    s.connection.state = .kDisconnected := by
  obtain heq | ⟨j, x, calls, rfl, exec, -⟩ := hmoves.connection_eq
  · rw [heq, hclosed]
  · obtain ⟨rfl, -⟩ | heq | ⟨-, heq⟩ | ⟨hconnected, -⟩ :=
      state_cases (TcpConnection.moves_of_exec exec)
    · exact absurd ((h.established htop).1.symm.trans hclosed) nofun
    · exact heq.trans hclosed
    · exact heq
    · exact absurd (hclosed.symm.trans hconnected) nofun

theorem pending_step : pending site (c.replace t s (pushed ++ rest)) ≤ pending site c ∧
    (Destroying site c.shared s i →
      pending site (c.replace t s (pushed ++ rest)) + 1 ≤ pending site c) := by
  cases hsite : site.owner with
  | client =>
    have hstep := (h.client hsite).pending_step h.placed htop hmoves hsite
    simp only [pending, hsite]
    exact hstep
  | server base =>
    simp only [pending, hsite, Config.shared_replace]
    constructor
    · cases howned : s.owned with
      | false => exact Nat.zero_le _
      | true =>
        rw [(hmoves.owned howned).1]
    · intro hdestroying
      cases i with
      | removeConnectionInLoop =>
        rw [hdestroying.1, hdestroying.2]
        exact Nat.le_refl _
      | closeCallback =>
        rw [Destroying, hsite] at hdestroying
        cases hdestroying
      | destroy =>
        rw [Destroying, hsite] at hdestroying
        cases hdestroying.1
      | _ => exact hdestroying.elim

theorem destroyed_step : due site .connectDestroyed (c.replace t s (pushed ++ rest)) +
    pending site (c.replace t s (pushed ++ rest)) +
      (if i = .connection .connectDestroyed then 1 else 0) ≤
    due site .connectDestroyed c + pending site c := by
  obtain ⟨hpending, htaken⟩ := h.pending_step htop hmoves
  obtain hdue | ⟨⟨-, hdestroying⟩, hdue⟩ := due_step h.placed owners_destroyed htop hmoves
  · have hdue : _ + (if i = .connection .connectDestroyed then 1 else 0) ≤ _ := hdue
    omega
  · have hdue : _ + (if i = .connection .connectDestroyed then 1 else 0) ≤ _ := hdue
    have := htaken hdestroying
    omega

end Step

theorem opened_destroyed (h : Kind site c log)
    (htop : c.stack t = .connection .connectDestroyed :: rest) :
    c.shared.connection.state ≠ .kConnecting := by
  intro hstate
  cases hsite : site.owner with
  | client => cases h.connecting htop rfl hsite hstate
  | server base =>
    have hclosed := (h.settled base hsite).closing t _ (Config.active_of_top htop) trivial
    exact absurd (hstate.symm.trans hclosed) nofun

theorem unexposed_destroyed {base : Nat} (h : Kind site c log) (hserver : site.owner = .server base)
    (htop : c.stack t = .connection .connectDestroyed :: rest) : ¬Exposed site c := by
  rintro ⟨j, hj, hexposes⟩
  obtain rfl := (h.placed.fits t _ (Config.active_of_top htop)).1
  have hany := (h.deferred base hserver).destroying.any_of_top htop rfl
  obtain ⟨k, hk, hrunning⟩ := List.any_eq_true.mp hany
  have hruns : k.runs := by
    cases k with
    | doPendingFunctors functors left => trivial
    | _ => cases hrunning
  have hactive : c.Active site.io k := by
    rw [Config.Active, htop]
    exact List.mem_cons_of_mem _ hk
  obtain hnone | hnone := h.placed.apart site.io
  · exact hnone j hj hexposes
  · exact hnone k hactive hruns

theorem exposed_read {base : Nat} (h : Kind site c log) (hserver : site.owner = .server base)
    (htop : c.stack t = .connection .handleRead :: rest) : Exposed site c := by
  obtain rfl := (h.placed.fits t _ (Config.active_of_top htop)).1
  have hany := (h.deferred base hserver).reading.any_of_top htop rfl
  obtain ⟨k, hk, hdispatching⟩ := List.any_eq_true.mp hany
  refine ⟨k, ?_, ?_⟩
  · rw [Config.Active, htop]
    exact List.mem_cons_of_mem _ hk
  · cases k with
    | handling writable => trivial
    | _ => cases hdispatching

theorem step {x : Choice} (h : Kind site c log) (htold : Told site c log)
    (htop : c.stack t = i :: rest)
    (hexec : (machine site).exec t i x c.shared = some (s, pushed)) :
    Kind site (c.replace t s (pushed ++ rest)) (events i c.shared s pushed ++ log) := by
  have hmoves := moves_of_exec hexec
  have hstep : (machine site).Step c t i (c.replace t s (pushed ++ rest)) := .exec htop hexec
  refine ⟨h.placed.step hstep, fun hclient => (h.client hclient).step h.placed htop hmoves hclient,
    fun base hserver => (h.settled base hserver).step hserver h.placed hstep,
    fun base hserver => (h.deferred base hserver).step hserver h.placed htop hmoves,
    fun base hserver hmem hexposed => ?_⟩
  -- a loop does not poll a connection that has been destroyed
  have hbefore (hdestroyed : .destroyed ∈ log ∨ i = .connection .connectDestroyed) :
      Exposed site c := by
    refine exposed_of_replace htop hexposed (hmoves.exposes.resolve_right ?_)
    rintro ⟨rfl, hpolled⟩
    have hclosed := htold.closed (hdestroyed.resolve_right nofun)
    obtain heq | heq := hpolled <;> exact absurd (heq.symm.trans hclosed) nofun
  obtain ⟨-, -, heq⟩ | ⟨rfl, -⟩ | ⟨-, -, heq⟩ | ⟨heq, -⟩ := hmoves.events_cases
  · have hlog : .destroyed ∈ log := by
      rw [heq] at hmem
      split at hmem <;> simpa using hmem
    exact h.unexposed base hserver hlog (hbefore (.inl hlog))
  · exact h.unexposed_destroyed hserver htop (hbefore (.inr rfl))
  · have hlog : .destroyed ∈ log := by simpa [heq] using hmem
    exact h.unexposed base hserver hlog (hbefore (.inl hlog))
  · have hlog : .destroyed ∈ log := by simpa [heq] using hmem
    exact h.unexposed base hserver hlog (hbefore (.inl hlog))

end Kind

namespace Told

variable {c : Config} {log : List Event}

theorem not_disconnected (h : Told site c log) (hnot : .destroyed ∉ log) :
    .called .kDisconnected ∉ log := by
  have hcount := h.disconnected
  rw [List.count_eq_zero.mpr hnot] at hcount
  exact List.count_eq_zero.mp (Nat.le_zero.mp hcount)

theorem step (h : Told site c log) (hkind : Kind site c log) (htop : c.stack t = i :: rest)
    (hmoves : Moves site t c.shared i s pushed)
    (hreads : site.owner = .client → i = .connection .handleRead → c.shared.callbacks = true →
      c.shared.connection.state ≠ .kDisconnected) :
    Told site (c.replace t s (pushed ++ rest)) (events i c.shared s pushed ++ log) := by
  have hestablished := established_step hkind.placed htop hmoves
  have hconnected := h.connected
  have honce := h.destroyed
  have hopened := hkind.opened htop hmoves
  have hdue := hkind.destroyed_step htop hmoves
  obtain ⟨hi, hstate, heq⟩ | ⟨hi, hstate, heq⟩ | ⟨hi, hcallbacks, heq⟩ | ⟨heq, hne, -⟩ :=
    hmoves.events_cases
  all_goals rw [heq]
  · subst hi
    obtain ⟨hconnecting, hcallbacks⟩ := hkind.established htop
    rw [if_pos rfl] at hestablished
    rw [if_pos hcallbacks]
    refine ⟨?_, ?_, ?_, fun _ => List.mem_cons_self .., fun hmem => ?_,
      order_append h.order (by simp) (by simp)⟩
    · simp only [List.singleton_append, List.count_cons_self]
      omega
    · simp
      omega
    · simpa using h.disconnected
    · have hclosed := h.closed (by simpa using hmem)
      exact absurd (hconnecting.symm.trans hclosed) nofun
  · subst hi
    rw [if_pos rfl] at hdue
    have hnot : .destroyed ∉ log := List.count_eq_zero.mp (by omega)
    have hnone := h.not_disconnected hnot
    have hmem := h.opened (hkind.opened_destroyed htop)
    refine ⟨?_, ?_, ?_, fun _ => List.mem_append_right _ hmem, fun _ => hstate, ?_⟩
    · split <;> simp <;> omega
    · split <;> simp <;> omega
    · split <;> simp [List.count_eq_zero.mpr hnone]
    · split
      · exact order_destroyed hmem hnone
      · exact order_append h.order (by simp) (by simp)
  · have hopen : c.shared.connection.state ≠ .kConnecting ∨ i = .connection .connectEstablished →
        c.shared.connection.state ≠ .kConnecting := by
      rintro (hopen | heq)
      · exact hopen
      · rw [hi] at heq
        cases heq
    have hnot : .destroyed ∉ log := fun hmem => by
      cases hsite : site.owner with
      | client => exact hreads hsite hi hcallbacks (h.closed hmem)
      | server base => exact hkind.unexposed base hsite hmem (hkind.exposed_read hsite (hi ▸ htop))
    refine ⟨?_, ?_, ?_, fun hstate => List.mem_cons_of_mem _ (h.opened (hopen (hopened hstate))),
      fun hmem => ?_, order_append h.order (by simp) fun _ => h.not_disconnected hnot⟩
    · simp
      omega
    · simp
      omega
    · simpa using h.disconnected
    · exact hkind.closed htop hmoves (h.closed (by simpa using hmem))
  · have hestablish : c.shared.connection.state ≠ .kConnecting ∨
        i = .connection .connectEstablished → c.shared.connection.state ≠ .kConnecting :=
      fun hor => hor.resolve_right hne
    rw [List.nil_append]
    exact ⟨by omega, by omega, h.disconnected, fun hstate => h.opened (hestablish (hopened hstate)),
      fun hmem => hkind.closed htop hmoves (h.closed hmem), h.order⟩

end Told

structure Seen (site : Site) (c : Recorded) : Prop where
  kind : Kind site c.base c.shared.log
  told : Told site c.base c.shared.log

theorem Seen.step {c c' : Recorded} (h : Seen site c) (hreads : ReadsOpen site c t i)
    (hstep : (recorded site).Step c t i c') : Seen site c' := by
  obtain ⟨rest, x, pushed, htop, hexec, hc', hlog⟩ := hstep.of_logged
  have hkind := h.kind.step h.told htop hexec
  have htold := h.told.step h.kind htop (moves_of_exec hexec) hreads
  rw [← hlog, ← hc'] at hkind htold
  exact ⟨hkind, htold⟩

theorem Seen.orderly {c : Recorded} (h : Seen site c) : Orderly c.shared.log where
  connected := by
    have := h.told.connected
    omega
  disconnected := by
    have := h.told.disconnected
    have := h.told.destroyed
    omega
  destroyed := by
    have := h.told.destroyed
    omega
  order := h.told.order

theorem init_stacks {P : Instr → Prop} {users : Nat} (hP : ∀ t, ∀ i ∈ site.start t, P i) :
    ∀ t i, (init site users).Active t i → P i :=
  Sound.init_induction (P := fun _ stack => ∀ i ∈ stack, P i) (fun _ => nofun) hP

theorem due_established_init (site : Site) (users : Nat) :
    due site .connectEstablished (init site users) ≤ 1 := by
  have hsettled := (Sound.init_sound site users).settled
  have hdue : (init site users).total (Instr.calls .connectEstablished) = 1 := by
    refine Sound.total_init ?_ fun t ht => ?_
    · obtain ⟨-, -, heq⟩ | ⟨-, -, heq⟩ | ⟨hne, -⟩ | ⟨hne, -⟩ := Sound.start_cases site site.home
      · rw [heq]; rfl
      · rw [heq]; rfl
      · exact absurd rfl hne
      · exact absurd rfl hne
    · obtain ⟨heq, -⟩ | ⟨heq, -⟩ | ⟨-, -, heq⟩ | ⟨-, -, heq⟩ := Sound.start_cases site t
      · exact absurd heq ht
      · exact absurd heq ht
      · rw [heq]; rfl
      · rw [heq]; rfl
  exact Nat.le_of_eq (by rw [due, hdue]; rfl)

theorem total_init_eq_zero {w : Instr → Nat} {users : Nat}
    (hcall : w (.connection .connectEstablished) = 0 ∧ w .temporary = 0)
    (hqueue : w (.queueInLoop site.io .connectEstablished) = 0)
    (hrest : w .batch = 0 ∧ w .loop = 0 ∧ w .user = 0) : (init site users).total w = 0 := by
  refine Config.total_eq_zero (init_stacks fun t => ?_)
  obtain ⟨-, -, heq⟩ | ⟨-, -, heq⟩ | ⟨-, -, heq⟩ | ⟨-, -, heq⟩ := Sound.start_cases site t <;>
    simp [heq, hcall, hqueue, hrest]

theorem due_destroyed_init (site : Site) (users : Nat) :
    due site .connectDestroyed (init site users) = 0 := by
  rw [due, total_init_eq_zero ⟨rfl, rfl⟩ rfl ⟨rfl, rfl, rfl⟩]
  rfl

theorem Direct.init (hclient : site.owner = .client) (users : Nat) :
    Direct site (Lifetime.init site users) := by
  have hhome : site.home = site.io := by rw [Site.home, hclient]
  have hstack : (Lifetime.init site users).stack site.io =
      [.connection .connectEstablished, .temporary, .batch, .loop] := by
    have hlt : site.io < site.home + site.io + 1 + users := by omega
    simp only [Config.stack, Lifetime.init, List.getD_eq_getElem?_getD, List.getElem?_map,
      List.getElem?_range hlt, Option.map_some, Option.getD_some]
    rw [Site.start, if_pos hhome.symm, Site.runInLoop, if_pos rfl]
    rfl
  have hdue : 0 < due site .connectEstablished (Lifetime.init site users) :=
    due_pos owners_established (Config.active_of_top hstack)
  refine ⟨.inr ⟨?_, rfl, rfl, _, hstack⟩, ?_, fun _ => ⟨rfl, .inl (by rintro ⟨⟩)⟩,
    fun _ => .inl (due_destroyed_init site users)⟩
  · have := due_established_init site users
    omega
  · refine Sound.init_induction (P := fun _ stack => ∀ i ∈ stack.tail, ¬i.closes)
      (by rintro _ _ ⟨⟩) fun t => ?_
    obtain ⟨-, -, heq⟩ | ⟨-, -, heq⟩ | ⟨-, -, heq⟩ | ⟨-, -, heq⟩ := Sound.start_cases site t <;>
      simp [heq, Instr.closes]

theorem Deferred.init (site : Site) (users : Nat) : Deferred site (Lifetime.init site users) := by
  refine ⟨rfl, ?_, ?_⟩
  all_goals
    refine Sound.init_induction (P := fun _ stack => Config.followed _ _ stack = true)
      (fun _ => rfl) fun t => ?_
    obtain ⟨-, -, heq⟩ | ⟨-, -, heq⟩ | ⟨-, -, heq⟩ | ⟨-, -, heq⟩ := Sound.start_cases site t <;>
      rw [heq] <;> rfl

theorem Seen.init (site : Site) (users : Nat) : Seen site (recordedInit site users) where
  kind := ⟨Sound.init_placed site users, fun hclient => .init hclient users,
    (Sound.init_sound site users).settled, fun _ _ => .init site users, fun _ _ => nofun⟩
  told := by
    have hpending : pending site (Lifetime.init site users) ≤ 1 := by
      unfold pending
      split
      · rw [total_init_eq_zero ⟨rfl, rfl⟩ rfl ⟨rfl, rfl, rfl⟩]
        exact Nat.le_refl _
      · exact Nat.le_refl _
    refine ⟨?_, ?_, Nat.le_refl _, fun hopened => absurd rfl hopened, nofun, ?_⟩
    · have hdue := due_established_init site users
      change 0 + due site _ (Lifetime.init site users) ≤ 1
      omega
    · have hdue := due_destroyed_init site users
      change 0 + due site _ (Lifetime.init site users) + pending site (Lifetime.init site users) ≤ 1
      omega
    · intro later earlier heq
      cases later <;> cases heq

theorem orderly_run {users : Nat} {c : Recorded}
    (hrun : (recorded site).Run (ReadsOpen site) (recordedInit site users) c) :
    Orderly c.shared.log := by
  have hseen : Seen site c :=
    hrun.invariant (Seen.init site users) fun h hreads hstep => h.step hreads hstep
  exact hseen.orderly

def readAndClosed : List (Nat × Choice) :=
  [(0, .connection .next), (0, .next), (0, .next), (0, .next),
    (0, .poll { readable := true }), (0, .next), (0, .next), (0, .connection (.read true true)),
    (0, .next), (0, .connection .next), (0, .next), (0, .next), (0, .connection .next)]

theorem orderly_run_readAndClosed :
    ((recorded clientSite).follow (recordedInit clientSite 0) readAndClosed).shared.log =
        [.called .kDisconnected, .destroyed, .message, .called .kConnected] ∧
      Orderly ((recorded clientSite).follow (recordedInit clientSite 0) readAndClosed).shared.log :=
  ⟨by decide, orderly_run (Machine.run_follow (by decide))⟩

/-- Another channel of the same batch has the connection closed before its own event. -/
def closedInBatch : List (Nat × Choice) :=
  [(0, .connection .next), (0, .copy), (0, .next), (0, .next), (0, .next),
    (0, .poll { readable := true }), (0, .user), (0, .call .forceCloseInLoop),
    (0, .connection .next), (0, .connection .next), (0, .next), (0, .next), (0, .connection .next),
    (0, .next), (0, .next), (0, .next), (0, .next), (0, .next), (0, .next),
    (0, .connection (.read true false))]

theorem message_after_disconnected : ∃ c,
    (recorded clientSite).Reaches (recordedInit clientSite 0) c ∧ 0 < c.shared.base.uses ∧
      ¬Orderly c.shared.log := by
  have hlog : ((recorded clientSite).follow (recordedInit clientSite 0) closedInBatch).shared.log =
      [.message, .called .kDisconnected, .destroyed, .called .kConnected] := by
    decide
  refine ⟨_, Machine.reaches_follow closedInBatch, by decide, fun h => ?_⟩
  exact (h.order [.message] _ hlog).2 (List.mem_singleton.mpr rfl)

end UnixNotes.Reactor.Lifetime
