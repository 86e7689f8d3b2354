import UnixNotes.Reactor.ClientConnection

namespace UnixNotes.Reactor.TcpClient

open Library

def Idle (c : Config) : Prop :=
  c.shared.connector.state = .kDisconnected ∧ ∀ t j, c.Active t j → ¬j.attempts

def Instr.stops : Instr → Prop
  | .queueStop _ | .snapshot _ | .forceClose _ _ => True
  | _ => False

/-- What a call to `stop` has seen to, when no call to `connect` has come after it. -/
structure Stopped (c : Config) : Prop where
  requested : c.shared.stopping ≠ [] → c.shared.connector.connectRequested = false
  quiet : ∀ n ∈ c.shared.stopping,
    (∃ t, c.Active t (.queueStop n)) ∨ .stopInLoop n ∈ c.shared.functors ∨ Idle c
  covered : ∀ n ∈ c.shared.stopping,
    (∃ t, c.Active t (.queueStop n)) ∨ (∃ t, c.Active t (.snapshot n)) ∨
      ∀ k, c.shared.established k →
        .forceCloseInLoop k ∈ c.shared.functors ∨ ∃ t, c.Active t (.forceClose n k)

namespace Stopped

variable {c c' : Config} {t : Nat} {i : Instr} {rest pushed : List Instr} {s : Shared}

theorem of_nil (h : c.shared.stopping = []) : Stopped c := by
  refine ⟨fun hne => absurd h hne, ?_, ?_⟩ <;>
  · rw [h]
    nofun

theorem active_kept (htop : c.stack t = i :: rest) {j : Instr} (h : ∃ t, c.Active t j)
    (hne : j ≠ i) : ∃ t', (c.replace t s (pushed ++ rest)).Active t' j :=
  h.imp fun _ hactive => Config.active_replace_of_ne htop s pushed hactive hne

theorem idle_replace (htop : c.stack t = i :: rest) (h : Idle c)
    (hstate : s.connector.state = .kDisconnected) (hpushed : ∀ j ∈ pushed, ¬j.attempts) :
    Idle (c.replace t s (pushed ++ rest)) := by
  refine ⟨hstate, fun t' j hj => ?_⟩
  obtain ⟨-, hmem⟩ | hold := Config.active_of_replace htop hj
  · exact hpushed j hmem
  · exact h.2 t' j hold

theorem keep (h : Stopped c) (htop : c.stack t = i :: rest) (hi : ¬i.stops)
    (hstopping : s.stopping = c.shared.stopping)
    (hrequested : s.connector.connectRequested = c.shared.connector.connectRequested ∨
      s.connector.connectRequested = false)
    (hqueue : ∀ n, .stopInLoop n ∈ c.shared.functors →
      .stopInLoop n ∈ s.functors ∨ Idle (c.replace t s (pushed ++ rest)))
    (hidle : Idle c → s.connector.state = .kDisconnected ∧ ∀ j ∈ pushed, ¬j.attempts)
    (hcloses : ∀ k, s.established k → c.shared.established k ∧
      (.forceCloseInLoop k ∈ c.shared.functors → .forceCloseInLoop k ∈ s.functors)) :
    Stopped (c.replace t s (pushed ++ rest)) := by
  have hother : ∀ {j : Instr}, j.stops → j ≠ i := fun hj heq => hi (heq ▸ hj)
  refine ⟨fun hne => ?_, fun n hn => ?_, fun n hn => ?_⟩
  · rw [Config.shared_replace, hstopping] at hne
    obtain hsame | hfalse := hrequested
    · exact hsame.trans (h.requested hne)
    · exact hfalse
  · rw [Config.shared_replace, hstopping] at hn
    obtain hqueueing | hqueued | hc := h.quiet n hn
    · exact .inl (active_kept htop hqueueing (hother trivial))
    · exact .inr (hqueue n hqueued)
    · obtain ⟨hstate, hpushed⟩ := hidle hc
      exact .inr (.inr (idle_replace htop hc hstate hpushed))
  · rw [Config.shared_replace, hstopping] at hn
    obtain hqueueing | hsnapshot | hclosed := h.covered n hn
    · exact .inl (active_kept htop hqueueing (hother trivial))
    · exact .inr (.inl (active_kept htop hsnapshot (hother trivial)))
    · refine .inr (.inr fun k hk => ?_)
      obtain ⟨hbefore, hmem⟩ := hcloses k hk
      obtain hqueued | hforce := hclosed k hbefore
      · exact .inl (hmem hqueued)
      · exact .inr (active_kept htop hforce (hother trivial))

theorem connector_step {i : Connector.Instr} {connector : Connector.Shared} (h : Stopped c)
    (htop : c.stack t = .connector i :: rest)
    (hdoes : Does c.shared.connector i connector pushed) :
    Stopped (c.replace t { c.shared with connector := connector } (pushed ++ rest)) := by
  have hactive := Config.active_of_top htop
  have hkeep := @h.keep _ _ _ _ pushed { c.shared with connector := connector } htop id rfl
  cases hdoes with
  | attempt attempts _ _ _ requested | ended attempts requested =>
    exact hkeep (.inl requested) (fun _ => .inl) (fun hidle => absurd attempts (hidle.2 t _ hactive))
      fun _ hk => ⟨hk, id⟩
  | stop _ requested state plain =>
    refine hkeep requested (fun _ => .inl) (fun hidle => ⟨?_, fun j hj => (plain j hj).facts.2.2⟩)
      fun _ hk => ⟨hk, id⟩
    obtain hsame | hdisconnected := state
    · exact hsame.trans hidle.1
    · exact hdisconnected
  | found _ connecting requested =>
    refine hkeep (.inl requested) (fun _ => .inl) (fun hidle => ?_) fun _ hk => ⟨hk, id⟩
    have := hidle.1
    rw [connecting] at this
    cases this
  | rest _ requested state ends =>
    refine hkeep (.inl requested) (fun _ => .inl)
      (fun hidle => ⟨?_, fun j hj => (ends j hj).plain.facts.2.2⟩) fun _ hk => ⟨hk, id⟩
    obtain hsame | ⟨-, hdisconnected⟩ := state
    · exact hsame.trans hidle.1
    · exact hdisconnected

theorem publish (h : Stopped c) {k : Nat} (hok : StopsApart c t (.publish k))
    (htop : c.stack t = .publish k :: rest) :
    Stopped (c.replace t
      { c.shared with connection := k, connections := c.shared.connections.set k .kConnected }
      ([] ++ rest)) := by
  have hactive := Config.active_of_top htop
  refine ⟨h.requested, fun n hn => ?_, fun n hn => ?_⟩
  · obtain hqueueing | hqueued | hidle := h.quiet n hn
    · exact .inl (active_kept htop hqueueing nofun)
    · exact .inr (.inl hqueued)
    · exact absurd trivial (hidle.2 t _ hactive)
  · obtain hqueueing | hqueued | hidle := h.quiet n hn
    · exact .inl (active_kept htop hqueueing nofun)
    · have hsnapshot := hok n (List.mem_filterMap.mpr ⟨_, hqueued, rfl⟩)
      exact .inr (.inl (active_kept htop hsnapshot nofun))
    · exact absurd trivial (hidle.2 t _ hactive)

theorem store_stop (h : Stopped c) {n : Nat} (htop : c.stack t = .storeStop n :: rest) :
    Stopped (c.replace t { c.shared with
      connector.connectRequested := false
      stopping := n :: c.shared.stopping } ([.queueStop n] ++ rest)) := by
  have hqueueing : ∃ t', (c.replace t { c.shared with
      connector.connectRequested := false
      stopping := n :: c.shared.stopping }
        ([Instr.queueStop n] ++ rest)).Active t' (.queueStop n) :=
    ⟨t, Config.active_replace_of_pushed htop _ (List.mem_singleton_self _)⟩
  refine ⟨fun _ => rfl, fun n' hn' => ?_, fun n' hn' => ?_⟩
  · obtain rfl | hn' := List.mem_cons.mp hn'
    · exact .inl hqueueing
    · obtain hbefore | hqueued | hidle := h.quiet n' hn'
      · exact .inl (active_kept htop hbefore (by rintro ⟨⟩))
      · exact .inr (.inl hqueued)
      · exact .inr (.inr (idle_replace htop hidle hidle.1 (by simp [Instr.attempts])))
  · obtain rfl | hn' := List.mem_cons.mp hn'
    · exact .inl hqueueing
    · obtain hbefore | hsnapshot | hclosed := h.covered n' hn'
      · exact .inl (active_kept htop hbefore (by rintro ⟨⟩))
      · exact .inr (.inl (active_kept htop hsnapshot (by rintro ⟨⟩)))
      · exact .inr (.inr fun k hk => (hclosed k hk).imp_right fun hforce =>
          active_kept htop hforce (by rintro ⟨⟩))


theorem queue_stop (h : Stopped c) {n : Nat} (htop : c.stack t = .queueStop n :: rest) :
    Stopped (c.replace t { c.shared with functors := c.shared.functors ++ [.stopInLoop n] }
      ([.snapshot n] ++ rest)) := by
  refine ⟨h.requested, fun n' hn' => ?_, fun n' hn' => ?_⟩
  · obtain ⟨t', hbefore⟩ | hqueued | hidle := h.quiet n' hn'
    · obtain ⟨-, heq⟩ | hkept := Config.active_replace htop _ _ hbefore
      · cases heq
        exact .inr (.inl (List.mem_append_right _ (List.mem_singleton_self _)))
      · exact .inl ⟨t', hkept⟩
    · exact .inr (.inl (List.mem_append_left _ hqueued))
    · exact .inr (.inr (idle_replace htop hidle hidle.1 (by simp [Instr.attempts])))
  · obtain ⟨t', hbefore⟩ | hsnapshot | hclosed := h.covered n' hn'
    · obtain ⟨-, heq⟩ | hkept := Config.active_replace htop _ _ hbefore
      · cases heq
        exact .inr (.inl ⟨t,
          Config.active_replace_of_pushed htop _ (List.mem_singleton_self _)⟩)
      · exact .inl ⟨t', hkept⟩
    · exact .inr (.inl (active_kept htop hsnapshot (by rintro ⟨⟩)))
    · exact .inr (.inr fun k hk => (hclosed k hk).imp (List.mem_append_left _) fun hforce =>
        active_kept htop hforce (by rintro ⟨⟩))


theorem snapshot_none (h : Stopped c) (hheld : Held c) {n : Nat}
    (htop : c.stack t = .snapshot n :: rest) (none : c.shared.connection = none) :
    Stopped (c.replace t { c.shared with returned := n :: c.shared.returned } ([] ++ rest)) := by
  refine ⟨h.requested, fun n' hn' => ?_, fun n' hn' => .inr (.inr fun k hk => ?_)⟩
  · obtain hbefore | hqueued | hidle := h.quiet n' hn'
    · exact .inl (active_kept htop hbefore (by rintro ⟨⟩))
    · exact .inr (.inl hqueued)
    · exact .inr (.inr (idle_replace htop hidle hidle.1 (by rintro _ ⟨⟩)))
  · have hcurrent := (hheld.held k hk).1
    rw [none] at hcurrent
    cases hcurrent


/-- No connection but the one that `stop` has copied is established. -/
theorem snapshot_some (h : Stopped c) (hheld : Held c) {n k : Nat}
    (htop : c.stack t = .snapshot n :: rest) (some : c.shared.connection = some k) :
    Stopped (c.replace t c.shared ([.forceClose n k] ++ rest)) := by
  refine ⟨h.requested, fun n' hn' => ?_, fun n' hn' => ?_⟩
  · obtain hbefore | hqueued | hidle := h.quiet n' hn'
    · exact .inl (active_kept htop hbefore (by rintro ⟨⟩))
    · exact .inr (.inl hqueued)
    · exact .inr (.inr (idle_replace htop hidle hidle.1 (by simp [Instr.attempts])))
  · obtain hbefore | ⟨t', hsnapshot⟩ | hclosed := h.covered n' hn'
    · exact .inl (active_kept htop hbefore (by rintro ⟨⟩))
    · obtain ⟨-, heq⟩ | hkept := Config.active_replace htop c.shared [.forceClose n k] hsnapshot
      · cases heq
        refine .inr (.inr fun k' hk' => .inr ?_)
        have hcurrent := (hheld.held k' hk').1
        rw [some] at hcurrent
        cases hcurrent
        exact ⟨t, Config.active_replace_of_pushed htop _ (List.mem_singleton_self _)⟩
      · exact .inr (.inl ⟨t', hkept⟩)
    · exact .inr (.inr fun k' hk' => (hclosed k' hk').imp_right fun hforce =>
        active_kept htop hforce (by rintro ⟨⟩))


theorem force_close (h : Stopped c) {n k : Nat} (htop : c.stack t = .forceClose n k :: rest) :
    Stopped (c.replace t { c.shared with
      functors := c.shared.functors ++ [.forceCloseInLoop k]
      returned := n :: c.shared.returned } ([] ++ rest)) := by
  refine ⟨h.requested, fun n' hn' => ?_, fun n' hn' => ?_⟩
  · obtain hbefore | hqueued | hidle := h.quiet n' hn'
    · exact .inl (active_kept htop hbefore (by rintro ⟨⟩))
    · exact .inr (.inl (List.mem_append_left _ hqueued))
    · exact .inr (.inr (idle_replace htop hidle hidle.1 (by rintro _ ⟨⟩)))
  · obtain hbefore | hsnapshot | hclosed := h.covered n' hn'
    · exact .inl (active_kept htop hbefore (by rintro ⟨⟩))
    · exact .inr (.inl (active_kept htop hsnapshot (by rintro ⟨⟩)))
    · refine .inr (.inr fun k' hk' => ?_)
      obtain hqueued | ⟨t', hforce⟩ := hclosed k' hk'
      · exact .inl (List.mem_append_left _ hqueued)
      · obtain ⟨-, heq⟩ | hkept := Config.active_replace htop _ _ hforce
        · cases heq
          exact .inl (List.mem_append_right _ (List.mem_singleton_self _))
        · exact .inr ⟨t', hkept⟩


theorem stop_in_loop (h : Stopped c) (hplaced : Placed c) (htop : c.stack t = .loop :: rest)
    {n : Nat} {functors : List Functor} {connector : Connector.Shared} (fds : List Nat)
    (queue : c.shared.functors = .stopInLoop n :: functors)
    (state : connector.state = .kDisconnected)
    (requested : connector.connectRequested = c.shared.connector.connectRequested) :
    Stopped (c.replace t { c.shared with functors := functors, connector := connector }
      ((fds.map fun fd => .connector (.close fd)) ++ [.loop] ++ rest)) := by
  have hactive := Config.active_of_top htop
  have hpushed : ∀ j ∈ (fds.map fun fd => Instr.connector (.close fd)) ++ [Instr.loop],
      ¬j.attempts := fun j hj => by
    rw [List.mem_append, List.mem_map, List.mem_singleton] at hj
    obtain ⟨fd, -, rfl⟩ | rfl := hj <;> exact id
  have hnone : ∀ t' j, c.Active t' j → ¬j.attempts := fun t' j hj hattempts => by
    obtain rfl := hplaced.inLoop t _ hactive trivial
    obtain rfl := hplaced.inLoop t' j hj hattempts.busy.inLoop
    rw [hplaced.top.eq_top htop hj hattempts] at hattempts
    exact hattempts
  have hidle : Idle (c.replace t { c.shared with functors := functors, connector := connector }
      ((fds.map fun fd => .connector (.close fd)) ++ [Instr.loop] ++ rest)) := by
    refine ⟨state, fun t' j hj => ?_⟩
    obtain ⟨-, hmem⟩ | hold := Config.active_of_replace htop hj
    · exact hpushed j hmem
    · exact hnone t' j hold
  refine h.keep htop id rfl (.inl requested)
    (fun _ _ => .inr hidle) (fun _ => ⟨state, hpushed⟩) fun k hk => ⟨hk, fun hmem => ?_⟩
  rw [queue] at hmem
  exact (List.mem_cons.mp hmem).resolve_left (by rintro ⟨⟩)


theorem step (h : Stopped c) (hplaced : Placed c) (hheld : Held c) (hok : StopsApart c t i)
    (hstep : machine.Step c t i c') : Stopped c' := by
  obtain @⟨rest, x, s, pushed, htop, hexec⟩ := hstep
  have hactive := Config.active_of_top htop
  cases moves_of_exec (t := t) hexec with
  | connect | stop | skipClose | callback | removeConnection =>
    exact h.keep htop id rfl (.inl rfl) (fun _ => .inl)
      (fun hidle => ⟨hidle.1, by simp [Instr.attempts, Connector.Instr.attempts]⟩)
      fun _ hk => ⟨hk, id⟩
  | event i event =>
    refine h.keep htop id rfl (.inl rfl) (fun _ => .inl)
      (fun hidle => ⟨hidle.1, ?_⟩) fun _ hk => ⟨hk, id⟩
    obtain rfl | rfl := event <;> simp [Instr.attempts, Connector.Instr.attempts]
  | storeStart => exact .of_nil rfl
  | queueStart =>
    exact h.keep htop id rfl (.inl rfl)
      (fun _ hn => .inl (List.mem_append_left _ hn)) (fun hidle => ⟨hidle.1, by rintro _ ⟨⟩⟩)
      fun _ hk => ⟨hk, List.mem_append_left _⟩
  | storeStop n => exact h.store_stop htop
  | queueStop n => exact h.queue_stop htop
  | sawNone n none => exact h.snapshot_none hheld htop none
  | sawSome n k some => exact h.snapshot_some hheld htop some
  | forceClose n k => exact h.force_close htop
  | startInLoop functors queue requested =>
    refine .of_nil ?_
    by_contra hne
    have := h.requested hne
    rw [requested] at this
    cases this
  | skipStart functors queue =>
    refine h.keep htop id rfl (.inl rfl) (fun n hn => .inl ?_)
      (fun hidle => ⟨hidle.1, by simp [Instr.attempts]⟩) fun k hk => ⟨hk, fun hmem => ?_⟩
    · rw [queue] at hn
      exact (List.mem_cons.mp hn).resolve_left (by rintro ⟨⟩)
    · rw [queue] at hmem
      exact (List.mem_cons.mp hmem).resolve_left (by rintro ⟨⟩)
  | stopInLoop n functors connector fds queue state requested => exact h.stop_in_loop hplaced htop fds queue state requested
  | forceCloseInLoop k functors queue established =>
    refine h.keep htop id rfl (.inl rfl) (fun n hn => .inl ?_)
      (fun hidle => ⟨hidle.1, by simp [Instr.attempts]⟩)
      fun k' hk' => absurd hk' (hheld.vacant_of_close established k')
    rw [queue] at hn
    exact (List.mem_cons.mp hn).resolve_left (by rintro ⟨⟩)
  | skipForceClose k functors queue closed =>
    refine h.keep htop id rfl (.inl rfl) (fun n hn => .inl ?_)
      (fun hidle => ⟨hidle.1, by simp [Instr.attempts]⟩) fun k' hk' => ⟨hk', fun hmem => ?_⟩
    · rw [queue] at hn
      exact (List.mem_cons.mp hn).resolve_left (by rintro ⟨⟩)
    · rw [queue] at hmem
      refine (List.mem_cons.mp hmem).resolve_left fun heq => ?_
      cases heq
      exact closed hk'
  | close k established =>
    exact h.keep htop id rfl (.inl rfl) (fun _ => .inl)
      (fun hidle => ⟨hidle.1, by simp [Instr.attempts]⟩)
      fun k' hk' => absurd hk' (hheld.vacant_of_close established k')
  | connector called moves =>
    exact h.connector_step htop (does_of_moves moves (hplaced.internal t _ hactive) called)
  | newConnection =>
    refine h.keep htop id rfl (.inl rfl) (fun _ => .inl)
      (fun hidle => absurd trivial (hidle.2 t _ hactive)) fun k hk => ⟨?_, id⟩
    exact established_of_append hk
  | publish k => exact h.publish hok htop
  | connectDestroyed k =>
    exact h.keep htop id rfl (.inl rfl) (fun _ => .inl)
      (fun hidle => ⟨hidle.1, by rintro _ ⟨⟩⟩) fun k' hk' => ⟨(Held.established_of_close hk').1, id⟩

end Stopped

/-- At most one connection of the client is established, none when a new one is published, and none
when a `stop` has been carried out. -/
theorem stop_disconnects {users : Nat} {c : Config} (hrun : machine.Run StopsApart (init users) c) :
    (∀ k k', c.shared.established k → c.shared.established k' → k = k') ∧
      (∀ t k k', c.Active t (.publish k) → ¬c.shared.established k') ∧
      (Drained c → c.shared.connector.state = .kDisconnected ∧ ∀ k, ¬c.shared.established k) := by
  have h := hrun.invariant (I := fun c => Placed c ∧ Held c ∧ Stopped c)
    ⟨.init users, .init users, .of_nil rfl⟩ fun hc hok hstep =>
      ⟨hc.1.step hstep, hc.2.1.step hc.1 hok hstep, hc.2.2.step hc.1 hc.2.1 hok hstep⟩
  obtain ⟨hplaced, hheld, hstopped⟩ := h
  refine ⟨fun k k' hk hk' => ?_, fun t k k' hactive => hheld.busy t _ hactive trivial k', ?_⟩
  · have hcurrent := (hheld.held k hk).1
    rw [(hheld.held k' hk').1] at hcurrent
    exact (Option.some.inj hcurrent).symm
  · rintro ⟨⟨n, hstopping, hreturned⟩, hempty, -⟩
    have hover : ∀ t i, c.Active t i → i.carrying n = 0 := hplaced.carrying_eq_zero hreturned
    have hqueueing : ¬∃ t, c.Active t (.queueStop n) := fun ⟨t, hactive⟩ =>
      absurd (hover t _ hactive) (by simp [Instr.carrying])
    refine ⟨?_, fun k hk => ?_⟩
    · obtain hnot | hqueued | hidle := hstopped.quiet n hstopping
      · exact absurd hnot hqueueing
      · rw [hempty] at hqueued
        cases hqueued
      · exact hidle.1
    · obtain hnot | ⟨t, hactive⟩ | hclosed := hstopped.covered n hstopping
      · exact hqueueing hnot
      · exact absurd (hover t _ hactive) (by simp [Instr.carrying])
      · obtain hqueued | ⟨t, hactive⟩ := hclosed k hk
        · rw [hempty] at hqueued
          cases hqueued
        · exact absurd (hover t _ hactive) (by simp [Instr.carrying])

def closed : List (Nat × Choice) :=
  [(1, .connect), (1, .next), (1, .next), (0, .functor), (0, .connector (.socket true)),
    (0, .connector (.connect .inProgress)), (0, .writable), (0, .connector .next),
    (0, .connector (.socketError false)), (0, .connector .next), (2, .stop), (2, .next), (2, .next),
    (0, .connector .next), (0, .next), (0, .next), (2, .next), (2, .next), (0, .functor),
    (0, .functor), (0, .next), (0, .connector .next), (0, .connector .next), (0, .connector .next),
    (0, .next)]

theorem stop_disconnects_closed :
    (machine.follow (init 2) closed).shared.connector.state = .kDisconnected ∧
      ∀ k, ¬(machine.follow (init 2) closed).shared.established k :=
  (stop_disconnects (Machine.run_follow (by decide))).2.2 (by decide)

/-- `stop` looks for a connection after the loop has checked `connectRequested` and before it
publishes one. -/
def missed : List (Nat × Choice) :=
  [(1, .connect), (1, .next), (1, .next), (0, .functor), (0, .connector (.socket true)),
    (0, .connector (.connect .inProgress)), (0, .writable), (0, .connector .next),
    (0, .connector (.socketError false)), (0, .connector .next), (2, .stop), (2, .next), (2, .next),
    (2, .next), (0, .connector .next), (0, .next), (0, .next), (0, .functor)]

/-- One thread calls `connect`, `stop` and `connect` again before the loop sees that the first
attempt has succeeded. -/
def overwritten : List (Nat × Choice) :=
  [(1, .connect), (1, .next), (1, .next), (0, .functor), (0, .connector (.socket true)),
    (0, .connector (.connect .inProgress)), (1, .stop), (1, .next), (1, .next), (1, .next),
    (1, .connect), (1, .next), (1, .next), (0, .writable), (0, .connector .next),
    (0, .connector (.socketError false)), (0, .connector .next), (0, .connector .next), (0, .next),
    (0, .next), (0, .functor), (0, .functor), (0, .connector (.socket true)),
    (0, .connector (.connect .done)), (0, .connector .next), (0, .connector .next), (0, .next)]

theorem connected_after_stop :
    (∃ c, machine.Reaches (init 2) c ∧ Drained c ∧ c.shared.connection = some 0 ∧
      c.shared.established 0) ∧
    ∃ c t, machine.Reaches (init 1) c ∧ c.Active t (.publish 1) ∧ c.shared.connection = some 0 ∧
      c.shared.established 0 :=
  ⟨⟨_, Machine.reaches_follow missed, by decide⟩,
    _, 0, Machine.reaches_follow overwritten, by decide⟩

end UnixNotes.Reactor.TcpClient
