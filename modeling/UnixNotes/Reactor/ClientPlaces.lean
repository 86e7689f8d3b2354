import UnixNotes.Reactor.TcpClient
import Mathlib.Data.List.Nodup
import Mathlib.Data.List.Range

namespace UnixNotes.Reactor

open Library

namespace Connector

namespace Instr

def attempts : Instr → Prop
  | .createSocket | .connect _ | .testDelivery _ | .closeAndReset _ | .handOver _ | .testSocket _
  | .testRequested _ => True
  | _ => False

def delivers : Instr → Prop
  | .testDelivery _ | .closeAndReset _ | .handOver _ => True
  | _ => False

def stops : Instr → Prop
  | .storeRequested false | .runInLoop false | .stopInLoop => True
  | _ => False

def covers : Instr → Bool
  | .createSocket | .connect _ | .testDelivery _ | .closeAndReset _ | .handOver _ | .testSocket _
  | .testRequested _ | .handleWrite => true
  | _ => false

def ends : Instr → Prop
  | .callback | .close _ | .testError => True
  | _ => False

/-- What a client lets its connector do in the thread of the loop. -/
def internal (i : Instr) : Prop :=
  i.attempts ∨ i.stops ∨ i.ends ∨ i = .handleWrite ∨ i = .handleError

theorem ends.not_busy {i : Instr} (h : i.ends) : ¬(i.attempts ∨ i.stops) := by
  cases i <;> first | exact h.elim | exact fun hbusy => hbusy.elim id id

theorem attempts.covers {i : Instr} (h : i.attempts) : i.covers = true := by
  cases i <;> first | rfl | exact h.elim

end Instr

end Connector

namespace TcpClient

namespace Instr

def inLoop : Instr → Prop
  | .loop | .connector _ | .newConnection _ | .publish _ | .removeConnection _
  | .connectDestroyed _ => True
  | _ => False

def attempts : Instr → Prop
  | .connector i => i.attempts
  | .newConnection _ | .publish _ => True
  | _ => False

def covers : Instr → Bool
  | .connector i => i.covers
  | .loop | .newConnection _ | .publish _ => true
  | _ => false

def ends : Instr → Prop
  | .connector i => i.ends
  | _ => False

/-- What the thread of the loop does apart from the attempts and the events. -/
def plain : Instr → Prop
  | .connector i => i.stops ∨ i.ends
  | .removeConnection _ | .connectDestroyed _ => True
  | _ => False

def isLoop : Instr → Bool
  | .loop => true
  | _ => false

def delivers : Instr → Prop
  | .connector i => i.delivers
  | .newConnection _ | .publish _ => True
  | _ => False

/-- The client has no established connection here. -/
def busy : Instr → Prop
  | .connector i => i.attempts ∨ i.stops
  | .newConnection _ | .publish _ | .removeConnection _ | .connectDestroyed _ => True
  | _ => False

def closes (k : Nat) : Instr → Prop
  | .snapshot _ => True
  | .forceClose _ k' => k' = k
  | _ => False

def carrying (id : Nat) : Instr → Nat
  | .storeStop id' | .queueStop id' | .snapshot id' | .forceClose id' _ => if id' = id then 1 else 0
  | _ => 0

/-- The call to `stop` has not queued `stopInLoop` yet. -/
def yet (id : Nat) : Instr → Nat
  | .storeStop id' | .queueStop id' => if id' = id then 1 else 0
  | _ => 0

theorem delivers.attempts {i : Instr} (h : i.delivers) : i.attempts := by
  cases i with
  | connector i => cases i <;> trivial
  | _ => exact h

theorem attempts.busy {i : Instr} (h : i.attempts) : i.busy := by
  cases i with
  | connector i => exact .inl h
  | _ => trivial

theorem delivers.busy {i : Instr} (h : i.delivers) : i.busy := h.attempts.busy

theorem busy.inLoop {i : Instr} (h : i.busy) : i.inLoop := by
  cases i <;> trivial

end Instr

/-- A step of the connector in the thread of the loop, as the client sees it. -/
inductive Does (s : Connector.Shared) (i : Connector.Instr) (s' : Connector.Shared) :
    List Instr → Prop
  | attempt {j : Instr} (attempts : i.attempts) (next : j.attempts) (early : ∀ k, j ≠ .publish k)
      (delivers : j.delivers → s'.state = .kConnected ∨ i.delivers ∧ s'.state = s.state)
      (requested : s'.connectRequested = s.connectRequested) : Does s i s' [j]
  | ended {pushed : List Instr} (attempts : i.attempts)
      (requested : s'.connectRequested = s.connectRequested) (ends : ∀ j ∈ pushed, j.ends) :
      Does s i s' pushed
  | stop {pushed : List Instr} (stops : i.stops)
      (requested : s'.connectRequested = s.connectRequested ∨ s'.connectRequested = false)
      (state : s'.state = s.state ∨ s'.state = .kDisconnected) (plain : ∀ j ∈ pushed, j.plain) :
      Does s i s' pushed
  | found {socketFd : Nat} (event : i = .handleWrite) (connecting : s.state = .kConnecting)
      (requested : s'.connectRequested = s.connectRequested) :
      Does s i s' [.connector (.testSocket socketFd)]
  | rest {pushed : List Instr} (idle : ¬i.attempts ∧ ¬i.stops)
      (requested : s'.connectRequested = s.connectRequested)
      (state : s'.state = s.state ∨ s.state = .kConnecting ∧ s'.state = .kDisconnected)
      (ends : ∀ j ∈ pushed, j.ends) : Does s i s' pushed

theorem does_of_moves {s s' : Connector.Shared} {i : Connector.Instr}
    {after : List Connector.Instr} (h : Connector.Moves 0 s i s' after) (hi : i.internal)
    (hcalled : i ≠ .callback) : Does s i s' (Instr.ofConnector i after) := by
  cases h with
  | functor | writable | error | destroy | abort | user | startInLoop | skipStart =>
    rcases hi with hi | hi | hi | hi | hi <;> first | exact hi.elim | cases hi
  | call _ idle | setNewConnectionCallback _ idle | setErrorCallback _ idle =>
    obtain rfl | rfl := idle
    · rcases hi with hi | hi | hi | hi | hi <;> first | exact hi.elim | cases hi
    · exact absurd rfl hcalled
  | returned => exact absurd rfl hcalled
  | storeRequested requested =>
    cases requested with
    | true => rcases hi with hi | hi | hi | hi | hi <;> first | exact hi.elim | cases hi
    | false => exact .stop trivial (.inr rfl) (.inl rfl) (by simp [Instr.ofConnector, Instr.plain, Connector.Instr.stops])
  | runInLoop requested =>
    cases requested with
    | true => rcases hi with hi | hi | hi | hi | hi <;> first | exact hi.elim | cases hi
    | false => exact .stop trivial (.inl rfl) (.inl rfl) (by simp [Instr.ofConnector, Instr.plain, Connector.Instr.inLoop, Connector.Instr.stops])
  | queueInLoop requested =>
    cases requested with
    | true => rcases hi with hi | hi | hi | hi | hi <;> first | exact hi.elim | cases hi
    | false => exact .stop trivial (.inl rfl) (.inl rfl) (by rintro _ ⟨⟩)
  | cancel => exact .stop trivial (.inl rfl) (.inr rfl) (by simp [Instr.ofConnector, Instr.plain, Connector.Instr.ends])
  | reset => exact .stop trivial (.inl rfl) (.inr rfl) (by rintro _ ⟨⟩)
  | skipStop => exact .stop trivial (.inl rfl) (.inl rfl) (by rintro _ ⟨⟩)
  | handleWrite connecting =>
    cases s.socketFd with
    | none => exact .rest ⟨id, id⟩ rfl (.inl rfl) (by rintro _ ⟨⟩)
    | some fd => exact .found rfl connecting rfl
  | handleError connecting =>
    refine .rest ⟨id, id⟩ rfl (.inr ⟨connecting, rfl⟩) fun j hj => ?_
    simp only [Instr.ofConnector, List.map_append, List.map_map, List.mem_append, List.mem_map, List.map_cons, List.map_nil, List.mem_singleton] at hj
    obtain ⟨fd, -, rfl⟩ | rfl := hj <;> trivial
  | skipWrite | skipError | skipReport | close =>
    exact .rest ⟨id, id⟩ rfl (.inl rfl) (by rintro _ ⟨⟩)
  | reportError => exact .rest ⟨id, id⟩ rfl (.inl rfl) (by simp [Instr.ofConnector, Instr.ends, Connector.Instr.ends])
  | connected | requested | noCallback =>
    exact .attempt trivial trivial (by rintro _ ⟨⟩) (fun _ => .inl rfl) rfl
  | deliver | skipDelivery | handOver =>
    exact .attempt trivial trivial (by rintro _ ⟨⟩) (fun _ => .inr ⟨trivial, rfl⟩) rfl
  | createSocket | socketConnected =>
    exact .attempt trivial trivial (by rintro _ ⟨⟩) (fun h => h.elim) rfl
  | reportSocket | skipSocket | connecting | refused | closeAndReset | socketFailed
  | notRequested => exact .ended trivial rfl (by simp [Instr.ofConnector, Instr.ends, Connector.Instr.ends])

theorem Instr.ends.plain {i : Instr} (h : i.ends) : i.plain := by
  cases i <;> first | exact .inr h | exact h.elim

theorem Instr.plain.facts {i : Instr} (h : i.plain) :
    i.inLoop ∧ i.covers = false ∧ ¬i.attempts := by
  cases i with
  | connector i => cases i <;> first | exact ⟨trivial, rfl, id⟩ | exact (h.elim id id).elim
  | removeConnection | connectDestroyed => exact ⟨trivial, rfl, id⟩
  | _ => exact h.elim

theorem plain_all {pushed : List Instr} (h : ∀ j ∈ pushed, j.plain) :
    pushed.all (fun j => !j.covers) = true :=
  List.all_eq_true.mpr fun j hj => by rw [(h j hj).facts.2.1]; rfl

structure Placed (c : Config) : Prop where
  inLoop : ∀ t i, c.Active t i → i.inLoop → t = 0
  internal : ∀ t i, c.Active t (.connector i) → i.internal
  top : c.HeadOnly Instr.attempts
  covering : c.Covering Instr.covers Instr.isLoop
  account : ∀ id, c.total (Instr.carrying id) + c.shared.returned.count id =
    (List.range c.shared.stops).count id
  queued : ∀ id, c.total (Instr.yet id) + c.shared.functors.count (.stopInLoop id) ≤
    (List.range c.shared.stops).count id

namespace Placed

variable {c c' : Config} {t : Nat} {i : Instr} {rest pushed : List Instr} {s : Shared}

theorem replace (h : Placed c) (htop : c.stack t = i :: rest)
    (hinLoop : ∀ j ∈ pushed, j.inLoop → t = 0)
    (hinternal : ∀ j, .connector j ∈ pushed → j.internal)
    (hattempts : ∀ j ∈ pushed.tail, ¬j.attempts)
    (hcovering : Config.covering Instr.covers Instr.isLoop pushed = true)
    (hcovers : i.covers = true ∨ pushed.all (fun j => !j.covers) = true)
    (haccount : ∀ id, Config.weigh (Instr.carrying id) pushed + s.returned.count id +
        (List.range c.shared.stops).count id =
      i.carrying id + c.shared.returned.count id + (List.range s.stops).count id)
    (hqueued : ∀ id, Config.weigh (Instr.yet id) pushed + s.functors.count (.stopInLoop id) +
        (List.range c.shared.stops).count id ≤
      i.yet id + c.shared.functors.count (.stopInLoop id) + (List.range s.stops).count id) :
    Placed (c.replace t s (pushed ++ rest)) := by
  refine ⟨fun t' j hj hlocal => ?_, fun t' j hj => ?_, h.top.replace htop hattempts,
    h.covering.replace htop hcovering hcovers, fun id => ?_, fun id => ?_⟩
  · obtain ⟨rfl, hmem⟩ | hold := Config.active_of_replace htop hj
    · exact hinLoop j hmem hlocal
    · exact h.inLoop t' j hold hlocal
  · obtain ⟨-, hmem⟩ | hold := Config.active_of_replace htop hj
    · exact hinternal j hmem
    · exact h.internal t' j hold
  · have := Config.total_replace (Instr.carrying id) htop s pushed
    have := h.account id
    have := haccount id
    rw [Config.shared_replace]
    omega
  · have := Config.total_replace (Instr.yet id) htop s pushed
    have := h.queued id
    have := hqueued id
    rw [Config.shared_replace]
    omega

theorem carrying_of_inLoop {i : Instr} (h : i.inLoop) (id : Nat) :
    i.carrying id = 0 ∧ i.yet id = 0 := by
  cases i <;> first | exact h.elim | exact ⟨rfl, rfl⟩

theorem loop_step (h : Placed c) (htop : c.stack t = i :: rest) (hi : i.inLoop)
    (hpushed : ∀ j ∈ pushed, j.inLoop) (hinternal : ∀ j, .connector j ∈ pushed → j.internal)
    (hattempts : ∀ j ∈ pushed.tail, ¬j.attempts)
    (hcovering : Config.covering Instr.covers Instr.isLoop pushed = true)
    (hcovers : i.covers = true ∨ pushed.all (fun j => !j.covers) = true)
    (hreturned : s.returned = c.shared.returned) (hstops : s.stops = c.shared.stops)
    (hfunctors : s.functors.Sublist c.shared.functors) :
    Placed (c.replace t s (pushed ++ rest)) := by
  have ht := h.inLoop t i (Config.active_of_top htop) hi
  refine h.replace htop (fun _ _ _ => ht) hinternal hattempts hcovering hcovers (fun id => ?_)
    fun id => ?_
  · rw [hstops, hreturned, (carrying_of_inLoop hi id).1,
      Config.weigh_eq_zero fun j hj => (carrying_of_inLoop (hpushed j hj) id).1]
  · rw [hstops, (carrying_of_inLoop hi id).2,
      Config.weigh_eq_zero fun j hj => (carrying_of_inLoop (hpushed j hj) id).2]
    have := hfunctors.count_le (.stopInLoop id)
    omega

theorem plain_step (h : Placed c) (htop : c.stack t = i :: rest) (hi : i.inLoop)
    (hplain : ∀ j ∈ pushed, j.plain) (hreturned : s.returned = c.shared.returned)
    (hstops : s.stops = c.shared.stops) (hfunctors : s.functors.Sublist c.shared.functors) :
    Placed (c.replace t s (pushed ++ rest)) :=
  h.loop_step htop hi (fun j hj => (hplain j hj).facts.1)
    (fun _ hj => .inr ((hplain _ hj).imp_right .inl))
    (fun j hj => (hplain j (List.mem_of_mem_tail hj)).facts.2.2)
    (Config.covering_of_all (plain_all hplain)) (.inr (plain_all hplain)) hreturned hstops hfunctors

theorem event_step (h : Placed c) (htop : c.stack t = .loop :: rest) (pushed : List Instr)
    (hplain : ∀ j ∈ pushed, j.plain) (hreturned : s.returned = c.shared.returned)
    (hstops : s.stops = c.shared.stops) (hfunctors : s.functors.Sublist c.shared.functors) :
    Placed (c.replace t s (pushed ++ [Instr.loop] ++ rest)) := by
  refine h.loop_step htop trivial (fun j hj => ?_) (fun j hj => ?_) (fun j hj => ?_)
    (Config.covering_append rfl (Config.covering_of_all (plain_all hplain)) (.inl rfl)) (.inl rfl)
    hreturned hstops hfunctors
  · obtain hj | hj := List.mem_append.mp hj
    · exact (hplain j hj).facts.1
    · obtain rfl := List.mem_singleton.mp hj
      trivial
  · obtain hj | hj := List.mem_append.mp hj
    · exact .inr ((hplain _ hj).imp_right .inl)
    · cases List.mem_singleton.mp hj
  · obtain hj | hj := List.mem_append.mp (List.mem_of_mem_tail hj)
    · exact (hplain j hj).facts.2.2
    · obtain rfl := List.mem_singleton.mp hj
      exact id

theorem call_step (h : Placed c) (htop : c.stack t = i :: rest) (hpushed : ∀ j ∈ pushed, ¬j.inLoop)
    (haccount : ∀ id, Config.weigh (Instr.carrying id) pushed + s.returned.count id +
        (List.range c.shared.stops).count id =
      i.carrying id + c.shared.returned.count id + (List.range s.stops).count id)
    (hqueued : ∀ id, Config.weigh (Instr.yet id) pushed + s.functors.count (.stopInLoop id) +
        (List.range c.shared.stops).count id ≤
      i.yet id + c.shared.functors.count (.stopInLoop id) + (List.range s.stops).count id) :
    Placed (c.replace t s (pushed ++ rest)) := by
  have hnot : ∀ j ∈ pushed, ¬j.attempts ∧ j.covers = false := fun j hj => by
    have := hpushed j hj
    cases j <;> first | exact absurd trivial this | exact ⟨id, rfl⟩
  refine h.replace htop (fun j hj hin => absurd hin (hpushed j hj))
    (fun j hj => absurd trivial (hpushed _ hj)) (fun j hj => (hnot j (List.mem_of_mem_tail hj)).1) ?_
    (.inr (List.all_eq_true.mpr fun j hj => by rw [(hnot j hj).2]; rfl)) haccount hqueued
  clear haccount hqueued hpushed
  induction pushed with
  | nil => rfl
  | cons j pushed ih =>
    rw [Config.covering, (hnot j (List.mem_cons_self ..)).2,
      ih fun j' hj => hnot j' (List.mem_cons_of_mem j hj)]
    rfl

theorem init (users : Nat) : Placed (init users) := by
  have hlength : ∀ stack ∈ (TcpClient.init users).threads, stack.length ≤ 1 := by
    simp [TcpClient.init]
  have hactive : ∀ {t i}, (TcpClient.init users).Active t i → i = .loop ∧ t = 0 ∨ i = .user := by
    intro t i h
    cases t with
    | zero => exact .inl ⟨List.mem_singleton.mp h, rfl⟩
    | succ t => exact .inr (Config.eq_of_active_replicate h)
  refine ⟨fun t i h hi => ?_, fun t i h => ?_, .of_length hlength, fun t => ?_, fun id => ?_,
    fun id => ?_⟩
  · obtain ⟨-, ht⟩ | rfl := hactive h
    · exact ht
    · exact hi.elim
  · obtain ⟨heq, -⟩ | heq := hactive h <;> cases heq
  · have hle := Config.length_stack_le hlength t
    match hstack : (TcpClient.init users).stack t with
    | [] => rfl
    | [i] => simp [Config.covering]
    | i :: j :: rest => simp [hstack] at hle
  · simp [Config.total, TcpClient.init, Instr.carrying]
  · simp [Config.total, TcpClient.init, Instr.yet]

theorem attempt_step (h : Placed c) (htop : c.stack t = i :: rest) (hcovers : i.covers = true)
    {j : Instr} (hj : j.attempts) (hreturned : s.returned = c.shared.returned)
    (hstops : s.stops = c.shared.stops) (hfunctors : s.functors = c.shared.functors) :
    Placed (c.replace t s ([j] ++ rest)) := by
  have hi : i.inLoop := by cases i <;> trivial
  refine h.loop_step htop hi (fun k hk => ?_) (fun k hk => ?_) (by simp)
    (by simp [Config.covering]) (.inl hcovers) hreturned hstops (by rw [hfunctors])
  · obtain rfl := List.mem_singleton.mp hk
    cases k <;> trivial
  · obtain rfl := List.mem_singleton.mp hk
    exact .inl hj

theorem connector_step {i : Connector.Instr} {connector : Connector.Shared}
    (h : Placed c) (htop : c.stack t = .connector i :: rest)
    (hdoes : Does c.shared.connector i connector pushed) :
    Placed (c.replace t { c.shared with connector := connector } (pushed ++ rest)) := by
  cases hdoes with
  | attempt attempts next => exact h.attempt_step htop attempts.covers next rfl rfl rfl
  | found event =>
    subst event
    exact h.attempt_step htop rfl trivial rfl rfl rfl
  | ended _ _ ends | rest _ _ _ ends =>
    exact h.plain_step htop trivial (fun j hj => (ends j hj).plain) rfl rfl (List.Sublist.refl _)
  | stop _ _ _ plain => exact h.plain_step htop trivial plain rfl rfl (List.Sublist.refl _)

theorem step (h : Placed c) (hstep : machine.Step c t i c') : Placed c' := by
  obtain @⟨rest, x, s, pushed, htop, hexec⟩ := hstep
  cases moves_of_exec (t := t) hexec with
  | connect =>
    exact h.call_step htop (by simp [Instr.inLoop]) (fun _ => rfl) fun _ => Nat.le_refl _
  | stop =>
    refine h.call_step htop (by simp [Instr.inLoop]) (fun id => ?_) fun id => ?_
    · simp only [Config.weigh_cons, Config.weigh_nil, Instr.carrying, List.range_succ,
        List.count_append, List.count_singleton, beq_iff_eq]
      omega
    · simp only [Config.weigh_cons, Config.weigh_nil, Instr.yet, List.range_succ,
        List.count_append, List.count_singleton, beq_iff_eq]
      omega
  | storeStart =>
    exact h.call_step htop (by simp [Instr.inLoop]) (fun _ => rfl) fun _ => Nat.le_refl _
  | storeStop id =>
    exact h.call_step htop (by simp [Instr.inLoop]) (fun _ => rfl) fun _ => Nat.le_refl _
  | queueStart =>
    exact h.call_step htop nofun (fun _ => rfl) fun id => by simp
  | queueStop id =>
    refine h.call_step htop (by simp [Instr.inLoop]) (fun _ => rfl) fun id' => ?_
    simp only [Config.weigh_cons, Config.weigh_nil, Instr.yet, List.count_append,
      List.count_singleton, beq_iff_eq, Functor.stopInLoop.injEq]
    omega
  | sawNone id =>
    refine h.call_step htop nofun (fun id' => ?_) fun _ => Nat.le_refl _
    simp only [Config.weigh_nil, Instr.carrying, List.count_cons, beq_iff_eq]
    omega
  | sawSome id k =>
    exact h.call_step htop (by simp [Instr.inLoop]) (fun _ => rfl) fun _ => Nat.le_refl _
  | forceClose id k =>
    refine h.call_step htop nofun (fun id' => ?_) fun id' => ?_
    · simp only [Config.weigh_nil, Instr.carrying, List.count_cons, beq_iff_eq]
      omega
    · simp [Instr.yet]
  | connector called moves =>
    exact h.connector_step htop
      (does_of_moves moves (h.internal t _ (Config.active_of_top htop)) called)
  | startInLoop functors queue =>
    exact h.loop_step htop trivial (by simp [Instr.inLoop])
      (by simp [Connector.Instr.internal, Connector.Instr.attempts]) (by simp [Instr.attempts])
      rfl (.inl rfl) rfl rfl (by rw [queue]; exact List.sublist_cons_self ..)
  | skipStart functors queue | skipForceClose _ functors queue =>
    exact h.event_step htop [] nofun rfl rfl
      (by rw [queue]; exact List.sublist_cons_self ..)
  | stopInLoop id functors connector fds queue =>
    refine h.event_step htop _ (fun j hj => ?_) rfl rfl
      (by rw [queue]; exact List.sublist_cons_self ..)
    obtain ⟨fd, -, rfl⟩ := List.mem_map.mp hj
    exact .inr trivial
  | forceCloseInLoop k functors queue =>
    exact h.event_step htop [.removeConnection k] (by simp [Instr.plain]) rfl rfl
      (by rw [queue]; exact List.sublist_cons_self ..)
  | event i event =>
    obtain rfl | rfl := event <;>
      exact h.loop_step htop trivial (by simp [Instr.inLoop])
        (by simp [Connector.Instr.internal]) (by simp [Instr.attempts, Connector.Instr.attempts]) rfl
        (.inl rfl) rfl rfl (List.Sublist.refl _)
  | close k =>
    exact h.event_step htop [.removeConnection k] (by simp [Instr.plain]) rfl rfl
      (List.Sublist.refl _)
  | skipClose => exact h.event_step htop [] nofun rfl rfl (List.Sublist.refl _)
  | callback | connectDestroyed =>
    exact h.plain_step htop trivial nofun rfl rfl (List.Sublist.refl _)
  | newConnection => exact h.attempt_step htop rfl (j := .publish _) trivial rfl rfl rfl
  | publish => exact h.plain_step htop trivial nofun rfl rfl (List.Sublist.refl _)
  | removeConnection k =>
    exact h.plain_step htop trivial (by simp [Instr.plain, Connector.Instr.stops]) rfl rfl
      (List.Sublist.refl _)

theorem carrying_eq_zero (h : Placed c) {n : Nat} (hreturned : n ∈ c.shared.returned) (t : Nat)
    (i : Instr) (hactive : c.Active t i) : i.carrying n = 0 := by
  have := h.account n
  have := Config.le_total (w := Instr.carrying n) hactive
  have := List.count_pos_iff.mpr hreturned
  have := List.nodup_iff_count_le_one.mp (List.nodup_range (n := c.shared.stops)) n
  omega

theorem not_mem_functors (h : Placed c) {id : Nat} (hactive : c.Active t i) (hi : i.yet id = 1) :
    .stopInLoop id ∉ c.shared.functors := by
  have := h.queued id
  have := Config.le_total (w := Instr.yet id) hactive
  have := List.nodup_iff_count_le_one.mp (List.nodup_range (n := c.shared.stops)) id
  rw [← List.count_eq_zero]
  omega

end Placed

end TcpClient

end UnixNotes.Reactor
