import UnixNotes.Reactor.Connector
import Mathlib.Data.List.Nodup
import Mathlib.Data.List.Range

namespace UnixNotes.Reactor.Connector

open Library

def Settled (state : State) (socketFd : Option Nat) : Prop :=
  socketFd.isSome = true ↔ state = .kConnecting

def Fits (state : State) (socketFd : Option Nat) : Instr → Prop
  | .createSocket | .connect _ => state = .kDisconnected ∧ socketFd = none
  | .testSocket _ | .testRequested _ => state = .kConnecting ∧ socketFd = none
  | .testDelivery _ | .closeAndReset _ => state = .kConnected ∧ socketFd = none
  | _ => Settled state socketFd

def FitsNext (state : State) (socketFd : Option Nat) : List Instr → Prop
  | [] => Settled state socketFd
  | i :: _ => Fits state socketFd i

namespace Instr

def immediate : Instr → Prop
  | .createSocket | .connect _ | .testSocket _ | .testRequested _ | .testDelivery _
  | .closeAndReset _ => True
  | _ => False

def foreign : Instr → Prop
  | .user | .storeRequested _ | .runInLoop _ => True
  | _ => False

def idle : Instr → Prop
  | .loop | .callback => True
  | _ => False

def carrying (fd : Nat) (i : Instr) : Nat := i.carries.toList.count fd

end Instr

theorem Settled.fits {state : State} {socketFd : Option Nat} (h : Settled state socketFd)
    {i : Instr} (hi : ¬i.immediate) : Fits state socketFd i := by
  cases i with
  | createSocket | connect | testSocket | testRequested | testDelivery | closeAndReset =>
    exact absurd trivial hi
  | _ => exact h

theorem Settled.eq_none {state : State} {socketFd : Option Nat} (h : Settled state socketFd)
    (hstate : state ≠ .kConnecting) : socketFd = none := by
  cases socketFd with
  | none => rfl
  | some fd => exact absurd (h.mp rfl) hstate

theorem settled_none {state : State} (h : state ≠ .kConnecting) : Settled state none :=
  ⟨nofun, fun hstate => absurd hstate h⟩

theorem settled_of_disconnected {state : State} {socketFd : Option Nat}
    (h : state = .kDisconnected ∧ socketFd = none) : Settled state socketFd := by
  rw [h.1, h.2]
  exact settled_none nofun

/-- How often a socket has been closed or handed over, or is in the connector. -/
def Shared.ledger (s : Shared) (fd : Nat) : Nat :=
  s.closed.count fd + s.handed.count fd + s.socketFd.toList.count fd

theorem ledger_removed (s : Shared) (fd : Nat) {make : Nat → Instr}
    (hmake : ∀ socketFd, (make socketFd).carries = some socketFd) :
    s.removeAndResetChannel.ledger fd +
      Config.weigh (Instr.carrying fd) (s.socketFd.toList.map make) = s.ledger fd := by
  simp only [Shared.ledger, Shared.removeAndResetChannel]
  cases s.socketFd with
  | none => rfl
  | some socketFd => simp [Instr.carrying, hmake]

structure Untouched (s s' : Shared) : Prop where
  state : s'.state = s.state
  socketFd : s'.socketFd = s.socketFd
  channel : s'.channel = s.channel
  alive : s'.alive = s.alive
  created : s'.created = s.created
  closed : s'.closed = s.closed
  handed : s'.handed = s.handed

theorem Untouched.refl (s : Shared) : Untouched s s := ⟨rfl, rfl, rfl, rfl, rfl, rfl, rfl⟩

structure Sound (c : Config) : Prop where
  channel : c.shared.channel = c.shared.socketFd
  inLoop : ∀ t i, c.Active t i → ¬i.foreign → t = 0
  resting : c.HeadOnly Instr.immediate
  bottom : c.LastOnly (· = .loop)
  fits : ∀ i rest, c.stack 0 = i :: rest → Fits c.shared.state c.shared.socketFd i
  account : ∀ fd, c.shared.ledger fd + c.total (Instr.carrying fd) =
    (List.range c.shared.created).count fd
  gone : c.shared.alive = false → c.stack 0 = [] ∧ c.shared.socketFd = none

namespace Sound

variable {c c' : Config} {t : Nat} {i : Instr} {rest pushed : List Instr} {s : Shared}

theorem init (users : Nat) : Sound (init users) := by
  have hlength : ∀ stack ∈ (Connector.init users).threads, stack.length ≤ 1 := by
    simp [Connector.init]
  refine ⟨rfl, fun t i hactive hi => ?_, .of_length hlength, .of_length hlength,
    fun i rest htop => ?_, fun fd => ?_, nofun⟩
  · cases t with
    | zero => rfl
    | succ t =>
      obtain rfl := Config.eq_of_active_replicate hactive
      exact absurd trivial hi
  · cases htop
    exact settled_none nofun
  · simp [Shared.ledger, Config.total, Connector.init, Instr.carrying, Instr.carries]

theorem replace (h : Sound c) (htop : c.stack t = i :: rest) (hchannel : s.channel = s.socketFd)
    (hview : t ≠ 0 → s.state = c.shared.state ∧ s.socketFd = c.shared.socketFd)
    (hinLoop : ∀ j ∈ pushed, ¬j.foreign → t = 0) (hresting : ∀ j ∈ pushed.tail, ¬j.immediate)
    (hlast : ∀ j ∈ pushed.dropLast, j ≠ .loop) (hbottom : i = .loop ∨ ∀ j ∈ pushed, j ≠ .loop)
    (hfits : t = 0 → FitsNext s.state s.socketFd pushed)
    (haccount : ∀ fd, s.ledger fd + Config.weigh (Instr.carrying fd) pushed +
        (List.range c.shared.created).count fd =
      c.shared.ledger fd + i.carrying fd + (List.range s.created).count fd)
    (hgone : s.alive = false →
      c.shared.alive = false ∨ t = 0 ∧ pushed ++ rest = [] ∧ s.socketFd = none) :
    Sound (c.replace t s (pushed ++ rest)) := by
  refine ⟨hchannel, fun t' j hj hlocal => ?_, h.resting.replace htop hresting,
    h.bottom.replace htop hlast hbottom, fun j rest' htop' => ?_, fun fd => ?_, fun hdead => ?_⟩
  · obtain ⟨rfl, hmem⟩ | hold := Config.active_of_replace htop hj
    · exact hinLoop j hmem hlocal
    · exact h.inLoop t' j hold hlocal
  · by_cases ht : t = 0
    · subst ht
      have hfits := hfits rfl
      rw [Config.stack_replace_self htop] at htop'
      cases pushed with
      | nil =>
        refine hfits.fits (h.resting 0 j ?_)
        rw [htop, List.tail_cons, show rest = j :: rest' from htop']
        exact List.mem_cons_self ..
      | cons k pushed =>
        rw [List.cons_append, List.cons.injEq] at htop'
        rw [← htop'.1]
        exact hfits
    · rw [Config.stack_replace_ne _ _ _ (Ne.symm ht)] at htop'
      rw [Config.shared_replace, (hview ht).1, (hview ht).2]
      exact h.fits j rest' htop'
  · have htotal := Config.total_replace (Instr.carrying fd) htop s pushed
    have := h.account fd
    have := haccount fd
    rw [Config.shared_replace]
    omega
  · obtain hbefore | ⟨rfl, hempty, hnone⟩ := hgone hdead
    · obtain ⟨hstack, hnone⟩ := h.gone hbefore
      have ht : t ≠ 0 := by
        rintro rfl
        rw [hstack] at htop
        cases htop
      rw [Config.stack_replace_ne _ _ _ (Ne.symm ht), Config.shared_replace, (hview ht).2]
      exact ⟨hstack, hnone⟩
    · rw [Config.stack_replace_self htop]
      exact ⟨hempty, hnone⟩

theorem keep (h : Sound c) (htop : c.stack t = i :: rest) (hsame : Untouched c.shared s)
    (hinLoop : ∀ j ∈ pushed, ¬j.foreign → t = 0) (hresting : ∀ j ∈ pushed.tail, ¬j.immediate)
    (hlast : ∀ j ∈ pushed.dropLast, j ≠ .loop) (hbottom : i = .loop ∨ ∀ j ∈ pushed, j ≠ .loop)
    (hfits : t = 0 → FitsNext c.shared.state c.shared.socketFd pushed)
    (hcarrying : ∀ fd, Config.weigh (Instr.carrying fd) pushed = i.carrying fd) :
    Sound (c.replace t s (pushed ++ rest)) := by
  refine h.replace htop ?_ (fun _ => ⟨hsame.state, hsame.socketFd⟩) hinLoop hresting hlast hbottom
    ?_ (fun fd => ?_) fun hdead => .inl (hsame.alive.symm.trans hdead)
  · rw [hsame.channel, hsame.socketFd]
    exact h.channel
  · rw [hsame.state, hsame.socketFd]
    exact hfits
  · rw [Shared.ledger, Shared.ledger, hsame.closed, hsame.handed, hsame.socketFd, hsame.created,
      hcarrying]

theorem inLoop_fits {state : State} {socketFd : Option Nat} (h : Settled state socketFd)
    (requested : Bool) : Fits state socketFd (Instr.inLoop requested) := by
  cases requested <;> exact h

theorem settled (h : Sound c) (htop : c.stack 0 = i :: rest) (hi : i.idle) :
    Settled c.shared.state c.shared.socketFd := by
  have hfits := h.fits i rest htop
  cases i <;> first | exact hfits | exact hi.elim

theorem setState (h : Sound c) (htop : c.stack 0 = i :: rest) (state : State)
    (hresting : ∀ j ∈ pushed.tail, ¬j.immediate) (hloop : ∀ j ∈ pushed, j ≠ .loop)
    (hfits : FitsNext state c.shared.socketFd pushed)
    (hcarrying : ∀ fd, Config.weigh (Instr.carrying fd) pushed = i.carrying fd) :
    Sound (c.replace 0 { c.shared with state := state } (pushed ++ rest)) := by
  refine h.replace htop h.channel (fun ht => absurd rfl ht) (fun _ _ _ => rfl) hresting
    (fun j hj => hloop j (List.dropLast_subset _ hj)) (.inr hloop) (fun _ => hfits)
    (fun fd => ?_) .inl
  rw [hcarrying]
  rfl

theorem remove (h : Sound c) (htop : c.stack 0 = i :: rest) (state : State) (make : Nat → Instr)
    (after : List Instr) (hi : i.carries = none)
    (hmake : ∀ fd, (make fd).carries = some fd)
    (hafter : ∀ fd, Config.weigh (Instr.carrying fd) after = 0)
    (hresting : ∀ j ∈ after, ¬j.immediate) (hloop : ∀ j ∈ after, j ≠ .loop)
    (hfits : FitsNext state none (c.shared.socketFd.toList.map make ++ after)) :
    Sound (c.replace 0 { c.shared.removeAndResetChannel with state := state }
      ((c.shared.socketFd.toList.map make ++ after) ++ rest)) := by
  have hmade (fd : Nat) : make fd ≠ .loop := by
    intro heq
    have := hmake fd
    rw [heq] at this
    cases this
  have hpushed : ∀ j ∈ c.shared.socketFd.toList.map make ++ after, j ≠ .loop := by
    intro j hj
    obtain hj | hj := List.mem_append.mp hj
    · obtain ⟨fd, -, rfl⟩ := List.mem_map.mp hj
      exact hmade fd
    · exact hloop j hj
  refine h.replace htop rfl (fun ht => absurd rfl ht) (fun _ _ _ => rfl) (fun j hj => ?_)
    (fun j hj => hpushed j (List.dropLast_subset _ hj)) (.inr hpushed) (fun _ => hfits)
    (fun fd => ?_) .inl
  · cases hfd : c.shared.socketFd with
    | none =>
      rw [hfd] at hj
      exact hresting j (List.mem_of_mem_tail hj)
    | some fd =>
      rw [hfd] at hj
      exact hresting j hj
  · have hledger := ledger_removed c.shared fd hmake
    rw [Config.weigh_append, hafter, Instr.carrying, hi]
    exact congrArg (· + _) hledger

theorem destroy (h : Sound c) (htop : c.stack 0 = .loop :: rest) (free : c.shared.channel = none) :
    Sound (c.replace 0 c.shared.destroy ([] ++ rest)) := by
  obtain rfl := h.bottom.rest_eq_nil htop rfl
  refine h.replace htop free (fun ht => absurd rfl ht) nofun nofun nofun (.inl rfl)
    (fun _ => settled_none nofun) (fun fd => ?_) fun _ => .inr ⟨rfl, rfl, rfl⟩
  simp only [Shared.ledger, Shared.destroy, List.count_append, Option.toList_none,
    List.count_nil, Config.weigh_nil, Instr.carrying, Instr.carries]
  omega

theorem createSocket (h : Sound c) (htop : c.stack 0 = .createSocket :: rest) :
    Sound (c.replace 0 { c.shared with created := c.shared.created + 1 }
      ([.connect c.shared.created] ++ rest)) := by
  have hfits := h.fits _ rest htop
  refine h.replace htop h.channel (fun _ => ⟨rfl, rfl⟩) (fun _ _ _ => rfl) (by simp) (by simp)
    (by simp) (fun _ => hfits) (fun fd => ?_) .inl
  simp only [Shared.ledger, Config.weigh_cons, Config.weigh_nil, Instr.carrying, Instr.carries,
    Option.toList_some, Option.toList_none, List.count_nil, List.range_succ, List.count_append]
  omega

theorem connecting {socketFd : Nat} (h : Sound c) (htop : c.stack 0 = .connect socketFd :: rest) :
    Sound (c.replace 0
      { c.shared with state := .kConnecting, socketFd := socketFd, channel := socketFd }
      ([] ++ rest)) := by
  obtain ⟨-, hnone⟩ := h.fits _ rest htop
  refine h.replace htop rfl (fun ht => absurd rfl ht) nofun nofun nofun (by simp)
    (fun _ => ⟨fun _ => rfl, fun _ => rfl⟩) (fun fd => ?_) .inl
  simp [Shared.ledger, hnone, Instr.carrying, Instr.carries]

theorem closeAndReset {socketFd : Nat} (h : Sound c)
    (htop : c.stack 0 = .closeAndReset socketFd :: rest) :
    Sound (c.replace 0 { c.shared.close socketFd with state := .kDisconnected } ([] ++ rest)) := by
  obtain ⟨-, hnone⟩ := h.fits _ rest htop
  refine h.replace htop h.channel (fun ht => absurd rfl ht) nofun nofun nofun (by simp)
    (fun _ => settled_of_disconnected ⟨rfl, hnone⟩) (fun fd => ?_) .inl
  simp only [Shared.ledger, Shared.close, List.count_append, Config.weigh_nil, Instr.carrying,
    Instr.carries, Option.toList_some]
  omega

theorem handOver {socketFd : Nat} (h : Sound c) (htop : c.stack 0 = .handOver socketFd :: rest) :
    Sound (c.replace 0 { c.shared with handed := c.shared.handed ++ [socketFd] }
      ([.callback] ++ rest)) := by
  have hfits := h.fits _ rest htop
  refine h.replace htop h.channel (fun _ => ⟨rfl, rfl⟩) (fun _ _ _ => rfl) (by simp) (by simp)
    (by simp) (fun _ => hfits) (fun fd => ?_) .inl
  simp only [Shared.ledger, List.count_append, Config.weigh_cons, Config.weigh_nil,
    Instr.carrying, Instr.carries, Option.toList_some, Option.toList_none, List.count_nil]
  omega

theorem close {socketFd : Nat} (h : Sound c) (htop : c.stack 0 = .close socketFd :: rest) :
    Sound (c.replace 0 (c.shared.close socketFd) ([] ++ rest)) := by
  have hfits := h.fits _ rest htop
  refine h.replace htop h.channel (fun _ => ⟨rfl, rfl⟩) nofun nofun nofun (by simp)
    (fun _ => hfits) (fun fd => ?_) .inl
  simp only [Shared.ledger, Shared.close, List.count_append, Config.weigh_nil, Instr.carrying,
    Instr.carries, Option.toList_some]
  omega

theorem step_outside (h : Sound c) (htop : c.stack t = i :: rest) (hi : i.idle ∨ i.foreign)
    (hmoves : Moves t c.shared i s pushed) : Sound (c.replace t s (pushed ++ rest)) := by
  have hloop := h.inLoop t i (Config.active_of_top htop)
  have hfits : t = 0 → Fits c.shared.state c.shared.socketFd i := fun ht => by
    subst ht
    exact h.fits i rest htop
  cases hmoves with
  | functor requested functors =>
    refine h.keep htop ⟨rfl, rfl, rfl, rfl, rfl, rfl, rfl⟩ (fun _ _ _ => hloop id)
      (by simp [Instr.immediate]) ?_ (.inl rfl) (fun ht => inLoop_fits (hfits ht) requested)
      fun fd => ?_
    · cases requested <;> simp [Instr.inLoop]
    · cases requested <;> rfl
  | writable | error =>
    exact h.keep htop (.refl _) (fun _ _ _ => hloop id) (by simp [Instr.immediate]) (by simp)
      (.inl rfl) hfits fun _ => rfl
  | destroy free =>
    obtain rfl := hloop id
    exact h.destroy htop free
  | abort =>
    exact h.keep htop ⟨rfl, rfl, rfl, rfl, rfl, rfl, rfl⟩ nofun nofun nofun (.inl rfl) hfits
      fun _ => rfl
  | call requested idle =>
    obtain rfl | rfl := idle <;>
      exact h.keep htop (.refl _) (fun _ _ _ => hloop id) (by simp [Instr.immediate]) (by simp)
        (by simp) hfits fun _ => rfl
  | setNewConnectionCallback set idle | setErrorCallback set idle =>
    obtain rfl | rfl := idle <;>
      exact h.keep htop ⟨rfl, rfl, rfl, rfl, rfl, rfl, rfl⟩ (fun _ _ _ => hloop id) (by simp)
        (by simp) (by simp) hfits fun _ => rfl
  | returned => exact h.keep htop (.refl _) nofun nofun nofun (by simp) hfits fun _ => rfl
  | user requested =>
    exact h.keep htop ⟨rfl, rfl, rfl, rfl, rfl, rfl, rfl⟩ (by simp [Instr.foreign])
      (by simp [Instr.immediate]) (by simp) (by simp) hfits fun _ => rfl
  | storeRequested requested =>
    exact h.keep htop ⟨rfl, rfl, rfl, rfl, rfl, rfl, rfl⟩ (by simp [Instr.foreign]) (by simp)
      (by simp) (by simp) hfits fun _ => rfl
  | runInLoop requested here =>
    refine h.keep htop (.refl _) (fun _ _ _ => here) (by simp) (by simp) (.inr ?_)
      (fun ht => inLoop_fits (hfits ht) requested) fun fd => ?_
    · cases requested <;> simp [Instr.inLoop]
    · cases requested <;> rfl
  | queueInLoop requested =>
    exact h.keep htop ⟨rfl, rfl, rfl, rfl, rfl, rfl, rfl⟩ nofun nofun nofun (by simp) hfits
      fun _ => rfl
  | _ => obtain hi | hi := hi <;> exact hi.elim

theorem step_inside (h : Sound c) (htop : c.stack 0 = i :: rest) (hi : ¬(i.idle ∨ i.foreign))
    (hmoves : Moves 0 c.shared i s pushed) : Sound (c.replace 0 s (pushed ++ rest)) := by
  have hfits := h.fits i rest htop
  cases hmoves with
  | functor | writable | error | destroy | abort | returned => exact absurd (.inl trivial) hi
  | user | storeRequested | runInLoop | queueInLoop => exact absurd (.inr trivial) hi
  | call _ idle | setNewConnectionCallback _ idle | setErrorCallback _ idle =>
    obtain rfl | rfl := idle <;> exact absurd (.inl trivial) hi
  | startInLoop _ disconnected =>
    have hnone := Settled.eq_none hfits (by rw [disconnected]; nofun)
    exact h.keep htop (.refl _) (fun _ _ _ => rfl) (by simp) (by simp) (by simp)
      (fun _ => ⟨disconnected, hnone⟩) fun _ => rfl
  | createSocket => exact h.createSocket htop
  | reportSocket | refused socketFd =>
    exact h.keep htop (.refl _) (fun _ _ _ => rfl) (by simp [Instr.immediate]) (by simp) (by simp)
      (fun _ => settled_of_disconnected hfits) fun _ => rfl
  | skipSocket =>
    exact h.keep htop (.refl _) nofun nofun nofun (by simp)
      (fun _ => settled_of_disconnected hfits) fun _ => rfl
  | connected socketFd =>
    exact h.setState htop .kConnected (by simp) (by simp) ⟨rfl, hfits.2⟩ fun _ => rfl
  | connecting socketFd => exact h.connecting htop
  | deliver socketFd =>
    obtain ⟨hstate, hnone⟩ := hfits
    refine h.keep htop (.refl _) (fun _ _ _ => rfl) (by simp) (by simp) (by simp) (fun _ => ?_)
      fun _ => rfl
    rw [hstate, hnone]
    exact settled_none nofun
  | skipDelivery socketFd | socketConnected socketFd | reportError =>
    exact h.keep htop (.refl _) (fun _ _ _ => rfl) (by simp) (by simp) (by simp) (fun _ => hfits)
      fun _ => rfl
  | closeAndReset socketFd => exact h.closeAndReset htop
  | handOver socketFd => exact h.handOver htop
  | close socketFd => exact h.close htop
  | cancel connecting =>
    have hremove := h.remove htop .kDisconnected .close [] rfl (fun _ => rfl)
      (fun _ => rfl) nofun nofun (by cases c.shared.socketFd <;> exact settled_none nofun)
    rwa [List.append_nil] at hremove
  | reset connected =>
    have hnone := Settled.eq_none hfits (by rw [connected]; nofun)
    exact h.setState htop .kDisconnected nofun nofun (hnone ▸ settled_none nofun) fun _ => rfl
  | handleWrite connecting =>
    obtain ⟨fd, hfd⟩ := Option.isSome_iff_exists.mp (Iff.mpr hfits connecting)
    have hremove := h.remove htop c.shared.state .testSocket [] rfl
      (fun _ => rfl) (fun _ => rfl) nofun nofun (by rw [hfd]; exact ⟨connecting, rfl⟩)
    rwa [List.append_nil] at hremove
  | handleError connecting =>
    exact h.remove htop .kDisconnected .close [.testError] rfl (fun _ => rfl)
      (fun _ => rfl) (by simp [Instr.immediate]) (by simp)
      (by cases c.shared.socketFd <;> exact settled_none nofun)
  | socketFailed socketFd | notRequested socketFd =>
    exact h.setState htop .kDisconnected (by simp [Instr.immediate]) (by simp)
      (settled_of_disconnected ⟨rfl, hfits.2⟩) fun _ => rfl
  | requested socketFd =>
    have hsettled : Settled .kConnected c.shared.socketFd := by
      rw [hfits.2]
      exact settled_none nofun
    exact h.setState htop .kConnected (by simp) (by simp) hsettled fun _ => rfl
  | noCallback socketFd =>
    exact h.setState htop .kConnected (by simp) (by simp) ⟨rfl, hfits.2⟩ fun _ => rfl
  | skipStart | skipStop | skipWrite | skipError | skipReport =>
    exact h.keep htop (.refl _) nofun nofun nofun (by simp) (fun _ => hfits) fun _ => rfl

theorem step (h : Sound c) (hstep : machine.Step c t i c') : Sound c' := by
  obtain @⟨rest, x, s, pushed, htop, hexec⟩ := hstep
  have hmoves := moves_of_exec (t := t) hexec
  by_cases hi : i.idle ∨ i.foreign
  · exact h.step_outside htop hi hmoves
  · obtain rfl : t = 0 := h.inLoop t i (Config.active_of_top htop) fun hforeign => hi (.inr hforeign)
    exact h.step_inside htop hi hmoves

theorem aborted_step (h : Sound c) (hstep : machine.Step c t i c')
    (haborted : c'.shared.aborted = true) : c'.shared.state = .kConnecting := by
  obtain @⟨rest, x, s, pushed, htop, hexec⟩ := hstep
  obtain ⟨hact, hbefore⟩ := act_of_exec hexec
  cases moves_of_act (t := t) hact with
  | abort connecting =>
    obtain rfl := h.inLoop t .loop (Config.active_of_top htop) id
    rw [h.channel] at connecting
    exact (h.settled htop trivial).mp (Option.isSome_iff_ne_none.mpr connecting)
  | _ =>
    change c.shared.aborted = true at haborted
    rw [hbefore] at haborted
    cases haborted

end Sound

theorem not_step_of_aborted {c c' : Config} {t : Nat} {i : Instr}
    (haborted : c.shared.aborted = true) : ¬machine.Step c t i c' := by
  rintro @⟨rest, x, s, pushed, htop, hexec⟩
  rw [(act_of_exec hexec).2] at haborted
  cases haborted

theorem count_held {c : Config} (h : Sound c) {fd : Nat} (hheld : fd ∈ held c) :
    0 < c.shared.socketFd.toList.count fd + c.total (Instr.carrying fd) := by
  rw [held, h.channel, List.mem_append, List.mem_append, or_self] at hheld
  cases hheld with
  | inl hfd =>
    have := List.count_pos_iff.mpr hfd
    omega
  | inr hcarried =>
    obtain ⟨i, hi, hcarries⟩ := List.mem_filterMap.mp hcarried
    have hle := Config.le_total (w := Instr.carrying fd) (t := 0) hi
    have hone : i.carrying fd = 1 := by simp [Instr.carrying, hcarries]
    omega

theorem mem_held {c : Config} (h : Sound c) {fd : Nat}
    (hcount : 0 < c.shared.socketFd.toList.count fd + c.total (Instr.carrying fd)) :
    fd ∈ held c := by
  rw [held, List.mem_append, List.mem_append]
  by_contra hnot
  rw [not_or, not_or] at hnot
  have hzero : c.total (Instr.carrying fd) = 0 := Config.total_eq_zero fun t i hactive => by
    by_contra hpos
    have hmem : fd ∈ i.carries.toList := List.count_pos_iff.mp (Nat.pos_of_ne_zero hpos)
    have ht : t = 0 := h.inLoop t i hactive fun hforeign => by
      cases i <;> first | exact hforeign.elim | cases hmem
    subst ht
    exact hnot.2 (List.mem_filterMap.mpr ⟨i, hactive, by simpa using hmem⟩)
  rw [hzero, List.count_eq_zero.mpr hnot.1.1] at hcount
  exact absurd hcount (Nat.lt_irrefl 0)

/-- Every socket is closed, handed over or still in the connector, and in one of these places. -/
structure SocketsSettled (c : Config) : Prop where
  once : (c.shared.closed ++ c.shared.handed).Nodup
  unused : ∀ fd ∈ held c, fd ∉ c.shared.closed ++ c.shared.handed
  kept : ∀ fd < c.shared.created, fd ∈ c.shared.closed ++ c.shared.handed ∨ fd ∈ held c
  destroyed : c.shared.alive = false → held c = []
  aborted : c.shared.aborted = true → c.shared.state = .kConnecting
  agree : ∀ i rest, c.stack 0 = i :: rest → i.idle →
    (c.shared.socketFd.isSome = true ↔ c.shared.channel.isSome = true) ∧
      (c.shared.channel.isSome = true ↔ c.shared.state = .kConnecting)

theorem sockets_settled {users : Nat} {c : Config} (hreach : machine.Reaches (init users) c) :
    SocketsSettled c := by
  obtain ⟨h, haborted⟩ : Sound c ∧ (c.shared.aborted = true → c.shared.state = .kConnecting) :=
    hreach.invariant
      (I := fun c => Sound c ∧ (c.shared.aborted = true → c.shared.state = .kConnecting))
      ⟨.init users, nofun⟩
      fun hc _ hstep => ⟨hc.1.step hstep, hc.1.aborted_step hstep⟩
  have haccount : ∀ fd, (c.shared.closed ++ c.shared.handed).count fd +
      (c.shared.socketFd.toList.count fd + c.total (Instr.carrying fd)) =
        (List.range c.shared.created).count fd := fun fd => by
    rw [← h.account fd, Shared.ledger, List.count_append]
    omega
  have hle := List.nodup_iff_count_le_one.mp (List.nodup_range (n := c.shared.created))
  refine ⟨List.nodup_iff_count_le_one.mpr fun fd => ?_, fun fd hheld hmem => ?_, fun fd hfd => ?_,
    fun hdead => ?_, haborted, fun i rest htop hidle => ?_⟩
  · have := haccount fd
    have := hle fd
    omega
  · have := haccount fd
    have := hle fd
    have := count_held h hheld
    have := List.count_pos_iff.mpr hmem
    omega
  · by_cases hmem : fd ∈ c.shared.closed ++ c.shared.handed
    · exact .inl hmem
    · refine .inr (mem_held h ?_)
      have := haccount fd
      have := List.count_pos_iff.mpr (List.mem_range.mpr hfd)
      have := List.count_eq_zero.mpr hmem
      omega
  · obtain ⟨hstack, hnone⟩ := h.gone hdead
    rw [held, h.channel, hstack, hnone]
    rfl
  · rw [h.channel]
    exact ⟨Iff.rfl, h.settled htop hidle⟩

def restarted : List (Nat × Choice) :=
  [(0, .setNewConnectionCallback true), (1, .start), (1, .next), (1, .next), (0, .functor),
    (0, .next), (0, .socket true), (0, .connect .inProgress), (0, .stop), (0, .next), (0, .next),
    (0, .next), (0, .next), (0, .start), (0, .next), (0, .next), (0, .next), (0, .socket true),
    (0, .connect .inProgress), (0, .writable), (0, .next), (0, .socketError false), (0, .next),
    (0, .next), (0, .start), (0, .next), (0, .next), (0, .next)]

theorem sockets_settled_restarted : SocketsSettled (machine.follow (init 1) restarted) :=
  sockets_settled (Machine.reaches_follow restarted)

example : (machine.follow (init 1) restarted).shared.closed = [0] ∧
    (machine.follow (init 1) restarted).shared.handed = [1] := by
  decide

def destroyedConnecting : List (Nat × Choice) :=
  [(0, .start), (0, .next), (0, .next), (0, .next), (0, .socket true), (0, .connect .inProgress),
    (0, .destroy)]

/-- The destruction of a connecting connector aborts, and its socket is left as it is. -/
theorem socket_left : ∃ c, machine.Reaches (init 1) c ∧ c.shared.aborted = true ∧
    0 < c.shared.created ∧ 0 ∉ c.shared.closed ++ c.shared.handed ∧
      ∀ t i c', ¬machine.Step c t i c' := by
  exact ⟨machine.follow (init 1) destroyedConnecting, Machine.reaches_follow _, by decide,
    by decide, by decide, fun _ _ _ => not_step_of_aborted (by decide)⟩

end UnixNotes.Reactor.Connector
