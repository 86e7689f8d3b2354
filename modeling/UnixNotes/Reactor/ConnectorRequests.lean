import UnixNotes.Library.Logged
import UnixNotes.Reactor.ConnectorSockets

namespace UnixNotes.Reactor.Connector

open Library

/-- `noErrorCallback` and `noNewConnectionCallback` are logged when an attempt ends and the callback
that it would call is not set. -/
inductive Event where
  | stored (requested : Bool)
  | begun
  | reported
  | noErrorCallback
  | noNewConnectionCallback
  deriving DecidableEq

/-- The attempt has ended, and whoever wants to know has been told. -/
def Event.answers : Event → Bool
  | .reported | .noErrorCallback | .noNewConnectionCallback => true
  | _ => false

namespace Instr

def events : Instr → Shared → List Instr → List Event
  | .storeRequested requested, _, _ => [.stored requested]
  | .startInLoop, _, [.createSocket] => [.begun]
  | .createSocket, _, [.callback] | .testError, _, [.callback] => [.reported]
  | .createSocket, s, [] | .testError, s, [] => if s.errorCallback then [] else [.noErrorCallback]
  | .testDelivery _, s, [.closeAndReset _] | .testRequested _, s, [.closeAndReset _] =>
    if s.newConnectionCallback then [] else [.noNewConnectionCallback]
  | _, _, _ => []

def tries : Instr → Bool
  | .createSocket | .connect _ | .testDelivery _ | .testSocket _ | .testRequested _ | .testError =>
    true
  | _ => false

def pursues : Instr → Bool
  | .createSocket | .connect _ | .testDelivery _ | .testSocket _ | .testRequested _
  | .handOver _ => true
  | _ => false

end Instr

def ToCome (requested : Bool) (c : Config) : Prop :=
  requested ∈ c.shared.functors ∨ (∃ t, c.Active t (.runInLoop requested)) ∨
    ∃ t, c.Active t (.inLoop requested)

instance (requested : Bool) (c : Config) : Decidable (ToCome requested c) :=
  inferInstanceAs (Decidable (_ ∨ _ ∨ _))

section Step

variable {c c' : Config} {t : Nat} {i : Instr} {rest pushed : List Instr} {x : Choice}
  {s s' : Shared} {requested : Bool}

theorem functors_of_loop (h : Instr.loop.act t x s = some (s', pushed))
    (hmem : requested ∈ s.functors) : requested ∈ s'.functors ∨ .inLoop requested ∈ pushed := by
  cases x with
  | functor =>
    simp only [Instr.act] at h
    split at h
    · cases h
    · rename_i hqueued
      cases h
      rw [hqueued] at hmem
      obtain rfl | hmem := List.mem_cons.mp hmem
      · exact .inr (List.mem_cons_self ..)
      · exact .inl hmem
  | destroy =>
    simp only [Instr.act] at h
    split at h
    · split at h <;> cases h <;> exact .inl hmem
    · cases h
  | _ => cases h <;> exact .inl hmem

theorem functors_of_exec (h : i.exec t x s = some (s', pushed)) (hmem : requested ∈ s.functors) :
    requested ∈ s'.functors ∨ .inLoop requested ∈ pushed := by
  by_cases hi : i = .loop
  · exact functors_of_loop (hi ▸ (act_of_exec h).1) hmem
  · cases moves_of_exec (t := t) h with
    | functor | destroy | abort => exact absurd rfl hi
    | queueInLoop => exact .inl (List.mem_append_left _ hmem)
    | _ => exact .inl hmem

theorem ToCome.step (h : ToCome requested c) (hstep : machine.Step c t i c') :
    ToCome requested c' ∨ i = .inLoop requested := by
  obtain @⟨rest, x, s, pushed, htop, hexec⟩ := hstep
  obtain hmem | ⟨t', hactive⟩ | ⟨t', hactive⟩ := h
  · obtain hmem | hpushed := functors_of_exec (t := t) hexec hmem
    · exact .inl (.inl hmem)
    · exact .inl (.inr (.inr ⟨t, Config.active_replace_of_pushed htop s hpushed⟩))
  · obtain ⟨rfl, rfl⟩ | hold := Config.active_replace htop s pushed hactive
    · cases moves_of_exec (t := t') hexec with
      | call _ idle | setNewConnectionCallback _ idle | setErrorCallback _ idle =>
        obtain heq | heq := idle <;> cases heq
      | runInLoop =>
        exact .inl (.inr (.inr ⟨_, Config.active_replace_of_pushed htop _ (List.mem_singleton_self _)⟩))
      | queueInLoop => exact .inl (.inl (List.mem_append_right _ (List.mem_singleton_self _)))
    · exact .inl (.inr (.inl ⟨t', hold⟩))
  · obtain ⟨rfl, heq⟩ | hold := Config.active_replace htop s pushed hactive
    · exact .inr heq.symm
    · exact .inl (.inr (.inr ⟨t', hold⟩))

end Step

def Trying (s : Shared) (stack : List Instr) : Prop :=
  (s.state ≠ .kDisconnected ∧ ∀ fd, .closeAndReset fd ∉ stack) ∨ ∃ i ∈ stack, i.tries = true

def Answered (log : List Event) : Prop := ∃ e ∈ log, e.answers = true

section Attempt

variable {i : Instr} {rest pushed : List Instr} {x : Choice} {s s' : Shared}

theorem attempt_step (hexec : i.act 0 x s = some (s', pushed)) (htries : i.tries = true)
    (hflag : s.connectRequested = true) (hfits : Fits s.state s.socketFd i) :
    Answered (Instr.events i s pushed) ∨ (∃ j ∈ pushed, j.tries = true) ∨
      s'.state ≠ .kDisconnected ∧ ∀ fd, .closeAndReset fd ∉ pushed := by
  cases i with
  | createSocket =>
    cases x with
    | socket created =>
      cases created with
      | true =>
        cases hexec
        exact .inr (.inl ⟨_, List.mem_singleton_self _, rfl⟩)
      | false =>
        cases hexec
        cases hcallback : s.errorCallback <;>
          simp [Instr.events, Answered, Event.answers, hcallback]
    | _ => cases hexec
  | connect socketFd =>
    cases x with
    | connect result =>
      cases result with
      | done =>
        cases hexec
        exact .inr (.inl ⟨_, List.mem_singleton_self _, rfl⟩)
      | inProgress =>
        cases hexec
        exact .inr (.inr ⟨nofun, nofun⟩)
      | failed =>
        cases hexec
        exact .inr (.inl ⟨.testError, by simp, rfl⟩)
    | _ => cases hexec
  | testDelivery socketFd =>
    cases x with
    | next =>
      cases hexec
      cases hcallback : s.newConnectionCallback <;>
        simp [Instr.events, Answered, Event.answers, hcallback, hflag, hfits.1]
    | _ => cases hexec
  | testSocket socketFd =>
    cases x with
    | socketError failed =>
      cases failed <;> cases hexec
      · exact .inr (.inl ⟨_, List.mem_singleton_self _, rfl⟩)
      · exact .inr (.inl ⟨.testError, by simp, rfl⟩)
    | _ => cases hexec
  | testRequested socketFd =>
    cases x with
    | next =>
      simp only [Instr.act, hflag, if_true] at hexec
      cases hexec
      cases hcallback : s.newConnectionCallback <;>
        simp [Instr.events, Answered, Event.answers, hcallback]
    | _ => cases hexec
  | testError =>
    cases x with
    | next =>
      cases hexec
      cases hcallback : s.errorCallback <;>
        simp [Instr.events, Answered, Event.answers, hcallback, hflag]
    | _ => cases hexec
  | _ => cases htries

theorem start_step (hexec : Instr.startInLoop.act 0 x s = some (s', pushed))
    (hflag : s.connectRequested = true) (hrest : ∀ fd, .closeAndReset fd ∉ rest) :
    Trying s' (pushed ++ rest) := by
  cases x with
  | next =>
    cases hexec
    by_cases hstate : s.state = .kDisconnected
    · exact .inr ⟨.createSocket, by simp [hflag, hstate], rfl⟩
    · exact .inl ⟨hstate, by simpa [hflag, hstate] using hrest⟩
  | _ => cases hexec

theorem Sound.not_resetting {c : Config} (h : Sound c) (htop : c.stack 0 = i :: rest) (fd : Nat) :
    .closeAndReset fd ∉ rest := fun hmem => by
  refine h.resting 0 (.closeAndReset fd) ?_ trivial
  rw [htop]
  exact hmem

theorem trying_step (hexec : i.act 0 x s = some (s', pushed)) (htrying : Trying s (i :: rest))
    (hflag : s.connectRequested = true) (hfits : Fits s.state s.socketFd i)
    (hrest : ∀ fd, .closeAndReset fd ∉ rest) :
    Trying s' (pushed ++ rest) ∨ Answered (Instr.events i s pushed) ∨
      (i = .stopInLoop ∧ s.state ≠ .kDisconnected) ∨ s'.alive = false := by
  cases htries : i.tries with
  | true =>
    obtain hanswered | ⟨j, hj, htries'⟩ | ⟨hstate, hpushed⟩ :=
      attempt_step hexec htries hflag hfits
    · exact .inr (.inl hanswered)
    · exact .inl (.inr ⟨j, List.mem_append_left _ hj, htries'⟩)
    · refine .inl (.inl ⟨hstate, fun fd hmem => ?_⟩)
      exact (List.mem_append.mp hmem).elim (hpushed fd) (hrest fd)
  | false =>
    obtain ⟨hstate, hreset⟩ | ⟨j, hj, htries'⟩ := htrying
    · have hkeep (hstate' : s'.state = s.state) (hpushed : ∀ fd, .closeAndReset fd ∉ pushed) :
          Trying s' (pushed ++ rest) := by
        refine .inl ⟨hstate' ▸ hstate, fun fd hmem => ?_⟩
        exact (List.mem_append.mp hmem).elim (hpushed fd) (hrest fd)
      have hmoves := moves_of_act (t := 0) hexec
      cases hmoves with
      | functor requested functors => exact .inl (hkeep rfl (by cases requested <;> simp [Instr.inLoop]))
      | destroy => exact .inr (.inr (.inr rfl))
      | abort => exact .inl (hkeep rfl (by simp))
      | runInLoop requested => exact .inl (hkeep rfl (by cases requested <;> simp [Instr.inLoop]))
      | call _ idle | setNewConnectionCallback _ idle | setErrorCallback _ idle =>
        obtain rfl | rfl := idle <;> exact .inl (hkeep rfl (by simp))
      | startInLoop | skipStart => exact .inl (start_step hexec hflag hrest)
      | closeAndReset fd => exact absurd (List.mem_cons_self ..) (hreset fd)
      | cancel | reset => exact .inr (.inr (.inl ⟨rfl, hstate⟩))
      | handleWrite connecting =>
        obtain ⟨fd, hfd⟩ := Option.isSome_iff_exists.mp (hfits.mpr connecting)
        exact .inl (.inr ⟨.testSocket fd, by simp [hfd], rfl⟩)
      | handleError connecting => exact .inl (.inr ⟨.testError, by simp, rfl⟩)
      | createSocket | reportSocket | skipSocket | connected | connecting | refused | deliver
      | skipDelivery | socketFailed | socketConnected | requested | noCallback | notRequested
      | reportError | skipReport => cases htries
      | _ => exact .inl (hkeep rfl (by simp))
    · obtain rfl | hj := List.mem_cons.mp hj
      · rw [htries] at htries'
        cases htries'
      · exact .inl (.inr ⟨j, List.mem_append_right _ hj, htries'⟩)

end Attempt

def Attempting (c : Config) : Prop :=
  c.shared.state = .kConnecting ∨ ∃ t i, c.Active t i ∧ i.pursues = true

structure Resigned (c : Config) : Prop where
  flag : c.shared.connectRequested = false
  idle : ¬Attempting c

structure Stopping (c : Config) : Prop where
  sound : Sound c
  resting : c.HeadOnly fun i => i.pursues = true
  resigns : c.shared.connectRequested = false → ¬Attempting c ∨ ToCome false c

section Idle

variable {c c' : Config} {t : Nat} {i : Instr} {rest pushed : List Instr} {s : Shared}
  {requested : Bool}

theorem Moves.pursues (h : Moves t c.shared i s pushed) (hi : i.pursues = false)
    (hflag : c.shared.connectRequested = false) (hstate : c.shared.state ≠ .kConnecting) :
    ∀ j ∈ pushed, j.pursues = false := by
  cases h with
  | startInLoop requested disconnected =>
    rw [hflag] at requested
    cases requested
  | handleWrite connecting | handleError connecting => exact absurd connecting hstate
  | createSocket | connected | deliver | skipDelivery | socketConnected | requested | noCallback =>
    cases hi
  | functor requested | runInLoop requested =>
    cases requested <;> simp [Instr.inLoop, Instr.pursues]
  | call _ idle | setNewConnectionCallback _ idle | setErrorCallback _ idle =>
    obtain rfl | rfl := idle <;> simp [Instr.pursues]
  | _ => simp [Instr.pursues]

theorem Moves.resting (h : Moves t c.shared i s pushed) :
    ∀ j ∈ pushed.tail, ¬j.pursues = true := by
  cases h with
  | handleWrite | cancel => cases c.shared.socketFd <;> simp
  | handleError => cases c.shared.socketFd <;> simp [Instr.pursues]
  | call _ idle | setNewConnectionCallback _ idle | setErrorCallback _ idle =>
    obtain rfl | rfl := idle <;> simp [Instr.pursues]
  | _ => simp [Instr.pursues]

theorem Moves.flag (h : Moves t c.shared i s pushed) :
    s.connectRequested = c.shared.connectRequested ∨ ∃ requested,
      i = .storeRequested requested ∧ s.connectRequested = requested := by
  cases h with
  | storeRequested requested => exact .inr ⟨requested, rfl, rfl⟩
  | _ => exact .inl rfl

theorem Moves.idle (h : Moves t c.shared i s pushed) (hi : i.pursues = false)
    (hstate : c.shared.state ≠ .kConnecting) :
    s.state ≠ .kConnecting ∧ s.handed = c.shared.handed := by
  cases h with
  | connecting | connected | requested | noCallback | handOver => cases hi
  | destroy | cancel | reset | closeAndReset | socketFailed | notRequested | handleError =>
    exact ⟨nofun, rfl⟩
  | _ => exact ⟨hstate, rfl⟩

theorem Resigned.step (h : Resigned c) (hi : i ≠ .storeRequested true)
    (hstep : machine.Step c t i c') : Resigned c' ∧ c'.shared.handed = c.shared.handed := by
  obtain ⟨hstate, hnone⟩ := not_or.mp h.idle
  obtain @⟨rest, x, s, pushed, htop, hexec⟩ := hstep
  have hmoves := moves_of_exec (t := t) hexec
  have hidle : i.pursues = false :=
    Bool.eq_false_iff.mpr fun hpursues => hnone ⟨t, i, Config.active_of_top htop, hpursues⟩
  obtain ⟨hstate', hhanded⟩ := hmoves.idle hidle hstate
  refine ⟨⟨?_, ?_⟩, hhanded⟩
  · obtain hsame | ⟨requested, rfl, hstored⟩ := hmoves.flag
    · exact hsame.trans h.flag
    · cases requested with
      | true => exact absurd rfl hi
      | false => exact hstored
  · rintro (hconnecting | ⟨t', j, hactive, hpursues⟩)
    · exact hstate' hconnecting
    · obtain ⟨-, hmem⟩ | hold := Config.active_of_replace htop hactive
      · rw [hmoves.pursues hidle h.flag hstate j hmem] at hpursues
        cases hpursues
      · exact hnone ⟨t', j, hold, hpursues⟩

theorem not_attempting_of_stop (hsound : Sound c) (hresting : c.HeadOnly fun i => i.pursues = true)
    (hstep : machine.Step c t .stopInLoop c') : ¬Attempting c' := by
  obtain @⟨rest, x, s, pushed, htop, hexec⟩ := hstep
  have ht : t = 0 := hsound.inLoop t _ (Config.active_of_top htop) id
  have hmoves := moves_of_exec (t := t) hexec
  have hpushed : s.state ≠ .kConnecting ∧ ∀ j ∈ pushed, j.pursues = false := by
    cases hmoves with
    | call _ idle | setNewConnectionCallback _ idle | setErrorCallback _ idle =>
      obtain heq | heq := idle <;> cases heq
    | cancel => exact ⟨nofun, by simp [Instr.pursues]⟩
    | reset => exact ⟨nofun, nofun⟩
    | skipStop disconnected => exact ⟨by rw [disconnected]; nofun, nofun⟩
  rintro (hconnecting | ⟨t', j, hactive, hpursues⟩)
  · exact hpushed.1 hconnecting
  · obtain ⟨-, hmem⟩ | hold := Config.active_of_replace htop hactive
    · rw [hpushed.2 j hmem] at hpursues
      cases hpursues
    · have ht' : t' = 0 := hsound.inLoop t' j hold fun hforeign => by
        cases j <;> first | exact hforeign.elim | cases hpursues
      subst ht ht'
      rw [hresting.eq_top htop hold hpursues] at hpursues
      cases hpursues

theorem store_step (hstep : machine.Step c t (.storeRequested requested) c') :
    c'.shared.connectRequested = requested ∧ ToCome requested c' := by
  obtain @⟨rest, x, s, pushed, htop, hexec⟩ := hstep
  cases moves_of_exec (t := t) hexec with
  | call _ idle | setNewConnectionCallback _ idle | setErrorCallback _ idle =>
    obtain heq | heq := idle <;> cases heq
  | storeRequested =>
    refine ⟨rfl, .inr (.inl ⟨t, ?_⟩)⟩
    exact Config.active_replace_of_pushed htop _ (List.mem_singleton_self _)

theorem flag_step (hstep : machine.Step c t i c') (hi : ∀ requested, i ≠ .storeRequested requested) :
    c'.shared.connectRequested = c.shared.connectRequested := by
  obtain @⟨rest, x, s, pushed, htop, hexec⟩ := hstep
  obtain hsame | ⟨requested, heq, -⟩ := (moves_of_exec (t := t) hexec).flag
  · exact hsame
  · exact absurd heq (hi requested)

theorem Stopping.init (users : Nat) : Stopping (init users) := by
  have hlength : ∀ stack ∈ (Connector.init users).threads, stack.length ≤ 1 := by
    simp [Connector.init]
  refine ⟨.init users, .of_length hlength, fun _ => .inl ?_⟩
  rintro (hconnecting | ⟨t, i, hactive, hpursues⟩)
  · cases hconnecting
  · obtain ⟨stack, hstack, hi⟩ := Config.mem_threads hactive
    rw [Connector.init, List.mem_cons] at hstack
    obtain rfl | hstack := hstack
    · cases List.mem_singleton.mp hi
      cases hpursues
    · obtain ⟨-, rfl⟩ := List.mem_replicate.mp hstack
      cases List.mem_singleton.mp hi
      cases hpursues

theorem Stopping.resting_step (h : Stopping c) (hstep : machine.Step c t i c') :
    c'.HeadOnly fun i => i.pursues = true := by
  obtain @⟨rest, x, s, pushed, htop, hexec⟩ := hstep
  exact h.resting.replace htop (moves_of_exec (t := t) hexec).resting

theorem Stopping.step (h : Stopping c) (hstep : machine.Step c t i c') : Stopping c' := by
  refine ⟨h.sound.step hstep, h.resting_step hstep, fun hflag => ?_⟩
  by_cases hstore : ∃ requested, i = .storeRequested requested
  · obtain ⟨requested, rfl⟩ := hstore
    obtain ⟨hstored, hcome⟩ := store_step hstep
    exact .inr (hstored.symm.trans hflag ▸ hcome)
  · have hi (requested : Bool) (heq : i = .storeRequested requested) : False :=
      hstore ⟨requested, heq⟩
    have hbefore := (flag_step hstep hi).symm.trans hflag
    obtain hidle | hcome := h.resigns hbefore
    · exact .inl (Resigned.step ⟨hbefore, hidle⟩ (hi true) hstep).1.idle
    · obtain hcome' | rfl := hcome.step hstep
      · exact .inr hcome'
      · exact .inl (not_attempting_of_stop h.sound h.resting hstep)

end Idle

/-- All calls have returned, and the loop has nothing to do. -/
def Quiet (c : Config) : Prop :=
  c.shared.functors = [] ∧ c.All fun i => i = .loop ∨ i = .user

instance (c : Config) : Decidable (Quiet c) := inferInstanceAs (Decidable (_ ∧ _))

theorem Quiet.not_toCome {c : Config} (h : Quiet c) (requested : Bool) : ¬ToCome requested c := by
  rintro (hmem | ⟨t, hactive⟩ | ⟨t, hactive⟩)
  · rw [h.1] at hmem
    cases hmem
  · obtain heq | heq := h.2.of_active hactive <;> cases heq
  · cases requested <;> obtain heq | heq := h.2.of_active hactive <;> cases heq

/-- A `stopInLoop` that finds the flag set leaves an attempt or a connection alone, or a
`startInLoop` is still to come. -/
abbrev StopsInTime (c : Config) (_ : Nat) (i : Instr) : Prop :=
  i = .stopInLoop → c.shared.connectRequested = true →
    c.shared.state = .kDisconnected ∨ ToCome true c

end UnixNotes.Reactor.Connector

namespace UnixNotes.Reactor.Connector.Requests

open Library

abbrev Config := Library.Config (Logged Connector.Shared Event) Instr

def machine : Library.Machine (Logged Connector.Shared Event) Instr Choice :=
  Connector.machine.logged fun i s _ pushed => i.events s pushed

def init (users : Nat) : Config := ⟨⟨{}, []⟩, (Connector.init users).threads⟩

def recent : List Event → List Event
  | [] | .stored _ :: _ => []
  | e :: log => e :: recent log

theorem answered_recent {new log : List Event} (hnew : ∀ e ∈ new, ∀ requested, e ≠ .stored requested)
    (h : Answered new ∨ Answered (recent log)) : Answered (recent (new ++ log)) := by
  induction new with
  | nil => exact h.resolve_left nofun
  | cons e new ih =>
    rw [List.forall_mem_cons] at hnew
    have hrecent : recent (e :: new ++ log) = e :: recent (new ++ log) := by
      cases e with
      | stored requested => exact absurd rfl (hnew.1 requested)
      | _ => rfl
    rw [hrecent]
    obtain ⟨e', hmem, hanswers⟩ | hlog := h
    · obtain rfl | hmem := List.mem_cons.mp hmem
      · exact ⟨e', List.mem_cons_self .., hanswers⟩
      · obtain ⟨e'', hmem', hanswers'⟩ := ih hnew.2 (.inl ⟨e', hmem, hanswers⟩)
        exact ⟨e'', List.mem_cons_of_mem _ hmem', hanswers'⟩
    · obtain ⟨e'', hmem', hanswers'⟩ := ih hnew.2 (.inr hlog)
      exact ⟨e'', List.mem_cons_of_mem _ hmem', hanswers'⟩

theorem not_stored_of_events {i : Instr} {s : Connector.Shared} {pushed : List Instr}
    (hi : ∀ requested, i ≠ .storeRequested requested) :
    ∀ e ∈ i.events s pushed, ∀ requested, e ≠ .stored requested := by
  rintro e hmem requested rfl
  rw [Instr.events.eq_def] at hmem
  split at hmem
  · exact hi _ rfl
  · simp at hmem
  · simp at hmem
  · simp at hmem
  · split at hmem <;> simp at hmem
  · split at hmem <;> simp at hmem
  · split at hmem <;> simp at hmem
  · split at hmem <;> simp at hmem
  · cases hmem

structure Heeding (c : Config) : Prop where
  stopping : Stopping c.base
  heeds : c.shared.base.alive = true → c.shared.base.connectRequested = true →
    Answered (recent c.shared.log) ∨ ToCome true c.base ∨
      Trying c.shared.base (c.stack 0)

section Step

variable {c c' : Config} {t : Nat} {i : Instr}

theorem log_step (hstep : machine.Step c t i c') (hi : ∀ requested, i ≠ .storeRequested requested)
    (h : Answered (recent c.shared.log)) : Answered (recent c'.shared.log) := by
  obtain ⟨rest, x, pushed, -, -, -, hlog⟩ := hstep.of_logged
  rw [hlog]
  exact answered_recent (not_stored_of_events hi) (.inr h)

theorem state_of_foreign {t : Nat} {s s' : Connector.Shared} {i : Instr} {pushed : List Instr}
    (h : Moves t s i s' pushed) (hi : i.foreign) : s'.state = s.state := by
  cases h with
  | user | storeRequested | runInLoop | queueInLoop => rfl
  | call _ idle | setNewConnectionCallback _ idle | setErrorCallback _ idle => rfl
  | _ => exact hi.elim

theorem trying_keep (h : Sound c.base) (hstep : machine.Step c t i c')
    (hi : ∀ requested, i ≠ .storeRequested requested)
    (hflag : c.shared.base.connectRequested = true)
    (htrying : Trying c.shared.base (c.stack 0)) :
    Trying c'.shared.base (c'.stack 0) ∨ Answered (recent c'.shared.log) ∨
      (i = .stopInLoop ∧ c.shared.base.state ≠ .kDisconnected) ∨
        c'.shared.base.alive = false := by
  obtain ⟨rest, x, pushed, htop, hexec, hc', hlog⟩ := hstep.of_logged
  have hstack : c'.stack 0 = (c.base.replace t c'.shared.base (pushed ++ rest)).stack 0 :=
    congrArg (Config.stack · 0) hc'
  rw [hlog, hstack]
  by_cases ht : t = 0
  · subst ht
    have htrying' : Trying c.shared.base (i :: rest) := htop ▸ htrying
    rw [Config.stack_replace_self htop]
    obtain hkeep | hanswered | hstop | hdead :=
      trying_step (act_of_exec hexec).1 htrying' hflag (h.fits i rest htop) (h.not_resetting htop)
    · exact .inl hkeep
    · exact .inr (.inl (answered_recent (not_stored_of_events hi) (.inl hanswered)))
    · exact .inr (.inr (.inl hstop))
    · exact .inr (.inr (.inr hdead))
  · refine .inl ?_
    have hforeign : i.foreign := by
      by_contra hforeign
      exact ht (h.inLoop t i (Config.active_of_top htop) hforeign)
    have hstate := state_of_foreign (moves_of_exec (t := t) hexec) hforeign
    rw [Config.stack_replace_ne _ _ _ (Ne.symm ht)]
    exact htrying.imp_left fun ⟨hne, hreset⟩ => ⟨fun heq => hne (hstate.symm.trans heq), hreset⟩

theorem alive_step {c c' : Connector.Config} (hstep : Connector.machine.Step c t i c')
    (halive : c'.shared.alive = true) : c.shared.alive = true := by
  obtain @⟨rest, x, s, pushed, htop, hexec⟩ := hstep
  cases moves_of_exec (t := t) hexec with
  | destroy => cases halive
  | _ => exact halive

theorem trying_of_start {c c' : Connector.Config} (h : Sound c)
    (hstep : Connector.machine.Step c t .startInLoop c') (hflag : c.shared.connectRequested = true) :
    Trying c'.shared (c'.stack 0) := by
  obtain @⟨rest, x, s, pushed, htop, hexec⟩ := hstep
  obtain rfl : t = 0 := h.inLoop t .startInLoop (Config.active_of_top htop) id
  rw [Config.stack_replace_self htop]
  exact start_step (act_of_exec (t := 0) hexec).1 hflag (h.not_resetting htop)

theorem Heeding.init (users : Nat) : Heeding (init users) := ⟨.init users, nofun⟩

theorem Heeding.step (h : Heeding c) (hok : StopsInTime c.base t i)
    (hstep : machine.Step c t i c') : Heeding c' := by
  have hbase := hstep.base
  refine ⟨h.stopping.step hbase, fun halive hflag => ?_⟩
  by_cases hstore : ∃ requested, i = .storeRequested requested
  · obtain ⟨requested, rfl⟩ := hstore
    obtain ⟨hstored, hcome⟩ := store_step hbase
    exact .inr (.inl (hstored.symm.trans hflag ▸ hcome))
  · have hi (requested : Bool) (heq : i = .storeRequested requested) : False :=
      hstore ⟨requested, heq⟩
    have hbefore : c.shared.base.connectRequested = true :=
      (flag_step hbase hi).symm.trans hflag
    obtain hanswered | hcome | htrying := h.heeds (alive_step hstep.base halive) hbefore
    · exact .inl (log_step hstep hi hanswered)
    · obtain hcome' | rfl := hcome.step hbase
      · exact .inr (.inl hcome')
      · exact .inr (.inr (trying_of_start h.stopping.sound hstep.base hbefore))
    · obtain hkeep | hanswered | ⟨rfl, hstate⟩ | hdead :=
        trying_keep h.stopping.sound hstep hi hbefore htrying
      · exact .inr (.inr hkeep)
      · exact .inl hanswered
      · -- Something else is still to come, by the condition.
        have hcome := (hok rfl hbefore).resolve_left hstate
        exact .inr (.inl ((hcome.step hbase).resolve_right nofun))
      · rw [hdead] at halive
        cases halive

end Step

/-- Once all calls have returned and the loop has nothing to do, the last store of the flag has been
heeded. -/
theorem last_store_heeded {users : Nat} {c : Config} (hreach : machine.Reaches (init users) c)
    (hquiet : Quiet c.base) :
    (machine.Run (fun c => StopsInTime c.base) (init users) c →
      c.shared.base.alive = true → c.shared.base.connectRequested = true →
        c.shared.base.state = .kConnecting ∨ c.shared.base.state = .kConnected ∨
          Answered (recent c.shared.log)) ∧
    (c.shared.base.connectRequested = false → c.shared.base.state ≠ .kConnecting ∧
      ∀ c', machine.Run (fun _ _ i => i ≠ .storeRequested true) c c' →
        c'.shared.base.handed = c.shared.base.handed) := by
  refine ⟨fun hrun halive hflag => ?_, fun hflag => ?_⟩
  · have h : Heeding c := hrun.invariant (.init users) fun hc hok hstep => hc.step hok hstep
    obtain hanswered | hcome | ⟨hstate, -⟩ | ⟨i, hmem, htries⟩ := h.heeds halive hflag
    · exact .inr (.inr hanswered)
    · exact absurd hcome (hquiet.not_toCome true)
    · cases hcase : c.shared.base.state with
      | kDisconnected => exact absurd hcase hstate
      | kConnecting => exact .inl rfl
      | kConnected => exact .inr (.inl rfl)
    · obtain rfl | rfl := hquiet.2.of_active (c := c.base) (t := 0) hmem <;> cases htries
  · have hbase : Connector.machine.Reaches (Connector.init users) c.base :=
      hreach.base fun _ _ _ _ => trivial
    have h : Stopping c.base := hbase.invariant (.init users) fun hc _ hstep => hc.step hstep
    have hidle := (h.resigns hflag).resolve_right (hquiet.not_toCome false)
    refine ⟨fun hstate => hidle (.inl hstate), fun c' hrun => ?_⟩
    have hbase' : Connector.machine.Run (fun _ _ i => i ≠ .storeRequested true) c.base c'.base :=
      hrun.base fun _ _ _ => id
    have hresigned : Resigned c'.base ∧ c'.base.shared.handed = c.base.shared.handed := by
      refine hbase'.invariant (I := fun c' => Resigned c' ∧ c'.shared.handed = c.base.shared.handed)
        ⟨⟨hflag, hidle⟩, rfl⟩ fun ⟨hresigned, hhanded⟩ hok hstep => ?_
      obtain ⟨hresigned', hhanded'⟩ := hresigned.step hok hstep
      exact ⟨hresigned', hhanded'.trans hhanded⟩
    exact hresigned.2

def restarted : List (Nat × Choice) :=
  [(1, .start), (1, .next), (1, .next), (1, .stop), (1, .next), (1, .next), (1, .start), (1, .next),
    (1, .next), (0, .functor), (0, .next), (0, .socket true), (0, .connect .inProgress),
    (0, .functor), (0, .next), (0, .next), (0, .functor), (0, .next), (0, .socket true),
    (0, .connect .inProgress)]

theorem last_store_heeded_restarted :
    (machine.follow (init 1) restarted).shared.base.state = .kConnecting ∨
      (machine.follow (init 1) restarted).shared.base.state = .kConnected ∨
        Answered (recent (machine.follow (init 1) restarted).shared.log) :=
  (last_store_heeded (Machine.reaches_follow restarted) (by decide)).1
    (Machine.run_follow (by decide)) (by decide) (by decide)

def failedAttempt : List (Nat × Choice) :=
  [(0, .setErrorCallback true), (1, .start), (1, .next), (1, .next), (0, .functor), (0, .next),
    (0, .socket true), (0, .connect .inProgress), (1, .start), (1, .next), (1, .next), (0, .functor),
    (0, .next), (0, .error), (0, .next), (0, .next), (0, .next), (0, .next)]

/-- The flag of `stop` is overwritten before its `stopInLoop` is queued. -/
def lateStop : List (Nat × Choice) :=
  [(0, .setErrorCallback true), (1, .stop), (1, .next), (2, .start), (2, .next), (2, .next),
    (1, .next), (0, .functor), (0, .next), (0, .socket true), (0, .connect .inProgress),
    (0, .functor), (0, .next), (0, .next)]

/-- The flag is set and the connector rests, though no attempt has begun since the store, or none has
reported an error. -/
theorem store_not_heeded :
    (∃ c, machine.Reaches (init 2) c ∧ Quiet c.base ∧
      c.shared.base.connectRequested = true ∧ c.shared.base.state = .kDisconnected ∧
        .begun ∉ recent c.shared.log) ∧
    ∃ c, machine.Reaches (init 2) c ∧ Quiet c.base ∧
      c.shared.base.connectRequested = true ∧ c.shared.base.state = .kDisconnected ∧
        .reported ∉ recent c.shared.log :=
  ⟨⟨machine.follow (init 2) failedAttempt, Machine.reaches_follow _, by decide⟩,
    machine.follow (init 2) lateStop, Machine.reaches_follow _, by decide⟩

end UnixNotes.Reactor.Connector.Requests
