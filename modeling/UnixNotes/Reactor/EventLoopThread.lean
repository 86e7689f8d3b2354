import UnixNotes.Library.Interleaving

namespace UnixNotes.Reactor.EventLoopThread

open Library

/-- What has become of the `EventLoop` on the stack of `threadFunc`. -/
inductive Lifetime where
  | unborn
  | alive
  | destroyed
  deriving DecidableEq

/-- `published` says that `loop_` is not null. -/
structure Shared where
  lifetime : Lifetime := .unborn
  published : Bool := false
  quit : Bool := false
  started : Bool := false
  exited : Bool := false

/-- Steps of `threadFunc`, of the owner and of the users of the loop. `poll` may return at any time,
so that the wakeup changes nothing. -/
inductive Instr where
  | threadFunc
  | publish
  /-- The loop in `EventLoop::loop`. -/
  | loop
  | clear
  | unwind
  | owner
  | awaitLoop
  | copyLoop
  /-- The destructor calls `quit()` on the loop that it has found. -/
  | quitLoop
  | join
  | user
  | quit
  -- what `quit()` does with the loop after the store
  | testQuitThread
  | quitWakeup
  deriving DecidableEq

inductive Choice where
  | next
  | startLoop
  | destroy
  | quit

namespace Instr

def exec (t : Nat) (i : Instr) (x : Choice) (s : Shared) : Option (Shared × List Instr) :=
  match i, x with
  | .threadFunc, .next =>
    if s.started then some ({ s with lifetime := .alive }, [.publish]) else none
  | .publish, .next => some ({ s with published := true }, [.loop])
  | .loop, .next => some (s, if s.quit then [.clear] else [.loop])
  | .clear, .next => some ({ s with published := false }, [.unwind])
  | .unwind, .next => some ({ s with lifetime := .destroyed, exited := true }, [])
  | .owner, .startLoop =>
    if s.started then none else some ({ s with started := true }, [.awaitLoop, .owner])
  | .owner, .quit => if s.lifetime = .alive then some (s, [.quit, .owner]) else none
  | .owner, .destroy => some (s, [.copyLoop])
  | .awaitLoop, .next => if s.published then some (s, []) else none
  | .copyLoop, .next => some (s, if s.published then [.quitLoop, .join] else [.join])
  | .quitLoop, .next => some ({ s with quit := true }, [.testQuitThread])
  | .join, .next => if s.started && !s.exited then none else some (s, [])
  | .user, .quit => if s.lifetime = .alive then some (s, [.quit, .user]) else none
  | .quit, .next => some ({ s with quit := true }, [.testQuitThread])
  -- the thread 0 is that of the loop
  | .testQuitThread, .next => some (s, if t ≠ 0 then [.quitWakeup] else [])
  | .quitWakeup, .next => some (s, [])
  | _, _ => none

def running : Instr → Nat
  | .threadFunc | .publish | .loop | .clear | .unwind => 1
  | _ => 0

def owning : Instr → Nat
  | .owner | .copyLoop | .quitLoop => 1
  | _ => 0

end Instr

abbrev Config := Library.Config Shared Instr

def machine : Library.Machine Shared Instr Choice := ⟨Instr.exec⟩

def init (users : Nat) : Config := ⟨{}, [.threadFunc] :: [.owner] :: List.replicate users [.user]⟩

/-- Nobody has asked the loop to quit when the destructor copies `loop_`, unless it is null, and
nobody else does until the destructor does. -/
abbrev QuitsFirst (c : Config) (_ : Nat) : Instr → Prop
  | .copyLoop => c.shared.published = true → c.shared.quit = false
  | .quit => ¬∃ t, c.Active t .quitLoop
  | _ => True

instance (c : Config) (t : Nat) (i : Instr) : Decidable (QuitsFirst c t i) := by
  cases i <;> infer_instance

inductive Moves (s : Shared) : Instr → Shared → List Instr → Prop
  | construct : Moves s .threadFunc { s with lifetime := .alive } [.publish]
  | publish : Moves s .publish { s with published := true } [.loop]
  | again : Moves s .loop s [.loop]
  | leave (quit : s.quit = true) : Moves s .loop s [.clear]
  | clear : Moves s .clear { s with published := false } [.unwind]
  | unwind : Moves s .unwind { s with lifetime := .destroyed, exited := true } []
  | startLoop : Moves s .owner { s with started := true } [.awaitLoop, .owner]
  | ownerQuits : Moves s .owner s [.quit, .owner]
  | destroy : Moves s .owner s [.copyLoop]
  | found : Moves s .awaitLoop s []
  | copy (published : s.published = true) : Moves s .copyLoop s [.quitLoop, .join]
  | copyNull : Moves s .copyLoop s [.join]
  | quitLoop : Moves s .quitLoop { s with quit := true } [.testQuitThread]
  | join : Moves s .join s []
  | userQuits : Moves s .user s [.quit, .user]
  | quit : Moves s .quit { s with quit := true } [.testQuitThread]
  | testQuitThread : Moves s .testQuitThread s [.quitWakeup]
  | skipQuitWakeup : Moves s .testQuitThread s []
  | quitWakeup : Moves s .quitWakeup s []

theorem moves_of_exec {t : Nat} {x : Choice} {s s' : Shared} {i : Instr} {pushed : List Instr}
    (h : i.exec t x s = some (s', pushed)) : Moves s i s' pushed := by
  cases i with
  | threadFunc =>
    cases x with
    | next =>
      obtain ⟨-, heq⟩ := Option.ite_none_right_eq_some.mp h
      cases heq
      exact .construct
    | _ => cases h
  | loop =>
    cases x with
    | next =>
      simp only [Instr.exec] at h
      split at h <;> cases h
      · exact .leave ‹_›
      · exact .again
    | _ => cases h
  | owner =>
    cases x with
    | next => cases h
    | startLoop =>
      obtain ⟨-, heq⟩ := Option.ite_none_left_eq_some.mp h
      cases heq
      exact .startLoop
    | destroy => cases h; exact .destroy
    | quit =>
      obtain ⟨-, heq⟩ := Option.ite_none_right_eq_some.mp h
      cases heq
      exact .ownerQuits
  | awaitLoop =>
    cases x with
    | next =>
      obtain ⟨-, heq⟩ := Option.ite_none_right_eq_some.mp h
      cases heq
      exact .found
    | _ => cases h
  | copyLoop =>
    cases x with
    | next =>
      simp only [Instr.exec] at h
      split at h <;> cases h
      · exact .copy ‹_›
      · exact .copyNull
    | _ => cases h
  | join =>
    cases x with
    | next =>
      obtain ⟨-, heq⟩ := Option.ite_none_left_eq_some.mp h
      cases heq
      exact .join
    | _ => cases h
  | user =>
    cases x with
    | quit =>
      obtain ⟨-, heq⟩ := Option.ite_none_right_eq_some.mp h
      cases heq
      exact .userQuits
    | _ => cases h
  | testQuitThread =>
    cases x with
    | next =>
      simp only [Instr.exec] at h
      split at h <;> cases h
      · exact .testQuitThread
      · exact .skipQuitWakeup
    | _ => cases h
  | _ =>
    cases x with
    | next =>
      cases h
      first
        | exact .publish | exact .clear | exact .unwind | exact .quitLoop | exact .quit
        | exact .quitWakeup
    | _ => cases h

def Instr.Fits (s : Shared) : Instr → Prop
  | .publish => s.lifetime = .alive
  | .clear => s.quit = true
  | .unwind => s.published = false
  | .quitLoop => s.published = true ∧ s.quit = false
  | _ => True

structure Phases (c : Config) : Prop where
  one : c.total Instr.running ≤ 1
  owner : c.total Instr.owning ≤ 1
  published : c.shared.published = true → c.shared.lifetime = .alive
  fits : ∀ t i, c.Active t i → i.Fits c.shared

namespace Phases

variable {c c' : Config} {t : Nat} {i : Instr}

theorem init (users : Nat) : Phases (init users) := by
  have hactive : ∀ {t i}, (EventLoopThread.init users).Active t i →
      i = .threadFunc ∨ i = .owner ∨ i = .user := by
    intro t i h
    obtain ⟨stack, hstack, hi⟩ := Config.mem_threads h
    rw [EventLoopThread.init, List.mem_cons, List.mem_cons, List.mem_replicate] at hstack
    obtain rfl | rfl | ⟨-, rfl⟩ := hstack
    · exact .inl (List.mem_singleton.mp hi)
    · exact .inr (.inl (List.mem_singleton.mp hi))
    · exact .inr (.inr (List.mem_singleton.mp hi))
  refine ⟨?_, ?_, nofun, fun t i h => ?_⟩
  · simp [Config.total, EventLoopThread.init, Instr.running]
  · simp [Config.total, EventLoopThread.init, Instr.owning]
  · obtain rfl | rfl | rfl := hactive h <;> trivial

theorem replace (h : Phases c) {s : Shared} {rest pushed : List Instr}
    (htop : c.stack t = i :: rest) (hrunning : Config.weigh Instr.running pushed ≤ i.running)
    (howning : Config.weigh Instr.owning pushed ≤ i.owning)
    (hpublished : s.published = true → s.lifetime = .alive) (hnew : ∀ j ∈ pushed, j.Fits s)
    (hold : ∀ t' j, c.Active t' j → i.running + j.running ≤ 1 → i.owning + j.owning ≤ 1 →
      j.Fits c.shared → j.Fits s) : Phases (c.replace t s (pushed ++ rest)) := by
  refine ⟨?_, ?_, hpublished, fun t' j hactive => ?_⟩
  · have := h.one
    have := Config.total_replace Instr.running htop s pushed
    omega
  · have := h.owner
    have := Config.total_replace Instr.owning htop s pushed
    omega
  · by_cases hmem : j ∈ pushed
    · exact hnew j hmem
    · have hbefore : c.Active t' j :=
        (Config.active_of_replace htop hactive).resolve_left fun hpushed => hmem hpushed.2
      have hone := Config.weigh_add_le_total (w := Instr.running) htop hactive hmem
      have howner := Config.weigh_add_le_total (w := Instr.owning) htop hactive hmem
      exact hold t' j hbefore (Nat.le_trans hone h.one) (Nat.le_trans howner h.owner)
        (h.fits t' j hbefore)

theorem step (h : Phases c) (hok : QuitsFirst c t i) (hstep : machine.Step c t i c') :
    Phases c' := by
  obtain @⟨rest, x, s, pushed, htop, hexec⟩ := hstep
  have hfits := h.fits t i (Config.active_of_top htop)
  cases moves_of_exec (t := t) hexec with
  | construct =>
    refine h.replace htop (by decide) (by decide) (fun _ => rfl) ?_ ?_
    · intro j hj
      obtain rfl := List.mem_singleton.mp hj
      rfl
    · intro t' j _ _ _ hj
      cases j <;> first | exact hj | rfl
  | publish =>
    refine h.replace htop (by decide) (by decide) (fun _ => hfits) (fun j hj => ?_) ?_
    · obtain rfl := List.mem_singleton.mp hj
      trivial
    · intro t' j _ hone _ hj
      cases j with
      | unwind => exact absurd hone (by decide)
      | quitLoop => exact ⟨rfl, hj.2⟩
      | _ => exact hj
  | leave quit =>
    refine h.replace htop (by decide) (by decide) h.published (fun j hj => ?_)
      fun _ _ _ _ _ => id
    obtain rfl := List.mem_singleton.mp hj
    exact quit
  | clear =>
    refine h.replace htop (by decide) (by decide) nofun (fun j hj => ?_) ?_
    · obtain rfl := List.mem_singleton.mp hj
      rfl
    · intro t' j _ hone _ hj
      cases j with
      | quitLoop => exact absurd (hj.2.symm.trans hfits) nofun
      | unwind => rfl
      | _ => exact hj
  | unwind =>
    refine h.replace htop (by decide) (by decide) (fun hpublished => ?_) nofun ?_
    · exact absurd (hpublished.symm.trans hfits) nofun
    · intro t' j _ hone _ hj
      cases j with
      | publish => exact absurd hone (by decide)
      | _ => exact hj
  | copy published =>
    refine h.replace htop (by decide) (by decide) h.published (fun j hj => ?_)
      fun _ _ _ _ _ => id
    obtain rfl | hj := List.mem_cons.mp hj
    · exact ⟨published, hok published⟩
    · obtain rfl := List.mem_singleton.mp hj
      trivial
  | quitLoop =>
    refine h.replace htop (by decide) (by decide) h.published (fun j hj => ?_) ?_
    · obtain rfl := List.mem_singleton.mp hj
      trivial
    · intro t' j _ _ howner hj
      cases j with
      | quitLoop => exact absurd howner (by decide)
      | clear => rfl
      | _ => exact hj
  | quit =>
    refine h.replace htop (by decide) (by decide) h.published (fun j hj => ?_) ?_
    · obtain rfl := List.mem_singleton.mp hj
      trivial
    · intro t' j hactive _ _ hj
      cases j with
      | quitLoop => exact absurd ⟨t', hactive⟩ hok
      | clear => rfl
      | _ => exact hj
  | startLoop =>
    refine h.replace htop (by decide) (by decide) h.published (fun j hj => ?_) fun _ j _ _ _ hj => ?_
    · simp only [List.mem_cons, List.not_mem_nil, or_false] at hj
      obtain rfl | rfl := hj <;> trivial
    · cases j <;> exact hj
  | ownerQuits | userQuits =>
    refine h.replace htop (by decide) (by decide) h.published (fun j hj => ?_)
      fun _ _ _ _ _ => id
    simp only [List.mem_cons, List.not_mem_nil, or_false] at hj
    obtain rfl | rfl := hj <;> trivial
  | again | destroy | copyNull | testQuitThread =>
    refine h.replace htop (by decide) (by decide) h.published (fun j hj => ?_)
      fun _ _ _ _ _ => id
    obtain rfl := List.mem_singleton.mp hj
    trivial
  | found | join | skipQuitWakeup | quitWakeup =>
    exact h.replace htop (by decide) (by decide) h.published nofun fun _ _ _ _ _ => id

end Phases

theorem quits_alive {users : Nat} {c : Config} (hrun : machine.Run QuitsFirst (init users) c)
    {t : Nat} (hquit : c.Active t .quitLoop) : c.shared.lifetime = .alive := by
  have h : Phases c := hrun.invariant (.init users) fun hc hok hstep => hc.step hok hstep
  exact h.published (h.fits t .quitLoop hquit).1

def destroyed : List (Nat × Choice) :=
  [(1, .startLoop), (0, .next), (0, .next), (1, .next), (0, .next), (1, .destroy), (1, .next)]

theorem quits_alive_destroyed :
    (machine.follow (init 1) destroyed).shared.lifetime = .alive :=
  quits_alive (Machine.run_follow (by decide))
    (show (machine.follow (init 1) destroyed).Active 1 .quitLoop by decide)

/-- What `quit()` does after its own store can come upon a loop that has been destroyed. -/
def unwound : Config :=
  machine.follow (init 1) (destroyed ++ [(1, .next), (0, .next), (0, .next), (0, .next)])

example : unwound.Active 1 .testQuitThread ∧ unwound.shared.lifetime = .destroyed := by decide

/-- A user has asked the loop to quit, and its thread unwinds when the destructor has copied
`loop_`. -/
def destroyedTwice : List (Nat × Choice) :=
  [(1, .startLoop), (0, .next), (0, .next), (1, .next), (2, .quit), (2, .next), (0, .next),
    (1, .destroy), (1, .next), (0, .next), (0, .next)]

theorem quits_destroyed : ∃ c t, machine.Reaches (init 1) c ∧ c.Active t .quitLoop ∧
    c.shared.lifetime = .destroyed :=
  ⟨_, 1, Machine.reaches_follow destroyedTwice, by decide, by decide⟩

end UnixNotes.Reactor.EventLoopThread
