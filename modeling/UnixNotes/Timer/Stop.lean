import UnixNotes.Library.Loads
import UnixNotes.Timer.InFlight

namespace UnixNotes.Timer

open Library

namespace Instr

def looping : Instr → Nat
  | .lockLoop | .loop | .waitTasks | .waitUntil .. | .popCancelled | .batch _ => 1
  | _ => 0

def scheduling : Instr → Nat
  | .worker => 1
  | i => i.looping

end Instr

/-- The scheduler's thread is started once, and is in its loop until it can be joined. -/
structure Looping (c : Config) : Prop where
  one : c.total Instr.scheduling ≤ 1
  ended : c.shared.worker ≠ .running → c.total Instr.looping = 0
  created : c.shared.schedulerState = .created → c.shared.worker = .absent

theorem worker_execRequestStop (s : Shared) : (Instr.execRequestStop s).worker = s.worker := by
  rw [Instr.execRequestStop]
  split <;> rfl

theorem execRequestStop_ne_created (s : Shared) :
    (Instr.execRequestStop s).schedulerState ≠ .created := by
  rw [Instr.execRequestStop]
  split
  · rintro ⟨⟩
  · rintro ⟨⟩
  · rename_i hstate
    rw [hstate]
    rintro ⟨⟩
  · rename_i hstate
    rw [hstate]
    rintro ⟨⟩

namespace Looping

variable {c c' : Config} {t : Nat} {i : Instr} {rest pushed : List Instr} {s : Shared}

theorem init (poolThreads threads : Nat) : Looping (init poolThreads threads) := by
  refine ⟨?_, fun _ => total_init rfl rfl rfl _ _, fun _ => rfl⟩
  simp [Config.total, Timer.init, Instr.scheduling, Instr.looping]

theorem looping_le_scheduling (i : Instr) : i.looping ≤ i.scheduling := by
  cases i with
  | worker => exact Nat.zero_le _
  | _ => exact Nat.le_refl _

theorem keep (h : Looping c) (htop : c.stack t = i :: rest)
    (hlooping : Config.weigh Instr.looping pushed = i.looping)
    (hscheduling : Config.weigh Instr.scheduling pushed = i.scheduling)
    (hworker : s.worker ≠ .running → c.shared.worker ≠ .running)
    (hcreated : s.schedulerState = .created → s.worker = .absent) :
    Looping (c.replace t s (pushed ++ rest)) := by
  refine ⟨?_, fun hended => ?_, hcreated⟩
  · have := h.one
    have := Config.total_replace Instr.scheduling htop s pushed
    omega
  · have := h.ended (hworker hended)
    have := Config.total_replace Instr.looping htop s pushed
    omega

theorem exit (h : Looping c) (htop : c.stack t = .loop :: rest)
    (hstate : s.schedulerState = c.shared.schedulerState) :
    Looping (c.replace t s ([] ++ rest)) := by
  have hone := h.one
  have hscheduling := Config.total_replace Instr.scheduling htop s []
  simp only [Config.weigh_nil, Instr.scheduling, Instr.looping] at hscheduling
  refine ⟨by omega, fun _ => ?_, fun hcreated => ?_⟩
  · have := Config.total_mono looping_le_scheduling (c.replace t s ([] ++ rest))
    omega
  · rw [Config.shared_replace, hstate] at hcreated
    have hended := h.ended (by rw [h.created hcreated]; nofun)
    have hle := Config.le_total (w := Instr.looping) (Config.active_of_top htop)
    rw [hended] at hle
    cases hle

theorem join (h : Looping c) {worker : WorkerThread}
    (hjoined : worker = c.shared.worker ∨ c.shared.worker = .exited ∧ worker = .joined)
    (hcreated : c.shared.schedulerState = .created) : worker = .absent := by
  have habsent := h.created hcreated
  obtain rfl | ⟨hexited, -⟩ := hjoined
  · exact habsent
  · rw [habsent] at hexited
    cases hexited

theorem step (h : Looping c) (hstep : machine.Step c t i c') : Looping c' := by
  obtain @⟨rest, x, s, pushed, htop, hexec⟩ := hstep
  cases moves_of_exec (t := t) hexec with
  | started inside created => exact h.keep htop rfl rfl (absurd rfl) nofun
  | requestStop =>
    refine h.keep htop rfl rfl ?_ fun hcreated => absurd hcreated (execRequestStop_ne_created _)
    rw [worker_execRequestStop]
    exact id
  | beginStop inside =>
    refine h.keep htop rfl rfl ?_ fun hcreated => absurd hcreated (execRequestStop_ne_created _)
    rw [worker_execRequestStop]
    exact id
  | joinInside ended joined => exact h.keep htop rfl rfl (fun _ => ended) (h.join joined)
  | join ended joined => exact h.keep htop rfl rfl (fun _ => ended) (h.join joined)
  | finished drain idle => exact h.keep htop rfl rfl id nofun
  | begin started =>
    refine ⟨?_, fun hended => absurd started hended, h.created⟩
    have := h.one
    have := Config.total_replace Instr.scheduling htop c.shared [.lockLoop]
    simp only [Config.weigh_cons, Config.weigh_nil, Instr.scheduling, Instr.looping] at this
    omega
  | exit stopped => exact h.exit htop rfl
  | _ => exact h.keep htop rfl rfl id h.created

end Looping

def Ending (s : Shared) : Prop := s.schedulerState = .stopping ∨ s.schedulerState = .stopped

/-- What is left when `stop()` returns outside of the callbacks. -/
structure Over (s : Shared) : Prop where
  stopped : s.schedulerState = .stopped
  tasks_eq : s.tasks = []
  states_eq : ∀ id, s.states id = none
  idle : s.inFlight = 0
  ended : s.worker ≠ .running

section Moves

variable {s s' : Shared} {i : Instr} {pushed : List Instr}

theorem ending_execRequestStop (s : Shared) : Ending (Instr.execRequestStop s) := by
  rw [Instr.execRequestStop]
  split
  · exact .inr rfl
  · exact .inl rfl
  · rename_i hstate
    exact .inl hstate
  · rename_i hstate
    exact .inr hstate

theorem Ending.ne_running (h : Ending s) : s.schedulerState ≠ .running := by
  obtain h | h := h <;> rw [h] <;> nofun

theorem Ending.ne_created (h : Ending s) : s.schedulerState ≠ .created := by
  obtain h | h := h <;> rw [h] <;> nofun

theorem Ending.moves (h : Ending s) (hmoves : Moves s i s' pushed) :
    Ending s' ∧ (s.worker ≠ .running → s'.worker ≠ .running) := by
  cases hmoves with
  | started inside created => exact absurd created h.ne_created
  | schedule _ _ _ _ running => exact absurd running h.ne_running
  | requestStop | beginStop =>
    refine ⟨ending_execRequestStop s, ?_⟩
    rw [worker_execRequestStop]
    exact id
  | joinInside ended joined | join ended joined =>
    refine ⟨h, fun _ => ?_⟩
    obtain rfl | ⟨-, rfl⟩ := joined
    · exact ended
    · nofun
  | finished drain idle => exact ⟨.inr rfl, id⟩
  | exit stopped => exact ⟨h, fun _ => nofun⟩
  | _ => exact ⟨h, id⟩

theorem Moves.ending_of_join {inside : Bool} (h : Moves s i s' pushed)
    (hmem : .joinWorker .stop inside ∈ pushed) : Ending s' := by
  cases h with
  | beginStop => exact ending_execRequestStop s
  | _ => simp at hmem

theorem Moves.of_await (h : Moves s i s' pushed) (hmem : .awaitFinished .stop ∈ pushed) :
    s'.worker ≠ .running ∧ i = .joinWorker .stop false := by
  cases h with
  | @join drain worker ended joined =>
    obtain rfl : .stop = drain := by simpa using hmem
    refine ⟨?_, rfl⟩
    obtain rfl | ⟨-, rfl⟩ := joined
    · exact ended
    · nofun
  | _ => simp at hmem

theorem Moves.of_drained (h : Moves s i s' pushed)
    (hmem : .returned (.drained .stop false) ∈ pushed) :
    i = .awaitFinished .stop ∧ (s.worker ≠ .running → Over s') := by
  cases h with
  | finished drain idle =>
    obtain rfl : .stop = drain := by simpa using hmem
    exact ⟨rfl, fun ended => ⟨rfl, rfl, fun _ => rfl, idle, ended⟩⟩
  | _ => simp at hmem

end Moves

theorem Over.requestStop {s : Shared} (h : Over s) : Instr.execRequestStop s = s := by
  rw [Instr.execRequestStop, h.stopped]

section Over

variable {c c' : Config} {t : Nat} {i : Instr}

theorem Over.step (h : Over c.shared) (hlooping : Looping c) (hinFlight : InFlight c)
    (hstep : machine.Step c t i c') :
    Over c'.shared ∧ c'.shared.started = c.shared.started ∧
      c'.shared.issued = c.shared.issued := by
  obtain @⟨rest, x, s, pushed, htop, hexec⟩ := hstep
  have hactive : c.Active t i := Config.active_of_top htop
  have hlooping : i.looping = 0 := by
    have := Config.le_total (w := Instr.looping) hactive
    have := hlooping.ended h.ended
    omega
  have hfinishing : i.finishing = 0 := by
    have := Config.le_total (w := Instr.finishing) hactive
    have := (hinFlight.none_left h.idle).2.2
    omega
  have hholds := hinFlight.holds_eq_zero h.idle hactive
  rw [Config.shared_replace]
  cases moves_of_exec (t := t) hexec with
  | started inside created =>
    rw [h.stopped] at created
    cases created
  | @cancel id state inside found live =>
    rw [h.states_eq] at found
    cases found
  | schedule _ _ _ _ running =>
    rw [h.stopped] at running
    cases running
  | requestStop | beginStop =>
    rw [h.requestStop]
    exact ⟨h, rfl, rfl⟩
  | joinInside ended joined | join ended joined =>
    refine ⟨{ h with ended := ?_ }, rfl, rfl⟩
    obtain rfl | ⟨-, rfl⟩ := joined
    · exact h.ended
    · nofun
  | finished drain idle => exact ⟨⟨rfl, rfl, fun _ => rfl, idle, h.ended⟩, rfl, rfl⟩
  | lockLoop | exit | sleep | awaitTop | wakeTasks | interrupted | early | collect | popCancelled
  | discard | pass => cases hlooping
  | accepted | reject | finishInFlight => cases hfinishing
  | eraseRejected task completion => exact absurd (hholds completion) (by simp [Instr.holds])
  | @dropShared completion => exact absurd (hholds completion) (by simp [Instr.holds])
  | @dropLast completion => exact absurd (hholds completion) (by simp [Instr.holds])
  | run queued =>
    rw [(hinFlight.none_left h.idle).2.1] at queued
    cases queued
  | @enterCancelled w | @enter w | callbackStarts w | @again w | leave w =>
    exact absurd (hholds w.completion) (by simp [Instr.holds])
  | _ => exact ⟨h, rfl, rfl⟩

end Over

structure Stopping (c : Config) : Prop where
  joining : ∀ t inside, c.Active t (.joinWorker .stop inside) → Ending c.shared
  awaiting : ∀ t, c.Active t (.awaitFinished .stop) →
    Ending c.shared ∧ c.shared.worker ≠ .running
  final : ∀ t, c.Active t (.returned (.drained .stop false)) → Over c.shared

structure Sound (c : Config) : Prop where
  inFlight : InFlight c
  looping : Looping c
  stopping : Stopping c

section Sound

variable {c c' : Config} {t : Nat} {i : Instr}

theorem Stopping.init (poolThreads threads : Nat) : Stopping (init poolThreads threads) := by
  refine ⟨fun t inside hactive => ?_, fun t hactive => ?_, fun t hactive => ?_⟩
  all_goals obtain heq | heq | heq := eq_of_init hactive <;> cases heq

theorem Sound.stopping_step (h : Sound c) (hstep : machine.Step c t i c') : Stopping c' := by
  have hover := fun h' : Over c.shared => (h'.step h.looping h.inFlight hstep).1
  obtain @⟨rest, x, s, pushed, htop, hexec⟩ := hstep
  have hmoves := moves_of_exec (t := t) hexec
  refine ⟨fun t' inside hactive => ?_, fun t' hactive => ?_, fun t' hactive => ?_⟩
  · obtain ⟨-, hmem⟩ | hold := Config.active_of_replace htop hactive
    · exact hmoves.ending_of_join hmem
    · exact ((h.stopping.joining t' inside hold).moves hmoves).1
  · obtain ⟨-, hmem⟩ | hold := Config.active_of_replace htop hactive
    · obtain ⟨hended, rfl⟩ := hmoves.of_await hmem
      have hending := h.stopping.joining t false (Config.active_of_top htop)
      exact ⟨(hending.moves hmoves).1, hended⟩
    · obtain ⟨hending, hended⟩ := h.stopping.awaiting t' hold
      exact (hending.moves hmoves).imp_right fun hkeeps => hkeeps hended
  · obtain ⟨-, hmem⟩ | hold := Config.active_of_replace htop hactive
    · obtain ⟨rfl, hends⟩ := hmoves.of_drained hmem
      exact hends (h.stopping.awaiting t (Config.active_of_top htop)).2
    · exact hover (h.stopping.final t' hold)

theorem Sound.init (poolThreads threads : Nat) : Sound (init poolThreads threads) :=
  ⟨.init poolThreads threads, .init poolThreads threads, .init poolThreads threads⟩

theorem Sound.step (h : Sound c) (hstep : machine.Step c t i c') : Sound c' :=
  ⟨h.inFlight.step hstep, h.looping.step hstep, h.stopping_step hstep⟩

end Sound

end UnixNotes.Timer
