import UnixNotes.Timer.Carriers

namespace UnixNotes.Timer

open Library

def threeAt (s : Shared) (worker pool user : List Instr) : Config := ⟨s, [worker, pool, user]⟩

section Cycles

variable {s s' : Shared} {i : Instr} {rest pushed worker pool user : List Instr} {x : Choice}

theorem userAt_step (h : i.exec 2 x s = some (s', pushed)) :
    machine.Reaches (threeAt s worker pool (i :: rest)) (threeAt s' worker pool (pushed ++ rest)) := by
  have hstep : machine.Step (threeAt s worker pool (i :: rest)) 2 i
      ((threeAt s worker pool (i :: rest)).replace 2 s' (pushed ++ rest)) := .exec rfl h
  exact .step .start trivial hstep

theorem workerAt_steps (h : i.exec 0 x s = some (s', pushed)) :
    machine.Step (threeAt s (i :: rest) pool user) 0 i (threeAt s' (pushed ++ rest) pool user) := by
  have hstep : machine.Step (threeAt s (i :: rest) pool user) 0 i
      ((threeAt s (i :: rest) pool user).replace 0 s' (pushed ++ rest)) := .exec rfl h
  exact hstep

theorem workerAt_step (h : i.exec 0 x s = some (s', pushed)) :
    machine.Reaches (threeAt s (i :: rest) pool user) (threeAt s' (pushed ++ rest) pool user) :=
  .step .start trivial (workerAt_steps h)

theorem poolAt_step (h : i.exec 1 x s = some (s', pushed)) :
    machine.Reaches (threeAt s worker (i :: rest) user) (threeAt s' worker (pushed ++ rest) user) := by
  have hstep : machine.Step (threeAt s worker (i :: rest) user) 1 i
      ((threeAt s worker (i :: rest) user).replace 1 s' (pushed ++ rest)) := .exec rfl h
  exact .step .start trivial hstep

theorem userAt_returned (s : Shared) (worker pool : List Instr) (reply : Reply) :
    machine.Reaches (threeAt s worker pool [.returned reply, .user])
      (threeAt s worker pool [.user]) := by
  have hreturned : (Instr.returned reply).exec 2 .next s = some (s, []) := rfl
  exact userAt_step hreturned

/-- The scheduler runs, and waits for a timer. -/
structure Idle (s : Shared) : Prop where
  tasks : s.tasks = []
  running : s.schedulerState = .running
  unlocked : s.locked = false

def scheduled (s : Shared) : Shared :=
  { s with
    nextId := s.nextId + 1
    states := s.states.emplace s.nextId .pending
    issued := s.issued + 1
    tasks := [⟨s.nextId, 0, 0, false, 0⟩] }

theorem Idle.schedule (h : Idle s) :
    machine.Reaches (threeAt s worker pool [.user]) (threeAt (scheduled s) worker pool [.user]) := by
  have hschedule : (Instr.schedule 0 0 false 0).exec 2 .next s =
      some (scheduled s, [.returned (.scheduled s.nextId)]) := by
    simp [Instr.exec, h.unlocked, Instr.execSchedule, h.running, Shared.push, h.tasks, scheduled]
  have hcall : (Instr.call (.scheduleAfter 0 (some 0)) false).exec 2 (.clock 0) s =
      some (s, [.schedule 0 0 false 0]) := rfl
  exact (userAt_step (i := .user) (x := .call (.scheduleAfter 0 (some 0))) rfl).trans <|
    (userAt_step hcall).trans <| (userAt_step hschedule).trans (userAt_returned _ _ _ _)

theorem Idle.cycle (h : Idle s) (pool : List Instr) (hfree : s.states s.nextId = none) : ∃ s',
    machine.Reaches (threeAt s [.waitTasks] pool [.user]) (threeAt s' [.waitTasks] pool [.user]) ∧
      Idle s' ∧ s'.states = s.states ∧ s'.nextId = s.nextId + 1 ∧
      s'.cancelled = s.nextId :: s.cancelled := by
  have hemplace : s.states.emplace s.nextId .pending = s.states.set s.nextId .pending := by
    rw [States.emplace, hfree]
    rfl
  let cancelled : Shared := { scheduled s with
    states := (s.states.set s.nextId .pending).set s.nextId .cancelled
    cancelled := s.nextId :: s.cancelled }
  have hcall : (Instr.call (.cancel s.nextId) false).exec 2 .next (scheduled s) =
      some (cancelled, [.returned (.cancelled true)]) := by
    simp [Instr.exec, Instr.execCall, scheduled, h.unlocked, Instr.execCancel, hemplace, States.set,
      cancelled]
  have hcancel : machine.Reaches (threeAt (scheduled s) [.waitTasks] pool [.user])
      (threeAt cancelled [.waitTasks] pool [.user]) :=
    (userAt_step (i := .user) (x := .call (.cancel s.nextId)) rfl).trans <|
      (userAt_step hcall).trans (userAt_returned _ _ _ _)
  let locked : Shared := { cancelled with locked := true }
  have hwake : Instr.waitTasks.exec 0 .next cancelled = some (locked, [.loop]) := by
    simp [Instr.exec, cancelled, scheduled, h.unlocked, locked]
  have hloop : Instr.loop.exec 0 .next locked = some (locked, [.popCancelled]) := by
    simp [Instr.exec, Instr.execLoop, locked, cancelled, scheduled, h.running, Shared.interrupted,
      States.set]
  let popped : Shared := { locked with tasks := [], states := s.states }
  have hstates : ((s.states.set s.nextId .pending).set s.nextId .cancelled).erase s.nextId =
      s.states := by
    rw [States.set, States.set, States.erase, Function.update_idem, Function.update_idem, ← hfree,
      Function.update_eq_self]
  have hpop : Instr.popCancelled.exec 0 .next locked = some (popped, [.loop]) := by
    have htop : (dropCancelled cancelled.tasks cancelled.states) = ([], s.states) := by
      simp only [cancelled, scheduled, dropCancelled]
      rw [if_pos (show (States.set _ s.nextId .cancelled) s.nextId = _ from
        Function.update_self ..), hstates]
    simp [Instr.exec, locked, htop, popped]
  let idle : Shared := { popped with locked := false }
  have hsleep : Instr.loop.exec 0 .next popped = some (idle, [.waitTasks]) := by
    simp [Instr.exec, Instr.execLoop, popped, locked, cancelled, scheduled, h.running, idle]
  refine ⟨idle, h.schedule.trans <| hcancel.trans <| (workerAt_step hwake).trans <|
    (workerAt_step hloop).trans <| (workerAt_step hpop).trans (workerAt_step hsleep), ?_⟩
  exact ⟨⟨rfl, h.running, rfl⟩, rfl, rfl, rfl⟩

theorem Idle.cycles (h : Idle s) (pool : List Instr) (n : Nat)
    (hfree : ∀ k < n, s.states (s.nextId + UInt64.ofNat k) = none) : ∃ s',
    machine.Reaches (threeAt s [.waitTasks] pool [.user]) (threeAt s' [.waitTasks] pool [.user]) ∧
      Idle s' ∧ s'.states = s.states ∧ s'.nextId = s.nextId + UInt64.ofNat n ∧
      ∀ id ∈ s.cancelled, id ∈ s'.cancelled := by
  induction n with
  | zero => exact ⟨s, .start, h, rfl, (add_zero _).symm, fun _ => id⟩
  | succ n ih =>
    obtain ⟨s₁, hrun, hidle, hstates, hnextId, hcancelled⟩ := ih fun k hk => hfree k (by omega)
    have hnone : s₁.states s₁.nextId = none := by
      rw [hstates, hnextId]
      exact hfree n (Nat.lt_succ_self n)
    obtain ⟨s₂, hlast, hidle, hstates', hnextId', hcancelled'⟩ := hidle.cycle pool hnone
    refine ⟨s₂, hrun.trans hlast, hidle, hstates'.trans hstates, ?_, fun id hid => ?_⟩
    · rw [hnextId', hnextId, add_assoc, UInt64.ofNat_add]
      rfl
    · rw [hcancelled']
      exact List.mem_cons_of_mem _ (hcancelled id hid)

end Cycles

def begin : List (Nat × Choice) :=
  [(2, .call .start), (2, .next), (2, .next), (0, .next), (0, .next), (0, .next)]

theorem cancelled_twice : ∃ c, machine.Reaches (init 1 1) c ∧ 2 ≤ c.shared.cancelled.count 1 := by
  let begun := machine.follow (init 1 1) begin
  have hbegun : begun = threeAt begun.shared [.waitTasks] [.poolWorker] [.user] := by
    have hthreads : begun.threads = [[.waitTasks], [.poolWorker], [.user]] := by decide
    rw [threeAt, ← hthreads]
  have hstart : machine.Reaches (init 1 1)
      (threeAt begun.shared [.waitTasks] [.poolWorker] [.user]) :=
    hbegun ▸ Machine.reaches_follow _
  have hidle : Idle begun.shared := by
    refine ⟨?_, ?_, ?_⟩ <;> decide
  have hnone : ∀ id, begun.shared.states id = none := fun _ => rfl
  have hfirst : begun.shared.nextId = 1 := by decide
  obtain ⟨s₁, hrun₁, hidle₁, hstates₁, hnextId₁, hcancelled₁⟩ :=
    hidle.cycle [.poolWorker] (hnone _)
  obtain ⟨s₂, hrun₂, hidle₂, hstates₂, hnextId₂, hcancelled₂⟩ :=
    hidle₁.cycles [.poolWorker] (2 ^ 64 - 1) fun k _ => by rw [hstates₁, hnone]
  obtain ⟨s₃, hrun₃, -, -, -, hcancelled₃⟩ := hidle₂.cycle [.poolWorker] (by
    rw [hstates₂, hstates₁, hnone])
  refine ⟨_, hstart.trans (hrun₁.trans (hrun₂.trans hrun₃)), ?_⟩
  have hwrapped : s₂.nextId = 1 := by
    rw [hnextId₂, hnextId₁, hfirst]
    decide
  have hmem : 1 ∈ s₂.cancelled := by
    refine hcancelled₂ 1 ?_
    rw [hcancelled₁, hfirst]
    exact List.mem_cons_self ..
  have hcount := List.count_pos_iff.mpr hmem
  change 2 ≤ s₃.cancelled.count 1
  rw [hcancelled₃, hwrapped, List.count_cons_self]
  omega

def beginRunning : List (Nat × Choice) :=
  [(2, .call .start), (2, .next), (2, .next), (2, .call (.scheduleAfter 0 (some 0))), (2, .clock 0),
    (2, .next), (2, .next), (0, .next), (0, .next), (0, .next), (0, .clock 5), (0, .next),
    (0, .next), (0, .next), (1, .run 0), (1, .next), (1, .next), (0, .next), (0, .next),
    (0, .next)]

def inCallback : List Instr := [.runCallback ⟨⟨1, 0, 0, false, 0⟩, 0⟩, .poolWorker]

theorem issued_again : ∃ s, machine.Reaches (init 1 1)
      (threeAt (scheduled s) [.waitTasks] inCallback [.user]) ∧
    Idle s ∧ s.nextId = 1 ∧ s.states 1 = some .executing := by
  let begun := machine.follow (init 1 1) beginRunning
  have hbegun : begun = threeAt begun.shared [.waitTasks] inCallback [.user] := by
    have hthreads : begun.threads = [[.waitTasks], inCallback, [.user]] := by decide
    rw [threeAt, ← hthreads]
  have hstart : machine.Reaches (init 1 1)
      (threeAt begun.shared [.waitTasks] inCallback [.user]) :=
    hbegun ▸ Machine.reaches_follow _
  have hnumbered : Numbered begun :=
    (carrying_of_run (Machine.run_follow (by decide))).numbered
  have hidle : Idle begun.shared := by
    refine ⟨?_, ?_, ?_⟩ <;> decide
  have hissued : begun.shared.issued = 1 := by decide
  have hfree : ∀ k < 2 ^ 64 - 1,
      begun.shared.states (begun.shared.nextId + UInt64.ofNat k) = none :=
    fun k hk => hnumbered.states_eq_none (by omega)
  obtain ⟨s, hrun, hidle, hstates, hnextId, -⟩ := hidle.cycles inCallback (2 ^ 64 - 1) hfree
  refine ⟨s, hstart.trans (hrun.trans hidle.schedule), hidle, ?_, ?_⟩
  · rw [hnextId, hnumbered.nextId_eq, hissued]
    decide
  · rw [hstates]
    decide

theorem carried_twice : ∃ c, machine.Reaches (init 1 1) c ∧
    c.shared.states 1 = some .executing ∧ (life c 1).heap = 1 ∧ (life c 1).running = 1 := by
  obtain ⟨s, hrun, -, hwrapped, hexecuting⟩ := issued_again
  refine ⟨_, hrun, ?_, ?_, rfl⟩
  · change s.states.emplace s.nextId .pending 1 = some .executing
    rw [hwrapped, States.emplace, hexecuting]
    exact hexecuting
  · change [(⟨s.nextId, 0, 0, false, 0⟩ : TimerTask)].countP (fun task => task.id = 1) = 1
    rw [hwrapped]
    rfl

end UnixNotes.Timer
