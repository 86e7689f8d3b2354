import UnixNotes.Timer.Stop
import UnixNotes.Timer.Wrap

namespace UnixNotes.Timer

open Library

/-- The loop ends after `n` iterations; an iteration that leaves it is `none`. -/
inductive Ends {α : Type*} (body : α → Option α) : Nat → α → α → Prop
  | done {a : α} (leaves : body a = none) : Ends body 0 a a
  | next {n : Nat} {a b c : α} (iterates : body a = some b) (rest : Ends body n b c) :
      Ends body (n + 1) a c

/-- An iteration of the loop that takes the cancelled timers off the top of the heap. -/
def dropBody : List TimerTask × States → Option (List TimerTask × States)
  | ([], _) => none
  | (top :: tasks, states) =>
    if states top.id = some .cancelled then some (tasks, states.erase top.id) else none

def collectBody (now : Int) : List TimerTask × List TimerTask × States →
    Option (List TimerTask × List TimerTask × States)
  | (_, [], _) => none
  | (ready, top :: tasks, states) =>
    if top.expiration ≤ now then
      match states top.id with
      | some .pending => some (ready ++ [top], tasks, states.set top.id .submitted)
      | some .cancelled => some (ready, tasks, states.erase top.id)
      | _ => some (ready, tasks, states)
    else none

theorem ends_dropCancelled (tasks : List TimerTask) (states : States) :
    ∃ n ≤ tasks.length, Ends dropBody n (tasks, states) (dropCancelled tasks states) := by
  induction tasks generalizing states with
  | nil => exact ⟨0, Nat.le_refl _, .done rfl⟩
  | cons top tasks ih =>
    by_cases hcancelled : states top.id = some .cancelled
    · obtain ⟨n, hle, hends⟩ := ih (states.erase top.id)
      rw [dropCancelled, if_pos hcancelled]
      exact ⟨n + 1, Nat.succ_le_succ hle, .next (if_pos hcancelled) hends⟩
    · rw [dropCancelled, if_neg hcancelled]
      exact ⟨0, Nat.zero_le _, .done (if_neg hcancelled)⟩

theorem ends_collect (now : Int) (ready tasks : List TimerTask) (states : States) :
    ∃ n ≤ tasks.length, Ends (collectBody now) n (ready, tasks, states)
      (ready ++ (collect now tasks states).1, (collect now tasks states).2) := by
  induction tasks generalizing ready states with
  | nil =>
    refine ⟨0, Nat.le_refl _, ?_⟩
    rw [collect, List.append_nil]
    exact .done rfl
  | cons top tasks ih =>
    by_cases hexpired : top.expiration ≤ now
    · cases hstate : states top.id with
      | none =>
        obtain ⟨n, hle, hends⟩ := ih ready states
        rw [collect, if_pos hexpired, hstate]
        exact ⟨n + 1, Nat.succ_le_succ hle, .next (by rw [collectBody, if_pos hexpired, hstate]) hends⟩
      | some state =>
        cases state with
        | pending =>
          obtain ⟨n, hle, hends⟩ := ih (ready ++ [top]) (states.set top.id .submitted)
          rw [List.append_assoc] at hends
          rw [collect, if_pos hexpired, hstate]
          exact ⟨n + 1, Nat.succ_le_succ hle,
            .next (by rw [collectBody, if_pos hexpired, hstate]) hends⟩
        | cancelled =>
          obtain ⟨n, hle, hends⟩ := ih ready (states.erase top.id)
          rw [collect, if_pos hexpired, hstate]
          exact ⟨n + 1, Nat.succ_le_succ hle,
            .next (by rw [collectBody, if_pos hexpired, hstate]) hends⟩
        | submitted | executing =>
          obtain ⟨n, hle, hends⟩ := ih ready states
          rw [collect, if_pos hexpired, hstate]
          exact ⟨n + 1, Nat.succ_le_succ hle,
            .next (by rw [collectBody, if_pos hexpired, hstate]) hends⟩
    · rw [collect, if_neg hexpired, List.append_nil]
      exact ⟨0, Nat.zero_le _, .done (if_neg hexpired)⟩

theorem kept_of_locked {s s' : Shared} {t : Nat} {i : Instr} {x : Choice} {pushed : List Instr}
    (hlocked : s.locked = true) (hi : i.looping = 0)
    (h : i.exec t x s = some (s', pushed)) : s'.tasks = s.tasks ∧ s'.states = s.states := by
  cases i with
  | lockLoop | loop | waitTasks | waitUntil | popCancelled | batch => cases hi
  | call op inside =>
    cases op with
    | start =>
      cases x <;> simp [Instr.exec, Instr.execCall, hlocked] at h
    | cancel id => cases x <;> simp [Instr.exec, Instr.execCall, hlocked] at h
    | scheduleAfter delay task =>
      cases x with
      | clock now =>
        simp only [Instr.exec, Instr.execCall] at h
        (repeat' split at h) <;> cases h <;> exact ⟨rfl, rfl⟩
      | _ => cases h
    | scheduleEvery interval task =>
      cases x with
      | clock now =>
        simp only [Instr.exec, Instr.execCall] at h
        (repeat' split at h) <;> cases h <;> exact ⟨rfl, rfl⟩
      | _ => cases h
    | requestStop | wait | stop =>
      cases x <;> cases h
      exact ⟨rfl, rfl⟩
  | schedule | requestStop | awaitFinished | rejected | finishInFlight | enter =>
    cases x <;> simp [Instr.exec, Instr.execAwaitFinished, hlocked] at h
  | leave w => cases x <;> simp [Instr.exec, hlocked] at h
  | joinWorker drain inside =>
    cases x with
    | next =>
      simp only [Instr.exec, Instr.execJoinWorker] at h
      split at h <;> cases h <;> exact ⟨rfl, rfl⟩
    | _ => cases h
  | user =>
    cases x <;> cases h
    exact ⟨rfl, rfl⟩
  | poolWorker =>
    cases x with
    | run index =>
      obtain ⟨w, -, heq⟩ := Option.map_eq_some_iff.mp h
      cases heq
      exact ⟨rfl, rfl⟩
    | _ => cases h
  | submit task => cases x <;> cases h <;> exact ⟨rfl, rfl⟩
  | worker =>
    cases x with
    | next =>
      simp only [Instr.exec] at h
      split at h <;> cases h
      exact ⟨rfl, rfl⟩
    | _ => cases h
  | returned | dropCompletion | startCallback | runCallback =>
    cases x <;> cases h <;> exact ⟨rfl, rfl⟩

namespace Instr

def passing : Instr → Nat
  | .loop | .popCancelled => 1
  | _ => 0

end Instr

theorem passing_le_scheduling (i : Instr) : i.passing ≤ i.scheduling := by
  cases i with
  | loop | popCancelled => exact Nat.le_refl _
  | _ => exact Nat.zero_le _

structure Holding (c : Config) : Prop where
  looping : Looping c
  locked : c.shared.locked = false → c.total Instr.passing = 0

theorem locked_execRequestStop (s : Shared) : (Instr.execRequestStop s).locked = s.locked := by
  rw [Instr.execRequestStop]
  split <;> rfl

namespace Holding

variable {c c' : Config} {t : Nat} {i : Instr} {rest pushed : List Instr} {s : Shared}

theorem init (poolThreads threads : Nat) : Holding (init poolThreads threads) :=
  ⟨.init poolThreads threads, fun _ => total_init rfl rfl rfl _ _⟩

theorem total_le_one (h : Holding c) : c.total Instr.passing ≤ 1 :=
  Nat.le_trans (Config.total_mono passing_le_scheduling c) h.looping.one

theorem step (h : Holding c) (hstep : machine.Step c t i c') : Holding c' := by
  have hlooping := h.looping.step hstep
  refine ⟨hlooping, fun hunlocked => ?_⟩
  have hone := h.total_le_one
  have hlocked := h.locked
  obtain @⟨rest, x, s, pushed, htop, hexec⟩ := hstep
  have htotal := Config.total_replace Instr.passing htop s pushed
  rw [Config.shared_replace] at hunlocked
  generalize (c.replace t s (pushed ++ rest)).total Instr.passing = n at htotal ⊢
  cases moves_of_exec (t := t) hexec with
  | lockLoop | wakeTasks | interrupted | early => cases hunlocked
  | exit | sleep | awaitTop =>
    simp only [Instr.passing, Config.weigh_cons, Config.weigh_nil] at htotal
    omega
  | requestStop | beginStop =>
    rw [locked_execRequestStop] at hunlocked
    have := hlocked hunlocked
    simp only [Instr.passing, Config.weigh_cons, Config.weigh_nil] at htotal
    omega
  | _ =>
    have := hlocked hunlocked
    simp only [Instr.passing, Config.weigh_cons, Config.weigh_nil] at htotal
    omega

theorem locked_of_active (h : Holding c) (hactive : c.Active t i) (hi : i.passing = 1) :
    c.shared.locked = true := by
  by_contra hunlocked
  have hle := Config.le_total (w := Instr.passing) hactive
  rw [h.locked (Bool.eq_false_iff.mpr hunlocked), hi] at hle
  cases hle

end Holding

def Recorded (tasks : List TimerTask) (states : States) : Prop :=
  ∀ id, ∃ waiting running starts cancels,
    Life.Carried ⟨states id, tasks.countP fun task => task.id = id, waiting, running, starts, cancels⟩

theorem Carrying.recorded {c : Config} (h : Carrying c) :
    Recorded c.shared.tasks c.shared.states := fun id => ⟨_, _, _, _, h.carried id⟩

theorem Recorded.dropCancelled {tasks : List TimerTask} {states : States}
    (h : Recorded tasks states) :
    Recorded (dropCancelled tasks states).1 (dropCancelled tasks states).2 := fun id => by
  obtain ⟨waiting, running, starts, cancels, hcarried⟩ := h id
  exact ⟨_, _, _, _, Life.carried_of_path (life_dropCancelled ..) hcarried⟩

theorem Recorded.top {top : TimerTask} {tasks : List TimerTask} {states : States}
    (h : Recorded (top :: tasks) states) :
    states top.id = some .pending ∨ states top.id = some .cancelled := by
  obtain ⟨waiting, running, starts, cancels, hcarried⟩ := h top.id
  exact hcarried.of_node (List.countP_pos_iff.mpr ⟨top, List.mem_cons_self .., by simp⟩)

theorem length_dropCancelled_le (tasks : List TimerTask) (states : States) :
    (dropCancelled tasks states).1.length ≤ tasks.length := by
  induction tasks generalizing states with
  | nil => exact Nat.le_refl _
  | cons top tasks ih =>
    rw [dropCancelled]
    split
    · exact Nat.le_succ_of_le (ih _)
    · exact Nat.le_refl _

theorem length_dropCancelled_lt {top : TimerTask} (tasks : List TimerTask) {states : States}
    (h : states top.id = some .cancelled) :
    (dropCancelled (top :: tasks) states).1.length < (top :: tasks).length := by
  rw [dropCancelled, if_pos h]
  exact Nat.lt_succ_of_le (length_dropCancelled_le tasks _)

theorem execLoop_cases {s s' : Shared} {pushed : List Instr}
    (h : Instr.execLoop s = (s', pushed)) :
    (∀ j ∈ pushed, j ≠ .loop ∧ j ≠ .popCancelled) ∨
      s' = s ∧ pushed = [.popCancelled] ∧ ∃ top tasks, s.tasks = top :: tasks ∧
        (s.states top.id = none ∨ s.states top.id = some .cancelled) := by
  simp only [Instr.execLoop] at h
  split at h
  · cases h
    exact .inl (by rintro _ ⟨⟩)
  · rename_i hrunning
    split at h
    · cases h
      exact .inl (by simp)
    · rename_i top tasks htasks
      split at h
      · rename_i hinterrupted
        cases h
        refine .inr ⟨rfl, rfl, top, tasks, htasks, ?_⟩
        simpa [Shared.interrupted, hrunning, htasks] using hinterrupted
      · cases h
        exact .inl (by simp)

/-- How many passes have been made without a wait since the heap had `n` nodes. -/
def Passes (t n : Nat) (steps : List (Nat × Instr)) (c : Config) : Prop :=
  steps.count (t, .popCancelled) ≤ n ∧
    ((∀ j ∈ (c.stack t).head?, j ≠ .loop ∧ j ≠ .popCancelled) ∨
      steps.count (t, .popCancelled) + c.shared.tasks.length ≤ n ∧
      Recorded c.shared.tasks c.shared.states ∧ ∃ rest, c.stack t = .loop :: rest ∨
        c.stack t = .popCancelled :: rest ∧ ∃ top tasks, c.shared.tasks = top :: tasks ∧
          c.shared.states top.id = some .cancelled)

section Passes

variable {c c' : Config} {t t' n : Nat} {i : Instr} {steps : List (Nat × Instr)}

theorem Holding.not_looping (h : Holding c) {j : Instr} {rest rest' : List Instr}
    (htop : c.stack t = j :: rest) (hj : j.passing = 1) (htop' : c.stack t' = i :: rest')
    (hne : t' ≠ t) : i.looping = 0 := by
  have hactive : (c.replace t' c.shared ([] ++ rest')).Active t j := by
    rw [Config.Active, Config.stack_replace_ne _ _ _ hne.symm, htop]
    exact List.mem_cons_self ..
  have hle := Config.weigh_add_le_total (w := Instr.scheduling) htop' hactive List.not_mem_nil
  have hone := h.looping.one
  have hpassing := passing_le_scheduling j
  have hscheduling := Looping.looping_le_scheduling i
  omega

theorem Passes.other (h : Passes t n steps c) (hholding : Holding c) (hne : t' ≠ t)
    (hstep : machine.Step c t' i c') : Passes t n (steps ++ [(t', i)]) c' := by
  obtain @⟨rest, x, s, pushed, htop, hexec⟩ := hstep
  have hcount : (steps ++ [(t', i)]).count (t, .popCancelled) = steps.count (t, .popCancelled) := by
    rw [List.count_append, List.count_singleton, if_neg, Nat.add_zero]
    rw [beq_iff_eq]
    rintro ⟨⟩
    exact hne rfl
  obtain ⟨hle, hwaits | ⟨hbudget, hrecorded, rest', hstack⟩⟩ := h
  · refine ⟨by rwa [hcount], .inl ?_⟩
    rwa [Config.stack_replace_ne _ _ _ hne.symm]
  · have hpassing : ∃ j rest, c.stack t = j :: rest ∧ j.passing = 1 := by
      obtain hloop | ⟨hpop, -⟩ := hstack
      · exact ⟨_, _, hloop, rfl⟩
      · exact ⟨_, _, hpop, rfl⟩
    obtain ⟨j, below, htop', hj⟩ := hpassing
    have hlooping := hholding.not_looping htop' hj htop hne
    have hlocked := hholding.locked_of_active (Config.active_of_top htop') hj
    obtain ⟨htasks, hstates⟩ := kept_of_locked (t := t') hlocked hlooping hexec
    refine ⟨by rwa [hcount], .inr ?_⟩
    rw [hcount, Config.stack_replace_ne _ _ _ hne.symm, Config.shared_replace, htasks, hstates]
    exact ⟨hbudget, hrecorded, rest', hstack⟩

theorem Holding.not_below (h : Holding c) {rest : List Instr} (htop : c.stack t = i :: rest)
    (hi : i.passing = 1) {j : Instr} (hj : j ∈ rest) : j ≠ .loop ∧ j ≠ .popCancelled := by
  have hactive : (c.replace t c.shared ([] ++ rest)).Active t j := by
    rwa [Config.Active, Config.stack_replace_self htop]
  have hle := Config.weigh_add_le_total (w := Instr.passing) htop hactive List.not_mem_nil
  have hone := h.total_le_one
  rw [hi] at hle
  refine ⟨?_, ?_⟩ <;> rintro rfl <;> simp only [Instr.passing] at hle <;> omega

theorem Passes.loop (h : Passes t n steps c) (hholding : Holding c)
    (hstep : machine.Step c t .loop c') : Passes t n (steps ++ [(t, Instr.loop)]) c' := by
  obtain @⟨rest, x, s, pushed, htop, hexec⟩ := hstep
  have hcount : (steps ++ [(t, Instr.loop)]).count (t, Instr.popCancelled) =
      steps.count (t, Instr.popCancelled) := by
    rw [List.count_append, List.count_singleton, if_neg (by simp), Nat.add_zero]
  obtain ⟨hle, hwaits | ⟨hbudget, hrecorded, -⟩⟩ := h
  · rw [htop, List.head?_cons] at hwaits
    exact absurd rfl (hwaits _ rfl).1
  · have hloop : Instr.execLoop c.shared = (s, pushed) := by
      cases x with
      | next => exact Option.some.inj hexec
      | _ => cases hexec
    refine ⟨by rwa [hcount], ?_⟩
    rw [hcount, Config.stack_replace_self htop, Config.shared_replace]
    obtain hpushed | ⟨rfl, rfl, top, tasks, htasks, hdead⟩ := execLoop_cases hloop
    · refine .inl fun j hj => ?_
      obtain hj | hj := List.mem_append.mp (List.mem_of_mem_head? hj)
      · exact hpushed j hj
      · exact hholding.not_below htop rfl hj
    · refine .inr ⟨hbudget, hrecorded, rest, .inr ⟨rfl, top, tasks, htasks, ?_⟩⟩
      have htop := (htasks ▸ hrecorded : Recorded (top :: tasks) _).top
      obtain hnone | hcancelled := hdead
      · rw [hnone] at htop
        exact absurd htop (by simp)
      · exact hcancelled

theorem Passes.popCancelled (h : Passes t n steps c) (hstep : machine.Step c t .popCancelled c') :
    Passes t n (steps ++ [(t, Instr.popCancelled)]) c' := by
  obtain @⟨rest, x, s, pushed, htop, hexec⟩ := hstep
  have hcount : (steps ++ [(t, Instr.popCancelled)]).count (t, Instr.popCancelled) =
      steps.count (t, Instr.popCancelled) + 1 := by
    rw [List.count_append, List.count_singleton_self]
  obtain ⟨hle, hwaits | ⟨hbudget, hrecorded, rest', hstack⟩⟩ := h
  · rw [htop, List.head?_cons] at hwaits
    exact absurd rfl (hwaits _ rfl).2
  · rw [htop] at hstack
    obtain hloop | ⟨-, top, tasks, htasks, hcancelled⟩ := hstack
    · cases hloop
    · have hshorter := length_dropCancelled_lt tasks hcancelled
      have hdropped := hrecorded.dropCancelled
      cases x <;> cases hexec
      rw [Passes, hcount, Config.stack_replace_self htop, Config.shared_replace]
      rw [← htasks] at hshorter
      refine ⟨by omega, .inr ⟨?_, hdropped, rest, .inl rfl⟩⟩
      dsimp only
      omega

theorem Passes.of_trace {rest : List Instr} (hholding : Holding c)
    (hrecorded : Recorded c.shared.tasks c.shared.states) (htop : c.stack t = .loop :: rest)
    (htrace : machine.Trace c steps c')
    (hpasses : ∀ pass ∈ steps, pass.1 = t → pass.2 = .loop ∨ pass.2 = .popCancelled) :
    Passes t c.shared.tasks.length steps c' ∧ Holding c' := by
  induction htrace with
  | start =>
    refine ⟨⟨Nat.zero_le _, .inr ⟨?_, hrecorded, rest, .inl htop⟩⟩, hholding⟩
    rw [List.count_nil, Nat.zero_add]
  | @step steps c₁ c₂ t' i _ step ih =>
    obtain ⟨hpass, hholding₁⟩ := ih fun pass hpass => hpasses pass (List.mem_append_left _ hpass)
    refine ⟨?_, hholding₁.step step⟩
    by_cases ht : t' = t
    · subst ht
      obtain rfl | rfl := hpasses _ (List.mem_append_right _ (List.mem_singleton_self _)) rfl
      · exact hpass.loop hholding₁ step
      · exact hpass.popCancelled step
    · exact hpass.other hholding₁ ht step

end Passes

theorem never_spins {poolThreads threads : Nat} {c : Config}
    (hrun : machine.Run UnusedId (init poolThreads threads) c) :
    (∀ t rest steps c', c.stack t = .loop :: rest → machine.Trace c steps c' →
      (∀ pass ∈ steps, pass.1 = t → pass.2 = .loop ∨ pass.2 = .popCancelled) →
        steps.count (t, .popCancelled) ≤ c.shared.tasks.length ∧
        (c'.stack t = .loop :: rest →
          steps.count (t, .popCancelled) + c'.shared.tasks.length ≤ c.shared.tasks.length)) ∧
    (∃ n ≤ c.shared.tasks.length, Ends dropBody n (c.shared.tasks, c.shared.states)
      (dropCancelled c.shared.tasks c.shared.states)) ∧
    ∀ now, ∃ n ≤ c.shared.tasks.length,
      Ends (collectBody now) n ([], c.shared.tasks, c.shared.states)
        (collect now c.shared.tasks c.shared.states) := by
  have hholding : Holding c :=
    hrun.reaches.invariant (.init poolThreads threads) fun hc _ hstep => hc.step hstep
  have hrecorded := (carrying_of_run hrun).recorded
  refine ⟨fun t rest steps c' htop htrace hpasses => ?_, ends_dropCancelled _ _,
    fun now => ends_collect now [] _ _⟩
  obtain ⟨⟨hle, hpass⟩, -⟩ := Passes.of_trace hholding hrecorded htop htrace hpasses
  refine ⟨hle, fun htop' => ?_⟩
  obtain hwaits | ⟨hbudget, -⟩ := hpass
  · rw [htop', List.head?_cons] at hwaits
    exact absurd rfl (hwaits _ rfl).1
  · exact hbudget

def cancelBoth : List (Nat × Choice) :=
  begin ++ [(2, Choice.call (.scheduleAfter 9 (some 0))), (2, .clock 0), (2, .next), (2, .next),
    (2, .call (.scheduleAfter 9 (some 1))), (2, .clock 0), (2, .next), (2, .next),
    (2, .call (.cancel 1)), (2, .next), (2, .next), (2, .call (.cancel 2)), (2, .next), (2, .next),
    (0, .next)]

theorem never_spins_cancelled :
    (machine.taken (machine.follow (init 1 1) cancelBoth) [(0, .next), (0, .next)]).count
        (0, .popCancelled) ≤ (machine.follow (init 1 1) cancelBoth).shared.tasks.length :=
  ((never_spins (Machine.run_follow (by decide))).1 0 [] _ _ (by decide)
    (Machine.trace_follow (by decide)) (by decide)).1

theorem never_spins_not_after_wrap : ∃ c, machine.Reaches (init 1 1) c ∧ c.stack 0 = [.loop] ∧
    c.shared.tasks.length = 1 ∧
    ∀ n, ∃ steps, machine.Trace c steps c ∧
      (∀ pass ∈ steps, pass.1 = 0 → pass.2 = .loop ∨ pass.2 = .popCancelled) ∧
      steps.count (0, .popCancelled) = n := by
  obtain ⟨s, hrun, hidle, hwrapped, hexecuting⟩ := issued_again
  let w : Wrapper := ⟨⟨1, 0, 0, false, 0⟩, 0⟩
  have hstates : (scheduled s).states 1 = some .executing := by
    change s.states.emplace s.nextId .pending 1 = some .executing
    rw [hwrapped, States.emplace, hexecuting]
    exact hexecuting
  let left : Shared := { scheduled s with states := (scheduled s).states.erase 1 }
  let locked : Shared := { left with locked := true }
  have hends : (Instr.runCallback w).exec 1 .next (scheduled s) =
      some (scheduled s, [.leave w]) := rfl
  have hleave : (Instr.leave w).exec 1 (.clock 0) (scheduled s) =
      some (left, [.dropCompletion 0]) := by
    have hunlocked : (scheduled s).locked = false := hidle.unlocked
    simp [Instr.exec, hunlocked, Instr.execLeave, w, hstates, left]
  have hwake : Instr.waitTasks.exec 0 .next left = some (locked, [.loop]) := by
    simp [Instr.exec, left, scheduled, hidle.unlocked, locked]
  have hnone : locked.states 1 = none := by
    simp [locked, left, States.erase]
  have htasks : locked.tasks = [⟨1, 0, 0, false, 0⟩] := by
    change [(⟨s.nextId, 0, 0, false, 0⟩ : TimerTask)] = _
    rw [hwrapped]
  have hrunning : locked.schedulerState = .running := hidle.running
  have hloop : Instr.loop.exec 0 .next locked = some (locked, [.popCancelled]) := by
    simp [Instr.exec, Instr.execLoop, hrunning, htasks, Shared.interrupted, hnone]
  have hpop : Instr.popCancelled.exec 0 .next locked = some (locked, [.loop]) := by
    have hkept : dropCancelled locked.tasks locked.states = (locked.tasks, locked.states) := by
      rw [htasks, dropCancelled, if_neg (by simp [hnone])]
    simp only [Instr.exec, hkept]
  let pool : List Instr := [.dropCompletion 0, .poolWorker]
  have hpass : machine.Trace (threeAt locked [.loop] pool [.user]) [(0, .loop), (0, .popCancelled)]
      (threeAt locked [.loop] pool [.user]) := by
    exact .step (.step .start (workerAt_steps hloop)) (workerAt_steps hpop)
  refine ⟨threeAt locked [.loop] pool [.user], hrun.trans <| (poolAt_step hends).trans <|
    (poolAt_step hleave).trans (workerAt_step hwake), rfl, by rw [threeAt, htasks]; rfl, fun n => ?_⟩
  induction n with
  | zero => exact ⟨[], .start, fun _ hmem => absurd hmem List.not_mem_nil, rfl⟩
  | succ n ih =>
    obtain ⟨steps, htrace, hpasses, hcount⟩ := ih
    refine ⟨steps ++ [(0, .loop), (0, .popCancelled)], htrace.trans hpass, fun pass hmem => ?_, ?_⟩
    · obtain hmem | hmem := List.mem_append.mp hmem
      · exact hpasses pass hmem
      · rw [List.mem_cons, List.mem_singleton] at hmem
        obtain rfl | rfl := hmem
        · exact fun _ => .inl rfl
        · exact fun _ => .inr rfl
    · rw [List.count_append, hcount]
      rfl

end UnixNotes.Timer
