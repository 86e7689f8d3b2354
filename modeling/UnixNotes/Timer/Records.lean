import UnixNotes.Timer.Carriers

namespace UnixNotes.Timer

open Library Relation

/-- The timer has a record, and has not been cancelled. -/
def Shared.Live (s : Shared) (id : TimerId) : Prop :=
  ∃ state, s.states id = some state ∧ state ≠ .cancelled

namespace Instr

def ends (id : TimerId) : Instr → Bool
  | .call (.cancel id') _ => id' = id
  | .rejected task _ => task.id = id
  | .leave w => w.task.id = id && !w.task.repeated
  | _ => false

def stops : Instr → Bool
  | .call .requestStop _ | .call .wait _ | .call .stop _ => true
  | .requestStop _ | .joinWorker .. | .awaitFinished _ => true
  | _ => false

end Instr

theorem live_dropCancelled {states : States} {id : TimerId} {state : TimerState}
    (hstate : states id = some state) (hlive : state ≠ .cancelled) (tasks : List TimerTask) :
    (dropCancelled tasks states).2 id = some state := by
  induction tasks generalizing states with
  | nil => exact hstate
  | cons top tasks ih =>
    rw [dropCancelled]
    split
    · rename_i hcancelled
      have hne : id ≠ top.id := by
        rintro rfl
        exact hlive (Option.some.inj (hstate.symm.trans hcancelled))
      exact ih ((Function.update_of_ne hne ..).trans hstate)
    · exact hstate

theorem live_collect {states : States} {id : TimerId} {state : TimerState}
    (hstate : states id = some state) (hlive : state ≠ .cancelled) (now : Int)
    (tasks : List TimerTask) :
    ∃ state', (collect now tasks states).2.2 id = some state' ∧ state' ≠ .cancelled := by
  induction tasks generalizing states state with
  | nil => exact ⟨state, hstate, hlive⟩
  | cons top tasks ih =>
    rw [collect]
    split
    · split
      · by_cases hid : id = top.id
        · have hsubmitted : states.set top.id .submitted id = some .submitted :=
            hid ▸ Function.update_self ..
          exact ih hsubmitted (by rintro ⟨⟩)
        · exact ih ((Function.update_of_ne hid ..).trans hstate) hlive
      · rename_i hcancelled
        have hne : id ≠ top.id := by
          rintro rfl
          exact hlive (Option.some.inj (hstate.symm.trans hcancelled))
        exact ih ((Function.update_of_ne hne ..).trans hstate) hlive
      · exact ih hstate hlive
    · exact ⟨state, hstate, hlive⟩

section Step

variable {t : Nat} {i : Instr} {x : Choice} {s s' : Shared} {pushed : List Instr} {id : TimerId}

theorem Shared.Live.set (h : s.Live id) (id' : TimerId) {state : TimerState}
    (hlive : state ≠ .cancelled) :
    ∃ state', s.states.set id' state id = some state' ∧ state' ≠ .cancelled := by
  by_cases hid : id = id'
  · exact ⟨state, hid ▸ Function.update_self .., hlive⟩
  · rw [States.set, Function.update_of_ne hid]
    exact h

theorem Shared.Live.set_of_ne (h : s.Live id) {id' : TimerId} (hid : id ≠ id') (state : TimerState) :
    ∃ state', s.states.set id' state id = some state' ∧ state' ≠ .cancelled := by
  rw [States.set, Function.update_of_ne hid]
  exact h

theorem Shared.Live.erase (h : s.Live id) {id' : TimerId} (hid : id ≠ id') :
    ∃ state', s.states.erase id' id = some state' ∧ state' ≠ .cancelled := by
  rw [States.erase, Function.update_of_ne hid]
  exact h

theorem Shared.Live.ne_of_cancelled (h : s.Live id) {id' : TimerId}
    (hcancelled : s.states id' = some .cancelled) : id ≠ id' := by
  rintro rfl
  obtain ⟨state, hstate, hlive⟩ := h
  exact hlive (Option.some.inj (hstate.symm.trans hcancelled))

theorem live_batch {task : TimerTask} {rest : List TimerTask}
    (hexec : (Instr.batch (task :: rest)).exec t x s = some (s', pushed)) (hlive : s.Live id)
    (hrunning : s.schedulerState = .running) : s'.Live id := by
  cases x with
  | next =>
    obtain ⟨-, heq⟩ := Option.ite_none_left_eq_some.mp hexec
    have hbatch := Option.some.inj heq
    rw [Instr.execBatch] at hbatch
    split at hbatch
    · cases hbatch
      exact hlive
    · rename_i state hstate
      split at hbatch
      · rename_i hends
        cases hbatch
        have hcancelled : state = .cancelled := by simpa [hrunning] using hends
        exact hlive.erase (hlive.ne_of_cancelled (hcancelled ▸ hstate))
      · split at hbatch <;> cases hbatch <;> exact hlive
  | _ => cases hexec

theorem live_leave {w : Wrapper} (hexec : (Instr.leave w).exec t x s = some (s', pushed))
    (hlive : s.Live id) (hrunning : s.schedulerState = .running)
    (hends : (Instr.leave w).ends id = false)
    (hbegun : ∀ state, s.states w.task.id = some state → state = .executing ∨ state = .cancelled) :
    s'.Live id := by
  cases x with
  | clock now =>
    obtain ⟨-, heq⟩ := Option.ite_none_left_eq_some.mp hexec
    have hleave := Option.some.inj heq
    rw [Instr.execLeave] at hleave
    split at hleave
    · cases hleave
      exact hlive
    · split at hleave
      · cases hleave
        exact hlive.set _ (by rintro ⟨⟩)
      · rename_i hagain
        cases hleave
        have hone : w.task.repeated = false := by simpa [hrunning] using hagain
        refine hlive.erase ?_
        rintro rfl
        simp [Instr.ends, hone] at hends
    · rename_i state hexecuting hstate
      cases hleave
      have hcancelled := (hbegun state hstate).resolve_left hexecuting
      exact hlive.erase (hlive.ne_of_cancelled (hcancelled ▸ hstate))
  | _ => cases hexec

theorem live_schedule (hlive : s.Live id) (id' : TimerId) :
    ∃ state, s.states.emplace id' .pending id = some state ∧ state ≠ .cancelled := by
  rw [States.emplace]
  split
  · exact hlive
  · exact hlive.set _ (by rintro ⟨⟩)

theorem live_step (hexec : i.exec t x s = some (s', pushed)) (hlive : s.Live id)
    (hrunning : s.schedulerState = .running) (hstops : i.stops = false)
    (hends : i.ends id = false)
    (hbegun : ∀ w, i = .leave w → ∀ state, s.states w.task.id = some state →
      state = .executing ∨ state = .cancelled) : s'.Live id := by
  cases moves_of_exec (t := t) hexec with
  | cancel =>
    refine hlive.set_of_ne ?_ _
    rintro rfl
    simp [Instr.ends] at hends
  | schedule => exact live_schedule hlive _
  | requestStop | beginStop | finished => cases hstops
  | collect id' expiration now =>
    obtain ⟨state, hstate, hne⟩ := hlive
    exact live_collect hstate hne now s.tasks
  | popCancelled =>
    obtain ⟨state, hstate, hne⟩ := hlive
    exact ⟨state, live_dropCancelled hstate hne s.tasks, hne⟩
  | discard task rest => exact live_batch hexec hlive hrunning
  | eraseRejected task completion =>
    refine hlive.erase ?_
    rintro rfl
    simp [Instr.ends] at hends
  | enterCancelled cancelled => exact hlive.erase (hlive.ne_of_cancelled cancelled)
  | enter => exact hlive.set _ nofun
  | again | leave => exact live_leave hexec hlive hrunning hends (hbegun _ rfl)
  | _ => exact hlive

theorem running_step (hexec : i.exec t x s = some (s', pushed))
    (hrunning : s.schedulerState = .running) (hstops : i.stops = false) :
    s'.schedulerState = .running := by
  cases moves_of_exec (t := t) hexec with
  | started => rfl
  | requestStop | beginStop | finished => cases hstops
  | _ => exact hrunning

theorem stops_of_moves (hmoves : Moves s i s' pushed) (hstops : i.stops = false)
    (huser : i ≠ .user) (hcallback : ∀ w, i = .runCallback w → pushed = [.leave w]) :
    ∀ j ∈ pushed, j.stops = false := by
  cases hmoves with
  | call => exact absurd rfl huser
  | nested w op =>
    rw [hcallback w rfl]
    simp [Instr.stops]
  | askRequestStop | askWait | askStop | requestStop | beginStop | joinInside | join | finished =>
    cases hstops
  | _ => simp [Instr.stops]

theorem Life.gone_of_path {l l' : Life} (h : ReflTransGen Life.Moves l l')
    (hgone : l.record = none) : l'.record = none := by
  induction h with
  | refl => exact hgone
  | tail _ hmoves ih =>
    cases hmoves with
    | cancel | requestStop | expire | popCancelled | enter | again => cases ih
    | pop | skip => exact ih
    | clear | discard | leave => rfl

theorem Life.Carried.begun {l : Life} (h : l.Carried) (hrunning : 0 < l.running)
    {state : TimerState} (hrecord : l.record = some state) :
    state = .executing ∨ state = .cancelled := by
  obtain ⟨record, heap, waiting, running, starts, cancels⟩ := l
  subst hrecord
  cases state with
  | pending => exact absurd h.2.2 (Nat.ne_of_gt hrunning)
  | submitted => exact absurd h.2.2 (Nat.ne_of_gt hrunning)
  | executing => exact .inl rfl
  | cancelled => exact .inr rfl

end Step

end UnixNotes.Timer
