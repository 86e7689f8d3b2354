import Mathlib.Data.Finset.Card
import UnixNotes.Reactor.TimerCancel
import UnixNotes.Timer.Records

namespace UnixNotes.Reactor.MarshalledTimers

open Library Timer Relation

def Functor.once : Functor → Option TimerId
  | .firing task => if task.repeated then none else some task.id
  | .other => none

namespace Instr

def inserts (id : TimerId) : Instr → Bool
  | .insertId id' | .timers (.returned (.scheduled id')) => id' = id
  | _ => false

/-- The instruction brings the firing of a one-shot timer to its end. -/
def brings (id : TimerId) : Instr → Bool
  | .loadAlive task => (Functor.firing task).once = some id
  | .queue functor | .running functor | .completed functor => functor.once = some id
  | .functors fs => fs.any (·.once = some id)
  | _ => false

def leaving (id : TimerId) : Instr → Bool
  | .timers (.runCallback w) | .timers (.leave w) => (Functor.firing w.task).once = some id
  | _ => false

/-- The timer that ends in the step, if it is held by nobody else. -/
def drops : Instr → Option TimerId
  | .timers (.call (.cancel id) _) => some id
  | .timers (.rejected task _) => some task.id
  | .completed functor => functor.once
  | _ => none

def stops : Instr → Bool
  | .timers i => i.stops
  | .ask operation => (Timer.Instr.call operation false).stops
  | _ => false

def hands : Instr → Bool
  | .loadAlive _ | .queue (.firing _) | .running (.firing _) | .completed (.firing _) => true
  | .functors fs => fs.any (·.timer.isSome)
  | _ => false

end Instr

/-- The id is in `timerIds`, or about to be inserted. -/
def Held (c : Config) (id : TimerId) : Prop :=
  id ∈ c.shared.timerIds ∨ ∃ t i, c.Active t i ∧ i.inserts id = true

instance (c : Config) (id : TimerId) : Decidable (Held c id) :=
  inferInstanceAs (Decidable (_ ∨ _))

def Coming (c : Config) (id : TimerId) : Prop :=
  (∃ functor ∈ c.shared.pendingFunctors, functor.once = some id) ∨
    ∃ t i, c.Active t i ∧ i.brings id = true

/-- A timer gets an id that nobody has anything of any more, and when a timer is cancelled in the
scheduler, or its submission fails, or the callback of a one-shot timer returns, its id is neither in
`timerIds` nor about to be inserted. -/
abbrev Forgets (c : Config) (t : Nat) (i : Instr) : Prop :=
  (∀ j ∈ i.toTimers, UnusedId (toTimers c) t j) ∧ ∀ id ∈ i.drops, ¬Held c id

instance (c : Config) (t : Nat) (i : Instr) : Decidable (Forgets c t i) :=
  have := Option.decidableForallMem (p := fun id => ¬Held c id) i.drops
  instDecidableAnd

structure Tracking (c : Config) : Prop where
  grounded : ∀ t, Grounded (c.stack t)
  carrying : Carrying (toTimers c)
  working : ∀ t i, c.Active t i → i.stops = false
  recorded : ∀ id, c.shared.timers.states id ≠ none → c.shared.timers.schedulerState = .running
  alive : c.shared.timerAlive = true
  held : ∀ id, Held c id → c.shared.timers.Live id ∨ Coming c id
  left : ∀ t i id, c.Active t i → i.leaving id = true → Coming c id ∨ ¬Held c id

section Step

variable {c c' : Config} {t : Nat} {i : Instr} {rest pushed : List Instr} {s : Shared} {id : TimerId}

theorem issues_of_scheduled {b b' : Timer.Shared} {j : Timer.Instr} {timers : List Timer.Instr}
    (h : Timer.Moves b j b' timers) (hmem : .returned (.scheduled id) ∈ timers) : Issues b j id := by
  cases h with
  | schedule _ _ _ _ running =>
    cases List.mem_singleton.mp hmem
    exact ⟨rfl, running, rfl⟩
  | _ => simp at hmem

theorem inserts_wrap {j : Timer.Instr} {x : Timer.Choice} {b b' : Timer.Shared}
    {timers : List Timer.Instr} (hexec : j.exec t x b = some (b', timers)) :
    ∀ i ∈ Instr.wrap j timers, i.inserts id = true →
      (Instr.timers j).inserts id = true ∨ Issues b j id := by
  intro i hmem hinserts
  obtain ⟨k, hk, rfl⟩ | ⟨id', rfl, rfl⟩ | ⟨w, -, rfl⟩ := mem_wrap hmem
  · cases k with
    | returned reply =>
      cases reply with
      | scheduled id' =>
        obtain rfl : id' = id := of_decide_eq_true hinserts
        exact .inr (issues_of_scheduled (Timer.moves_of_exec (t := t) hexec) hk)
      | _ => cases hinserts
    | _ => cases hinserts
  · exact .inl hinserts
  · cases hinserts

theorem Moves.inserts (h : Moves c.shared i s pushed) :
    ∀ j ∈ pushed, j.inserts id = true →
      i.inserts id = true ∨ ∃ j, i = .timers j ∧ Issues c.shared.timers j id := by
  intro j hmem hinserts
  cases h with
  | timers allowed exec =>
    exact (inserts_wrap exec j hmem hinserts).imp_right fun hissues => ⟨_, rfl, hissues⟩
  | call operation | callOnLoop operation | callInFunctor functor operation =>
    obtain hmem | hmem := List.mem_append.mp hmem
    · obtain rfl | ⟨op, rfl, -⟩ | ⟨id', rfl⟩ | ⟨id', rfl, -⟩ | rfl := eq_of_expand hmem <;>
        cases hinserts
    · cases List.mem_singleton.mp hmem
      cases hinserts
  | start | polled | run | runOther =>
    simp only [List.mem_cons, List.not_mem_nil, or_false] at hmem
    obtain rfl | rfl := hmem <;> cases hinserts
  | ask | loadAlive | doPendingFunctors | functorEnds =>
    cases List.mem_singleton.mp hmem
    cases hinserts
  | _ => cases hmem

theorem held_of_step (hstep : machine.Step c t i c') (hheld : Held c' id) :
    Held c id ∨ ∃ j, i = .timers j ∧ Issues c.shared.timers j id := by
  obtain @⟨rest, x, s, pushed, htop, hexec⟩ := hstep
  have hmoves := moves_of_exec (t := t) hexec
  have htimerIds : id ∈ s.timerIds → Held c id := fun hmem => by
    cases hmoves with
    | insertId id' =>
      obtain rfl | hmem := Finset.mem_insert.mp hmem
      · exact .inr ⟨t, _, Config.active_of_top htop, decide_eq_true rfl⟩
      · exact .inl hmem
    | eraseId => exact .inl (Finset.mem_of_mem_erase hmem)
    | _ => exact .inl hmem
  obtain hmem | ⟨t', j, hactive, hinserts⟩ := hheld
  · exact .inl (htimerIds hmem)
  · obtain ⟨-, hpushed⟩ | hold := Config.active_of_replace htop hactive
    · obtain hinserts | hissues := hmoves.inserts j hpushed hinserts
      · exact .inl (.inr ⟨t, i, Config.active_of_top htop, hinserts⟩)
      · exact .inr hissues
    · exact .inl (.inr ⟨t', j, hold, hinserts⟩)

theorem Coming.of_pushed (htop : c.stack t = i :: rest) {j : Instr} (hmem : j ∈ pushed)
    (hbrings : j.brings id = true) : Coming (c.replace t s (pushed ++ rest)) id :=
  .inr ⟨t, j, Config.active_replace_of_pushed htop s hmem, hbrings⟩

theorem Coming.step (h : Coming c id) (halive : c.shared.timerAlive = true)
    (hstep : machine.Step c t i c') : Coming c' id ∨ i.drops = some id := by
  obtain @⟨rest, x, s, pushed, htop, hexec⟩ := hstep
  have hmoves := moves_of_exec (t := t) hexec
  obtain ⟨functor, hmem, honce⟩ | ⟨t', j, hactive, hbrings⟩ := h
  · refine .inl ?_
    cases hmoves with
    | doPendingFunctors =>
      refine .of_pushed htop (List.mem_singleton_self _) (List.any_eq_true.mpr ⟨functor, hmem, ?_⟩)
      exact decide_eq_true honce
    | queue functor' => exact .inl ⟨functor, List.mem_append_left _ hmem, honce⟩
    | _ => exact .inl ⟨functor, hmem, honce⟩
  · obtain ⟨rfl, rfl⟩ | hold := Config.active_replace htop s pushed hactive
    · cases hmoves with
      | loadAlive => exact .inl (.of_pushed htop (List.mem_singleton_self _) hbrings)
      | loadDead task dead => exact absurd (halive.symm.trans dead) nofun
      | queue functor =>
        exact .inl (.inl ⟨functor, List.mem_append_right _ (List.mem_singleton_self _),
          of_decide_eq_true hbrings⟩)
      | run task fs | runOther fs =>
        simp only [Instr.brings, List.any_cons, Bool.or_eq_true] at hbrings
        obtain hfirst | hrest := hbrings
        · exact .inl (.of_pushed htop (List.mem_cons_self ..) hfirst)
        · exact .inl (.of_pushed htop (List.mem_cons_of_mem _ (List.mem_singleton_self _)) hrest)
      | callInFunctor functor operation =>
        exact .inl (.of_pushed htop (List.mem_append_right _ (List.mem_singleton_self _)) hbrings)
      | functorEnds functor => exact .inl (.of_pushed htop (List.mem_singleton_self _) hbrings)
      | completed functor => exact .inr (of_decide_eq_true hbrings)
      | _ => cases hbrings
    · exact .inl (.inr ⟨t', j, hold, hbrings⟩)

theorem wrapper_of_leaving (h : i.leaving id = true) : ∃ w : Wrapper,
    (Functor.firing w.task).once = some id ∧ (i = .timers (.runCallback w) ∨ i = .timers (.leave w)) := by
  cases i with
  | timers j =>
    cases j with
    | runCallback w => exact ⟨w, of_decide_eq_true h, .inl rfl⟩
    | leave w => exact ⟨w, of_decide_eq_true h, .inr rfl⟩
    | _ => cases h
  | _ => cases h

theorem leaving_wrap {j : Timer.Instr} {x : Timer.Choice} {b b' : Timer.Shared}
    {timers : List Timer.Instr} (hallowed : Instr.allows j x = true)
    (hexec : j.exec t x b = some (b', timers)) :
    ∀ i ∈ Instr.wrap j timers, i.leaving id = true →
      (Instr.timers j).leaving id = true ∨ ∃ k ∈ Instr.wrap j timers, k.brings id = true := by
  intro i hmem hleaving
  obtain ⟨w, honce, hi⟩ := wrapper_of_leaving hleaving
  have hmoves := Timer.moves_of_exec (t := t) hexec
  cases hmoves with
  | callbackStarts =>
    obtain rfl | hmem := List.mem_cons.mp hmem
    · cases hleaving
    · cases List.mem_singleton.mp hmem
      exact .inr ⟨_, List.mem_cons_self .., hleaving⟩
  | callbackEnds w =>
    cases List.mem_singleton.mp hmem
    exact .inl hleaving
  | nested w op => cases x <;> cases hallowed <;> cases hexec
  | returned reply => cases reply <;> obtain rfl | rfl := hi <;> simp [Instr.wrap] at hmem
  | _ => obtain rfl | rfl := hi <;> simp [Instr.wrap] at hmem

theorem Moves.leaving (h : Moves c.shared i s pushed) :
    ∀ j ∈ pushed, j.leaving id = true →
      i.leaving id = true ∨ ∃ k ∈ pushed, k.brings id = true := by
  intro j hmem hleaving
  obtain ⟨w, honce, hj⟩ := wrapper_of_leaving hleaving
  cases h with
  | timers allowed exec => exact leaving_wrap allowed exec j hmem hleaving
  | call operation | callOnLoop operation | callInFunctor functor operation =>
    obtain hmem | hmem := List.mem_append.mp hmem
    · obtain rfl | ⟨op, rfl, -⟩ | ⟨id', rfl⟩ | ⟨id', rfl, -⟩ | rfl := eq_of_expand hmem <;>
        cases hleaving
    · cases List.mem_singleton.mp hmem
      cases hleaving
  | _ => obtain rfl | rfl := hj <;> simp at hmem

theorem live_of_issues (h : Carrying (toTimers c)) {j : Timer.Instr} {b' : Timer.Config}
    (hunused : UnusedId (toTimers c) t j) (hissues : Issues c.shared.timers j id)
    (hstep : Timer.machine.Step (toTimers c) t j b') : b'.shared.Live id := by
  obtain rfl := hissues.2.2
  have hrecord : (life (toTimers c) c.shared.timers.nextId).record = none := by
    obtain hissued | hunused := hunused hissues
    · exact congrArg Life.record (h.numbered.blank hissued)
    · exact hunused.1
  have hlife := congrArg Life.record (life_issue hstep hissues)
  rw [Life.schedule, hrecord] at hlife
  exact ⟨.pending, hlife, by rintro ⟨⟩⟩

theorem running_of_leaving (h : i.leaving id = true) :
    ∃ k ∈ i.toTimers, 0 < k.running id := by
  obtain ⟨w, honce, hi⟩ := wrapper_of_leaving h
  have hid : w.task.id = id := by
    rw [Functor.once] at honce
    split at honce
    · cases honce
    · exact Option.some.inj honce
  obtain rfl | rfl := hi <;>
    exact ⟨_, List.mem_singleton_self _, by simp [Timer.Instr.running, hid]⟩

theorem not_issues_of_leaving (h : Carrying (toTimers c)) {j : Timer.Instr}
    (hunused : UnusedId (toTimers c) t j) {t' : Nat} {i' : Instr} (hactive : c.Active t' i')
    (hleaving : i'.leaving id = true) : ¬Issues c.shared.timers j id := by
  intro hissues
  obtain rfl := hissues.2.2
  have hrunning : (life (toTimers c) c.shared.timers.nextId).running = 0 := by
    obtain hissued | hunused := hunused hissues
    · exact congrArg Life.running (h.numbered.blank hissued)
    · exact hunused.2.2.2
  obtain ⟨k, hk, hpos⟩ := running_of_leaving hleaving
  have hle := Config.le_total (w := Timer.Instr.running c.shared.timers.nextId)
    (Config.active_project Shared.timers hactive hk)
  exact absurd (Nat.lt_of_lt_of_le hpos hle) (hrunning ▸ Nat.lt_irrefl 0)

theorem Moves.stops (h : Moves c.shared i s pushed) (hi : i.stops = false) :
    ∀ j ∈ pushed, j.stops = false := by
  intro j hmem
  cases h with
  | @timers t' k x timers pushed allowed exec =>
    obtain ⟨k', hk, rfl⟩ | ⟨id', -, rfl⟩ | ⟨w, -, rfl⟩ := mem_wrap hmem
    · refine stops_of_moves (Timer.moves_of_exec (t := t') exec) hi ?_ (fun w heq => ?_) k' hk
      · rintro rfl
        cases allowed
      · subst heq
        cases x <;> cases exec <;> first | rfl | cases allowed
    · rfl
    · rfl
  | ask op =>
    cases List.mem_singleton.mp hmem
    exact hi
  | call operation | callOnLoop operation | callInFunctor functor operation =>
    obtain hmem | hmem := List.mem_append.mp hmem
    · obtain rfl | ⟨op, rfl, hrequest, hwait, hstop⟩ | ⟨id', rfl⟩ | ⟨id', rfl, -⟩ | rfl :=
        eq_of_expand hmem
      · rfl
      · cases op <;> first | rfl | contradiction
      · rfl
      · rfl
      · rfl
    · cases List.mem_singleton.mp hmem
      rfl
  | start | polled | run | runOther =>
    simp only [List.mem_cons, List.not_mem_nil, or_false] at hmem
    obtain rfl | rfl := hmem <;> rfl
  | loadAlive | doPendingFunctors | functorEnds =>
    cases List.mem_singleton.mp hmem
    rfl
  | _ => cases hmem

theorem drops_or_leaving {j : Timer.Instr} (hends : j.ends id = true) :
    (Instr.timers j).drops = some id ∨ (Instr.timers j).leaving id = true := by
  cases j with
  | call op inside =>
    cases op with
    | cancel id' => exact .inl (congrArg some (of_decide_eq_true hends))
    | _ => cases hends
  | rejected task completion => exact .inl (congrArg some (of_decide_eq_true hends))
  | leave w =>
    refine .inr (decide_eq_true ?_)
    simp only [Timer.Instr.ends, Bool.and_eq_true, decide_eq_true_iff, Bool.not_eq_true'] at hends
    rw [Functor.once, hends.2, hends.1]
    rfl
  | _ => cases hends

theorem Moves.live (h : Moves c.shared i s pushed) (hlive : c.shared.timers.Live id)
    (hrunning : c.shared.timers.schedulerState = .running) (hstops : i.stops = false)
    (hbegun : ∀ w, i = .timers (.leave w) → ∀ state, c.shared.timers.states w.task.id = some state →
      state = .executing ∨ state = .cancelled) :
    s.timers.Live id ∨ i.drops = some id ∨ i.leaving id = true := by
  cases h with
  | @timers t' j x timers pushed allowed exec =>
    cases hends : j.ends id with
    | false =>
      exact .inl (live_step exec hlive hrunning hstops hends fun w heq => hbegun w (heq ▸ rfl))
    | true => exact .inr (drops_or_leaving hends)
  | _ => exact .inl hlive

theorem Moves.running (h : Moves c.shared i s pushed)
    (hrunning : c.shared.timers.schedulerState = .running) (hstops : i.stops = false) :
    s.timers.schedulerState = .running := by
  cases h with
  | timers allowed exec => exact running_step exec hrunning hstops
  | _ => exact hrunning

end Step

namespace Tracking

variable {c c' : Config} {t : Nat} {i : Instr} {rest pushed : List Instr} {s : Shared} {id : TimerId}

theorem init (poolThreads threads : Nat) : Tracking (init poolThreads threads) where
  grounded t := by
    refine init_induction poolThreads threads t trivial ?_ ?_ ?_ ?_ <;> exact ⟨nofun, trivial⟩
  carrying := toTimers_init poolThreads threads ▸ .init poolThreads (threads + 1)
  working t i hactive := by
    obtain rfl | rfl | rfl | rfl := eq_of_init hactive <;> rfl
  recorded id hsome := absurd rfl hsome
  alive := rfl
  held id hheld := by
    obtain hmem | ⟨t, i, hactive, hinserts⟩ := hheld
    · cases hmem
    · obtain rfl | rfl | rfl | rfl := eq_of_init hactive <;> cases hinserts
  left t i id hactive hleaving := by
    obtain rfl | rfl | rfl | rfl := eq_of_init hactive <;> cases hleaving

theorem carrying_step (h : Tracking c) (hok : Forgets c t i) (hstep : machine.Step c t i c') :
    Carrying (toTimers c') := by
  obtain ⟨j, hj, hbase⟩ | heq := step_toTimers (h.grounded t) hstep
  · refine h.carrying.step (fun hissues => ?_) hbase
    obtain hj | rfl := hj
    · exact hok.1 j (by rw [hj]; exact List.mem_singleton_self j) hissues
    · cases hissues.1
  · rw [heq]
    exact h.carrying

theorem working_step (h : Tracking c) (hstep : machine.Step c t i c') :
    ∀ t' j, c'.Active t' j → j.stops = false := by
  obtain @⟨rest, x, s, pushed, htop, hexec⟩ := hstep
  intro t' j hactive
  obtain ⟨-, hmem⟩ | hold := Config.active_of_replace htop hactive
  · exact (moves_of_exec (t := t) hexec).stops (h.working t i (Config.active_of_top htop)) j hmem
  · exact h.working t' j hold

theorem recorded_step (h : Tracking c) (hstep : machine.Step c t i c')
    (hsome : c'.shared.timers.states id ≠ none) :
    c'.shared.timers.schedulerState = .running := by
  have hrunning : c.shared.timers.schedulerState = .running := by
    by_cases hnone : c.shared.timers.states id = none
    · obtain ⟨j, -, hbase⟩ | heq := step_toTimers (h.grounded t) hstep
      · by_cases hissues : Issues c.shared.timers j id
        · exact hissues.2.1
        · have hpath := life_step h.carrying.inFlight hbase hissues
          exact absurd (Life.gone_of_path hpath hnone) hsome
      · have hshared : c'.shared.timers = c.shared.timers := congrArg Library.Config.shared heq
        exact absurd (hshared ▸ hnone) hsome
    · exact h.recorded id hnone
  obtain @⟨rest, x, s, pushed, htop, hexec⟩ := hstep
  exact (moves_of_exec (t := t) hexec).running hrunning (h.working t i (Config.active_of_top htop))

theorem begun (h : Tracking c) {w : Wrapper} (hactive : c.Active t (.timers (.leave w)))
    {state : TimerState} (hstate : c.shared.timers.states w.task.id = some state) :
    state = .executing ∨ state = .cancelled := by
  refine (h.carrying.carried w.task.id).begun ?_ hstate
  have hle := Config.le_total (w := Timer.Instr.running w.task.id)
    (Config.active_project Shared.timers (f := Instr.toTimers) hactive (List.mem_singleton_self _))
  exact Nat.lt_of_lt_of_le (by simp [Timer.Instr.running]) hle

theorem live_step (h : Tracking c) (hstep : machine.Step c t i c')
    (hlive : c.shared.timers.Live id) :
    c'.shared.timers.Live id ∨ i.drops = some id ∨ i.leaving id = true := by
  have hrunning : c.shared.timers.schedulerState = .running := by
    obtain ⟨state, hstate, -⟩ := hlive
    exact h.recorded id (by rw [hstate]; nofun)
  obtain @⟨rest, x, s, pushed, htop, hexec⟩ := hstep
  have hactive := Config.active_of_top htop
  refine (moves_of_exec (t := t) hexec).live hlive hrunning (h.working t i hactive) ?_
  rintro w rfl state hstate
  exact h.begun hactive hstate

theorem alive_step (h : Tracking c) (hstep : machine.Step c t i c') :
    c'.shared.timerAlive = true := by
  obtain @⟨rest, x, s, pushed, htop, hexec⟩ := hstep
  cases moves_of_exec (t := t) hexec <;> exact h.alive

theorem not_issues (h : Tracking c) (hok : Forgets c t i) {t' : Nat} {i' : Instr}
    (hactive : c.Active t' i') (hleaving : i'.leaving id = true) :
    ¬∃ j, i = .timers j ∧ Issues c.shared.timers j id := by
  rintro ⟨j, rfl, hissues⟩
  exact not_issues_of_leaving h.carrying (hok.1 j (List.mem_singleton_self j)) hactive hleaving hissues

theorem left_keep (h : Tracking c) (hok : Forgets c t i) (hstep : machine.Step c t i c') {t' : Nat}
    {i' : Instr} (hactive : c.Active t' i') (hleaving : i'.leaving id = true) :
    Coming c' id ∨ ¬Held c' id := by
  have hheld : ¬Held c id → ¬Held c' id := fun hheld hheld' =>
    (held_of_step hstep hheld').elim hheld (h.not_issues hok hactive hleaving)
  obtain hcoming | hnot := h.left t' i' id hactive hleaving
  · exact (hcoming.step h.alive hstep).imp_right fun hdrops => hheld (hok.2 id hdrops)
  · exact .inr (hheld hnot)

theorem left_step (h : Tracking c) (hok : Forgets c t i) (hstep : machine.Step c t i c') :
    ∀ t' i' id, c'.Active t' i' → i'.leaving id = true → Coming c' id ∨ ¬Held c' id := by
  intro t' i' id hactive hleaving
  have hkeep : ∀ t' i', c.Active t' i' → i'.leaving id = true → Coming c' id ∨ ¬Held c' id :=
    fun _ _ => h.left_keep hok hstep
  obtain @⟨rest, x, s, pushed, htop, hexec⟩ := hstep
  obtain ⟨-, hmem⟩ | hold := Config.active_of_replace htop hactive
  · obtain hi | ⟨k, hk, hbrings⟩ := (moves_of_exec (t := t) hexec).leaving i' hmem hleaving
    · exact hkeep t i (Config.active_of_top htop) hi
    · exact .inl (.of_pushed htop hk hbrings)
  · exact hkeep t' i' hold hleaving

theorem held_step (h : Tracking c) (hok : Forgets c t i) (hstep : machine.Step c t i c')
    (hheld : Held c' id) : c'.shared.timers.Live id ∨ Coming c' id := by
  obtain hold | ⟨j, rfl, hissues⟩ := held_of_step hstep hheld
  · have hdrops : i.drops ≠ some id := fun hdrops => hok.2 id hdrops hold
    have hcoming : Coming c id → Coming c' id := fun hcoming =>
      (hcoming.step h.alive hstep).resolve_right hdrops
    obtain hlive | hfiring := h.held id hold
    · obtain hlive' | hdrops' | hleaving := h.live_step hstep hlive
      · exact .inl hlive'
      · exact absurd hdrops' hdrops
      · obtain @⟨rest, x, s, pushed, htop, hexec⟩ := hstep
        have hleft := h.left t i id (Config.active_of_top htop) hleaving
        exact .inr (hcoming (hleft.resolve_right (not_not_intro hold)))
    · exact .inr (hcoming hfiring)
  · have hunused := hok.1 j (List.mem_singleton_self j)
    exact .inl (live_of_issues h.carrying hunused hissues (step_of_timers hstep))

theorem step (h : Tracking c) (hok : Forgets c t i) (hstep : machine.Step c t i c') :
    Tracking c' where
  grounded := grounded_step h.grounded hstep
  carrying := h.carrying_step hok hstep
  working := h.working_step hstep
  recorded _ := h.recorded_step hstep
  alive := h.alive_step hstep
  held _ := h.held_step hok hstep
  left := h.left_step hok hstep

end Tracking

/-- The timer has a record and is not cancelled, or a firing of it is queued. -/
def CanFire (c : Config) (id : TimerId) : Prop :=
  c.shared.timers.Live id ∨ ∃ functor ∈ c.shared.pendingFunctors, functor.timer = some id

theorem timer_of_once {functor : Functor} {id : TimerId} (h : functor.once = some id) :
    functor.timer = some id := by
  cases functor with
  | firing task =>
    rw [Functor.once] at h
    split at h
    · cases h
    · exact h
  | other => cases h

theorem hands_of_brings {i : Instr} {id : TimerId} (h : i.brings id = true) : i.hands = true := by
  cases i with
  | loadAlive => rfl
  | queue functor | running functor | completed functor =>
    cases functor with
    | firing => rfl
    | other => cases h
  | functors fs =>
    obtain ⟨functor, hmem, honce⟩ := List.any_eq_true.mp h
    refine List.any_eq_true.mpr ⟨functor, hmem, ?_⟩
    rw [timer_of_once (of_decide_eq_true honce)]
    rfl
  | _ => cases h

/-- When no firing is being handed over or run, every id of `timerIds` is that of a timer that can
still fire, and there are no more of them than such timers. -/
theorem tracked_can_fire {poolThreads threads : Nat} {c : Config}
    (hrun : machine.Run Forgets (init poolThreads threads) c)
    (hquiet : c.All fun i => i.hands = false) :
    (∀ id ∈ c.shared.timerIds, CanFire c id) ∧
      ∀ outstanding : Finset TimerId, (∀ id, CanFire c id → id ∈ outstanding) →
        c.shared.timerIds.card ≤ outstanding.card := by
  have h : Tracking c :=
    hrun.invariant (.init poolThreads threads) fun hc hok hstep => hc.step hok hstep
  have hfire : ∀ id ∈ c.shared.timerIds, CanFire c id := fun id hid => by
    obtain hlive | ⟨functor, hmem, honce⟩ | ⟨t, i, hactive, hbrings⟩ := h.held id (.inl hid)
    · exact .inl hlive
    · exact .inr ⟨functor, hmem, timer_of_once honce⟩
    · exact absurd ((hquiet.of_active hactive).symm.trans (hands_of_brings hbrings)) nofun
  exact ⟨hfire, fun outstanding hall => Finset.card_le_card fun id hid => hall id (hfire id hid)⟩

def cancelledInside : List (Nat × Choice) :=
  [(2, .next), (2, .next), (2, .next), (2, .call (.cancel 1)), (2, .next), (2, .next),
    (2, .timers .next), (2, .timers .next), (2, .next), (2, .next), (2, .next), (2, .next)]

def secondTimer : List (Nat × Choice) :=
  [(2, .call (.runEvery 5)), (2, .next), (2, .next), (2, .timers (.clock 7)), (2, .timers .next),
    (2, .timers .next), (2, .next)]

theorem tracked_can_fire_second :
    (machine.follow (init 1 0)
        (firingQueued (.runAfter 5) ++ cancelledInside ++ secondTimer)).shared.timerIds = {2} ∧
      CanFire (machine.follow (init 1 0)
        (firingQueued (.runAfter 5) ++ cancelledInside ++ secondTimer)) 2 := by
  have htimerIds : (machine.follow (init 1 0)
      (firingQueued (.runAfter 5) ++ cancelledInside ++ secondTimer)).shared.timerIds = {2} := by
    decide
  refine ⟨htimerIds, (tracked_can_fire (Machine.run_follow (by decide))
    (by decide)).1 2 ?_⟩
  rw [htimerIds]
  decide

/-- The id of a one-shot timer stays, whatever becomes of its firing. -/
theorem id_stays_after_firing : ∃ c id, machine.Reaches (init 1 0) c ∧
    c.threads = [[.timers .waitTasks], [.timers .poolWorker], [.poll]] ∧ id ∈ c.shared.timerIds ∧
      c.shared.timers.states id = none ∧ c.shared.pendingFunctors = [] := by
  refine ⟨machine.follow (init 1 0) (firingQueued (.runAfter 5) ++ functorsRun ++
    [(0, .timers .next), (0, .timers .next), (0, .timers .next)]), 1, Machine.reaches_follow _,
    ?_, ?_, ?_, ?_⟩ <;> decide

end UnixNotes.Reactor.MarshalledTimers
