import UnixNotes.Reactor.MarshalledTimers

namespace UnixNotes.Reactor.MarshalledTimers

open Library Timer Relation

namespace Instr

def asks : Instr → Bool
  | .ensureStarted | .ask _ | .doPendingFunctors | .functors _ | .running _ => true
  | _ => false

end Instr

def Grounded : List Instr → Prop
  | [] => True
  | i :: rest => (i.asks = true → (rest.flatMap Instr.toTimers).head? = some .user) ∧ Grounded rest

theorem grounded_append {pushed rest : List Instr} (h : Grounded rest)
    (hpushed : ∀ i ∈ pushed, i.asks = false) : Grounded (pushed ++ rest) := by
  induction pushed with
  | nil => exact h
  | cons i pushed ih =>
    rw [List.forall_mem_cons] at hpushed
    refine ⟨fun hasks => ?_, ih hpushed.2⟩
    rw [hpushed.1] at hasks
    cases hasks

theorem grounded_expand (logged : TimerId → Bool) (operation : Operation) {stack : List Instr}
    (h : Grounded stack) (huser : (stack.flatMap Instr.toTimers).head? = some .user) :
    Grounded (Instr.expand logged operation ++ stack) := by
  cases operation with
  | runAfter | runEvery => exact ⟨fun _ => huser, fun _ => huser, h⟩
  | cancel id =>
    cases hlogged : logged id with
    | true =>
      rw [Instr.expand, hlogged]
      exact ⟨nofun, fun _ => huser, nofun, h⟩
    | false =>
      rw [Instr.expand, hlogged]
      exact ⟨nofun, fun _ => huser, h⟩
  | queueInLoop => exact ⟨nofun, h⟩

theorem flatMap_expand (logged : TimerId → Bool) (operation : Operation) :
    (Instr.expand logged operation).flatMap Instr.toTimers = [] := by
  cases operation with
  | cancel id => cases hlogged : logged id <;> simp [Instr.expand, hlogged, Instr.toTimers]
  | _ => rfl

theorem eq_of_expand {logged : TimerId → Bool} {operation : Operation} {i : Instr}
    (hmem : i ∈ Instr.expand logged operation) :
    i = .ensureStarted ∨
      (∃ op, i = .ask op ∧ op ≠ .requestStop ∧ op ≠ .wait ∧ op ≠ .stop) ∨
      (∃ id, i = .eraseId id) ∨ (∃ id, i = .cancelReturned id ∧ logged id = true) ∨
      i = .queue .other := by
  cases operation with
  | runAfter | runEvery =>
    obtain rfl | hmem := List.mem_cons.mp hmem
    · exact .inl rfl
    · cases List.mem_singleton.mp hmem
      exact .inr (.inl ⟨_, rfl, nofun, nofun, nofun⟩)
  | cancel id =>
    rw [Instr.expand, List.mem_append] at hmem
    obtain hmem | hmem := hmem
    · obtain rfl | hmem := List.mem_cons.mp hmem
      · exact .inr (.inr (.inl ⟨id, rfl⟩))
      · cases List.mem_singleton.mp hmem
        exact .inr (.inl ⟨_, rfl, nofun, nofun, nofun⟩)
    · obtain ⟨hlogged, hmem⟩ := List.mem_ite_nil_right.mp hmem
      cases List.mem_singleton.mp hmem
      exact .inr (.inr (.inr (.inl ⟨id, rfl, hlogged⟩)))
  | queueInLoop =>
    cases List.mem_singleton.mp hmem
    exact .inr (.inr (.inr (.inr rfl)))

theorem flatMap_timers (pushed : List Timer.Instr) :
    (pushed.map Instr.timers).flatMap Instr.toTimers = pushed := by
  rw [List.flatMap_map]
  exact List.flatMap_singleton' pushed

section Wrap

variable {t : Nat} {i : Timer.Instr} {x : Timer.Choice} {s s' : Timer.Shared}
  {pushed : List Timer.Instr}

theorem flatMap_wrap (h : i.exec t x s = some (s', pushed)) :
    (Instr.wrap i pushed).flatMap Instr.toTimers = pushed := by
  have hmoves := Timer.moves_of_exec (t := t) h
  rw [Instr.wrap.eq_def]
  split
  · cases hmoves
    rfl
  · exact flatMap_timers pushed
  · exact flatMap_timers pushed

theorem mem_wrap {k : Instr} (hmem : k ∈ Instr.wrap i pushed) :
    (∃ j ∈ pushed, k = .timers j) ∨ (∃ id, i = .returned (.scheduled id) ∧ k = .insertId id) ∨
      ∃ w, i = .startCallback w ∧ k = .loadAlive w.task := by
  rw [Instr.wrap.eq_def] at hmem
  split at hmem
  · cases List.mem_singleton.mp hmem
    exact .inr (.inl ⟨_, rfl, rfl⟩)
  · obtain rfl | hmem := List.mem_cons.mp hmem
    · exact .inr (.inr ⟨_, rfl, rfl⟩)
    · obtain ⟨j, hj, rfl⟩ := List.mem_map.mp hmem
      exact .inl ⟨j, hj, rfl⟩
  · obtain ⟨j, hj, rfl⟩ := List.mem_map.mp hmem
    exact .inl ⟨j, hj, rfl⟩

theorem wrap_asks (i : Timer.Instr) (pushed : List Timer.Instr) :
    ∀ j ∈ Instr.wrap i pushed, j.asks = false := by
  intro j hmem
  obtain ⟨k, -, rfl⟩ | ⟨id, -, rfl⟩ | ⟨w, -, rfl⟩ := mem_wrap hmem <;> rfl

end Wrap

section Step

variable {c c' : Config} {t : Nat} {i : Instr} {rest pushed : List Instr} {s : Shared}

theorem Moves.grounded (h : Moves c.shared i s pushed) (hgrounded : Grounded (i :: rest)) :
    Grounded (pushed ++ rest) := by
  obtain ⟨huser, hrest⟩ := hgrounded
  cases h with
  | timers allowed exec => exact grounded_append hrest (wrap_asks _ _)
  | call operation | callOnLoop operation =>
    rw [List.append_assoc]
    exact grounded_expand _ operation ⟨nofun, hrest⟩ rfl
  | callInFunctor functor operation =>
    rw [List.append_assoc]
    exact grounded_expand _ operation ⟨huser, hrest⟩ (huser rfl)
  | polled => exact ⟨fun _ => rfl, nofun, hrest⟩
  | doPendingFunctors => exact ⟨fun _ => huser rfl, hrest⟩
  | run | runOther => exact ⟨fun _ => huser rfl, fun _ => huser rfl, hrest⟩
  | _ => exact grounded_append hrest (by simp [Instr.asks])

theorem grounded_step (h : ∀ t, Grounded (c.stack t)) (hstep : machine.Step c t i c') (t' : Nat) :
    Grounded (c'.stack t') := by
  obtain @⟨rest, x, s, pushed, htop, hexec⟩ := hstep
  by_cases heq : t' = t
  · subst heq
    rw [Config.stack_replace_self htop]
    exact (moves_of_exec (t := t') hexec).grounded (htop ▸ h t')
  · rw [Config.stack_replace_ne _ _ _ heq]
    exact h t'

theorem step_of_timers {j : Timer.Instr} (hstep : machine.Step c t (.timers j) c') :
    Timer.machine.Step (toTimers c) t j (toTimers c') := by
  obtain @⟨rest, x, s, pushed, htop, hexec⟩ := hstep
  have hstack := Config.stack_project_top Shared.timers Instr.toTimers htop
  cases moves_of_exec (t := t) hexec with
  | timers allowed exec =>
    rw [toTimers, toTimers, Config.project_replace_append, flatMap_wrap exec]
    exact .exec hstack exec

theorem step_toTimers (hgrounded : Grounded (c.stack t)) (hstep : machine.Step c t i c') :
    (∃ j, (i.toTimers = [j] ∨ j = .user) ∧ Timer.machine.Step (toTimers c) t j (toTimers c')) ∨
      toTimers c' = toTimers c := by
  have htimers (j : Timer.Instr) (hi : i = .timers j) :
      Timer.machine.Step (toTimers c) t j (toTimers c') := step_of_timers (hi ▸ hstep)
  obtain @⟨rest, x, s, pushed, htop, hexec⟩ := hstep
  have hstack := Config.stack_project_top Shared.timers Instr.toTimers htop
  rw [htop] at hgrounded
  have hhidden (hshared : s.timers = c.shared.timers)
      (hi : pushed.flatMap Instr.toTimers = i.toTimers) :
      toTimers (c.replace t s (pushed ++ rest)) = toTimers c := by
    rw [toTimers, Config.project_replace_append, hi, ← hstack, hshared]
    exact Config.replace_stack _ t
  have hask (op : Timer.Operation) (hshared : s.timers = c.shared.timers)
      (hi : i.toTimers = []) (hasks : i.asks = true)
      (hpushed : pushed.flatMap Instr.toTimers = [.call op false]) :
      Timer.machine.Step (toTimers c) t .user (toTimers (c.replace t s (pushed ++ rest))) := by
    obtain ⟨below, hbelow⟩ := List.head?_eq_some_iff.mp (hgrounded.1 hasks)
    rw [hi, List.nil_append, hbelow] at hstack
    rw [toTimers, toTimers, Config.project_replace_append, hpushed, hbelow, hshared]
    have hexec : Timer.Instr.user.exec t (.call op) c.shared.timers =
        some (c.shared.timers, [.call op false, .user]) := rfl
    have hstep : Timer.machine.Step (c.project Shared.timers Instr.toTimers) t .user
        ((c.project Shared.timers Instr.toTimers).replace t c.shared.timers
          ([Instr.call op false, .user] ++ below)) :=
      .exec (x := Timer.Choice.call op) hstack hexec
    exact hstep
  cases moves_of_exec (t := t) hexec with
  | @timers t' j x timers pushed allowed exec => exact .inl ⟨j, .inl rfl, htimers j rfl⟩
  | ask operation => exact .inl ⟨.user, .inr rfl, hask operation rfl rfl rfl rfl⟩
  | start => exact .inl ⟨.user, .inr rfl, hask .start rfl rfl rfl rfl⟩
  | call operation | callOnLoop operation =>
    exact .inr (hhidden rfl (by rw [List.flatMap_append, flatMap_expand]; rfl))
  | callInFunctor functor operation =>
    exact .inr (hhidden rfl (by rw [List.flatMap_append, flatMap_expand]; rfl))
  | _ => exact .inr (hhidden rfl rfl)

end Step

theorem toTimers_init (poolThreads threads : Nat) :
    toTimers (init poolThreads threads) = Timer.init poolThreads (threads + 1) := by
  rw [toTimers, init, Timer.init, Config.project]
  simp [Instr.toTimers, List.replicate_succ]

theorem init_induction {P : List Instr → Prop} (poolThreads threads t : Nat) (hnil : P [])
    (hworker : P [.timers .worker]) (hpool : P [.timers .poolWorker]) (hpoll : P [.poll])
    (huser : P [.user]) : P ((init poolThreads threads).stack t) := by
  obtain heq | hmem := (init poolThreads threads).stack_eq_nil_or_mem t
  · exact heq ▸ hnil
  · generalize (init poolThreads threads).stack t = stack at hmem
    rw [init, List.mem_cons, List.mem_append, List.mem_cons, List.mem_replicate,
      List.mem_replicate] at hmem
    obtain rfl | ⟨-, rfl⟩ | rfl | ⟨-, rfl⟩ := hmem
    · exact hworker
    · exact hpool
    · exact hpoll
    · exact huser

theorem eq_of_init {poolThreads threads t : Nat} {i : Instr}
    (h : (init poolThreads threads).Active t i) :
    i = .timers .worker ∨ i = .timers .poolWorker ∨ i = .poll ∨ i = .user := by
  revert h
  refine init_induction (P := fun stack => i ∈ stack → _) poolThreads threads t ?_ ?_ ?_ ?_ ?_ <;>
    simp +contextual

def Functor.timer : Functor → Option TimerId
  | .firing task => some task.id
  | .other => none

namespace Instr

/-- The instruction is going to run the callback of the timer in the loop. -/
def fires (id : TimerId) : Instr → Bool
  | .timers (.startCallback w) => w.task.id = id
  | .loadAlive task => task.id = id
  | .queue functor => functor.timer = some id
  | .functors fs => fs.any (·.timer = some id)
  | _ => false

def cancels : Instr → Option TimerId
  | .ask (.cancel id) | .timers (.call (.cancel id) _) => some id
  | _ => none

end Instr

/-- No firing of the timer is on its way to the loop. -/
def NoFiring (c : Config) (id : TimerId) : Prop :=
  (∀ functor ∈ c.shared.pendingFunctors, functor.timer ≠ some id) ∧
    c.All fun i => i.fires id = false

instance (c : Config) (id : TimerId) : Decidable (NoFiring c id) :=
  inferInstanceAs (Decidable (_ ∧ _))

structure Dead (c : Config) (id : TimerId) : Prop where
  given : ∃ k < c.shared.timers.issued, id = UInt64.ofNat (k + 1)
  record : c.shared.timers.states id = none ∨ c.shared.timers.states id = some .cancelled
  quiet : NoFiring c id

/-- Every `cancelReturned` is below the cancellation or has a dead timer. -/
def Returning (dead : TimerId → Prop) (ids : List TimerId) : List Instr → Prop
  | [] => True
  | .cancelReturned id :: rest => (id ∈ ids ∨ dead id) ∧ Returning dead ids rest
  | i :: rest => Returning dead (i.cancels.toList ++ ids) rest

section Returning

variable {dead dead' : TimerId → Prop} {ids ids' : List TimerId} {stack : List Instr}

theorem Returning.mono (h : Returning dead ids stack) (hdead : ∀ id, dead id → dead' id)
    (hids : ∀ id ∈ ids, .cancelReturned id ∈ stack → id ∈ ids' ∨ dead' id) :
    Returning dead' ids' stack := by
  induction stack generalizing ids ids' with
  | nil => trivial
  | cons i rest ih =>
    have hrest (i' : Instr) : ∀ id ∈ i'.cancels.toList ++ ids, .cancelReturned id ∈ rest →
        id ∈ i'.cancels.toList ++ ids' ∨ dead' id := fun id hid hmem => by
      obtain hnew | hold := List.mem_append.mp hid
      · exact .inl (List.mem_append_left _ hnew)
      · exact (hids id hold (List.mem_cons_of_mem _ hmem)).imp_left (List.mem_append_right _)
    cases i with
    | cancelReturned id =>
      refine ⟨?_, ih h.2 (hrest .user)⟩
      obtain hid | hdead' := h.1
      · exact hids id hid (List.mem_cons_self ..)
      · exact .inr (hdead id hdead')
    | _ => exact ih h (hrest _)

theorem Returning.append (h : Returning dead ids stack) (pushed : List Instr)
    (hpushed : ∀ i ∈ pushed, ∀ id, i ≠ .cancelReturned id) : Returning dead ids (pushed ++ stack) := by
  induction pushed generalizing ids with
  | nil => exact h
  | cons i pushed ih =>
    rw [List.forall_mem_cons] at hpushed
    have hgrown : Returning dead (i.cancels.toList ++ ids) stack :=
      h.mono (fun _ => id) fun id hid _ => .inl (List.mem_append_right _ hid)
    have hrest := ih hgrown hpushed.2
    cases i with
    | cancelReturned id => exact absurd rfl (hpushed.1 id)
    | _ => exact hrest

theorem Returning.expand (h : Returning dead [] stack) (logged : TimerId → Bool) (operation : Operation) :
    Returning dead [] (Instr.expand logged operation ++ stack) := by
  cases operation with
  | runAfter | runEvery | queueInLoop => exact h.append _ (by simp [Instr.expand])
  | cancel id =>
    rw [Instr.expand]
    cases logged id with
    | false => exact h.append _ (by simp)
    | true => exact ⟨.inl (List.mem_cons_self ..), h.mono (fun _ hdead => hdead) nofun⟩

end Returning

/-- The callback of no timer is run after the timer has been cancelled. -/
def Respected : List Event → Prop
  | [] => True
  | .ran id :: log => .cancelled id ∉ log ∧ Respected log
  | _ :: log => Respected log

theorem Respected.of_append {after before : List Event} {id : TimerId}
    (h : Respected (after ++ .ran id :: before)) : .cancelled id ∉ before := by
  induction after with
  | nil => exact h.1
  | cons e after ih =>
    cases e with
    | ran => exact ih h.2
    | _ => exact ih h

/-- The ids do not wrap, and when the loop thread cancels a timer, no firing of it is on its way to
the loop. -/
abbrev CancelsInTime (c : Config) (t : Nat) (i : Instr) : Prop :=
  (∀ j ∈ i.toTimers, Issues c.shared.timers j c.shared.timers.nextId →
    c.shared.timers.issued < 2 ^ 64) ∧
  ∀ id ∈ i.cancels, .cancelReturned id ∈ c.stack t → NoFiring c id

instance (c : Config) (t : Nat) (i : Instr) : Decidable (CancelsInTime c t i) :=
  have := Option.decidableForallMem
    (p := fun id => .cancelReturned id ∈ c.stack t → NoFiring c id) i.cancels
  instDecidableAnd

structure Cancelling (c : Config) : Prop where
  grounded : ∀ t, Grounded (c.stack t)
  inFlight : InFlight (toTimers c)
  numbered : Numbered (toTimers c)
  given : ∀ id, .scheduled id ∈ c.shared.log →
    ∃ k < c.shared.timers.issued, id = UInt64.ofNat (k + 1)
  known : ∀ t, ∀ id, .cancelReturned id ∈ c.stack t → .scheduled id ∈ c.shared.log
  returning : ∀ t, Returning (Dead c) [] (c.stack t)
  dead : ∀ id, .cancelled id ∈ c.shared.log → Dead c id
  respected : Respected c.shared.log

section Dead

variable {c c' : Config} {t : Nat} {i : Instr} {rest pushed : List Instr} {s : Shared} {id : TimerId}

theorem dead_of_path {l l' : Life} (h : ReflTransGen Life.Moves l l')
    (hdead : l.record = none ∨ l.record = some .cancelled) :
    l'.record = none ∨ l'.record = some .cancelled := by
  induction h with
  | refl => exact hdead
  | tail _ hmoves ih =>
    cases hmoves with
    | cancel | requestStop => exact .inr rfl
    | clear | popCancelled | discard | leave => exact .inl rfl
    | pop | skip => exact ih
    | expire | enter | again => simp at ih

theorem given_step {b b' : Timer.Config} {j : Timer.Instr} (hstep : Timer.machine.Step b t j b')
    (hgiven : ∃ k < b.shared.issued, id = UInt64.ofNat (k + 1)) :
    ∃ k < b'.shared.issued, id = UInt64.ofNat (k + 1) := by
  obtain @⟨rest, x, s, pushed, htop, hexec⟩ := hstep
  obtain ⟨k, hk, rfl⟩ := hgiven
  refine ⟨k, ?_, rfl⟩
  rw [Config.shared_replace]
  obtain ⟨-, -, hissued⟩ | ⟨-, -, hissued⟩ := (Timer.moves_of_exec (t := t) hexec).issued <;> omega

theorem record_step {b b' : Timer.Config} {j : Timer.Instr} (hinFlight : InFlight b)
    (hnumbered : Numbered b) (hstep : Timer.machine.Step b t j b')
    (hfew : Issues b.shared j b.shared.nextId → b.shared.issued < 2 ^ 64)
    (hgiven : ∃ k < b.shared.issued, id = UInt64.ofNat (k + 1))
    (hdead : b.shared.states id = none ∨ b.shared.states id = some .cancelled) :
    b'.shared.states id = none ∨ b'.shared.states id = some .cancelled := by
  have hissues : ¬Issues b.shared j id := fun hissues => by
    obtain ⟨k, hk, hid⟩ := hgiven
    have hnext : b.shared.nextId = id := hissues.2.2
    have hissued := hfew (hnext.symm ▸ hissues)
    rw [hnumbered.nextId_eq, hid] at hnext
    have := ofNat_succ_inj hissued (by omega) hnext
    omega
  exact dead_of_path (life_step hinFlight hstep hissues) hdead

theorem fires_wrap {j : Timer.Instr} {x : Timer.Choice} {timers : Timer.Shared}
    {pushed : List Timer.Instr} {s : Timer.Shared}
    (hexec : j.exec t x s = some (timers, pushed))
    (hdead : s.states id = none ∨ s.states id = some .cancelled)
    (hj : (Instr.timers j).fires id = false) : ∀ i ∈ Instr.wrap j pushed, i.fires id = false := by
  intro i hmem
  obtain ⟨k, hpushed, rfl⟩ | ⟨id', -, rfl⟩ | ⟨w, rfl, rfl⟩ := mem_wrap hmem
  · cases k with
    | startCallback w =>
      obtain ⟨-, hsubmitted⟩ := (Timer.moves_of_exec (t := t) hexec).of_startCallback hpushed
      rw [Instr.fires, decide_eq_false_iff_not]
      rintro rfl
      rw [hsubmitted] at hdead
      simp at hdead
    | _ => rfl
  · rfl
  · exact hj

theorem NoFiring.of_active {c : Config} (h : NoFiring c id) (hactive : c.Active t i) :
    i.fires id = false :=
  h.2.of_active hactive

theorem NoFiring.replace (h : NoFiring c id) (htop : c.stack t = i :: rest)
    (hpending : ∀ functor ∈ s.pendingFunctors, functor.timer ≠ some id)
    (hpushed : ∀ j ∈ pushed, j.fires id = false) : NoFiring (c.replace t s (pushed ++ rest)) id := by
  refine ⟨hpending, Config.all_of_active fun t' j hactive => ?_⟩
  obtain ⟨-, hmem⟩ | hold := Config.active_of_replace htop hactive
  · exact hpushed j hmem
  · exact h.of_active hold

theorem fires_expand {logged : TimerId → Bool} {operation : Operation} :
    ∀ i ∈ Instr.expand logged operation, i.fires id = false := by
  intro i hmem
  obtain rfl | ⟨op, rfl, -⟩ | ⟨id', rfl⟩ | ⟨id', rfl, -⟩ | rfl := eq_of_expand hmem <;> rfl

theorem NoFiring.step (h : NoFiring c id)
    (hdead : c.shared.timers.states id = none ∨ c.shared.timers.states id = some .cancelled)
    (hstep : machine.Step c t i c') : NoFiring c' id := by
  obtain @⟨rest, x, s, pushed, htop, hexec⟩ := hstep
  have hi := h.of_active (Config.active_of_top htop)
  cases moves_of_exec (t := t) hexec with
  | timers allowed exec => exact h.replace htop h.1 (fires_wrap exec hdead hi)
  | call operation | callOnLoop operation | callInFunctor functor operation =>
    refine h.replace htop h.1 fun j hmem => ?_
    obtain hmem | hmem := List.mem_append.mp hmem
    · exact fires_expand j hmem
    · cases List.mem_singleton.mp hmem
      rfl
  | queue functor =>
    refine h.replace htop (fun functor' hmem => ?_) nofun
    obtain hmem | hmem := List.mem_append.mp hmem
    · exact h.1 functor' hmem
    · cases List.mem_singleton.mp hmem
      simpa [Instr.fires] using hi
  | loadAlive task => exact h.replace htop h.1 (by simpa [Instr.fires, Functor.timer] using hi)
  | doPendingFunctors =>
    refine h.replace htop nofun fun j hmem => ?_
    cases List.mem_singleton.mp hmem
    simpa [Instr.fires] using h.1
  | run task fs | runOther fs =>
    simp only [Instr.fires, List.any_cons, Bool.or_eq_false_iff] at hi
    exact h.replace htop h.1 (by simpa [Instr.fires] using hi.2)
  | _ => exact h.replace htop h.1 (by simp [Instr.fires])

theorem Dead.step (hdead : Dead c id) (h : Cancelling c) (hok : CancelsInTime c t i)
    (hstep : machine.Step c t i c') : Dead c' id := by
  have hquiet := hdead.quiet.step hdead.record hstep
  obtain ⟨j, hj, hbase⟩ | heq := step_toTimers (h.grounded t) hstep
  · have hfew : Issues c.shared.timers j c.shared.timers.nextId →
        c.shared.timers.issued < 2 ^ 64 := fun hissues => by
      obtain hj | rfl := hj
      · exact hok.1 j (by rw [hj]; exact List.mem_singleton_self j) hissues
      · cases hissues.1
    exact ⟨given_step hbase hdead.given,
      record_step h.inFlight h.numbered hbase hfew hdead.given hdead.record, hquiet⟩
  · have hshared : c'.shared.timers = c.shared.timers := congrArg Library.Config.shared heq
    refine ⟨?_, ?_, hquiet⟩ <;> rw [hshared]
    · exact hdead.given
    · exact hdead.record

end Dead

section Step

variable {c c' : Config} {t : Nat} {i : Instr} {rest pushed : List Instr} {s : Shared} {id : TimerId}

theorem Moves.log_subset (h : Moves c.shared i s pushed) : c.shared.log ⊆ s.log := by
  cases h with
  | timers => exact List.subset_append_right _ _
  | cancelReturned | run => exact List.subset_cons_self _ _
  | _ => exact fun _ => id

theorem cancelReturned_not_mem_wrap (j : Timer.Instr) (timers : List Timer.Instr) :
    ∀ i ∈ Instr.wrap j timers, ∀ id, i ≠ .cancelReturned id := by
  rintro i hmem id rfl
  obtain ⟨k, -, heq⟩ | ⟨id', -, heq⟩ | ⟨w, -, heq⟩ := mem_wrap hmem <;> cases heq

theorem Moves.known (h : Moves c.shared i s pushed) :
    ∀ j ∈ pushed, ∀ id, j = .cancelReturned id → .scheduled id ∈ c.shared.log ∨ j = i := by
  cases h with
  | timers allowed exec =>
    exact fun j hmem id heq => absurd heq (cancelReturned_not_mem_wrap _ _ j hmem id)
  | call operation | callOnLoop operation | callInFunctor functor operation =>
    rintro j hmem id rfl
    obtain hmem | hmem := List.mem_append.mp hmem
    · obtain heq | ⟨op, heq, -⟩ | ⟨id', heq⟩ | ⟨id', heq, hlogged⟩ | heq := eq_of_expand hmem <;>
        cases heq
      revert hlogged
      simp [Shared.given]
    · exact .inr (List.mem_singleton.mp hmem)
  | _ => simp

theorem given_events {j : Timer.Instr} {x : Timer.Choice} {b b' : Timer.Shared}
    {timers : List Timer.Instr} (hexec : j.exec t x b = some (b', timers))
    (hnextId : b.nextId = UInt64.ofNat (b.issued + 1))
    (hmem : .scheduled id ∈ Instr.events j timers) :
    ∃ k < b'.issued, id = UInt64.ofNat (k + 1) := by
  have hmoves := Timer.moves_of_exec (t := t) hexec
  rw [Instr.events.eq_def] at hmem
  split at hmem
  · cases List.mem_singleton.mp hmem
    cases hmoves with
    | schedule => exact ⟨b.issued, Nat.lt_succ_self _, hnextId⟩
  · cases hmem

theorem scheduled_of_events {j : Timer.Instr} {timers : List Timer.Instr} {e : Event}
    (hmem : e ∈ Instr.events j timers) : ∃ id, e = .scheduled id := by
  rw [Instr.events.eq_def] at hmem
  split at hmem
  · exact ⟨_, List.mem_singleton.mp hmem⟩
  · cases hmem

theorem Respected.append_events {log : List Event} (h : Respected log) (j : Timer.Instr)
    (timers : List Timer.Instr) : Respected (Instr.events j timers ++ log) := by
  rw [Instr.events.eq_def]
  split <;> exact h

theorem record_cancel {inside : Bool} {x : Timer.Choice} {b b' : Timer.Shared}
    {timers : List Timer.Instr}
    (hexec : (Timer.Instr.call (.cancel id) inside).exec t x b = some (b', timers)) :
    b'.states id = none ∨ b'.states id = some .cancelled := by
  cases x with
  | next =>
    obtain ⟨-, heq⟩ := Option.ite_none_left_eq_some.mp hexec
    have hcancel := Option.some.inj heq
    rw [Timer.Instr.execCancel] at hcancel
    split at hcancel
    · cases hcancel
      exact .inl ‹_›
    · cases hcancel
      exact .inr ‹_›
    · cases hcancel
      exact .inr (Function.update_self ..)
  | _ => cases hexec

theorem Returning.top {dead : TimerId → Prop} (h : Returning dead [] (i :: rest))
    (hreturned : ∀ id, i ≠ .cancelReturned id) : Returning dead i.cancels.toList rest := by
  cases i with
  | cancelReturned id => exact absurd rfl (hreturned id)
  | _ => simpa [Returning] using h

theorem Moves.returning {dead : TimerId → Prop} (h : Moves c.shared i s pushed)
    (hreturning : Returning dead [] (i :: rest))
    (hcancel : ∀ id inside, i = .timers (.call (.cancel id) inside) →
      .cancelReturned id ∈ rest → dead id) : Returning dead [] (pushed ++ rest) := by
  cases h with
  | @timers t j x timers pushed allowed exec =>
    refine Returning.append ?_ _ (cancelReturned_not_mem_wrap _ _)
    refine (hreturning.top nofun).mono (fun _ => id) fun id hid hmem => .inr ?_
    cases j with
    | call op inside =>
      cases op with
      | cancel id' =>
        cases List.mem_singleton.mp hid
        exact hcancel id inside rfl hmem
      | _ => cases hid
    | _ => cases hid
  | call operation | callOnLoop operation | callInFunctor functor operation =>
    rw [List.append_assoc]
    exact hreturning.expand _ operation
  | ask operation => cases operation <;> exact hreturning
  | cancelReturned id => exact hreturning.2
  | _ => exact (hreturning.top nofun).append _ (by simp)

end Step

namespace Cancelling

variable {c c' : Config} {t : Nat} {i : Instr} {rest pushed : List Instr} {s : Shared} {id : TimerId}

theorem init (poolThreads threads : Nat) : Cancelling (init poolThreads threads) := by
  refine ⟨fun t => ?_, ?_, ?_, nofun, fun t id => ?_, fun t => ?_, nofun, trivial⟩
  · refine init_induction poolThreads threads t trivial ?_ ?_ ?_ ?_ <;> exact ⟨nofun, trivial⟩
  · rw [toTimers_init]
    exact .init ..
  · rw [toTimers_init]
    exact .init ..
  · intro hactive
    obtain heq | heq | heq | heq := eq_of_init hactive <;> cases heq
  · refine init_induction poolThreads threads t ?_ ?_ ?_ ?_ ?_ <;> trivial

theorem log_step (h : Cancelling c) (hok : CancelsInTime c t i) (hstep : machine.Step c t i c') :
    (∀ id, .cancelled id ∈ c'.shared.log → Dead c' id) ∧ Respected c'.shared.log := by
  have hdead : ∀ id, Dead c id → Dead c' id := fun id hid => hid.step h hok hstep
  obtain @⟨rest, x, s, pushed, htop, hexec⟩ := hstep
  have hold : ∀ id, .cancelled id ∈ c.shared.log → Dead (c.replace t s (pushed ++ rest)) id :=
    fun id hmem => hdead id (h.dead id hmem)
  cases moves_of_exec (t := t) hexec with
  | @timers t' j x timers pushed allowed exec =>
    refine ⟨fun id hmem => ?_, h.respected.append_events j pushed⟩
    obtain hnew | hmem := List.mem_append.mp hmem
    · obtain ⟨id', heq⟩ := scheduled_of_events hnew
      cases heq
    · exact hold id hmem
  | cancelReturned id =>
    refine ⟨fun id' hmem => ?_, h.respected⟩
    obtain heq | hmem := List.mem_cons.mp hmem
    · cases heq
      have hreturning := h.returning t
      rw [htop] at hreturning
      exact hdead id (hreturning.1.resolve_left List.not_mem_nil)
    · exact hold id' hmem
  | run task fs =>
    have hne (id : TimerId) : Event.cancelled id ≠ .ran task.id := nofun
    refine ⟨fun id hmem => hold id (List.mem_of_ne_of_mem (hne id) hmem), fun hmem => ?_,
      h.respected⟩
    have hquiet := (h.dead task.id hmem).quiet.of_active (Config.active_of_top htop)
    simp [Instr.fires, Functor.timer] at hquiet
  | _ => exact ⟨hold, h.respected⟩

theorem dead_of_cancel (h : Cancelling c) (hok : CancelsInTime c t i) {inside : Bool}
    (hi : i = .timers (.call (.cancel id) inside)) (hreturned : .cancelReturned id ∈ c.stack t)
    (hstep : machine.Step c t i c') : Dead c' id := by
  have hgiven := h.given id (h.known t id hreturned)
  have hquiet := hok.2 id (by rw [hi]; rfl) hreturned
  obtain @⟨rest, x, s, pushed, htop, hexec⟩ := hstep
  subst hi
  cases moves_of_exec (t := t) hexec with
  | @timers t' j x timers pushed allowed exec =>
    refine ⟨?_, record_cancel exec, hquiet.replace htop hquiet.1 fun k hmem => ?_⟩
    · have hstep : Timer.machine.Step (toTimers c) t (.call (.cancel id) inside) _ :=
        .exec (Config.stack_project_top Shared.timers Instr.toTimers htop) exec
      exact given_step hstep hgiven
    · obtain ⟨k, hpushed, rfl⟩ := List.mem_map.mp hmem
      cases k with
      | startCallback w =>
        cases ((Timer.moves_of_exec (t := t') exec).of_startCallback hpushed).1
      | _ => rfl

theorem returning_step (h : Cancelling c) (hok : CancelsInTime c t i)
    (hstep : machine.Step c t i c') (t' : Nat) : Returning (Dead c') [] (c'.stack t') := by
  have hdead : ∀ id, Dead c id → Dead c' id := fun id hid => hid.step h hok hstep
  have hcancel : ∀ id inside, i = .timers (.call (.cancel id) inside) →
      .cancelReturned id ∈ c.stack t → Dead c' id := fun id inside hi hreturned =>
    h.dead_of_cancel hok hi hreturned hstep
  obtain @⟨rest, x, s, pushed, htop, hexec⟩ := hstep
  have hreturning (t' : Nat) : Returning _ [] (c.stack t') := (h.returning t').mono hdead nofun
  by_cases heq : t' = t
  · subst heq
    rw [Config.stack_replace_self htop]
    refine (moves_of_exec (t := t') hexec).returning (htop ▸ hreturning t') fun id inside hi hmem => ?_
    rw [htop] at hcancel
    exact hcancel id inside hi (List.mem_cons_of_mem _ hmem)
  · rw [Config.stack_replace_ne _ _ _ heq]
    exact hreturning t'

theorem known_step (h : Cancelling c) (hstep : machine.Step c t i c') (t' : Nat)
    (hmem : .cancelReturned id ∈ c'.stack t') : .scheduled id ∈ c'.shared.log := by
  obtain @⟨rest, x, s, pushed, htop, hexec⟩ := hstep
  have hmoves := moves_of_exec (t := t) hexec
  refine hmoves.log_subset ?_
  obtain ⟨-, hpushed⟩ | hactive := Config.active_of_replace htop hmem
  · obtain hgiven | rfl := hmoves.known _ hpushed id rfl
    · exact hgiven
    · exact h.known t id (Config.active_of_top htop)
  · exact h.known t' id hactive

theorem base_step (h : Cancelling c) (hstep : machine.Step c t i c') :
    InFlight (toTimers c') ∧ Numbered (toTimers c') := by
  obtain ⟨j, -, hbase⟩ | heq := step_toTimers (h.grounded t) hstep
  · exact ⟨h.inFlight.step hbase, h.numbered.step h.inFlight hbase⟩
  · rw [heq]
    exact ⟨h.inFlight, h.numbered⟩

theorem given_mono (h : Cancelling c) (hstep : machine.Step c t i c')
    (hmem : .scheduled id ∈ c'.shared.log) :
    ∃ k < c'.shared.timers.issued, id = UInt64.ofNat (k + 1) := by
  have hold : .scheduled id ∈ c.shared.log →
      ∃ k < c'.shared.timers.issued, id = UInt64.ofNat (k + 1) := fun hmem => by
    obtain ⟨j, -, hbase⟩ | heq := step_toTimers (h.grounded t) hstep
    · exact MarshalledTimers.given_step hbase (h.given id hmem)
    · have hshared : c'.shared.timers = c.shared.timers := congrArg Library.Config.shared heq
      rw [hshared]
      exact h.given id hmem
  obtain @⟨rest, x, s, pushed, htop, hexec⟩ := hstep
  cases moves_of_exec (t := t) hexec with
  | timers allowed exec =>
    obtain hnew | hmem := List.mem_append.mp hmem
    · exact given_events exec h.numbered.nextId_eq hnew
    · exact hold hmem
  | cancelReturned id' | run task fs =>
    obtain heq | hmem := List.mem_cons.mp hmem
    · cases heq
    · exact hold hmem
  | _ => exact hold hmem

theorem step (h : Cancelling c) (hok : CancelsInTime c t i) (hstep : machine.Step c t i c') :
    Cancelling c' where
  grounded := grounded_step h.grounded hstep
  inFlight := (h.base_step hstep).1
  numbered := (h.base_step hstep).2
  given _ := h.given_mono hstep
  known t' _ := h.known_step hstep t'
  returning := h.returning_step hok hstep
  dead := (h.log_step hok hstep).1
  respected := (h.log_step hok hstep).2

end Cancelling

/-- Once `cancel` has returned on the loop thread, the loop does not run the timer again. -/
theorem cancelled_never_runs {poolThreads threads : Nat} {c : Config}
    (hrun : machine.Run CancelsInTime (init poolThreads threads) c) {after before : List Event}
    {id : TimerId} (hlog : c.shared.log = after ++ .ran id :: before) : .cancelled id ∉ before := by
  have h : Cancelling c :=
    hrun.invariant (.init poolThreads threads) fun hc hok hstep => hc.step hok hstep
  have hrespected := h.respected
  rw [hlog] at hrespected
  exact hrespected.of_append

def firingQueued (operation : Operation) : List (Nat × Choice) :=
  [(2, .call operation), (2, .next), (2, .timers .next), (2, .timers .next), (2, .next), (2, .next),
    (2, .timers (.clock 0)), (2, .timers .next), (2, .timers .next), (2, .next), (0, .timers .next),
    (0, .timers .next), (0, .timers .next), (0, .timers (.clock 5)), (0, .timers .next),
    (0, .timers .next), (0, .timers .next), (1, .timers (.run 0)), (1, .timers .next),
    (1, .timers .next), (1, .next), (1, .next), (1, .timers .next), (1, .timers (.clock 6)),
    (1, .timers .next), (1, .timers .next)]

def functorsRun : List (Nat × Choice) :=
  [(2, .next), (2, .next), (2, .next), (2, .next), (2, .next), (2, .next)]

def timerCancelled : List (Nat × Choice) :=
  [(2, .call (.cancel 1)), (2, .next), (2, .next), (2, .timers .next), (2, .timers .next),
    (2, .next)]

theorem cancelled_never_runs_periodic :
    (machine.follow (init 1 0)
        (firingQueued (.runEvery 5) ++ functorsRun ++ timerCancelled)).shared.log =
      [.cancelled 1] ++ .ran 1 :: [.scheduled 1] ∧ Event.cancelled 1 ∉ [.scheduled 1] := by
  have hlog : (machine.follow (init 1 0)
      (firingQueued (.runEvery 5) ++ functorsRun ++ timerCancelled)).shared.log =
      [.cancelled 1] ++ .ran 1 :: [.scheduled 1] := by decide
  exact ⟨hlog, cancelled_never_runs (Machine.run_follow (by decide)) hlog⟩

/-- `cancel` does not reach a firing that is queued in the loop. -/
theorem cancel_misses_queued : ∃ c after before id, machine.Reaches (init 1 0) c ∧
    c.shared.log = after ++ .ran id :: before ∧ .cancelled id ∈ before := by
  refine ⟨machine.follow (init 1 0) (firingQueued (.runAfter 5) ++ timerCancelled ++ functorsRun),
    [], [.cancelled 1, .scheduled 1], 1, Machine.reaches_follow _, ?_, by decide⟩
  decide

end UnixNotes.Reactor.MarshalledTimers
