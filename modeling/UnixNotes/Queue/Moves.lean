import UnixNotes.Queue.FifoLaws

namespace UnixNotes.Queue

open Library

variable {α : Type}

inductive Moves (t : Nat) (s : Shared α) : Instr α → Shared α → List (Instr α) → Prop
  | call (op : Operation α) : Moves t s .user s [.acquire op false, .user]
  | finish {op : Operation α} {expired : Bool} {s' : Shared α} {pushed : List (Instr α)}
      (ended : op.ready s.queue = true ∨ expired = true ∨ op.wait = none)
      (finish : Instr.finish op s = some (s', pushed)) : Moves t s (.acquire op expired) s' pushed
  | park {op : Operation α} {wait : Wait} (waits : op.wait = some wait)
      (unready : op.ready s.queue = false) :
      Moves t s (.acquire op false) (s.park wait.condition t) [.parked op]
  | wake {op : Operation α} {wait : Wait} {expired : Bool} (waits : op.wait = some wait)
      (timed : expired = true → wait.timed = true) (notified : t ∉ s.waiting wait.condition) :
      Moves t s (.parked op) s [.acquire op expired]
  | leave {op : Operation α} {wait : Wait} {expired : Bool} (waits : op.wait = some wait)
      (timed : expired = true → wait.timed = true) (parked : t ∈ s.waiting wait.condition) :
      Moves t s (.parked op) (s.unpark wait.condition t) [.acquire op expired]
  | notifyOne {condition : Condition} {t' : Nat} (parked : t' ∈ s.waiting condition) :
      Moves t s (.notify (.one condition)) (s.unpark condition t') []
  | notifyNobody {condition : Condition} (nobody : s.waiting condition = ∅) :
      Moves t s (.notify (.one condition)) s []
  | notifyAll (condition : Condition) :
      Moves t s (.notify (.all condition)) (s.setWaiting condition ∅) []
  | returned (reply : Reply α) : Moves t s (.returned reply) s []

theorem moves_of_exec {t : Nat} {i : Instr α} {x : Choice α} {s s' : Shared α}
    {pushed : List (Instr α)} (h : i.exec t x s = some (s', pushed)) : Moves t s i s' pushed := by
  cases i with
  | user =>
    cases x with
    | call op => cases h; exact .call op
    | _ => cases h
  | acquire op expired =>
    cases x with
    | next =>
      simp only [Instr.exec, Instr.execAcquire] at h
      split at h
      · rename_i wait hwait
        split at h
        · rename_i hover
          rw [Bool.or_eq_true] at hover
          exact .finish (hover.imp_right .inl) h
        · rename_i hnot
          rw [Bool.or_eq_true, not_or, Bool.not_eq_true, Bool.not_eq_true] at hnot
          obtain ⟨hunready, rfl⟩ := hnot
          cases h
          exact .park hwait hunready
      · rename_i hwait
        exact .finish (.inr (.inr hwait)) h
    | _ => cases h
  | parked op =>
    simp only [Instr.exec, Instr.execParked] at h
    split at h
    · rename_i wait hwait
      split at h
      · rename_i hparked
        cases x with
        | spurious => cases h; exact .leave hwait Bool.noConfusion hparked
        | timeout =>
          obtain ⟨htimed, heq⟩ := Option.ite_none_right_eq_some.mp h
          cases heq
          exact .leave hwait (fun _ => htimed) hparked
        | _ => cases h
      · rename_i hnotified
        cases x with
        | next => cases h; exact .wake hwait Bool.noConfusion hnotified
        | timeout =>
          obtain ⟨htimed, heq⟩ := Option.ite_none_right_eq_some.mp h
          cases heq
          exact .wake hwait (fun _ => htimed) hnotified
        | _ => cases h
    · cases h
  | notify notice =>
    cases notice with
    | one condition =>
      cases x with
      | notify t' =>
        obtain ⟨hparked, heq⟩ := Option.ite_none_right_eq_some.mp h
        cases heq
        exact .notifyOne hparked
      | next =>
        obtain ⟨hnobody, heq⟩ := Option.ite_none_right_eq_some.mp h
        cases heq
        exact .notifyNobody hnobody
      | _ => cases h
    | all condition =>
      cases x with
      | next => cases h; exact .notifyAll condition
      | _ => cases h
  | returned reply =>
    cases x with
    | next => cases h; exact .returned reply
    | _ => cases h
  | threw => cases h

/-- Only a wait with a deadline times out, and nothing is thrown. -/
def Instr.Sound : Instr α → Prop
  | .acquire op expired => expired = true → op.patient = false
  | .threw _ => False
  | _ => True

/-- The FIFO `f` is what the queue stands for, and what `pushed` and `popped` come to. -/
structure Shared.Stands {capacity : Nat} (s : Shared α) (f : Fifo α capacity) : Prop where
  represents : s.queue.Represents f
  in_order : s.popped ++ f.elements = s.pushed

structure Sound (capacity : Nat) (c : Config α) : Prop where
  stands : ∃ f : Fifo α capacity, c.shared.Stands f
  instrs : ∀ t i, c.Active t i → i.Sound

section Step

variable {capacity : Nat} {t : Nat} {i : Instr α} {s s' : Shared α} {pushed : List (Instr α)}
  {f : Fifo α capacity} {op : Operation α}

theorem over_of_sound {expired : Bool} (hi : (Instr.acquire op expired).Sound)
    (hover : op.ready s.queue = true ∨ expired = true ∨ op.wait = none) :
    op.ready s.queue = true ∨ op.patient = false := by
  obtain hready | hexpired | hwait := hover
  · exact .inl hready
  · exact .inr (hi hexpired)
  · exact .inr (by rw [Operation.patient, hwait])

theorem finish_spec (h : s.queue.Represents f)
    (hready : op.ready s.queue = true ∨ op.patient = false)
    (hfinish : Instr.finish op s = some (s', pushed)) :
    ∃ reply, ∃ f' : Fifo α capacity, f.Does op reply f' ∧ s'.queue.Represents f' ∧
      s'.waiting = s.waiting ∧ s'.pushed = s.pushed ++ op.given reply ∧
      s'.popped = s.popped ++ reply.taken ∧ (reply.failed = true → s'.queue = s.queue) ∧
      pushed = (reply.notices s.queue.closed).map Instr.notify ++ [Instr.returned reply] := by
  obtain ⟨effect, f', hattempt, hdoes, hrepresents, hnotices, hfailed⟩ := h.attempt hready
  rw [Instr.finish, hattempt] at hfinish
  cases hfinish
  exact ⟨effect.reply, f', hdoes, hrepresents, rfl, rfl, rfl, hfailed, by rw [hnotices]⟩

theorem Shared.Stands.of_does {f' : Fifo α capacity} {reply : Reply α} (h : s.Stands f)
    (hdoes : f.Does op reply f') (hrepresents : s'.queue.Represents f')
    (hpushed : s'.pushed = s.pushed ++ op.given reply)
    (hpopped : s'.popped = s.popped ++ reply.taken) : s'.Stands f' := by
  refine ⟨hrepresents, ?_⟩
  rw [hpopped, hpushed, List.append_assoc, ← hdoes.conserves, ← List.append_assoc, h.in_order]

theorem sound_finish {reply : Reply α} {notices : List Notice} :
    ∀ j ∈ notices.map Instr.notify ++ [Instr.returned reply], j.Sound := by
  intro j hj
  rw [List.mem_append, List.mem_map, List.mem_singleton] at hj
  obtain ⟨notice, -, rfl⟩ | rfl := hj <;> trivial

end Step

namespace Sound

variable {capacity : Nat} {c c' : Config α} {t : Nat} {i : Instr α}

theorem replace (h : Sound capacity c) {rest : List (Instr α)} (htop : c.stack t = i :: rest)
    {s : Shared α} {pushed : List (Instr α)} (hstands : ∃ f : Fifo α capacity, s.Stands f)
    (hpushed : ∀ j ∈ pushed, j.Sound) : Sound capacity (c.replace t s (pushed ++ rest)) := by
  refine ⟨hstands, fun t' j hj => ?_⟩
  obtain ⟨-, hmem⟩ | hactive := Config.active_of_replace htop hj
  · exact hpushed j hmem
  · exact h.instrs t' j hactive

theorem step (h : Sound capacity c) (hstep : (machine α).Step c t i c') : Sound capacity c' := by
  obtain @⟨rest, x, s, pushed, htop, hexec⟩ := hstep
  obtain ⟨f, hf⟩ := h.stands
  have hi : i.Sound := h.instrs t i (Config.active_of_top htop)
  cases moves_of_exec hexec with
  | call => exact h.replace htop h.stands (by simp [Instr.Sound])
  | finish ended finish =>
    obtain ⟨reply, f', hdoes, hrepresents, -, hpushed, hpopped, -, rfl⟩ :=
      finish_spec hf.represents (over_of_sound hi ended) finish
    exact h.replace htop ⟨f', hf.of_does hdoes hrepresents hpushed hpopped⟩ sound_finish
  | park => exact h.replace htop ⟨f, hf.represents, hf.in_order⟩ (by simp [Instr.Sound])
  | wake waits timed _ =>
    refine h.replace htop h.stands ?_
    simpa [Instr.Sound, Operation.patient, waits] using timed
  | leave waits timed _ =>
    refine h.replace htop ⟨f, hf.represents, hf.in_order⟩ ?_
    simpa [Instr.Sound, Operation.patient, waits] using timed
  | notifyOne => exact h.replace htop ⟨f, hf.represents, hf.in_order⟩ (by simp)
  | notifyNobody => exact h.replace htop h.stands (by simp)
  | notifyAll => exact h.replace htop ⟨f, hf.represents, hf.in_order⟩ (by simp)
  | returned => exact h.replace htop h.stands (by simp)

theorem init {queue : BlockingQueue α} (hmake : BlockingQueue.make capacity = .ok queue)
    (threads : Nat) : Sound capacity (init queue threads) := by
  refine ⟨⟨_, (BlockingQueue.Represents.of_make hmake).2, rfl⟩, fun t i hi => ?_⟩
  obtain ⟨stack, hstack, hmem⟩ := Config.mem_threads hi
  rw [List.eq_of_mem_replicate hstack, List.mem_singleton] at hmem
  rw [hmem]
  trivial

theorem run {ok : Config α → Nat → Instr α → Prop} (h : Sound capacity c)
    (hrun : (machine α).Run ok c c') : Sound capacity c' :=
  hrun.invariant h fun hc _ hstep => hc.step hstep

end Sound

end UnixNotes.Queue
