import UnixNotes.Timer.Lives

namespace UnixNotes.Timer

open Library Relation

theorem Life.carried_of_path {l l' : Life} (h : ReflTransGen Life.Moves l l')
    (hcarried : l.Carried) : l'.Carried := by
  induction h with
  | refl => exact hcarried
  | tail _ hmoves ih => exact hmoves.carried ih

theorem Life.spent_of_path {l l' : Life} (h : ReflTransGen Life.Moves l l') (hspent : l.Spent) :
    l'.Spent := by
  induction h with
  | refl => exact hspent
  | tail _ hmoves ih => exact hmoves.spent ih

theorem Life.cancelled_of_path {l l' : Life} (h : ReflTransGen Life.Moves l l')
    (hspent : l.Spent) (hcancelled : 0 < l.cancels) :
    l'.starts = l.starts ∧ l'.heap ≤ l.heap ∧ 0 < l'.cancels := by
  induction h with
  | refl => exact ⟨rfl, Nat.le_refl _, hcancelled⟩
  | tail hpath hmoves ih =>
    obtain ⟨hstarts, hheap, hcancels⟩ := ih
    obtain ⟨hstarts', hheap', hcancels'⟩ :=
      hmoves.cancelled (Life.spent_of_path hpath hspent) hcancels
    exact ⟨hstarts'.trans hstarts, hheap'.trans hheap, hcancels'⟩

section Carried

/-- A timer gets one of the first 2 ^ 64 ids, or one that nobody has anything of any more. -/
abbrev UnusedId (c : Config) (_ : Nat) (i : Instr) : Prop :=
  Issues c.shared i c.shared.nextId →
    c.shared.issued < 2 ^ 64 ∨ (life c c.shared.nextId).Unused

structure Carrying (c : Config) : Prop where
  inFlight : InFlight c
  numbered : Numbered c
  carried : ∀ id, (life c id).Carried

variable {c c' : Config} {t : Nat} {i : Instr}

theorem Carrying.init (poolThreads threads : Nat) : Carrying (init poolThreads threads) := by
  refine ⟨.init poolThreads threads, .init poolThreads threads, fun id => ?_⟩
  rw [life, total_init rfl rfl rfl, total_init rfl rfl rfl, total_init rfl rfl rfl]
  exact ⟨rfl, rfl⟩

theorem Carrying.step (h : Carrying c) (hunused : UnusedId c t i)
    (hstep : machine.Step c t i c') : Carrying c' := by
  refine ⟨h.inFlight.step hstep, h.numbered.step h.inFlight hstep, fun id => ?_⟩
  by_cases hissues : Issues c.shared i id
  · obtain rfl := hissues.2.2
    rw [life_issue hstep hissues]
    refine Life.Unused.carried_schedule ?_
    obtain hissued | hunused := hunused hissues
    · rw [h.numbered.blank hissued]
      exact ⟨rfl, rfl, rfl, rfl⟩
    · exact hunused
  · exact Life.carried_of_path (life_step h.inFlight hstep hissues) (h.carried id)

theorem carrying_of_run {poolThreads threads : Nat}
    (hrun : machine.Run UnusedId (init poolThreads threads) c) : Carrying c :=
  hrun.invariant (.init poolThreads threads) fun hc hok hstep => hc.step hok hstep

theorem one_carrier {poolThreads threads : Nat}
    (hrun : machine.Run UnusedId (init poolThreads threads) c) (id : TimerId) :
    (∀ state, c.shared.states id = some state →
      (life c id).heap + (life c id).waiting + (life c id).running = 1) ∧
    (c.shared.states id = some .pending → (life c id).heap = 1) ∧
    (c.shared.states id = some .submitted → (life c id).waiting = 1) ∧
    (c.shared.states id = some .executing → (life c id).running = 1) ∧
    (∀ task ∈ c.shared.tasks, c.shared.states task.id = some .pending ∨
      c.shared.states task.id = some .cancelled) ∧
    (life c id).running ≤ 1 := by
  have h := carrying_of_run hrun
  have hcarried := h.carried id
  refine ⟨fun _ => hcarried.one, hcarried.pending, hcarried.submitted, hcarried.executing,
    fun task htask => ?_, hcarried.running_le_one⟩
  refine (h.carried task.id).of_node (List.countP_pos_iff.mpr ⟨task, htask, ?_⟩)
  exact decide_eq_true rfl

def twoTimers : List (Nat × Choice) :=
  [(2, .call .start), (2, .next), (2, .next), (2, .call (.scheduleEvery 5 (some 7))), (2, .clock 0),
    (2, .next), (2, .next), (2, .call (.scheduleAfter 20 (some 8))), (2, .clock 0), (2, .next),
    (2, .next), (0, .next), (0, .next), (0, .next), (0, .clock 5), (0, .next), (0, .next),
    (0, .next), (1, .run 0), (1, .next), (1, .next)]

theorem one_carrier_twoTimers :
    (life (machine.follow (init 1 1) twoTimers) 1).running = 1 := by
  have hrun : machine.Run UnusedId (init 1 1) (machine.follow (init 1 1) twoTimers) :=
    Machine.run_follow (by decide)
  exact (one_carrier hrun 1).2.2.2.1 (by decide)

end Carried

section Cancelled

/-- A timer gets one of the first 2 ^ 64 ids, or one that has not been cancelled. -/
abbrev LiveId (c : Config) (i : Instr) : Prop :=
  Issues c.shared i c.shared.nextId →
    c.shared.issued < 2 ^ 64 ∨ c.shared.nextId ∉ c.shared.cancelled

/-- No `cancel` takes effect while a wrapper of the timer, which has marked the record, is about to
call the callback. -/
def Apart (c : Config) : Instr → Prop
  | .call (.cancel id) _ =>
    c.shared.states id = none ∨ c.shared.states id = some .cancelled ∨
      c.total (Instr.starting id) = 0
  | _ => True

instance (c : Config) (i : Instr) : Decidable (Apart c i) := by
  unfold Apart
  split <;> infer_instance

abbrev CancelsApart (c : Config) (_ : Nat) (i : Instr) : Prop := LiveId c i ∧ Apart c i

section Moves

variable {s s' : Shared} {i : Instr} {pushed : List Instr}

theorem Moves.started_suffix (h : Moves s i s' pushed) : s.started <:+ s'.started := by
  cases h with
  | callbackStarts w => exact List.suffix_cons _ _
  | requestStop | beginStop =>
    rw [Instr.execRequestStop]
    split <;> exact List.suffix_refl _
  | _ => exact List.suffix_refl _

theorem Moves.cancelled_eq (h : Moves s i s' pushed) :
    s'.cancelled = s.cancelled ∨
      ∃ id state inside, i = .call (.cancel id) inside ∧ s.states id = some state ∧
        state ≠ .cancelled ∧ s'.cancelled = id :: s.cancelled ∧
        pushed = [.returned (.cancelled true)] := by
  cases h with
  | cancel inside found live => exact .inr ⟨_, _, inside, rfl, found, live, rfl, rfl⟩
  | requestStop | beginStop =>
    rw [Instr.execRequestStop]
    split <;> exact .inl rfl
  | _ => exact .inl rfl

end Moves

structure Spending (c : Config) : Prop where
  inFlight : InFlight c
  numbered : Numbered c
  spent : ∀ id, (life c id).Spent
  settled : ∀ id, 0 < (life c id).cancels → c.total (Instr.starting id) = 0

variable {c c' : Config} {t : Nat} {i : Instr}

theorem Spending.init (poolThreads threads : Nat) : Spending (init poolThreads threads) :=
  ⟨.init poolThreads threads, .init poolThreads threads, fun _ => .inl rfl, nofun⟩

theorem Spending.not_cancelled (h : Spending c) (hlive : LiveId c i)
    (hissues : Issues c.shared i c.shared.nextId) : (life c c.shared.nextId).cancels = 0 := by
  obtain hissued | hlive := hlive hissues
  · rw [h.numbered.blank hissued]
    rfl
  · exact List.count_eq_zero.mpr hlive

theorem Spending.spent_step (h : Spending c) (hlive : LiveId c i) (hstep : machine.Step c t i c')
    (id : TimerId) : (life c' id).Spent := by
  by_cases hissues : Issues c.shared i id
  · obtain rfl := hissues.2.2
    rw [life_issue hstep hissues]
    exact .inl (h.not_cancelled hlive hissues)
  · exact Life.spent_of_path (life_step h.inFlight hstep hissues) (h.spent id)

theorem Spending.life_step (h : Spending c) (hlive : LiveId c i)
    (hstep : machine.Step c t i c') {id : TimerId} (hcancelled : 0 < (life c id).cancels) :
    (life c' id).starts = (life c id).starts ∧ (life c' id).heap ≤ (life c id).heap ∧
      0 < (life c' id).cancels := by
  refine Life.cancelled_of_path (Timer.life_step h.inFlight hstep fun hissues => ?_) (h.spent id)
    hcancelled
  obtain rfl := hissues.2.2
  rw [h.not_cancelled hlive hissues] at hcancelled
  cases hcancelled

theorem Spending.cancelled_step (h : Spending c) (hlive : LiveId c i)
    (hstep : machine.Step c t i c') {id : TimerId} (hcancelled : 0 < (life c id).cancels) :
    c'.shared.started.count id = c.shared.started.count id ∧
      c'.total (Instr.starting id) = 0 := by
  have hstarts : c'.shared.started.count id + c'.total (Instr.starting id) =
      c.shared.started.count id + c.total (Instr.starting id) :=
    (h.life_step hlive hstep hcancelled).1
  have hsettled := h.settled id hcancelled
  obtain @⟨rest, x, s, pushed, htop, hexec⟩ := hstep
  have hle := (moves_of_exec (t := t) hexec).started_suffix.sublist.count_le id
  rw [Config.shared_replace] at hstarts ⊢
  omega

theorem Spending.settled_step (h : Spending c) (hok : CancelsApart c t i)
    (hstep : machine.Step c t i c') {id : TimerId} (hcancelled : 0 < (life c' id).cancels) :
    c'.total (Instr.starting id) = 0 := by
  by_cases hbefore : 0 < (life c id).cancels
  · exact (h.cancelled_step hok.1 hstep hbefore).2
  obtain @⟨rest, x, s, pushed, htop, hexec⟩ := hstep
  have htotal := Config.total_replace (Instr.starting id) htop s pushed
  have hcount : 0 < s.cancelled.count id := hcancelled
  obtain heq | ⟨id', state, inside, rfl, hfound, hlive, heq, rfl⟩ :=
    (moves_of_exec (t := t) hexec).cancelled_eq
  · rw [heq] at hcount
    exact absurd hcount hbefore
  · have hid : id' = id := by
      by_contra hne
      rw [heq, List.count_cons_of_ne hne] at hcount
      exact hbefore hcount
    subst hid
    obtain hnone | hdead | hzero := hok.2
    · rw [hfound] at hnone
      cases hnone
    · rw [hfound] at hdead
      exact absurd (Option.some.inj hdead) hlive
    · exact htotal.trans hzero

theorem Spending.step (h : Spending c) (hok : CancelsApart c t i) (hstep : machine.Step c t i c') :
    Spending c' where
  inFlight := h.inFlight.step hstep
  numbered := h.numbered.step h.inFlight hstep
  spent := h.spent_step hok.1 hstep
  settled _ := h.settled_step hok hstep

theorem cancel_is_final {poolThreads threads : Nat}
    (hrun : machine.Run CancelsApart (init poolThreads threads) c) (id : TimerId) :
    c.shared.cancelled.count id ≤ 1 ∧
      (id ∈ c.shared.cancelled → ∀ c', machine.Run CancelsApart c c' →
        c'.shared.started.count id = c.shared.started.count id ∧
          (life c' id).heap ≤ (life c id).heap) := by
  have h : Spending c :=
    hrun.invariant (.init poolThreads threads) fun hc hok hstep => hc.step hok hstep
  constructor
  · obtain hzero | ⟨hone, -⟩ := h.spent id
    · exact (Nat.le_of_eq hzero).trans (Nat.zero_le 1)
    · exact Nat.le_of_eq hone
  · intro hcancelled c' hlater
    have hlater := hlater.invariant (I := fun c' => Spending c' ∧
      c'.shared.started.count id = c.shared.started.count id ∧
        (life c' id).heap ≤ (life c id).heap ∧ 0 < (life c' id).cancels)
      ⟨h, rfl, Nat.le_refl _, List.count_pos_iff.mpr hcancelled⟩
      fun ⟨hc, hstarted, hheap, hcancels⟩ hok hstep => by
        obtain ⟨-, hheap', hcancels'⟩ := hc.life_step hok.1 hstep hcancels
        have hstarted' := (hc.cancelled_step hok.1 hstep hcancels).1
        exact ⟨hc.step hok hstep, hstarted'.trans hstarted, hheap'.trans hheap, hcancels'⟩
    exact ⟨hlater.2.1, hlater.2.2.1⟩

def cancelRunning : List (Nat × Choice) :=
  twoTimers ++ [(2, Choice.call (.cancel 1)), (2, .next)]

def afterCancel : List (Nat × Choice) :=
  [(1, .next), (1, .clock 6), (1, .next), (1, .next), (2, .next), (2, .call (.cancel 1)),
    (2, .next)]

theorem cancel_is_final_running :
    (machine.follow (init 1 1) cancelRunning).shared.cancelled.count 1 ≤ 1 ∧
      (machine.follow (machine.follow (init 1 1) cancelRunning) afterCancel).shared.started.count
          1 = (machine.follow (init 1 1) cancelRunning).shared.started.count 1 ∧
        (life (machine.follow (machine.follow (init 1 1) cancelRunning) afterCancel) 1).heap ≤
          (life (machine.follow (init 1 1) cancelRunning) 1).heap := by
  have hrun : machine.Run CancelsApart (init 1 1) (machine.follow (init 1 1) cancelRunning) :=
    Machine.run_follow (by decide)
  have hlater : machine.Run CancelsApart (machine.follow (init 1 1) cancelRunning)
      (machine.follow (machine.follow (init 1 1) cancelRunning) afterCancel) :=
    Machine.run_follow (by decide)
  have hfinal := cancel_is_final hrun 1
  exact ⟨hfinal.1, hfinal.2 (by decide) _ hlater⟩

/-- A worker has marked the record of the timer, and `cancel` returns true. -/
def cancelMarked : List (Nat × Choice) :=
  [(2, .call .start), (2, .next), (2, .next), (2, .call (.scheduleAfter 5 (some 7))), (2, .clock 0),
    (2, .next), (2, .next), (0, .next), (0, .next), (0, .next), (0, .clock 5), (0, .next),
    (0, .next), (0, .next), (1, .run 0), (1, .next), (2, .call (.cancel 1)), (2, .next)]

/-- The callback is called after `cancel` has returned true. -/
theorem started_after_cancel : ∃ c c', machine.Reaches (init 1 1) c ∧ machine.Reaches c c' ∧
    c.Active 2 (.returned (.cancelled true)) ∧ 1 ∈ c.shared.cancelled ∧
    c.shared.started.count 1 = 0 ∧ c'.shared.started.count 1 = 1 :=
  ⟨machine.follow (init 1 1) cancelMarked, _, Machine.reaches_follow _,
    Machine.reaches_follow [(1, .next)], by decide, by decide, by decide, by decide⟩

end Cancelled

end UnixNotes.Timer
