import UnixNotes.Library.Counter
import UnixNotes.Timer.InFlight
import UnixNotes.Timer.Life

namespace UnixNotes.Timer

open Library Relation

namespace Instr

def waiting (id : TimerId) : Instr → Nat
  | .batch ready => ready.countP (fun task => task.id = id)
  | .submit task | .rejected task _ => if task.id = id then 1 else 0
  | .enter w => if w.task.id = id then 1 else 0
  | _ => 0

/-- The wrappers for `id` that have begun, and have not left their last section. -/
def running (id : TimerId) : Instr → Nat
  | .startCallback w | .runCallback w | .leave w => if w.task.id = id then 1 else 0
  | _ => 0

def starting (id : TimerId) : Instr → Nat
  | .startCallback w => if w.task.id = id then 1 else 0
  | _ => 0

def takesId : Instr → Bool
  | .schedule .. => true
  | _ => false

end Instr

def Issues (s : Shared) (i : Instr) (id : TimerId) : Prop :=
  i.takesId = true ∧ s.schedulerState = .running ∧ s.nextId = id

instance (s : Shared) (i : Instr) (id : TimerId) : Decidable (Issues s i id) :=
  inferInstanceAs (Decidable (_ ∧ _ ∧ _))

def Shared.life (s : Shared) (id : TimerId) (waiting running starting : Nat) : Life where
  record := s.states id
  heap := s.tasks.countP (fun task => task.id = id)
  waiting := s.pool.countP (fun w => w.task.id = id) + waiting
  running := running
  starts := s.started.count id + starting
  cancels := s.cancelled.count id

def life (c : Config) (id : TimerId) : Life :=
  c.shared.life id (c.total (Instr.waiting id)) (c.total (Instr.running id))
    (c.total (Instr.starting id))

theorem life_dropCancelled (id : TimerId) (tasks : List TimerTask) (states : States)
    (waiting running starts cancels : Nat) :
    ReflTransGen Life.Moves
      ⟨states id, tasks.countP (fun task => task.id = id), waiting, running, starts, cancels⟩
      ⟨(dropCancelled tasks states).2 id,
        (dropCancelled tasks states).1.countP (fun task => task.id = id), waiting, running, starts,
        cancels⟩ := by
  induction tasks generalizing states with
  | nil => exact .refl
  | cons top tasks ih =>
    rw [dropCancelled]
    split
    · rename_i hcancelled
      by_cases hid : top.id = id
      · subst hid
        refine .head ?_ (ih _)
        rw [List.countP_cons_of_pos (by simp), hcancelled, States.erase, Function.update_self]
        exact .popCancelled _ _ _ _ _
      · have hrest := ih (states.erase top.id)
        rw [States.erase, Function.update_of_ne (Ne.symm hid)] at hrest
        rwa [List.countP_cons_of_neg (by simpa using hid)]
    · exact .refl

theorem life_collect (id : TimerId) (now : Int) (tasks : List TimerTask) (states : States)
    (waiting running starts cancels : Nat) :
    ReflTransGen Life.Moves
      ⟨states id, tasks.countP (fun task => task.id = id), waiting, running, starts, cancels⟩
      ⟨(collect now tasks states).2.2 id,
        (collect now tasks states).2.1.countP (fun task => task.id = id),
        waiting + (collect now tasks states).1.countP (fun task => task.id = id), running, starts,
        cancels⟩ := by
  induction tasks generalizing states waiting with
  | nil => exact .refl
  | cons top tasks ih =>
    rw [collect]
    split
    · split
      · rename_i hpending
        by_cases hid : top.id = id
        · subst hid
          have hrest := ih (states.set top.id .submitted) (waiting + 1)
          rw [States.set, Function.update_self] at hrest
          rw [List.countP_cons_of_pos (by simp), hpending, List.countP_cons_of_pos (by simp)]
          rw [Nat.add_assoc, Nat.add_comm 1] at hrest
          exact .head (.expire _ _ _ _ _) hrest
        · have hrest := ih (states.set top.id .submitted) waiting
          rw [States.set, Function.update_of_ne (Ne.symm hid)] at hrest
          rw [List.countP_cons_of_neg (by simpa using hid),
            List.countP_cons_of_neg (by simpa using hid)]
          exact hrest
      · rename_i hcancelled
        by_cases hid : top.id = id
        · subst hid
          refine .head ?_ (ih _ waiting)
          rw [List.countP_cons_of_pos (by simp), hcancelled, States.erase, Function.update_self]
          exact .popCancelled _ _ _ _ _
        · have hrest := ih (states.erase top.id) waiting
          rw [States.erase, Function.update_of_ne (Ne.symm hid)] at hrest
          rwa [List.countP_cons_of_neg (by simpa using hid)]
      · rename_i hpending hcancelled
        by_cases hid : top.id = id
        · subst hid
          refine .head ?_ (ih states waiting)
          rw [List.countP_cons_of_pos (by simp)]
          exact .pop _ _ _ _ _ ⟨hpending, hcancelled⟩
        · rw [List.countP_cons_of_neg (by simpa using hid)]
          exact ih states waiting
    · exact .refl

section Step

variable {c c' : Config} {t : Nat} {i : Instr} {rest pushed : List Instr} {s s' : Shared}
  {id : TimerId}

theorem life_replace (htop : c.stack t = i :: rest) (s : Shared) (pushed : List Instr)
    (id : TimerId) :
    ∃ waiting running starting,
      life c id = c.shared.life id (waiting + i.waiting id) (running + i.running id)
        (starting + i.starting id) ∧
      life (c.replace t s (pushed ++ rest)) id =
        s.life id (waiting + Config.weigh (Instr.waiting id) pushed)
          (running + Config.weigh (Instr.running id) pushed)
          (starting + Config.weigh (Instr.starting id) pushed) := by
  have hwaiting := Config.total_replace (Instr.waiting id) htop s pushed
  have hrunning := Config.total_replace (Instr.running id) htop s pushed
  have hstarting := Config.total_replace (Instr.starting id) htop s pushed
  have hactive := Config.active_of_top htop
  have hle := Config.le_total (w := Instr.waiting id) hactive
  have hle' := Config.le_total (w := Instr.running id) hactive
  have hle'' := Config.le_total (w := Instr.starting id) hactive
  refine ⟨c.total (Instr.waiting id) - i.waiting id, c.total (Instr.running id) - i.running id,
    c.total (Instr.starting id) - i.starting id, ?_, ?_⟩
  · rw [life, Nat.sub_add_cancel hle, Nat.sub_add_cancel hle', Nat.sub_add_cancel hle'']
  · rw [life, Config.shared_replace]
    congr 1 <;> omega

theorem life_push (s : Shared) (task : TimerTask) (id : TimerId) (waiting running starting : Nat) :
    (s.push task).life id waiting running starting =
      { s.life id waiting running starting with
        heap := (s.life id waiting running starting).heap + if task.id = id then 1 else 0 } := by
  have hcount : (s.push task).tasks.countP (fun task => task.id = id) =
      s.tasks.countP (fun task => task.id = id) + if task.id = id then 1 else 0 := by
    rw [Shared.push, (List.perm_orderedInsert _ task s.tasks).countP_eq, List.countP_cons]
    simp only [decide_eq_true_iff]
  rw [Shared.life, hcount]
  rfl

theorem emplace_of_ne {states : States} {id id' : TimerId} {state : TimerState} (h : id ≠ id') :
    states.emplace id' state id = states id := by
  rw [States.emplace]
  split
  · rfl
  · rw [States.set, Function.update_of_ne h]

theorem life_execRequestStop (waiting running starting : Nat) :
    ReflTransGen Life.Moves (s.life id waiting running starting)
      ((Instr.execRequestStop s).life id waiting running starting) := by
  rw [Instr.execRequestStop]
  split
  · exact .refl
  · simp only [Shared.life, States.cancelPending]
    split
    · rename_i hpending
      rw [hpending]
      exact .single (.requestStop _ _ _ _ _)
    · exact .refl
  · exact .refl
  · exact .refl

/-- What the step makes of the timer is a life, whatever the other threads have of it. -/
def Lives (s : Shared) (i : Instr) (s' : Shared) (pushed : List Instr) (id : TimerId) : Prop :=
  ∀ waiting running starting, (s.inFlight = 0 → running + i.running id = 0) →
    ReflTransGen Life.Moves
      (s.life id (waiting + i.waiting id) (running + i.running id) (starting + i.starting id))
      (s'.life id (waiting + Config.weigh (Instr.waiting id) pushed)
        (running + Config.weigh (Instr.running id) pushed)
        (starting + Config.weigh (Instr.starting id) pushed))

theorem lives_of_call {op : Operation} {inside : Bool}
    (h : Moves s (.call op inside) s' pushed) : Lives s (.call op inside) s' pushed id := by
  intro waiting running starting _
  cases h with
  | @cancel id' state inside found live =>
    by_cases hid : id' = id
    · subst hid
      simp only [Shared.life, States.set, Function.update_self, List.count_cons_self, found]
      exact .single (.cancel _ _ _ _ _ _ live)
    · simp only [Shared.life, States.set, Function.update_of_ne (Ne.symm hid),
        List.count_cons_of_ne hid]
      exact .refl
  | _ => exact .refl

theorem lives_of_schedule {expiration interval : Int} {repeated : Bool} {callback : Nat}
    (h : Moves s (.schedule expiration interval repeated callback) s' pushed)
    (hissues : ¬Issues s (.schedule expiration interval repeated callback) id) :
    Lives s (.schedule expiration interval repeated callback) s' pushed id := by
  intro waiting running starting _
  cases h with
  | scheduleRefused => exact .refl
  | schedule _ _ _ _ hrunning =>
    have hid : s.nextId ≠ id := fun heq => hissues ⟨rfl, hrunning, heq⟩
    rw [life_push, if_neg hid]
    simp only [Shared.life, emplace_of_ne (Ne.symm hid)]
    exact .refl

theorem lives_of_batch {ready : List TimerTask} (h : Moves s (.batch ready) s' pushed) :
    Lives s (.batch ready) s' pushed id := by
  intro waiting running starting _
  cases h with
  | batchDone => exact .refl
  | skip task rest unexpected =>
    by_cases hid : task.id = id
    · subst hid
      simp only [Instr.waiting, Config.weigh_cons, Config.weigh_nil,
        List.countP_cons_of_pos (p := fun task' : TimerTask => task'.id = task.id)
          (a := task) (by simp)]
      exact .single (.skip _ _ _ _ _ unexpected)
    · simp only [Instr.waiting, Config.weigh_cons, Config.weigh_nil,
        List.countP_cons_of_neg (p := fun task' : TimerTask => task'.id = id)
          (a := task) (by simpa using hid)]
      exact .refl
  | discard task rest =>
    by_cases hid : task.id = id
    · subst hid
      simp only [Shared.life, States.erase, Function.update_self, Instr.waiting, Config.weigh_cons,
        Config.weigh_nil, List.countP_cons_of_pos (p := fun task' : TimerTask => task'.id = task.id)
          (a := task) (by simp)]
      exact .single (.discard _ _ _ _ _ _)
    · simp only [Shared.life, States.erase, Function.update_of_ne (Ne.symm hid), Instr.waiting,
        Config.weigh_cons, Config.weigh_nil,
        List.countP_cons_of_neg (p := fun task' : TimerTask => task'.id = id)
          (a := task) (by simpa using hid)]
      exact .refl
  | pass task rest ready =>
    simp only [Instr.waiting, Config.weigh_cons, Config.weigh_nil, List.countP_cons,
      decide_eq_true_iff, Nat.add_zero, Nat.add_comm (if task.id = id then 1 else 0)]
    exact .refl

theorem lives_of_rejected {task : TimerTask} {completion : Nat}
    (h : Moves s (.rejected task completion) s' pushed) :
    Lives s (.rejected task completion) s' pushed id := by
  intro waiting running starting _
  cases h with
  | eraseRejected =>
    by_cases hid : task.id = id
    · subst hid
      simp only [Shared.life, States.erase, Function.update_self, Instr.waiting, if_true]
      exact .single (.discard _ _ _ _ _ _)
    · simp only [Shared.life, States.erase, Function.update_of_ne (Ne.symm hid), Instr.waiting,
        if_neg hid]
      exact .refl

theorem lives_of_submit {task : TimerTask} (h : Moves s (.submit task) s' pushed) :
    Lives s (.submit task) s' pushed id := by
  intro waiting running starting _
  cases h with
  | accepted =>
    simp only [Shared.life, Instr.waiting, Config.weigh_cons, Config.weigh_nil,
      List.countP_append, List.countP_cons, List.countP_nil, decide_eq_true_iff, Nat.add_zero,
      Nat.zero_add, Nat.add_assoc, Nat.add_comm waiting]
    exact .refl
  | reject => exact .refl

theorem lives_of_poolWorker (h : Moves s .poolWorker s' pushed) :
    Lives s .poolWorker s' pushed id := by
  intro waiting running starting _
  cases h with
  | @run index w queued =>
    obtain ⟨hlt, rfl⟩ := List.getElem?_eq_some_iff.mp queued
    have hcount := (List.getElem_cons_eraseIdx_perm hlt).symm.countP_eq (fun w => w.task.id = id)
    rw [List.countP_cons] at hcount
    simp only [decide_eq_true_iff] at hcount
    simp only [Shared.life, hcount, Instr.waiting, Instr.running, Config.weigh_cons,
      Config.weigh_nil, Nat.add_zero, Nat.zero_add, Nat.add_assoc, Nat.add_comm waiting]
    exact .refl

theorem lives_of_enter {w : Wrapper} (h : Moves s (.enter w) s' pushed) :
    Lives s (.enter w) s' pushed id := by
  intro waiting running starting _
  cases h with
  | enterNothing _ unexpected =>
    by_cases hid : w.task.id = id
    · subst hid
      simp only [Instr.waiting, if_true]
      exact .single (.skip _ _ _ _ _ unexpected)
    · simp only [Instr.waiting, if_neg hid]
      exact .refl
  | enterCancelled =>
    by_cases hid : w.task.id = id
    · subst hid
      simp only [Shared.life, States.erase, Function.update_self, Instr.waiting, if_true]
      exact .single (.discard _ _ _ _ _ _)
    · simp only [Shared.life, States.erase, Function.update_of_ne (Ne.symm hid), Instr.waiting,
        if_neg hid]
      exact .refl
  | enter submitted =>
    by_cases hid : w.task.id = id
    · subst hid
      simp only [Shared.life, submitted, States.set, Function.update_self, Instr.waiting,
        Instr.running, Instr.starting, if_true, Config.weigh_cons, Config.weigh_nil]
      exact .single (.enter _ _ _ _ _)
    · simp only [Shared.life, States.set, Function.update_of_ne (Ne.symm hid), Instr.waiting,
        Instr.running, Instr.starting, if_neg hid, Config.weigh_cons, Config.weigh_nil]
      exact .refl

theorem lives_of_startCallback {w : Wrapper} (h : Moves s (.startCallback w) s' pushed) :
    Lives s (.startCallback w) s' pushed id := by
  intro waiting running starting _
  cases h with
  | callbackStarts =>
    by_cases hid : w.task.id = id
    · subst hid
      simp only [Shared.life, Instr.waiting, Instr.running, Instr.starting, Config.weigh_cons,
        Config.weigh_nil, if_true, List.count_cons_self, Nat.add_zero, Nat.add_right_comm _ 1]
      exact .refl
    · simp only [Shared.life, Instr.waiting, Instr.running, Instr.starting, Config.weigh_cons,
        Config.weigh_nil, if_neg hid, List.count_cons_of_ne hid]
      exact .refl

theorem lives_of_leave {w : Wrapper} (h : Moves s (.leave w) s' pushed) :
    Lives s (.leave w) s' pushed id := by
  intro waiting running starting _
  cases h with
  | leaveNothing missing =>
    by_cases hid : w.task.id = id
    · subst hid
      simp only [Shared.life, missing, Instr.running, if_true]
      exact .single (.leave _ _ _ _ _ _)
    · simp only [Instr.running, if_neg hid]
      exact .refl
  | again now executing running repeated =>
    rw [life_push]
    by_cases hid : w.task.id = id
    · subst hid
      simp only [Shared.life, executing, States.set, Function.update_self, Instr.running, if_true]
      exact .single (.again _ _ _ _ _)
    · simp only [Shared.life, States.set, Function.update_of_ne (Ne.symm hid), Instr.running,
        if_neg hid]
      exact .refl
  | leave =>
    by_cases hid : w.task.id = id
    · subst hid
      simp only [Shared.life, States.erase, Function.update_self, Instr.running, if_true]
      exact .single (.leave _ _ _ _ _ _)
    · simp only [Shared.life, States.erase, Function.update_of_ne (Ne.symm hid), Instr.running,
        if_neg hid]
      exact .refl

theorem lives_of_moves (h : Moves s i s' pushed) (hissues : ¬Issues s i id) :
    Lives s i s' pushed id := by
  cases i with
  | call op inside => exact lives_of_call h
  | schedule => exact lives_of_schedule h hissues
  | batch ready => exact lives_of_batch h
  | submit task => exact lives_of_submit h
  | rejected task completion => exact lives_of_rejected h
  | poolWorker => exact lives_of_poolWorker h
  | enter w => exact lives_of_enter h
  | startCallback w => exact lives_of_startCallback h
  | leave w => exact lives_of_leave h
  | runCallback w =>
    intro waiting running starting _
    cases h with
    | callbackEnds => exact .refl
    | nested =>
      rw [Config.weigh_cons, Config.weigh_cons, Config.weigh_cons]
      simp only [Instr.waiting, Instr.running, Instr.starting, Config.weigh_cons,
        Config.weigh_nil, Nat.zero_add]
      exact .refl
  | requestStop stop =>
    intro waiting running starting _
    cases h <;> exact life_execRequestStop _ _ _
  | awaitFinished drain =>
    intro waiting running starting hquiet
    cases h with
    | finished _ idle =>
      have hzero := hquiet idle
      simp only [Instr.running, Nat.add_zero] at hzero
      subst hzero
      exact .single (.clear _ _ _ _ _)
  | waitUntil id' expiration =>
    intro waiting running starting _
    cases h with
    | collect _ _ now =>
      have hcollect := life_collect id now s.tasks s.states
        (s.pool.countP (fun w => w.task.id = id) + waiting) running
        (s.started.count id + starting) (s.cancelled.count id)
      rw [Nat.add_assoc] at hcollect
      exact hcollect
    | _ => exact .refl
  | popCancelled =>
    intro waiting running starting _
    cases h
    exact life_dropCancelled _ _ _ _ _ _ _
  | _ =>
    intro waiting running starting _
    cases h <;> exact .refl

theorem Moves.issued (h : Moves s i s' pushed) :
    (Issues s i s.nextId ∧ s'.nextId = s.nextId + 1 ∧ s'.issued = s.issued + 1) ∨
      ((∀ id, ¬Issues s i id) ∧ s'.nextId = s.nextId ∧ s'.issued = s.issued) := by
  cases h with
  | schedule _ _ _ _ running => exact .inl ⟨⟨rfl, running, rfl⟩, rfl, rfl⟩
  | scheduleRefused _ _ _ _ stopped =>
    exact .inr ⟨fun id hissues => stopped hissues.2.1, rfl, rfl⟩
  | requestStop | beginStop =>
    refine .inr ⟨fun id hissues => Bool.noConfusion hissues.1, ?_⟩
    rw [Instr.execRequestStop]
    split <;> exact ⟨rfl, rfl⟩
  | _ => exact .inr ⟨fun id hissues => Bool.noConfusion hissues.1, rfl, rfl⟩

theorem InFlight.not_running (h : InFlight c) (hidle : c.shared.inFlight = 0) :
    c.total (Instr.running id) = 0 := by
  refine Config.total_eq_zero fun t i hactive => ?_
  have hholds := h.holds_eq_zero hidle hactive
  cases i with
  | startCallback w | runCallback w | leave w =>
    exact absurd (hholds w.completion) (by simp [Instr.holds])
  | _ => rfl

theorem life_step (h : InFlight c) (hstep : machine.Step c t i c')
    (hissues : ¬Issues c.shared i id) : ReflTransGen Life.Moves (life c id) (life c' id) := by
  obtain @⟨rest, x, s, pushed, htop, hexec⟩ := hstep
  obtain ⟨waiting, running, starting, hlife, hlife'⟩ := life_replace htop s pushed id
  have hrunning := congrArg Life.running hlife
  rw [hlife, hlife']
  refine lives_of_moves (moves_of_exec (t := t) hexec) hissues _ _ _ fun hidle => ?_
  exact hrunning.symm.trans (h.not_running hidle)

theorem life_issue (hstep : machine.Step c t i c') (hissues : Issues c.shared i id) :
    life c' id = (life c id).schedule := by
  obtain @⟨rest, x, s, pushed, htop, hexec⟩ := hstep
  obtain ⟨waiting, running, starting, hlife, hlife'⟩ := life_replace htop s pushed id
  obtain ⟨htakes, hrunning, rfl⟩ := hissues
  rw [hlife, hlife']
  cases moves_of_exec (t := t) hexec with
  | schedule =>
    rw [life_push, if_pos rfl]
    simp only [Shared.life, Life.schedule, States.emplace]
    split
    · rename_i hsome
      obtain ⟨state, hstate⟩ := Option.isSome_iff_exists.mp hsome
      rw [hstate]
      rfl
    · rename_i hnone
      rw [Bool.not_eq_true, Option.isSome_eq_false_iff, Option.isNone_iff_eq_none] at hnone
      rw [hnone, States.set, Function.update_self]
      rfl
  | scheduleRefused _ _ _ _ stopped => exact absurd hrunning stopped
  | _ => cases htakes

end Step

structure Numbered (c : Config) : Prop where
  nextId_eq : c.shared.nextId = UInt64.ofNat (c.shared.issued + 1)
  unissued : ∀ k, c.shared.issued ≤ k → k < 2 ^ 64 → life c (UInt64.ofNat (k + 1)) = .blank

theorem ofNat_succ_inj {k n : Nat} (hk : k < 2 ^ 64) (hn : n < 2 ^ 64)
    (h : UInt64.ofNat (k + 1) = UInt64.ofNat (n + 1)) : k = n := by
  rw [UInt64.ofNat_add, UInt64.ofNat_add] at h
  exact ofNat_inj hk hn (add_right_cancel h)

theorem Life.blank_of_path {l l' : Life} (h : ReflTransGen Life.Moves l l') (hblank : l = .blank) :
    l' = .blank := by
  induction h with
  | refl => exact hblank
  | tail _ hmoves ih => exact hmoves.blank ih

namespace Numbered

variable {c c' : Config} {t : Nat} {i : Instr}

theorem init (poolThreads threads : Nat) : Numbered (init poolThreads threads) := by
  refine ⟨rfl, fun k _ _ => ?_⟩
  rw [life, total_init rfl rfl rfl, total_init rfl rfl rfl, total_init rfl rfl rfl]
  rfl

theorem step (h : Numbered c) (hinFlight : InFlight c) (hstep : machine.Step c t i c') :
    Numbered c' := by
  have hpath : ∀ id, ¬Issues c.shared i id → ReflTransGen Life.Moves (life c id) (life c' id) :=
    fun id => life_step hinFlight hstep
  obtain @⟨rest, x, s, pushed, htop, hexec⟩ := hstep
  obtain ⟨hissues, hnextId, hissued⟩ | ⟨hissues, hnextId, hissued⟩ :=
    (moves_of_exec (t := t) hexec).issued
  · refine ⟨?_, fun k hle hk => ?_⟩
    · rw [Config.shared_replace, hnextId, hissued, h.nextId_eq, UInt64.ofNat_add (_ + 1)]
      rfl
    · rw [Config.shared_replace, hissued] at hle
      refine Life.blank_of_path (hpath _ fun hissues' => ?_) (h.unissued k (by omega) hk)
      have hid := h.nextId_eq.symm.trans hissues'.2.2
      have := ofNat_succ_inj (by omega) hk hid
      omega
  · refine ⟨?_, fun k hle hk => ?_⟩
    · rw [Config.shared_replace, hnextId, hissued, h.nextId_eq]
    · rw [Config.shared_replace, hissued] at hle
      exact Life.blank_of_path (hpath _ (hissues _)) (h.unissued k hle hk)

theorem states_eq_none (h : Numbered c) {k : Nat} (hk : c.shared.issued + k < 2 ^ 64) :
    c.shared.states (c.shared.nextId + UInt64.ofNat k) = none := by
  rw [h.nextId_eq, ← UInt64.ofNat_add, Nat.add_right_comm]
  exact congrArg Life.record (h.unissued _ (Nat.le_add_right _ _) hk)

theorem blank (h : Numbered c) (hissued : c.shared.issued < 2 ^ 64) :
    life c c.shared.nextId = .blank := by
  rw [h.nextId_eq]
  exact h.unissued _ (Nat.le_refl _) hissued

end Numbered

end UnixNotes.Timer
