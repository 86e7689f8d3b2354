import UnixNotes.Timer.Failing

namespace UnixNotes.Timer.Failing

open Library Relation

variable {c c' : Config} {t : Nat} {i : Instr} {rest pushed : List Instr} {s s' : Shared}

inductive Moves (s : Shared) : Instr → Shared → List Instr → Prop
  | scheduler {t : Nat} {i : Timer.Instr} {x : Timer.Choice} {scheduler : Timer.Shared}
      {pushed : List Timer.Instr} (exec : i.exec t x s.scheduler = some (scheduler, pushed)) :
      Moves s (.scheduler i)
        { s with
          scheduler := scheduler
          failed := (Instr.refuses i x s.scheduler).toList ++
            s.failed.filter fun id => ¬Issues s.scheduler i id }
        (pushed.map .scheduler)
  | tokenThrew (task : TimerTask) :
      Moves s (.scheduler (.submit task)) { s with failed := task.id :: s.failed }
        [.scheduler .finishInFlight, .erase task.id, .finishAgain]
  | postThrows (task : TimerTask) (result : SubmitResult) :
      Moves s (.scheduler (.submit task)) s [.postThrew task result]
  | postThrew (task : TimerTask) (result : SubmitResult) :
      Moves s (.postThrew task result) (Instr.execPostThrew task result s).1
        (Instr.execPostThrew task result s).2
  | erase (id : TimerId) :
      Moves s (.erase id) { s with scheduler.states := s.scheduler.states.erase id } []
  | finishAgain :
      Moves s .finishAgain { s with scheduler.inFlight := s.scheduler.inFlight - 1 } []

theorem moves_of_exec {x : Choice} (h : i.exec t x s = some (s', pushed)) :
    Moves s i s' pushed := by
  cases i with
  | scheduler i =>
    cases x with
    | scheduler x =>
      obtain ⟨r, hexec, heq⟩ := Option.map_eq_some_iff.mp h
      cases heq
      exact .scheduler hexec
    | tokenThrows =>
      cases i with
      | submit task => cases h; exact .tokenThrew task
      | _ => cases h
    | postThrows result =>
      cases i with
      | submit task => cases h; exact .postThrows task result
      | _ => cases h
    | next => cases h
  | postThrew task result =>
    cases x with
    | next => cases h; exact .postThrew task result
    | _ => cases h
  | erase id =>
    cases x with
    | next =>
      obtain ⟨-, heq⟩ := Option.ite_none_left_eq_some.mp h
      cases heq
      exact .erase id
    | _ => cases h
  | finishAgain =>
    cases x with
    | next =>
      obtain ⟨-, heq⟩ := Option.ite_none_left_eq_some.mp h
      cases heq
      exact .finishAgain
    | _ => cases h

theorem flatMap_scheduler (pushed : List Timer.Instr) :
    (pushed.map Instr.scheduler).flatMap Instr.toScheduler = pushed := by
  rw [List.flatMap_map]
  exact List.flatMap_singleton' pushed

theorem toScheduler_init (poolThreads threads : Nat) :
    toScheduler (init poolThreads threads) = Timer.init poolThreads threads := by
  simp only [toScheduler, Config.project, init, List.map_map, Function.comp_def,
    flatMap_scheduler, List.map_id']
  rfl

theorem stack_toScheduler (htop : c.stack t = i :: rest) :
    (toScheduler c).stack t = i.toScheduler ++ rest.flatMap Instr.toScheduler := by
  exact Config.stack_project_top _ _ htop

theorem toScheduler_replace (c : Config) (t : Nat) (s : Shared) (pushed rest : List Instr) :
    toScheduler (c.replace t s (pushed ++ rest)) =
      (toScheduler c).replace t s.scheduler
        (pushed.flatMap Instr.toScheduler ++ rest.flatMap Instr.toScheduler) := by
  exact Config.project_replace_append ..

theorem step_toScheduler {i : Timer.Instr} {x : Timer.Choice} {scheduler : Timer.Shared}
    {pushed : List Timer.Instr} (htop : c.stack t = .scheduler i :: rest)
    (hexec : i.exec t x c.shared.scheduler = some (scheduler, pushed))
    (hs : s.scheduler = scheduler) :
    Timer.machine.Step (toScheduler c) t i
      (toScheduler (c.replace t s (pushed.map .scheduler ++ rest))) := by
  rw [toScheduler_replace, flatMap_scheduler, hs]
  exact .exec (stack_toScheduler htop) hexec

theorem InFlight.congr {c c' : Timer.Config} (h : InFlight c) (hthreads : c'.threads = c.threads)
    (hpool : c'.shared.pool = c.shared.pool)
    (hcompletions : c'.shared.completions = c.shared.completions)
    (hsubmissions : c'.shared.submissions = c.shared.submissions)
    (hinFlight : c'.shared.inFlight = c.shared.inFlight) : InFlight c' := by
  have htotal (w : Timer.Instr → Nat) : c'.total w = c.total w := by
    rw [Config.total, hthreads, Config.total]
  refine ⟨fun n => ?_, ?_, ?_⟩
  · rw [htotal, hpool, hcompletions]
    exact h.refs n
  · rw [hcompletions, hsubmissions]
    exact h.fresh
  · rw [htotal, hcompletions, hinFlight]
    exact h.inFlight_eq

theorem inFlight_step (h : InFlight (toScheduler c)) (hcleans : Cleans c t i)
    (hstep : machine.Step c t i c') : InFlight (toScheduler c') := by
  obtain @⟨rest, x, s, pushed, htop, hexec⟩ := hstep
  have hstack := stack_toScheduler htop
  cases moves_of_exec (t := t) hexec with
  | scheduler exec => exact h.step (step_toScheduler htop exec rfl)
  | tokenThrew task =>
    rw [toScheduler_replace]
    exact h.keep hstack rfl rfl rfl rfl (fun _ => rfl) rfl
  | postThrows task result =>
    rw [toScheduler_replace]
    exact h.keep hstack rfl rfl rfl rfl (fun _ => rfl) rfl
  | postThrew task result => exact hcleans.elim
  | erase id => exact InFlight.congr h (Config.threads_project_replace htop rfl _) rfl rfl rfl rfl
  | finishAgain =>
    refine InFlight.congr h (Config.threads_project_replace htop rfl _) rfl rfl rfl ?_
    have hzero : c.shared.scheduler.inFlight = 0 := hcleans
    exact (congrArg (· - 1) hzero).trans hzero.symm

def ofWorker : Timer.Instr → Prop
  | .worker | .lockLoop | .loop | .waitTasks | .waitUntil _ _ | .popCancelled | .batch _
  | .submit _ | .rejected _ _ => True
  | _ => False

def Instr.ofWorker : Instr → Prop
  | .scheduler i => Failing.ofWorker i
  | _ => True

def Instr.cleans (id : TimerId) : Instr → Prop
  | .erase id' => id' = id
  | .scheduler (.rejected task _) => task.id = id
  | _ => False

theorem Instr.cleans.iterates {id : TimerId} (h : i.cleans id) : i.iterates = true := by
  cases i with
  | scheduler i => cases i <;> first | rfl | exact h.elim
  | _ => rfl

theorem ofWorker_of_moves {s s' : Timer.Shared} {i : Timer.Instr} {pushed : List Timer.Instr}
    (h : Timer.Moves s i s' pushed) : ∀ j ∈ pushed, ofWorker j → ofWorker i := by
  intro j hj hworker
  cases h <;> first | trivial | grind [ofWorker]

structure Cleaned (c : Config) : Prop where
  inFlight : InFlight (toScheduler c)
  only : ∀ t i, c.Active t i → i.ofWorker → t = 0
  cleaned : ∀ id ∈ c.shared.failed, c.shared.scheduler.states id = none ∨
    ∃ i, c.Active 0 i ∧ i.cleans id
  set : c.shared.uninitialised = false

theorem none_of_moves {l l' : Life} (h : ReflTransGen Life.Moves l l') (hnone : l.record = none) :
    l'.record = none := by
  induction h with
  | refl => exact hnone
  | tail _ hmoves ih => cases hmoves <;> first | rfl | exact ih | cases ih

theorem refused_cleaned {i : Timer.Instr} {x : Timer.Choice} {s s' : Timer.Shared}
    {pushed : List Timer.Instr} {id : TimerId} (hexec : i.exec t x s = some (s', pushed))
    (hrefuses : Instr.refuses i x s = some id) :
    ofWorker i ∧ (s'.states id = none ∨ ∃ j ∈ pushed, (Instr.scheduler j).cleans id) := by
  unfold Instr.refuses at hrefuses
  split at hrefuses
  · rename_i task rest
    refine ⟨trivial, .inl ?_⟩
    obtain ⟨-, heq⟩ := Option.ite_none_left_eq_some.mp hexec
    split at hrefuses
    · rename_i hnone
      cases hrefuses
      simp only [Timer.Instr.execBatch, hnone, Option.some.injEq, Prod.mk.injEq] at heq
      rw [← heq.1, hnone]
    · rename_i state hstate
      split at hrefuses
      · rename_i hrefused
        cases hrefuses
        simp only [Timer.Instr.execBatch, hstate, if_pos hrefused, Option.some.injEq,
          Prod.mk.injEq] at heq
        rw [← heq.1]
        exact Function.update_self ..
      · cases hrefuses
  · rename_i task
    cases hrefuses
    cases hexec
    exact ⟨trivial, .inr ⟨_, List.mem_singleton_self _, rfl⟩⟩
  · cases hrefuses

namespace Cleaned

theorem only_replace (h : Cleaned c) (htop : c.stack t = i :: rest)
    (hpushed : ∀ j ∈ pushed, j.ofWorker → i.ofWorker) :
    ∀ t' j, (c.replace t s (pushed ++ rest)).Active t' j → j.ofWorker → t' = 0 := by
  intro t' j hj hworker
  obtain ⟨rfl, hmem⟩ | hactive := Config.active_of_replace htop hj
  · exact h.only t' i (Config.active_of_top htop) (hpushed j hmem hworker)
  · exact h.only t' j hactive hworker

theorem cleaned_replace (h : Cleaned c) (htop : c.stack t = i :: rest) {id : TimerId}
    (hid : id ∈ c.shared.failed)
    (hnone : c.shared.scheduler.states id = none → s.scheduler.states id = none)
    (hi : i.cleans id → s.scheduler.states id = none) :
    s.scheduler.states id = none ∨
      ∃ j, (c.replace t s (pushed ++ rest)).Active 0 j ∧ j.cleans id := by
  obtain hstates | ⟨j, hactive, hcleans⟩ := h.cleaned id hid
  · exact .inl (hnone hstates)
  · obtain ⟨-, rfl⟩ | hkept := Config.active_replace htop s pushed hactive
    · exact .inl (hi hcleans)
    · exact .inr ⟨j, hkept, hcleans⟩

theorem step (h : Cleaned c) (hcleans : Cleans c t i) (hstep : machine.Step c t i c') :
    Cleaned c' := by
  have hinFlight := inFlight_step h.inFlight hcleans hstep
  obtain @⟨rest, x, s, pushed, htop, hexec⟩ := hstep
  have hactive := Config.active_of_top htop
  cases moves_of_exec (t := t) hexec with
  | @scheduler t' i x scheduler pushed exec =>
    have hmoves := Timer.moves_of_exec exec
    have hstep := step_toScheduler (s := { c.shared with scheduler := scheduler }) htop exec rfl
    refine ⟨hinFlight, h.only_replace htop fun j hj hworker => ?_, fun id hid => ?_, h.set⟩
    · obtain ⟨k, hk, rfl⟩ := List.mem_map.mp hj
      exact ofWorker_of_moves hmoves k hk hworker
    · obtain hrefused | hold := List.mem_append.mp hid
      · obtain ⟨hworker, hnone | ⟨j, hj, hj'⟩⟩ :=
          refused_cleaned exec (Option.mem_toList.mp hrefused)
        · exact .inl hnone
        · obtain rfl := h.only t _ hactive hworker
          exact .inr ⟨_, Config.active_replace_of_pushed htop _ (List.mem_map_of_mem hj), hj'⟩
      · obtain ⟨hid, hissues⟩ := List.mem_filter.mp hold
        refine h.cleaned_replace htop hid (fun hnone => ?_) fun hrejected => ?_
        · exact none_of_moves (life_step h.inFlight hstep (of_decide_eq_true hissues)) hnone
        · cases hmoves with
          | eraseRejected task completion =>
            rw [← (show task.id = id from hrejected)]
            exact Function.update_self ..
          | _ => exact hrejected.elim
  | tokenThrew task =>
    have ht := h.only t _ hactive trivial
    refine ⟨hinFlight, h.only_replace htop fun _ _ _ => trivial, fun id hid => ?_, h.set⟩
    obtain rfl | hid := List.mem_cons.mp hid
    · subst ht
      exact .inr ⟨.erase task.id, Config.active_replace_of_pushed htop _ (by simp), rfl⟩
    · exact h.cleaned_replace htop hid (fun hnone => hnone) False.elim
  | postThrows task result =>
    exact ⟨hinFlight, h.only_replace htop fun _ _ _ => trivial,
      fun id hid => h.cleaned_replace htop hid (fun hnone => hnone) False.elim, h.set⟩
  | postThrew task result => exact hcleans.elim
  | erase id' =>
    refine ⟨hinFlight, h.only_replace htop nofun, fun id hid => ?_, h.set⟩
    refine h.cleaned_replace htop hid (fun hnone => ?_) fun heq => ?_
    · by_cases heq : id = id'
      · exact heq ▸ Function.update_self ..
      · exact (Function.update_of_ne heq ..).trans hnone
    · exact heq ▸ Function.update_self ..
  | finishAgain =>
    exact ⟨hinFlight, h.only_replace htop nofun,
      fun id hid => h.cleaned_replace htop hid (fun hnone => hnone) False.elim, h.set⟩

theorem init (poolThreads threads : Nat) : Cleaned (init poolThreads threads) := by
  refine ⟨?_, fun t i hi hworker => ?_, nofun, rfl⟩
  · rw [toScheduler_init]
    exact InFlight.init poolThreads threads
  · cases t with
    | zero => rfl
    | succ t =>
      simp only [Failing.init, Timer.init, List.map_cons, List.map_append, List.map_replicate,
        List.map_nil] at hi
      obtain ⟨stack, hstack, hmem⟩ := Config.mem_threads_succ hi
      obtain hstack | hstack := List.mem_append.mp hstack <;>
        obtain ⟨-, rfl⟩ := List.mem_replicate.mp hstack <;>
        · rw [List.mem_singleton] at hmem
          subst hmem
          exact hworker.elim

end Cleaned

/-- However submissions fail, `in_flight` is the number of tokens, no unset result decides anything,
and between two iterations no timer whose submission has failed has a record. -/
theorem failures_cleaned {poolThreads threads : Nat}
    (hrun : machine.Run Cleans (init poolThreads threads) c) :
    c.shared.scheduler.inFlight = tokens c ∧ c.shared.uninitialised = false ∧
      (Between c → ∀ id ∈ c.shared.failed, c.shared.scheduler.states id = none) := by
  have h : Cleaned c :=
    hrun.invariant (.init poolThreads threads) fun hc hcleans hstep => hc.step hcleans hstep
  refine ⟨h.inFlight.inFlight_eq, h.set, fun hbetween id hid => ?_⟩
  refine (h.cleaned id hid).resolve_right ?_
  rintro ⟨i, hactive, hcleans⟩
  exact absurd (hcleans.iterates.symm.trans (hbetween i hactive)) nofun

def oneExpires : List (Nat × Choice) :=
  [(2, .scheduler (.call .start)), (2, .scheduler .next), (2, .scheduler .next),
    (2, .scheduler (.call (.scheduleAfter 5 (some 7)))), (2, .scheduler (.clock 0)),
    (2, .scheduler .next), (2, .scheduler .next), (0, .scheduler .next), (0, .scheduler .next),
    (0, .scheduler .next), (0, .scheduler (.clock 5)), (0, .scheduler .next)]

def tokenThrows : List (Nat × Choice) :=
  [(0, .tokenThrows), (0, .scheduler .next), (0, .next), (0, .next)]

theorem failures_cleaned_token :
    (machine.follow (init 1 1) (oneExpires ++ tokenThrows)).shared.scheduler.states 1 = none := by
  have hrun : machine.Run Cleans (init 1 1)
      (machine.follow (init 1 1) (oneExpires ++ tokenThrows)) :=
    Machine.run_follow (by decide)
  exact (failures_cleaned hrun).2.2 (by decide) 1 (by decide)

def twoExpire : List (Nat × Choice) :=
  [(2, .scheduler (.call .start)), (2, .scheduler .next), (2, .scheduler .next),
    (2, .scheduler (.call (.scheduleAfter 5 (some 7)))), (2, .scheduler (.clock 0)),
    (2, .scheduler .next), (2, .scheduler .next),
    (2, .scheduler (.call (.scheduleAfter 5 (some 8)))), (2, .scheduler (.clock 0)),
    (2, .scheduler .next), (2, .scheduler .next), (0, .scheduler .next), (0, .scheduler .next),
    (0, .scheduler .next), (0, .scheduler (.clock 5)), (0, .scheduler .next),
    (0, .scheduler .next), (0, .scheduler .next), (0, .scheduler .next)]

def postThrows : List (Nat × Choice) :=
  [(0, .postThrows .accepted), (0, .next), (0, .scheduler .next), (0, .scheduler .next),
    (0, .scheduler .next)]

/-- The second token cannot be made while the first timer is in flight; and the one timer's record
stays when `try_post` throws and the unset result says that it has accepted. -/
theorem failures_left : (∃ c, machine.Reaches (init 1 1) c ∧ Between c ∧
      c.shared.scheduler.inFlight = 0 ∧ tokens c = 1) ∧
    ∃ c, machine.Reaches (init 1 1) c ∧ Between c ∧ c.shared.uninitialised = true ∧
      1 ∈ c.shared.failed ∧ c.shared.scheduler.states 1 = some .submitted :=
  ⟨⟨_, Machine.reaches_follow (twoExpire ++ tokenThrows), by decide, by decide,
    by decide⟩, _, Machine.reaches_follow (oneExpires ++ postThrows), by decide,
    by decide, by decide, by decide⟩

end UnixNotes.Timer.Failing
