import UnixNotes.Timer.Clocked

namespace UnixNotes.Timer.Clocked

open Library

namespace Event

def about : Event → Option Nat
  | .scheduled callback _ _ | .started callback _ | .finished callback _ => some callback
  | .collected | .submitted _ => none

def time : Event → Option Int
  | .scheduled _ time _ | .started _ time | .finished _ time => some time
  | .collected | .submitted _ => none

end Event

def Fresh (log : List Event) (callback : Nat) : Prop := ∀ e ∈ log, e.about ≠ some callback

structure Asked (log : List Event) (callback : Nat) (time delay : Int) : Prop where
  scheduled : .scheduled callback time delay ∈ log
  once : ∀ {time' delay'}, .scheduled callback time' delay' ∈ log → time' = time ∧ delay' = delay

def Known (log : List Event) (task : TimerTask) : Prop :=
  ∃ time delay, Asked log task.callback time delay ∧ (task.repeated = true → task.interval = delay)

/-- The timer expires as late as it has to. -/
def Due (log : List Event) (task : TimerTask) : Prop :=
  ∃ time delay, Asked log task.callback time delay ∧
    (task.repeated = true → task.interval = delay) ∧ time + delay ≤ task.expiration ∧
    ∀ time', .finished task.callback time' ∈ log → time' + delay ≤ task.expiration

def Ripe (log : List Event) (now : Int) (task : TimerTask) : Prop :=
  Due log task ∧ task.expiration ≤ now

/-- The closure may be run now. -/
def OnTime (log : List Event) (callback : Nat) (now : Int) : Prop :=
  ∃ time delay, Asked log callback time delay ∧ time + delay ≤ now ∧
    ∀ time', .finished callback time' ∈ log → time' + delay ≤ now

def Punctual : List Event → Prop
  | [] => True
  | .started callback time :: log => OnTime log callback time ∧ Punctual log
  | _ :: log => Punctual log

section Log

variable {log : List Event} {e : Event} {task : TimerTask} {callback : Nat} {now : Int}

theorem Fresh.grow (h : Fresh log callback) (hne : e.about ≠ some callback) :
    Fresh (e :: log) callback := by
  rintro e' (_ | ⟨_, hmem⟩)
  · exact hne
  · exact h e' hmem

theorem Asked.grow {time delay : Int} (h : Asked log callback time delay)
    (hne : e.about ≠ some callback) : Asked (e :: log) callback time delay := by
  refine ⟨List.mem_cons_of_mem e h.scheduled, ?_⟩
  rintro time' delay' (_ | ⟨_, hmem⟩)
  · exact absurd rfl hne
  · exact h.once hmem

theorem Asked.run {time delay : Int} (h : Asked log callback time delay)
    (hrun : ∀ time delay, e ≠ .scheduled callback time delay) :
    Asked (e :: log) callback time delay := by
  refine ⟨List.mem_cons_of_mem e h.scheduled, ?_⟩
  rintro time' delay' (_ | ⟨_, hmem⟩)
  · exact absurd rfl (hrun time' delay')
  · exact h.once hmem

theorem Asked.first {time delay : Int} (h : Fresh log callback) :
    Asked (.scheduled callback time delay :: log) callback time delay := by
  refine ⟨List.mem_cons_self .., ?_⟩
  rintro time' delay' (_ | ⟨_, hmem⟩)
  · exact ⟨rfl, rfl⟩
  · exact absurd rfl (h _ hmem)

theorem Known.grow (h : Known log task) (hne : e.about ≠ some task.callback) :
    Known (e :: log) task := by
  obtain ⟨time, delay, hasked, hinterval⟩ := h
  exact ⟨time, delay, hasked.grow hne, hinterval⟩

theorem Known.run (h : Known log task)
    (hrun : ∀ time delay, e ≠ .scheduled task.callback time delay) : Known (e :: log) task := by
  obtain ⟨time, delay, hasked, hinterval⟩ := h
  exact ⟨time, delay, hasked.run hrun, hinterval⟩

theorem Due.grow (h : Due log task) (hne : e.about ≠ some task.callback) : Due (e :: log) task := by
  obtain ⟨time, delay, hasked, hinterval, hle, hfinished⟩ := h
  refine ⟨time, delay, hasked.grow hne, hinterval, hle, ?_⟩
  rintro time' (_ | ⟨_, hmem⟩)
  · exact absurd rfl hne
  · exact hfinished time' hmem

theorem Due.known (h : Due log task) : Known log task := by
  obtain ⟨time, delay, hasked, hinterval, -⟩ := h
  exact ⟨time, delay, hasked, hinterval⟩

theorem Ripe.onTime (h : Ripe log now task) : OnTime log task.callback now := by
  obtain ⟨⟨time, delay, hasked, -, hle, hfinished⟩, hexpired⟩ := h
  exact ⟨time, delay, hasked, hle.trans hexpired,
    fun time' hmem => (hfinished time' hmem).trans hexpired⟩

theorem Due.first {id : TimerId} {delay interval : Int} {repeated : Bool}
    (h : Fresh log callback) (hinterval : repeated = true → interval = delay) :
    Due (.scheduled callback now delay :: log)
      ⟨id, now + delay, interval, repeated, callback⟩ := by
  refine ⟨now, delay, .first h, hinterval, le_rfl, ?_⟩
  rintro time' (_ | ⟨_, hmem⟩)
  exact absurd rfl (h _ hmem)

theorem Known.again (h : Known log task) (hrepeated : task.repeated = true)
    (hpast : ∀ e ∈ log, ∀ time ∈ e.time, time ≤ now) :
    Due log { task with expiration := now + task.interval, repeated := true } := by
  obtain ⟨time, delay, hasked, hinterval⟩ := h
  have heq := hinterval hrepeated
  have hscheduled := hpast _ hasked.scheduled time rfl
  refine ⟨time, delay, hasked, fun _ => heq, ?_, fun time' hmem => ?_⟩
  · dsimp only
    omega
  · have hfinished := hpast _ hmem time' rfl
    dsimp only
    omega

theorem Punctual.onTime {after before : List Event} {time : Int}
    (h : Punctual (after ++ .started callback time :: before)) : OnTime before callback time := by
  induction after with
  | nil => exact h.1
  | cons e after ih =>
    cases e with
    | started => exact ih h.2
    | _ => exact ih h

end Log

namespace Instr

def carries (callback : Nat) : Instr → Nat
  | .scheduler (.call operation _) => if operation.callback = some callback then 1 else 0
  | .scheduler (.schedule _ _ _ callback') => if callback' = callback then 1 else 0
  | .scheduler (.batch ready) => ready.countP fun task => task.callback = callback
  | .scheduler (.submit task) => if task.callback = callback then 1 else 0
  | .scheduler (.enter w) | .scheduler (.startCallback w) | .scheduler (.runCallback w)
  | .scheduler (.leave w) =>
    if w.task.callback = callback then 1 else 0
  | _ => 0

end Instr

def carriers (c : Config) (callback : Nat) : Nat :=
  (c.shared.scheduler.tasks.countP fun task => task.callback = callback) +
    (c.shared.scheduler.pool.countP fun w => w.task.callback = callback) +
    c.total (Instr.carries callback)

/-- The timer that the instruction carries is as far as it may be. -/
def Good (log : List Event) (now : Int) : Instr → Prop
  | .scheduler (.call operation _) => ∀ callback ∈ operation.callback, Fresh log callback
  | .scheduler (.schedule expiration interval repeated callback) =>
    Due log ⟨0, expiration, interval, repeated, callback⟩
  | .scheduler (.batch ready) => ∀ task ∈ ready, Ripe log now task
  | .scheduler (.submit task) => Ripe log now task
  | .scheduler (.enter w) | .scheduler (.startCallback w) => Ripe log now w.task
  | .scheduler (.runCallback w) | .scheduler (.leave w) => Known log w.task
  | _ => True

section Good

variable {log : List Event} {e : Event} {now now' : Int} {i : Instr}

theorem Good.later (h : Good log now i) (hle : now ≤ now') : Good log now' i := by
  cases i with
  | clock => trivial
  | scheduler i =>
    cases i with
    | batch ready => exact fun task hmem => ⟨(h task hmem).1, (h task hmem).2.trans hle⟩
    | submit task => exact ⟨h.1, h.2.trans hle⟩
    | enter w | startCallback w => exact ⟨h.1, h.2.trans hle⟩
    | _ => exact h

theorem Good.grow (h : Good log now i)
    (hother : ∀ callback, e.about = some callback → i.carries callback = 0) :
    Good (e :: log) now i := by
  cases i with
  | clock => trivial
  | scheduler i =>
    cases i with
    | call operation inside =>
      refine fun callback hmem => (h callback hmem).grow fun habout => ?_
      simpa [Instr.carries, Option.mem_def.mp hmem] using hother callback habout
    | schedule expiration interval repeated callback =>
      refine Due.grow h fun habout => ?_
      simpa [Instr.carries] using hother callback habout
    | batch ready =>
      refine fun task hmem => ⟨(h task hmem).1.grow fun habout => ?_, (h task hmem).2⟩
      have hnone := List.countP_eq_zero.mp (hother task.callback habout) task hmem
      simp at hnone
    | submit task =>
      refine ⟨h.1.grow fun habout => ?_, h.2⟩
      simpa [Instr.carries] using hother task.callback habout
    | enter w | startCallback w =>
      refine ⟨h.1.grow fun habout => ?_, h.2⟩
      simpa [Instr.carries] using hother w.task.callback habout
    | runCallback w | leave w =>
      refine Known.grow h fun habout => ?_
      simpa [Instr.carries] using hother w.task.callback habout
    | _ => trivial

end Good

structure Timed (c : Config) : Prop where
  past : ∀ e ∈ c.shared.log, ∀ time ∈ e.time, time ≤ c.shared.now
  fresh : ∀ callback, c.shared.closures ≤ callback → Fresh c.shared.log callback
  one : ∀ callback, carriers c callback ≤ if callback < c.shared.closures then 1 else 0
  due : ∀ task ∈ c.shared.scheduler.tasks, Due c.shared.log task
  ripe : ∀ w ∈ c.shared.scheduler.pool, Ripe c.shared.log c.shared.now w.task
  good : ∀ t i, c.Active t i → Good c.shared.log c.shared.now i
  punctual : Punctual c.shared.log

structure Advance (s : Shared) (i : Instr) (s' : Shared) (pushed : List Instr)
    (event : Option Event) : Prop where
  log : s'.log = event.toList ++ s.log
  now : s.now ≤ s'.now
  closures : s.closures ≤ s'.closures
  carried : ∀ e ∈ event, ∀ callback, e.about = some callback → i.carries callback = 1
  past : ∀ e ∈ event, ∀ time ∈ e.time, time ≤ s'.now
  one : ∀ callback,
    (s'.scheduler.tasks.countP fun task => task.callback = callback) +
        (s'.scheduler.pool.countP fun w => w.task.callback = callback) +
        Config.weigh (Instr.carries callback) pushed ≤
      (s.scheduler.tasks.countP fun task => task.callback = callback) +
        (s.scheduler.pool.countP fun w => w.task.callback = callback) + i.carries callback +
        if s.closures ≤ callback ∧ callback < s'.closures then 1 else 0

section Init

theorem idle_of_init {now : Int} {poolThreads threads t : Nat} {i : Instr}
    (h : (init now poolThreads threads).Active t i) : i = .clock ∨ i = .scheduler .worker ∨
      i = .scheduler .poolWorker ∨ i = .scheduler .user := by
  obtain ⟨stack, hstack, hi⟩ := Config.mem_threads h
  obtain hstack | hstack := List.mem_append.mp hstack
  · obtain ⟨stack, hmem, rfl⟩ := List.mem_map.mp hstack
    obtain ⟨j, hj, rfl⟩ := List.mem_map.mp hi
    obtain ⟨t, hactive⟩ := Config.exists_active.mpr ⟨stack, hmem, hj⟩
    obtain rfl | rfl | rfl := eq_of_init hactive
    · exact .inr (.inl rfl)
    · exact .inr (.inr (.inl rfl))
    · exact .inr (.inr (.inr rfl))
  · rw [List.mem_singleton] at hstack
    subst hstack
    exact .inl (List.mem_singleton.mp hi)

theorem Timed.init (now : Int) (poolThreads threads : Nat) :
    Timed (init now poolThreads threads) := by
  refine ⟨nofun, fun _ _ => nofun,
    fun callback => ?_, nofun, nofun, fun t i hactive => ?_, trivial⟩
  · have hnone : (Clocked.init now poolThreads threads).total (Instr.carries callback) = 0 := by
      refine Config.total_eq_zero fun t i hactive => ?_
      obtain rfl | rfl | rfl | rfl := idle_of_init hactive <;> rfl
    rw [carriers, hnone]
    exact Nat.zero_le _
  · obtain rfl | rfl | rfl | rfl := idle_of_init hactive <;> trivial

end Init

section Step

variable {c c' : Config} {t : Nat} {i : Instr} {rest pushed : List Instr} {s : Shared}
  {event : Option Event}

theorem Timed.about_ne (h : Timed c) (htop : c.stack t = i :: rest)
    (hadvance : Advance c.shared i s pushed event) {e : Event} (hevent : e ∈ event)
    {callback : Nat} (hcarried : 0 < (c.shared.scheduler.tasks.countP fun task =>
        task.callback = callback) + (c.shared.scheduler.pool.countP fun w =>
        w.task.callback = callback)) : e.about ≠ some callback := by
  intro habout
  have hi := hadvance.carried e hevent callback habout
  have hle := Config.le_total (w := Instr.carries callback) (Config.active_of_top htop)
  have hone := h.one callback
  have : (if callback < c.shared.closures then 1 else 0) ≤ 1 := by split <;> omega
  rw [carriers] at hone
  omega

theorem Timed.advance (h : Timed c) (htop : c.stack t = i :: rest)
    (hadvance : Advance c.shared i s pushed event)
    (hdue : ∀ task ∈ s.scheduler.tasks, task ∈ c.shared.scheduler.tasks ∨ Due s.log task)
    (hripe : ∀ w ∈ s.scheduler.pool, w ∈ c.shared.scheduler.pool ∨ Ripe s.log s.now w.task)
    (hgood : ∀ j ∈ pushed, Good s.log s.now j) (hpunctual : Punctual s.log) :
    Timed (c.replace t s (pushed ++ rest)) := by
  have hgrown : ∀ e ∈ s.log, e ∈ event ∨ e ∈ c.shared.log := fun e hmem => by
    rw [hadvance.log, List.mem_append, Option.mem_toList] at hmem
    exact hmem
  have hgrow (P : List Event → Prop) (hold : P c.shared.log)
      (hnew : ∀ e ∈ event, P (e :: c.shared.log)) : P s.log := by
    rw [hadvance.log]
    cases event with
    | none => exact hold
    | some e => exact hnew e rfl
  refine ⟨?_, ?_, ?_, ?_, ?_, ?_, hpunctual⟩
  · intro e hmem time htime
    obtain hnew | hold := hgrown e hmem
    · exact hadvance.past e hnew time htime
    · exact (h.past e hold time htime).trans hadvance.now
  · intro callback hle e hmem
    obtain hnew | hold := hgrown e hmem
    · intro habout
      have hi := hadvance.carried e hnew callback habout
      have hle' := Config.le_total (w := Instr.carries callback) (Config.active_of_top htop)
      have hone := h.one callback
      have hclosures := hadvance.closures
      rw [carriers, if_neg (by simp only [Config.shared_replace] at hle; omega)] at hone
      omega
    · exact h.fresh callback (hadvance.closures.trans hle) e hold
  · intro callback
    have htotal := Config.total_replace (Instr.carries callback) htop s pushed
    have hone := h.one callback
    have hstep := hadvance.one callback
    have hclosures := hadvance.closures
    rw [carriers] at hone ⊢
    rw [Config.shared_replace]
    have hroom : ((if callback < c.shared.closures then 1 else 0) +
        if c.shared.closures ≤ callback ∧ callback < s.closures then 1 else 0) ≤
          if callback < s.closures then 1 else 0 := by
      split_ifs <;> omega
    omega
  · intro task hmem
    obtain hold | hnew := hdue task hmem
    · have hpos : 0 < c.shared.scheduler.tasks.countP fun task' =>
          task'.callback = task.callback := List.countP_pos_iff.mpr ⟨task, hold, by simp⟩
      refine hgrow (Due · task) (h.due task hold) fun e hevent => ?_
      exact (h.due task hold).grow (h.about_ne htop hadvance hevent (by omega))
    · exact hnew
  · intro w hmem
    obtain hold | hnew := hripe w hmem
    · have hpos : 0 < c.shared.scheduler.pool.countP fun w' =>
          w'.task.callback = w.task.callback := List.countP_pos_iff.mpr ⟨w, hold, by simp⟩
      obtain ⟨hw, hexpired⟩ := h.ripe w hold
      refine ⟨hgrow (Due · w.task) hw fun e hevent => ?_, hexpired.trans hadvance.now⟩
      exact hw.grow (h.about_ne htop hadvance hevent (by omega))
    · exact hnew
  · intro t' j hj
    by_cases hmem : j ∈ pushed
    · exact hgood j hmem
    · have hold := (Config.active_of_replace htop hj).resolve_left fun hpushed => hmem hpushed.2
      have hlater := (h.good t' j hold).later hadvance.now
      refine hgrow (Good · s.now j) hlater fun e hevent => hlater.grow fun callback habout => ?_
      have hi := hadvance.carried e hevent callback habout
      have hle := Config.weigh_add_le_total (w := Instr.carries callback) htop hj hmem
      have hone := h.one callback
      have : (if callback < c.shared.closures then 1 else 0) ≤ 1 := by split <;> omega
      rw [carriers] at hone
      omega

theorem plus_eq {time duration : Int} (h : Representable (time + duration)) :
    plus time duration = time + duration :=
  Int.bmod_eq_of_le h.1 h.2

theorem free_of {j : Timer.Instr} (h : Free j) :
    (∀ callback, Instr.carries callback (.scheduler j) = 0) ∧
      ∀ log now, Good log now (.scheduler j) := by
  cases j with
  | call operation inside =>
    have hnone : operation.callback = none := h
    refine ⟨fun callback => ?_, fun log now callback hmem => ?_⟩
    · simp [Instr.carries, hnone]
    · rw [hnone] at hmem
      cases hmem
  | schedule | batch | submit | enter | startCallback | runCallback | leave => exact h.elim
  | _ => exact ⟨fun _ => rfl, fun _ _ => trivial⟩

theorem countP_push (callback : Nat) (task : TimerTask) (tasks : List TimerTask) :
    (tasks.orderedInsert TimerTask.Before task).countP (fun task => task.callback = callback) =
      (tasks.countP fun task => task.callback = callback) +
        if task.callback = callback then 1 else 0 := by
  rw [(List.perm_orderedInsert _ task tasks).countP_eq, List.countP_cons]
  simp

theorem Moves.advance {s s' : Shared} (h : Moves s i s' pushed) :
    ∃ event, Advance s i s' pushed event := by
  cases h with
  | elapse ticks =>
    refine ⟨none, rfl, ?_, le_rfl, nofun, nofun, fun callback => Nat.le_add_right _ _⟩
    dsimp only
    omega
  | @call j operation inside caller own =>
    refine ⟨none, rfl, le_rfl, Nat.le_add_right _ _, nofun, nofun, fun callback => ?_⟩
    by_cases hmem : operation.callback = some callback
    · have hcallback := own callback hmem
      simp [Instr.carries, hmem, hcallback]
      omega
    · simp [Instr.carries, hmem]
  | @after delay callback =>
    refine ⟨some (.scheduled callback s.now delay), rfl, le_rfl, le_rfl, ?_, ?_, fun callback' => ?_⟩
    · rintro e ⟨⟩ callback' ⟨⟩
      exact if_pos rfl
    · rintro e ⟨⟩ time ⟨⟩
      exact le_rfl
    · simp [Instr.carries, Operation.callback]
  | @every interval callback =>
    refine ⟨some (.scheduled callback s.now interval), rfl, le_rfl, le_rfl, ?_, ?_,
      fun callback' => ?_⟩
    · rintro e ⟨⟩ callback' ⟨⟩
      exact if_pos rfl
    · rintro e ⟨⟩ time ⟨⟩
      exact le_rfl
    · simp [Instr.carries, Operation.callback]
  | schedule pool tasks =>
    refine ⟨none, rfl, le_rfl, le_rfl, nofun, nofun, fun callback => ?_⟩
    simp only [tasks, pool, countP_push]
    simp [Instr.carries]
    omega
  | collect pool tasks =>
    refine ⟨some .collected, rfl, le_rfl, le_rfl, ?_, ?_, fun callback => ?_⟩
    · rintro e ⟨⟩ callback ⟨⟩
    · rintro e ⟨⟩ time ⟨⟩
    · have hsub := (sublist_collect s.now s.scheduler.tasks s.scheduler.states).1
      have hle := hsub.countP_le (p := fun task => task.callback = callback)
      rw [List.countP_append] at hle
      simp only [tasks, pool, Config.weigh_cons, Config.weigh_nil, Instr.carries]
      omega
  | skip pool tasks =>
    refine ⟨none, rfl, le_rfl, le_rfl, nofun, nofun, fun callback => ?_⟩
    simp only [tasks, pool, Config.weigh_cons, Config.weigh_nil, Instr.carries, List.countP_cons]
    omega
  | pass pool tasks =>
    refine ⟨none, rfl, le_rfl, le_rfl, nofun, nofun, fun callback => ?_⟩
    simp only [tasks, pool, Config.weigh_cons, Config.weigh_nil, Instr.carries, List.countP_cons,
      decide_eq_true_eq]
    omega
  | @accept task completion scheduler pool tasks =>
    refine ⟨some (.submitted task), rfl, le_rfl, le_rfl, ?_, ?_, fun callback => ?_⟩
    · rintro e ⟨⟩ callback ⟨⟩
    · rintro e ⟨⟩ time ⟨⟩
    · simp only [tasks, pool, Config.weigh_cons, Config.weigh_nil, Instr.carries,
        List.countP_append, List.countP_singleton, decide_eq_true_eq]
      omega
  | @reject task completion scheduler pool tasks =>
    refine ⟨some (.submitted task), rfl, le_rfl, le_rfl, ?_, ?_, fun callback => ?_⟩
    · rintro e ⟨⟩ callback ⟨⟩
    · rintro e ⟨⟩ time ⟨⟩
    · simp only [tasks, pool, Config.weigh_cons, Config.weigh_nil, Instr.carries]
      omega
  | @run index w scheduler queued pool tasks =>
    obtain ⟨hlt, hget⟩ := List.getElem?_eq_some_iff.mp queued
    have hperm := List.getElem_cons_eraseIdx_perm hlt
    rw [hget] at hperm
    refine ⟨none, rfl, le_rfl, le_rfl, nofun, nofun, fun callback => ?_⟩
    have hcount := hperm.countP_eq fun w => w.task.callback = callback
    simp only [List.countP_cons, decide_eq_true_eq] at hcount
    simp only [tasks, pool, Config.weigh_cons, Config.weigh_nil, Instr.carries]
    omega
  | @enter w scheduler pool tasks =>
    refine ⟨none, rfl, le_rfl, le_rfl, nofun, nofun, fun callback => ?_⟩
    simp only [tasks, pool, Config.weigh_cons, Config.weigh_nil, Instr.carries]
    omega
  | @start w scheduler pool tasks =>
    refine ⟨some (.started w.task.callback s.now), rfl, le_rfl, le_rfl, ?_, ?_, fun callback => ?_⟩
    · rintro e ⟨⟩ callback ⟨⟩
      exact if_pos rfl
    · rintro e ⟨⟩ time ⟨⟩
      exact le_rfl
    · simp only [tasks, pool, Config.weigh_cons, Config.weigh_nil, Instr.carries]
      omega
  | finish w =>
    refine ⟨some (.finished w.task.callback s.now), rfl, le_rfl, le_rfl, ?_, ?_, fun callback => ?_⟩
    · rintro e ⟨⟩ callback ⟨⟩
      exact if_pos rfl
    · rintro e ⟨⟩ time ⟨⟩
      exact le_rfl
    · simp only [Config.weigh_cons, Config.weigh_nil, Instr.carries]
      omega
  | again executing repeated running pool tasks =>
    refine ⟨none, rfl, le_rfl, le_rfl, nofun, nofun, fun callback => ?_⟩
    simp only [tasks, pool, countP_push]
    simp [Instr.carries]
    omega
  | @other j scheduler pushed pool tasks free =>
    refine ⟨none, rfl, le_rfl, le_rfl, nofun, nofun, fun callback => ?_⟩
    have hle := tasks.countP_le (p := fun task => task.callback = callback)
    have hnone : Config.weigh (Instr.carries callback) (pushed.map Instr.scheduler) = 0 := by
      refine Config.weigh_eq_zero fun k hmem => ?_
      obtain ⟨k, hpushed, rfl⟩ := List.mem_map.mp hmem
      exact (free_of (free k hpushed)).1 callback
    simp only [pool, hnone]
    omega

theorem Timed.step (h : Timed c) (hfits : Fits c t i) (hstep : machine.Step c t i c') :
    Timed c' := by
  obtain @⟨rest, x, s, pushed, htop, hexec⟩ := hstep
  have hi := h.good t i (Config.active_of_top htop)
  have hmoves := moves_of_exec (t := t) hexec
  obtain ⟨event, hadvance⟩ := hmoves.advance
  cases hmoves with
  | elapse ticks =>
    exact h.advance htop hadvance (fun _ => .inl) (fun _ => .inl) (by simp [Good]) h.punctual
  | @call j operation inside caller own =>
    refine h.advance htop hadvance (fun _ => .inl) (fun _ => .inl) ?_ h.punctual
    rintro k (_ | ⟨_, _ | ⟨_, hnil⟩⟩)
    · exact fun callback hmem => h.fresh callback (own callback hmem).ge
    · exact hi
    · cases hnil
  | @after delay callback inside accepted =>
    refine h.advance htop hadvance (fun _ => .inl) (fun _ => .inl) ?_ h.punctual
    rintro j (_ | ⟨_, hnil⟩)
    · rw [plus_eq (hfits _ (by simp [Instr.sum, accepted]))]
      exact Due.first (hi callback rfl) nofun
    · cases hnil
  | @every interval callback inside accepted =>
    refine h.advance htop hadvance (fun _ => .inl) (fun _ => .inl) ?_ h.punctual
    rintro j (_ | ⟨_, hnil⟩)
    · rw [plus_eq (hfits _ (by simp [Instr.sum, accepted]))]
      exact Due.first (hi callback rfl) fun _ => rfl
    · cases hnil
  | schedule pool tasks =>
    refine h.advance htop hadvance (fun task hmem => ?_) (pool ▸ fun _ => .inl) ?_ h.punctual
    · rw [tasks, List.mem_orderedInsert] at hmem
      obtain rfl | hmem := hmem
      · exact .inr hi
      · exact .inl hmem
    · simp [Good]
  | collect pool tasks =>
    obtain ⟨hsub, hexpired⟩ :=
      sublist_collect c.shared.now c.shared.scheduler.tasks c.shared.scheduler.states
    refine h.advance htop hadvance (fun task hmem => ?_) (pool ▸ fun _ => .inl) ?_ h.punctual
    · rw [tasks] at hmem
      exact .inl (hsub.subset (List.mem_append_right _ hmem))
    · rintro j (_ | ⟨_, hnil⟩)
      · intro task hmem
        have hdue := h.due task (hsub.subset (List.mem_append_left _ hmem))
        exact ⟨hdue.grow nofun, hexpired task hmem⟩
      · cases hnil
  | skip pool tasks =>
    refine h.advance htop hadvance (tasks ▸ fun _ => .inl) (pool ▸ fun _ => .inl) ?_ h.punctual
    rintro j (_ | ⟨_, hnil⟩)
    · exact fun task hmem => hi task (List.mem_cons_of_mem _ hmem)
    · cases hnil
  | @pass task ready scheduler pool tasks =>
    refine h.advance htop hadvance (tasks ▸ fun _ => .inl) (pool ▸ fun _ => .inl) ?_ h.punctual
    rintro j (_ | ⟨_, _ | ⟨_, hnil⟩⟩)
    · exact hi task (List.mem_cons_self ..)
    · exact fun task hmem => hi task (List.mem_cons_of_mem _ hmem)
    · cases hnil
  | accept pool tasks =>
    refine h.advance htop hadvance (tasks ▸ fun _ => .inl) (fun w hmem => ?_) ?_ h.punctual
    · rw [pool, List.mem_append, List.mem_singleton] at hmem
      obtain hmem | rfl := hmem
      · exact .inl hmem
      · exact .inr ⟨hi.1.grow nofun, hi.2⟩
    · simp [Good]
  | reject pool tasks =>
    refine h.advance htop hadvance (tasks ▸ fun _ => .inl) (pool ▸ fun _ => .inl) ?_ h.punctual
    simp [Good]
  | @run index w scheduler queued pool tasks =>
    refine h.advance htop hadvance (tasks ▸ fun _ => .inl) (fun w' hmem => ?_) ?_ h.punctual
    · rw [pool] at hmem
      exact .inl (List.mem_of_mem_eraseIdx hmem)
    · rintro j (_ | ⟨_, _ | ⟨_, hnil⟩⟩)
      · exact h.ripe w (List.mem_of_getElem? queued)
      · trivial
      · cases hnil
  | enter pool tasks =>
    refine h.advance htop hadvance (tasks ▸ fun _ => .inl) (pool ▸ fun _ => .inl) ?_ h.punctual
    rintro j (_ | ⟨_, hnil⟩)
    · exact hi
    · cases hnil
  | start pool tasks =>
    refine h.advance htop hadvance (tasks ▸ fun _ => .inl) (pool ▸ fun _ => .inl) ?_
      ⟨Ripe.onTime hi, h.punctual⟩
    rintro j (_ | ⟨_, hnil⟩)
    · exact hi.1.known.run nofun
    · cases hnil
  | finish w =>
    refine h.advance htop hadvance (fun _ => .inl) (fun _ => .inl) ?_ h.punctual
    rintro j (_ | ⟨_, hnil⟩)
    · exact Known.run hi nofun
    · cases hnil
  | again executing repeated running pool tasks =>
    rw [plus_eq (hfits _ (by simp [Instr.sum, executing, repeated, running]))] at tasks
    refine h.advance htop hadvance (fun task hmem => ?_) (pool ▸ fun _ => .inl) ?_ h.punctual
    · rw [tasks, List.mem_orderedInsert] at hmem
      obtain rfl | hmem := hmem
      · exact .inr (Known.again hi repeated h.past)
      · exact .inl hmem
    · simp [Good]
  | other pool tasks free =>
    refine h.advance htop hadvance (fun task hmem => .inl (tasks.subset hmem))
      (pool ▸ fun _ => .inl) (fun k hmem => ?_) h.punctual
    obtain ⟨k, hpushed, rfl⟩ := List.mem_map.mp hmem
    exact (free_of (free k hpushed)).2 _ _

end Step

end UnixNotes.Timer.Clocked
