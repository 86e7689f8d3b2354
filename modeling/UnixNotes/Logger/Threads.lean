import UnixNotes.Logger.Frames

namespace UnixNotes.Logger.AsyncLogger

open Library

def Part.pushes : Part → Part → Bool
  | .user, .user => true
  | .user, .log => true
  | .user, .flush => true
  | .user, .stop => true
  | .log, .log => true
  | .log, .flush => true
  | .log, .sync => true
  | .flush, .flush => true
  | .flush, .sync => true
  | .stop, .stop => true
  | .stop, .sync => true
  | .sync, .sync => true
  | .worker, .worker => true
  | .worker, .sync => true
  | _, _ => false

/-- Thread 0 is the worker. -/
def Part.Allowed (t : Nat) : Part → Prop
  | .sync => True
  | .worker => t = 0
  | _ => t ≠ 0

theorem Part.Allowed.of_pushes {t : Nat} {p q : Part} (hp : p.Allowed t) (h : p.pushes q = true) :
    q.Allowed t := by
  cases p <;> cases q <;> first | exact hp | trivial

/-- How far a call of `log` is on its way past the two checks of the state. -/
inductive Phase where
  | entering
  | counted
  | admitted
  | leaving

namespace Instr

def phase : Instr → Option Phase
  | .log _ | .loadRunning _ | .enterProducer _ => some .entering
  | .reloadRunning _ => some .counted
  | .buildRecord _ | .countPending _ _ | .tryEnqueue _ _ _ _ | .uncountPending _ _ | .countDropped
  | .spaceState _ _ | .spaceProduced _ _ | .spaceConsumed _ _ _ | .spaceLeft _ _
  | .countAccepted _ _ _ _ => some .admitted
  | .finishProducer => some .leaving
  | _ => none

def logging (i : Instr) : Nat :=
  match i.phase with
  | none => 0
  | some _ => 1

def producing (i : Instr) : Nat :=
  match i.phase with
  | none => 0
  | some .entering => 0
  | some _ => 1

def admitted (i : Instr) : Nat :=
  match i.phase with
  | some .admitted => 1
  | _ => 0

def working (i : Instr) : Nat :=
  match i.part with
  | .worker => 1
  | _ => 0

/-- Positions of the ring that are claimed and not accepted yet. -/
def claiming : Instr → Nat
  | .tryEnqueue _ passed _ call => (call.claims passed).length
  | .countAccepted _ _ _ _ => 1
  | _ => 0

def pending : Instr → Nat
  | .tryEnqueue _ passed _ call => 1 - (call.claims passed).length
  | .uncountPending _ _ => 1
  | .tryDequeue _ call => call.takes.length
  | .uncountTaken _ => 1
  | _ => 0

def call? : Instr → Option (RingCall LogRecord)
  | .tryEnqueue _ _ _ call => some call
  | .tryDequeue _ call => some call
  | _ => none

structure Plain (i : Instr) : Prop where
  call : i.call? = none
  producing : i.producing = 0
  admitted : i.admitted = 0
  claiming : i.claiming = 0
  pending : i.pending = 0

theorem plain_of_part {i : Instr} (hlog : i.part ≠ .log) (hworker : i.part ≠ .worker) :
    i.Plain := by
  cases i
  all_goals
    first
      | exact absurd rfl hlog
      | exact absurd rfl hworker
      | exact ⟨rfl, rfl, rfl, rfl, rfl⟩

def CallOk : Instr → Prop
  | .tryEnqueue _ passed _ call => call.dequeues = false ∧ call.Carries passed
  | .tryDequeue _ call => call.dequeues = true
  | _ => True

theorem callOk_of_all {pushed : List Instr} (h : (pushed.all fun j => j.call?.isNone) = true) :
    ∀ j ∈ pushed, j.CallOk := by
  intro j hj
  have hnone := List.all_eq_true.mp h j hj
  cases j <;> trivial

theorem callOk_of_plain {i : Instr} (h : i.Plain) : i.CallOk := by
  have hnone := h.call
  cases i <;> trivial

def Ok (t : Nat) (i : Instr) : Prop := i.part.Allowed t ∧ i.CallOk

end Instr

section Exec

variable {t : Nat} {i : Instr} {x : Choice} {s s' : Shared} {pushed : List Instr}

structure Pushed (i : Instr) (pushed : List Instr) : Prop where
  parts : ∀ j ∈ pushed, i.part.pushes j.part = true
  calls : ∀ j ∈ pushed.tail, j.call?.isNone = true
  user : ∀ j ∈ pushed.dropLast, (j.part != .user) = true
  working : Config.weigh Instr.working pushed ≤ i.working
  logging : Config.weigh Instr.logging pushed ≤ i.logging ∨
    i.part = .user ∧ Config.weigh Instr.logging pushed ≤ 1

theorem Pushed.of_eq
    (parts : (pushed.all fun j => i.part.pushes j.part) = true)
    (calls : (pushed.tail.all fun j => j.call?.isNone) = true)
    (user : (pushed.dropLast.all fun j => j.part != .user) = true)
    (working : (Config.weigh Instr.working pushed).ble i.working = true)
    (logging : (Config.weigh Instr.logging pushed).ble i.logging = true) : Pushed i pushed :=
  ⟨List.all_eq_true.mp parts, List.all_eq_true.mp calls, List.all_eq_true.mp user,
    Nat.le_of_ble_eq_true working, .inl (Nat.le_of_ble_eq_true logging)⟩

theorem execLog_pushed (h : i.execLog t x s = some (s', pushed)) : Pushed i pushed := by
  cases i
  all_goals
    simp only [Instr.execLog] at h
    (repeat' split at h) <;> cases h <;> exact .of_eq rfl rfl rfl rfl rfl

theorem execFlush_pushed (h : i.execFlush x s = some (s', pushed)) : Pushed i pushed := by
  cases i
  all_goals
    simp only [Instr.execFlush] at h
    (repeat' split at h) <;> cases h <;> exact .of_eq rfl rfl rfl rfl rfl

theorem execStop_pushed (h : i.execStop s = some (s', pushed)) : Pushed i pushed := by
  cases i
  all_goals
    simp only [Instr.execStop] at h
    (repeat' split at h) <;> cases h <;> exact .of_eq rfl rfl rfl rfl rfl

theorem execSync_pushed (h : i.execSync t x s = some (s', pushed)) : Pushed i pushed := by
  cases i
  all_goals
    simp only [Instr.execSync] at h
    (repeat' split at h) <;> cases h <;> exact .of_eq rfl rfl rfl rfl rfl

theorem execWorker_pushed (h : i.execWorker t x s = some (s', pushed)) : Pushed i pushed := by
  cases i with
  | appendRecord record =>
    cases x with
    | append outcome =>
      cases h
      cases outcome <;> exact .of_eq rfl rfl rfl rfl rfl
    | _ => cases h
  | _ =>
    simp only [Instr.execWorker] at h
    (repeat' split at h) <;> cases h <;> exact .of_eq rfl rfl rfl rfl rfl

theorem pushed_of_exec (h : i.exec t x s = some (s', pushed)) : Pushed i pushed := by
  unfold Instr.exec at h
  split at h
  · rename_i hpart
    have huser : i = .user := by cases i <;> first | rfl | cases hpart
    subst huser
    split at h <;> cases h
    · exact ⟨List.all_eq_true.mp rfl, List.all_eq_true.mp rfl, List.all_eq_true.mp rfl,
        Nat.le_refl _, .inr ⟨rfl, Nat.le_refl _⟩⟩
    · exact .of_eq rfl rfl rfl rfl rfl
    · exact .of_eq rfl rfl rfl rfl rfl
  · exact execLog_pushed h
  · exact execFlush_pushed h
  · exact execStop_pushed h
  · exact execSync_pushed h
  · exact execWorker_pushed h

theorem plain_of_exec (hlog : i.part ≠ .log) (hworker : i.part ≠ .worker)
    (h : i.exec t x s = some (s', pushed)) : ∀ j ∈ pushed, j.Plain := by
  have hparts := (pushed_of_exec h).parts
  have hother : i.part ≠ .user → ∀ j ∈ pushed, j.Plain := by
    intro huser j hj
    have hpushes := hparts j hj
    refine Instr.plain_of_part (fun hj => ?_) (fun hj => ?_)
    · cases hpart : i.part <;> rw [hpart, hj] at hpushes <;> contradiction
    · cases hpart : i.part <;> rw [hpart, hj] at hpushes <;> contradiction
  unfold Instr.exec at h
  split at h
  · have hplain : (∀ call, (Instr.log call).Plain) ∧ Instr.flush.Plain ∧ Instr.stop.Plain ∧
        Instr.user.Plain :=
      ⟨fun _ => ⟨rfl, rfl, rfl, rfl, rfl⟩, ⟨rfl, rfl, rfl, rfl, rfl⟩, ⟨rfl, rfl, rfl, rfl, rfl⟩,
        ⟨rfl, rfl, rfl, rfl, rfl⟩⟩
    split at h <;> cases h <;> simp [hplain]
  · contradiction
  · exact hother (by simp [‹i.part = _›])
  · exact hother (by simp [‹i.part = _›])
  · exact hother (by simp [‹i.part = _›])
  · contradiction

theorem origin_of_exec (h : i.exec t x s = some (s', pushed)) : ∀ j ∈ pushed,
    j.part = i.part ∨ j.part = .sync ∨ (i.part = .log ∧ j.part = .flush) ∨
      (i.part = .user ∧ ((∃ call, j = .log call) ∨ j = .flush ∨ j = .stop)) := by
  intro j hj
  have hpushes := (pushed_of_exec h).parts j hj
  by_cases huser : i.part = .user
  · obtain rfl : i = .user := by cases i <;> first | rfl | cases huser
    cases x with
    | log call =>
      cases h
      rcases List.mem_cons.mp hj with rfl | hj
      · exact .inr (.inr (.inr ⟨rfl, .inl ⟨call, rfl⟩⟩))
      · exact .inl (by rw [List.mem_singleton.mp hj])
    | flush =>
      cases h
      rcases List.mem_cons.mp hj with rfl | hj
      · exact .inr (.inr (.inr ⟨rfl, .inr (.inl rfl)⟩))
      · exact .inl (by rw [List.mem_singleton.mp hj])
    | stop =>
      cases h
      rcases List.mem_cons.mp hj with rfl | hj
      · exact .inr (.inr (.inr ⟨rfl, .inr (.inr rfl)⟩))
      · exact .inl (by rw [List.mem_singleton.mp hj])
    | _ => cases h
  · cases hi : i.part <;> cases hj' : j.part <;> rw [hi, hj'] at hpushes <;>
      first
        | contradiction
        | exact .inl rfl
        | exact .inr (.inl rfl)
        | exact .inr (.inr (.inl ⟨rfl, rfl⟩))

theorem log_of_exec (hpart : i.part ≠ .log) (h : i.exec t x s = some (s', pushed)) :
    ∀ j ∈ pushed, j.part = .log → ∃ call, j = .log call := by
  intro j hj hlog
  obtain heq | hsync | ⟨hlog', -⟩ | ⟨-, hcall | rfl | rfl⟩ := origin_of_exec h j hj
  · exact absurd (heq.symm.trans hlog) hpart
  · rw [hlog] at hsync
    cases hsync
  · exact absurd hlog' hpart
  · exact hcall
  · cases hlog
  · cases hlog

theorem stop_of_exec (hpart : i.part ≠ .stop) (h : i.exec t x s = some (s', pushed)) :
    ∀ j ∈ pushed, j.part = .stop → j = .stop := by
  intro j hj hstop
  obtain heq | hsync | ⟨-, hflush⟩ | ⟨-, ⟨call, rfl⟩ | rfl | rfl⟩ := origin_of_exec h j hj
  · exact absurd (heq.symm.trans hstop) hpart
  · rw [hstop] at hsync
    cases hsync
  · rw [hstop] at hflush
    cases hflush
  · cases hstop
  · cases hstop
  · rfl

theorem callOk_of_execLog (hi : i.CallOk) (h : i.execLog t x s = some (s', pushed)) :
    ∀ j ∈ pushed, j.CallOk := by
  cases i with
  | countPending level record =>
    cases h
    intro j hj
    rw [List.mem_singleton.mp hj]
    exact ⟨rfl, rfl⟩
  | tryEnqueue level passed previousPending call =>
    obtain ⟨hrole, hcarries⟩ := hi
    simp only [Instr.execLog] at h
    split at h
    · rename_i hexec
      obtain ⟨hcarries', hdequeues⟩ := RingCall.carries_of_exec hcarries hexec
      cases h
      intro j hj
      rw [List.mem_singleton.mp hj]
      exact ⟨hdequeues.trans hrole, hcarries'⟩
    · cases h
      exact Instr.callOk_of_all rfl
    · cases h
      exact Instr.callOk_of_all rfl
    · cases h
  | _ =>
    simp only [Instr.execLog] at h
    (repeat' split at h) <;> cases h <;> exact Instr.callOk_of_all rfl

theorem callOk_of_execWorker (hi : i.CallOk) (h : i.execWorker t x s = some (s', pushed)) :
    ∀ j ∈ pushed, j.CallOk := by
  cases i with
  | iterate consumed =>
    cases h
    intro j hj
    rw [List.mem_singleton.mp hj]
    exact rfl
  | tryDequeue consumed call =>
    simp only [Instr.execWorker] at h
    split at h
    · rename_i hexec
      have hcarries : call.Carries none := by cases call <;> trivial
      cases h
      intro j hj
      rw [List.mem_singleton.mp hj]
      exact (RingCall.carries_of_exec hcarries hexec).2.trans hi
    · cases h
      exact Instr.callOk_of_all rfl
    · cases h
      exact Instr.callOk_of_all rfl
    · cases h
  | appendRecord record =>
    cases x with
    | append outcome =>
      cases h
      cases outcome <;> exact Instr.callOk_of_all rfl
    | _ => cases h
  | _ =>
    simp only [Instr.execWorker] at h
    (repeat' split at h) <;> cases h <;> exact Instr.callOk_of_all rfl

theorem callOk_of_exec (hi : i.CallOk) (h : i.exec t x s = some (s', pushed)) :
    ∀ j ∈ pushed, j.CallOk := by
  obtain ⟨-, h⟩ | ⟨-, h⟩ | ⟨hlog, hworker⟩ := exec_cases h
  · exact callOk_of_execLog hi h
  · exact callOk_of_execWorker hi h
  · exact fun j hj => Instr.callOk_of_plain (plain_of_exec hlog hworker h j hj)

theorem ok_of_exec (hi : i.Ok t) (h : i.exec t x s = some (s', pushed)) : ∀ j ∈ pushed, j.Ok t :=
  fun j hj => ⟨hi.1.of_pushes ((pushed_of_exec h).parts j hj), callOk_of_exec hi.2 h j hj⟩

end Exec

structure Shape (c : Config) : Prop where
  ok : ∀ t i, c.Active t i → i.Ok t
  calls : c.HeadOnly fun i => i.call?.isSome
  user : c.LastOnly fun i => i.part = .user
  working : c.total Instr.working ≤ 1
  logging : c.Slim Instr.logging

theorem init_stack {config : LoggerConfig} {n t : Nat} {i : Instr} {rest : List Instr}
    (htop : (init config n).stack t = i :: rest) :
    rest = [] ∧ (t = 0 ∧ i = .iterate false ∨ t ≠ 0 ∧ i = .user) := by
  cases t with
  | zero =>
    cases htop
    exact ⟨rfl, .inl ⟨rfl, rfl⟩⟩
  | succ t =>
    simp only [Library.Config.stack, init, List.getD_eq_getElem?_getD, List.getElem?_cons_succ,
      List.getElem?_replicate] at htop
    split at htop <;> cases htop
    exact ⟨rfl, .inr ⟨Nat.succ_ne_zero t, rfl⟩⟩

theorem init_active {config : LoggerConfig} {n t : Nat} {i : Instr}
    (h : (init config n).Active t i) : t = 0 ∧ i = .iterate false ∨ t ≠ 0 ∧ i = .user := by
  cases htop : (init config n).stack t with
  | nil =>
    rw [Library.Config.Active, htop] at h
    cases h
  | cons j rest =>
    obtain ⟨rfl, hj⟩ := init_stack htop
    rw [Library.Config.Active, htop, List.mem_singleton] at h
    rw [h]
    exact hj

theorem total_init {w : Instr → Nat} (config : LoggerConfig) (n : Nat) :
    (init config n).total w = w (.iterate false) + n * w .user := by
  simp [Library.Config.total, init, Library.Config.weigh]

theorem shape_init {config : LoggerConfig} {n : Nat} : Shape (init config n) := by
  have hstack : ∀ t, (init config n).stack t = [] ∨ (init config n).stack t = [.iterate false] ∨
      (init config n).stack t = [.user] := by
    intro t
    cases htop : (init config n).stack t with
    | nil => exact .inl rfl
    | cons i rest =>
      obtain ⟨rfl, ⟨-, rfl⟩ | ⟨-, rfl⟩⟩ := init_stack htop
      · exact .inr (.inl rfl)
      · exact .inr (.inr rfl)
  refine ⟨?_, ?_, ?_, ?_, ?_⟩
  · intro t i hactive
    obtain ⟨ht, rfl⟩ | ⟨ht, rfl⟩ := init_active hactive
    · exact ⟨ht, trivial⟩
    · exact ⟨ht, trivial⟩
  · intro t j hj
    rcases hstack t with h | h | h <;> rw [h] at hj <;> cases hj
  · intro t j hj
    rcases hstack t with h | h | h <;> rw [h] at hj <;> cases hj
  · rw [total_init]
    exact Nat.le_of_eq rfl
  · intro t
    rcases hstack t with h | h | h <;> rw [h] <;> decide

theorem Shape.step {c c' : Config} {t : Nat} {i : Instr} (h : Shape c)
    (hstep : machine.Step c t i c') : Shape c' := by
  obtain @⟨rest, x, s, pushed, htop, hexec⟩ := hstep
  have hi := h.ok t i (Library.Config.active_of_top htop)
  have hpushed := pushed_of_exec hexec
  have hok := ok_of_exec hi hexec
  refine ⟨?_, h.calls.replace htop ?_, h.user.replace htop ?_ ?_, ?_, h.logging.replace htop ?_⟩
  · intro t' j hj
    obtain ⟨rfl, hmem⟩ | hactive := Library.Config.active_of_replace htop hj
    · exact hok j hmem
    · exact h.ok t' j hactive
  · intro j hj hcall
    rw [Option.isNone_iff_eq_none.mp (hpushed.calls j hj)] at hcall
    cases hcall
  · exact fun j hj => bne_iff_ne.mp (hpushed.user j hj)
  · refine or_iff_not_imp_left.mpr fun huser j hj hjuser => ?_
    have hpushes := hpushed.parts j hj
    rw [hjuser] at hpushes
    cases hpart : i.part <;> rw [hpart] at hpushes <;> first | exact huser hpart | cases hpushes
  · have htotal := Library.Config.total_replace Instr.working htop s pushed
    have hle := h.working
    have hworking := hpushed.working
    omega
  · obtain hle | ⟨huser, hle⟩ := hpushed.logging
    · exact .inl hle
    · exact .inr ⟨h.user.rest_eq_nil htop huser, hle⟩

end UnixNotes.Logger.AsyncLogger
