import UnixNotes.Logger.Records
import UnixNotes.Logger.Space

namespace UnixNotes.Logger.AsyncLogger

open Library

namespace Instr

/-- The worker has taken a record for which it has not notified a producer yet. -/
def due : Instr → Bool
  | .tryDequeue _ call => !call.takes.isEmpty
  | .uncountTaken _ => true
  | .notifyOne .space => true
  | _ => false

def trying : Instr → Bool
  | .buildRecord _ => true
  | .countPending _ _ => true
  | .tryEnqueue _ _ _ call => call.writes.isNone
  | .uncountPending _ _ => true
  | .spaceState _ _ => true
  | .spaceProduced _ _ => true
  | .spaceConsumed _ _ _ => true
  | .spaceLeft _ _ => true
  | _ => false

def looked : Instr → Bool
  | .spaceConsumed _ _ _ => true
  | .park .space => true
  | _ => false

def parks (i : Instr) : Bool := i = .park .space

end Instr

section Exec

variable {t : Nat} {i : Instr} {x : Choice} {s s' : Shared} {pushed : List Instr}

theorem due_of_tryDequeue {consumed : Bool} {call : RingCall LogRecord}
    (hrole : call.dequeues = true)
    (h : (Instr.tryDequeue consumed call).execWorker t x s = some (s', pushed)) :
    pushed.any Instr.due = true ∨ (call.takes = [] ∧ s'.queue.dequeued = s.queue.dequeued) := by
  have hdue : ∀ {ring : MpscRingBuffer LogRecord} {next : RingNext LogRecord},
      call.exec t x.isSpurious s.queue = (ring, next) →
      (!next.takes.isEmpty) = true ∨ (call.takes = [] ∧ ring.dequeued = s.queue.dequeued) := by
    intro ring next hexec
    obtain ⟨-, taken, hdequeued, htakes⟩ := RingCall.takes_of_exec hrole hexec
    cases hnil : next.takes with
    | cons value more => exact .inl rfl
    | nil =>
      rw [hnil] at htakes
      obtain ⟨hcall, rfl⟩ := List.append_eq_nil_iff.mp htakes.symm
      exact .inr ⟨hcall, by rw [hdequeued, List.append_nil]⟩
  simp only [Instr.execWorker] at h
  split at h
  · rename_i call' hexec
    cases h
    exact (hdue hexec).imp_left fun hcall => by simpa [Instr.due, RingNext.takes] using hcall
  · cases h
    exact .inl rfl
  · rename_i hexec
    cases h
    exact .inr ((hdue hexec).resolve_left (by rintro ⟨⟩))
  · cases h

theorem due_of_exec (hcall : i.CallOk) (hdue : i.due = true)
    (h : i.exec t x s = some (s', pushed)) :
    i = .notifyOne .space ∨ pushed.any Instr.due = true := by
  cases i with
  | tryDequeue consumed call =>
    refine .inr ((due_of_tryDequeue hcall h).resolve_right fun ⟨hnil, _⟩ => ?_)
    rw [Instr.due, hnil] at hdue
    cases hdue
  | uncountTaken record =>
    cases h
    exact .inr rfl
  | notifyOne condition =>
    cases condition with
    | space => exact .inl rfl
    | _ => cases hdue
  | _ => cases hdue

theorem due_of_dequeued (hcall : i.CallOk) (h : i.exec t x s = some (s', pushed)) :
    pushed.any Instr.due = true ∨ s'.queue.dequeued = s.queue.dequeued := by
  by_cases hworker : i.part = .worker
  · rw [exec_of_worker hworker] at h
    cases i with
    | tryDequeue consumed call => exact (due_of_tryDequeue hcall h).imp_right And.right
    | appendRecord record =>
      cases x with
      | append outcome =>
        cases h
        cases outcome <;> exact .inr rfl
      | _ => cases h
    | _ =>
      simp only [Instr.execWorker] at h
      (repeat' split at h) <;> cases h <;> exact .inr rfl
  · exact .inr (dequeued_of_exec hcall hworker h)

theorem worker_of_due (h : i.exec t x s = some (s', pushed)) :
    ∀ j ∈ pushed, j.due = true → i.part = .worker := by
  have hnone : (pushed.all fun j => !j.due) = true ∨ i.part = .worker := by
    unfold Instr.exec at h
    split at h
    · split at h <;> cases h <;> exact .inl rfl
    · cases i
      all_goals
        simp only [Instr.execLog] at h
        (repeat' split at h) <;> cases h <;> exact .inl rfl
    · cases i
      all_goals
        simp only [Instr.execFlush] at h
        (repeat' split at h) <;> cases h <;> exact .inl rfl
    · cases i
      all_goals
        simp only [Instr.execStop] at h
        (repeat' split at h) <;> cases h <;> exact .inl rfl
    · cases i
      all_goals
        simp only [Instr.execSync] at h
        (repeat' split at h) <;> cases h <;> exact .inl rfl
    · exact .inr ‹_›
  intro j hj hdue
  refine hnone.resolve_left fun hall => ?_
  have := List.all_eq_true.mp hall j hj
  rw [hdue] at this
  cases this

theorem log_of_trying (h : i.trying = true) : i.part = .log := by
  cases i <;> first | rfl | cases h

theorem trying_of_exec (hcall : i.CallOk) (htrying : i.trying = true) (hstate : s.state = .running)
    (hpolicy : s.config.overflowPolicy = .block) (h : i.exec t x s = some (s', pushed)) :
    pushed.any Instr.trying = true ∨ s.queue.claimed.length < s'.queue.claimed.length := by
  rw [exec_of_log (log_of_trying htrying)] at h
  cases i with
  | tryEnqueue level passed previousPending call =>
    obtain ⟨hrole, hcarries⟩ := hcall
    have hclaims : call.claims passed = [] := by
      rw [RingCall.claims, Option.isNone_iff_eq_none.mp htrying]
      rfl
    have hgrows : ∀ {ring : MpscRingBuffer LogRecord} {next : RingNext LogRecord},
        call.exec t x.isSpurious s.queue = (ring, next) → next.claims passed ≠ [] →
        s.queue.claimed.length < ring.claimed.length := by
      intro ring next hexec hne
      have hlength := (RingCall.claims_of_exec hrole hcarries hexec).2
      have := List.length_pos_iff.mpr hne
      rw [hclaims, List.length_nil] at hlength
      omega
    simp only [Instr.execLog] at h
    split at h
    · rename_i call' hexec
      cases h
      cases hwrites : call'.writes with
      | none => exact .inl (by simp [Instr.trying, hwrites])
      | some position =>
        refine .inr (hgrows hexec ?_)
        rw [RingNext.claims, RingCall.claims, hwrites]
        rintro ⟨⟩
    · rename_i hexec
      cases h
      exact .inr (hgrows hexec (by rintro ⟨⟩))
    · cases h
      exact .inl rfl
    · cases h
  | uncountPending level record =>
    simp only [Instr.execLog, hpolicy] at h
    cases h
    exact .inl rfl
  | spaceLeft level record =>
    simp only [Instr.execLog, hstate] at h
    cases h
    exact .inl rfl
  | buildRecord call =>
    simp only [Instr.execLog] at h
    split at h <;> cases h
    exact .inl rfl
  | countPending level record =>
    cases h
    exact .inl rfl
  | spaceState level record =>
    simp only [Instr.execLog] at h
    split at h <;> cases h <;> exact .inl rfl
  | spaceProduced level record =>
    cases h
    exact .inl rfl
  | spaceConsumed level record produced =>
    simp only [Instr.execLog] at h
    split at h <;> cases h <;> exact .inl rfl
  | _ => cases htrying

structure Looked (i : Instr) (s : Shared) (pushed : List Instr) : Prop where
  head : (pushed.tail.all fun j => !j.looked) = true
  parks : Config.followed Instr.parks Instr.trying pushed = true
  full : (pushed.all fun j => !j.looked) = true ∨ (∃ level record, i = .spaceProduced level record) ∨
    ∃ level record produced, i = .spaceConsumed level record produced ∧
      s.queue.full produced s.queue.dequeuePosition = true

theorem looked_of_exec (h : i.exec t x s = some (s', pushed)) : Looked i s pushed := by
  unfold Instr.exec at h
  split at h
  · split at h <;> cases h <;> exact ⟨rfl, rfl, .inl rfl⟩
  · cases i with
    | spaceProduced level record =>
      cases h
      exact ⟨rfl, rfl, .inr (.inl ⟨level, record, rfl⟩)⟩
    | spaceConsumed level record produced =>
      simp only [Instr.execLog] at h
      split at h <;> cases h
      · exact ⟨rfl, rfl, .inr (.inr ⟨level, record, produced, rfl, ‹_›⟩)⟩
      · exact ⟨rfl, rfl, .inl rfl⟩
    | _ =>
      simp only [Instr.execLog] at h
      (repeat' split at h) <;> cases h <;> exact ⟨rfl, rfl, .inl rfl⟩
  · cases i
    all_goals
      simp only [Instr.execFlush] at h
      (repeat' split at h) <;> cases h <;> exact ⟨rfl, rfl, .inl rfl⟩
  · cases i
    all_goals
      simp only [Instr.execStop] at h
      (repeat' split at h) <;> cases h <;> exact ⟨rfl, rfl, .inl rfl⟩
  · cases i
    all_goals
      simp only [Instr.execSync] at h
      (repeat' split at h) <;> cases h <;> exact ⟨rfl, rfl, .inl rfl⟩
  · cases i with
    | appendRecord record =>
      cases x with
      | append outcome =>
        cases h
        cases outcome <;> exact ⟨rfl, rfl, .inl rfl⟩
      | _ => cases h
    | _ =>
      simp only [Instr.execWorker] at h
      (repeat' split at h) <;> cases h <;> exact ⟨rfl, rfl, .inl rfl⟩

theorem config_of_exec (h : i.exec t x s = some (s', pushed)) : s'.config = s.config := by
  unfold Instr.exec at h
  split at h
  · split at h <;> cases h <;> rfl
  · cases i
    all_goals
      simp only [Instr.execLog] at h
      (repeat' split at h) <;> cases h <;> rfl
  · cases i
    all_goals
      simp only [Instr.execFlush] at h
      (repeat' split at h) <;> cases h <;> rfl
  · cases i
    all_goals
      simp only [Instr.execStop] at h
      (repeat' split at h) <;> cases h <;> rfl
  · cases i
    all_goals
      simp only [Instr.execSync] at h
      (repeat' split at h) <;> cases h <;> rfl
  · cases i with
    | appendRecord record =>
      cases x with
      | append outcome =>
        cases h
        cases outcome <;> rfl
      | _ => cases h
    | _ =>
      simp only [Instr.execWorker] at h
      (repeat' split at h) <;> cases h <;> rfl

end Exec

def Unwrapped (c : Config) : Prop :=
  c.shared.queue.claimed.length + c.shared.queue.capacity.toNat < 2 ^ 64

abbrev KeepsPositions (c : Config) (_ : Nat) (_ : Instr) : Prop := Unwrapped c

theorem positions_step {c c' : Config} {t : Nat} {i : Instr} (hshape : Shape c)
    (h : RingPositions c.shared.queue (calls c)) (hrange : Unwrapped c)
    (hstep : machine.Step c t i c') : RingPositions c'.shared.queue (calls c') := by
  obtain @⟨rest, x, s, pushed, htop, hexec⟩ := hstep
  have hring := ringStep_of_exec hexec
  have hcall : calls c t = i.call? := Library.Config.heads_of_top _ htop
  have hcalls : calls (c.replace t s (pushed ++ rest)) =
      Function.update (calls c) t (pushed.head?.bind Instr.call?) :=
    Library.Config.heads_replace hshape.calls htop s pushed
  have hallowed := (hshape.ok t i (Library.Config.active_of_top htop)).1
  rw [Library.Config.shared_replace, hcalls]
  revert hring
  generalize pushed.head?.bind Instr.call? = call?
  generalize s.queue = ring'
  intro hring
  cases hring with
  | stay hnone =>
    rw [← show calls c t = none from hcall.trans hnone, Function.update_eq_self]
    exact h
  | tryEnqueue hnone hpart record =>
    refine h.stay ?_ (by rintro _ ⟨⟩ ⟨⟩) (by rintro _ ⟨⟩; trivial)
    rw [hcall, hnone]
    rfl
  | tryDequeue hnone hpart =>
    rw [hpart] at hallowed
    refine h.stay ?_ (fun _ _ _ => hallowed) (by rintro _ ⟨⟩; trivial)
    rw [hcall, hnone]
    rfl
  | exec hsome hcallexec => exact h.exec (hcall.trans hsome) hrange hcallexec

def NotifyDue (c : Config) : Prop := ∃ t i, c.Active t i ∧ i.due = true

def Pending (c : Config) : Prop := c.shared.queue.dequeued.length < c.shared.queue.claimed.length

def Tries (c : Config) : Prop :=
  ∃ t i, c.Active t i ∧ i.trying = true ∧ t ∉ c.shared.waiting .space

def Instr.Knows (c : Config) : Instr → Prop
  | .spaceConsumed _ _ produced => NotifyDue c ∨ ∃ p, produced = UInt64.ofNat p ∧
      c.shared.queue.dequeued.length ≤ p ∧ p ≤ c.shared.queue.claimed.length
  | .park .space => NotifyDue c ∨ Pending c
  | _ => True

/-- What every run that does not wrap keeps about producers that wait for space. -/
structure Serving (c : Config) : Prop where
  shape : Shape c
  positions : RingPositions c.shared.queue (calls c)
  space : Space c
  worker : ∀ t i, c.Active t i → i.due = true → t = 0
  head : c.HeadOnly fun i => i.looked = true
  parks : c.Followed Instr.parks Instr.trying
  knows : ∀ t i, c.Active t i → i.Knows c
  nodup : (c.shared.waiting .space).Nodup
  parked : ∀ t ∈ c.shared.waiting .space, (c.stack t).head? = some (.parked .space) ∧
    ∃ i, c.Active t i ∧ i.trying = true
  served : c.shared.config.overflowPolicy = .block → c.shared.state = .running →
    c.shared.waiting .space ≠ [] → Pending c ∨ NotifyDue c ∨ Tries c

theorem serving_init {config : LoggerConfig} {n : Nat} (hcapacity : 0 < config.maxQueueSize.toNat) :
    Serving (init config n) := by
  refine ⟨shape_init, ?_, space_init, ?_, ?_, ?_, ?_, List.nodup_nil, nofun, fun _ _ h =>
    absurd rfl h⟩
  · rw [calls_init]
    exact .new hcapacity
  · intro t i hactive hdue
    obtain ⟨-, rfl⟩ | ⟨-, rfl⟩ := init_active hactive <;> cases hdue
  · intro t j hj
    cases htop : (init config n).stack t with
    | nil =>
      rw [htop] at hj
      cases hj
    | cons i rest =>
      obtain ⟨rfl, -⟩ := init_stack htop
      rw [htop] at hj
      cases hj
  · intro t
    cases htop : (init config n).stack t with
    | nil => rfl
    | cons i rest => obtain ⟨rfl, ⟨-, rfl⟩ | ⟨-, rfl⟩⟩ := init_stack htop <;> rfl
  · intro t i hactive
    obtain ⟨-, rfl⟩ | ⟨-, rfl⟩ := init_active hactive <;> trivial

section Step

variable {c c' : Config} {t : Nat} {i : Instr}

theorem NotifyDue.step (h : NotifyDue c) (hshape : Shape c) (hstep : machine.Step c t i c') :
    NotifyDue c' ∨ i = .notifyOne .space := by
  obtain @⟨rest, x, s, pushed, htop, hexec⟩ := hstep
  obtain ⟨t', j, hj, hdue⟩ := h
  obtain ⟨rfl, rfl⟩ | hactive := Library.Config.active_replace htop s pushed hj
  · obtain hnotify | hany := due_of_exec (hshape.ok t' j hj).2 hdue hexec
    · exact .inr hnotify
    · obtain ⟨k, hk, hdue⟩ := List.any_eq_true.mp hany
      exact .inl ⟨t', k, Library.Config.active_replace_of_pushed htop s hk, hdue⟩
  · exact .inl ⟨t', j, hactive, hdue⟩

theorem dequeued_cases (hshape : Shape c) (hstep : machine.Step c t i c') :
    NotifyDue c' ∨ c'.shared.queue.dequeued = c.shared.queue.dequeued := by
  obtain @⟨rest, x, s, pushed, htop, hexec⟩ := hstep
  have hcall := (hshape.ok t i (Library.Config.active_of_top htop)).2
  refine (due_of_dequeued hcall hexec).imp_left fun hany => ?_
  obtain ⟨j, hj, hdue⟩ := List.any_eq_true.mp hany
  exact ⟨t, j, Library.Config.active_replace_of_pushed htop s hj, hdue⟩

theorem claimed_mono (hstep : machine.Step c t i c') :
    c.shared.queue.claimed.length ≤ c'.shared.queue.claimed.length := by
  obtain @⟨rest, x, s, pushed, htop, hexec⟩ := hstep
  exact (ringStep_of_exec hexec).grows.2.1.length_le

theorem Pending.step (h : Pending c) (hshape : Shape c) (hstep : machine.Step c t i c') :
    Pending c' ∨ NotifyDue c' := by
  obtain hdue | hsame := dequeued_cases hshape hstep
  · exact .inr hdue
  · refine .inl ?_
    rw [Pending, hsame]
    exact Nat.lt_of_lt_of_le h (claimed_mono hstep)

theorem top_of_looked (h : c.HeadOnly fun i => i.looked = true) {j : Instr} (hj : c.Active t j)
    (hlooked : j.looked = true) : ∃ rest, c.stack t = j :: rest := by
  cases htop : c.stack t with
  | nil =>
    rw [Library.Config.Active, htop] at hj
    cases hj
  | cons k rest =>
    obtain rfl := h.eq_top htop hj hlooked
    exact ⟨rest, rfl⟩

theorem Serving.not_notified (h : Serving c) (hstep : machine.Step c t i c') {t' : Nat} {j : Instr}
    (hj : c.Active t' j) (hlooked : j.looked = true) : i ≠ .notifyOne .space := by
  rintro rfl
  obtain @⟨rest, x, s, pushed, htop, hexec⟩ := hstep
  obtain ⟨rest', htop'⟩ := top_of_looked h.head hj hlooked
  have hholds : Holds c t' := by
    refine holds_of_top htop' ?_
    cases j with
    | spaceConsumed level record produced => rfl
    | park condition =>
      cases condition with
      | space => rfl
      | _ => cases hlooked
    | _ => cases hlooked
  obtain rfl := h.space.unique hholds (holds_of_top htop rfl)
  obtain rfl := (List.cons.inj (htop.symm.trans htop')).1
  cases hlooked

theorem Instr.knows_of_not_looked {j : Instr} (h : j.looked ≠ true) : j.Knows c := by
  cases j with
  | spaceConsumed => exact absurd rfl h
  | park condition =>
    cases condition with
    | space => exact absurd rfl h
    | _ => trivial
  | _ => trivial

theorem Serving.knows_kept (h : Serving c) (hstep : machine.Step c t i c') {t' : Nat} {j : Instr}
    (hj : c.Active t' j) : j.Knows c' := by
  have hknows := h.knows t' j hj
  have hdue : j.looked = true → NotifyDue c → NotifyDue c' := fun hlooked hdue =>
    (hdue.step h.shape hstep).resolve_right (h.not_notified hstep hj hlooked)
  cases j with
  | spaceConsumed level record produced =>
    obtain hnotify | ⟨p, hp, hle, hclaimed⟩ := hknows
    · exact .inl (hdue rfl hnotify)
    · refine (dequeued_cases h.shape hstep).imp_right fun hsame => ⟨p, hp, ?_, ?_⟩
      · rw [hsame]
        exact hle
      · exact Nat.le_trans hclaimed (claimed_mono hstep)
  | park condition =>
    cases condition with
    | space =>
      obtain hnotify | hpending := hknows
      · exact .inl (hdue rfl hnotify)
      · exact (hpending.step h.shape hstep).symm
    | _ => trivial
  | _ => trivial

theorem Serving.taken (h : Serving c) (hdue : ¬NotifyDue c) : (calls c).taken = 0 := by
  rw [RingCalls.taken]
  cases hcall : calls c 0 with
  | none => rfl
  | some call =>
    obtain ⟨j, rest, htop, hj⟩ := Library.Config.exists_of_heads hcall
    have hactive := Library.Config.active_of_top htop
    obtain ⟨hpart, hok⟩ := h.shape.ok 0 j hactive
    cases j with
    | tryDequeue consumed call' =>
      cases hj
      have hnot : ¬(Instr.tryDequeue consumed call).due = true := fun htrue =>
        hdue ⟨0, _, hactive, htrue⟩
      simpa [Instr.due] using hnot
    | tryEnqueue => exact absurd rfl hpart
    | _ => cases hj

theorem Serving.knows_pushed (h : Serving c) {rest : List Instr} {x : Choice} {s : Shared}
    {pushed : List Instr} (htop : c.stack t = i :: rest)
    (hexec : i.exec t x c.shared = some (s, pushed)) :
    ∀ j ∈ pushed, j.Knows (c.replace t s (pushed ++ rest)) := by
  have hstep : machine.Step c t i (c.replace t s (pushed ++ rest)) := .exec htop hexec
  intro j hj
  obtain hall | ⟨level, record, rfl⟩ | ⟨level, record, produced, rfl, hfull⟩ :=
    (looked_of_exec hexec).full
  · refine Instr.knows_of_not_looked fun hlooked => ?_
    have := List.all_eq_true.mp hall j hj
    rw [hlooked] at this
    cases this
  · cases hexec
    rw [List.mem_singleton.mp hj]
    exact .inr ⟨_, h.positions.enqueue, h.positions.dequeued_le, Nat.le_refl _⟩
  · have hpark : NotifyDue (c.replace t s (pushed ++ rest)) ∨
        Pending (c.replace t s (pushed ++ rest)) := by
      by_cases hdue : NotifyDue c
      · exact .inl ((hdue.step h.shape hstep).resolve_right nofun)
      · obtain ⟨p, rfl, hle, hclaimed⟩ :=
          (h.knows t _ (Library.Config.active_of_top htop)).resolve_left hdue
        have hlt := h.positions.lt_of_full (h.taken hdue) hle hfull
        have hpending : Pending c := Nat.lt_of_lt_of_le hlt hclaimed
        exact (hpending.step h.shape hstep).symm
    rw [exec_of_log rfl] at hexec
    simp only [Instr.execLog, hfull] at hexec
    cases hexec
    rcases List.mem_cons.mp hj with rfl | hj
    · exact hpark
    · rw [List.mem_singleton.mp hj]
      trivial

theorem space_ne_data : Condition.space ≠ .data := nofun

theorem not_waiting_of_parked {x : Choice} {s s' : Shared} {pushed : List Instr}
    (hnodup : (s.waiting .space).Nodup)
    (h : Instr.exec t (.parked .space) x s = some (s', pushed)) : t ∉ s'.waiting .space := by
  rw [exec_of_sync rfl] at h
  simp only [Instr.execSync] at h
  split at h
  · cases h
    exact ‹_›
  · split at h <;> cases h
    exact hnodup.not_mem_erase

theorem erased_of_notifyOne {x : Choice} {s s' : Shared} {pushed : List Instr}
    (hne : s.waiting .space ≠ [])
    (h : Instr.exec t (.notifyOne .space) x s = some (s', pushed)) :
    ∃ k ∈ s.waiting .space, s'.waiting .space = (s.waiting .space).erase k := by
  rw [exec_of_sync rfl] at h
  simp only [Instr.execSync] at h
  split at h
  · exact absurd ‹_› hne
  · rename_i k _
    split at h <;> cases h
    exact ⟨k, ‹_›, rfl⟩
  · cases h

theorem waiting_of_step (hstep : machine.Step c t i c') {t' : Nat}
    (ht' : t' ∈ c'.shared.waiting .space) :
    t' ∈ c.shared.waiting .space ∨ (t' = t ∧ i = .park .space) := by
  obtain @⟨rest, x, s, pushed, htop, hexec⟩ := hstep
  rw [Library.Config.shared_replace] at ht'
  obtain heq | ⟨-, heq⟩ | ⟨rfl, heq⟩ | ⟨-, heq⟩ | ⟨-, k, -, heq⟩ :=
    waiting_cases hexec space_ne_data <;> rw [heq] at ht'
  · exact .inl ht'
  · cases ht'
  · exact (List.mem_cons.mp ht').symm.imp_right fun ht => ⟨ht, rfl⟩
  · exact .inl (List.mem_of_mem_erase ht')
  · exact .inl (List.mem_of_mem_erase ht')

theorem Serving.not_parking (h : Serving c) {rest : List Instr}
    (htop : c.stack t = .park .space :: rest) : t ∉ c.shared.waiting .space := by
  intro ht
  have hhead := (h.parked t ht).1
  rw [htop] at hhead
  cases hhead

theorem Serving.nodup_step (h : Serving c) (hstep : machine.Step c t i c') :
    (c'.shared.waiting .space).Nodup := by
  obtain @⟨rest, x, s, pushed, htop, hexec⟩ := hstep
  rw [Library.Config.shared_replace]
  obtain heq | ⟨-, heq⟩ | ⟨rfl, heq⟩ | ⟨-, heq⟩ | ⟨-, k, -, heq⟩ :=
    waiting_cases hexec space_ne_data <;> rw [heq]
  · exact h.nodup
  · exact List.nodup_nil
  · exact List.nodup_cons.mpr ⟨h.not_parking htop, h.nodup⟩
  · exact h.nodup.erase t
  · exact h.nodup.erase k

theorem Serving.parked_step (h : Serving c) (hstep : machine.Step c t i c') :
    ∀ t ∈ c'.shared.waiting .space, (c'.stack t).head? = some (.parked .space) ∧
      ∃ i, c'.Active t i ∧ i.trying = true := by
  intro t' ht'
  have hbefore := waiting_of_step hstep ht'
  obtain @⟨rest, x, s, pushed, htop, hexec⟩ := hstep
  rw [Library.Config.shared_replace] at ht'
  by_cases ht : t' = t
  · subst ht
    obtain hwaiting | ⟨-, rfl⟩ := hbefore
    · have hhead := (h.parked t' hwaiting).1
      rw [htop] at hhead
      cases hhead
      exact absurd ht' (not_waiting_of_parked h.nodup hexec)
    · obtain ⟨j, hj, htrying⟩ := List.any_eq_true.mp (h.parks.any_of_top htop rfl)
      cases hexec
      refine ⟨by rw [Library.Config.stack_replace_self htop]; rfl, j, ?_, htrying⟩
      rw [Library.Config.Active, Library.Config.stack_replace_self htop]
      exact List.mem_append_right _ hj
  · obtain ⟨hhead, j, hj, htrying⟩ := h.parked t' (hbefore.resolve_right fun heq => ht heq.1)
    refine ⟨by rw [Library.Config.stack_replace_ne _ _ _ ht]; exact hhead, j, ?_, htrying⟩
    rw [Library.Config.Active, Library.Config.stack_replace_ne _ _ _ ht]
    exact hj

theorem Serving.tries_of_notify (h : Serving c) (hstep : machine.Step c t (.notifyOne .space) c')
    (hne : c.shared.waiting .space ≠ []) : Tries c' := by
  obtain @⟨rest, x, s, pushed, htop, hexec⟩ := hstep
  obtain ⟨k, hk, heq⟩ := erased_of_notifyOne (t := t) hne hexec
  obtain ⟨-, j, hj, htrying⟩ := h.parked k hk
  refine ⟨k, j, Library.Config.active_replace_of_ne htop s pushed hj ?_, htrying, ?_⟩
  · rintro rfl
    cases htrying
  · rw [Library.Config.shared_replace, heq]
    exact h.nodup.not_mem_erase

theorem Tries.step (h : Tries c) (hserving : Serving c)
    (hpolicy : c.shared.config.overflowPolicy = .block) (hstate : c.shared.state = .running)
    (hpark : i ≠ .park .space) (hstep : machine.Step c t i c') : Tries c' ∨ Pending c' := by
  obtain ⟨t', j, hj, htrying, hwaiting⟩ := h
  have hwaiting' : t' ∉ c'.shared.waiting .space := fun ht' =>
    (waiting_of_step hstep ht').elim hwaiting fun heq => hpark heq.2
  obtain @⟨rest, x, s, pushed, htop, hexec⟩ := hstep
  obtain ⟨rfl, rfl⟩ | hactive := Library.Config.active_replace htop s pushed hj
  · have hcall := (hserving.shape.ok t' j hj).2
    obtain hany | hclaimed := trying_of_exec hcall htrying hstate hpolicy hexec
    · obtain ⟨k, hk, htrying⟩ := List.any_eq_true.mp hany
      exact .inl ⟨t', k, Library.Config.active_replace_of_pushed htop s hk, htrying, hwaiting'⟩
    · have hworker : j.part ≠ .worker := by rw [log_of_trying htrying]; nofun
      refine .inr ?_
      rw [Pending, Library.Config.shared_replace, dequeued_of_exec hcall hworker hexec]
      exact Nat.lt_of_le_of_lt hserving.positions.dequeued_le hclaimed
  · exact .inl ⟨t', j, hactive, htrying, hwaiting'⟩

theorem Serving.served_step (h : Serving c) (hstep : machine.Step c t i c')
    (hpolicy : c'.shared.config.overflowPolicy = .block) (hstate : c'.shared.state = .running)
    (hne : c'.shared.waiting .space ≠ []) : Pending c' ∨ NotifyDue c' ∨ Tries c' := by
  have hexec := hstep
  obtain @⟨rest, x, s, pushed, htop, hexec⟩ := hexec
  rw [Library.Config.shared_replace] at hpolicy hstate hne
  rw [config_of_exec hexec] at hpolicy
  have hrunning : c.shared.state = .running := by
    obtain heq | ⟨-, heq⟩ | ⟨-, heq⟩ | ⟨-, heq⟩ := state_cases hexec <;> rw [heq] at hstate
    · exact hstate
    all_goals cases hstate
  by_cases hpark : i = .park .space
  · subst hpark
    obtain hdue | hpending := h.knows t _ (Library.Config.active_of_top htop)
    · exact .inr (.inl ((hdue.step h.shape hstep).resolve_right nofun))
    · exact (hpending.step h.shape hstep).imp_right .inl
  · have hbefore : c.shared.waiting .space ≠ [] := by
      obtain ⟨t', ht'⟩ := List.exists_mem_of_ne_nil _ hne
      exact List.ne_nil_of_mem ((waiting_of_step hstep ht').resolve_right fun heq => hpark heq.2)
    obtain hpending | hdue | htries := h.served hpolicy hrunning hbefore
    · exact (hpending.step h.shape hstep).imp_right .inl
    · obtain hdue | rfl := hdue.step h.shape hstep
      · exact .inr (.inl hdue)
      · exact .inr (.inr (h.tries_of_notify hstep hbefore))
    · exact (htries.step h hpolicy hrunning hpark hstep).elim (fun h => .inr (.inr h)) .inl

end Step

theorem Serving.step {c c' : Config} {t : Nat} {i : Instr} (h : Serving c) (hrange : Unwrapped c)
    (hstep : machine.Step c t i c') : Serving c' := by
  have hpositions := positions_step h.shape h.positions hrange hstep
  have hnodup := h.nodup_step hstep
  have hparked := h.parked_step hstep
  have hkept := fun t' j (hj : c.Active t' j) => h.knows_kept hstep hj
  have hserved := h.served_step hstep
  refine ⟨h.shape.step hstep, hpositions, h.space.step hstep, ?_, ?_, ?_, ?_, hnodup, hparked,
    hserved⟩
  all_goals
    obtain @⟨rest, x, s, pushed, htop, hexec⟩ := hstep
  · intro t' j hj hdue
    obtain ⟨rfl, hmem⟩ | hold := Library.Config.active_of_replace htop hj
    · have hallowed := (h.shape.ok t' i (Library.Config.active_of_top htop)).1
      rw [worker_of_due hexec j hmem hdue] at hallowed
      exact hallowed
    · exact h.worker t' j hold hdue
  · refine h.head.replace htop fun j hj hlooked => ?_
    have := List.all_eq_true.mp (looked_of_exec hexec).head j hj
    rw [hlooked] at this
    cases this
  · exact h.parks.replace htop (.inr (looked_of_exec hexec).parks)
  · intro t' j hj
    obtain ⟨rfl, hmem⟩ | hold := Library.Config.active_of_replace htop hj
    · exact h.knows_pushed htop hexec j hmem
    · exact hkept t' j hold

/-- The worker waits for a record and every call of `log` for space. -/
structure Stalled (c : Config) : Prop where
  running : c.shared.state = .running
  worker : c.stack 0 = [.parkedTimed]
  waiting : 0 ∈ c.shared.waiting .data
  empty : c.shared.queue.enqueuePosition = c.shared.queue.dequeuePosition
  logging : ∃ t i, c.Active t i ∧ i.part = .log
  parked : ∀ t i, c.Active t i → i.part = .log → t ∈ c.shared.waiting .space

theorem never_stalled {config : LoggerConfig} {n : Nat} {c : Config}
    (hpolicy : config.overflowPolicy = .block) (hcapacity : 0 < config.maxQueueSize.toNat)
    (hrun : machine.Run KeepsPositions (init config n) c) (hrange : Unwrapped c) :
    ¬Stalled c := by
  intro hstalled
  obtain ⟨h, hconfig⟩ : Serving c ∧ c.shared.config = config := by
    refine hrun.invariant (I := fun c => Serving c ∧ c.shared.config = config)
      ⟨serving_init hcapacity, rfl⟩ ?_
    intro c c' t i ⟨h, hconfig⟩ hrange hstep
    refine ⟨h.step hrange hstep, ?_⟩
    obtain @⟨rest, x, s, pushed, htop, hexec⟩ := hstep
    exact (config_of_exec hexec).trans hconfig
  obtain ⟨t, i, hactive, hlog⟩ := hstalled.logging
  have hwaiting := List.ne_nil_of_mem (hstalled.parked t i hactive hlog)
  have hdue : ¬NotifyDue c := by
    rintro ⟨t', j, hj, hdue⟩
    obtain rfl := h.worker t' j hj hdue
    rw [Library.Config.Active, hstalled.worker, List.mem_singleton] at hj
    subst hj
    cases hdue
  obtain hpending | hnotify | ⟨t', j, hj, htrying, hnot⟩ :=
    h.served (by rw [hconfig, hpolicy]) hstalled.running hwaiting
  · have hle := h.positions.dequeued_le
    have hdequeue := h.positions.dequeue
    rw [h.taken hdue, ← hstalled.empty, h.positions.enqueue] at hdequeue
    rw [Unwrapped] at hrange
    rw [Pending] at hpending
    have := ofNat_inj (by omega) (by omega) ((UInt64.add_zero _).symm.trans hdequeue)
    omega
  · exact hdue hnotify
  · exact hnot (hstalled.parked t' j hj (log_of_trying htrying))

instance (c : Config) : Decidable (Unwrapped c) :=
  inferInstanceAs (Decidable (_ < _))

/-- With one cell the second record is refused while the first one is put into the cell, and then
its producer waits. -/
def waiting : List (Nat × Choice) :=
  (1, .log oneCall) :: turns 1 4 ++ (1, .record 0 0) :: turns 1 4 ++
    (2, .log oneCall) :: turns 2 4 ++ (2, .record 0 0) :: turns 2 9 ++ turns 1 10

theorem never_stalled_one_waits :
    ¬Stalled (machine.follow (init { maxQueueSize := 1 } 2) waiting) :=
  never_stalled rfl (by decide) (Machine.run_follow (c := init { maxQueueSize := 1 } 2)
    (by decide)) (by decide)

end UnixNotes.Logger.AsyncLogger
