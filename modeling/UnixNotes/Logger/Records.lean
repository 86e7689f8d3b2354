import UnixNotes.Library.Counter
import UnixNotes.Logger.RingSteps
import UnixNotes.Logger.Threads

namespace UnixNotes.Logger.AsyncLogger

open Library

def calls (c : Config) : RingCalls LogRecord := c.heads Instr.call?

section Exec

variable {t : Nat} {i : Instr} {x : Choice} {s s' : Shared} {pushed : List Instr}

/-- What a step of thread `t` does on the ring, with the call that the thread is in after it. -/
inductive RingStep (t : Nat) (i : Instr) (ring : MpscRingBuffer LogRecord) :
    MpscRingBuffer LogRecord → Option (RingCall LogRecord) → Prop
  | stay (call : i.call? = none) : RingStep t i ring ring none
  | tryEnqueue (call : i.call? = none) (part : i.part = .log) (record : Option LogRecord) :
    RingStep t i ring ring (some (.tryEnqueue record))
  | tryDequeue (call : i.call? = none) (part : i.part = .worker) :
    RingStep t i ring ring (some .tryDequeue)
  | exec {call : RingCall LogRecord} {fails : Bool} {ring' : MpscRingBuffer LogRecord}
      {next : RingNext LogRecord} (running : i.call? = some call)
      (exec : call.exec t fails ring = (ring', next)) : RingStep t i ring ring' next.call?

theorem ringStep_of_execLog (h : i.execLog t x s = some (s', pushed)) :
    RingStep t i s.queue s'.queue (pushed.head?.bind Instr.call?) := by
  cases i with
  | countPending level record =>
    cases h
    exact .tryEnqueue rfl rfl record
  | tryEnqueue level passed previousPending call =>
    simp only [Instr.execLog] at h
    split at h
    · rename_i hexec
      cases h
      exact .exec rfl hexec
    · rename_i hexec
      cases h
      exact .exec rfl hexec
    · rename_i hexec
      cases h
      exact .exec rfl hexec
    · cases h
  | _ =>
    simp only [Instr.execLog] at h
    (repeat' split at h) <;> cases h <;> exact .stay rfl

theorem ringStep_of_execWorker (h : i.execWorker t x s = some (s', pushed)) :
    RingStep t i s.queue s'.queue (pushed.head?.bind Instr.call?) := by
  cases i with
  | iterate consumed =>
    cases h
    exact .tryDequeue rfl rfl
  | tryDequeue consumed call =>
    simp only [Instr.execWorker] at h
    split at h
    · rename_i hexec
      cases h
      exact .exec rfl hexec
    · rename_i hexec
      cases h
      exact .exec rfl hexec
    · rename_i hexec
      cases h
      exact .exec rfl hexec
    · cases h
  | appendRecord record =>
    cases x with
    | append outcome =>
      cases h
      cases outcome <;> exact .stay rfl
    | _ => cases h
  | _ =>
    simp only [Instr.execWorker] at h
    (repeat' split at h) <;> cases h <;> exact .stay rfl

theorem ringStep_of_exec (h : i.exec t x s = some (s', pushed)) :
    RingStep t i s.queue s'.queue (pushed.head?.bind Instr.call?) := by
  obtain ⟨-, h⟩ | ⟨-, h⟩ | ⟨hlog, hworker⟩ := exec_cases h
  · exact ringStep_of_execLog h
  · exact ringStep_of_execWorker h
  · have hnone : pushed.head?.bind Instr.call? = none := by
      cases hhead : pushed.head? with
      | none => rfl
      | some j => exact (plain_of_exec hlog hworker h j (List.mem_of_head? hhead)).call
    rw [(sameQueue_of_exec hlog hworker h).queue, hnone]
    exact .stay (Instr.plain_of_part hlog hworker).call

theorem RingStep.grows {ring ring' : MpscRingBuffer LogRecord} {call? : Option (RingCall LogRecord)}
    (h : RingStep t i ring ring' call?) : ring'.capacity = ring.capacity ∧
      ring.claimed <+: ring'.claimed ∧ ring'.claimed.length ≤ ring.claimed.length + 1 ∧
      ring.dequeued <+: ring'.dequeued := by
  cases h with
  | exec hcall hexec =>
    refine ⟨RingCall.capacity_of_exec hexec, ?_⟩
    obtain ⟨hclaimed, hdequeued⟩ | ⟨_, -, hclaimed, hdequeued⟩ | ⟨_, hclaimed, hdequeued⟩ :=
      RingCall.growth_of_exec hexec
    all_goals
      rw [hclaimed, hdequeued]
      simp
  | _ => exact ⟨rfl, List.prefix_refl _, Nat.le_succ _, List.prefix_refl _⟩

structure Tally (i : Instr) (s s' : Shared) (pushed : List Instr) : Prop where
  producing : s'.activeProducers + UInt64.ofNat i.producing =
    s.activeProducers + UInt64.ofNat (Config.weigh Instr.producing pushed)
  pending : s'.pendingCount + UInt64.ofNat s'.queue.dequeued.length +
      UInt64.ofNat (s.queue.claimed.length + i.pending) =
    s.pendingCount + UInt64.ofNat s.queue.dequeued.length +
      UInt64.ofNat (s'.queue.claimed.length + Config.weigh Instr.pending pushed)
  accepted : s'.acceptedCount + UInt64.ofNat s.accepted.length =
    s.acceptedCount + UInt64.ofNat s'.accepted.length
  claiming : s'.queue.claimed.length + (s.accepted.length + i.claiming) =
    s.queue.claimed.length + (s'.accepted.length + Config.weigh Instr.claiming pushed)

theorem Tally.of_same (hproducers : SameProducers s s') (hqueue : SameQueue s s')
    (hproducing : i.producing = Config.weigh Instr.producing pushed)
    (hpending : i.pending = Config.weigh Instr.pending pushed)
    (hclaiming : i.claiming = Config.weigh Instr.claiming pushed) : Tally i s s' pushed := by
  refine ⟨?_, ?_, ?_, ?_⟩
  · rw [hproducers.activeProducers, hproducing]
  · rw [hqueue.pendingCount, hqueue.queue, hpending]
  · rw [hproducers.acceptedCount, hproducers.accepted]
  · rw [hqueue.queue, hproducers.accepted, hclaiming]

theorem tally_of_tryEnqueue {level : LogLevel} {passed : Option LogRecord}
    {previousPending : UInt64} {call : RingCall LogRecord}
    (hi : (Instr.tryEnqueue level passed previousPending call).CallOk)
    (h : (Instr.tryEnqueue level passed previousPending call).execLog t x s = some (s', pushed)) :
    Tally (.tryEnqueue level passed previousPending call) s s' pushed := by
  obtain ⟨hrole, hcarries⟩ := hi
  have hle := call.length_claims_le passed
  have htally : ∀ {ring : MpscRingBuffer LogRecord} {next : RingNext LogRecord} {j : Instr},
      call.exec t x.isSpurious s.queue = (ring, next) → j.producing = 1 →
      j.claiming = (next.claims passed).length → j.pending = 1 - (next.claims passed).length →
      Tally (.tryEnqueue level passed previousPending call) s { s with queue := ring } [j] := by
    intro ring next j hexec hproducing hclaiming hpending
    obtain ⟨hdequeued, hclaims⟩ := RingCall.claims_of_exec hrole hcarries hexec
    have hgrows := (RingStep.exec (t := t) (i := .tryEnqueue level passed previousPending call)
      rfl hexec).grows.2.1.length_le
    refine ⟨?_, ?_, rfl, ?_⟩
    · rw [Config.weigh_cons, hproducing]
      rfl
    · rw [Config.weigh_cons, Config.weigh_nil, hpending, hdequeued]
      change _ = _ + _ + UInt64.ofNat (ring.claimed.length + _)
      congr 2
      change _ + (1 - (call.claims passed).length) = _
      have hle' := next.length_claims_le passed
      omega
    · rw [Config.weigh_cons, Config.weigh_nil, hclaiming]
      change ring.claimed.length + (s.accepted.length + (call.claims passed).length) =
        s.queue.claimed.length + (s.accepted.length + ((next.claims passed).length + 0))
      omega
  simp only [Instr.execLog] at h
  split at h
  · rename_i hexec
    cases h
    exact htally hexec rfl rfl rfl
  · rename_i hexec
    cases h
    exact htally hexec rfl rfl rfl
  · rename_i hexec
    cases h
    exact htally hexec rfl rfl rfl
  · cases h

theorem tally_of_execLog (hi : i.CallOk) (h : i.execLog t x s = some (s', pushed)) :
    Tally i s s' pushed := by
  cases i with
  | enterProducer call =>
    cases h
    exact ⟨by change _ + 1 + 0 = _ + 1; grind, rfl, rfl, rfl⟩
  | finishProducer =>
    cases h
    exact ⟨by change _ - 1 + 1 = _ + 0; grind, rfl, rfl, rfl⟩
  | countPending level record =>
    cases h
    refine ⟨rfl, ?_, rfl, rfl⟩
    change _ + 1 + _ + UInt64.ofNat (_ + 0) = _ + _ + UInt64.ofNat (_ + 1)
    rw [UInt64.ofNat_add, UInt64.ofNat_add]
    grind
  | tryEnqueue level passed previousPending call => exact tally_of_tryEnqueue hi h
  | uncountPending level record =>
    have hpending : ∀ j : List Instr, Config.weigh Instr.pending j = 0 →
        s.pendingCount - 1 + UInt64.ofNat s.queue.dequeued.length +
          UInt64.ofNat (s.queue.claimed.length + 1) = s.pendingCount +
          UInt64.ofNat s.queue.dequeued.length +
            UInt64.ofNat (s.queue.claimed.length + Config.weigh Instr.pending j) := by
      intro j hj
      rw [hj, UInt64.ofNat_add, UInt64.ofNat_add]
      grind
    simp only [Instr.execLog] at h
    split at h <;> cases h <;> exact ⟨rfl, hpending _ rfl, rfl, rfl⟩
  | countAccepted level passed previousPending position =>
    have haccepted : s.acceptedCount + 1 + UInt64.ofNat s.accepted.length =
        s.acceptedCount + UInt64.ofNat (s.accepted ++ [(position, passed)]).length := by
      rw [List.length_append, UInt64.ofNat_add]
      change _ = _ + (_ + 1)
      grind
    have hclaiming : s.queue.claimed.length + (s.accepted.length + 1) =
        s.queue.claimed.length + ((s.accepted ++ [(position, passed)]).length + 0) := by
      rw [List.length_append]
      rfl
    simp only [Instr.execLog] at h
    (repeat' split at h) <;> cases h <;> exact ⟨rfl, rfl, haccepted, hclaiming⟩
  | logReturned passed ok =>
    cases h
    exact ⟨rfl, rfl, rfl, rfl⟩
  | _ =>
    simp only [Instr.execLog] at h
    (repeat' split at h) <;> cases h <;>
      exact .of_same ⟨rfl, rfl, rfl, rfl⟩ ⟨rfl, rfl⟩ rfl rfl rfl

theorem tally_of_execWorker (hi : i.CallOk) (h : i.execWorker t x s = some (s', pushed)) :
    Tally i s s' pushed := by
  cases i with
  | tryDequeue consumed call =>
    have htally : ∀ {ring : MpscRingBuffer LogRecord} {next : RingNext LogRecord} {j : Instr},
        call.exec t x.isSpurious s.queue = (ring, next) → j.producing = 0 → j.claiming = 0 →
        j.pending = next.takes.length →
        Tally (.tryDequeue consumed call) s { s with queue := ring } [j] := by
      intro ring next j hexec hproducing hclaiming hpending
      obtain ⟨hclaimed, taken, hdequeued, htakes⟩ := RingCall.takes_of_exec hi hexec
      refine ⟨?_, ?_, rfl, ?_⟩
      · rw [Config.weigh_cons, hproducing]
        rfl
      · rw [Config.weigh_cons, Config.weigh_nil, hpending]
        change _ + UInt64.ofNat ring.dequeued.length + UInt64.ofNat (_ + call.takes.length) =
          _ + _ + UInt64.ofNat (ring.claimed.length + _)
        rw [hclaimed, hdequeued, htakes]
        simp only [List.length_append, UInt64.ofNat_add]
        grind
      · rw [Config.weigh_cons, Config.weigh_nil, hclaiming]
        exact congrArg (· + s.accepted.length) (congrArg List.length hclaimed)
    simp only [Instr.execWorker] at h
    split at h
    · rename_i hexec
      cases h
      exact htally hexec rfl rfl rfl
    · rename_i hexec
      cases h
      exact htally hexec rfl rfl rfl
    · rename_i hexec
      cases h
      exact htally hexec rfl rfl rfl
    · cases h
  | uncountTaken record =>
    cases h
    refine ⟨rfl, ?_, rfl, rfl⟩
    change _ - 1 + _ + UInt64.ofNat (_ + 1) = _ + _ + UInt64.ofNat (_ + 0)
    rw [UInt64.ofNat_add, UInt64.ofNat_add]
    grind
  | appendRecord record =>
    cases x with
    | append outcome =>
      cases h
      cases outcome <;> exact .of_same ⟨rfl, rfl, rfl, rfl⟩ ⟨rfl, rfl⟩ rfl rfl rfl
    | _ => cases h
  | _ =>
    simp only [Instr.execWorker] at h
    (repeat' split at h) <;> cases h <;>
      exact .of_same ⟨rfl, rfl, rfl, rfl⟩ ⟨rfl, rfl⟩ rfl rfl rfl

theorem tally_of_exec (hi : i.CallOk) (h : i.exec t x s = some (s', pushed)) :
    Tally i s s' pushed := by
  obtain ⟨-, h⟩ | ⟨-, h⟩ | ⟨hlog, hworker⟩ := exec_cases h
  · exact tally_of_execLog hi h
  · exact tally_of_execWorker hi h
  · have hplain := Instr.plain_of_part hlog hworker
    have hpushed := plain_of_exec hlog hworker h
    exact .of_same (sameProducers_of_exec hlog h) (sameQueue_of_exec hlog hworker h)
      (hplain.producing.trans (Config.weigh_eq_zero fun j hj => (hpushed j hj).producing).symm)
      (hplain.pending.trans (Config.weigh_eq_zero fun j hj => (hpushed j hj).pending).symm)
      (hplain.claiming.trans (Config.weigh_eq_zero fun j hj => (hpushed j hj).claiming).symm)

def Instr.Owned (s : Shared) (t : Nat) : Instr → Prop
  | .tryEnqueue _ passed _ call =>
    ∀ position ∈ call.writes, s.queue.claimed[position.toNat]? = some (t, passed)
  | .countAccepted _ passed _ position => s.queue.claimed[position]? = some (t, passed)
  | .logReturned passed ok => ok = true → ∀ record ∈ passed, ∃ p, (p, some record) ∈ s.accepted
  | _ => True

def Instr.free : Instr → Bool
  | .tryEnqueue _ _ _ _ => false
  | .countAccepted _ _ _ _ => false
  | .logReturned passed ok => !ok || passed.isNone
  | _ => true

theorem Instr.owned_of_free (h : (pushed.all fun j => j.free) = true) :
    ∀ j ∈ pushed, j.Owned s t := by
  intro j hj
  have hfree := List.all_eq_true.mp h j hj
  cases j with
  | tryEnqueue => cases hfree
  | countAccepted => cases hfree
  | logReturned passed ok =>
    cases ok with
    | false => nofun
    | true =>
      cases passed with
      | none => rintro _ _ ⟨⟩
      | some record => cases hfree
  | _ => trivial

theorem Instr.Owned.mono (h : i.Owned s t) (hclaimed : s.queue.claimed <+: s'.queue.claimed)
    (haccepted : s.accepted <+: s'.accepted) : i.Owned s' t := by
  cases i with
  | tryEnqueue level passed previousPending call =>
    exact fun position hposition => getElem?_of_prefix hclaimed (h position hposition)
  | countAccepted level passed previousPending position => exact getElem?_of_prefix hclaimed h
  | logReturned passed ok =>
    intro hok record hrecord
    obtain ⟨p, hp⟩ := h hok record hrecord
    exact ⟨p, haccepted.subset hp⟩
  | _ => trivial

theorem accepted_of_exec (h : i.exec t x s = some (s', pushed)) :
    (s'.accepted = s.accepted ∨ ∃ level passed previousPending position,
      i = .countAccepted level passed previousPending position ∧
        s'.accepted = s.accepted ++ [(position, passed)]) ∧
    (s'.returned = s.returned ∨ ∃ passed, i = .logReturned passed true ∧
      s'.returned = s.returned ++ passed.toList) := by
  by_cases hpart : i.part = .log
  · obtain ⟨-, h⟩ | ⟨hworker, -⟩ | ⟨hlog, -⟩ := exec_cases h
    · cases i with
      | countAccepted level passed previousPending position =>
        cases h
        exact ⟨.inr ⟨level, passed, previousPending, position, rfl, rfl⟩, .inl rfl⟩
      | logReturned passed ok =>
        cases h
        cases ok with
        | false => exact ⟨.inl rfl, .inl (List.append_nil _)⟩
        | true => exact ⟨.inl rfl, .inr ⟨passed, rfl, rfl⟩⟩
      | _ =>
        simp only [Instr.execLog] at h
        (repeat' split at h) <;> cases h <;> exact ⟨.inl rfl, .inl rfl⟩
    · rw [hpart] at hworker
      cases hworker
    · exact absurd hpart hlog
  · have hsame := sameProducers_of_exec hpart h
    exact ⟨.inl hsame.accepted, .inl hsame.returned⟩

theorem accepted_prefix_of_exec (h : i.exec t x s = some (s', pushed)) :
    s.accepted <+: s'.accepted := by
  obtain ⟨heq | ⟨_, _, _, _, -, heq⟩, -⟩ := accepted_of_exec h
  · rw [heq]
  · rw [heq]
    exact List.prefix_append _ _

theorem owned_of_execLog (hi : i.Owned s t) (hcall : i.CallOk)
    (hposition : s.queue.enqueuePosition.toNat = s.queue.claimed.length)
    (h : i.execLog t x s = some (s', pushed)) : ∀ j ∈ pushed, j.Owned s' t := by
  cases i with
  | countPending level record =>
    cases h
    intro j hj
    rw [List.mem_singleton.mp hj]
    rintro _ ⟨⟩
  | tryEnqueue level passed previousPending call =>
    simp only [Instr.execLog] at h
    split at h
    · rename_i hexec
      cases h
      intro j hj
      rw [List.mem_singleton.mp hj]
      exact RingCall.owns_of_exec hcall.2 hposition hi hexec
    · rename_i hexec
      obtain ⟨position, hwrites, hclaimed⟩ := RingCall.writes_of_enqueued hexec
      cases h
      intro j hj
      rw [List.mem_singleton.mp hj, hwrites]
      change _[position.toNat]? = _
      rw [hclaimed]
      exact hi position hwrites
    · cases h
      exact Instr.owned_of_free rfl
    · cases h
  | countAccepted level passed previousPending position =>
    have hreturned : (Instr.logReturned passed true).Owned s' t := by
      cases h
      exact fun _ record hrecord => ⟨position, by rw [← hrecord]; simp⟩
    cases h
    intro j hj
    rw [List.mem_append] at hj
    cases hj with
    | inl hj =>
      refine Instr.owned_of_free ?_ j hj
      split <;> split <;> rfl
    | inr hj =>
      rw [List.mem_singleton.mp hj]
      exact hreturned
  | _ =>
    simp only [Instr.execLog] at h
    (repeat' split at h) <;> cases h <;> exact Instr.owned_of_free rfl

theorem owned_of_exec (hi : i.Owned s t) (hcall : i.CallOk)
    (hposition : s.queue.enqueuePosition.toNat = s.queue.claimed.length)
    (h : i.exec t x s = some (s', pushed)) : ∀ j ∈ pushed, j.Owned s' t := by
  by_cases hpart : i.part = .log
  · obtain ⟨-, h⟩ | ⟨hworker, -⟩ | ⟨hlog, -⟩ := exec_cases h
    · exact owned_of_execLog hi hcall hposition h
    · rw [hpart] at hworker
      cases hworker
    · exact absurd hpart hlog
  · intro j hj
    by_cases hj' : j.part = .log
    · obtain ⟨call, rfl⟩ := log_of_exec hpart h j hj hj'
      trivial
    · cases j <;> trivial

end Exec


/-- The positions of the ring and the numbers of the records and threads are far from a wrap. -/
def InRange (c : Config) : Prop :=
  c.shared.queue.claimed.length + c.shared.queue.capacity.toNat + c.threads.length < 2 ^ 64

theorem ringInv_step {c c' : Config} {t : Nat} {i : Instr} (hshape : Shape c)
    (inv : RingInv c.shared.queue (calls c)) (hcapacity : 2 ≤ c.shared.queue.capacity.toNat)
    (hrange : InRange c) (hstep : machine.Step c t i c') :
    RingInv c'.shared.queue (calls c') := by
  obtain @⟨rest, x, s, pushed, htop, hexec⟩ := hstep
  have hring := ringStep_of_exec hexec
  have hcall : calls c t = i.call? := Library.Config.heads_of_top _ htop
  have hcalls : calls (c.replace t s (pushed ++ rest)) =
      Function.update (calls c) t (pushed.head?.bind Instr.call?) :=
    Library.Config.heads_replace hshape.calls htop s pushed
  have hallowed := (hshape.ok t i (Library.Config.active_of_top htop)).1
  have hthread := Library.Config.lt_length_of_top htop
  obtain ⟨hcap, -, hlength, -⟩ := hring.grows
  rw [Library.Config.shared_replace, hcalls]
  revert hring hcap hlength
  generalize pushed.head?.bind Instr.call? = call?
  generalize s.queue = ring'
  intro hring hcap hlength
  cases hring with
  | stay hnone =>
    rw [← show calls c t = none from hcall.trans hnone, Function.update_eq_self]
    exact inv
  | tryEnqueue hnone hpart record =>
    rw [hpart] at hallowed
    exact inv.tryEnqueue (hcall.trans hnone) hallowed record
  | tryDequeue hnone hpart =>
    rw [hpart] at hallowed
    obtain rfl : t = 0 := hallowed
    exact inv.tryDequeue (hcall.trans hnone)
  | exec hsome hcallexec =>
    refine inv.exec hcapacity (hcall.trans hsome) hcallexec ?_
    rw [InRange] at hrange
    rw [hcap]
    omega

structure Records (c : Config) : Prop where
  shape : Shape c
  capacity : 2 ≤ c.shared.queue.capacity.toNat
  ring : RingInv c.shared.queue (calls c)
  producing : c.shared.activeProducers = UInt64.ofNat (c.total Instr.producing)
  pending : c.shared.pendingCount + UInt64.ofNat c.shared.queue.dequeued.length =
    UInt64.ofNat (c.shared.queue.claimed.length + c.total Instr.pending)
  acceptedCount : c.shared.acceptedCount = UInt64.ofNat c.shared.accepted.length
  claiming : c.shared.queue.claimed.length =
    c.shared.accepted.length + c.total Instr.claiming
  owned : ∀ t i, c.Active t i → i.Owned c.shared t
  accepted : ∀ entry ∈ c.shared.accepted,
    ∃ t, c.shared.queue.claimed[entry.1]? = some (t, entry.2)
  returned : ∀ record ∈ c.shared.returned, ∃ p, (p, some record) ∈ c.shared.accepted

theorem calls_init {config : LoggerConfig} {n : Nat} : calls (init config n) = fun _ => none := by
  funext t
  cases htop : (init config n).stack t with
  | nil =>
    rw [calls, Library.Config.heads, htop]
    rfl
  | cons i rest =>
    rw [calls, Library.Config.heads_of_top _ htop]
    obtain ⟨-, ⟨-, rfl⟩ | ⟨-, rfl⟩⟩ := init_stack htop
    · rfl
    · rfl

theorem records_init {config : LoggerConfig} {n : Nat} (hcapacity : 2 ≤ config.maxQueueSize.toNat) :
    Records (init config n) := by
  refine ⟨shape_init, hcapacity, by rw [calls_init]; exact RingInv.new, ?_, ?_, rfl, ?_, ?_, ?_, ?_⟩
  · rw [total_init]
    rfl
  · rw [total_init]
    rfl
  · rw [total_init]
    rfl
  · intro t i hactive
    obtain ⟨-, rfl⟩ | ⟨-, rfl⟩ := init_active hactive <;> trivial
  · rintro _ ⟨⟩
  · rintro _ ⟨⟩

theorem Records.step {c c' : Config} {t : Nat} {i : Instr} (h : Records c) (hrange : InRange c)
    (hstep : machine.Step c t i c') : Records c' := by
  have hshape := h.shape.step hstep
  have hring := ringInv_step h.shape h.ring h.capacity hrange hstep
  obtain @⟨rest, x, s, pushed, htop, hexec⟩ := hstep
  have hactive := Library.Config.active_of_top htop
  have hcall := (h.shape.ok t i hactive).2
  have htally := tally_of_exec hcall hexec
  have htokens := fun w => Library.Config.total_replace w htop s pushed
  obtain ⟨hcapacity, hclaimed, -, -⟩ := (ringStep_of_exec hexec).grows
  have hgrows := accepted_prefix_of_exec hexec
  obtain ⟨haccepted, hreturned⟩ := accepted_of_exec hexec
  have howned := owned_of_exec (h.owned t i hactive) hcall h.ring.position hexec
  refine ⟨hshape, ?_, hring, ?_, ?_, ?_, ?_, ?_, ?_, ?_⟩
  · exact hcapacity ▸ h.capacity
  · exact eq_ofNat_of_balance h.producing htally.producing (htokens Instr.producing)
  · refine eq_ofNat_of_balance h.pending htally.pending ?_
    have := htokens Instr.pending
    rw [Library.Config.shared_replace]
    omega
  · refine eq_ofNat_of_balance h.acceptedCount htally.accepted ?_
    rw [Library.Config.shared_replace]
    omega
  · have := htokens Instr.claiming
    have := h.claiming
    have := htally.claiming
    rw [Library.Config.shared_replace]
    omega
  · intro t' j hj
    obtain ⟨rfl, hmem⟩ | hold := Library.Config.active_of_replace htop hj
    · exact howned j hmem
    · exact (h.owned t' j hold).mono hclaimed hgrows
  · intro entry hentry
    have hkeep : ∀ entry ∈ c.shared.accepted,
        ∃ t, s.queue.claimed[entry.1]? = some (t, entry.2) := by
      intro entry hentry
      obtain ⟨t', hget⟩ := h.accepted entry hentry
      exact ⟨t', getElem?_of_prefix hclaimed hget⟩
    obtain heq | ⟨level, passed, previousPending, position, rfl, heq⟩ := haccepted
    · exact hkeep entry (heq ▸ hentry)
    · rw [Library.Config.shared_replace, heq, List.mem_append] at hentry
      cases hentry with
      | inl hentry => exact hkeep entry hentry
      | inr hentry =>
        rw [List.mem_singleton.mp hentry]
        exact ⟨t, getElem?_of_prefix hclaimed (h.owned t _ hactive)⟩
  · intro record hrecord
    have hkeep : ∀ record ∈ c.shared.returned, ∃ p, (p, some record) ∈ s.accepted := by
      intro record hrecord
      obtain ⟨p, hp⟩ := h.returned record hrecord
      exact ⟨p, hgrows.subset hp⟩
    obtain heq | ⟨passed, rfl, heq⟩ := hreturned
    · exact hkeep record (heq ▸ hrecord)
    · rw [Library.Config.shared_replace, heq, List.mem_append] at hrecord
      cases hrecord with
      | inl hrecord => exact hkeep record hrecord
      | inr hrecord =>
        obtain ⟨p, hp⟩ := h.owned t _ hactive rfl record (by simpa using hrecord)
        exact ⟨p, hgrows.subset hp⟩

end UnixNotes.Logger.AsyncLogger
