import UnixNotes.Reactor.EpollPoller

namespace UnixNotes.Reactor.EpollPoller

variable {κ : Type*} {fd : κ ↪ Nat} {channel : κ} {s s' s'' : State κ}

structure Frame (fd : κ ↪ Nat) (channel : κ) (s s' : State κ) : Prop where
  events : ∀ other, other ≠ channel → s'.events other = s.events other
  index : ∀ other, other ≠ channel → s'.index other = s.index other
  interest : ∀ n, n ≠ fd channel → s'.interest n = s.interest n
  channels : ∀ n, n ≠ fd channel → s'.channels n = s.channels n

namespace Frame

theorem refl (fd : κ ↪ Nat) (channel : κ) (s : State κ) : Frame fd channel s s :=
  ⟨fun _ _ => rfl, fun _ _ => rfl, fun _ _ => rfl, fun _ _ => rfl⟩

theorem trans (h : Frame fd channel s s') (h' : Frame fd channel s' s'') :
    Frame fd channel s s'' := by
  refine ⟨fun other hne => ?_, fun other hne => ?_, fun n hne => ?_, fun n hne => ?_⟩
  · exact (h'.events other hne).trans (h.events other hne)
  · exact (h'.index other hne).trans (h.index other hne)
  · exact (h'.interest n hne).trans (h.interest n hne)
  · exact (h'.channels n hne).trans (h.channels n hne)

theorem setChannel (s : State κ) (stored : Option κ) :
    Frame fd channel s { s with channels := Function.update s.channels (fd channel) stored } :=
  ⟨fun _ _ => rfl, fun _ _ => rfl, fun _ _ => rfl, fun _ hne => Function.update_of_ne hne ..⟩

theorem emplace (s : State κ) : Frame fd channel s (emplace fd channel s) := by
  rw [EpollPoller.emplace]
  split
  · exact refl fd channel s
  · exact setChannel s _

theorem update (refused : Bool) (operation : Operation) (s : State κ) :
    Frame fd channel s (update fd channel refused operation s).1 := by
  have hctl {interest : Interest κ} {event : UInt32 × κ} (h : epollCtl s.interest operation
      (fd channel) event refused = .ok interest) (n : Nat) (hne : n ≠ fd channel) :
      interest n = s.interest n := by
    simp only [epollCtl] at h
    split at h
    · cases h
    · split at h <;> cases h <;> exact Function.update_of_ne hne ..
  simp only [EpollPoller.update]
  split
  · rename_i hok
    exact ⟨fun _ _ => rfl, fun _ _ => rfl, hctl hok, fun _ _ => rfl⟩
  · split <;> exact refl fd channel s

variable [DecidableEq κ]

theorem setIndex (s : State κ) (index : Index) :
    Frame fd channel s (setIndex channel s index) :=
  ⟨fun _ _ => rfl, fun _ hne => Function.update_of_ne hne .., fun _ _ => rfl, fun _ _ => rfl⟩

theorem setEvents (call : Call κ) (s : State κ) : Frame fd call.channel s (call.setEvents s) :=
  ⟨fun _ hne => Function.update_of_ne hne .., fun _ _ => rfl, fun _ _ => rfl, fun _ _ => rfl⟩

theorem updateChannel (refused : Bool) (s : State κ) :
    Frame fd channel s (updateChannel fd channel refused s).1 := by
  simp only [EpollPoller.updateChannel]
  split
  · exact (emplace s).trans <| (setIndex _ _).trans (update refused _ _)
  · exact (setIndex s _).trans (update refused _ _)
  · split
    · have hupdate : Frame fd channel s (EpollPoller.update fd channel refused .del s).1 :=
        update refused .del s
      split
      · rename_i heq
        rw [heq] at hupdate
        exact hupdate.trans (setIndex _ _)
      · rename_i heq
        rw [heq] at hupdate
        exact hupdate
    · exact update refused _ s

theorem removeChannel (refused : Bool) (s : State κ) :
    Frame fd channel s (removeChannel fd channel refused s).1 := by
  simp only [EpollPoller.removeChannel]
  split
  · exact refl fd channel s
  · have hupdate : Frame fd channel s (if s.index channel = .kAdded then
        EpollPoller.update fd channel refused .del s else (s, none)).1 := by
      split
      · exact update refused .del s
      · exact refl fd channel s
    split
    · rename_i heq
      rw [heq] at hupdate
      exact hupdate.trans <| (setChannel _ none).trans (setIndex _ _)
    · rename_i heq
      rw [heq] at hupdate
      exact hupdate

theorem apply (call : Call κ) (s : State κ) :
    Frame fd call.channel s (call.apply fd s).1 := by
  simp only [Call.apply]
  split
  · exact setEvents call s
  · exact removeChannel call.refused s
  · exact (setEvents call s).trans (updateChannel call.refused _)

end Frame

structure At (fd : κ ↪ Nat) (s : State κ) (channel : κ) : Prop where
  interest : s.interest (fd channel) =
    if s.index channel = .kAdded then some (s.events channel, channel) else none
  nonempty : s.events channel = 0 → s.index channel ≠ .kAdded
  channels : s.channels (fd channel) = if s.index channel = .kNew then none else some channel

structure NoOthers (fd : κ ↪ Nat) (s : State κ) : Prop where
  interest : ∀ n, (∀ channel, fd channel ≠ n) → s.interest n = none
  channels : ∀ n, (∀ channel, fd channel ≠ n) → s.channels n = none

theorem InStep.at (h : InStep fd s) (channel : κ) : At fd s channel := by
  have hinterest : s.interest (fd channel) =
      if s.index channel = .kAdded then some (s.events channel, channel) else none := by
    split
    · rename_i hadded
      exact (h.interest _ _).mpr ⟨rfl, hadded, rfl⟩
    · rename_i hadded
      refine Option.eq_none_iff_forall_ne_some.mpr fun event hevent => ?_
      obtain ⟨hfd, hindex, -⟩ := (h.interest _ _).mp hevent
      rw [fd.injective hfd] at hindex
      exact hadded hindex
  refine ⟨hinterest, fun hempty hadded => ?_, ?_⟩
  · rw [h.nonempty channel hempty, if_pos hadded] at hinterest
    cases hinterest
  · split
    · rename_i hnew
      refine Option.eq_none_iff_forall_ne_some.mpr fun other hother => ?_
      obtain ⟨hfd, hindex⟩ := (h.channels _ _).mp hother
      rw [fd.injective hfd] at hindex
      exact hindex hnew
    · exact (h.channels _ _).mpr ⟨rfl, ‹_›⟩

theorem InStep.noOthers (h : InStep fd s) : NoOthers fd s := by
  refine ⟨fun n hn => ?_, fun n hn => ?_⟩
  · exact Option.eq_none_iff_forall_ne_some.mpr fun event hevent =>
      hn event.2 ((h.interest _ _).mp hevent).1
  · exact Option.eq_none_iff_forall_ne_some.mpr fun channel hchannel =>
      hn channel ((h.channels _ _).mp hchannel).1

theorem inStep_of_at (hat : ∀ channel, At fd s channel) (hothers : NoOthers fd s) :
    InStep fd s := by
  refine ⟨fun n event => ⟨fun h => ?_, fun ⟨hfd, hadded, hmask⟩ => ?_⟩, fun channel hempty => ?_,
    fun n channel => ⟨fun h => ?_, fun ⟨hfd, hnew⟩ => ?_⟩⟩
  · by_cases hn : ∃ channel, fd channel = n
    · obtain ⟨channel, rfl⟩ := hn
      rw [(hat channel).interest, Option.ite_none_right_eq_some] at h
      obtain ⟨hadded, heq⟩ := h
      cases heq
      exact ⟨rfl, hadded, rfl⟩
    · rw [hothers.interest n (not_exists.mp hn)] at h
      cases h
  · rw [← hfd, (hat event.2).interest, if_pos hadded, ← hmask]
  · rw [(hat channel).interest, if_neg ((hat channel).nonempty hempty)]
  · by_cases hn : ∃ other, fd other = n
    · obtain ⟨other, rfl⟩ := hn
      rw [(hat other).channels, Option.ite_none_left_eq_some] at h
      obtain ⟨hnew, heq⟩ := h
      cases heq
      exact ⟨rfl, hnew⟩
    · rw [hothers.channels n (not_exists.mp hn)] at h
      cases h
  · rw [← hfd, (hat channel).channels, if_neg hnew]

theorem At.frame {other : κ} (hat : At fd s other) (h : Frame fd channel s s')
    (hne : other ≠ channel) : At fd s' other := by
  have hfd : fd other ≠ fd channel := fun heq => hne (fd.injective heq)
  refine ⟨?_, ?_, ?_⟩
  · rw [h.interest _ hfd, h.index _ hne, h.events _ hne]
    exact hat.interest
  · rw [h.index _ hne, h.events _ hne]
    exact hat.nonempty
  · rw [h.channels _ hfd, h.index _ hne]
    exact hat.channels

theorem NoOthers.frame (hothers : NoOthers fd s) (h : Frame fd channel s s') :
    NoOthers fd s' := by
  refine ⟨fun n hn => ?_, fun n hn => ?_⟩
  · rw [h.interest n (hn channel).symm]
    exact hothers.interest n hn
  · rw [h.channels n (hn channel).symm]
    exact hothers.channels n hn

theorem InStep.iff_at (h : InStep fd s) (hframe : Frame fd channel s s') :
    InStep fd s' ↔ At fd s' channel := by
  refine ⟨fun h' => h'.at channel, fun hat => inStep_of_at (fun other => ?_)
    (h.noOthers.frame hframe)⟩
  by_cases hne : other = channel
  · rw [hne]
    exact hat
  · exact (h.at other).frame hframe hne

theorem InStep.init (fd : κ ↪ Nat) : InStep fd {} :=
  inStep_of_at (fun _ => ⟨rfl, fun _ => nofun, rfl⟩) ⟨fun _ _ => rfl, fun _ _ => rfl⟩

theorem at_kNew (h : s.index channel = .kNew) : At fd s channel ↔
    s.interest (fd channel) = none ∧ s.channels (fd channel) = none := by
  refine ⟨fun hat => ⟨?_, ?_⟩, fun ⟨hinterest, hchannels⟩ => ⟨?_, ?_, ?_⟩⟩
  · simpa [h] using hat.interest
  · simpa [h] using hat.channels
  all_goals simp [h, hinterest, hchannels]

theorem at_kDeleted (h : s.index channel = .kDeleted) : At fd s channel ↔
    s.interest (fd channel) = none ∧ s.channels (fd channel) = some channel := by
  refine ⟨fun hat => ⟨?_, ?_⟩, fun ⟨hinterest, hchannels⟩ => ⟨?_, ?_, ?_⟩⟩
  · simpa [h] using hat.interest
  · simpa [h] using hat.channels
  all_goals simp [h, hinterest, hchannels]

theorem at_kAdded (h : s.index channel = .kAdded) : At fd s channel ↔
    s.interest (fd channel) = some (s.events channel, channel) ∧ s.events channel ≠ 0 ∧
      s.channels (fd channel) = some channel := by
  refine ⟨fun hat => ⟨?_, fun hempty => hat.nonempty hempty h, ?_⟩,
    fun ⟨hinterest, hnonempty, hchannels⟩ => ⟨?_, ?_, ?_⟩⟩
  · simpa [h] using hat.interest
  · simpa [h] using hat.channels
  all_goals simp [h, hinterest, hnonempty, hchannels]

theorem update_eq {refused : Bool} {operation : Operation}
    (h : operation = .add ↔ s.interest (fd channel) = none) :
    update fd channel refused operation s =
      if refused then (s, some operation.thrown)
      else
        ({ s with
            interest := Function.update s.interest (fd channel)
              (if operation = .del then none else some (s.events channel, channel)) },
          none) := by
  cases refused with
  | true => simp [update, epollCtl]
  | false =>
    cases hget : s.interest (fd channel) with
    | none =>
      obtain rfl := h.mpr hget
      simp [update, epollCtl, hget]
    | some event =>
      rw [hget] at h
      cases operation with
      | add => exact absurd (h.mp rfl) (by simp)
      | mod | del => simp [update, epollCtl, hget]

theorem update_mod {refused : Bool} (h : s.interest (fd channel) ≠ none) :
    update fd channel refused .mod s =
      if refused then (s, some Operation.mod.thrown)
      else
        ({ s with
            interest := Function.update s.interest (fd channel)
              (some (s.events channel, channel)) },
          none) :=
  update_eq (iff_of_false nofun h)

theorem update_del {refused : Bool} (h : s.interest (fd channel) ≠ none) :
    update fd channel refused .del s =
      if refused then (s, some Operation.del.thrown)
      else ({ s with interest := Function.update s.interest (fd channel) none }, none) :=
  update_eq (iff_of_false nofun h)

theorem at_add {refused : Bool} (hindex : s.index channel = .kAdded)
    (hinterest : s.interest (fd channel) = none) (hchannels : s.channels (fd channel) = some channel) :
    At fd (update fd channel refused .add s).1 channel ↔
      refused = false ∧ s.events channel ≠ 0 := by
  rw [update_eq (iff_of_true rfl hinterest)]
  cases refused with
  | true => simp [at_kAdded hindex, hinterest]
  | false =>
    rw [at_kAdded (by exact hindex)]
    simp [hchannels]

variable [DecidableEq κ]

theorem at_updateChannel {call : Call κ} (h : At fd s call.channel) :
    At fd (updateChannel fd call.channel call.refused (call.setEvents s)).1 call.channel ↔
      if s.index call.channel = .kAdded then
        call.refused = true → call.mask s ≠ 0 ∧ call.mask s = s.events call.channel
      else call.refused = false ∧ call.mask s ≠ 0 := by
  have hindex : (call.setEvents s).index = s.index := rfl
  have hevents : (call.setEvents s).events call.channel = call.mask s := Function.update_self ..
  cases hcase : s.index call.channel with
  | kNew =>
    obtain ⟨hinterest, hchannels⟩ := (at_kNew hcase).mp h
    have hemplace : emplace fd call.channel (call.setEvents s) =
        { call.setEvents s with
          channels := Function.update s.channels (fd call.channel) (some call.channel) } := by
      simp [emplace, Call.setEvents, hchannels]
    rw [if_neg nofun, ← hevents, updateChannel, hindex, hcase, hemplace]
    exact at_add (Function.update_self ..) hinterest (Function.update_self ..)
  | kDeleted =>
    obtain ⟨hinterest, hchannels⟩ := (at_kDeleted hcase).mp h
    rw [if_neg nofun, ← hevents, updateChannel, hindex, hcase]
    exact at_add (Function.update_self ..) hinterest hchannels
  | kAdded =>
    obtain ⟨hinterest, hnonempty, hchannels⟩ := (at_kAdded hcase).mp h
    have hregistered : (call.setEvents s).interest (fd call.channel) ≠ none := by
      simp [Call.setEvents, hinterest]
    rw [if_pos rfl, updateChannel, hindex, hcase]
    simp only [hevents]
    by_cases hempty : call.mask s = 0
    · rw [if_pos hempty, update_del hregistered]
      cases call.refused with
      | true =>
        refine (at_kAdded (s := call.setEvents s) hcase).trans ?_
        simp [hevents, hempty]
      | false =>
        rw [at_kDeleted (by exact Function.update_self ..)]
        simpa [setIndex, Call.setEvents] using hchannels
    · rw [if_neg hempty, update_mod hregistered]
      cases call.refused with
      | true =>
        refine (at_kAdded (s := call.setEvents s) hcase).trans ?_
        have hsame : (call.setEvents s).interest (fd call.channel) =
            some (s.events call.channel, call.channel) := hinterest
        simp [hevents, hsame, hempty, eq_comm, show (call.setEvents s).channels = s.channels from rfl,
          hchannels]
      | false =>
        refine (at_kAdded (by exact hcase)).trans ?_
        simp [hevents, hempty, show (call.setEvents s).channels = s.channels from rfl, hchannels]

theorem at_removeChannel {refused : Bool} (h : At fd s channel) :
    At fd (removeChannel fd channel refused s).1 channel := by
  rw [removeChannel]
  split
  · exact h
  · rename_i hfound
    have hremoved {s' : State κ} (hinterest : s'.interest (fd channel) = none) :
        At fd (setIndex channel
          { s' with channels := Function.update s'.channels (fd channel) none } .kNew) channel :=
      (at_kNew (Function.update_self ..)).mpr ⟨hinterest, Function.update_self ..⟩
    cases hcase : s.index channel with
    | kNew => exact absurd ((at_kNew hcase).mp h).2 hfound
    | kDeleted =>
      rw [if_neg nofun]
      exact hremoved ((at_kDeleted hcase).mp h).1
    | kAdded =>
      have hregistered : s.interest (fd channel) ≠ none := by
        simp [((at_kAdded hcase).mp h).1]
      rw [if_pos rfl, update_del hregistered]
      cases refused with
      | true => exact h
      | false => exact hremoved (Function.update_self ..)

theorem at_setEvents {call : Call κ} (h : At fd s call.channel)
    (hmask : call.mask s = 0 → s.events call.channel = 0) :
    At fd (call.setEvents s) call.channel ↔
      (s.index call.channel = .kAdded → call.mask s = s.events call.channel) := by
  have hevents : (call.setEvents s).events call.channel = call.mask s := Function.update_self ..
  cases hcase : s.index call.channel with
  | kNew =>
    exact iff_of_true ((at_kNew (s := call.setEvents s) hcase).mpr ((at_kNew hcase).mp h)) nofun
  | kDeleted =>
    exact iff_of_true ((at_kDeleted (s := call.setEvents s) hcase).mpr ((at_kDeleted hcase).mp h))
      nofun
  | kAdded =>
    obtain ⟨hinterest, hnonempty, hchannels⟩ := (at_kAdded hcase).mp h
    rw [at_kAdded (by exact hcase), hevents]
    simp [Call.setEvents, hinterest, hchannels, mt hmask hnonempty, eq_comm]

theorem at_apply {call : Call κ} (h : At fd s call.channel) :
    At fd (call.apply fd s).1 call.channel ↔ call.Fits s := by
  obtain ⟨other, request, refused⟩ := call
  cases request with
  | enableEdgeTrigger =>
    refine at_setEvents h fun hempty => ?_
    exact absurd (UInt32.or_eq_zero_iff.mp hempty).2 (by decide)
  | remove => exact iff_of_true (at_removeChannel h) trivial
  | _ => exact at_updateChannel h

theorem InStep.apply_iff (h : InStep fd s) (call : Call κ) :
    InStep fd (call.apply fd s).1 ↔ call.Fits s :=
  (h.iff_at (.apply call s)).trans (at_apply (h.at call.channel))

theorem inStep_run_iff (h : InStep fd s) (calls : List (Call κ)) :
    (∀ made, made <+: calls → InStep fd (run fd s made)) ↔ AllFit fd s calls := by
  induction calls generalizing s with
  | nil => exact iff_of_true (fun made hmade => List.prefix_nil.mp hmade ▸ h) trivial
  | cons call calls ih =>
    rw [AllFit, ← h.apply_iff]
    constructor
    · intro hall
      have hfirst : InStep fd (call.apply fd s).1 := by
        simpa [run] using hall [call] (List.prefix_append [call] calls)
      refine ⟨hfirst, (ih hfirst).mp fun made hmade => ?_⟩
      exact hall (call :: made) (List.cons_prefix_cons.mpr ⟨rfl, hmade⟩)
    · rintro ⟨hfirst, hrest⟩ made hmade
      cases made with
      | nil => exact h
      | cons first made =>
        obtain ⟨rfl, hprefix⟩ := List.cons_prefix_cons.mp hmade
        exact (ih hfirst).mpr hrest made hprefix

/-- What of the poller, the channels and the kernel can be said after every call. -/
theorem inStep_iff (fd : κ ↪ Nat) (calls : List (Call κ)) :
    (∀ made, made <+: calls → InStep fd (run fd {} made)) ↔ AllFit fd {} calls :=
  inStep_run_iff (.init fd) calls

def oneChannel : Unit ↪ Nat := ⟨fun _ => 7, Function.injective_of_subsingleton _⟩

/-- A second `disableAll` registers the empty mask, and a channel whose `EPOLL_CTL_ADD` has failed
has the index of one that is registered. -/
theorem out_of_step :
    ¬InStep oneChannel (run oneChannel {}
      [⟨(), .enableReading, false⟩, ⟨(), .disableAll, false⟩, ⟨(), .disableAll, false⟩]) ∧
    ¬InStep oneChannel (run oneChannel {} [⟨(), .enableReading, true⟩]) := by
  refine ⟨fun h => ?_, fun h => ?_⟩
  · exact absurd (h.nonempty () (by decide)) (by decide)
  · exact absurd (h.at ()).interest (by decide)

end UnixNotes.Reactor.EpollPoller
