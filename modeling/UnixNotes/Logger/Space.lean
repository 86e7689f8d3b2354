import UnixNotes.Logger.RingPositions
import UnixNotes.Logger.Wakeup

namespace UnixNotes.Logger.AsyncLogger

open Library

namespace Instr

def holding : Instr → Option Bool
  | .lock .space => some false
  | .unlock .space => some true
  | .notifyOne .space => some true
  | .park .space => some true
  | .spaceState _ _ => some true
  | .spaceProduced _ _ => some true
  | .spaceConsumed _ _ _ => some true
  | .spaceLeft _ _ => some true
  | _ => none

def covers : Instr → Bool
  | .unlock .space => true
  | .finishProducer => false
  | i => i.phase.isSome || i.part = .user || i.part = .worker

def outside (i : Instr) : Bool := i.holding.isNone

end Instr

section Exec

variable {t : Nat} {i : Instr} {x : Choice} {s s' : Shared} {pushed : List Instr}

theorem owner_cases (h : i.exec t x s = some (s', pushed)) :
    s'.owner .space = s.owner .space ∨
    (i = .lock .space ∧ s.owner .space = none ∧ s'.owner .space = some t) ∨
    ((i = .unlock .space ∨ i = .park .space) ∧ s'.owner .space = none) := by
  by_cases hsync : i.part = .sync
  · rw [exec_of_sync hsync] at h
    cases i with
    | lock mutex =>
      simp only [Instr.execSync] at h
      split at h <;> cases h
      cases mutex with
      | space => exact .inr (.inl ⟨rfl, ‹_›, rfl⟩)
      | _ => exact .inl rfl
    | unlock mutex =>
      cases h
      cases mutex with
      | space => exact .inr (.inr ⟨.inl rfl, rfl⟩)
      | _ => exact .inl rfl
    | park condition =>
      cases h
      cases condition with
      | space => exact .inr (.inr ⟨.inr rfl, rfl⟩)
      | _ => exact .inl rfl
    | notifyOne condition =>
      simp only [Instr.execSync] at h
      (repeat' split at h) <;> cases h <;> exact .inl rfl
    | notifyAll condition =>
      cases h
      exact .inl rfl
    | parked condition =>
      simp only [Instr.execSync] at h
      (repeat' split at h) <;> cases h <;> exact .inl rfl
    | _ => cases hsync
  · have hdata : Condition.space ≠ .data := by rintro ⟨⟩
    exact .inl (sync_of_exec hsync h hdata).2

structure Enclosed (i : Instr) (pushed : List Instr) : Prop where
  covering : Config.covering Instr.covers Instr.outside pushed = true
  covers : i.covers = true ∨ (pushed.all fun j => !j.covers) = true
  holding : i = .lock .space ∨ i = .unlock .space ∨
    (i.holding = some true ∧ i ≠ .unlock .space ∧ i ≠ .park .space) ∨
    pushed.findSome? Instr.holding = some false ∨
    (pushed.findSome? Instr.holding = none ∧ i.holding = none)

theorem Enclosed.outside (covering : Config.covering Instr.covers Instr.outside pushed = true)
    (covers : i.covers = true ∨ (pushed.all fun j => !j.covers) = true)
    (hpushed : pushed.findSome? Instr.holding = none) (hi : i.holding = none) :
    Enclosed i pushed :=
  ⟨covering, covers, .inr (.inr (.inr (.inr ⟨hpushed, hi⟩)))⟩

theorem Enclosed.inside (covering : Config.covering Instr.covers Instr.outside pushed = true)
    (covers : i.covers = true) (hi : i.holding = some true) (hunlock : i ≠ .unlock .space)
    (hpark : i ≠ .park .space) : Enclosed i pushed :=
  ⟨covering, .inl covers, .inr (.inr (.inl ⟨hi, hunlock, hpark⟩))⟩

theorem Enclosed.enters (covering : Config.covering Instr.covers Instr.outside pushed = true)
    (covers : i.covers = true ∨ (pushed.all fun j => !j.covers) = true)
    (hpushed : pushed.findSome? Instr.holding = some false) : Enclosed i pushed :=
  ⟨covering, covers, .inr (.inr (.inr (.inl hpushed)))⟩

theorem enclosed_of_execLog (h : i.execLog t x s = some (s', pushed)) : Enclosed i pushed := by
  cases i
  all_goals
    simp only [Instr.execLog] at h
    (repeat' split at h) <;> cases h <;>
      first
        | exact .outside rfl (.inl rfl) rfl rfl
        | exact .outside rfl (.inr rfl) rfl rfl
        | exact .inside rfl rfl rfl (by rintro ⟨⟩) (by rintro ⟨⟩)
        | exact .enters rfl (.inl rfl) rfl

theorem enclosed_of_execFlush (h : i.execFlush x s = some (s', pushed)) : Enclosed i pushed := by
  cases i
  all_goals
    simp only [Instr.execFlush] at h
    (repeat' split at h) <;> cases h <;> exact .outside rfl (.inr rfl) rfl rfl

theorem enclosed_of_execStop (h : i.execStop s = some (s', pushed)) : Enclosed i pushed := by
  cases i
  all_goals
    simp only [Instr.execStop] at h
    (repeat' split at h) <;> cases h <;> exact .outside rfl (.inr rfl) rfl rfl

theorem enclosed_of_execSync (h : i.execSync t x s = some (s', pushed)) : Enclosed i pushed := by
  cases i with
  | lock mutex =>
    simp only [Instr.execSync] at h
    split at h <;> cases h
    cases mutex with
    | space => exact ⟨rfl, .inr rfl, .inl rfl⟩
    | _ => exact .outside rfl (.inr rfl) rfl rfl
  | unlock mutex =>
    cases h
    cases mutex with
    | space => exact ⟨rfl, .inr rfl, .inr (.inl rfl)⟩
    | _ => exact .outside rfl (.inr rfl) rfl rfl
  | notifyOne condition =>
    simp only [Instr.execSync] at h
    cases condition with
    | space => (repeat' split at h) <;> cases h <;>
        exact ⟨rfl, .inr rfl, .inr (.inr (.inl ⟨rfl, by rintro ⟨⟩, by rintro ⟨⟩⟩))⟩
    | _ => (repeat' split at h) <;> cases h <;> exact .outside rfl (.inr rfl) rfl rfl
  | park condition =>
    cases h
    cases condition with
    | space => exact .enters rfl (.inr rfl) rfl
    | _ => exact .outside rfl (.inr rfl) rfl rfl
  | _ =>
    simp only [Instr.execSync] at h
    (repeat' split at h) <;> cases h <;> exact .outside rfl (.inr rfl) rfl rfl

theorem enclosed_of_execWorker (h : i.execWorker t x s = some (s', pushed)) :
    Enclosed i pushed := by
  cases i with
  | appendRecord record =>
    cases x with
    | append outcome =>
      cases h
      cases outcome <;> exact .outside rfl (.inl rfl) rfl rfl
    | _ => cases h
  | uncountTaken record =>
    cases h
    exact .enters rfl (.inl rfl) rfl
  | _ =>
    simp only [Instr.execWorker] at h
    (repeat' split at h) <;> cases h <;> exact .outside rfl (.inl rfl) rfl rfl

theorem enclosed_of_exec (h : i.exec t x s = some (s', pushed)) : Enclosed i pushed := by
  unfold Instr.exec at h
  split at h
  · rename_i hpart
    obtain rfl : i = .user := by cases i <;> first | rfl | cases hpart
    split at h <;> cases h <;> exact .outside rfl (.inl rfl) rfl rfl
  · exact enclosed_of_execLog h
  · exact enclosed_of_execFlush h
  · exact enclosed_of_execStop h
  · exact enclosed_of_execSync h
  · exact enclosed_of_execWorker h

end Exec

def Holds (c : Config) (t : Nat) : Prop := (c.stack t).findSome? Instr.holding = some true

structure Space (c : Config) : Prop where
  covering : c.Covering Instr.covers Instr.outside
  owner : ∀ t, Holds c t → c.shared.owner .space = some t

theorem Space.unique {c : Config} (h : Space c) {t t' : Nat} (ht : Holds c t) (ht' : Holds c t') :
    t = t' :=
  Option.some.inj ((h.owner t ht).symm.trans (h.owner t' ht'))

theorem holds_of_top {c : Config} {t : Nat} {i : Instr} {rest : List Instr}
    (htop : c.stack t = i :: rest) (hi : i.holding = some true) : Holds c t := by
  rw [Holds, htop, List.findSome?_cons, hi]

theorem space_init {config : LoggerConfig} {n : Nat} : Space (init config n) := by
  refine ⟨fun t => ?_, fun t ht => ?_⟩
  · cases htop : (init config n).stack t with
    | nil => rfl
    | cons i rest => obtain ⟨rfl, ⟨-, rfl⟩ | ⟨-, rfl⟩⟩ := init_stack htop <;> rfl
  · cases htop : (init config n).stack t with
    | nil =>
      rw [Holds, htop] at ht
      cases ht
    | cons i rest =>
      rw [Holds, htop] at ht
      obtain ⟨rfl, ⟨-, rfl⟩ | ⟨-, rfl⟩⟩ := init_stack htop <;> cases ht

theorem Space.step {c c' : Config} {t : Nat} {i : Instr} (h : Space c)
    (hstep : machine.Step c t i c') : Space c' := by
  obtain @⟨rest, x, s, pushed, htop, hexec⟩ := hstep
  have henclosed := enclosed_of_exec hexec
  have howner := owner_cases hexec
  refine ⟨h.covering.replace htop henclosed.covering henclosed.covers, fun t' ht' => ?_⟩
  rw [Library.Config.shared_replace]
  have hleaves : i = .unlock .space ∨ i = .park .space → Holds c t := by
    rintro (rfl | rfl) <;> exact holds_of_top htop rfl
  by_cases ht : t' = t
  · subst ht
    rw [Holds, Library.Config.stack_replace_self htop, List.findSome?_append] at ht'
    have hkeep : Holds c t' → i ≠ .unlock .space → i ≠ .park .space → s.owner .space = some t' := by
      intro hholds hunlock hpark
      obtain heq | ⟨-, -, heq⟩ | ⟨heq | heq, -⟩ := howner
      · exact heq.trans (h.owner t' hholds)
      · exact heq
      · exact absurd heq hunlock
      · exact absurd heq hpark
    obtain rfl | rfl | ⟨hi, hunlock, hpark⟩ | hfalse | ⟨hnone, hi⟩ := henclosed.holding
    · change Instr.execSync t' (.lock .space) x c.shared = some (s, pushed) at hexec
      simp only [Instr.execSync] at hexec
      split at hexec <;> cases hexec
      rfl
    · cases hexec
      have hrest := ((h.covering.of_top htop).1 rfl)
      have hnone : rest.findSome? Instr.holding = none :=
        List.findSome?_eq_none_iff.mpr fun j hj =>
          Option.isNone_iff_eq_none.mp (List.all_eq_true.mp hrest j hj)
      rw [hnone] at ht'
      cases ht'
    · exact hkeep (holds_of_top htop hi) hunlock hpark
    · rw [hfalse] at ht'
      cases ht'
    · rw [hnone, Option.none_or] at ht'
      refine hkeep ?_ ?_ ?_
      · rw [Holds, htop, List.findSome?_cons, hi]
        exact ht'
      · rintro rfl
        cases hi
      · rintro rfl
        cases hi
  · rw [Holds, Library.Config.stack_replace_ne _ _ _ ht] at ht'
    have hold := h.owner t' ht'
    obtain heq | ⟨-, hnone, -⟩ | ⟨hleave, -⟩ := howner
    · exact heq.trans hold
    · rw [hnone] at hold
      cases hold
    · exact absurd (h.unique ht' (hleaves hleave)) ht

end UnixNotes.Logger.AsyncLogger
