import Mathlib.Data.List.Basic

universe u v

namespace UnixNotes.Library

inductive Outcome (α : Type u) (μ : Type v)
  | needMore
  | error
  | complete (message : μ) (rest : List α)

/-- A decoder of one message from the front of a stream whose decisions are final: reading more
input changes neither a decoded message nor an error. -/
structure StreamDecoder (α : Type u) (μ : Type v) where
  decode : List α → Outcome α μ
  decode_nil : decode [] = .needMore
  complete_append : ∀ {s m r}, decode s = .complete m r → ∀ t, decode (s ++ t) = .complete m (r ++ t)
  error_append : ∀ {s}, decode s = .error → ∀ t, decode (s ++ t) = .error
  consumes : ∀ {s m r}, decode s = .complete m r → r.length < s.length

structure Drained (α : Type u) (μ : Type v) where
  messages : List μ
  failed : Bool
  rest : List α

namespace Drained

variable {α : Type u} {μ : Type v}

def start : Drained α μ := ⟨[], false, []⟩

def prepend (ms : List μ) (d : Drained α μ) : Drained α μ := { d with messages := ms ++ d.messages }

@[simp] theorem prepend_nil (d : Drained α μ) : d.prepend [] = d := rfl

@[simp] theorem prepend_prepend (ms ns : List μ) (d : Drained α μ) :
    (d.prepend ns).prepend ms = d.prepend (ms ++ ns) := by
  simp [prepend]

@[simp] theorem prepend_failed (ms : List μ) (d : Drained α μ) :
    (d.prepend ms).failed = d.failed := rfl

/-- Equal messages and status, and equal unconsumed input while the stream has not failed. -/
structure Agrees (d e : Drained α μ) : Prop where
  messages : d.messages = e.messages
  failed : d.failed = e.failed
  rest : e.failed = false → d.rest = e.rest

theorem Agrees.refl (d : Drained α μ) : d.Agrees d := ⟨rfl, rfl, fun _ => rfl⟩

end Drained

namespace StreamDecoder

variable {α : Type u} {μ : Type v} (D : StreamDecoder α μ)

def drain (s : List α) : Drained α μ :=
  match _h : D.decode s with
  | .needMore => ⟨[], false, s⟩
  | .error => ⟨[], true, s⟩
  | .complete m r => (drain r).prepend [m]
termination_by s.length
decreasing_by exact D.consumes _h

theorem drain_needMore {s : List α} (h : D.decode s = .needMore) : D.drain s = ⟨[], false, s⟩ := by
  rw [drain]; split <;> simp_all

theorem drain_error {s : List α} (h : D.decode s = .error) : D.drain s = ⟨[], true, s⟩ := by
  rw [drain]; split <;> simp_all

theorem drain_complete {s r : List α} {m : μ} (h : D.decode s = .complete m r) :
    D.drain s = (D.drain r).prepend [m] := by
  rw [drain]; split <;> simp_all

theorem drain_nil : D.drain [] = Drained.start := D.drain_needMore D.decode_nil

theorem drain_append (s t : List α) :
    D.drain (s ++ t) =
      if (D.drain s).failed then { D.drain s with rest := (D.drain s).rest ++ t }
      else (D.drain ((D.drain s).rest ++ t)).prepend (D.drain s).messages := by
  induction hn : s.length using Nat.strongRecOn generalizing s with
  | ind n ih =>
    cases h : D.decode s with
    | needMore => simp [D.drain_needMore h]
    | error => simp [D.drain_error h, D.drain_error (D.error_append h t)]
    | complete m r =>
      have hr := ih r.length (hn ▸ D.consumes h) r rfl
      rw [D.drain_complete h, D.drain_complete (D.complete_append h t), hr]
      cases hf : (D.drain r).failed <;> simp [hf, Drained.prepend]

theorem length_rest_drain (s : List α) : (D.drain s).rest.length ≤ s.length := by
  induction hn : s.length using Nat.strongRecOn generalizing s with
  | ind n ih =>
    cases h : D.decode s with
    | needMore => simp [D.drain_needMore h, hn]
    | error => simp [D.drain_error h, hn]
    | complete m r =>
      have hlt := D.consumes h
      have hr := ih r.length (hn ▸ hlt) r rfl
      rw [D.drain_complete h]
      simp only [Drained.prepend]
      omega

/-- The loop run after one more chunk has arrived, unless an earlier run has failed. -/
def feed (d : Drained α μ) (chunk : List α) : Drained α μ :=
  if d.failed then d else (D.drain (d.rest ++ chunk)).prepend d.messages

theorem length_rest_feed (d : Drained α μ) (chunk : List α) :
    (D.feed d chunk).rest.length ≤ d.rest.length + chunk.length := by
  rw [feed]
  split
  · omega
  · have := D.length_rest_drain (d.rest ++ chunk)
    rw [List.length_append] at this
    exact this

theorem feed_agrees {d : Drained α μ} {s : List α} (h : d.Agrees (D.drain s)) (chunk : List α) :
    (D.feed d chunk).Agrees (D.drain (s ++ chunk)) := by
  rw [feed, D.drain_append s, h.failed]
  cases hf : (D.drain s).failed with
  | true => exact ⟨h.messages, h.failed, by simp [hf]⟩
  | false =>
    rw [h.rest hf, h.messages]
    exact Drained.Agrees.refl _

theorem foldl_feed_agrees (chunks : List (List α)) {d : Drained α μ} {s : List α}
    (h : d.Agrees (D.drain s)) :
    (chunks.foldl D.feed d).Agrees (D.drain (s ++ chunks.flatten)) := by
  induction chunks generalizing d s with
  | nil => simpa using h
  | cons chunk chunks ih =>
    rw [List.foldl_cons, List.flatten_cons, ← List.append_assoc]
    exact ih (D.feed_agrees h chunk)

/-- How a stream is cut into chunks makes no difference. -/
theorem feed_chunks_agrees (chunks : List (List α)) :
    (chunks.foldl D.feed Drained.start).Agrees (D.drain chunks.flatten) := by
  simpa using D.foldl_feed_agrees chunks (s := [])
    (by rw [drain_nil]; exact Drained.Agrees.refl _)

/-! ### Streams of encoded messages -/

variable {D}

end StreamDecoder

end UnixNotes.Library
