import UnixNotes.Reactor.TcpConnection

namespace UnixNotes.Reactor

theorem Buffer.peek_eq_nil {b : Buffer} (h : b.readableBytes = 0) : b.peek = [] :=
  List.eq_nil_of_length_eq_zero (b.length_peek.trans h)

namespace TcpConnection

open Library

/-- What holds of an open connection between the things that it is told to do. -/
def Settled (s : Shared) : Prop :=
  s.state ≠ .kDisconnected →
    (s.writing = true ↔ s.outputBuffer.readableBytes ≠ 0) ∧
      s.accepted ++ s.outputBuffer.peek = s.messages

def Fits (s : Shared) : Instr → Prop
  | .connectEstablished => s.state = .kConnecting ∧ Settled s
  | .sendDirect data =>
    s.state = .kConnected ∧ data ≠ [] ∧ s.outputBuffer.readableBytes = 0 ∧ s.writing = false ∧
      s.accepted ++ data = s.messages
  | .appendOutput data =>
    s.state = .kConnected ∧ data ≠ [] ∧ s.accepted ++ (s.outputBuffer.peek ++ data) = s.messages
  | .writeOutput =>
    s.state ≠ .kDisconnected ∧ s.writing = true ∧ s.accepted ++ s.outputBuffer.peek = s.messages
  | .shutdownWrite =>
    s.outputBuffer.readableBytes = 0 ∧ s.writing = false ∧ s.accepted = s.messages
  | .handleClose => True
  | _ => Settled s

theorem Settled.fits {s : Shared} (h : Settled s) {i : Instr} (hi : ¬i.immediate) : Fits s i := by
  cases i with
  | connectEstablished | sendDirect | appendOutput | writeOutput | shutdownWrite =>
    exact absurd trivial hi
  | handleClose => trivial
  | _ => exact h

theorem Settled.of_closed {s : Shared} (h : s.state = .kDisconnected) : Settled s :=
  fun hopen => absurd h hopen

theorem accepted_take {accepted data messages : ByteString} (h : accepted ++ data = messages)
    (count : Nat) : accepted ++ data.take count ++ data.drop count = messages := by
  rw [List.append_assoc, List.take_append_drop, h]

structure Sound (c : Config) : Prop where
  single : c.threads.length = 1
  order : c.shared.accepted <+: c.shared.messages
  closed : c.shared.state = .kDisconnected → c.shared.writing = false
  resting : c.HeadOnly Instr.immediate
  fits : ∀ t i rest, c.stack t = i :: rest → Fits c.shared i

namespace Sound

variable {c c' : Config} {t : Nat} {i : Instr} {rest pushed : List Instr} {s : Shared}

theorem init : Sound init where
  single := rfl
  order := List.nil_prefix
  closed := nofun
  resting := .of_length (by simp [TcpConnection.init])
  fits t i rest htop := by
    have ht := Config.lt_length_of_top htop
    obtain rfl : t = 0 := Nat.lt_one_iff.mp ht
    cases htop
    exact fun _ => ⟨by simp [TcpConnection.init, Buffer.empty, Buffer.readableBytes],
      Buffer.peek_empty⟩

theorem replace (h : Sound c) (htop : c.stack t = i :: rest)
    (horder : s.accepted <+: s.messages) (hclosed : s.state = .kDisconnected → s.writing = false)
    (hresting : ∀ j ∈ pushed.tail, ¬j.immediate)
    (hfits : match pushed with | [] => Settled s | j :: _ => Fits s j) :
    Sound (c.replace t s (pushed ++ rest)) := by
  have hlt := Config.lt_length_of_top htop
  have hsingle := h.single
  refine ⟨by simpa [Config.replace] using hsingle, horder, hclosed, h.resting.replace htop hresting,
    fun t' j rest' htop' => ?_⟩
  have hlt' := Config.lt_length_of_top htop'
  simp only [Config.replace, List.length_set] at hlt'
  obtain rfl : t' = t := by omega
  rw [Config.stack_replace_self htop] at htop'
  cases pushed with
  | nil =>
    refine hfits.fits (h.resting t' j ?_)
    rw [htop, List.tail_cons, show rest = j :: rest' from htop']
    exact List.mem_cons_self ..
  | cons k pushed =>
    rw [List.cons_append, List.cons.injEq] at htop'
    rw [← htop'.1]
    exact hfits

theorem keep (h : Sound c) (htop : c.stack t = i :: rest)
    (hresting : ∀ j ∈ pushed.tail, ¬j.immediate)
    (hfits : match pushed with | [] => Settled c.shared | j :: _ => Fits c.shared j) :
    Sound (c.replace t c.shared (pushed ++ rest)) :=
  h.replace htop h.order h.closed hresting hfits

theorem sent_all (h : Sound c) {data : ByteString} (htop : c.stack t = .sendDirect data :: rest)
    (count : Nat) (all : data.drop count = []) :
    Sound (c.replace t { c.shared with accepted := c.shared.accepted ++ data.take count }
      ([] ++ rest)) := by
  obtain ⟨-, -, hempty, hidle, hsent⟩ := h.fits t _ rest htop
  have hall := accepted_take hsent count
  rw [all, List.append_nil] at hall
  refine h.replace htop ⟨[], by rw [List.append_nil]; exact hall⟩ h.closed (by simp) fun _ => ?_
  refine ⟨by simp [hidle, hempty], ?_⟩
  rw [Buffer.peek_eq_nil hempty, List.append_nil]
  exact hall

theorem append_output (h : Sound c) {data : ByteString}
    (htop : c.stack t = .appendOutput data :: rest) :
    Sound (c.replace t
      { c.shared with outputBuffer := c.shared.outputBuffer.append data, writing := true }
      ([] ++ rest)) := by
  obtain ⟨hconnected, hnonempty, hsent⟩ := h.fits t _ rest htop
  refine h.replace htop h.order (fun hclosed => ?_) (by simp) fun _ => ⟨?_, ?_⟩
  · rw [hconnected] at hclosed
    cases hclosed
  · simp [← Buffer.length_peek, hnonempty]
  · rw [Buffer.peek_append]
    exact hsent

theorem shutdown_now (h : Sound c) (htop : c.stack t = .shutdownInLoop :: rest)
    (connected : c.shared.state = .kConnected) (idle : c.shared.writing = false) :
    Sound (c.replace t { c.shared with state := .kDisconnecting } ([.shutdownWrite] ++ rest)) := by
  obtain ⟨hwriting, hsent⟩ := h.fits t _ rest htop (by rw [connected]; nofun)
  have hempty : c.shared.outputBuffer.readableBytes = 0 := by
    by_contra hnonempty
    rw [hwriting.mpr hnonempty] at idle
    cases idle
  rw [Buffer.peek_eq_nil hempty, List.append_nil] at hsent
  exact h.replace htop h.order nofun (by simp) ⟨hempty, idle, hsent⟩

theorem wrote (h : Sound c) (htop : c.stack t = .writeOutput :: rest) {count : Nat}
    {left : Buffer} (retrieved : c.shared.outputBuffer.retrieve count = .ok left) :
    Sound (c.replace t
      { c.shared with
        outputBuffer := left
        accepted := c.shared.accepted ++ c.shared.outputBuffer.peek.take count }
      ([.writeOutput] ++ rest)) := by
  obtain ⟨hopen, hwriting, hsent⟩ := h.fits t _ rest htop
  have hall := accepted_take hsent count
  have hpeek : left.peek = c.shared.outputBuffer.peek.drop count := by
    have hle : count ≤ c.shared.outputBuffer.readableBytes := by
      by_contra hgt
      rw [Buffer.retrieve, dif_pos (Nat.lt_of_not_le hgt)] at retrieved
      cases retrieved
    obtain ⟨b, hok, hpeek⟩ := Buffer.retrieve_eq_ok hle
    cases hok.symm.trans retrieved
    exact hpeek
  refine h.replace htop ⟨_, hall⟩ h.closed (by simp) ⟨hopen, hwriting, ?_⟩
  rw [hpeek]
  exact hall

theorem step (h : Sound c) (hstep : machine.Step c t i c') : Sound c' := by
  obtain @⟨rest, x, s, pushed, htop, hexec⟩ := hstep
  have hfits := h.fits t i rest htop
  cases moves_of_exec (t := t) hexec with
  | event idle call =>
    have hsettled : Settled c.shared := by cases i <;> first | exact hfits | exact idle.elim
    refine h.keep htop (fun j hj => ?_) ?_
    · obtain rfl := List.mem_singleton.mp hj
      cases j <;> first | exact id | exact idle.elim
    · obtain hrest | ⟨rfl, hconnecting⟩ := call
      · exact hsettled.fits hrest
      · exact ⟨hconnecting, hsettled⟩
  | established =>
    obtain ⟨hconnecting, hsettled⟩ := hfits
    refine h.replace htop h.order nofun (by simp) fun _ => hsettled ?_
    rw [hconnecting]
    nofun
  | destroy | close =>
    exact h.replace htop h.order (fun _ => rfl) (by simp) (Settled.of_closed rfl)
  | direct message connected nonempty idle empty =>
    have hopen := (hfits (by rw [connected]; nofun)).2
    rw [Buffer.peek_eq_nil empty, List.append_nil] at hopen
    refine h.replace htop (h.order.trans (List.prefix_append _ _)) h.closed (by simp)
      ⟨connected, nonempty, empty, idle, ?_⟩
    rw [hopen]
  | behind message connected nonempty =>
    have hopen := (hfits (by rw [connected]; nofun)).2
    refine h.replace htop (h.order.trans (List.prefix_append _ _)) h.closed (by simp)
      ⟨connected, nonempty, ?_⟩
    rw [← List.append_assoc, hopen]
  | sentAll data count all => exact h.sent_all htop count all
  | sentSome data count hrest =>
    obtain ⟨hconnected, -, hempty, hidle, hsent⟩ := hfits
    have hall := accepted_take hsent count
    exact h.replace htop ⟨_, hall⟩ h.closed (by simp) ⟨hconnected, hrest, hempty, hidle, hall⟩
  | sendAgain data => exact h.keep htop (by simp) hfits
  | buffer data =>
    obtain ⟨hconnected, hnonempty, hempty, -, hsent⟩ := hfits
    refine h.keep htop (by simp) ⟨hconnected, hnonempty, ?_⟩
    rw [Buffer.peek_eq_nil hempty, List.nil_append]
    exact hsent
  | appendOutput data => exact h.append_output htop
  | shutdownLater connected writing =>
    have hopen := hfits (by rw [connected]; nofun)
    exact h.replace htop h.order nofun (by simp) fun _ => hopen
  | shutdownNow connected idle => exact h.shutdown_now htop connected idle
  | handleWrite writing =>
    have hopen : c.shared.state ≠ .kDisconnected := fun hclosed => by
      rw [h.closed hclosed] at writing
      cases writing
    exact h.keep htop (by simp) ⟨hopen, writing, (hfits hopen).2⟩
  | wroteAll empty =>
    obtain ⟨-, -, hsent⟩ := hfits
    rw [Buffer.peek_eq_nil empty, List.append_nil] at hsent
    exact h.replace htop h.order (fun _ => rfl) (by simp) ⟨empty, rfl, hsent⟩
  | wroteOut empty =>
    obtain ⟨-, -, hsent⟩ := hfits
    exact h.replace htop h.order (fun _ => rfl) (by simp) fun _ => ⟨by simp [empty], hsent⟩
  | wrote count left retrieved => exact h.wrote htop retrieved
  | writeAgain => exact h.keep htop (by simp) hfits
  | wouldBlock nonempty =>
    obtain ⟨-, hwriting, hsent⟩ := hfits
    exact h.keep htop (by simp) fun _ => ⟨by simp [hwriting, nonempty], hsent⟩
  | shutdownWrite =>
    obtain ⟨hempty, hidle, hsent⟩ := hfits
    refine h.keep htop (by simp) fun _ => ⟨by simp [hidle, hempty], ?_⟩
    rw [Buffer.peek_eq_nil hempty, List.append_nil]
    exact hsent
  | closed closed => exact h.keep htop (by simp) (Settled.of_closed closed)
  | handleRead received closed =>
    cases received <;> cases closed
    · exact h.keep htop (by simp) hfits
    · exact h.keep htop (by simp) trivial
    · exact h.keep htop (by simp) hfits
    · exact h.keep htop (by simp [Instr.immediate]) hfits
  | sendFailed | writeFailed | forceClose => exact h.keep htop (by simp) trivial
  | returned | destroyed | refused | skipShutdown | skipForceClose | skipWrite =>
    exact h.keep htop (by simp) hfits

end Sound

/-- What the kernel has taken is at every instant a prefix of the messages, and between two events
everything but the output buffer; the write side is shut down when all of it has been sent. -/
theorem sent_in_order {c : Config} (hreach : machine.Reaches init c) {i : Instr}
    {rest : List Instr} (htop : c.stack 0 = i :: rest) :
    c.shared.accepted <+: c.shared.messages ∧
      (i.idle → c.shared.state ≠ .kDisconnected →
        (c.shared.outputBuffer.readableBytes = 0 → c.shared.accepted = c.shared.messages) ∧
        (c.shared.writing = true ↔ c.shared.outputBuffer.readableBytes ≠ 0)) ∧
      (i = .shutdownWrite → c.shared.accepted = c.shared.messages) := by
  have h : Sound c := hreach.invariant .init fun hc _ hstep => hc.step hstep
  have hfits := h.fits 0 i rest htop
  refine ⟨h.order, fun hidle hopen => ?_, ?_⟩
  · have hsettled : Settled c.shared := by cases i <;> first | exact hfits | exact hidle.elim
    obtain ⟨hwriting, hsent⟩ := hsettled hopen
    refine ⟨fun hempty => ?_, hwriting⟩
    rw [← hsent, Buffer.peek_eq_nil hempty, List.append_nil]
  · rintro rfl
    exact hfits.2.2

def parts : List (Nat × Choice) :=
  [(0, .establish), (0, .next), (0, .next), (0, .send [1, 2, 3, 4]), (0, .next),
    (0, .kernel (.bytes 1)), (0, .kernel .interrupted), (0, .kernel .wouldBlock), (0, .next),
    (0, .shutdown), (0, .next), (0, .writable), (0, .next), (0, .kernel (.bytes 1)),
    (0, .kernel (.bytes 2)), (0, .next)]

theorem sent_in_order_parts :
    (machine.follow init parts).shared.accepted <+: (machine.follow init parts).shared.messages ∧
      (Instr.shutdownWrite.idle → (machine.follow init parts).shared.state ≠ .kDisconnected →
        ((machine.follow init parts).shared.outputBuffer.readableBytes = 0 →
          (machine.follow init parts).shared.accepted =
            (machine.follow init parts).shared.messages) ∧
        ((machine.follow init parts).shared.writing = true ↔
          (machine.follow init parts).shared.outputBuffer.readableBytes ≠ 0)) ∧
      (Instr.shutdownWrite = .shutdownWrite →
        (machine.follow init parts).shared.accepted =
          (machine.follow init parts).shared.messages) :=
  have htop : (machine.follow init parts).stack 0 = [.shutdownWrite, .loop] := by decide +kernel
  sent_in_order (Machine.reaches_follow parts) htop

end TcpConnection

end UnixNotes.Reactor
