import UnixNotes.Reactor.LifetimeCalls

namespace UnixNotes.Reactor.Lifetime

open Library

variable {site : Site} {c c' : Config} {t : Nat} {i : Instr} {rest : List Instr} {s s' : Shared}
  {pushed : List Instr}

theorem Moves.connection_eq (h : Moves site t s i s' pushed) : s'.connection = s.connection ∨
    ∃ j x calls, i = .connection j ∧ j.exec t x s.connection = some (s'.connection, calls) ∧
      pushed = calls.flatMap (Instr.ofConnection s.callbacks j) ∧ s'.owned = s.owned := by
  cases h with
  | connection exec => exact .inr ⟨_, _, _, rfl, exec, rfl, rfl⟩
  | _ => exact .inl rfl

theorem Moves.callbacks_eq (h : Moves site t s i s' pushed) : s'.callbacks = s.callbacks ∨
    i = .destroy ∧ site.owner = .client ∧ s.owned = true ∧ s'.owned = false ∧
      s'.callbacks = false := by
  cases h with
  | destroyClient client owned => exact .inr ⟨rfl, client, owned, rfl, rfl⟩
  | _ => exact .inl rfl

theorem Moves.owned (h : Moves site t s i s' pushed) (howned : s'.owned = true) :
    s.owned = true ∧ i ≠ .reset := by
  cases h with
  | letGo | destroyClient | destroy | remove => cases howned
  | ask hi =>
    refine ⟨howned, ?_⟩
    rintro rfl
    obtain heq | hacts := hi
    · cases heq
    · exact hacts
  | skip hi =>
    refine ⟨howned, ?_⟩
    rintro rfl
    simp at hi
  | returned hi =>
    refine ⟨howned, ?_⟩
    rintro rfl
    simp at hi
  | copy hi | call hi =>
    refine ⟨howned, ?_⟩
    rintro rfl
    exact hi
  | _ => exact ⟨howned, nofun⟩

theorem close_of_exec {x : TcpConnection.Choice} {connection connection' : TcpConnection.Shared}
    {calls : List TcpConnection.Instr}
    (h : TcpConnection.Instr.handleClose.exec t x connection = some (connection', calls)) :
    connection.state = .kDisconnected ∧ connection' = connection ∧ calls = [] ∨
      connection.state ≠ .kDisconnected ∧ connection' = connection.close ∧
        calls = [.callback] := by
  cases x with
  | next =>
    simp only [TcpConnection.Instr.exec] at h
    split at h <;> cases h
    · exact .inl ⟨‹_›, rfl, rfl⟩
    · exact .inr ⟨‹_›, rfl, rfl⟩
  | _ => cases h

namespace Instr

def closings : Instr → Nat
  | .closeCallback => 1
  | _ => 0

def closes : Instr → Prop
  | .closeCallback | .reset => True
  | _ => False

end Instr

theorem closes_runInLoop {f : Functor} : ∀ j ∈ site.runInLoop t f, ¬j.closes := by
  intro j hj
  unfold Site.runInLoop at hj
  split at hj
  · obtain rfl | rfl := List.mem_pair.mp hj
    · cases f <;> exact id
    · exact id
  · rw [List.mem_singleton.mp hj]
    exact id

theorem Moves.closings_eq (h : Moves site t s i s' pushed) :
    Config.weigh Instr.closings pushed = 0 ∨ i = .connection .handleClose ∧
      pushed = [.closeCallback] ∧ s.callbacks = true ∧ s.connection.state ≠ .kDisconnected ∧
        s'.connection.state = .kDisconnected ∧ s'.callbacks = s.callbacks := by
  have hzero : (∀ j ∈ pushed, ¬j.closes) → Config.weigh Instr.closings pushed = 0 := by
    refine fun hnone => Config.weigh_eq_zero fun j hj => ?_
    have hj := hnone j hj
    cases j <;> first | rfl | exact absurd trivial hj
  cases h with
  | ask hi hj =>
    refine .inl (hzero ?_)
    rw [List.forall_mem_cons, List.forall_mem_singleton]
    constructor
    · obtain rfl | rfl | ⟨rfl | rfl, -⟩ := hj <;> exact id
    · obtain rfl | hacts := hi
      · exact id
      · cases i <;> first | exact id | exact hacts.elim
  | handleEvent revents =>
    refine .inl ?_
    obtain ⟨writable, heq | heq | heq⟩ := dispatch_cases revents <;> rw [heq] <;> rfl
  | connection exec =>
    rename_i j x connection calls
    by_cases hj : j = .handleClose
    · subst hj
      obtain ⟨-, -, rfl⟩ | ⟨hopen, rfl, rfl⟩ := close_of_exec exec
      · exact .inl rfl
      · cases hcallbacks : s.callbacks with
        | false => exact .inl rfl
        | true => exact .inr ⟨rfl, rfl, rfl, hopen, rfl, rfl⟩
    · refine .inl (Config.weigh_eq_zero fun k hk => ?_)
      obtain rfl | ⟨rfl, hclose, -⟩ | ⟨k, -, -, rfl⟩ := mem_connection hk
      · rfl
      · exact absurd hclose hj
      · rfl
  | copy hi =>
    refine .inl (hzero (List.forall_mem_singleton.mpr ?_))
    cases i <;> first | exact id | exact hi.elim
  | call hi f requested =>
    refine .inl (hzero (List.forall_mem_append.mpr ⟨closes_runInLoop, ?_⟩))
    rw [List.forall_mem_singleton]
    cases i <;> first | exact id | exact hi.elim
  | run functors f left => cases f <;> exact .inl rfl
  | _ => exact .inl rfl

theorem Moves.closes_tail (h : Moves site t s i s' pushed) : ∀ j ∈ pushed.tail, ¬j.closes := by
  cases h with
  | ask hi hj =>
    refine List.forall_mem_singleton.mpr ?_
    obtain rfl | hacts := hi
    · exact id
    · cases i <;> first | exact id | exact hacts.elim
  | handleEvent revents =>
    obtain ⟨writable, heq | heq | heq⟩ := dispatch_cases revents <;> rw [heq] <;>
      simp [Instr.closes]
  | connection exec =>
    intro k hk
    obtain rfl | ⟨rfl, rfl, -⟩ | ⟨k, -, -, rfl⟩ := mem_connection (List.mem_of_mem_tail hk)
    · exact id
    · obtain ⟨-, -, rfl⟩ | ⟨-, -, rfl⟩ := close_of_exec exec
      · cases hk
      · cases hcallbacks : s.callbacks <;> rw [hcallbacks] at hk <;> cases hk
    · exact id
  | call hi f requested =>
    intro j hj
    obtain hj | hj := List.mem_append.mp (List.mem_of_mem_tail hj)
    · exact closes_runInLoop j hj
    · rw [List.mem_singleton.mp hj]
      cases i <;> first | exact id | exact hi.elim
  | _ => simp [Instr.closes]

theorem owners_established : Functor.connectEstablished.owners := .inl rfl

theorem owners_destroyed : Functor.connectDestroyed.owners := .inr rfl

theorem Moves.close_client (h : Moves site t s .closeCallback s' pushed)
    (hclient : site.owner = .client) :
    s' = s ∧ pushed = [.reset, .connection .connectDestroyed, .temporary] := by
  cases h with
  | closeClient client => exact ⟨rfl, rfl⟩
  | closeServer server =>
    rw [hclient] at server
    cases server
  | ask hi =>
    obtain heq | hacts := hi
    · cases heq
    · exact hacts.elim
  | skip hi => simp at hi
  | letGo hi => simp at hi
  | returned hi => simp at hi
  | copy hi | call hi => exact hi.elim

/-- Nothing precedes `connectEstablished`, and as long as the client has its reference the
connection is open or the close callback is about to let go of it. -/
structure Direct (site : Site) (c : Config) : Prop where
  opening : due site .connectEstablished c = 0 ∧ c.shared.connection.state ≠ .kConnecting ∨
    due site .connectEstablished c = 1 ∧ c.shared.connection.state = .kConnecting ∧
      c.shared.callbacks = true ∧
        ∃ rest, c.stack site.io = .connection .connectEstablished :: rest
  heads : c.HeadOnly Instr.closes
  owned : c.shared.owned = true → c.shared.callbacks = true ∧
    (c.shared.connection.state ≠ .kDisconnected ∨ ∃ j, c.Active site.io j ∧ j.closes)
  destroying : c.shared.owned = true →
    due site .connectDestroyed c = 0 ∨ c.Active site.io .reset

theorem due_pos (hf : Functor.owners f) (hactive : c.Active t f.instr) : 0 < due site f c := by
  have hle := Config.le_total (w := Instr.calls f) hactive
  rw [calls_instr f f hf, if_pos rfl] at hle
  exact Nat.lt_of_lt_of_le hle (Nat.le_add_left ..)

theorem Direct.connecting (h : Direct site c) (htop : c.stack t = i :: rest)
    (hi : i = .connection .connectEstablished) :
    c.shared.connection.state = .kConnecting := by
  obtain ⟨hnone, -⟩ | ⟨-, hstate, -⟩ := h.opening
  · have hpos : 0 < due site .connectEstablished c :=
      due_pos owners_established (hi ▸ Config.active_of_top htop)
    exact absurd hpos (Nat.not_lt.mpr (Nat.le_of_eq hnone))
  · exact hstate

section Step

variable (hplaced : Placed site c) (htop : c.stack t = i :: rest)
  (hmoves : Moves site t c.shared i s pushed)

include hplaced htop hmoves

theorem established_step : due site .connectEstablished (c.replace t s (pushed ++ rest)) +
    (if i = .connection .connectEstablished then 1 else 0) ≤ due site .connectEstablished c :=
  (due_step hplaced owners_established htop hmoves).resolve_right nofun

theorem Direct.opening_step (h : Direct site c) (hclient : site.owner = .client) :
    due site .connectEstablished (c.replace t s (pushed ++ rest)) = 0 ∧
        s.connection.state ≠ .kConnecting ∨
      due site .connectEstablished (c.replace t s (pushed ++ rest)) = 1 ∧
        s.connection.state = .kConnecting ∧ s.callbacks = true ∧
          ∃ rest', (c.replace t s (pushed ++ rest)).stack site.io =
            .connection .connectEstablished :: rest' := by
  have hdue := established_step hplaced htop hmoves
  have hfits := hplaced.fits t i (Config.active_of_top htop)
  obtain ⟨hnone, hopened⟩ | ⟨hone, hstate, hcallbacks, rest', hio⟩ := h.opening
  · refine .inl ⟨by omega, ?_⟩
    obtain heq | ⟨j, x, calls, rfl, exec, -⟩ := hmoves.connection_eq
    · rw [heq]
      exact hopened
    · obtain ⟨-, heq⟩ | heq | ⟨-, heq⟩ | ⟨-, heq⟩ :=
        state_cases (TcpConnection.moves_of_exec exec) <;> simp [heq, hopened]
  · by_cases ht : t = site.io
    · subst ht
      rw [hio] at htop
      cases htop
      refine .inl ⟨by simpa [hone] using hdue, ?_⟩
      cases hmoves with
      | connection exec =>
        cases TcpConnection.moves_of_exec exec with
        | event idle => exact idle.elim
        | established => exact nofun
      | ask hi =>
        obtain heq | hacts := hi
        · cases heq
        · exact hacts.elim
      | skip hi => simp at hi
      | letGo hi => simp at hi
      | returned hi => simp at hi
      | copy hi | call hi => exact hi.elim
    · have hkept : (c.replace t s (pushed ++ rest)).stack site.io =
          .connection .connectEstablished :: rest' := by
        rw [Config.stack_replace_ne _ _ _ (Ne.symm ht), hio]
      have hpos : 0 < due site .connectEstablished (c.replace t s (pushed ++ rest)) :=
        due_pos owners_established (Config.active_of_top hkept)
      refine .inr ⟨by omega, ?_, ?_, rest', hkept⟩
      · obtain heq | ⟨j, x, calls, rfl, -⟩ := hmoves.connection_eq
        · rw [heq, hstate]
        · exact absurd hfits.1 ht
      · obtain heq | ⟨rfl, -⟩ := hmoves.callbacks_eq
        · rw [heq, hcallbacks]
        · refine absurd ?_ ht
          have hhome : t = site.home := hfits
          rwa [Site.home, hclient] at hhome

theorem Direct.owned_step (h : Direct site c) (hclient : site.owner = .client)
    (howned : s.owned = true) : s.callbacks = true ∧ (s.connection.state ≠ .kDisconnected ∨
      ∃ j, (c.replace t s (pushed ++ rest)).Active site.io j ∧ j.closes) := by
  have hfits := hplaced.fits t i (Config.active_of_top htop)
  obtain ⟨hbefore, hreset⟩ := hmoves.owned howned
  obtain ⟨hcallbacks, hopen⟩ := h.owned hbefore
  have hsame : s.callbacks = true := by
    obtain heq | ⟨-, -, -, hnot, -⟩ := hmoves.callbacks_eq
    · rw [heq, hcallbacks]
    · rw [hnot] at howned
      cases howned
  have hkept : ∀ {j}, c.Active site.io j → j.closes → ∃ j,
      (c.replace t s (pushed ++ rest)).Active site.io j ∧ j.closes := by
    intro j hactive hcloses
    obtain ⟨rfl, rfl⟩ | hkept := Config.active_replace htop s pushed hactive
    · cases j with
      | closeCallback =>
        obtain ⟨-, rfl⟩ := hmoves.close_client hclient
        exact ⟨.reset, Config.active_replace_of_pushed htop _ (List.mem_cons_self ..), trivial⟩
      | reset => exact absurd rfl hreset
      | _ => exact hcloses.elim
    · exact ⟨j, hkept, hcloses⟩
  refine ⟨hsame, ?_⟩
  obtain heq | ⟨j, x, calls, rfl, exec, rfl, -⟩ := hmoves.connection_eq
  · rw [heq]
    exact hopen.imp_right fun ⟨j, hactive, hcloses⟩ => hkept hactive hcloses
  · obtain ⟨-, heq⟩ | heq | ⟨hj, -⟩ | ⟨-, heq⟩ := state_cases (TcpConnection.moves_of_exec exec)
    · exact .inl (by rw [heq]; exact nofun)
    · rw [heq]
      exact hopen.imp_right fun ⟨j, hactive, hcloses⟩ => hkept hactive hcloses
    · obtain rfl | rfl := hj
      · obtain ⟨hclosed, -, -⟩ | ⟨-, -, rfl⟩ := close_of_exec exec
        · obtain ⟨j, hactive, hcloses⟩ := hopen.resolve_left (not_not_intro hclosed)
          exact .inr (hkept hactive hcloses)
        · refine .inr ⟨.closeCallback, ?_, trivial⟩
          obtain rfl := hfits.1
          refine Config.active_replace_of_pushed htop _ ?_
          rw [hcallbacks]
          exact List.mem_singleton.mpr rfl
      · -- `connectDestroyed` comes after the reset
        obtain hnone | hactive := h.destroying hbefore
        · have hpos : 0 < due site .connectDestroyed c :=
            due_pos owners_destroyed (Config.active_of_top htop)
          exact absurd hpos (Nat.not_lt.mpr (Nat.le_of_eq hnone))
        · obtain rfl := hfits.1
          cases h.heads.eq_top htop hactive trivial
    · exact .inl (by rw [heq]; exact nofun)

theorem Direct.destroying_step (h : Direct site c) (hclient : site.owner = .client)
    (howned : s.owned = true) :
    due site .connectDestroyed (c.replace t s (pushed ++ rest)) = 0 ∨
      (c.replace t s (pushed ++ rest)).Active site.io .reset := by
  have hfits := hplaced.fits t i (Config.active_of_top htop)
  obtain ⟨hbefore, hreset⟩ := hmoves.owned howned
  obtain hdue | ⟨⟨-, hdestroying⟩, -⟩ := due_step hplaced owners_destroyed htop hmoves
  · refine (h.destroying hbefore).imp (fun hnone => by omega) fun hactive => ?_
    exact Config.active_replace_of_ne htop s pushed hactive (Ne.symm hreset)
  · cases i with
    | closeCallback =>
      obtain rfl : t = site.io := hfits
      obtain ⟨-, rfl⟩ := hmoves.close_client hclient
      exact .inr (Config.active_replace_of_pushed htop _ (List.mem_cons_self ..))
    | destroy =>
      obtain heq | ⟨-, -, -, hnot, -⟩ := hmoves.callbacks_eq
      · have hcallbacks := (h.owned hbefore).1
        rw [← heq, hdestroying.2.2] at hcallbacks
        cases hcallbacks
      · rw [hnot] at howned
        cases howned
    | removeConnectionInLoop =>
      have hserver : site.owner = .server t := hfits
      rw [hclient] at hserver
      cases hserver
    | _ => exact hdestroying.elim

theorem Direct.step (h : Direct site c) (hclient : site.owner = .client) :
    Direct site (c.replace t s (pushed ++ rest)) :=
  ⟨h.opening_step hplaced htop hmoves hclient, h.heads.replace htop hmoves.closes_tail,
    h.owned_step hplaced htop hmoves hclient, h.destroying_step hplaced htop hmoves hclient⟩

end Step

def closable (s : Shared) : Nat :=
  if s.connection.state ≠ .kDisconnected ∧ s.callbacks = true then 1 else 0

def pending (site : Site) (c : Config) : Nat :=
  match site.owner with
  | .client => c.total Instr.closings + closable c.shared
  | .server _ => c.shared.owned.toNat

theorem closable_le
    (hstate : s'.connection.state ≠ .kDisconnected → s.connection.state ≠ .kDisconnected)
    (hcallbacks : s'.callbacks = true → s.callbacks = true) : closable s' ≤ closable s := by
  unfold closable
  split
  · rename_i hopen
    rw [if_pos ⟨hstate hopen.1, hcallbacks hopen.2⟩]
  · exact Nat.zero_le _

section Step

variable (hplaced : Placed site c) (htop : c.stack t = i :: rest)
  (hmoves : Moves site t c.shared i s pushed)

include hplaced htop hmoves

omit hplaced in
theorem Direct.closable_step (h : Direct site c) : closable s ≤ closable c.shared := by
  refine closable_le (fun hopen => ?_) fun hcallbacks => ?_
  · obtain heq | ⟨j, x, calls, rfl, exec, -⟩ := hmoves.connection_eq
    · rwa [heq] at hopen
    · obtain ⟨rfl, -⟩ | heq | ⟨-, heq⟩ | ⟨heq, -⟩ :=
        state_cases (TcpConnection.moves_of_exec exec)
      · rw [h.connecting htop rfl]
        exact nofun
      · rwa [heq] at hopen
      · exact absurd heq hopen
      · rw [heq]
        exact nofun
  · obtain heq | ⟨-, -, -, -, hnot⟩ := hmoves.callbacks_eq
    · rwa [heq] at hcallbacks
    · rw [hnot] at hcallbacks
      cases hcallbacks

theorem Direct.pending_step (h : Direct site c) (hclient : site.owner = .client) :
    (c.replace t s (pushed ++ rest)).total Instr.closings + closable s ≤
        c.total Instr.closings + closable c.shared ∧
      (Destroying site c.shared s i →
        (c.replace t s (pushed ++ rest)).total Instr.closings + closable s + 1 ≤
          c.total Instr.closings + closable c.shared) := by
  have htotal := Config.total_replace Instr.closings htop s pushed
  have hclosable := h.closable_step htop hmoves
  constructor
  · obtain hzero | ⟨rfl, rfl, hcallbacks, hopen, hclosed, -⟩ := hmoves.closings_eq
    · omega
    · have hbefore : closable c.shared = 1 := if_pos ⟨hopen, hcallbacks⟩
      have hafter : closable s = 0 := if_neg fun hstill => hstill.1 hclosed
      simp only [Config.weigh_cons, Config.weigh_nil, Instr.closings] at htotal
      omega
  · intro hdestroying
    have hzero : Config.weigh Instr.closings pushed = 0 := by
      obtain hzero | ⟨rfl, -⟩ := hmoves.closings_eq
      · exact hzero
      · exact hdestroying.elim
    cases i with
    | closeCallback =>
      simp only [Instr.closings] at htotal
      omega
    | destroy =>
      obtain ⟨hcallbacks, hopen⟩ := h.owned hdestroying.2.1
      have ht : t = site.io := by
        have hhome : t = site.home := hplaced.fits t _ (Config.active_of_top htop)
        rwa [Site.home, hclient] at hhome
      have hstate : c.shared.connection.state ≠ .kDisconnected := by
        refine hopen.resolve_right ?_
        rintro ⟨j, hactive, hcloses⟩
        rw [← ht] at hactive
        cases h.heads.eq_top htop hactive hcloses
        exact hcloses
      have hbefore : closable c.shared = 1 := if_pos ⟨hstate, hcallbacks⟩
      have hafter : closable s = 0 := if_neg fun hstill => by
        rw [hdestroying.2.2] at hstill
        exact absurd hstill.2 (by rintro ⟨⟩)
      simp only [Instr.closings] at htotal
      omega
    | removeConnectionInLoop =>
      have hserver : site.owner = .server t := hplaced.fits t _ (Config.active_of_top htop)
      rw [hclient] at hserver
      cases hserver
    | _ => exact hdestroying.elim

end Step

end UnixNotes.Reactor.Lifetime
