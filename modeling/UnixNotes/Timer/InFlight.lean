import Mathlib.Data.Finset.Card
import Mathlib.Data.Finset.Dedup
import UnixNotes.Timer.Moves

namespace UnixNotes.Timer

open Library

namespace Instr

def holds (n : Nat) : Instr → Nat
  | .rejected _ completion | .dropCompletion completion => if completion = n then 1 else 0
  | .enter w | .startCallback w | .runCallback w | .leave w => if w.completion = n then 1 else 0
  | _ => 0

/-- What `in_flight` counts beside the completions. -/
def finishing : Instr → Nat
  | .submit _ | .finishInFlight => 1
  | _ => 0

end Instr

/-- `in_flight` is the number of completions that somebody refers to, and of those whose end has
still to be counted. -/
structure InFlight (c : Config) : Prop where
  refs : ∀ n, c.total (Instr.holds n) + c.shared.pool.countP (fun w => w.completion = n) =
    c.shared.completions.count n
  fresh : ∀ n ∈ c.shared.completions, n < c.shared.submissions
  inFlight_eq : c.shared.inFlight = c.shared.completions.toFinset.card + c.total Instr.finishing

theorem toFinset_erase_of_mem {n : Nat} {l : List Nat} (h : n ∈ l.erase n) :
    (l.erase n).toFinset = l.toFinset := by
  ext m
  rw [List.mem_toFinset, List.mem_toFinset]
  constructor
  · exact List.mem_of_mem_erase
  · intro hm
    by_cases heq : m = n
    · rw [heq]
      exact h
    · exact (List.mem_erase_of_ne heq).mpr hm

theorem toFinset_erase_of_not_mem {n : Nat} {l : List Nat} (h : n ∉ l.erase n) :
    (l.erase n).toFinset = l.toFinset.erase n := by
  ext m
  rw [List.mem_toFinset, Finset.mem_erase, List.mem_toFinset]
  constructor
  · exact fun hm => ⟨fun heq => h (heq ▸ hm), List.mem_of_mem_erase hm⟩
  · exact fun hm => (List.mem_erase_of_ne hm.1).mpr hm.2

theorem keeps_execRequestStop (s : Shared) :
    (Instr.execRequestStop s).pool = s.pool ∧
      (Instr.execRequestStop s).completions = s.completions ∧
      (Instr.execRequestStop s).submissions = s.submissions ∧
      (Instr.execRequestStop s).inFlight = s.inFlight := by
  rw [Instr.execRequestStop]
  split <;> exact ⟨rfl, rfl, rfl, rfl⟩

namespace InFlight

variable {c c' : Config} {t : Nat} {i : Instr} {rest pushed : List Instr} {s : Shared}

theorem init (poolThreads threads : Nat) : InFlight (init poolThreads threads) := by
  refine ⟨fun n => ?_, nofun, ?_⟩
  · rw [total_init rfl rfl rfl]
    rfl
  · rw [total_init rfl rfl rfl]
    rfl

theorem replace (h : InFlight c) (htop : c.stack t = i :: rest)
    (hrefs : ∀ n, Config.weigh (Instr.holds n) pushed +
        s.pool.countP (fun w => w.completion = n) + c.shared.completions.count n =
      i.holds n + c.shared.pool.countP (fun w => w.completion = n) + s.completions.count n)
    (hfresh : ∀ n ∈ s.completions, n < s.submissions)
    (hcount : s.inFlight + c.shared.completions.toFinset.card + i.finishing =
      c.shared.inFlight + s.completions.toFinset.card + Config.weigh Instr.finishing pushed) :
    InFlight (c.replace t s (pushed ++ rest)) := by
  refine ⟨fun n => ?_, hfresh, ?_⟩
  · have := h.refs n
    have := Config.total_replace (Instr.holds n) htop s pushed
    have := hrefs n
    rw [Config.shared_replace]
    omega
  · have := h.inFlight_eq
    have := Config.total_replace Instr.finishing htop s pushed
    rw [Config.shared_replace]
    omega

theorem keep (h : InFlight c) (htop : c.stack t = i :: rest)
    (hpool : s.pool = c.shared.pool) (hcompletions : s.completions = c.shared.completions)
    (hsubmissions : s.submissions = c.shared.submissions)
    (hinFlight : s.inFlight = c.shared.inFlight)
    (hholds : ∀ n, Config.weigh (Instr.holds n) pushed = i.holds n)
    (hfinishing : Config.weigh Instr.finishing pushed = i.finishing) :
    InFlight (c.replace t s (pushed ++ rest)) := by
  refine h.replace htop (fun n => ?_) ?_ ?_
  · rw [hpool, hcompletions, hholds]
  · rw [hcompletions, hsubmissions]
    exact h.fresh
  · rw [hinFlight, hcompletions, hfinishing]

theorem mem_completions (h : InFlight c) {n : Nat} (hactive : c.Active t i)
    (hholds : 0 < i.holds n) : n ∈ c.shared.completions := by
  have hle := Config.le_total (w := Instr.holds n) hactive
  have hrefs := h.refs n
  exact List.count_pos_iff.mp (by omega)

theorem refs_erase (h : InFlight c) {n : Nat} (htop : c.stack t = .dropCompletion n :: rest)
    (hholds : ∀ m, Config.weigh (Instr.holds m) pushed = 0) (m : Nat) :
    Config.weigh (Instr.holds m) pushed + c.shared.pool.countP (fun w => w.completion = m) +
        c.shared.completions.count m =
      (Instr.dropCompletion n).holds m + c.shared.pool.countP (fun w => w.completion = m) +
        (c.shared.completions.erase n).count m := by
  have hmem := h.mem_completions (Config.active_of_top htop) (n := n) (by simp [Instr.holds])
  have hcount := List.count_pos_iff.mpr hmem
  rw [hholds, List.count_erase, Instr.holds]
  by_cases heq : n = m
  · subst heq
    simp only [if_true, beq_self_eq_true]
    omega
  · simp only [if_neg heq, beq_iff_eq]
    omega

theorem card_cons (h : InFlight c) :
    (c.shared.submissions :: c.shared.completions).toFinset.card =
      c.shared.completions.toFinset.card + 1 := by
  rw [List.toFinset_cons, Finset.card_insert_of_notMem]
  intro hmem
  exact Nat.lt_irrefl _ (h.fresh _ (List.mem_toFinset.mp hmem))

theorem step (h : InFlight c) (hstep : machine.Step c t i c') : InFlight c' := by
  obtain @⟨rest, x, s, pushed, htop, hexec⟩ := hstep
  cases moves_of_exec (t := t) hexec with
  | nested w op => exact h.keep htop rfl rfl rfl rfl (fun _ => Nat.zero_add _) rfl
  | requestStop | beginStop =>
    obtain ⟨hpool, hcompletions, hsubmissions, hinFlight⟩ := keeps_execRequestStop c.shared
    exact h.keep htop hpool hcompletions hsubmissions hinFlight (fun _ => rfl) rfl
  | pass task rest ready =>
    refine h.replace htop (fun n => rfl) h.fresh ?_
    simp only [Config.weigh_cons, Config.weigh_nil, Instr.finishing]
    omega
  | accepted task =>
    refine h.replace htop (fun n => ?_) (fun n hn => ?_) ?_
    · simp only [Config.weigh_cons, Config.weigh_nil, Instr.holds, List.countP_append,
        List.countP_cons, List.countP_nil, List.count_cons, decide_eq_true_iff, beq_iff_eq]
      omega
    · simp only [List.mem_cons] at hn ⊢
      obtain rfl | rfl | hn := hn
      · exact Nat.lt_succ_self _
      · exact Nat.lt_succ_self _
      · exact Nat.lt_succ_of_lt (h.fresh n hn)
    · have hcard := h.card_cons
      simp only [List.toFinset_cons, Finset.insert_idem, Config.weigh_cons, Config.weigh_nil,
        Instr.finishing] at hcard ⊢
      omega
  | reject task =>
    refine h.replace htop (fun n => ?_) (fun n hn => ?_) ?_
    · simp only [Config.weigh_cons, Config.weigh_nil, Instr.holds, List.count_cons, beq_iff_eq]
      omega
    · cases hn with
      | head => exact Nat.lt_succ_self _
      | tail _ hn => exact Nat.lt_succ_of_lt (h.fresh n hn)
    · have hcard := h.card_cons
      simp only [Config.weigh_cons, Config.weigh_nil, Instr.finishing] at hcard ⊢
      omega
  | @dropShared n shared =>
    refine h.replace htop (h.refs_erase htop fun _ => rfl) (fun m hm => h.fresh m ?_) ?_
    · exact List.mem_of_mem_erase hm
    · simp only [toFinset_erase_of_mem shared]
      rfl
  | @dropLast n last =>
    refine h.replace htop (h.refs_erase htop fun _ => rfl) (fun m hm => h.fresh m ?_) ?_
    · exact List.mem_of_mem_erase hm
    · have hmem := h.mem_completions (Config.active_of_top htop) (n := n) (by simp [Instr.holds])
      have hcard := Finset.card_erase_add_one (List.mem_toFinset.mpr hmem)
      simp only [toFinset_erase_of_not_mem last, Config.weigh_cons, Config.weigh_nil,
        Instr.finishing]
      omega
  | finishInFlight =>
    refine h.replace htop (fun n => rfl) h.fresh ?_
    have heq := h.inFlight_eq
    have hle := Config.le_total (w := Instr.finishing) (Config.active_of_top htop)
    simp only [Config.weigh_nil, Instr.finishing] at hle ⊢
    omega
  | @run index w queued =>
    refine h.replace htop (fun n => ?_) h.fresh rfl
    obtain ⟨hlt, rfl⟩ := List.getElem?_eq_some_iff.mp queued
    have hcount := (List.getElem_cons_eraseIdx_perm hlt).symm.countP_eq
      (fun w => w.completion = n)
    rw [List.countP_cons] at hcount
    simp only [Config.weigh_cons, Config.weigh_nil, Instr.holds, decide_eq_true_iff] at hcount ⊢
    omega
  | _ => exact h.keep htop rfl rfl rfl rfl (fun _ => rfl) rfl

theorem none_left (h : InFlight c) (hidle : c.shared.inFlight = 0) :
    c.shared.completions = [] ∧ c.shared.pool = [] ∧ c.total Instr.finishing = 0 := by
  have heq := h.inFlight_eq
  have hnil : c.shared.completions = [] := by
    rw [← List.toFinset_eq_empty_iff, ← Finset.card_eq_zero]
    omega
  refine ⟨hnil, ?_, by omega⟩
  cases hpool : c.shared.pool with
  | nil => rfl
  | cons w pool =>
    have hrefs := h.refs w.completion
    rw [hpool, hnil, List.countP_cons_of_pos (by simp)] at hrefs
    simp at hrefs

theorem holds_eq_zero (h : InFlight c) (hidle : c.shared.inFlight = 0) (hactive : c.Active t i)
    (n : Nat) : i.holds n = 0 := by
  by_contra hne
  have hmem := h.mem_completions hactive (Nat.pos_of_ne_zero hne)
  rw [(h.none_left hidle).1] at hmem
  cases hmem

end InFlight

end UnixNotes.Timer
