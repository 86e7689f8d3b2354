import UnixNotes.Timer.Moves

namespace UnixNotes.Timer

open Library

namespace TimerTask

variable {a b c : TimerTask}

instance : Std.Total Before where
  total a b := by
    obtain hlt | heq | hlt := lt_trichotomy a.expiration b.expiration
    · exact .inl (.inl hlt)
    · obtain hle | hle := UInt64.le_total a.id b.id
      · exact .inl (.inr ⟨heq, hle⟩)
      · exact .inr (.inr ⟨heq.symm, hle⟩)
    · exact .inr (.inl hlt)

instance : IsTrans TimerTask Before where
  trans a b c hab hbc := by
    obtain hab | ⟨hab, hidab⟩ := hab
    · obtain hbc | ⟨hbc, -⟩ := hbc
      · exact .inl (hab.trans hbc)
      · exact .inl (hbc ▸ hab)
    · obtain hbc | ⟨hbc, hidbc⟩ := hbc
      · exact .inl (hab ▸ hbc)
      · exact .inr ⟨hab.trans hbc, UInt64.le_trans hidab hidbc⟩

theorem Before.expiration_le (h : a.Before b) : a.expiration ≤ b.expiration := by
  obtain hlt | ⟨heq, -⟩ := h
  · exact hlt.le
  · exact heq.le

end TimerTask

/-- The nodes come off in the order of `TimerTaskCompare`. -/
abbrev Heap (tasks : List TimerTask) : Prop := tasks.Pairwise TimerTask.Before

theorem Heap.top_le {top : TimerTask} {tasks : List TimerTask} (h : Heap (top :: tasks)) :
    ∀ task ∈ top :: tasks, top.expiration ≤ task.expiration := by
  rintro task (_ | ⟨_, hmem⟩)
  · exact le_rfl
  · exact ((List.pairwise_cons.mp h).1 task hmem).expiration_le

theorem suffix_dropCancelled (tasks : List TimerTask) (states : States) :
    (dropCancelled tasks states).1 <:+ tasks := by
  induction tasks generalizing states with
  | nil => exact List.suffix_refl _
  | cons top tasks ih =>
    rw [dropCancelled]
    split
    · exact (ih _).trans (List.suffix_cons ..)
    · exact List.suffix_refl _

theorem sublist_collect (now : Int) (tasks : List TimerTask) (states : States) :
    ((collect now tasks states).1 ++ (collect now tasks states).2.1).Sublist tasks ∧
      ∀ task ∈ (collect now tasks states).1, task.expiration ≤ now := by
  induction tasks generalizing states with
  | nil => exact ⟨List.Sublist.refl _, nofun⟩
  | cons top tasks ih =>
    rw [collect]
    split
    · rename_i hexpired
      split
      · obtain ⟨hsub, hready⟩ := ih (states.set top.id .submitted)
        refine ⟨hsub.cons_cons top, ?_⟩
        rintro task (_ | ⟨_, hmem⟩)
        · exact hexpired
        · exact hready task hmem
      · exact (ih _).imp_left fun hsub => hsub.cons top
      · exact (ih _).imp_left fun hsub => hsub.cons top
    · exact ⟨List.Sublist.refl _, nofun⟩

theorem heap_moves {s s' : Shared} {i : Instr} {pushed : List Instr} (h : Moves s i s' pushed)
    (hheap : Heap s.tasks) : Heap s'.tasks := by
  cases h with
  | schedule | again => exact hheap.orderedInsert _ _
  | requestStop | beginStop =>
    rw [Instr.execRequestStop]
    split <;> exact hheap
  | finished => exact List.Pairwise.nil
  | collect id expiration now =>
    exact hheap.sublist ((List.sublist_append_right ..).trans (sublist_collect now ..).1)
  | popCancelled => exact hheap.sublist (suffix_dropCancelled ..).sublist
  | _ => exact hheap

end UnixNotes.Timer
