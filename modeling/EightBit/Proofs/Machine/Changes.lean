/-
  EightBit.Proofs.Machine.Changes
  ───────────────────────────────
  **WHAT A STEP LISTS AS CHANGED.**

  A display that shows only what is listed must show all there is.  So the list
  is to cover whatever differs after the step.  It may list more: what is written
  over with the same content is listed too.  A list that covers the differences
  is enough to make the one core of the other, whatever its order, and the
  writes of a step are few and to different places.

  The list is made on the way, by the setters of the working copy.  One write past
  them, and it would be incomplete; but a step on the copy is the step from the
  core, of which it can be said what is written.

  Main results:
    • `applyAll_map_read_eq_iff` — which lists make one core of another;
    • `nodup_kind_of_steps`      — one location of each kind is written at most;
    • `records_of_step`          — the list of a step is complete.
-/
import EightBit.Proofs.Machine.WorkingCopy
import Mathlib.Data.List.Induction
import Mathlib.Data.List.Nodup

namespace EightBit

/-! ## §1. Carrying contents over. -/

namespace Core

section Replay

variable {before after : Core} {ls : List Location}

/-- What is carried over is as it is there, and the rest is as it was. -/
theorem read_applyAll_map_read (before after : Core) (ls : List Location) (l : Location) :
    (before.applyAll (ls.map after.read)).read l
      = if l ∈ ls then after.read l else before.read l := by
  induction ls using List.reverseRecOn with
  | nil => rfl
  | append_singleton ls last ih =>
    -- the last write decides at its own location, and the others are seen elsewhere
    rw [List.map_append, applyAll, List.foldl_append]
    change (apply _ (after.read last)).read l = _
    by_cases hl : l = last
    · subst hl
      have hself := read_apply_self (before.applyAll (ls.map after.read)) (after.read l)
      rw [location_read] at hself
      rw [if_pos (by simp)]
      exact hself
    · rw [read_apply_of_ne _ _ (by simpa using hl)]
      have hmem : l ∈ ls ++ [last] ↔ l ∈ ls := by simp [hl]
      simp only [hmem]
      exact ih

/-- **Which lists make one core of another**: those that have all differences. -/
theorem applyAll_map_read_eq_iff : before.applyAll (ls.map after.read) = after
    ↔ ∀ l, after.read l ≠ before.read l → l ∈ ls := by
  constructor
  · intro h l hne
    have hread := read_applyAll_map_read before after ls l
    rw [h] at hread
    by_contra hl
    rw [if_neg hl] at hread
    exact hne hread
  · intro h
    refine ext_read fun l => ?_
    rw [read_applyAll_map_read]
    split
    · rfl
    · next hl => exact (not_not.1 fun hne => hl (h l hne)).symm

end Replay

end Core

/-! ## §2. The writes of a step. -/

/-- The kinds of locations. -/
inductive Location.Kind where
  | register
  | ip
  | sp
  | sr
  | memory
  deriving DecidableEq

def Location.kind : Location → Location.Kind
  | .register _ => .register
  | .ip => .ip
  | .sp => .sp
  | .sr => .sr
  | .memory _ => .memory

namespace Core

section Writes

variable {c : Core} {input : InputSignals} {e : Effect}

/-- **Of each kind one location is written at most.** -/
theorem nodup_kind_of_steps (h : c.Steps input e) :
    ((e.writes.map Write.location).map Location.kind).Nodup := by
  cases h with
  | trap => simp [Effect.silent, Write.location, Location.kind]
  | instruction _ hperforms =>
    cases hperforms <;> simp [Effect.silent, Write.location, Location.kind]

/-- Two locations of a kind that are written are one. -/
theorem location_unique_of_steps (h : c.Steps input e) {l l' : Location}
    (hl : l ∈ e.writes.map Write.location) (hl' : l' ∈ e.writes.map Write.location)
    (hkind : l.kind = l'.kind) : l = l' :=
  List.inj_on_of_nodup_map (nodup_kind_of_steps h) hl hl' hkind

end Writes

/-! ## §3. The list of a step. -/

/-- **A record of changes** from one core to another. -/
structure Records (before after : Core) (changes : List Location) : Prop where
  /-- Whatever differs is listed. -/
  listed : ∀ l, after.read l ≠ before.read l → l ∈ changes
  /-- Nothing is listed twice. -/
  nodup : changes.Nodup
  address : ∀ a b, .memory a ∈ changes → .memory b ∈ changes → a = b
  register : ∀ r q, .register r ∈ changes → .register q ∈ changes → r = q
  /-- What is listed, in this or in another order, makes the one core of the other. -/
  replay : ∀ ls : List Location, ls.Perm changes → before.applyAll (ls.map after.read) = after

end Core

/-- **The list of a step is complete**, as it is noted on the working copy. -/
theorem records_of_step {c : Core} {input : InputSignals} {s : Step}
    (h : WorkingCopy.step c input = .ok s) : c.Records s.core s.changes := by
  rw [WorkingCopy.step_eq] at h
  obtain ⟨e, hsteps, rfl⟩ := Core.steps_of_step h
  have hlisted : ∀ l, (c.applyAll e.writes).read l ≠ c.read l →
      l ∈ e.writes.map Write.location := by
    intro l hne
    by_contra hl
    exact hne (Core.read_applyAll_of_not_mem hl)
  exact
    { listed := hlisted
      nodup := (Core.nodup_kind_of_steps hsteps).of_map
      address := fun _ _ ha hb =>
        Location.memory.inj (Core.location_unique_of_steps hsteps ha hb rfl)
      register := fun _ _ hr hq =>
        Location.register.inj (Core.location_unique_of_steps hsteps hr hq rfl)
      replay := fun _ hperm =>
        Core.applyAll_map_read_eq_iff.2 fun l hne => hperm.mem_iff.2 (hlisted l hne) }

/-- A register is pushed that holds what is at the top of the stack already. -/
def pushedAgain : Core := ⟨Memory.blank.set 0 0xE0, .initial⟩

/-- The byte at the top is listed, though it is the same as before. -/
theorem records_of_step_pushedAgain : ∃ s, WorkingCopy.step pushedAgain .none = .ok s
    ∧ s.changes = [.memory 0xBF, .sp, .ip]
    ∧ s.core.read (.memory 0xBF) = pushedAgain.read (.memory 0xBF)
    ∧ pushedAgain.Records s.core s.changes := by
  have hstep : (WorkingCopy.step pushedAgain .none).toOption.map
      (fun s => (s.changes, s.core.read (.memory 0xBF)))
        = some ([.memory 0xBF, .sp, .ip], pushedAgain.read (.memory 0xBF)) := by decide +kernel
  obtain ⟨s, hs, hlist⟩ := exists_of_toOption_map hstep
  obtain ⟨hchanges, hbyte⟩ := Prod.mk.inj hlist
  exact ⟨s, hs, hchanges, hbyte, records_of_step hs⟩

end EightBit
