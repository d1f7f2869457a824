import Mathlib.Data.List.Induction
import NameRegistry.Proofs.Ascending

/-! # The walk with a cursor

A walk goes through the names of an arena in order and works on those that are used. It does not
look the names up: a cursor in the used names moves along, and never back. The main statement is
that it works on the used names from where it starts, each once, just as a walk does that looks
every name up.
-/

namespace NameRegistry

/-- How far a walk has come: the used names from the cursor on, and what the work has led to. -/
structure Walk (σ : Type u) where
  cursor : List Name
  state : σ

section Work

variable {σ : Type u} (work : σ → Name → σ)

/-- Moves the cursor past all smaller names. If it then points at the name, the name is worked
on and the cursor moves past it too. -/
def Walk.visit (walk : Walk σ) (name : Name) : Walk σ :=
  match walk.cursor.dropWhile (· < name) with
  | [] => { cursor := [], state := walk.state }
  | next :: later =>
      if next = name then { cursor := later, state := work walk.state name }
      else { cursor := next :: later, state := walk.state }

/-- Walks along some names, with the cursor on the first used name at the beginning. -/
def Walk.along (used names : List Name) (state : σ) : Walk σ :=
  names.foldl (visit work) { cursor := used, state }

/-- Works on the names that are found among the used ones when they are looked up. -/
def workOnUsed (used names : List Name) (state : σ) : σ :=
  names.foldl (fun state name => if name ∈ used then work state name else state) state

private theorem Walk.state_along (used names : List Name) (state : σ) :
    (along work used names state).state = (commonAscending names used).foldl work state := by
  unfold along
  induction names generalizing used state with
  | nil => rw [commonAscending]; rfl
  | cons name names induction =>
      rw [List.foldl_cons, visit, commonAscending]
      cases used.dropWhile (· < name) with
      | nil => exact induction [] state
      | cons next later =>
          by_cases same : next = name
          · simp only [if_pos same]
            exact induction later (work state name)
          · simp only [if_neg same]
            exact induction (next :: later) state

end Work

/-! ## Where the cursor points -/

namespace Walk

variable {σ : Type u} (work : σ → Name → σ) {used : List Name} (ascending : Ascending used)

include ascending

private theorem visit_eq {walk : Walk σ} {name : Name}
    (points : walk.cursor.dropWhile (· < name) = used.filter (name ≤ ·)) :
    walk.visit work name =
      { cursor := used.filter (name < ·)
        state := if name ∈ used then work walk.state name else walk.state } := by
  have listed : name ∈ used ↔ name ∈ used.filter (name ≤ ·) := by simp
  have kept : used.filter (name < ·) = (used.filter (name ≤ ·)).filter (name < ·) := by
    rw [List.filter_filter]
    refine List.filter_congr fun other _ => ?_
    have weaker : name < other → name ≤ other := le_of_lt
    rw [Bool.eq_iff_iff]
    simpa using weaker
  have above : ∀ other ∈ used.filter (name ≤ ·), name ≤ other := by
    simp
  rw [visit, points, kept]
  simp only [listed]
  rcases Ascending.first_or_not_mem (ascending.filter _) above with
    ⟨later, first, beyond⟩ | ⟨absent, beyond⟩
  · rw [beyond, first]
    simp
  · rw [beyond, if_neg absent]
    cases found : used.filter (name ≤ ·) with
    | nil => rfl
    | cons next later =>
        have different : next ≠ name := fun same =>
          absent (found ▸ same ▸ List.mem_cons_self)
        simp only [if_neg different]

private theorem dropWhile_filter_lt {name later : Name} (less : name < later) :
    (used.filter (name < ·)).dropWhile (· < later) = used.filter (later ≤ ·) := by
  rw [Ascending.dropWhile_lt (ascending.filter _), List.filter_filter]
  refine List.filter_congr fun other _ => ?_
  have beyond : later ≤ other → name < other := Nat.lt_of_lt_of_le less
  rw [Bool.eq_iff_iff]
  simpa using beyond

private theorem along_concat {names : List Name} {name : Name}
    (ordered : Ascending (names ++ [name])) (state : σ) :
    along work used (names ++ [name]) state =
      { cursor := used.filter (name < ·)
        state := workOnUsed work used (names ++ [name]) state } := by
  unfold along workOnUsed
  -- Before the first name the cursor points at all used names, and before every other one beyond
  -- the name that comes before it. From either place it skips to the same name.
  induction names using List.reverseRecOn generalizing name with
  | nil => exact visit_eq work ascending (ascending.dropWhile_lt name)
  | append_singleton names earlier induction =>
      have parts := List.pairwise_append.mp ordered
      have less := parts.2.2 earlier (by simp) name (by simp)
      rw [List.foldl_concat, induction parts.1, List.foldl_concat _ state name]
      exact visit_eq work ascending (dropWhile_filter_lt ascending less)

private theorem state_along_eq {names : List Name} (ordered : Ascending names) (state : σ) :
    (along work used names state).state = workOnUsed work used names state := by
  cases names using List.reverseRecOn with
  | nil => rfl
  | append_singleton names name => rw [along_concat work ascending ordered]

end Walk

/-! ## The names that are reached -/

private theorem commonAscending_namesBetween {used : List Name} {start stop : Nat}
    (ascending : Ascending used) (inside : ∀ name ∈ used, name < ⟨stop⟩) :
    commonAscending (namesBetween start stop) used = used.filter (⟨start⟩ ≤ ·) := by
  rw [commonAscending_eq_filter (ascending_namesBetween start stop) ascending]
  refine List.filter_congr fun name member => ?_
  have early : name.index < stop := inside name member
  rw [decide_eq_decide, mem_namesBetween]
  exact ⟨fun between => between.1, fun late => ⟨late, early⟩⟩

/-- A walk over the names from `start` up to `stop`, with a cursor in ascending used names,
works on the used names that do not lie below `start`: on each once, in ascending order and
whatever the work is. Looking each name up comes to the same work. On its way, the cursor
points at the first used name beyond the names that have been walked over. The labels of an
assignment are chosen on such a walk, so they might as well be chosen by looking names up. -/
theorem walk_reaches_used {used : List Name} {start stop : Nat} (ascending : Ascending used)
    (inside : ∀ name ∈ used, name < ⟨stop⟩) :
    commonAscending (namesBetween start stop) used = used.filter (⟨start⟩ ≤ ·) ∧
    Ascending (commonAscending (namesBetween start stop) used) ∧
    (∀ {σ : Type u} (work : σ → Name → σ) (state : σ),
      (Walk.along work used (namesBetween start stop) state).state =
          (used.filter (⟨start⟩ ≤ ·)).foldl work state ∧
        (Walk.along work used (namesBetween start stop) state).state =
          workOnUsed work used (namesBetween start stop) state ∧
        ∀ last, start ≤ last →
          (Walk.along work used (namesBetween start (last + 1)) state).cursor =
            used.filter (⟨last⟩ < ·)) ∧
    ∀ (registry : Registry) (illegal : List Label),
      registry.chooseLabels used illegal =
        (registry.review used illegal).map fun review =>
          workOnUsed (Registry.Progress.visit illegal review.clashing) used
            registry.openNames { registry, taken := review.taken } := by
  have reached : commonAscending (namesBetween start stop) used = used.filter (⟨start⟩ ≤ ·) :=
    commonAscending_namesBetween ascending inside
  refine ⟨reached, ?_, ?_, ?_⟩
  · rw [reached]
    exact List.Pairwise.filter _ ascending
  · intro σ work state
    refine ⟨?_, ?_, ?_⟩
    · rw [Walk.state_along, reached]
    · exact Walk.state_along_eq work ascending (ascending_namesBetween start stop) state
    · intro last le
      have ordered := ascending_namesBetween start (last + 1)
      rw [namesBetween_succ le] at ordered ⊢
      rw [Walk.along_concat work ascending ordered]
  · intro registry illegal
    have ordered : Ascending registry.openNames := ascending_namesBetween _ _
    unfold Registry.chooseLabels
    cases registry.review used illegal with
    | error error => rfl
    | ok review =>
        have same := Walk.state_along_eq (Registry.Progress.visit illegal review.clashing)
          ascending ordered { registry, taken := review.taken }
        rw [Walk.state_along] at same
        exact congrArg Except.ok same

/-- One used name lies below the start, and the others leave gaps. -/
theorem walk_reaches_used_of_gaps :
    Ascending [⟨1⟩, ⟨38⟩, ⟨40⟩] ∧ (∀ name ∈ [⟨1⟩, ⟨38⟩, ⟨40⟩], name < (⟨42⟩ : Name)) ∧
      commonAscending (namesBetween 37 42) [⟨1⟩, ⟨38⟩, ⟨40⟩] = [⟨38⟩, ⟨40⟩] ∧
      (Walk.along (fun done name => done ++ [name]) [⟨1⟩, ⟨38⟩, ⟨40⟩]
        (namesBetween 37 42) []).state = [⟨38⟩, ⟨40⟩] ∧
      (Walk.along (fun done name => done ++ [name]) [⟨1⟩, ⟨38⟩, ⟨40⟩]
        (namesBetween 37 39) []).cursor = [⟨40⟩] := by
  have ascending : Ascending [⟨1⟩, ⟨38⟩, ⟨40⟩] := by decide
  have inside : ∀ name ∈ [⟨1⟩, ⟨38⟩, ⟨40⟩], name < (⟨42⟩ : Name) := by decide
  have walked := @walk_reaches_used [⟨1⟩, ⟨38⟩, ⟨40⟩] 37 42 ascending inside
  have worked := walked.2.2.1 (fun done name => done ++ [name]) []
  exact ⟨ascending, inside, walked.1, worked.1, worked.2.2 38 (by decide)⟩

end NameRegistry
