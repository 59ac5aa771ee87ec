import Mathlib.Data.List.Induction
import Mathlib.Logic.Function.Basic

/-! # A table and its log

    A table is what the changes in its log leave of each other: a change puts a value at
    a key, and it removes entries.

    * `contents` is the table after the log;
    * `Stands` says an entry was put, and nothing after that has touched it;
    * `contents_iff` says these are the entries of the table. -/

namespace KeyedLog

/-- What the changes of a table do: at most one entry is put, and others go. -/
structure Changes (γ κ ν : Type) where
  puts : γ → Option (κ × ν)
  gone : γ → κ → ν → Bool

variable {γ κ ν : Type}

namespace Changes

variable (changes : Changes γ κ ν)

/-- The change leaves the entry as it is. -/
def Spares (c : γ) (key : κ) (value : ν) : Prop :=
  match changes.puts c with
  | none        => changes.gone c key value = false
  | some (k, _) => k ≠ key

/-- The entry was put, and nothing after that has touched it. -/
def Stands (log : List γ) (key : κ) (value : ν) : Prop :=
  ∃ before c after, log = before ++ c :: after ∧ changes.puts c = some (key, value) ∧
    ∀ d ∈ after, changes.Spares d key value

omit changes in
/-- A log with one more change, taken apart at a change. -/
theorem split_concat {log before after : List γ} {c d : γ} (h : log ++ [c] = before ++ d :: after) :
    before = log ∧ d = c ∧ after = [] ∨
      ∃ rest, after = rest ++ [c] ∧ log = before ++ d :: rest := by
  rcases after.eq_nil_or_concat with rfl | ⟨rest, last, rfl⟩
  · obtain ⟨hlog, hc⟩ := List.append_inj' h rfl
    cases hc
    exact .inl ⟨hlog.symm, rfl, rfl⟩
  · rw [List.concat_eq_append, ← List.cons_append, ← List.append_assoc] at h
    obtain ⟨hlog, hc⟩ := List.append_inj' h rfl
    cases hc
    exact .inr ⟨rest, List.concat_eq_append, hlog⟩

variable {changes} in
theorem stands_concat {log : List γ} {c : γ} {key : κ} {value : ν} :
    changes.Stands (log ++ [c]) key value ↔
      changes.puts c = some (key, value) ∨
        changes.Stands log key value ∧ changes.Spares c key value := by
  constructor
  · rintro ⟨before, d, after, hlog, hput, hspares⟩
    rcases split_concat hlog with ⟨-, rfl, -⟩ | ⟨rest, rfl, rfl⟩
    · exact .inl hput
    · exact .inr ⟨⟨before, d, rest, rfl, hput, fun e he => hspares e (List.mem_append_left _ he)⟩,
        hspares c (List.mem_append_right _ List.mem_cons_self)⟩
  · rintro (hput | ⟨⟨before, d, after, rfl, hput, hspares⟩, hc⟩)
    · exact ⟨log, c, [], rfl, hput, by rintro _ ⟨⟩⟩
    · refine ⟨before, d, after ++ [c], by simp, hput, fun e he => ?_⟩
      rcases List.mem_append.mp he with he | he
      · exact hspares e he
      · exact List.mem_singleton.mp he ▸ hc

variable {changes} in
/-- What stands although a change has removed it was put after that. -/
theorem Stands.later {before rest : List γ} {d : γ} {key : κ} {value : ν}
    (h : changes.Stands (before ++ d :: rest) key value) (hd : ¬ changes.Spares d key value)
    (hput : changes.puts d = none) : ∃ c ∈ rest, changes.puts c = some (key, value) := by
  induction rest using List.reverseRecOn with
  | nil =>
      rcases stands_concat.mp h with hd' | ⟨-, hspares⟩
      · rw [hput] at hd'
        cases hd'
      · exact absurd hspares hd
  | append_singleton rest c ih =>
      rw [← List.cons_append, ← List.append_assoc] at h
      rcases stands_concat.mp h with hc | ⟨hstands, -⟩
      · exact ⟨c, List.mem_append_right _ List.mem_cons_self, hc⟩
      · obtain ⟨c', hc', hputs⟩ := ih hstands
        exact ⟨c', List.mem_append_left _ hc', hputs⟩

variable [DecidableEq κ]

/-- The table after one more change: who is put stays whatever goes. -/
def apply (table : κ → Option ν) (c : γ) : κ → Option ν :=
  match changes.puts c with
  | none        => fun key => (table key).filter fun value => !changes.gone c key value
  | some (k, v) => Function.update table k (some v)

/-- The table after the log. -/
def contents (log : List γ) : κ → Option ν := log.foldl changes.apply fun _ => none

theorem contents_concat (log : List γ) (c : γ) :
    changes.contents (log ++ [c]) = changes.apply (changes.contents log) c := by
  rw [contents, List.foldl_append]
  rfl

variable {changes}

/-- One more change leaves an entry or is the one that puts it. -/
theorem apply_iff {table : κ → Option ν} {c : γ} {key : κ} {value : ν} :
    changes.apply table c key = some value ↔
      changes.puts c = some (key, value) ∨ table key = some value ∧ changes.Spares c key value := by
  rw [apply, Spares]
  cases hputs : changes.puts c with
  | none =>
      show (table key).filter _ = _ ↔ _
      rw [Option.filter_eq_some_iff, Bool.not_eq_true']
      exact ⟨.inr, fun h => h.resolve_left fun h => by cases h⟩
  | some entry =>
      obtain ⟨k, v⟩ := entry
      show Function.update table k (some v) key = some value ↔ _
      by_cases hk : k = key
      · subst hk
        rw [Function.update_self, Option.some.injEq]
        refine ⟨fun h => .inl (h ▸ rfl), fun h => ?_⟩
        rcases h with h | ⟨-, h⟩
        · exact (Prod.mk.inj (Option.some.inj h)).2
        · exact absurd rfl h
      · rw [Function.update_of_ne fun h => hk h.symm]
        refine ⟨fun h => .inr ⟨h, hk⟩, fun h => ?_⟩
        rcases h with h | ⟨h, -⟩
        · exact absurd (Prod.mk.inj (Option.some.inj h)).1 hk
        · exact h

/-- **The table is what stands in its log.** -/
theorem contents_iff (log : List γ) (key : κ) (value : ν) :
    changes.contents log key = some value ↔ changes.Stands log key value := by
  induction log using List.reverseRecOn with
  | nil =>
      refine iff_of_false (by rintro ⟨⟩) ?_
      rintro ⟨before, c, after, hlog, -⟩
      cases before <;> cases hlog
  | append_singleton log c ih =>
      rw [contents_concat, apply_iff, stands_concat, ih]

end Changes

end KeyedLog
