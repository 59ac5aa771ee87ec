import Mathlib.Data.List.Basic
import Mathlib.Data.List.Nodup

/-! # Runs of a partial step function

    A system is a partial step function on states, driven by a list of events.
    An event that is not enabled has no successor, so a run that reaches a
    state took only enabled steps.

    * `run` folds the step over the events;
    * `Meets C` says every step of the run satisfies the condition `C`;
    * `Always P` says every state the run visits satisfies `P`;
    * `run_invariant` is the induction, done once: what every conforming step
      preserves, every conforming run preserves. -/

namespace Runs

variable {σ ε : Type} (step : σ → ε → Option σ)

/-- Drive the system through the events, in order. -/
def run : σ → List ε → Option σ
  | s, []      => some s
  | s, e :: es => (step s e).bind fun s' => run s' es

/-- Every step of the run satisfies `C` in the state it is taken from. -/
def Meets (C : σ → ε → Prop) : σ → List ε → Prop
  | _, []      => True
  | s, e :: es => C s e ∧ ∀ s', step s e = some s' → Meets C s' es

/-- Every state the run visits satisfies `P`. -/
def Always (P : σ → Prop) : σ → List ε → Prop
  | s, []      => P s
  | s, e :: es => P s ∧ ∀ s', step s e = some s' → Always P s' es

@[simp] theorem run_nil (s : σ) : run step s [] = some s := rfl

theorem run_cons (s : σ) (e : ε) (es : List ε) :
    run step s (e :: es) = (step s e).bind fun s' => run step s' es := rfl

/-- A nonempty run is a step followed by a run. -/
theorem run_cons_some {s t : σ} {e : ε} {es : List ε}
    (h : run step s (e :: es) = some t) :
    ∃ s', step s e = some s' ∧ run step s' es = some t := by
  rw [run_cons] at h
  exact Option.bind_eq_some_iff.mp h

/-- **The run rule.** An invariant of every conforming step is an invariant of
    every conforming run. -/
theorem run_invariant {C : σ → ε → Prop} {P : σ → Prop}
    (hstep : ∀ s e s', P s → C s e → step s e = some s' → P s') :
    ∀ (es : List ε) (s t : σ), P s → Meets step C s es →
      run step s es = some t → P t := by
  intro es
  induction es with
  | nil =>
      intro s t hs _ hr
      rw [run_nil] at hr
      exact Option.some.inj hr ▸ hs
  | cons e es ih =>
      intro s t hs hm hr
      obtain ⟨s', h1, h2⟩ := run_cons_some step hr
      exact ih s' t (hstep s e s' hs hm.1 h1) (hm.2 s' h1) h2

/-- **The exact run rule.** If a step keeps the property exactly when it meets
    the condition, a run keeps it exactly when all its steps do. -/
theorem run_iff {C : σ → ε → Prop} {P : σ → Prop}
    (hstep : ∀ s e s', step s e = some s' → (P s' ↔ P s ∧ C s e)) :
    ∀ (es : List ε) (s t : σ), run step s es = some t →
      (P t ↔ P s ∧ Meets step C s es) := by
  intro es
  induction es with
  | nil =>
      intro s t hr
      rw [run_nil] at hr
      rw [Option.some.inj hr]
      exact (and_iff_left trivial).symm
  | cons e es ih =>
      intro s t hr
      obtain ⟨s', h1, h2⟩ := run_cons_some step hr
      -- the step is a function, so one successor stands for all of them
      have hall : (∀ s'', step s e = some s'' → Meets step C s'' es) ↔ Meets step C s' es := by
        constructor
        · intro h
          exact h s' h1
        · intro h s'' h3
          rw [h1] at h3
          exact Option.some.inj h3 ▸ h
      rw [ih s' t h2, hstep s e s' h1, Meets, hall, and_assoc]

/-- The run visits the state it starts in. -/
theorem Always.start {P : σ → Prop} {s : σ} {es : List ε} (h : Always step P s es) : P s := by
  cases es with
  | nil => exact h
  | cons e es => exact h.1

/-- Whether all states of a run are good can be computed by running it. -/
instance decidableAlways (P : σ → Prop) [DecidablePred P] :
    (s : σ) → (es : List ε) → Decidable (Always step P s es)
  | s, []      => inferInstanceAs (Decidable (P s))
  | s, e :: es =>
      have : Decidable (∀ s', step s e = some s' → Always step P s' es) :=
        match step s e with
        | none    => isTrue (by simp)
        | some s' =>
            match decidableAlways P s' es with
            | isTrue h  => isTrue (by simpa using h)
            | isFalse h => isFalse (by simpa using h)
      inferInstanceAs (Decidable (P s ∧ ∀ s', step s e = some s' → Always step P s' es))

theorem meets_cons {C : σ → ε → Prop} {s : σ} {e : ε} {es : List ε} (s' : σ)
    (hs : step s e = some s') (hc : C s e) (hm : Meets step C s' es) :
    Meets step C s (e :: es) := by
  refine ⟨hc, ?_⟩
  intro s'' hs'
  rw [hs] at hs'
  exact Option.some.inj hs' ▸ hm

/-- A run that meets two conditions meets both at once. -/
theorem Meets.and {C D : σ → ε → Prop} {s : σ} {es : List ε} (hc : Meets step C s es)
    (hd : Meets step D s es) :
    Meets step (fun s e => C s e ∧ D s e) s es := by
  induction es generalizing s with
  | nil => trivial
  | cons e es ih => exact ⟨⟨hc.1, hd.1⟩, fun s' hs => ih (hc.2 s' hs) (hd.2 s' hs)⟩

/-- Whether all steps of a run meet a condition can be computed as well. -/
instance decidableMeets (C : σ → ε → Prop) [∀ s e, Decidable (C s e)] :
    (s : σ) → (es : List ε) → Decidable (Meets step C s es)
  | _, []      => isTrue trivial
  | s, e :: es =>
      have : Decidable (∀ s', step s e = some s' → Meets step C s' es) :=
        match step s e with
        | none    => isTrue (by simp)
        | some s' =>
            match decidableMeets C s' es with
            | isTrue h  => isTrue (by simpa using h)
            | isFalse h => isFalse (by simpa using h)
      inferInstanceAs (Decidable (C s e ∧ ∀ s', step s e = some s' → Meets step C s' es))

/-- An invariant of every conforming step holds in every state of a conforming
    run. -/
theorem always_of_meets {C : σ → ε → Prop} {P I : σ → Prop}
    (hstep : ∀ s e s', I s → C s e → step s e = some s' → I s') (hstate : ∀ s, I s → P s) :
    ∀ (es : List ε) (s : σ), I s → Meets step C s es → Always step P s es := by
  intro es
  induction es with
  | nil =>
      intro s hi _
      exact hstate s hi
  | cons e es ih =>
      intro s hi hm
      refine ⟨hstate s hi, ?_⟩
      intro s' hs
      exact ih s' (hstep s e s' hi hm.1 hs) (hm.2 s' hs)

/-- What an invariant and one condition give for a step, they give all along a
    run. -/
theorem meets_of_invariant {C D : σ → ε → Prop} {I : σ → Prop}
    (hstep : ∀ s e s', I s → C s e → step s e = some s' → I s')
    (hcond : ∀ s e, I s → C s e → D s e) :
    ∀ (es : List ε) (s : σ), I s → Meets step C s es → Meets step D s es := by
  intro es
  induction es with
  | nil =>
      intro _ _ _
      trivial
  | cons e es ih =>
      intro s hi hm
      refine ⟨hcond s e hi hm.1, ?_⟩
      intro s' hs
      exact ih s' (hstep s e s' hi hm.1 hs) (hm.2 s' hs)

/-- What each step that is taken satisfies, every step of a run does. -/
theorem meets_of_run {C D : σ → ε → Prop} {I : σ → Prop}
    (hstep : ∀ s e s', I s → C s e → step s e = some s' → I s')
    (hcond : ∀ s e s', I s → C s e → step s e = some s' → D s e) :
    ∀ (es : List ε) (s t : σ), I s → Meets step C s es → run step s es = some t →
      Meets step D s es := by
  intro es
  induction es with
  | nil =>
      intro _ _ _ _ _
      trivial
  | cons e es ih =>
      intro s t hi hm hr
      obtain ⟨s', h1, h2⟩ := run_cons_some step hr
      have hrest := ih s' t (hstep s e s' hi hm.1 h1) (hm.2 s' h1) h2
      exact meets_cons step s' h1 (hcond s e s' hi hm.1 h1) hrest

/-- **The exact rule for the steps of a run.** Two conditions on a step that are one where
    an invariant holds are one along a run, if the first of them keeps the invariant. -/
theorem meets_iff {C D : σ → ε → Prop} {I : σ → Prop}
    (hiff : ∀ s e s', I s → step s e = some s' → (D s e ↔ C s e))
    (hinv : ∀ s e s', I s → D s e → step s e = some s' → I s') :
    ∀ (es : List ε) (s t : σ), I s → run step s es = some t →
      (Meets step D s es ↔ Meets step C s es) := by
  intro es
  induction es with
  | nil =>
      intro _ _ _ _
      exact Iff.rfl
  | cons e es ih =>
      intro s t hi hr
      obtain ⟨s', h1, h2⟩ := run_cons_some step hr
      constructor
      · rintro ⟨hd, hall⟩
        have hrest := (ih s' t (hinv s e s' hi hd h1) h2).mp (hall s' h1)
        exact meets_cons step s' h1 ((hiff s e s' hi h1).mp hd) hrest
      · rintro ⟨hc, hall⟩
        have hd := (hiff s e s' hi h1).mpr hc
        have hrest := (ih s' t (hinv s e s' hi hd h1) h2).mpr (hall s' h1)
        exact meets_cons step s' h1 hd hrest

/-- **The rule for every state of a run.** What an invariant and one property
    give in each state, they give all along a run. -/
theorem always_of_invariant {P Q I : σ → Prop}
    (hinv : ∀ s e s', I s → step s e = some s' → I s') (hstate : ∀ s, I s → P s → Q s) :
    ∀ (es : List ε) (s : σ), I s → Always step P s es → Always step Q s es := by
  intro es
  induction es with
  | nil =>
      intro s hi hp
      exact hstate s hi hp
  | cons e es ih =>
      intro s hi hp
      refine ⟨hstate s hi hp.1, ?_⟩
      intro s' hs
      exact ih s' (hinv s e s' hi hs) (hp.2 s' hs)

/-- **The exact rule for every state of a run.** Under an invariant, if a step
    from a good state leads to a good one exactly when it meets the condition,
    all states of a run are good exactly when all its steps meet it. -/
theorem always_iff {C : σ → ε → Prop} {P I : σ → Prop}
    (hinv : ∀ s e s', I s → step s e = some s' → I s')
    (hstep : ∀ s e s', I s → P s → step s e = some s' → (P s' ↔ C s e)) :
    ∀ (es : List ε) (s t : σ), I s → P s → run step s es = some t →
      (Always step P s es ↔ Meets step C s es) := by
  intro es
  induction es with
  | nil =>
      intro s t _ hs _
      exact iff_of_true hs trivial
  | cons e es ih =>
      intro s t hi hs hr
      obtain ⟨s', h1, h2⟩ := run_cons_some step hr
      have hi' := hinv s e s' hi h1
      constructor
      · rintro ⟨_, hall⟩
        have hs' := (hall s' h1).start step
        refine ⟨(hstep s e s' hi hs h1).mp hs', ?_⟩
        intro s'' h3
        rw [h1] at h3
        rw [← Option.some.inj h3]
        exact (ih s' t hi' hs' h2).mp (hall s' h1)
      · rintro ⟨hc, hall⟩
        have hs' := (hstep s e s' hi hs h1).mpr hc
        refine ⟨hs, ?_⟩
        intro s'' h3
        rw [h1] at h3
        rw [← Option.some.inj h3]
        exact (ih s' t hi' hs' h2).mpr (hall s' h1)

/-- A run without conditions meets the trivial one. -/
theorem meets_true (s : σ) (es : List ε) : Meets step (fun _ _ => True) s es := by
  induction es generalizing s with
  | nil => trivial
  | cons e es ih => exact ⟨trivial, fun s' _ => ih s'⟩

/-- The run rule for an invariant that every step preserves. -/
theorem run_invariant_all {P : σ → Prop}
    (hstep : ∀ s e s', P s → step s e = some s' → P s')
    {es : List ε} {s t : σ} (hs : P s) (hr : run step s es = some t) : P t :=
  run_invariant step (C := fun _ _ => True)
    (fun a e b ha _ hb => hstep a e b ha hb) es s t hs (meets_true step s es) hr

/-! ## Local states

    The parties of a system are a list; a step moves one of them, or appends
    a new one. -/

variable {α : Type}

theorem getElem?_set_cases {l : List α} {i j : Nat} {a b : α} (h : (l.set i a)[j]? = some b) :
    (j = i ∧ b = a) ∨ (j ≠ i ∧ l[j]? = some b) := by
  rw [List.getElem?_set] at h
  by_cases hij : i = j
  · rw [if_pos hij] at h
    split at h
    · exact Or.inl ⟨hij.symm, (Option.some.inj h).symm⟩
    · cases h
  · rw [if_neg hij] at h
    exact Or.inr ⟨Ne.symm hij, h⟩

theorem getElem?_append_cases {l : List α} {j : Nat} {a b : α} (h : (l ++ [a])[j]? = some b) :
    l[j]? = some b ∨ (j = l.length ∧ b = a) := by
  rw [List.getElem?_append] at h
  split at h
  · exact Or.inl h
  · rw [List.getElem?_singleton] at h
    split at h
    · exact Or.inr ⟨by omega, (Option.some.inj h).symm⟩
    · cases h

/-- What a move leaves alone in the party that moves, it leaves alone in all. -/
theorem map_set_of_eq {β : Type} {f : α → β} {l : List α} {i : Nat} {a b : α}
    (h : l[i]? = some a) (hf : f b = f a) : (l.set i b).map f = l.map f := by
  obtain ⟨hlt, rfl⟩ := List.getElem?_eq_some_iff.mp h
  rw [List.map_set, hf, ← List.map_set, List.set_getElem_self]

/-- Every index once, in order, is the list. -/
theorem filterMap_range_getElem? (l : List α) :
    (List.range l.length).filterMap (fun i => l[i]?) = l := by
  induction l with
  | nil => rfl
  | cons a l ih =>
      rw [List.length_cons, List.range_succ_eq_map, List.filterMap_cons, List.filterMap_map]
      exact congrArg (a :: ·) ih

end Runs
