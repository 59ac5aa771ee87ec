import Mathlib.Data.List.Infix

/-! # Parts joined by a separator

    Parts with the separator and the escape character escaped, and a separator
    between them.  The text can be read back (`readPart`), so it determines its
    parts (`join_injective`), and where one text ends in a separator it is a
    prefix exactly of those that go on with further parts (`join_prefix_iff`). -/

namespace EscapedJoin

variable {α : Type} [DecidableEq α]

/-- The separator and the character that takes its meaning away. -/
structure Alphabet (α : Type) where
  separator : α
  escape    : α
  distinct  : separator ≠ escape

namespace Alphabet

variable (σ : Alphabet α)

def escaped (c : α) : List α := if c = σ.escape ∨ c = σ.separator then [σ.escape, c] else [c]

def part (s : List α) : List α := s.flatMap σ.escaped

def join : List (List α) → List α
  | []           => []
  | [p]          => σ.part p
  | p :: q :: ps => σ.part p ++ σ.separator :: join (q :: ps)

/-- The first part of a text, and what comes behind its separator, if it has one. -/
def readPart : List α → List α × Option (List α)
  | []             => ([], none)
  | [c]            => if c = σ.separator then ([], some []) else ([c], none)
  | c :: d :: rest =>
      if c = σ.escape then ((readPart rest).map (d :: ·) id)
      else if c = σ.separator then ([], some (d :: rest))
      else (readPart (d :: rest)).map (c :: ·) id

/-! ## Reading back -/

theorem readPart_separator (rest : List α) : σ.readPart
    (σ.separator :: rest) = ([], some rest) := by
  cases rest with
  | nil         => exact if_pos rfl
  | cons d rest => rw [readPart, if_neg σ.distinct, if_pos rfl]

theorem readPart_plain {c : α} (hescape : c ≠ σ.escape) (hseparator : c ≠ σ.separator)
    (rest : List α) :
    σ.readPart (c :: rest) = (σ.readPart rest).map (c :: ·) id := by
  cases rest with
  | nil         => exact if_neg hseparator
  | cons d rest => rw [readPart, if_neg hescape, if_neg hseparator]

theorem readPart_escaped (c : α) (rest : List α) :
    σ.readPart (σ.escaped c ++ rest) = (σ.readPart rest).map (c :: ·) id := by
  rw [escaped]
  by_cases h : c = σ.escape ∨ c = σ.separator
  · rw [if_pos h]
    exact if_pos rfl
  · rw [if_neg h]
    exact σ.readPart_plain (fun he => h (.inl he)) (fun hs => h (.inr hs)) rest

/-- A part that is followed by nothing or by a separator is read as it was. -/
theorem readPart_part (s rest : List α) :
    σ.readPart (σ.part s ++ rest) = (σ.readPart rest).map (s ++ ·) id := by
  induction s with
  | nil => rfl
  | cons c s ih =>
      show σ.readPart ((σ.escaped c ++ σ.part s) ++ rest) = _
      rw [List.append_assoc, readPart_escaped, ih]
      rfl

theorem readPart_part_end (s : List α) : σ.readPart (σ.part s) = (s, none) := by
  have h := σ.readPart_part s []
  rw [List.append_nil] at h
  rw [h]
  show (s ++ [], none) = _
  rw [List.append_nil]

theorem readPart_part_separator (s rest : List α) :
    σ.readPart (σ.part s ++ σ.separator :: rest) = (s, some rest) := by
  rw [readPart_part, readPart_separator]
  show (s ++ [], some rest) = _
  rw [List.append_nil]

theorem readPart_join_cons (p : List α) (ps : List (List α)) :
    σ.readPart (σ.join (p :: ps)) = (p, if ps = [] then none else some (σ.join ps)) := by
  cases ps with
  | nil       => exact σ.readPart_part_end p
  | cons q qs =>
      rw [join, readPart_part_separator, if_neg (List.cons_ne_nil q qs)]

/-! ## What the text determines -/

theorem join_injective : ∀ {ps qs : List (List α)}, ps ≠ [] → qs ≠ [] → σ.join ps = σ.join qs →
    ps = qs := by
  intro ps
  induction ps with
  | nil => intro _ h; exact absurd rfl h
  | cons p ps ih =>
      intro qs _ hqs h
      obtain ⟨q, qs, rfl⟩ := List.exists_cons_of_ne_nil hqs
      have hread := congrArg σ.readPart h
      rw [readPart_join_cons, readPart_join_cons, Prod.mk.injEq] at hread
      obtain ⟨rfl, hrest⟩ := hread
      by_cases hps : ps = []
      · by_cases hqs : qs = []
        · rw [hps, hqs]
        · rw [if_pos hps, if_neg hqs] at hrest
          cases hrest
      · by_cases hqs : qs = []
        · rw [if_neg hps, if_pos hqs] at hrest
          cases hrest
        · rw [if_neg hps, if_neg hqs] at hrest
          rw [ih hps hqs (Option.some.inj hrest)]

theorem join_append {ps rs : List (List α)} (hps : ps ≠ []) (hrs : rs ≠ []) :
    σ.join (ps ++ rs) = σ.join ps ++ σ.separator :: σ.join rs := by
  induction ps with
  | nil => exact absurd rfl hps
  | cons p ps ih =>
      cases ps with
      | nil =>
          obtain ⟨r, rs, rfl⟩ := List.exists_cons_of_ne_nil hrs
          rfl
      | cons q qs =>
          show σ.part p ++ σ.separator :: σ.join (q :: qs ++ rs) = _
          rw [ih (List.cons_ne_nil q qs)]
          show _ = (σ.part p ++ σ.separator :: σ.join (q :: qs)) ++ _
          rw [List.append_assoc]
          rfl

/-- **A text and a separator come before exactly the texts with more parts.** -/
theorem join_prefix_iff {ps qs : List (List α)} (hps : ps ≠ []) (hqs : qs ≠ []) :
    σ.join ps ++ [σ.separator] <+: σ.join qs ↔ ∃ rs, rs ≠ [] ∧ qs = ps ++ rs := by
  constructor
  · rintro ⟨rest, h⟩
    rw [List.append_assoc, List.singleton_append] at h
    induction ps generalizing qs with
    | nil => exact absurd rfl hps
    | cons p ps ih =>
        obtain ⟨q, qs, rfl⟩ := List.exists_cons_of_ne_nil hqs
        have hread := congrArg σ.readPart h
        rw [readPart_join_cons] at hread
        cases ps with
        | nil =>
            rw [join, readPart_part_separator, Prod.mk.injEq] at hread
            obtain ⟨rfl, hrest⟩ := hread
            refine ⟨qs, ?_, rfl⟩
            rintro rfl
            rw [if_pos rfl] at hrest
            cases hrest
        | cons p' ps =>
            rw [join, List.append_assoc, List.cons_append, readPart_part_separator, Prod.mk.injEq]
              at hread
            obtain ⟨rfl, hrest⟩ := hread
            by_cases hnil : qs = []
            · rw [if_pos hnil] at hrest
              cases hrest
            · rw [if_neg hnil] at hrest
              obtain ⟨rs, hrs, rfl⟩ := ih (List.cons_ne_nil p' ps) hnil (Option.some.inj hrest)
              exact ⟨rs, hrs, rfl⟩
  · rintro ⟨rs, hrs, rfl⟩
    refine ⟨σ.join rs, ?_⟩
    rw [σ.join_append hps hrs, List.append_assoc]
    rfl

end Alphabet

end EscapedJoin
