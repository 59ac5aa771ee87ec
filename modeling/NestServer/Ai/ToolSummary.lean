import Mathlib.Data.List.DropRight
import Mathlib.Data.Rat.Floor
import Mathlib.Order.Basic

/-! # Shortened tool descriptions

    `summarizeToolDescription` of `core-ai-prompt-builder.service.ts` keeps whole
    sentences up to a cap, or cuts on a word boundary where the first one is longer.
    It slices the text at the end of a match, so that what it keeps is a prefix.

    * `mem_matchEnds` says where the matches end: at the ends of sentences;
    * `keptEnd_spec` is the loop: it stops at the last of them within the cap;
    * `summarize_bounded_iff` puts the two together. -/

/-! ## Numbers -/

/-- A JavaScript number. -/
inductive JsNumber where
  | nan
  | negInfinity
  | infinity
  | finite (q : Rat)
deriving DecidableEq

namespace JsNumber

def ofNat (n : Nat) : JsNumber := finite n

/-- `a <= b` -/
def le : JsNumber → JsNumber → Bool
  | nan, _ | _, nan            => false
  | negInfinity, _             => true
  | _, infinity                => true
  | finite p, finite q         => p ≤ q
  | _, _                       => false

/-- `a < b` -/
def lt : JsNumber → JsNumber → Bool
  | nan, _ | _, nan    => false
  | a, b               => !le b a

def truthy : JsNumber → Bool
  | nan      => false
  | finite q => q ≠ 0
  | _        => true

/-- `ToIntegerOrInfinity(q)`, the fraction cut off. -/
def truncate (q : Rat) : Int := if 0 ≤ q then q.floor else q.ceil

end JsNumber

namespace ToolSummary

open JsNumber

/-! ## The code -/

/-- A text by its UTF-16 units, as `slice` and `length` count them. -/
abbrev Text := List UInt16

/-- `\s`, which is also what `trim` takes away. -/
def isSpace (u : UInt16) : Bool :=
  let n := u.toNat
  (9 ≤ n && n ≤ 13) || n == 0x20 || n == 0xA0 || n == 0x1680
    || (0x2000 ≤ n && n ≤ 0x200A) || n == 0x2028 || n == 0x2029
    || n == 0x202F || n == 0x205F || n == 0x3000 || n == 0xFEFF

/-- `[.!?]` -/
def isTerminator (u : UInt16) : Bool := u = 0x2E || u = 0x21 || u = 0x3F

/-- `…` -/
def ELLIPSIS : UInt16 := 0x2026

def trimEnd (text : Text) : Text := text.rdropWhile isSpace

def trim (text : Text) : Text := trimEnd (text.dropWhile isSpace)

/-- `text.slice(0, end)` -/
def sliceTo (text : Text) : JsNumber → Text
  | nan | negInfinity => []
  | infinity          => text
  | finite q          =>
      let n := truncate q
      if n < 0 then text.take (text.length + n).toNat else text.take n.toNat

/-- `text.lastIndexOf(u)`, if it is found. -/
def lastIndexOf (u : UInt16) (text : Text) : Option Nat :=
  (text.reverse.idxOf? u).map fun i => text.length - 1 - i

/-- `(?=\s|$)` -/
def lookahead (rest : Text) : Bool := rest.head?.all isSpace

/-- The length of `[.!?]+(?=\s|$)` at the start of the text: the longest run is tried first. -/
def matchTerminators : Text → Option Nat
  | []        => none
  | u :: rest =>
      if isTerminator u then
        match matchTerminators rest with
        | some n => some (n + 1)
        | none   => if lookahead rest then some 1 else none
      else none

/-- `match.index + match[0].length`, for all matches in the text from offset `i` on; `skip` units
    still belong to the match before. -/
def matchEnds : Nat → Nat → Text → List Nat
  | _, _, []               => []
  | i, skip + 1, _ :: rest => matchEnds (i + 1) skip rest
  | i, 0, u :: rest        =>
      match matchTerminators (u :: rest) with
      | some n => (i + n) :: matchEnds (i + 1) (n - 1) rest
      | none   => matchEnds (i + 1) 0 rest

/-- The loop over the matches. -/
def keptEnd (text : Text) (maxChars : JsNumber) : Nat → List Nat → Nat
  | kept, []           => kept
  | kept, next :: rest =>
      if kept ≠ 0 && lt maxChars (ofNat (trimEnd (text.take next)).length) then kept
      else if le maxChars (ofNat (trimEnd (text.take next)).length) then next
      else keptEnd text maxChars next rest

/-- The hard cut. -/
def wordCut (cut : Text) : Text :=
  match lastIndexOf 0x20 cut with
  | some (n + 1) => trimEnd (cut.take (n + 1))
  | _            => trimEnd cut

def summarizeToolDescription (description : Text) (maxChars : JsNumber) : Text :=
  let text := trim description
  if !maxChars.truthy || le maxChars (ofNat 0) || le (ofNat text.length) maxChars then text
  else
    let sentences := trimEnd (text.take (keptEnd text maxChars 0 (matchEnds 0 0 text)))
    let summary :=
      if lt maxChars (ofNat sentences.length) || sentences.isEmpty then
        wordCut (sliceTo text maxChars)
      else sentences
    if summary.length < text.length then summary ++ [ELLIPSIS] else summary

/-! ## Ends of sentences -/

/-- A sentence ends at `e`: behind a terminator that is followed by white space or by nothing. -/
def SentenceEnd (text : Text) (e : Nat) : Prop :=
  ∃ before u after, text = before ++ u :: after ∧ before.length + 1 = e
    ∧ isTerminator u = true ∧ lookahead after = true

theorem sentenceEnd_cons {u : UInt16} {rest : Text} {e : Nat} :
    SentenceEnd (u :: rest) e ↔
      e = 1 ∧ isTerminator u = true ∧ lookahead rest = true
        ∨ ∃ e', e = e' + 1 ∧ SentenceEnd rest e' := by
  constructor
  · rintro ⟨before, v, after, htext, rfl, hv, hafter⟩
    cases before with
    | nil =>
        cases htext
        exact .inl ⟨rfl, hv, hafter⟩
    | cons w before =>
        cases htext
        exact .inr ⟨_, rfl, before, v, after, rfl, rfl, hv, hafter⟩
  · rintro (⟨rfl, hu, hrest⟩ | ⟨_, rfl, before, v, after, rfl, rfl, hv, hafter⟩)
    · exact ⟨[], u, rest, rfl, rfl, hu, hrest⟩
    · exact ⟨u :: before, v, after, rfl, rfl, hv, hafter⟩

theorem SentenceEnd.bounds {text : Text} {e : Nat} (h : SentenceEnd text e) :
    0 < e ∧ e ≤ text.length := by
  obtain ⟨before, u, after, rfl, rfl, -, -⟩ := h
  rw [List.length_append, List.length_cons]
  omega

theorem not_isSpace_of_isTerminator {u : UInt16} (h : isTerminator u = true) :
    isSpace u = false := by
  simp only [isTerminator, Bool.or_eq_true, decide_eq_true_eq] at h
  rcases h with (rfl | rfl) | rfl
  · decide
  · decide
  · decide

/-- What ends in a terminator has nothing to trim. -/
theorem SentenceEnd.trimEnd_take {text : Text} {e : Nat} (h : SentenceEnd text e) :
    trimEnd (text.take e) = text.take e := by
  obtain ⟨before, u, after, rfl, rfl, hu, -⟩ := h
  have htake : (before ++ u :: after).take (before.length + 1) = before ++ [u] := by
    rw [List.take_length_add_append]
    rfl
  rw [htake, trimEnd, List.rdropWhile_concat_neg]
  rw [not_isSpace_of_isTerminator hu]
  exact Bool.false_ne_true

/-! ## The matches -/

/-- A match is the first end of a sentence in a run of terminators. -/
theorem matchTerminators_some {text : Text} {n : Nat} (h : matchTerminators text = some n) :
    SentenceEnd text n ∧ ∀ e, SentenceEnd text e → n ≤ e := by
  induction text generalizing n with
  | nil => cases h
  | cons u rest ih =>
      rw [matchTerminators] at h
      by_cases hu : isTerminator u = true
      · rw [if_pos hu] at h
        cases hrest : matchTerminators rest with
        | some m =>
            rw [hrest] at h
            cases h
            obtain ⟨hm, hleast⟩ := ih hrest
            refine ⟨sentenceEnd_cons.mpr (.inr ⟨m, rfl, hm⟩), fun e he => ?_⟩
            rcases sentenceEnd_cons.mp he with ⟨-, -, hlook⟩ | ⟨e', rfl, he'⟩
            · -- the unit behind is a terminator, too
              obtain ⟨v, tail, rfl⟩ := List.exists_cons_of_ne_nil
                (List.ne_nil_of_length_pos (Nat.lt_of_lt_of_le hm.bounds.1 hm.bounds.2))
              have hv : isTerminator v = true := by
                by_contra hv
                rw [matchTerminators, if_neg hv] at hrest
                cases hrest
              rw [lookahead, List.head?_cons, Option.all_some, not_isSpace_of_isTerminator hv]
                at hlook
              cases hlook
            · exact Nat.succ_le_succ (hleast e' he')
        | none =>
            rw [hrest] at h
            by_cases hlook : lookahead rest = true
            · rw [if_pos hlook] at h
              cases h
              exact ⟨sentenceEnd_cons.mpr (.inl ⟨rfl, hu, hlook⟩), fun e he => he.bounds.1⟩
            · rw [if_neg hlook] at h
              cases h
      · rw [if_neg hu] at h
        cases h

theorem matchTerminators_none {u : UInt16} {rest : Text} (h : matchTerminators (u :: rest) = none) :
    ¬ (isTerminator u = true ∧ lookahead rest = true) := by
  rintro ⟨hu, hlook⟩
  rw [matchTerminators, if_pos hu] at h
  cases hrest : matchTerminators rest with
  | some n => rw [hrest] at h; cases h
  | none   => rw [hrest, if_pos hlook] at h; cases h

/-- The ends behind the first ones of a text, counted from one unit further on. -/
theorem exists_end_cons {u : UInt16} {rest : Text} {i skip e : Nat} :
    (∃ e', e = i + 1 + e' ∧ skip < e' ∧ SentenceEnd rest e') ↔
      ∃ e', e = i + e' ∧ skip + 1 < e' ∧ SentenceEnd (u :: rest) e' := by
  constructor
  · rintro ⟨e', rfl, hskip, he'⟩
    exact ⟨e' + 1, by omega, by omega, sentenceEnd_cons.mpr (.inr ⟨e', rfl, he'⟩)⟩
  · rintro ⟨e', rfl, hskip, he'⟩
    rcases sentenceEnd_cons.mp he' with ⟨rfl, -⟩ | ⟨e'', rfl, he''⟩
    · omega
    · exact ⟨e'', by omega, by omega, he''⟩

/-- **The matches end where sentences end**, in the order of the text. -/
theorem matchEnds_spec (text : Text) (i skip : Nat) :
    (∀ e, e ∈ matchEnds i skip text ↔ ∃ e', e = i + e' ∧ skip < e' ∧ SentenceEnd text e')
      ∧ (matchEnds i skip text).Pairwise (· < ·) := by
  induction text generalizing i skip with
  | nil =>
      refine ⟨fun e => ⟨fun h => ?_, ?_⟩, ?_⟩
      · simp [matchEnds] at h
      · rintro ⟨e', -, -, he'⟩
        have hbounds := he'.bounds
        rw [List.length_nil] at hbounds
        omega
      · simp [matchEnds]
  | cons u rest ih =>
      cases skip with
      | succ skip =>
          obtain ⟨hmem, hsorted⟩ := ih (i + 1) skip
          exact ⟨fun e => (hmem e).trans exists_end_cons, hsorted⟩
      | zero =>
          cases hmatch : matchTerminators (u :: rest) with
          | some n =>
              obtain ⟨hn, hleast⟩ := matchTerminators_some hmatch
              obtain ⟨hmem, hsorted⟩ := ih (i + 1) (n - 1)
              have hpos := hn.bounds.1
              have hbehind : ∀ e, e ∈ matchEnds (i + 1) (n - 1) rest ↔
                  ∃ e', e = i + e' ∧ n < e' ∧ SentenceEnd (u :: rest) e' := by
                intro e
                rw [hmem e, @exists_end_cons u, Nat.sub_add_cancel hpos]
              have hends : matchEnds i 0 (u :: rest) = (i + n) ::
                  matchEnds (i + 1) (n - 1) rest := by
                rw [matchEnds, hmatch]
              rw [hends]
              refine ⟨fun e => ?_, List.pairwise_cons.mpr ⟨fun e he => ?_, hsorted⟩⟩
              · rw [List.mem_cons, hbehind e]
                constructor
                · rintro (rfl | ⟨e', rfl, hskip, he'⟩)
                  · exact ⟨n, rfl, hpos, hn⟩
                  · exact ⟨e', rfl, Nat.lt_trans hpos hskip, he'⟩
                · rintro ⟨e', rfl, -, he'⟩
                  rcases Nat.lt_or_eq_of_le (hleast e' he') with hlt | rfl
                  · exact .inr ⟨e', rfl, hlt, he'⟩
                  · exact .inl rfl
              · obtain ⟨e', rfl, hskip, -⟩ := (hbehind e).mp he
                omega
          | none =>
              obtain ⟨hmem, hsorted⟩ := ih (i + 1) 0
              have hends : matchEnds i 0 (u :: rest) = matchEnds (i + 1) 0 rest := by
                rw [matchEnds, hmatch]
              rw [hends]
              refine ⟨fun e => ?_, hsorted⟩
              rw [hmem e, @exists_end_cons u]
              -- no sentence ends with the first unit
              refine exists_congr fun e' => and_congr_right fun _ => and_congr_left fun he' => ?_
              constructor
              · exact Nat.lt_trans Nat.one_pos
              · intro hpos
                rcases sentenceEnd_cons.mp he' with ⟨-, hu, hlook⟩ | ⟨e'', rfl, he''⟩
                · exact absurd ⟨hu, hlook⟩ (matchTerminators_none hmatch)
                · exact Nat.succ_lt_succ he''.bounds.1

theorem mem_matchEnds {text : Text} {e : Nat} : e ∈ matchEnds 0 0 text ↔ SentenceEnd text e := by
  rw [(matchEnds_spec text 0 0).1 e]
  constructor
  · rintro ⟨e', rfl, -, he'⟩
    rwa [Nat.zero_add]
  · exact fun h => ⟨e, (Nat.zero_add e).symm, h.bounds.1, h⟩

/-! ## The loop -/

theorem lt_ofNat (n : Nat) (q : Rat) : lt (finite q) (ofNat n) = !decide ((n : Rat) ≤ q) := rfl

/-- **The loop stops at the last end within the cap**, and where there is none at the first end,
    if there is one. -/
theorem keptEnd_spec {text : Text} {q : Rat} {ends : List Nat} {kept : Nat}
    (hends : ∀ e ∈ ends, SentenceEnd text e) (hsorted : ends.Pairwise (· < ·))
    (hkept : ∀ e ∈ ends, kept < e) :
    (keptEnd text (finite q) kept ends = kept ∧ ∀ e ∈ ends, q < e)
      ∨ (keptEnd text (finite q) kept ends ∈ ends ∧ keptEnd text (finite q) kept ends ≤ q
          ∧ ∀ e ∈ ends, e ≤ q → e ≤ keptEnd text (finite q) kept ends)
      ∨ (kept = 0 ∧ keptEnd text (finite q) kept ends ∈ ends
          ∧ q < keptEnd text (finite q) kept ends ∧ ∀ e ∈ ends, q < e) := by
  induction ends generalizing kept with
  | nil => exact .inl ⟨rfl, fun e he => by cases he⟩
  | cons next rest ih =>
      obtain ⟨hnext, hrest⟩ := List.pairwise_cons.mp hsorted
      have hend := hends next List.mem_cons_self
      have hlength : (trimEnd (text.take next)).length = next := by
        rw [hend.trimEnd_take, List.length_take, Nat.min_eq_left hend.bounds.2]
      have hbehind : q < next → ∀ e ∈ next :: rest, q < e := by
        intro hq e he
        rcases List.mem_cons.mp he with rfl | he
        · exact hq
        · exact lt_trans hq (Nat.cast_lt.mpr (hnext e he))
      rw [keptEnd, hlength, lt_ofNat]
      by_cases hstop : kept ≠ 0 ∧ q < next
      · have hcond : (decide (kept ≠ 0) && !decide ((next : Rat) ≤ q)) = true := by
          simpa using hstop
        rw [if_pos hcond]
        exact .inl ⟨rfl, hbehind hstop.2⟩
      · have hcond : ¬ (decide (kept ≠ 0) && !decide ((next : Rat) ≤ q)) = true := by
          simpa using hstop
        rw [if_neg hcond]
        by_cases hreached : q ≤ next
        · have hle : le (finite q) (ofNat next) = true := decide_eq_true hreached
          rw [if_pos hle]
          rcases lt_or_eq_of_le hreached with hq | hq
          · refine .inr (.inr ⟨?_, List.mem_cons_self, hq, hbehind hq⟩)
            by_contra hne
            exact hstop ⟨hne, hq⟩
          · refine .inr (.inl ⟨List.mem_cons_self, hq.ge, fun e _ hfits => ?_⟩)
            exact Nat.cast_le.mp (hq ▸ hfits)
        · have hle : ¬ le (finite q) (ofNat next) = true := by
            simpa [le, ofNat] using hreached
          rw [if_neg hle]
          have hfits : (next : Rat) ≤ q := le_of_lt (not_le.mp hreached)
          rcases ih (fun e he => hends e (List.mem_cons_of_mem _ he)) hrest hnext with
            ⟨heq, hall⟩ | ⟨hmem, hcap, hlast⟩ | ⟨hzero, -⟩
          · rw [heq]
            refine .inr (.inl ⟨List.mem_cons_self, hfits, fun e he hle => ?_⟩)
            rcases List.mem_cons.mp he with rfl | he
            · exact le_refl _
            · exact absurd hle (not_le.mpr (hall e he))
          · refine .inr (.inl ⟨List.mem_cons_of_mem _ hmem, hcap, fun e he hle => ?_⟩)
            rcases List.mem_cons.mp he with rfl | he
            · exact le_of_lt (hnext _ hmem)
            · exact hlast e he hle
          · exact absurd hzero (Nat.pos_iff_ne_zero.mp hend.bounds.1)

/-! ## Trimming and cutting -/

theorem trimEnd_ne_nil {u : UInt16} {rest : Text} (hu : isSpace u = false) :
    trimEnd (u :: rest) ≠ [] := by
  intro h
  have hspace := List.rdropWhile_eq_nil_iff.mp h u List.mem_cons_self
  rw [hu] at hspace
  cases hspace

/-- A trimmed text that is not empty does not start with white space. -/
theorem trim_head {description : Text} {u : UInt16} {rest : Text}
    (h : trim description = u :: rest) : isSpace u = false := by
  have hstarts : trim description <+: description.dropWhile isSpace := List.rdropWhile_prefix ..
  obtain ⟨tail, htail⟩ := hstarts
  rw [h] at htail
  have hhead := List.head?_dropWhile_not isSpace description
  rw [← htail] at hhead
  simpa using hhead

theorem wordCut_spec {u : UInt16} (rest : Text) (hu : isSpace u = false) :
    wordCut (u :: rest) ≠ [] ∧ wordCut (u :: rest) <+: u :: rest := by
  rw [wordCut]
  split
  · refine ⟨?_, (List.rdropWhile_prefix ..).trans (List.take_prefix _ _)⟩
    rw [List.take_succ_cons]
    exact trimEnd_ne_nil hu
  · exact ⟨trimEnd_ne_nil hu, List.rdropWhile_prefix ..⟩

theorem one_le_truncate {q : Rat} (hq : 1 ≤ q) : 1 ≤ truncate q ∧ (truncate q : Rat) ≤ q := by
  rw [truncate, if_pos (le_trans zero_le_one hq)]
  refine ⟨Rat.le_floor_iff.mpr ?_, Rat.floor_le q⟩
  simpa using hq

/-- A cut at a cap of at least one leaves something, and not more than the cap. -/
theorem sliceTo_spec (u : UInt16) (rest : Text) {q : Rat} (hq : 1 ≤ q) :
    ∃ n, sliceTo (u :: rest) (finite q) = u :: rest.take n ∧ ((u :: rest.take n).length : Rat) ≤ q
      := by
  obtain ⟨hone, hle⟩ := one_le_truncate hq
  obtain ⟨n, hn⟩ : ∃ n : Nat, truncate q = (n + 1 : Nat) :=
    ⟨(truncate q - 1).toNat, by omega⟩
  refine ⟨n, ?_, ?_⟩
  · show (if truncate q < 0 then _ else (u :: rest).take (truncate q).toNat) = _
    rw [if_neg (by omega), hn, Int.toNat_natCast, List.take_succ_cons]
  · refine le_trans ?_ hle
    rw [hn, Int.cast_natCast, Nat.cast_le, List.length_cons, List.length_take]
    omega

/-! ## What is kept -/

/-- The last end of a sentence within the cap. -/
def LastEnd (text : Text) (maxChars : JsNumber) (e : Nat) : Prop :=
  SentenceEnd text e ∧ le (ofNat e) maxChars = true
    ∧ ∀ e', SentenceEnd text e' → le (ofNat e') maxChars = true → e' ≤ e

/-- A prefix within the cap and an ellipsis; the prefix ends with the last sentence that fits. -/
def Shortened (text : Text) (maxChars : JsNumber) (summary : Text) : Prop :=
  ∃ kept, summary = kept ++ [ELLIPSIS] ∧ kept ≠ [] ∧ kept <+: text
    ∧ le (ofNat kept.length) maxChars = true
    ∧ ((∃ e, SentenceEnd text e ∧ le (ofNat e) maxChars = true) →
        ∃ e, LastEnd text maxChars e ∧ kept = text.take e)

/-- A summary is the text itself where that fits, and else the start of it. -/
def Bounded (description : Text) (maxChars : JsNumber) : Prop :=
  if le (ofNat (trim description).length) maxChars then
    summarizeToolDescription description maxChars = trim description
  else Shortened (trim description) maxChars (summarizeToolDescription description maxChars)

/-- What may be kept of a text, before the ellipsis. -/
structure Kept (text : Text) (q : Rat) (kept : Text) : Prop where
  ne : kept ≠ []
  starts : kept <+: text
  fits : (kept.length : Rat) ≤ q
  last : (∃ e, SentenceEnd text e ∧ le (ofNat e) (finite q) = true) →
    ∃ e, LastEnd text (finite q) e ∧ kept = text.take e

/-- Where no sentence fits, the cut between words is kept. -/
theorem wordCut_kept {u : UInt16} {rest : Text} {q : Rat} (hu : isSpace u = false) (hq : 1 ≤ q)
    (hnone : ∀ e, SentenceEnd (u :: rest) e → q < e) :
    Kept (u :: rest) q (wordCut (sliceTo (u :: rest) (finite q))) := by
  obtain ⟨n, hslice, hlength⟩ := sliceTo_spec u rest hq
  obtain ⟨hne, hstarts⟩ := wordCut_spec (rest.take n) hu
  rw [hslice]
  refine ⟨hne, hstarts.trans ?_, ?_, ?_⟩
  · rw [← List.take_succ_cons]
    exact List.take_prefix _ _
  · exact le_trans (Nat.cast_le.mpr hstarts.length_le) hlength
  · rintro ⟨e, he, hfits⟩
    exact absurd (of_decide_eq_true hfits) (not_le.mpr (hnone e he))

/-- What is kept of a text that is longer than the cap. -/
theorem kept_spec {u : UInt16} {rest : Text} {q : Rat} (hu : isSpace u = false) (hq : 1 ≤ q)
    {sentences : Text} (hsentences : sentences = trimEnd
      ((u :: rest).take (keptEnd (u :: rest) (finite q) 0 (matchEnds 0 0 (u :: rest))))) :
    Kept (u :: rest) q
      (if lt (finite q) (ofNat sentences.length) || sentences.isEmpty then
        wordCut (sliceTo (u :: rest) (finite q)) else sentences) := by
  have hends : ∀ e ∈ matchEnds 0 0 (u :: rest), SentenceEnd (u :: rest) e :=
    fun e => mem_matchEnds.mp
  rcases keptEnd_spec hends (matchEnds_spec (u :: rest) 0 0).2
      (fun e he => (hends e he).bounds.1) (q := q) with
    ⟨hzero, hnone⟩ | ⟨hmem, hcap, hlast⟩ | ⟨-, hmem, hover, hnone⟩
  · rw [if_pos]
    · exact wordCut_kept hu hq fun e he => hnone e (mem_matchEnds.mpr he)
    · rw [hsentences, hzero]
      exact Bool.or_true _
  · have hend := hends _ hmem
    rw [hend.trimEnd_take] at hsentences
    have hlength : sentences.length =
        keptEnd (u :: rest) (finite q) 0 (matchEnds 0 0 (u :: rest)) := by
      rw [hsentences, List.length_take, Nat.min_eq_left hend.bounds.2]
    have hne : sentences ≠ [] := List.ne_nil_of_length_pos (hlength ▸ hend.bounds.1)
    have hcond : ¬ (lt (finite q) (ofNat sentences.length) || sentences.isEmpty) = true := by
      rw [hlength, lt_ofNat, decide_eq_true hcap]
      simpa using hne
    rw [if_neg hcond]
    refine ⟨hne, hsentences ▸ List.take_prefix _ _, hlength ▸ hcap, fun _ => ?_⟩
    refine ⟨_, ⟨hend, decide_eq_true hcap, fun e he hfits => ?_⟩, hsentences⟩
    exact hlast e (mem_matchEnds.mpr he) (of_decide_eq_true hfits)
  · rw [if_pos]
    · exact wordCut_kept hu hq fun e he => hnone e (mem_matchEnds.mpr he)
    · have hend := hends _ hmem
      have hlength : sentences.length =
          keptEnd (u :: rest) (finite q) 0 (matchEnds 0 0 (u :: rest)) := by
        rw [hsentences, hend.trimEnd_take, List.length_take, Nat.min_eq_left hend.bounds.2]
      rw [hlength, lt_ofNat, decide_eq_false (not_le.mpr hover)]
      rfl

/-- With a cap of at least one, the start of the text is kept. -/
theorem summarize_kept (description : Text) (maxChars : JsNumber)
    (h : le (ofNat 1) maxChars = true) : Bounded description maxChars := by
  rw [Bounded, summarizeToolDescription]
  cases maxChars with
  | nan         => cases h
  | negInfinity => cases h
  | infinity    => rfl
  | finite q =>
      have hq : 1 ≤ q := by simpa [le, ofNat] using h
      by_cases hfits : le (ofNat (trim description).length) (finite q) = true
      · rw [if_pos hfits, hfits, Bool.or_true, if_pos rfl]
      · rw [if_neg hfits]
        have hover : q < (trim description).length := by
          simpa [le, ofNat] using hfits
        have hguard : ¬ (!truthy (finite q) || le (finite q) (ofNat 0)
            || le (ofNat (trim description).length) (finite q)) = true := by
          have hpos : 0 < q := lt_of_lt_of_le zero_lt_one hq
          simp [truthy, le, ofNat, hpos.ne', hpos, hover]
        rw [if_neg hguard]
        obtain ⟨u, rest, htext⟩ : ∃ u rest, trim description = u :: rest := by
          refine List.exists_cons_of_ne_nil fun hnil => ?_
          rw [hnil] at hover
          exact absurd (lt_trans (lt_of_lt_of_le zero_lt_one hq) hover) (lt_irrefl _)
        rw [htext] at hover ⊢
        have hkept := @kept_spec u rest q (trim_head htext) hq _ rfl
        have hshort := Nat.cast_lt.mp (lt_of_le_of_lt hkept.fits hover)
        simp only [if_pos hshort]
        exact ⟨_, rfl, hkept.ne, hkept.starts, decide_eq_true hkept.fits, hkept.last⟩

/-- What is within a cap leaves room for less. -/
theorem le_ofNat_of_le {m n : Nat} {maxChars : JsNumber} (hmn : m ≤ n)
    (h : le (ofNat n) maxChars = true) : le (ofNat m) maxChars = true := by
  cases maxChars with
  | nan         => cases h
  | negInfinity => cases h
  | infinity    => rfl
  | finite q    => exact decide_eq_true (le_trans (Nat.cast_le.mpr hmn) (of_decide_eq_true h))

theorem le_of_lt_ofNat {n : Nat} {maxChars : JsNumber} (h : lt (ofNat n) maxChars = true) :
    le (ofNat n) maxChars = true := by
  cases maxChars with
  | nan         => cases h
  | negInfinity => cases h
  | infinity    => rfl
  | finite q    =>
      have hq : (n : Rat) < q := by simpa [lt, le, ofNat] using h
      exact decide_eq_true (le_of_lt hq)

/-- **A shortened description is a bounded prefix** for every cap of at least one; below that no
    prefix keeps to the cap that is not empty. -/
theorem summarize_bounded_iff {description : Text} {maxChars : JsNumber}
    (hpos : lt (ofNat 0) maxChars = true) :
    Bounded description maxChars ↔ le (ofNat 1) maxChars = true ∨ trim description = [] := by
  constructor
  · intro h
    by_cases hfits : le (ofNat (trim description).length) maxChars = true
    · cases htext : trim description with
      | nil         => exact .inr rfl
      | cons u rest =>
          rw [htext] at hfits
          exact .inl (le_ofNat_of_le (Nat.le_add_left 1 rest.length) hfits)
    · rw [Bounded, if_neg hfits] at h
      obtain ⟨kept, -, hne, -, hlength, -⟩ := h
      exact .inl (le_ofNat_of_le (List.length_pos_iff.mpr hne) hlength)
  · rintro (hone | hnil)
    · exact summarize_kept description maxChars hone
    · have hfits : le (ofNat (trim description).length) maxChars = true := by
        rw [hnil]
        exact le_of_lt_ofNat hpos
      rw [Bounded, if_pos hfits, summarizeToolDescription]
      rw [hfits, Bool.or_true, if_pos rfl]

/-- Three sentences and a cap in the middle of the third. -/
theorem summarize_bounded_two :
    Bounded ("One. Two. Three.".toList.map fun c => c.toNat.toUInt16) (finite 12)
      ↔ le (ofNat 1) (finite 12) = true
        ∨ trim ("One. Two. Three.".toList.map fun c => c.toNat.toUInt16) = [] :=
  summarize_bounded_iff (by decide)

example : summarizeToolDescription ("One. Two. Three.".toList.map fun c => c.toNat.toUInt16)
    (finite 12) = ("One. Two.…".toList.map fun c => c.toNat.toUInt16) := by decide

/-- A cap between zero and one leaves nothing but the ellipsis. -/
theorem summarize_half :
    lt (ofNat 0) (finite (1 / 2)) = true
      ∧ summarizeToolDescription [0x41] (finite (1 / 2)) = [ELLIPSIS]
      ∧ ¬ Bounded [0x41] (finite (1 / 2)) := by
  have hsummary : summarizeToolDescription [0x41] (finite (1 / 2)) = [ELLIPSIS] := by decide +kernel
  refine ⟨by decide +kernel, hsummary, ?_⟩
  rw [Bounded, hsummary, if_neg (by decide +kernel)]
  rintro ⟨kept, heq, hne, -⟩
  cases kept with
  | nil         => exact hne rfl
  | cons u kept => simp at heq

end ToolSummary
