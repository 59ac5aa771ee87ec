import Mathlib.Data.List.Infix
import NestServer.Ai.Service

/-! # The context window

    `fitMessagesToContext` drops the oldest messages between the first and the last
    one, and cuts the last one where these two are too many.  What it cuts off is
    what is too much; the text that says so comes on top. -/

/-! ## Lengths -/

namespace JsText

/-- The units of a character. -/
def units (c : Char) : Nat := if 0xFFFF < c.toNat then 2 else 1

theorem foldl_units (cs : List Char) (n : Nat) :
    cs.foldl (fun n c => n + if 0xFFFF < c.toNat then 2 else 1) n = n + (cs.map units).sum := by
  induction cs generalizing n with
  | nil => rfl
  | cons c cs ih => rw [List.foldl_cons, ih, List.map_cons, List.sum_cons, Nat.add_assoc]; rfl

theorem length_ofList (cs : List Char) : length (String.ofList cs) = (cs.map units).sum := by
  rw [length, String.toList_ofList, foldl_units, Nat.zero_add]

theorem length_eq (s : String) : length s = (s.toList.map units).sum := by
  rw [← length_ofList, String.ofList_toList]

theorem length_append (s t : String) : length (s ++ t) = length s + length t := by
  rw [length_eq, length_eq, length_eq, String.toList_append, List.map_append, List.sum_append]

theorem units_pos (c : Char) : 1 ≤ units c ∧ units c ≤ 2 := by
  rw [units]
  by_cases h : 0xFFFF < c.toNat
  · rw [if_pos h]
    exact ⟨by decide, by decide⟩
  · rw [if_neg h]
    exact ⟨by decide, by decide⟩

/-- At most one unit is missing, where it is the half of a character. -/
theorem le_length_take_go (cs : List Char) {n : Nat} (h : n ≤ (cs.map units).sum) :
    n ≤ ((take.go n cs).map units).sum + 1 := by
  induction cs generalizing n with
  | nil => exact Nat.le_succ_of_le h
  | cons c cs ih =>
      rw [List.map_cons, List.sum_cons] at h
      rw [take.go]
      by_cases hfits : (if 0xFFFF < c.toNat then 2 else 1) ≤ n
      · rw [if_pos hfits, List.map_cons, List.sum_cons]
        have hrest := ih (n := n - units c) (by omega)
        have hunits : (if 0xFFFF < c.toNat then 2 else 1) = units c := rfl
        rw [hunits] at hfits ⊢
        omega
      · rw [if_neg hfits]
        have hunits := (units_pos c).2
        rw [units] at hunits
        show n ≤ 0 + 1
        omega

theorem le_length_take {s : String} {n : Nat} (h : n ≤ length s) : n ≤ length (take s n) + 1 := by
  rw [length_eq] at h
  rw [take, length_ofList]
  exact le_length_take_go s.toList h

end JsText

namespace CoreAi

/-! ## What fits -/

def truncationNotice : String := "\n…[truncated to fit the context window]"

/-- What the messages are after they have been fitted. -/
structure Fitted (budget : Nat) (messages fitted : List LlmMessage) : Prop where
  total  : totalTokens fitted ≤ budget
  first  : fitted.head? = messages.head?
  /-- the last message is there, or a prefix of it, which says so -/
  last   : ∀ last, messages.getLast? = some last → ∃ last', fitted.getLast? = some last' ∧
    last'.role = last.role ∧ (last'.content = last.content ∨
      ∃ kept, kept <+: last.content.toList ∧
        last'.content = String.ofList kept ++ truncationNotice)
  /-- the messages between them are the newest ones, in their order -/
  middle : fitted.tail.dropLast <:+ messages.tail.dropLast

variable {budget : Nat} {first : LlmMessage} {rest : List LlmMessage}

/-! ## Dropping -/

@[simp] theorem totalTokens_nil : totalTokens [] = 0 := rfl

@[simp] theorem totalTokens_cons (m : LlmMessage) (messages : List LlmMessage) :
    totalTokens (m :: messages) = estimateTokens m.content + 4 + totalTokens messages := rfl

theorem dropOldest_suffix (budget : Nat) (first : LlmMessage) (rest : List LlmMessage) :
    dropOldest budget first rest <:+ rest := by
  induction rest with
  | nil => exact List.suffix_rfl
  | cons m rest ih =>
      cases rest with
      | nil => exact List.suffix_rfl
      | cons m' rest =>
          rw [dropOldest]
          by_cases hover : budget < totalTokens (first :: m :: m' :: rest)
          · rw [if_pos hover]
            exact ih.trans (List.suffix_cons m _)
          · rw [if_neg hover]

theorem dropLast_suffix {α : Type} {l l' : List α} (h : l <:+ l') : l.dropLast <:+ l'.dropLast := by
  obtain ⟨before, rfl⟩ := h
  by_cases hnil : l = []
  · rw [hnil]
    exact List.nil_suffix
  · rw [List.dropLast_append_of_ne_nil hnil]
    exact List.suffix_append _ _

/-- The last message stays. -/
theorem getLast_dropOldest (budget : Nat) (first : LlmMessage) (rest : List LlmMessage) :
    (dropOldest budget first rest).getLast? = rest.getLast? := by
  induction rest with
  | nil => rfl
  | cons m rest ih =>
      cases rest with
      | nil => rfl
      | cons m' rest =>
          rw [dropOldest]
          by_cases hover : budget < totalTokens (first :: m :: m' :: rest)
          · rw [if_pos hover, ih, List.getLast?_cons_cons]
          · rw [if_neg hover]

/-- As long as the messages are too many, they are dropped, but for the last one. -/
theorem dropOldest_fits (budget : Nat) (first : LlmMessage) (rest : List LlmMessage) :
    totalTokens (first :: dropOldest budget first rest) ≤ budget
      ∨ dropOldest budget first rest = rest.getLast?.toList := by
  induction rest with
  | nil => exact Or.inr rfl
  | cons m rest ih =>
      cases rest with
      | nil => exact Or.inr rfl
      | cons m' rest =>
          rw [dropOldest]
          by_cases hover : budget < totalTokens (first :: m :: m' :: rest)
          · rw [if_pos hover, List.getLast?_cons_cons]
            exact ih
          · rw [if_neg hover]
            exact Or.inl (Nat.le_of_not_lt hover)

/-- The messages that are kept have the last one among them. -/
theorem totalTokens_last_le (messages : List LlmMessage) :
    totalTokens messages.getLast?.toList ≤ totalTokens messages := by
  induction messages with
  | nil => exact Nat.le_refl _
  | cons m rest ih =>
      cases rest with
      | nil => exact Nat.le_refl _
      | cons m' rest =>
          rw [List.getLast?_cons_cons]
          exact ih.trans (Nat.le_add_left _ _)

theorem fits_iff :
    totalTokens (first :: dropOldest budget first rest) ≤ budget
      ↔ totalTokens (first :: rest.getLast?.toList) ≤ budget := by
  rcases dropOldest_fits budget first rest with hfits | hlast
  · refine iff_of_true hfits ?_
    have hle := totalTokens_last_le (dropOldest budget first rest)
    rw [getLast_dropOldest] at hle
    exact (Nat.add_le_add_left hle _).trans hfits
  · rw [hlast]

/-! ## Cutting -/

/-- What is cut off makes room, and the notice takes more. -/
theorem estimateTokens_cut (text : String) (excess : Nat) :
    estimateTokens text < estimateTokens (JsText.take text (JsText.length text - excess * 4)
      ++ truncationNotice) + excess := by
  have htake := JsText.le_length_take (Nat.sub_le (JsText.length text) (excess * 4))
  have hnotice : JsText.length truncationNotice = 39 := by decide
  have hlength := JsText.length_append
    (JsText.take text (JsText.length text - excess * 4)) truncationNotice
  rw [hnotice] at hlength
  simp only [estimateTokens, hlength]
  omega

theorem truncateLast_pair {last : LlmMessage}
    (hcut : JsText.length last.content - (totalTokens [first, last] - budget) * 4
      < JsText.length last.content) :
    truncateLast budget [first, last] = [first, { last with
      content := JsText.take last.content
        (JsText.length last.content - (totalTokens [first, last] - budget) * 4)
          ++ truncationNotice }] := by
  have hlast : [first, last].getLast? = some last := rfl
  rw [truncateLast, hlast]
  exact if_pos hcut

/-- A cut never makes enough room. -/
theorem overflows_truncateLast {last : LlmMessage}
    (hfirst : estimateTokens first.content + 8 ≤ budget)
    (hover : budget < totalTokens [first, last]) :
    budget < totalTokens (truncateLast budget [first, last]) := by
  have htotal : totalTokens [first, last]
      = estimateTokens first.content + 4 + (estimateTokens last.content + 4) := rfl
  have hlength : estimateTokens last.content = (JsText.length last.content + 3) / 4 := rfl
  have hcut : JsText.length last.content - (totalTokens [first, last] - budget) * 4
      < JsText.length last.content := by omega
  have hnotice := estimateTokens_cut last.content (totalTokens [first, last] - budget)
  rw [truncateLast_pair hcut]
  show budget < estimateTokens first.content + 4 + (estimateTokens (JsText.take last.content
    (JsText.length last.content - (totalTokens [first, last] - budget) * 4)
      ++ truncationNotice) + 4 + 0)
  omega

/-- **The context window.** Where the first message leaves room for another one, the
    messages fit exactly if the first and the last one do by themselves. -/
theorem fitMessagesToContext_iff (s : CoreAiService) (connection : AiConnection)
    (first : LlmMessage) (rest : List LlmMessage)
    (hfirst : estimateTokens first.content + 8 ≤ budgetOf s connection) :
    Fitted (budgetOf s connection) (first :: rest)
        (fitMessagesToContext (budgetOf s connection) (first :: rest))
      ↔ totalTokens (first :: rest.getLast?.toList) ≤ budgetOf s connection := by
  generalize budgetOf s connection = budget at hfirst ⊢
  rw [← fits_iff, fitMessagesToContext]
  by_cases hfits : totalTokens (first :: dropOldest budget first rest) ≤ budget
  · rw [if_neg (Nat.not_lt.mpr hfits)]
    refine iff_of_true ⟨hfits, rfl, ?_, ?_⟩ hfits
    · intro last hlast
      refine ⟨last, ?_, rfl, Or.inl rfl⟩
      rw [List.getLast?_cons] at hlast ⊢
      rw [getLast_dropOldest]
      exact hlast
    · exact dropLast_suffix (dropOldest_suffix budget first rest)
  · rw [if_pos (Nat.lt_of_not_le hfits)]
    refine iff_of_false ?_ hfits
    intro hfitted
    -- only the last message is left beside the first one
    have hlast := (dropOldest_fits budget first rest).resolve_left hfits
    rw [hlast] at hfits hfitted
    cases hrest : rest.getLast? with
    | none =>
        rw [hrest] at hfits
        refine hfits ?_
        show estimateTokens first.content + 4 + 0 ≤ budget
        omega
    | some last =>
        rw [hrest] at hfits hfitted
        have htotal := overflows_truncateLast hfirst (Nat.lt_of_not_le hfits)
        exact absurd hfitted.total (Nat.not_le.mpr htotal)

def plainService : CoreAiService where
  parse  := fun _ => none
  regExp := fun _ _ => none

/-- A window of 1000 tokens, 100 of them for the answer. -/
def smallConnection : AiConnection where
  id               := "c1"
  contextWindow    := some 1000
  defaultMaxTokens := some 100

theorem fitMessagesToContext_short :
    Fitted (budgetOf plainService smallConnection) [⟨.system, "SYSTEM"⟩, ⟨.user, "Hi"⟩]
        (fitMessagesToContext (budgetOf plainService smallConnection)
          [⟨.system, "SYSTEM"⟩, ⟨.user, "Hi"⟩]) :=
  (fitMessagesToContext_iff plainService smallConnection ⟨.system, "SYSTEM"⟩ [⟨.user, "Hi"⟩]
    (by decide)).mpr (by decide)

/-- A prompt of 40000 characters is cut, and is still too long. -/
theorem fitMessagesToContext_overflows :
    ¬ ∀ s connection first rest, estimateTokens first.content + 8 ≤ budgetOf s connection →
      Fitted (budgetOf s connection) (first :: rest)
        (fitMessagesToContext (budgetOf s connection) (first :: rest)) := by
  intro h
  obtain ⟨text, htext⟩ : ∃ text, estimateTokens text = 10000 := by
    have hgeneral : ∀ n, estimateTokens (String.ofList (List.replicate n 'Z')) = (n + 3) / 4 := by
      intro n
      have hunits : JsText.units 'Z' = 1 := rfl
      rw [estimateTokens, JsText.length_ofList, List.map_replicate, List.sum_replicate_nat, hunits,
        Nat.mul_one]
    exact ⟨_, hgeneral 40000⟩
  have hbudget : budgetOf plainService smallConnection = 644 := by decide
  have hsystem : estimateTokens "SYSTEM" = 2 := by decide
  have hover : 644 < totalTokens [⟨.system, "SYSTEM"⟩, ⟨.user, text⟩] := by
    rw [totalTokens_cons, totalTokens_cons, hsystem, htext]
    decide
  have hfitted := (h plainService smallConnection ⟨.system, "SYSTEM"⟩ [⟨.user, text⟩]
    (by decide)).total
  have hdropped : dropOldest 644 ⟨.system, "SYSTEM"⟩ [⟨.user, text⟩] = [⟨.user, text⟩] := rfl
  rw [hbudget, fitMessagesToContext, hdropped, if_pos hover] at hfitted
  have hfirst : estimateTokens (LlmMessage.mk .system "SYSTEM").content + 8 ≤ 644 := by decide
  exact absurd hfitted (Nat.not_le.mpr (overflows_truncateLast hfirst hover))

end CoreAi
