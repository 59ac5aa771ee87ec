import NestServer.Ai.JsonWeight
import NestServer.Ai.Messages

/-! # The object in what a model writes

    Whether `extractJsonObject` finds the object that a model has written, in prose or in a
    code fence.  The scan for the closing brace does: it knows strings and escapes.  The
    search for a code fence before it does not, and three backticks in a string pass for
    one.

    `extractJsonObject_iff` says for which objects it succeeds. -/

open Json JsText

namespace CoreAi

/-! ## The scan for the closing brace -/

/-- Not in a string, so deep in braces. -/
def outside (d : Nat) : BraceScan := ⟨d, false, false⟩

def inside (d : Nat) : BraceScan := ⟨d, true, false⟩

/-- Scanning the characters leads from one state to the other. -/
def Passes (s : BraceScan) (xs : List Char) (s' : BraceScan) : Prop :=
  ∀ ys, firstBalancedJson s (xs ++ ys) = (firstBalancedJson s' ys).map (xs ++ ·)

section

variable {s s₁ s₂ : BraceScan} {xs ys : List Char} {d : Nat} {c : Char}

theorem passes_nil (s : BraceScan) : Passes s [] s := by
  intro ys
  cases h : firstBalancedJson s ys with
  | none     => rw [List.nil_append, h]; rfl
  | some tail => rw [List.nil_append, h]; rfl

theorem Passes.append (h₁ : Passes s xs s₁) (h₂ : Passes s₁ ys s₂) : Passes s (xs ++ ys) s₂ := by
  intro zs
  rw [List.append_assoc, h₁, h₂, Option.map_map]
  refine congrArg (Option.map · _) (funext fun tail => ?_)
  exact (List.append_assoc ..).symm

theorem Passes.cons (h₁ : Passes s [c] s₁) (h₂ : Passes s₁ ys s₂) : Passes s (c :: ys) s₂ :=
  h₁.append h₂

/-- A character that leaves a string as it is. -/
theorem passes_inside (hquote : c ≠
    '"') (hslash : c ≠ '\\') : Passes (inside d) [c] (inside d) := by
  intro ys
  rw [List.singleton_append, firstBalancedJson]
  simp only [inside, if_true, Bool.false_eq_true, if_false, if_neg hquote, if_neg hslash]
  rfl

/-- A backslash and what it escapes. -/
theorem passes_backslash (c : Char) : Passes (inside d) ['\\', c] (inside d) := by
  have hslash : Passes (inside d) ['\\'] ⟨d, true, true⟩ := fun _ => rfl
  have hescaped : Passes ⟨d, true, true⟩ [c] (inside d) := fun _ => rfl
  exact hslash.cons hescaped

theorem passes_quote_open : Passes (outside d) ['"'] (inside d) := fun _ => rfl

theorem passes_quote_close : Passes (inside d) ['"'] (outside d) := fun _ => rfl

/-- Neither a quote nor a brace. -/
def isPlain (c : Char) : Bool := c ≠ '"' && c ≠ '\x7b' && c ≠ '\x7d'

/-- Characters that are neither quotes nor braces. -/
theorem passes_plain (hxs : xs.all isPlain = true) : Passes (outside d) xs (outside d) := by
  induction xs with
  | nil => exact passes_nil _
  | cons c xs ih =>
      rw [List.all_cons, Bool.and_eq_true] at hxs
      obtain ⟨hc, hxs⟩ := hxs
      rw [isPlain, Bool.and_eq_true, Bool.and_eq_true, decide_eq_true_eq, decide_eq_true_eq,
        decide_eq_true_eq] at hc
      obtain ⟨⟨hquote, hopen⟩, hclose⟩ := hc
      refine Passes.cons ?_ (ih hxs)
      intro ys
      rw [List.singleton_append, firstBalancedJson]
      simp only [outside, Bool.false_eq_true, if_false, if_neg hquote, if_neg hopen, if_neg hclose]
      rfl

theorem passes_open : Passes (outside d) ['\x7b'] (outside (d + 1)) := fun _ => rfl

theorem passes_close : Passes (outside (d + 2)) ['\x7d'] (outside (d + 1)) := fun _ => rfl

/-! ### Strings -/

theorem passes_escape (c : Char) : Passes (inside d) (escape c).toList (inside d) := by
  rcases escape_cases c with ⟨hself, hquote, hslash⟩ | ⟨e, es, hescaped, hes⟩
  · rw [hself]
    exact passes_inside hquote hslash
  · rw [hescaped]
    refine (passes_backslash e).append ?_
    clear hescaped
    induction es with
    | nil => exact passes_nil _
    | cons x es ih =>
        have hx := hes x List.mem_cons_self
        refine Passes.cons (passes_inside ?_ ?_) (ih fun y hy => hes y (List.mem_cons_of_mem _ hy))
        · rintro rfl
          cases hx
        · rintro rfl
          cases hx

theorem passes_escaped (cs : List Char) : Passes (inside d) (escaped cs) (inside d) := by
  induction cs with
  | nil => exact passes_nil _
  | cons c cs ih =>
      rw [escaped_cons]
      exact (passes_escape c).append ih

theorem passes_quote (t : String) : Passes (outside d) (quote t).toList (outside d) := by
  rw [quote_toList]
  exact passes_quote_open.cons ((passes_escaped t.toList).append passes_quote_close)

end

/-! ### Values -/

section

variable {number : String → String}

mutual

/-- **The scan passes a value**, within braces. -/
theorem passes_stringify (d : Nat) (v : Json) (hv : Valid number v) :
    Passes (outside (d + 1)) (stringify v).toList (outside (d + 1)) := by
  match v with
  | .null       => exact passes_plain rfl
  | .bool true  => exact passes_plain rfl
  | .bool false => exact passes_plain rfl
  | .str s      => exact passes_quote s
  | .num t      =>
      refine passes_plain (List.all_eq_true.mpr fun c hc => ?_)
      have hnumeric := numeric_of_isNumber hv c hc
      rw [isPlain, Bool.and_eq_true, Bool.and_eq_true, decide_eq_true_eq, decide_eq_true_eq,
        decide_eq_true_eq]
      refine ⟨⟨?_, ?_⟩, ?_⟩ <;> (rintro rfl; cases hnumeric)
  | .arr vs     =>
      rw [stringify_arr]
      exact Passes.cons (passes_plain rfl)
        ((passes_stringifyList d vs hv).append (passes_plain rfl))
  | .obj fields =>
      rw [stringify_obj]
      exact passes_open.cons ((passes_stringifyFields (d + 1) fields hv.2).append passes_close)

theorem passes_stringifyList (d : Nat) (vs : List Json) (hvs : ValidItems number vs) :
    Passes (outside (d + 1)) (stringifyList vs).toList (outside (d + 1)) := by
  match vs with
  | []           => exact passes_nil _
  | [v]          => exact passes_stringify d v hvs.1
  | v :: w :: vs =>
      rw [stringifyList_cons]
      exact (passes_stringify d v hvs.1).append
        (Passes.cons (passes_plain rfl) (passes_stringifyList d (w :: vs) hvs.2))

theorem passes_stringifyFields (d : Nat) (fields : List (String × Json))
    (hfields : ValidFields number fields) :
    Passes (outside (d + 1)) (stringifyFields fields).toList (outside (d + 1)) := by
  match fields with
  | []                    => exact passes_nil _
  | [(k, v)]              =>
      rw [stringifyFields, String.toList_append, String.toList_append]
      exact ((passes_quote k).append (passes_plain rfl)).append
        (passes_stringify d v hfields.1)
  | (k, v) :: f :: fields =>
      rw [stringifyFields_step, String.toList_append, String.toList_append, String.toList_append,
        String.toList_append]
      exact ((((passes_quote k).append (passes_plain rfl)).append
        (passes_stringify d v hfields.1)).append (passes_plain rfl)).append
          (passes_stringifyFields d (f :: fields) hfields.2)

end

/-- From the opening brace of an object, the scan ends at its closing brace. -/
theorem firstBalancedJson_stringify {fields : List (String × Json)}
    (hfields : ValidFields number fields) (rest : List Char) :
    firstBalancedJson {} ((stringify (.obj fields)).toList ++ rest)
      = some (stringify (.obj fields)).toList := by
  have hscan : Passes {} ('\x7b' :: (stringifyFields fields).toList) (outside 1) :=
    (passes_open (d := 0)).cons (passes_stringifyFields 0 fields hfields)
  -- at depth one the next brace ends the scan
  rw [stringify_obj, ← List.cons_append, List.append_assoc, hscan]
  rfl

end

/-! ## Code fences -/

def fence : List Char := ['`', '`', '`']

def HasFence (xs : List Char) : Prop := fence <:+: xs

/-- Three backticks, and three others behind them. -/
def TwoFences (xs : List Char) : Prop := ∃ a b c, xs = a ++ (fence ++ (b ++ (fence ++ c)))

section

variable {xs ys zs : List Char} {c d : Char}

theorem isFence_iff : isFence xs = true ↔ fence <+: xs := List.isPrefixOf_iff_prefix

theorem hasFence_mono (h : HasFence xs) (hsub : xs <:+: ys) : HasFence ys := h.trans hsub

theorem hasFence_between (a c : List Char) : HasFence (a ++ (fence ++ c)) := by
  refine ⟨a, c, ?_⟩
  rw [List.append_assoc]

/-- A fence that begins before another character ends before it. -/
theorem hasFence_of_starts (xs : List Char) (hc : c ≠ '`') (h : fence <+: xs ++ c :: ys) :
    HasFence xs := by
  match xs with
  | []               => exact absurd (List.cons_prefix_cons.mp h).1.symm hc
  | [_]              =>
      exact absurd (List.cons_prefix_cons.mp (List.cons_prefix_cons.mp h).2).1.symm hc
  | [_, _]           =>
      exact absurd (List.cons_prefix_cons.mp (List.cons_prefix_cons.mp
        (List.cons_prefix_cons.mp h).2).2).1.symm hc
  | e :: f :: g :: _ =>
      obtain ⟨he, h⟩ := List.cons_prefix_cons.mp h
      obtain ⟨hf, h⟩ := List.cons_prefix_cons.mp h
      obtain ⟨hg, -⟩ := List.cons_prefix_cons.mp h
      rw [← he, ← hf, ← hg]
      exact ⟨[], _, rfl⟩

theorem hasFence_append_cons (hc : c ≠ '`') (h : HasFence (xs ++ c :: ys)) :
    HasFence xs ∨ HasFence ys := by
  induction xs with
  | nil =>
      rcases List.infix_cons_iff.mp h with h | h
      · exact absurd (List.cons_prefix_cons.mp h).1.symm hc
      · exact Or.inr h
  | cons e xs ih =>
      rcases List.infix_cons_iff.mp h with h | h
      · exact Or.inl (hasFence_of_starts (e :: xs) hc h)
      · exact (ih h).imp_left fun h => List.infix_cons h

/-- A fence that begins before another fence is that one, or it is a fence before it. -/
theorem backticks_of_starts (h : fence <+: xs ++ (fence ++ ys)) (hxs : ¬ HasFence xs) :
    (∀ e ∈ xs, e = '`') ∧ xs.length ≤ 2 := by
  match xs with
  | []               => exact ⟨by rintro e ⟨⟩, Nat.zero_le _⟩
  | [e]              =>
      obtain ⟨he, -⟩ := List.cons_prefix_cons.mp h
      rw [← he]
      exact ⟨by simp, by simp⟩
  | [e, f]           =>
      obtain ⟨he, h⟩ := List.cons_prefix_cons.mp h
      obtain ⟨hf, -⟩ := List.cons_prefix_cons.mp h
      rw [← he, ← hf]
      exact ⟨by simp, by simp⟩
  | e :: f :: g :: _ =>
      obtain ⟨he, h⟩ := List.cons_prefix_cons.mp h
      obtain ⟨hf, h⟩ := List.cons_prefix_cons.mp h
      obtain ⟨hg, -⟩ := List.cons_prefix_cons.mp h
      rw [← he, ← hf, ← hg] at hxs
      exact absurd ⟨[], _, rfl⟩ hxs

/-! ### Behind the first fence -/

theorem afterFence_eq_none (h : ¬ HasFence xs) : afterFence xs = none := by
  induction xs with
  | nil => rfl
  | cons c xs ih =>
      have hnot : ¬ isFence (c :: xs) = true := fun hfence => h (isFence_iff.mp hfence).isInfix
      rw [afterFence, if_neg hnot]
      exact ih fun h' => h (List.infix_cons h')

theorem afterFence_eq_some (h : afterFence xs = some ys) : ∃ a, xs = a ++ (fence ++ ys) := by
  induction xs with
  | nil => cases h
  | cons c xs ih =>
      rw [afterFence] at h
      split at h
      · next hfence =>
        obtain ⟨tail, htail⟩ := isFence_iff.mp hfence
        rw [← htail] at h
        cases h
        exact ⟨[], htail.symm⟩
      · obtain ⟨a, rfl⟩ := ih h
        exact ⟨c :: a, rfl⟩

/-- What has no fence before another character is skipped. -/
theorem afterFence_skip (hc : c ≠ '`') (hxs : ¬ HasFence xs) :
    afterFence (xs ++ c :: ys) = afterFence (c :: ys) := by
  induction xs with
  | nil => rfl
  | cons e xs ih =>
      have hnot : ¬ isFence (e :: (xs ++ c :: ys)) = true := fun hfence =>
        hxs (hasFence_of_starts (e :: xs) hc (isFence_iff.mp hfence))
      rw [List.cons_append, afterFence, if_neg hnot]
      exact ih fun h => hxs (List.infix_cons h)

theorem afterFence_append (h : afterFence xs = some ys) :
    afterFence (xs ++ zs) = some (ys ++ zs) := by
  induction xs with
  | nil => cases h
  | cons c xs ih =>
      rw [afterFence] at h
      rw [List.cons_append, afterFence]
      split at h
      · next hfence =>
        obtain ⟨tail, htail⟩ := isFence_iff.mp hfence
        have hfence' : isFence (c :: (xs ++ zs)) = true :=
          isFence_iff.mpr ⟨tail ++ zs, by rw [← List.append_assoc, htail]; rfl⟩
        rw [if_pos hfence', ← List.cons_append, ← htail]
        rw [← htail] at h
        cases h
        rfl
      · next hnot =>
        -- there is a fence further on, so none begins here for want of room
        have hlength : 3 ≤ xs.length := by
          obtain ⟨a, rfl⟩ := afterFence_eq_some h
          rw [List.length_append, List.length_append]
          exact Nat.le_add_left_of_le (Nat.le_add_right 3 _)
        have hnot' : ¬ isFence (c :: (xs ++ zs)) = true := by
          intro hfence
          refine hnot (isFence_iff.mpr ?_)
          refine List.prefix_of_prefix_length_le (isFence_iff.mp hfence)
            (List.prefix_append (c :: xs) zs) ?_
          exact Nat.le_succ_of_le hlength
        rw [if_neg hnot']
        exact ih h

/-- The first fence is not behind another one. -/
theorem afterFence_fence (xs ys : List Char) :
    ∃ ds, afterFence (xs ++ (fence ++ ys)) = some (ds ++ ys) ∧ weigh ds ≤ weigh xs
      ∧ (¬ HasFence xs → (∀ e ∈ ds, e = '`') ∧ ds.length ≤ 2) := by
  induction xs with
  | nil => exact ⟨[], rfl, Nat.le_refl _, fun _ => ⟨by rintro e ⟨⟩, Nat.zero_le _⟩⟩
  | cons c xs ih =>
      by_cases hfence : isFence (c :: (xs ++ (fence ++ ys))) = true
      · have hstarts : fence <+: (c :: xs) ++ (fence ++ ys) := isFence_iff.mp hfence
        have hshort : fence <+: (c :: xs) ++ fence := by
          refine List.prefix_of_prefix_length_le hstarts ⟨ys, List.append_assoc ..⟩ ?_
          rw [List.length_append]
          exact Nat.le_add_left _ _
        -- it takes as many backticks from the fence as it leaves behind
        obtain ⟨ds, hds⟩ := hshort
        have hall : c :: (xs ++ (fence ++ ys)) = fence ++ (ds ++ ys) := by
          rw [← List.append_assoc fence, hds, List.append_assoc]
          rfl
        refine ⟨ds, ?_, ?_, fun hnone => ?_⟩
        · rw [List.cons_append, afterFence, if_pos hfence, hall]
          rfl
        · have hweigh := congrArg weigh hds
          rw [weigh_append, weigh_append] at hweigh
          omega
        · obtain ⟨hticks, hlength⟩ := backticks_of_starts hstarts hnone
          refine ⟨fun e he => ?_, ?_⟩
          · have hmem : e ∈ (c :: xs) ++ fence := hds ▸ List.mem_append_right _ he
            rcases List.mem_append.mp hmem with hmem | hmem
            · exact hticks e hmem
            · simpa [fence] using hmem
          · have hlengths := congrArg List.length hds
            rw [List.length_append, List.length_append] at hlengths
            omega
      · obtain ⟨ds, hds, hweigh, hticks⟩ := ih
        refine ⟨ds, ?_, ?_, fun hnone => hticks fun h => hnone (List.infix_cons h)⟩
        · rw [List.cons_append, afterFence, if_neg hfence]
          exact hds
        · rw [weigh_cons]
          exact Nat.le_add_right_of_le hweigh

/-! ### Before the first fence -/

theorem beforeFence_eq_some (h : beforeFence xs = some ys) : ∃ c, xs = ys ++ (fence ++ c) := by
  induction xs generalizing ys with
  | nil => cases h
  | cons c xs ih =>
      rw [beforeFence] at h
      split at h
      · next hfence =>
        cases h
        obtain ⟨tail, htail⟩ := isFence_iff.mp hfence
        exact ⟨tail, htail.symm⟩
      · obtain ⟨ys', hys, rfl⟩ := Option.map_eq_some_iff.mp h
        obtain ⟨tail, rfl⟩ := ih hys
        exact ⟨tail, rfl⟩

theorem beforeFence_fence (xs ys : List Char) :
    ∃ ds, beforeFence (xs ++ (fence ++ ys)) = some ds ∧ ds <+: xs := by
  induction xs with
  | nil => exact ⟨[], rfl, List.nil_prefix⟩
  | cons c xs ih =>
      rw [List.cons_append, beforeFence]
      split
      · exact ⟨[], rfl, List.nil_prefix⟩
      · obtain ⟨ds, hds, hstarts⟩ := ih
        rw [hds]
        exact ⟨c :: ds, rfl, List.cons_prefix_cons.mpr ⟨rfl, hstarts⟩⟩

/-- What has no fence and does not end with a backtick is all before the fence. -/
theorem beforeFence_self (hd : d ≠ '`') (hxs : ¬ HasFence (xs ++ [d])) (ys : List Char) :
    beforeFence (xs ++ d :: (fence ++ ys)) = some (xs ++ [d]) := by
  induction xs with
  | nil =>
      have hnot : ¬ isFence (d :: (fence ++ ys)) = true := fun hfence =>
        hd (List.cons_prefix_cons.mp (isFence_iff.mp hfence)).1.symm
      rw [List.nil_append, beforeFence, if_neg hnot]
      rfl
  | cons c xs ih =>
      have hnot : ¬ isFence (c :: (xs ++ d :: (fence ++ ys))) = true := fun hfence =>
        hxs (hasFence_mono (hasFence_of_starts (c :: xs) hd (isFence_iff.mp hfence))
          (List.prefix_append _ _).isInfix)
      rw [List.cons_append, beforeFence, if_neg hnot, ih fun h => hxs (List.infix_cons h)]
      rfl

end

/-! ### The content of a fence -/

theorem dropWhile_append_cons {f : Char → Bool} {c : Char} (hc : f c = false) (xs ys : List Char) :
    (xs ++ c :: ys).dropWhile f = xs.dropWhile f ++ c :: ys := by
  induction xs with
  | nil => rw [List.nil_append, List.dropWhile_cons,
      if_neg (by rw [hc]; exact Bool.false_ne_true)]; rfl
  | cons e xs ih =>
      rw [List.cons_append, List.dropWhile_cons, List.dropWhile_cons, ih]
      split <;> rfl

/-- What is read of a fence: not its language, and no space. -/
def opened (xs : List Char) : List Char := (skipLanguage xs).dropWhile isSpace

section

variable {xs ys zs : List Char}

theorem skipLanguage_cases (xs : List Char) :
    skipLanguage xs = xs
      ∨ ∃ word, word.map Char.toLower = ['j', 's', 'o', 'n'] ∧ xs = word ++ skipLanguage xs := by
  rw [skipLanguage.eq_def]
  split
  · split
    · next hword => exact .inr ⟨_, hword, rfl⟩
    · exact .inl rfl
  · exact .inl rfl

theorem opened_suffix (xs : List Char) : opened xs <:+ xs := by
  refine (List.dropWhile_suffix _).trans ?_
  rcases skipLanguage_cases xs with hsame | ⟨word, -, hword⟩
  · exact ⟨[], hsame⟩
  · exact ⟨word, hword.symm⟩

/-- The language and the space are before the next fence. -/
theorem opened_fence (xs ys : List Char) :
    ∃ xs', xs' <:+ xs ∧ opened (xs ++ (fence ++ ys)) = xs' ++ (fence ++ ys) := by
  have hspace : ∀ xs : List Char, (xs ++ (fence ++ ys)).dropWhile isSpace
      = xs.dropWhile isSpace ++ (fence ++ ys) := fun xs => dropWhile_append_cons rfl xs _
  rw [opened]
  rcases skipLanguage_cases (xs ++ (fence ++ ys)) with hsame | ⟨word, hword, hall⟩
  · rw [hsame, hspace]
    exact ⟨_, List.dropWhile_suffix _, rfl⟩
  · have htick : '`' ∉ word := by
      intro hmem
      have hlower : Char.toLower '`' ∈ word.map Char.toLower := List.mem_map_of_mem hmem
      rw [hword] at hlower
      revert hlower
      decide
    rcases List.append_eq_append_iff.mp hall with ⟨rest, hrest, htail⟩ | ⟨rest, hrest, htail⟩
    · -- the language would reach into the fence
      cases rest with
      | nil =>
          refine ⟨[], List.nil_suffix, ?_⟩
          rw [List.nil_append] at htail
          rw [← htail]
          exact hspace []
      | cons e rest =>
          obtain ⟨rfl, -⟩ := List.cons.inj htail
          exact absurd (hrest ▸ List.mem_append_right _ List.mem_cons_self) htick
    · rw [htail, hspace]
      exact ⟨_, (List.dropWhile_suffix _).trans ⟨word, hrest.symm⟩, rfl⟩

theorem fenced_eq (xs : List Char) :
    fenced xs = (afterFence xs).bind fun rest => beforeFence (opened rest) := rfl

/-- With two fences, what is between them is taken. -/
theorem fenced_of_twoFences (a b c : List Char) :
    ∃ ds, fenced (a ++ (fence ++ (b ++ (fence ++ c)))) = some ds ∧
      weigh ds ≤ weigh a + weigh b := by
  obtain ⟨es, hafter, hes, -⟩ := afterFence_fence a (b ++ (fence ++ c))
  obtain ⟨xs, hxs, hopened⟩ := opened_fence (es ++ b) c
  obtain ⟨ds, hbefore, hds⟩ := beforeFence_fence xs c
  refine ⟨ds, ?_, ?_⟩
  · rw [fenced_eq, hafter, Option.bind_some, ← List.append_assoc, hopened, hbefore]
  · have hfirst := weigh_le_of_sublist hds.sublist
    have hsecond := weigh_le_of_sublist hxs.sublist
    rw [weigh_append] at hsecond
    omega

end

/-! ## Around the object -/

/-- `JsText.trim` of characters. -/
def trimmed (xs : List Char) : List Char := (trim (String.ofList xs)).toList

/-- From the first opening brace on. -/
def fromBrace (xs : List Char) : List Char := xs.dropWhile fun c => c ≠ '\x7b'

/-- Where the object is looked for. -/
def searched (xs : List Char) : List Char :=
  match fenced xs with
  | some content => trimmed content
  | none         => xs

section

variable {xs ys zs : List Char}

theorem trimmed_eq (xs : List Char) :
    trimmed xs = ((xs.dropWhile isSpace).reverse.dropWhile isSpace).reverse := by
  rw [trimmed, trim, String.toList_ofList, String.toList_ofList]

theorem trim_toList (text : String) : (trim text).toList = trimmed text.toList := by
  rw [trimmed, String.ofList_toList]

theorem trimmed_within (xs : List Char) : trimmed xs <:+: xs := by
  rw [trimmed_eq]
  have hend : ((xs.dropWhile isSpace).reverse.dropWhile isSpace).reverse <+: xs.dropWhile
      isSpace := by
    rw [← List.reverse_suffix, List.reverse_reverse]
    exact List.dropWhile_suffix _
  exact hend.isInfix.trans (List.dropWhile_suffix _).isInfix

/-- What begins and ends with no space stays when the text around it is trimmed. -/
theorem trimmed_between {c d : Char} (hc : isSpace c = false) (hd : isSpace d = false)
    (xs ys zs : List Char) :
    ∃ xs' zs', xs' <:+ xs ∧ zs' <+: zs
      ∧ trimmed (xs ++ (c :: (ys ++ [d]) ++ zs)) = xs' ++ (c :: (ys ++ [d]) ++ zs') := by
  refine ⟨xs.dropWhile isSpace, (zs.reverse.dropWhile isSpace).reverse, List.dropWhile_suffix _, ?_,
    ?_⟩
  · rw [← List.reverse_suffix, List.reverse_reverse]
    exact List.dropWhile_suffix _
  · have hreverse : (xs.dropWhile isSpace ++ (c :: (ys ++ [d]) ++ zs)).reverse
        = zs.reverse ++ d :: (xs.dropWhile isSpace ++ c :: ys).reverse := by
      simp
    rw [trimmed_eq, List.cons_append, dropWhile_append_cons hc, ← List.cons_append, hreverse,
      dropWhile_append_cons hd, List.reverse_append, List.reverse_cons, List.reverse_reverse]
    simp

theorem fromBrace_skip (hxs : '\x7b' ∉ xs) (ys : List Char) :
    fromBrace (xs ++ ys) = fromBrace ys := by
  rw [fromBrace, List.dropWhile_append_of_pos]
  · rfl
  · intro c hc
    exact decide_eq_true fun h => hxs (h ▸ hc)

theorem fromBrace_brace (xs : List Char) : fromBrace ('\x7b' :: xs) = '\x7b' :: xs := rfl

theorem fromBrace_append_cons (xs ys : List Char) :
    fromBrace (xs ++ '\x7b' :: ys) = fromBrace xs ++ '\x7b' :: ys :=
  dropWhile_append_cons rfl xs ys

theorem fromBrace_eq_nil (hxs : '\x7b' ∉ xs) : fromBrace xs = [] := by
  have hskip := fromBrace_skip hxs []
  rwa [List.append_nil] at hskip

theorem weigh_fromBrace_within (h : xs <:+: ys) : weigh (fromBrace xs) ≤ weigh (fromBrace ys) := by
  obtain ⟨a, c, rfl⟩ := h
  by_cases hxs : '\x7b' ∈ xs
  · obtain ⟨u, w, rfl, hu⟩ := List.eq_append_cons_of_mem hxs
    have hall : a ++ (u ++ '\x7b' :: w) ++ c = (a ++ u) ++ '\x7b' :: (w ++ c) := by simp
    rw [hall, fromBrace_append_cons, fromBrace_append_cons, fromBrace_eq_nil hu, List.nil_append]
    refine weigh_le_of_sublist ?_
    exact ((List.prefix_append w c).sublist.cons_cons _).trans (List.sublist_append_right _ _)
  · rw [fromBrace_eq_nil hxs]
    exact Nat.zero_le _

/-! ### What is extracted -/

theorem extractJsonObject_eq (parse : String → Option Json) (text : String) :
    extractJsonObject parse text
      = if (fromBrace (searched (trim text).toList)).isEmpty then none
        else ((firstBalancedJson {} (fromBrace (searched (trim text).toList))).bind
            fun s => parse (String.ofList s)).or
          ((toLastBrace (fromBrace (searched (trim text).toList))).bind
            fun s => parse (String.ofList s)) := by
  unfold extractJsonObject searched
  dsimp only
  cases fenced (trim text).toList with
  | none         => dsimp only; rw [fromBrace]
  | some content => dsimp only; rw [fromBrace, trimmed]

theorem firstBalancedJson_starts (s : BraceScan) (h : firstBalancedJson s xs = some ys) :
    ys <+: xs := by
  induction xs generalizing s ys with
  | nil => cases h
  | cons c xs ih =>
      rw [firstBalancedJson] at h
      obtain ⟨tail, htail, rfl⟩ := Option.map_eq_some_iff.mp h
      refine List.cons_prefix_cons.mpr ⟨rfl, ?_⟩
      split_ifs at htail
      all_goals first
        | exact ih _ htail
        | (cases htail; exact List.nil_prefix)

theorem toLastBrace_starts (h : toLastBrace xs = some ys) : ys <+: xs := by
  rw [toLastBrace] at h
  split at h
  · cases h
    rw [← List.reverse_suffix, List.reverse_reverse]
    exact List.dropWhile_suffix _
  · cases h

variable {number : String → String}

/-- Nothing heavier is extracted than what is looked at. -/
theorem weight_le_of_extract {text : String} {v : Json}
    (h : extractJsonObject (parse number) text = some v) :
    weight v ≤ weigh (fromBrace (searched (trim text).toList)) := by
  rw [extractJsonObject_eq] at h
  split at h
  · cases h
  · have hparsed : ∀ {ys : List Char}, ys <+: fromBrace (searched (trim text).toList) →
        parse number (String.ofList ys) = some v →
        weight v ≤ weigh (fromBrace (searched (trim text).toList)) := by
      intro ys hstarts hparse
      refine Nat.le_trans (weight_le_of_parse hparse) ?_
      rw [String.toList_ofList]
      exact weigh_le_of_sublist hstarts.sublist
    rcases Option.or_eq_some_iff.mp h with h | ⟨-, h⟩
    · obtain ⟨ys, hys, hparse⟩ := Option.bind_eq_some_iff.mp h
      exact hparsed (firstBalancedJson_starts _ hys) hparse
    · obtain ⟨ys, hys, hparse⟩ := Option.bind_eq_some_iff.mp h
      exact hparsed (toLastBrace_starts hys) hparse

/-- An object that is looked at from its opening brace on is extracted. -/
theorem extract_of_fromBrace {text : String} {fields : List (String × Json)} (rest : List Char)
    (hv : Valid number (.obj fields))
    (h : fromBrace (searched (trim text).toList) = (stringify (.obj fields)).toList ++ rest) :
    extractJsonObject (parse number) text = some (.obj fields) := by
  have hsome : ¬ ((stringify (.obj fields)).toList ++ rest).isEmpty = true := by
    rw [stringify_obj]
    exact Bool.false_ne_true
  rw [extractJsonObject_eq, h, if_neg hsome, firstBalancedJson_stringify hv.2, Option.bind_some,
    String.ofList_toList, parse_stringify hv]
  rfl

end

/-! ### In prose -/

section

variable {xs ys zs : List Char} {c d : Char}

/-- What is not between two fences is not cut. -/
theorem fenced_eq_none (hd : d ≠ '`') (hxs : ¬ TwoFences (xs ++ [d])) (hys : ¬ HasFence ys) :
    fenced (xs ++ d :: ys) = none := by
  rw [fenced_eq]
  by_cases hfence : HasFence (xs ++ [d])
  · obtain ⟨a, b, hall⟩ := hfence
    obtain ⟨es, hes, -⟩ := afterFence_fence a b
    rw [← List.append_assoc, hall] at hes
    obtain ⟨a', ha'⟩ := afterFence_eq_some hes
    have hafter : afterFence (xs ++ d :: ys) = some (es ++ b ++ ys) := by
      rw [← List.singleton_append, ← List.append_assoc]
      exact afterFence_append hes
    rw [hafter, Option.bind_some]
    generalize es ++ b = r at ha'
    -- what is behind the fence ends with the last character
    obtain ⟨u, rfl⟩ : ∃ u, r = u ++ [d] := by
      rcases List.eq_nil_or_concat r with rfl | ⟨u, e, rfl⟩
      · have hlast := congrArg List.getLast? ha'
        rw [List.append_nil, List.getLast?_concat] at hlast
        exact absurd (by simpa [fence] using hlast) hd
      · have hlast := congrArg List.getLast? ha'
        rw [List.concat_eq_append, ← List.append_assoc, ← List.append_assoc, List.getLast?_concat,
          List.getLast?_concat] at hlast
        rw [List.concat_eq_append, Option.some.inj hlast]
        exact ⟨u, rfl⟩
    have hnone : ¬ HasFence (u ++ d :: ys) := by
      intro h
      rcases hasFence_append_cons hd h with ⟨x, y, rfl⟩ | h
      · refine hxs ⟨a', x, y ++ [d], ?_⟩
        rw [ha']
        simp
      · exact hys h
    rw [List.append_assoc, List.singleton_append]
    cases hbefore : beforeFence (opened (u ++ d :: ys)) with
    | none   => rfl
    | some z =>
        obtain ⟨w, hw⟩ := beforeFence_eq_some hbefore
        exact absurd (hasFence_mono (hw ▸ hasFence_between z w) (opened_suffix _).isInfix) hnone
  · have hnone : ¬ HasFence (xs ++ d :: ys) := fun h =>
      (hasFence_append_cons hd h).elim
        (fun h => hfence (hasFence_mono h (List.prefix_append _ _).isInfix)) hys
    rw [afterFence_eq_none hnone]
    rfl

end

section

variable {number : String → String} {fields : List (String × Json)}

/-- The text of an object. -/
theorem stringify_braces (fields : List (String × Json)) :
    ∃ F, (stringify (.obj fields)).toList = '\x7b' :: (F ++ ['\x7d']) :=
  ⟨_, stringify_obj fields⟩

/-- Nothing as heavy as the object is extracted from less. -/
theorem extract_ne_of_lighter (hv : Valid number (.obj fields)) {text : String}
    (h : weigh (fromBrace (searched (trim text).toList)) < weigh (stringify (.obj fields)).toList) :
    extractJsonObject (parse number) text ≠ some (.obj fields) := by
  intro hextract
  have hweight := weight_le_of_extract hextract
  rw [weigh_stringify _ hv] at h
  omega

theorem weigh_fence : weigh fence = 3 := rfl

theorem weigh_fromBrace_le (xs : List Char) : weigh (fromBrace xs) ≤ weigh xs :=
  weigh_le_of_sublist (List.dropWhile_sublist _)

/-- **In prose.**  What has three backticks in its strings twice is cut. -/
theorem extract_in_prose (hv : Valid number (.obj fields)) {before after : String}
    (hbrace : '\x7b' ∉ before.toList) (hbefore : ¬ HasFence before.toList)
    (hafter : ¬ HasFence after.toList) :
    extractJsonObject (parse number) (before ++ stringify (.obj fields) ++ after)
        = some (.obj fields)
      ↔ ¬ TwoFences (stringify (.obj fields)).toList := by
  obtain ⟨F, hF⟩ := stringify_braces fields
  obtain ⟨p, s, hp, hs, htrim⟩ :=
    trimmed_between (c := '\x7b') (d := '\x7d') rfl rfl before.toList F
    after.toList
  have htext : (trim (before ++ stringify (.obj fields) ++ after)).toList
      = p ++ ((stringify (.obj fields)).toList ++ s) := by
    rw [trim_toList, String.toList_append, String.toList_append, List.append_assoc, hF, htrim]
  have hskip : fenced (p ++ ((stringify (.obj fields)).toList ++ s))
      = fenced ((stringify (.obj fields)).toList ++ s) := by
    rw [fenced_eq, fenced_eq, hF, List.cons_append,
      afterFence_skip (by decide) fun h => hbefore (hasFence_mono h hp.isInfix)]
  by_cases htwo : TwoFences (stringify (.obj fields)).toList
  · refine iff_of_false ?_ (not_not_intro htwo)
    refine extract_ne_of_lighter hv ?_
    -- what is searched lies before the second fence
    obtain ⟨a, b, c, hall⟩ := htwo
    obtain ⟨ds, hds, hweigh⟩ := fenced_of_twoFences a b (c ++ s)
    have hsearched : searched (trim (before ++ stringify (.obj fields) ++ after)).toList
        = trimmed ds := by
      have hsame : a ++ (fence ++ (b ++ (fence ++ (c ++ s))))
          = (stringify (.obj fields)).toList ++ s := by
        rw [hall]
        simp
      rw [htext, searched, hskip, ← hsame, hds]
    have hlight := weigh_le_of_sublist (trimmed_within ds).sublist
    have hfrom := weigh_fromBrace_le (trimmed ds)
    rw [hsearched, hall, weigh_append, weigh_append, weigh_append, weigh_append, weigh_fence]
    omega
  · refine iff_of_true (extract_of_fromBrace s hv ?_) htwo
    have hnone : fenced ((stringify (.obj fields)).toList ++ s) = none := by
      rw [hF] at htwo ⊢
      rw [← List.cons_append, List.append_assoc]
      exact fenced_eq_none (by decide) htwo fun h => hafter (hasFence_mono h hs.isInfix)
    rw [htext, searched, hskip, hnone]
    dsimp only
    rw [fromBrace_skip fun h => hbrace (hp.subset h), hF, List.cons_append, fromBrace_brace]

/-! ### In a fence -/

theorem not_hasFence_of_not_mem {xs : List Char} (h : '`' ∉ xs) : ¬ HasFence xs :=
  fun hfence => h (hfence.subset List.mem_cons_self)

/-- What is in front of the object in a fence: nothing, or backticks, the language and space. -/
theorem opened_language {ds left : List Char} (hds : (∀ e ∈ ds, e = '`') ∧ ds.length ≤ 2)
    (hleft : ∀ c ∈ left, isSpace c = true) (w : List Char) :
    ∃ q, '\x7b' ∉ q ∧ ¬ HasFence q
      ∧ opened (ds ++ (['j', 's', 'o', 'n'] ++ (left ++ '\x7b' :: w))) = q ++ '\x7b' :: w := by
  obtain ⟨hticks, hlength⟩ := hds
  cases ds with
  | nil =>
      refine ⟨[], List.not_mem_nil, not_hasFence_of_not_mem List.not_mem_nil, ?_⟩
      show (left ++ '\x7b' :: w).dropWhile isSpace = _
      rw [List.dropWhile_append_of_pos hleft]
      rfl
  | cons e ds =>
      have hspace : ∀ c ∈ ['j', 's', 'o', 'n'] ++ left, c ≠ '\x7b' ∧ c ≠ '`' := by
        intro c hc
        rcases List.mem_append.mp hc with hc | hc
        · simp only [List.mem_cons, List.not_mem_nil, or_false] at hc
          rcases hc with rfl | rfl | rfl | rfl <;> exact ⟨by decide, by decide⟩
        · have hc := hleft c hc
          constructor
          · rintro rfl
            cases hc
          · rintro rfl
            cases hc
      have hq : opened (e :: ds ++ (['j', 's', 'o', 'n'] ++ (left ++ '\x7b' :: w)))
          = e :: ds ++ (['j', 's', 'o', 'n'] ++ (left ++ '\x7b' :: w)) := by
        obtain rfl := hticks e List.mem_cons_self
        match ds with
        | []            => rfl
        | [_]           => rfl
        | _ :: _ :: _   => exact absurd hlength (by simp)
      refine ⟨e :: ds ++ (['j', 's', 'o', 'n'] ++ left), fun hmem => ?_, fun hfence => ?_, ?_⟩
      · rcases List.mem_append.mp hmem with hmem | hmem
        · exact absurd (hticks _ hmem) (by decide)
        · exact (hspace _ hmem).1 rfl
      · rcases hasFence_append_cons (by decide) hfence with hfence | hfence
        · exact absurd (Nat.le_trans hfence.length_le hlength) (by decide)
        · refine not_hasFence_of_not_mem (fun hmem => ?_) hfence
          exact (hspace _ (List.mem_cons_of_mem _ hmem)).2 rfl
      · rw [hq]
        simp

/-- The object in a fence, trimmed. -/
theorem fenced_content (F right s : List Char) {left p : List Char} (hp : ¬ HasFence p)
    (hleft : ∀ c ∈ left, isSpace c = true) :
    ∃ q, '\x7b' ∉ q ∧ ¬ HasFence q
      ∧ fenced (p ++ (fence ++ (['j', 's', 'o', 'n'] ++ (left ++
          ('\x7b' :: (F ++ ['\x7d']) ++ (right ++ (fence ++ s)))))))
        = beforeFence (q ++ ('\x7b' :: (F ++ ['\x7d']) ++ (right ++ (fence ++ s)))) := by
  obtain ⟨ds, hafter, -, hds⟩ := afterFence_fence p (['j', 's', 'o', 'n'] ++ (left ++
    ('\x7b' :: (F ++ ['\x7d']) ++ (right ++ (fence ++ s)))))
  obtain ⟨q, hbrace, hfence, hq⟩ := opened_language (hds hp) hleft
    (F ++ ['\x7d'] ++ (right ++ (fence ++ s)))
  refine ⟨q, hbrace, hfence, ?_⟩
  rw [fenced_eq, hafter, Option.bind_some]
  exact congrArg beforeFence hq

/-- An object without a fence is all that is in its fence. -/
theorem beforeFence_object {q F right : List Char} (hq : ¬ HasFence q)
    (hF : ¬ HasFence ('\x7b' :: (F ++ ['\x7d']))) (hright : '`' ∉ right) (s : List Char) :
    beforeFence (q ++ ('\x7b' :: (F ++ ['\x7d']) ++ (right ++ (fence ++ s))))
      = some (q ++ ('\x7b' :: (F ++ ['\x7d']) ++ right)) := by
  have hnone : ¬ HasFence (q ++ '\x7b' :: (F ++ '\x7d' :: right)) := by
    intro h
    rcases hasFence_append_cons (by decide) h with h | h
    · exact hq h
    · rcases hasFence_append_cons (by decide) h with h | h
      · exact hF (hasFence_mono h ⟨['\x7b'], ['\x7d'], by simp⟩)
      · exact not_hasFence_of_not_mem hright h
  -- the last character is not a backtick
  obtain ⟨xs, d, hlast, hd⟩ : ∃ xs d, q ++ '\x7b' :: (F ++ '\x7d' :: right) = xs ++ [d] ∧
    d ≠ '`' := by
    rcases List.eq_nil_or_concat right with rfl | ⟨u, d, rfl⟩
    · exact ⟨q ++ '\x7b' :: F, '\x7d', by simp, by decide⟩
    · refine ⟨q ++ '\x7b' :: (F ++ '\x7d' :: u), d, by simp, ?_⟩
      rintro rfl
      exact hright (by simp)
  have hself := beforeFence_self hd (hlast ▸ hnone) s
  have hall : q ++ ('\x7b' :: (F ++ ['\x7d']) ++ (right ++ (fence ++ s)))
      = xs ++ d :: (fence ++ s) := by
    have hsplit := congrArg (· ++ (fence ++ s)) hlast
    simpa using hsplit
  rw [hall, hself, ← hlast]
  simp

/-- **In a fence.**  What has three backticks in its strings is cut. -/
theorem extract_in_fence (hv : Valid number (.obj fields)) {before left right : String}
    (hbefore : ¬ HasFence before.toList) (hleft : ∀ c ∈ left.toList, isSpace c = true)
    (hright : ∀ c ∈ right.toList, isSpace c = true) (after : String) :
    extractJsonObject (parse number)
        (before ++ "```json" ++ left ++ stringify (.obj fields) ++ right ++ "```" ++ after)
        = some (.obj fields)
      ↔ ¬ HasFence (stringify (.obj fields)).toList := by
  obtain ⟨F, hF⟩ := stringify_braces fields
  obtain ⟨p, s, hp, -, htrim⟩ := trimmed_between (c := '`') (d := '`') rfl rfl before.toList
    (['`', '`', 'j', 's', 'o', 'n'] ++ (left.toList ++ ('\x7b' :: (F ++ ['\x7d'])
      ++ (right.toList ++ ['`', '`'])))) after.toList
  obtain ⟨q, hbrace, hq, hfenced⟩ := fenced_content F right.toList s
    (fun h => hbefore (hasFence_mono h hp.isInfix)) hleft
  have htext : (trim (before ++ "```json" ++ left ++ stringify (.obj fields) ++ right ++ "```"
      ++ after)).toList = p ++ (fence ++ (['j', 's', 'o', 'n'] ++ (left.toList ++
        ('\x7b' :: (F ++ ['\x7d']) ++ (right.toList ++ (fence ++ s)))))) := by
    have hopen : "```json".toList = ['`', '`', '`', 'j', 's', 'o', 'n'] := rfl
    have hclose : "```".toList = ['`', '`', '`'] := rfl
    have hfence : fence = ['`', '`', '`'] := rfl
    rw [trim_toList]
    simp only [String.toList_append, hF, hopen, hclose, hfence]
    simpa using htrim
  have htick : '`' ∉ right.toList := by
    intro hmem
    cases hright _ hmem
  by_cases hfence : HasFence (stringify (.obj fields)).toList
  · refine iff_of_false (extract_ne_of_lighter hv ?_) (not_not_intro hfence)
    obtain ⟨a, b, hall⟩ := hfence
    rw [List.append_assoc] at hall
    obtain ⟨ds, hds, hstarts⟩ := beforeFence_fence (q ++ a) (b ++ (right.toList ++ (fence ++ s)))
    have hcontent : beforeFence (q ++ ('\x7b' :: (F ++ ['\x7d']) ++ (right.toList ++ (fence ++ s))))
        = some ds := by
      rw [← hF, ← hall, ← hds]
      simp only [List.append_assoc]
    -- the content is cut before the first fence of the object
    have hlight : weigh (fromBrace (trimmed ds)) ≤ weigh a := by
      refine Nat.le_trans (weigh_fromBrace_within ((trimmed_within ds).trans hstarts.isInfix)) ?_
      rw [fromBrace_skip hbrace]
      exact weigh_fromBrace_le a
    rw [htext, searched, hfenced, hcontent, ← hall, weigh_append, weigh_append, weigh_fence]
    dsimp only
    omega
  · refine iff_of_true ?_ hfence
    rw [hF] at hfence
    have hcontent := beforeFence_object hq hfence htick s
    obtain ⟨q', right', hq', -, htrim'⟩ := trimmed_between (c := '\x7b') (d := '\x7d') rfl rfl q F
      right.toList
    refine extract_of_fromBrace right' hv ?_
    rw [htext, searched, hfenced, hcontent]
    dsimp only
    rw [htrim', fromBrace_skip fun h => hbrace (hq'.subset h), hF]
    exact fromBrace_brace _

/-- **The object in what a model writes.**  Between texts without braces before it and
    without fences, an object is extracted exactly if its text has no two fences; in a
    fence, exactly if it has none. -/
theorem extractJsonObject_iff (number : String → String) (fields : List (String × Json))
    (before after left right : String) (hv : Valid number (.obj fields))
    (hbrace : '\x7b' ∉ before.toList) (hbefore : ¬ HasFence before.toList)
    (hafter : ¬ HasFence after.toList) (hleft : ∀ c ∈ left.toList, isSpace c = true)
    (hright : ∀ c ∈ right.toList, isSpace c = true) :
    (extractJsonObject (parse number) (before ++ stringify (.obj fields) ++ after)
          = some (.obj fields)
        ↔ ¬ TwoFences (stringify (.obj fields)).toList)
      ∧ (extractJsonObject (parse number)
            (before ++ "```json" ++ left ++ stringify (.obj fields) ++ right ++ "```" ++ after)
            = some (.obj fields)
          ↔ ¬ HasFence (stringify (.obj fields)).toList) :=
  ⟨extract_in_prose hv hbrace hbefore hafter, extract_in_fence hv hbefore hleft hright after⟩

end

/-- `{"answer":"42"}` is extracted, and from a fence. -/
theorem extractJsonObject_answer :
    (extractJsonObject (parse id) ("Sure: " ++ stringify (.obj [("answer", .str "42")]) ++ " Done.")
          = some (.obj [("answer", .str "42")])
        ↔ ¬ TwoFences (stringify (.obj [("answer", .str "42")])).toList)
      ∧ (extractJsonObject (parse id) ("Sure: " ++ "```json" ++ "\n"
            ++ stringify (.obj [("answer", .str "42")]) ++ "\n" ++ "```" ++ " Done.")
            = some (.obj [("answer", .str "42")])
          ↔ ¬ HasFence (stringify (.obj [("answer", .str "42")])).toList) :=
  extractJsonObject_iff id [("answer", .str "42")] "Sure: " " Done." "\n" "\n"
    ⟨by decide, trivial, trivial⟩ (by decide) (not_hasFence_of_not_mem (by decide))
    (not_hasFence_of_not_mem (by decide)) (List.all_eq_true.mp rfl) (List.all_eq_true.mp rfl)

/-- An object whose string is a code block: what is in the block has no brace. -/
theorem extractJsonObject_code_block :
    ¬ ∀ (number : String → String) (fields : List (String × Json)) (before after : String),
      Valid number (.obj fields) → '\x7b' ∉ before.toList → ¬ HasFence before.toList →
      ¬ HasFence after.toList →
      extractJsonObject (parse number) (before ++ stringify (.obj fields) ++ after)
          = some (.obj fields)
        ∧ extractJsonObject (parse number)
            (before ++ "```json" ++ stringify (.obj fields) ++ "```" ++ after)
            = some (.obj fields) := by
  intro hclaim
  obtain ⟨hprose, -⟩ := hclaim id [("text", .str "```ls```")] "" "" ⟨by decide, trivial, trivial⟩
    List.not_mem_nil (not_hasFence_of_not_mem List.not_mem_nil)
    (not_hasFence_of_not_mem List.not_mem_nil)
  have hnone : extractJsonObject (parse id)
      ("" ++ stringify (.obj [("text", .str "```ls```")]) ++ "") = none := rfl
  rw [hnone] at hprose
  cases hprose

end CoreAi
