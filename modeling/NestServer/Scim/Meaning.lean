import NestServer.Scim.Filter
import NestServer.Scim.Injection
import Mathlib.Data.List.Infix

/-! # What a compiled query selects

    The query object of a node, as the store reads it, holds of the documents
    that satisfy the node; only the end of a text is taken leniently.  The
    pattern of a text test is the text itself, since it is escaped. -/

namespace Scim

open Mongo

/-! ## Patterns -/

def escapeMeta (s : List Char) : List Char := s.flatMap fun c => if isMeta c then ['\\', c] else [c]

theorem escapeMeta_cons (c : Char) (s : List Char) :
    escapeMeta (c :: s) = (if isMeta c then ['\\', c] else [c]) ++ escapeMeta s := rfl

theorem literalText?_meta {d : Char} (hd : isMeta d = true) (rest : List Char) :
    literalText? ('\\' :: d :: rest) = (literalText? rest).map fun p => (d :: p.1, p.2) := by
  rw [literalText?.eq_4 _ _ _ (by rintro ⟨⟩), if_pos rfl, if_pos hd]

theorem literalText?_plain {c : Char} (hc : isMeta c = false) (rest : List Char) :
    literalText? (c :: rest) = (literalText? rest).map fun p => (c :: p.1, p.2) := by
  have hback : c ≠ '\\' := by
    rintro rfl
    exact absurd hc (by decide)
  have hdollar : c ≠ '$' := by
    rintro rfl
    exact absurd hc (by decide)
  cases rest with
  | nil => rw [literalText?.eq_3 _ (fun h => absurd h hdollar), if_neg hback, hc, if_neg (by simp)]
  | cons d rest =>
      rw [literalText?.eq_4 _ _ _ (fun h => absurd h hdollar), if_neg hback, hc, if_neg (by simp)]

/-- An escaped text is a literal pattern. -/
theorem literalText?_escape {tail : List Char} {anchored : Bool}
    (htail : literalText? tail = some ([], anchored)) (s : List Char) :
    literalText? (escapeMeta s ++ tail) = some (s, anchored) := by
  induction s with
  | nil => exact htail
  | cons c s ih =>
      rw [escapeMeta_cons]
      by_cases hc : isMeta c = true
      · rw [if_pos hc]
        show literalText? ('\\' :: c :: (escapeMeta s ++ tail)) = _
        rw [literalText?_meta hc, ih]
        rfl
      · rw [if_neg hc]
        show literalText? (c :: (escapeMeta s ++ tail)) = _
        rw [literalText?_plain (by simpa using hc), ih]
        rfl

/-- What follows the text is the rest of the subject. -/
theorem afterText_eq_some {fold : Char → Char} {text subject rest : List Char} :
    afterText fold text subject = some rest ↔
      ∃ p, subject = p ++ rest ∧ p.map fold = text.map fold := by
  induction text generalizing subject with
  | nil =>
      rw [afterText, Option.some.injEq]
      constructor
      · rintro rfl
        exact ⟨[], rfl, rfl⟩
      · rintro ⟨p, rfl, hp⟩
        rw [List.map_eq_nil_iff.mp hp]
        rfl
  | cons c text ih =>
      cases subject with
      | nil =>
          rw [afterText]
          constructor
          · intro h
            cases h
          · rintro ⟨p, hsub, hp⟩
            rw [(List.append_eq_nil_iff.mp hsub.symm).1] at hp
            cases hp
      | cons d subject =>
          rw [afterText]
          constructor
          · intro h
            split at h
            · next hfold =>
                obtain ⟨p, rfl, hp⟩ := ih.mp h
                exact ⟨d :: p, rfl, by rw [List.map_cons, List.map_cons, hp, hfold]⟩
            · cases h
          · rintro ⟨p, hsub, hp⟩
            cases p with
            | nil => cases hp
            | cons d' p =>
                cases hsub
                rw [List.map_cons, List.map_cons, List.cons.injEq] at hp
                rw [if_pos hp.1.symm]
                exact ih.mpr ⟨p, rfl, hp.2⟩

theorem literalAt_iff {fold : Char → Char} {text : List Char} {anchored : Bool}
    {subject : List Char} :
    literalAt fold text anchored subject = true ↔
      ∃ p rest, subject = p ++ rest ∧ p.map fold = text.map fold ∧
        (anchored = true → rest = [] ∨ rest = ['\n']) := by
  rw [literalAt, Option.any_eq_true]
  constructor
  · rintro ⟨rest, hrest, hend⟩
    obtain ⟨p, hsub, hp⟩ := afterText_eq_some.mp hrest
    refine ⟨p, rest, hsub, hp, ?_⟩
    rintro rfl
    simpa using hend
  · rintro ⟨p, rest, hsub, hp, hend⟩
    refine ⟨rest, afterText_eq_some.mpr ⟨p, hsub, hp⟩, ?_⟩
    cases anchored with
    | false => rfl
    | true => simpa using hend rfl

theorem escapeMeta_ne_caret (s tail : List Char) (htail : tail.head? ≠ some '^') :
    (escapeMeta s ++ tail).head? ≠ some '^' := by
  cases s with
  | nil => exact htail
  | cons c s =>
      rw [escapeMeta_cons]
      by_cases hc : isMeta c = true
      · rw [if_pos hc]
        rintro ⟨⟩
      · rw [if_neg hc]
        rintro ⟨⟩
        exact hc (by decide)

theorem searchLiteral_plain {fold : Char → Char} {pattern subject : List Char}
    (h : pattern.head? ≠ some '^') :
    searchLiteral fold pattern subject =
      (literalText? pattern).map fun p => subject.tails.any (literalAt fold p.1 p.2) := by
  rw [searchLiteral.eq_2]
  rintro rest rfl
  exact h rfl

/-- A text at the start of some rest of the subject. -/
theorem tails_any_literalAt {fold : Char → Char} {text : List Char} {anchored : Bool}
    {subject : List Char} :
    subject.tails.any (literalAt fold text anchored) = true ↔
      ∃ before p rest, subject = before ++ (p ++ rest) ∧ p.map fold = text.map fold ∧
        (anchored = true → rest = [] ∨ rest = ['\n']) := by
  rw [List.any_eq_true]
  constructor
  · rintro ⟨t, ht, hat⟩
    obtain ⟨before, rfl⟩ := (List.mem_tails _ _).mp ht
    obtain ⟨p, rest, rfl, hp, hend⟩ := literalAt_iff.mp hat
    exact ⟨before, p, rest, rfl, hp, hend⟩
  · rintro ⟨before, p, rest, rfl, hp, hend⟩
    exact ⟨p ++ rest, (List.mem_tails _ _).mpr ⟨before, rfl⟩,
      literalAt_iff.mpr ⟨p, rest, rfl, hp, hend⟩⟩

section Tests

variable (fold : Char → Char) (text subject : List Char)

theorem search_contains :
    searchLiteral fold (escapeMeta text) subject = some (textHolds fold true .co text subject) := by
  have hpattern : literalText? (escapeMeta text) = some (text, false) := by
    simpa using literalText?_escape (show literalText? [] = some ([], false) from rfl) text
  rw [searchLiteral_plain (by simpa using escapeMeta_ne_caret text [] (by simp)), hpattern,
    Option.map_some, Option.some.injEq, Bool.eq_iff_iff, tails_any_literalAt]
  show _ ↔ (subject.map fold).tails.any (text.map fold).isPrefixOf = true
  rw [List.any_eq_true]
  constructor
  · rintro ⟨before, p, rest, rfl, hp, -⟩
    refine ⟨(p ++ rest).map fold, (List.mem_tails _ _).mpr ⟨before.map fold, ?_⟩,
      List.isPrefixOf_iff_prefix.mpr ⟨rest.map fold, ?_⟩⟩
    · rw [← List.map_append]
    · rw [← hp, List.map_append]
  · rintro ⟨t, ht, hstarts⟩
    obtain ⟨before, hbefore⟩ := (List.mem_tails _ _).mp ht
    obtain ⟨rest, rfl⟩ := List.isPrefixOf_iff_prefix.mp hstarts
    obtain ⟨before', x, rfl, -, hx⟩ := List.map_eq_append_iff.mp hbefore.symm
    obtain ⟨p, rest', rfl, hp, -⟩ := List.map_eq_append_iff.mp hx
    exact ⟨before', p, rest', rfl, hp, by simp⟩

theorem search_starts :
    searchLiteral fold ('^' :: escapeMeta text) subject =
      some (textHolds fold true .sw text subject) := by
  have hpattern : literalText? (escapeMeta text) = some (text, false) := by
    simpa using literalText?_escape (show literalText? [] = some ([], false) from rfl) text
  rw [searchLiteral.eq_1, hpattern, Option.map_some, Option.some.injEq, Bool.eq_iff_iff,
    literalAt_iff]
  show _ ↔ (text.map fold).isPrefixOf (subject.map fold) = true
  rw [List.isPrefixOf_iff_prefix]
  constructor
  · rintro ⟨p, rest, rfl, hp, -⟩
    exact ⟨rest.map fold, by rw [← hp, List.map_append]⟩
  · rintro ⟨rest, h⟩
    obtain ⟨p, rest', rfl, hp, -⟩ := List.map_eq_append_iff.mp h.symm
    exact ⟨p, rest', rfl, hp, by simp⟩

theorem suffix_iff : (text.map fold).isSuffixOf (subject.map fold) = true ↔
    ∃ before p, subject = before ++ p ∧ p.map fold = text.map fold := by
  rw [List.isSuffixOf_iff_suffix]
  constructor
  · rintro ⟨before, h⟩
    obtain ⟨before', p, rfl, -, hp⟩ := List.map_eq_append_iff.mp h.symm
    exact ⟨before', p, rfl, hp⟩
  · rintro ⟨before, p, rfl, hp⟩
    exact ⟨before.map fold, by rw [← hp, List.map_append]⟩

theorem search_ends :
    searchLiteral fold (escapeMeta text ++ ['$']) subject =
      some (textHolds fold true .ew text subject) := by
  have hpattern : literalText? (escapeMeta text ++ ['$']) = some (text, true) :=
    literalText?_escape rfl text
  rw [searchLiteral_plain (escapeMeta_ne_caret text ['$'] (by simp)), hpattern, Option.map_some,
    Option.some.injEq, Bool.eq_iff_iff, tails_any_literalAt]
  show _ ↔ ((text.map fold).isSuffixOf (subject.map fold) || (true &&
    decide (subject.getLast? = some '\n') &&
      (text.map fold).isSuffixOf (subject.dropLast.map fold))) = true
  rw [Bool.true_and, Bool.or_eq_true, Bool.and_eq_true, decide_eq_true_iff, suffix_iff, suffix_iff]
  constructor
  · rintro ⟨before, p, rest, rfl, hp, hend⟩
    rcases hend rfl with rfl | rfl
    · exact Or.inl ⟨before, p, by rw [List.append_nil], hp⟩
    · refine Or.inr ⟨?_, before, p, ?_, hp⟩
      · rw [← List.append_assoc, List.getLast?_append]
        rfl
      · rw [← List.append_assoc, List.dropLast_concat]
  · rintro (⟨before, p, rfl, hp⟩ | ⟨hlast, before, p, hsub, hp⟩)
    · exact ⟨before, p, [], by rw [List.append_nil], hp, fun _ => Or.inl rfl⟩
    · refine ⟨before, p, ['\n'], ?_, hp, fun _ => Or.inr rfl⟩
      rw [← List.append_assoc, ← hsub]
      exact (List.dropLast_append_getLast? _ hlast).symm

end Tests

/-! ## Conditions -/

section Conditions

variable (e : RegexEngine)

/-- What a pattern with the option `i` finds is what the literal search finds. -/
theorem matches_of_search {pattern : List Char} {subject : String} {b : Bool}
    (h : searchLiteral e.fold pattern subject.toList = some b) :
    e.matches (String.ofList pattern) "i" subject = b := by
  rw [RegexEngine.matches, if_pos rfl, String.toList_ofList, h]
  rfl

/-- A text test, once for the three comparators. -/
theorem parse_text_test {c : Comparator} {pattern text : List Char} {path : String}
    (hpath : isOperator path = false)
    (hsearch : ∀ subject, searchLiteral e.fold pattern subject =
      some (textHolds e.fold true c text subject))
    (hcond : ∀ found, conditionHolds e.fold true found c (.str text) =
      (Bson.candidates found).any fun w =>
        match w, Value.str text with
        | some (.str subject), .str text => textHolds e.fold true c text subject.toList
        | _,                   _         => false) :
    ∃ tests, parseEntry path (.doc [("$options", .str "i"), ("$regex",
        .str (String.ofList pattern))]) = some (.field path tests) ∧
      ∀ found, testsHold e found tests = conditionHolds e.fold true found c (.str text) := by
  refine ⟨[.regex (String.ofList pattern) "i"], ?_, ?_⟩
  · rw [parseEntry, if_neg (by simp [hpath])]
    rfl
  · intro found
    rw [hcond, testsHold, testsHold, Bool.and_true, Test.holds]
    congr 1
    funext w
    cases w with
    | none => rfl
    | some w =>
        cases w with
        | str subject => exact matches_of_search e (hsearch subject.toList)
        | _ => rfl

/-- **The query of a condition** tests what the condition asks for. -/
theorem parse_condition {c : Comparator} {v : Value} {test : Bson} {path : String}
    (hpath : isOperator path = false) (h : operand c v = .ok test) :
    ∃ tests, parseEntry path test = some (.field path tests) ∧
      ∀ found, testsHold e found tests = conditionHolds e.fold true found c v := by
  have hnot : ¬ isOperator path = true := by simp [hpath]
  -- an object with one plain test
  have hplain : ∀ (op : String) (t : Test), isOperator op = true →
      parseTests [(op, v.toBson)] [(op, v.toBson)] = some [t] →
      parseEntry path (.doc [(op, v.toBson)]) = some (.field path [t]) := by
    intro op t hop hparse
    rw [parseEntry, if_neg hnot,
      if_pos (show isOperatorDoc (.doc [(op, v.toBson)]) = true from hop), hparse]
    rfl
  cases c with
  | aco =>
      cases h
      refine ⟨[.eq v.toBson], ?_, ?_⟩
      · cases v <;> exact if_neg hnot
      · intro found
        exact Bool.and_true _
  | eq =>
      cases h
      exact ⟨_, hplain "$eq" (.eq v.toBson) (by decide) (by cases v <;> rfl), fun _ =>
        Bool.and_true _⟩
  | ge =>
      cases h
      exact ⟨_, hplain "$gte" (.compare .gte v.toBson) (by decide) (by cases v <;> rfl), fun _ =>
        Bool.and_true _⟩
  | gt =>
      cases h
      exact ⟨_, hplain "$gt" (.compare .gt v.toBson) (by decide) (by cases v <;> rfl), fun _ =>
        Bool.and_true _⟩
  | le =>
      cases h
      exact ⟨_, hplain "$lte" (.compare .lte v.toBson) (by decide) (by cases v <;> rfl), fun _ =>
        Bool.and_true _⟩
  | lt =>
      cases h
      exact ⟨_, hplain "$lt" (.compare .lt v.toBson) (by decide) (by cases v <;> rfl), fun _ =>
        Bool.and_true _⟩
  | pr =>
      cases h
      refine ⟨[.present true], ?_, ?_⟩
      · rw [parseEntry, if_neg hnot]
        rfl
      · intro found
        rw [testsHold, testsHold, Bool.and_true, Test.holds]
        show decide (found.any Option.isSome = true) = found.any Option.isSome
        exact Bool.decide_eq_true
  | co =>
      cases v with
      | str text =>
          cases h
          exact parse_text_test e hpath (search_contains e.fold text) fun _ => rfl
      | _ => cases h
  | ew =>
      cases v with
      | str text =>
          cases h
          exact parse_text_test e hpath (search_ends e.fold text) fun _ => rfl
      | _ => cases h
  | sw =>
      cases v with
      | str text =>
          cases h
          exact parse_text_test e hpath (search_starts e.fold text) fun _ => rfl
      | _ => cases h

end Conditions

/-! ## Nodes -/

section Nodes

variable (e : RegexEngine)

/-- What a list of conditions says under an operator. -/
def LogicalOperator.holds (op : LogicalOperator) (d : Bson) (qs : List Query) : Bool :=
  match op with
  | .and => Query.holdsAll e d qs
  | .or  => Query.holdsAny e d qs

def LogicalOperator.query (op : LogicalOperator) (qs : List Query) : Query :=
  match op with
  | .and => .every qs
  | .or  => .some qs

theorem LogicalOperator.holds_query (op : LogicalOperator) (d : Bson) (qs : List Query) :
    (op.query qs).holds e d = op.holds e d qs := by
  cases op <;> rfl

theorem LogicalOperator.holds_append (op : LogicalOperator) (d : Bson) (qs rs : List Query) :
    op.holds e d (qs ++ rs) =
      match op with
      | .and => op.holds e d qs && op.holds e d rs
      | .or  => op.holds e d qs || op.holds e d rs := by
  cases op with
  | and => exact holdsAll_append e d qs rs
  | or => exact holdsAny_append e d qs rs

theorem parse_logical {op : LogicalOperator} {cs : List Bson} {qs : List Query} (hne : cs ≠ [])
    (h : parseList cs = some qs) :
    parseEntries [(op.key, .list cs)] = some [op.query qs] := by
  refine parse_single ?_
  cases cs with
  | nil => exact absurd rfl hne
  | cons c cs => cases op <;> simp [parseEntry, LogicalOperator.key, isOperator, h,
      LogicalOperator.query]

/-- The reading of a query object in which every document satisfies the node. -/
def Means (node : ScimNode) (q : Bson) : Prop :=
  ∃ fields qs, q = .doc fields ∧ parseEntries fields = some qs ∧
    ∀ d, Query.holdsAll e d qs = node.holds e.fold true d

/-- The same for a list of conditions under an operator. -/
def MeansUnder (target : LogicalOperator) (node : ScimNode) (cs : List Bson) : Prop :=
  ∃ qs, cs ≠ [] ∧ parseList cs = some qs ∧
    ∀ d, target.holds e d qs = node.holds e.fold true d

/-- One query object is a list of one condition. -/
theorem Means.under {node : ScimNode} {q : Bson} (h : Means e node q) (target : LogicalOperator) :
    MeansUnder e target node [q] := by
  obtain ⟨fields, qs, rfl, hparse, hholds⟩ := h
  refine ⟨[.every qs], List.cons_ne_nil _ _, ?_, ?_⟩
  · rw [parseList, hparse, parseList]
    rfl
  · intro d
    rw [← hholds d]
    cases target with
    | and => exact Bool.and_true _
    | or => exact Bool.or_false _

theorem means_logical {left right : ScimNode} {op : LogicalOperator} {cs ds : List Bson}
    (hleft : MeansUnder e op left cs) (hright : MeansUnder e op right ds) :
    MeansUnder e op (.logical left op right) (cs ++ ds) ∧
      Means e (.logical left op right) (.doc [(op.key, .list (cs ++ ds))]) := by
  obtain ⟨qs, hne, hcs, hqs⟩ := hleft
  obtain ⟨rs, -, hds, hrs⟩ := hright
  have hne' : cs ++ ds ≠ [] := fun h => hne (List.append_eq_nil_iff.mp h).1
  have hparse := parseList_append hcs hds
  have hholds : ∀ d, op.holds e d (qs ++ rs) =
      (ScimNode.logical left op right).holds e.fold true d := by
    intro d
    rw [LogicalOperator.holds_append]
    cases op with
    | and =>
        rw [ScimNode.holds, ← hqs d, ← hrs d]
    | or =>
        rw [ScimNode.holds, ← hqs d, ← hrs d]
  refine ⟨⟨qs ++ rs, hne', hparse, hholds⟩, _, _, rfl, parse_logical hne' hparse, ?_⟩
  intro d
  rw [Query.holdsAll, Query.holdsAll, Bool.and_true, LogicalOperator.holds_query, hholds]

theorem means_array {path : Token} {expr : ScimNode} {q : Bson}
    (hpath : isOperator (String.ofList path) = false) (h : Means e expr q) :
    Means e (.array path expr) (.doc [(String.ofList path, .doc [("$elemMatch", q)])]) := by
  obtain ⟨fields, qs, rfl, hparse, hholds⟩ := h
  refine ⟨_, [.field (String.ofList path) [.elemMatch (.every qs)]], rfl, parse_single ?_, ?_⟩
  · rw [parseEntry, if_neg (by simp [hpath]), if_pos (show isOperatorDoc _ = true by rfl)]
    simp [parseTests, parseTest, hparse]
  · intro d
    rw [Query.holdsAll, Query.holdsAll, Bool.and_true, Query.holds, testsHold, testsHold,
      Bool.and_true, Test.holds, ScimNode.holds]
    congr 1
    funext v
    cases v with
    | none => rfl
    | some v =>
        cases v with
        | list ws =>
            show (ws.any _) = (ws.any _)
            congr 1
            funext w
            cases w with
            | doc fs => exact hholds (.doc fs)
            | list us => exact hholds (.list us)
            | _ => rfl
        | _ => rfl

/-- **The query object of a node** selects what satisfies the node. -/
theorem means_transform (node : ScimNode)
    (hnames : ∀ n ∈ node.names, isOperator (String.ofList n) = false) :
    (∀ q, transformAstToMongo node = .ok q → Means e node q) ∧
    ∀ target cs, conditions target node = .ok cs → MeansUnder e target node cs := by
  induction node with
  | logical left op right ihl ihr =>
      obtain ⟨-, hleft⟩ := ihl fun n hn => hnames n (List.mem_append_left _ hn)
      obtain ⟨-, hright⟩ := ihr fun n hn => hnames n (List.mem_append_right _ hn)
      constructor
      · intro q hq
        rw [transformAstToMongo] at hq
        obtain ⟨cs, hcs, hq⟩ := Fallible.bind_eq_ok.mp hq
        obtain ⟨ds, hds, hq⟩ := Fallible.bind_eq_ok.mp hq
        cases hq
        exact (means_logical e (hleft op cs hcs) (hright op ds hds)).2
      · intro target cs' hcs'
        rw [conditions] at hcs'
        obtain ⟨cs, hcs, hcs'⟩ := Fallible.bind_eq_ok.mp hcs'
        obtain ⟨ds, hds, hcs'⟩ := Fallible.bind_eq_ok.mp hcs'
        cases hcs'
        have hboth := means_logical e (hleft op cs hcs) (hright op ds hds)
        by_cases hop : op = target
        · subst hop
          rw [if_neg (by simp)]
          exact hboth.1
        · rw [if_pos hop]
          exact hboth.2.under e target
  | array path expr ih =>
      obtain ⟨hexpr, -⟩ := ih fun n hn => hnames n (List.mem_cons_of_mem _ hn)
      have hpath := hnames path List.mem_cons_self
      constructor
      · intro q hq
        rw [transformAstToMongo] at hq
        obtain ⟨query, hquery, hq⟩ := Fallible.bind_eq_ok.mp hq
        cases hq
        exact means_array e hpath (hexpr query hquery)
      · intro target cs hcs
        rw [conditions] at hcs
        obtain ⟨query, hquery, hcs⟩ := Fallible.bind_eq_ok.mp hcs
        cases hcs
        exact (means_array e hpath (hexpr query hquery)).under e target
  | condition path c v =>
      have hpath := hnames path List.mem_cons_self
      have hmeans : ∀ {test : Bson}, operand c v = .ok test →
          Means e (.condition path c v) (.doc [(String.ofList path, test)]) := by
        intro test htest
        obtain ⟨tests, hparse, hholds⟩ := parse_condition e hpath htest
        refine ⟨_, _, rfl, parse_single hparse, ?_⟩
        intro d
        rw [Query.holdsAll, Query.holdsAll, Bool.and_true, Query.holds, hholds, ScimNode.holds]
      constructor
      · intro q hq
        rw [transformAstToMongo] at hq
        obtain ⟨test, htest, hq⟩ := Fallible.bind_eq_ok.mp hq
        cases hq
        exact hmeans htest
      · intro target cs hcs
        rw [conditions] at hcs
        obtain ⟨test, htest, hcs⟩ := Fallible.bind_eq_ok.mp hcs
        cases hcs
        exact (hmeans htest).under e target

end Nodes

end Scim
