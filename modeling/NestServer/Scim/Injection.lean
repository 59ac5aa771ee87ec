import NestServer.Scim.Grammar
import NestServer.Scim.Transform

/-! # No operator from the text of a SCIM filter

    No token begins with a dollar sign, and the names in a node are tokens.  So
    the operators of a compiled filter are those that its node stands for, and
    what they compare with are primitive values. -/

namespace Scim

open Mongo

/-! ## What a node stands for -/

/-- The attribute and array paths of a node. -/
def ScimNode.names : ScimNode → List Token
  | .logical left _ right          => left.names ++ right.names
  | .array path expr               => path :: expr.names
  | .condition attributePath _ _   => [attributePath]

def Comparator.operators : Comparator → List String
  | .aco => []
  | .co  => ["$options", "$regex"]
  | .eq  => ["$eq"]
  | .ew  => ["$options", "$regex"]
  | .ge  => ["$gte"]
  | .gt  => ["$gt"]
  | .le  => ["$lte"]
  | .lt  => ["$lt"]
  | .pr  => ["$exists"]
  | .sw  => ["$options", "$regex"]

def ScimNode.operators : ScimNode → List String
  | .logical left op right     => op.key :: (left.operators ++ right.operators)
  | .array _ expr              => "$elemMatch" :: expr.operators
  | .condition _ comparator _  => comparator.operators

/-- The operators over further conditions. -/
def structural : List String := ["$and", "$or", "$elemMatch"]

/-- An operator that the node stands for, or no operator.  A comparison has a
    primitive operand, and a name has one or an object of operators. -/
structure Vetted (operators : List String) (e : String × Bson) : Prop where
  operator : isOperator e.1 = true → e.1 ∈ operators
  operand  : e.1 ∉ structural → e.2.IsPrimitive ∨
    isOperator e.1 = false ∧ ∃ fields, e.2 = .doc fields ∧ ∀ f ∈ fields, isOperator f.1 = true

theorem Vetted.mono {operators operators' : List String} {e : String × Bson}
    (h : Vetted operators e) (hsub : operators ⊆ operators') : Vetted operators' e :=
  ⟨fun ho => hsub (h.operator ho), h.operand⟩

/-! ## Tokens -/

theorem isBracket_dollar : isBracket '$' = false := by decide

theorem isWordChar_dollar : isWordChar '$' = false := by decide

theorem head_of_mem_matchTokens : ∀ (n : Nat) (cs : List Char), ∀ t ∈ matchTokens n cs,
    t.head? ≠ some '$' := by
  intro n
  induction n with
  | zero =>
      intro cs t ht
      cases ht
  | succ n ih =>
      intro cs t ht
      cases cs with
      | nil => cases ht
      | cons c cs =>
          rw [matchTokens] at ht
          split at ht
          · next hb =>
              rcases List.mem_cons.mp ht with rfl | ht'
              · rintro ⟨⟩
                exact absurd hb (by simp [isBracket_dollar])
              · exact ih cs t ht'
          · split at ht
            · next hw =>
                rcases List.mem_cons.mp ht with rfl | ht'
                · rintro ⟨⟩
                  exact absurd hw (by simp [isWordChar_dollar])
                · exact ih _ t ht'
            · split at ht
              · split at ht
                · rcases List.mem_cons.mp ht with rfl | ht'
                  · simp
                  · exact ih _ t ht'
                · exact ih cs t ht
              · exact ih cs t ht

theorem head_of_mem_tokenize {s : List Char} {t : Token} (h : t ∈ tokenize s) :
    t.head? ≠ some '$' :=
  head_of_mem_matchTokens _ _ t h

/-- The names that are read are tokens. -/
theorem Reads.names_subset {Name Operand : Token → Prop} {l : Level} {ts rest : List Token}
    {node : ScimNode} (h : Reads Name Operand l ts node rest) :
    rest ⊆ ts ∧ ∀ n ∈ node.names, n ∈ ts ∨ ∃ left, l = .loop left ∧ n ∈ left.names := by
  induction h with
  | expression _ _ iht ihl =>
      refine ⟨fun t ht => iht.1 (ihl.1 ht), ?_⟩
      intro n hn
      rcases ihl.2 n hn with hmem | ⟨_, heq, hleft⟩
      · exact Or.inl (iht.1 hmem)
      · cases heq
        rcases iht.2 n hleft with hmem | ⟨_, heq, -⟩
        · exact Or.inl hmem
        · cases heq
  | stop _ => exact ⟨fun _ ht => ht, fun n hn => Or.inr ⟨_, rfl, hn⟩⟩
  | more _ _ _ iht ihl =>
      refine ⟨fun t ht => List.mem_cons_of_mem _ (iht.1 (ihl.1 ht)), ?_⟩
      intro n hn
      rcases ihl.2 n hn with hmem | ⟨_, heq, hleft⟩
      · exact Or.inl (List.mem_cons_of_mem _ (iht.1 hmem))
      · cases heq
        rcases List.mem_append.mp hleft with hl | hr
        · exact Or.inr ⟨_, rfl, hl⟩
        · rcases iht.2 n hr with hmem | ⟨_, heq, -⟩
          · exact Or.inl (List.mem_cons_of_mem _ hmem)
          · cases heq
  | group _ ih =>
      refine ⟨fun t ht => List.mem_cons_of_mem _ (ih.1 (List.mem_cons_of_mem _ ht)), ?_⟩
      intro n hn
      rcases ih.2 n hn with hmem | ⟨_, heq, -⟩
      · exact Or.inl (List.mem_cons_of_mem _ hmem)
      · cases heq
  | array _ _ _ ih =>
      refine ⟨fun t ht => List.mem_cons_of_mem _ (List.mem_cons_of_mem _
        (ih.1 (List.mem_cons_of_mem _ ht))), ?_⟩
      intro n hn
      rcases List.mem_cons.mp hn with rfl | hn'
      · exact Or.inl List.mem_cons_self
      · rcases ih.2 n hn' with hmem | ⟨_, heq, -⟩
        · exact Or.inl (List.mem_cons_of_mem _ (List.mem_cons_of_mem _ hmem))
        · cases heq
  | present =>
      refine ⟨fun t ht => List.mem_cons_of_mem _ (List.mem_cons_of_mem _ ht), ?_⟩
      intro n hn
      rw [List.mem_singleton.mp hn]
      exact Or.inl List.mem_cons_self
  | condition =>
      refine ⟨fun t ht => List.mem_cons_of_mem _ (List.mem_cons_of_mem _
        (List.mem_cons_of_mem _ ht)), ?_⟩
      intro n hn
      rw [List.mem_singleton.mp hn]
      exact Or.inl List.mem_cons_self

/-- No name of a parsed filter is an operator. -/
theorem names_not_operator {s : List Char} {ast : ScimNode}
    (h : parseTokens (tokenize s) = .ok ast) :
    ∀ n ∈ ast.names, isOperator (String.ofList n) = false := by
  obtain ⟨rest, hreads⟩ := parseTokens_eq_ok.mp h
  intro n hn
  rcases hreads.names_subset.2 n hn with hmem | ⟨_, heq, -⟩
  · rw [isOperator, String.toList_ofList]
    simpa using head_of_mem_tokenize hmem
  · cases heq

/-! ## The query object -/

theorem toBson_primitive (v : Value) : v.toBson.IsPrimitive := by
  cases v <;> trivial

/-- The entries of a condition. -/
theorem vetted_condition {attr : Token} {c : Comparator} {v : Value} {test : Bson}
    (hname : isOperator (String.ofList attr) = false) (h : operand c v = .ok test) :
    ∀ e ∈ (Bson.doc [(String.ofList attr, test)]).entries, Vetted c.operators e := by
  have hstructural : String.ofList attr ∉ structural := by
    intro hmem
    have hop : ∀ k ∈ structural, isOperator k = true := by decide
    rw [hop _ hmem] at hname
    cases hname
  -- a value by itself
  have hplain : test.IsPrimitive →
      ∀ e ∈ (Bson.doc [(String.ofList attr, test)]).entries, Vetted c.operators e := by
    intro hprim e he
    rw [Bson.entries_doc, List.flatMap_singleton, Bson.entries_of_primitive hprim,
      List.mem_singleton] at he
    subst he
    refine ⟨?_, fun _ => Or.inl hprim⟩
    intro ho
    rw [hname] at ho
    cases ho
  -- an object of operators with primitive operands
  have hobject : ∀ fields : List (String × Bson), test = .doc fields →
      (∀ f ∈ fields, isOperator f.1 = true ∧ f.1 ∈ c.operators ∧ f.2.IsPrimitive) →
      ∀ e ∈ (Bson.doc [(String.ofList attr, test)]).entries, Vetted c.operators e := by
    rintro fields rfl hfields e he
    rw [Bson.entries_doc, List.flatMap_singleton, List.mem_cons] at he
    rcases he with rfl | he
    · refine ⟨?_, fun _ => Or.inr ⟨hname, fields, rfl, fun f hf => (hfields f hf).1⟩⟩
      intro ho
      rw [hname] at ho
      cases ho
    · rw [Bson.entries_doc] at he
      obtain ⟨f, hf, hmem⟩ := List.mem_flatMap.mp he
      obtain ⟨-, hop, hprim⟩ := hfields f hf
      rw [Bson.entries_of_primitive hprim, List.mem_singleton] at hmem
      subst hmem
      exact ⟨fun _ => hop, fun _ => Or.inl hprim⟩
  have hregex : ∀ f : List Char → List Char,
      (do let text ← escapeRegex v
          return Bson.doc [("$options", .str "i"), ("$regex", .str (String.ofList (f text)))]) =
        .ok test → "$options" ∈ c.operators → "$regex" ∈ c.operators →
      ∀ e ∈ (Bson.doc [(String.ofList attr, test)]).entries, Vetted c.operators e := by
    intro f htest ho hr
    obtain ⟨text, -, heq⟩ := Fallible.bind_eq_ok.mp htest
    cases heq
    refine hobject _ rfl ?_
    simp only [List.forall_mem_cons]
    exact ⟨⟨by decide, ho, trivial⟩, ⟨by decide, hr, trivial⟩, by simp⟩
  cases c with
  | aco => cases h; exact hplain (toBson_primitive v)
  | co => exact hregex id h (by decide) (by decide)
  | ew => exact hregex (· ++ ['$']) h (by decide) (by decide)
  | sw => exact hregex ('^' :: ·) h (by decide) (by decide)
  | pr => cases h; exact hobject _ rfl (by simp [Comparator.operators, Bson.IsPrimitive]; decide)
  | _ =>
      cases h
      refine hobject _ rfl ?_
      simp only [List.forall_mem_cons]
      exact ⟨⟨by decide, by decide, toBson_primitive v⟩, by simp⟩

theorem key_structural (op : LogicalOperator) : op.key ∈ structural := by
  cases op <;> decide

/-- A list of conditions under a logical operator. -/
theorem vetted_logical {op : LogicalOperator} {operators : List String} {cs : List Bson}
    (hcs : ∀ c ∈ cs, ∀ e ∈ c.entries, Vetted operators e) :
    ∀ e ∈ (Bson.doc [(op.key, .list cs)]).entries, Vetted (op.key :: operators) e := by
  intro e he
  rw [Bson.entries_doc, List.flatMap_singleton, List.mem_cons] at he
  rcases he with rfl | he
  · refine ⟨fun _ => List.mem_cons_self, ?_⟩
    intro hout
    exact absurd (key_structural op) hout
  · rw [Bson.entries_list] at he
    obtain ⟨c, hc, hmem⟩ := List.mem_flatMap.mp he
    exact (hcs c hc e hmem).mono (List.subset_cons_self _ _)

theorem vetted_array {path : Token} {operators : List String} {q : Bson}
    (hname : isOperator (String.ofList path) = false)
    (hq : ∀ e ∈ q.entries, Vetted operators e) :
    ∀ e ∈ (Bson.doc [(String.ofList path, .doc [("$elemMatch", q)])]).entries,
      Vetted ("$elemMatch" :: operators) e := by
  intro e he
  rw [Bson.entries_doc, List.flatMap_singleton, List.mem_cons, Bson.entries_doc,
    List.flatMap_singleton, List.mem_cons] at he
  rcases he with rfl | rfl | he
  · refine ⟨?_, fun _ => Or.inr ⟨hname, _, rfl, ?_⟩⟩
    · intro ho
      rw [hname] at ho
      cases ho
    · intro f hf
      rw [List.mem_singleton.mp hf]
      show isOperator "$elemMatch" = true
      decide
  · refine ⟨fun _ => List.mem_cons_self, ?_⟩
    intro hout
    exact absurd (show "$elemMatch" ∈ structural by decide) hout
  · exact (hq e he).mono (List.subset_cons_self _ _)

/-- The induction over the node, for the node itself and for what it contributes
    to the operator around it. -/
theorem vetted_transform (node : ScimNode)
    (hnames : ∀ n ∈ node.names, isOperator (String.ofList n) = false) :
    (∀ q, transformAstToMongo node = .ok q → ∀ e ∈ q.entries, Vetted node.operators e) ∧
    ∀ target cs, conditions target node = .ok cs →
      ∀ c ∈ cs, ∀ e ∈ c.entries, Vetted node.operators e := by
  induction node with
  | logical left op right ihl ihr =>
      obtain ⟨-, hleft⟩ := ihl fun n hn => hnames n (List.mem_append_left _ hn)
      obtain ⟨-, hright⟩ := ihr fun n hn => hnames n (List.mem_append_right _ hn)
      have hboth : ∀ {cs ds : List Bson}, conditions op left = .ok cs →
          conditions op right = .ok ds →
          ∀ c ∈ cs ++ ds, ∀ e ∈ c.entries, Vetted (left.operators ++ right.operators) e := by
        intro cs ds hcs hds c hc e he
        rcases List.mem_append.mp hc with hc | hc
        · exact (hleft op cs hcs c hc e he).mono (List.subset_append_left _ _)
        · exact (hright op ds hds c hc e he).mono (List.subset_append_right _ _)
      constructor
      · intro q hq
        rw [transformAstToMongo] at hq
        obtain ⟨cs, hcs, hq⟩ := Fallible.bind_eq_ok.mp hq
        obtain ⟨ds, hds, hq⟩ := Fallible.bind_eq_ok.mp hq
        cases hq
        exact vetted_logical (hboth hcs hds)
      · intro target cs' hcs'
        rw [conditions] at hcs'
        obtain ⟨cs, hcs, hcs'⟩ := Fallible.bind_eq_ok.mp hcs'
        obtain ⟨ds, hds, hcs'⟩ := Fallible.bind_eq_ok.mp hcs'
        cases hcs'
        intro c hc
        split at hc
        · rw [List.mem_singleton.mp hc]
          exact vetted_logical (hboth hcs hds)
        · intro e he
          exact (hboth hcs hds c hc e he).mono (List.subset_cons_self _ _)
  | array path expr ih =>
      obtain ⟨hexpr, -⟩ := ih fun n hn => hnames n (List.mem_cons_of_mem _ hn)
      have hname := hnames path List.mem_cons_self
      constructor
      · intro q hq
        rw [transformAstToMongo] at hq
        obtain ⟨query, hquery, hq⟩ := Fallible.bind_eq_ok.mp hq
        cases hq
        exact vetted_array hname (hexpr query hquery)
      · intro target cs hcs
        rw [conditions] at hcs
        obtain ⟨query, hquery, hcs⟩ := Fallible.bind_eq_ok.mp hcs
        cases hcs
        intro c hc
        rw [List.mem_singleton.mp hc]
        exact vetted_array hname (hexpr query hquery)
  | condition attr c v =>
      have hname := hnames attr List.mem_cons_self
      constructor
      · intro q hq
        rw [transformAstToMongo] at hq
        obtain ⟨test, htest, hq⟩ := Fallible.bind_eq_ok.mp hq
        cases hq
        exact vetted_condition hname htest
      · intro target cs hcs
        rw [conditions] at hcs
        obtain ⟨test, htest, hcs⟩ := Fallible.bind_eq_ok.mp hcs
        cases hcs
        intro q hq
        rw [List.mem_singleton.mp hq]
        exact vetted_condition hname htest

/-- **Operator-injection safety.** Whatever the text, an operator in the compiled
    query is one that the parsed filter stands for, no name of the filter is an
    operator, and every comparison has a primitive operand. -/
theorem scimToMongo_operators (s : List Char) (q : Bson) (h : scimToMongo s = .ok q) :
    (s = [] ∧ q = .doc []) ∨
    ∃ ast, parseTokens (tokenize s) = .ok ast ∧
      (∀ n ∈ ast.names, isOperator (String.ofList n) = false) ∧
      ∀ e ∈ q.entries, Vetted ast.operators e := by
  rw [scimToMongo] at h
  by_cases hs : s = []
  · rw [if_pos hs] at h
    cases h
    exact Or.inl ⟨hs, rfl⟩
  · rw [if_neg hs] at h
    obtain ⟨ast, hast, hq⟩ := Fallible.bind_eq_ok.mp h
    have hnames := names_not_operator hast
    exact Or.inr ⟨ast, hast, hnames, (vetted_transform ast hnames).1 q hq⟩

/-- A dollar sign in the text is lost before a name and kept in a value. -/
theorem scimToMongo_operators_where :
    ∃ ast, parseTokens (tokenize "$where eq \"$ne\"".toList) = .ok ast ∧
      (∀ n ∈ ast.names, isOperator (String.ofList n) = false) ∧
      ∀ e ∈ (Bson.doc [("where", .doc [("$eq", .str "$ne")])]).entries,
        Vetted ast.operators e := by
  have h : scimToMongo "$where eq \"$ne\"".toList =
      .ok (.doc [("where", .doc [("$eq", .str "$ne")])]) := by rfl
  rcases scimToMongo_operators _ _ h with ⟨hnil, -⟩ | hast
  · exact absurd hnil (by decide)
  · exact hast

end Scim
