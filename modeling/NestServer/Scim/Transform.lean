import NestServer.Mongo.QueryLanguage
import NestServer.Scim.Parser

/-! # From SCIM nodes to query objects

    `transformAstToMongo` maps a node to a query object; equal operators in a
    row are flattened into one list. -/

namespace Scim

open Mongo

def LogicalOperator.text : LogicalOperator → String
  | .and => "and"
  | .or  => "or"

/-- `$${operator}` -/
def LogicalOperator.key : LogicalOperator → String
  | .and => "$and"
  | .or  => "$or"

/-- Escapes regex chars; only a string has `replace`. -/
def escapeRegex : Value → Except ScimError (List Char)
  | .str s => .ok (s.flatMap fun c => if isMeta c then ['\\', c] else [c])
  | _      => .error .typeError

def Value.toBson : Value → Bson
  | .null   => .null
  | .bool b => .bool b
  | .num q  => .num q
  | .str s  => .str (String.ofList s)

def flattenLogicalOperator (target : LogicalOperator) : ScimNode → List ScimNode
  | .logical left op right =>
      if op ≠ target then [.logical left op right]
      else flattenLogicalOperator target left ++ flattenLogicalOperator target right
  | node => [node]

/-- The operand of the attribute in the query object of a condition. -/
def operand (comparator : Comparator) (value : Value) : Except ScimError Bson :=
  match comparator with
  | .aco => .ok value.toBson
  | .co  => do
      let text ← escapeRegex value
      return .doc [("$options", .str "i"), ("$regex", .str (String.ofList text))]
  | .eq  => .ok (.doc [("$eq", value.toBson)])
  | .ew  => do
      let text ← escapeRegex value
      return .doc [("$options", .str "i"), ("$regex", .str (String.ofList (text ++ ['$'])))]
  | .ge  => .ok (.doc [("$gte", value.toBson)])
  | .gt  => .ok (.doc [("$gt", value.toBson)])
  | .le  => .ok (.doc [("$lte", value.toBson)])
  | .lt  => .ok (.doc [("$lt", value.toBson)])
  | .pr  => .ok (.doc [("$exists", .bool true)])
  | .sw  => do
      let text ← escapeRegex value
      return .doc [("$options", .str "i"), ("$regex", .str (String.ofList ('^' :: text)))]

/- A node is mapped together with the list that it contributes to the operator
   around it; `transform_logical` and `conditions_eq` give both the form they
   have in the source. -/
mutual

def transformAstToMongo : ScimNode → Except ScimError Bson
  | .logical left op right => do
      let cs ← conditions op left
      let ds ← conditions op right
      return .doc [(op.key, .list (cs ++ ds))]
  | .array path expr => do
      let query ← transformAstToMongo expr
      return .doc [(String.ofList path, .doc [("$elemMatch", query)])]
  | .condition attributePath comparator value => do
      let test ← operand comparator value
      return .doc [(String.ofList attributePath, test)]

def conditions (target : LogicalOperator) : ScimNode → Except ScimError (List Bson)
  | .logical left op right => do
      let cs ← conditions op left
      let ds ← conditions op right
      return if op ≠ target then [.doc [(op.key, .list (cs ++ ds))]] else cs ++ ds
  | .array path expr => do
      let query ← transformAstToMongo expr
      return [.doc [(String.ofList path, .doc [("$elemMatch", query)])]]
  | .condition attributePath comparator value => do
      let test ← operand comparator value
      return [.doc [(String.ofList attributePath, test)]]

end

def scimToMongo (scim : List Char) : Except ScimError Bson := do
  if scim = [] then return .doc []
  let ast ← parseTokens (tokenize scim)
  transformAstToMongo ast

/-! ## The equations of the source -/

/-- `conditions.map(transformAstToMongo)` -/
theorem conditions_eq (target : LogicalOperator) (node : ScimNode) :
    conditions target node = (flattenLogicalOperator target node).mapM transformAstToMongo := by
  induction node with
  | logical left op right ihl ihr =>
      rw [conditions, flattenLogicalOperator]
      by_cases hop : op = target
      · subst hop
        rw [if_neg (by simp), List.mapM_append, ← ihl, ← ihr]
        simp
      · rw [if_pos hop]
        simp only [List.mapM_cons, List.mapM_nil, transformAstToMongo, if_pos hop]
        cases conditions op left with
        | error e => rfl
        | ok cs => cases conditions op right <;> rfl
  | array path expr _ =>
      simp only [conditions, flattenLogicalOperator, List.mapM_cons, List.mapM_nil,
        transformAstToMongo]
      cases transformAstToMongo expr <;> rfl
  | condition attributePath comparator value =>
      simp only [conditions, flattenLogicalOperator, List.mapM_cons, List.mapM_nil,
        transformAstToMongo]
      cases operand comparator value <;> rfl

theorem transform_logical (left right : ScimNode) (op : LogicalOperator) :
    transformAstToMongo (.logical left op right) = do
      let cs ← (flattenLogicalOperator op (.logical left op right)).mapM transformAstToMongo
      return .doc [(op.key, .list cs)] := by
  rw [transformAstToMongo, flattenLogicalOperator, if_neg (by simp), List.mapM_append,
    conditions_eq, conditions_eq]
  simp

/-! ## What compiles -/

/-- The condition is compiled without an exception: only a string is escaped. -/
def Compiles : ScimNode → Prop
  | .logical left _ right => Compiles left ∧ Compiles right
  | .array _ expr         => Compiles expr
  | .condition _ c v      => c = .co ∨ c = .ew ∨ c = .sw → ∃ s, v = .str s

theorem operand_isOk (c : Comparator) (v : Value) :
    (∃ test, operand c v = .ok test) ↔ (c = .co ∨ c = .ew ∨ c = .sw → ∃ s, v = .str s) := by
  cases c <;> cases v <;> simp [operand, escapeRegex, bind, Except.bind, pure, Except.pure]

theorem transform_isOk (node : ScimNode) :
    ((∃ q, transformAstToMongo node = .ok q) ↔ Compiles node) ∧
    ∀ target, (∃ cs, conditions target node = .ok cs) ↔ Compiles node := by
  have hbind : ∀ {α β : Type} {x : Except ScimError α} {f : α → β},
      (∃ b, (do let a ← x; return f a : Except ScimError β) = .ok b) ↔ ∃ a, x = .ok a := by
    intro α β x f
    cases x <;> simp [bind, Except.bind, pure, Except.pure]
  have hbind2 : ∀ {α β γ : Type} {x : Except ScimError α} {y : Except ScimError β}
      {f : α → β → γ},
      (∃ c, (do let a ← x; let b ← y; return f a b : Except ScimError γ) = .ok c) ↔
        (∃ a, x = .ok a) ∧ ∃ b, y = .ok b := by
    intro α β γ x y f
    cases x <;> cases y <;> simp [bind, Except.bind, pure, Except.pure]
  induction node with
  | logical left op right ihl ihr =>
      constructor
      · rw [transformAstToMongo, hbind2, ihl.2, ihr.2, Compiles]
      · intro target
        rw [conditions, hbind2, ihl.2, ihr.2, Compiles]
  | array path expr ih =>
      constructor
      · rw [transformAstToMongo, hbind, ih.1, Compiles]
      · intro target
        rw [conditions, hbind, ih.1, Compiles]
  | condition attr c v =>
      constructor
      · rw [transformAstToMongo, hbind, operand_isOk, Compiles]
      · intro target
        rw [conditions, hbind, operand_isOk, Compiles]

end Scim
