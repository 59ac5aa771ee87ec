import NestServer.Ai.JsonText
import NestServer.PubSub.Delivery

/-! # Payloads of subscriptions

    What a handler is called with has been a text in between: `JSON.stringify` on one side,
    `JSON.parse` with `reviveDates` on the other.  `arrives_iff` says which payloads stay
    as they are. -/

namespace CoreRedisPubSub

open Broker

/-! ## The shape of dates -/

/-- The text begins with the shape, where `d` stands for any digit; and what follows. -/
def afterShape : List Char → List Char → Option (List Char)
  | [], cs              => some cs
  | _ :: _, []          => none
  | p :: shape, c :: cs =>
      if (if p = 'd' then c.isDigit else c = p) then afterShape shape cs else none

/-- `(?:\.\d+)?`: what it leaves. -/
def afterFraction : List Char → Option (List Char)
  | '.' :: cs =>
      if (cs.takeWhile Char.isDigit).isEmpty then none else some (cs.dropWhile Char.isDigit)
  | cs        => some cs

/-- `(?:Z|[+-]\d{2}:\d{2})$` -/
def isZone : List Char → Bool
  | 'Z' :: cs => cs.isEmpty
  | c :: cs   => (c = '+' || c = '-') && afterShape "dd:dd".toList cs = some []
  | []        => false

/-- `ISO_DATE.test(s)` -/
def isIsoDate (s : String) : Bool :=
  ((afterShape "dddd-dd-ddTdd:dd:dd".toList s.toList).bind afterFraction).any isZone

/-! ## Payloads -/

/-- A number is the text that `String(n)` gives. -/
inductive Payload (δ : Type) where
  | undefined
  | null
  | bool (b : Bool)
  | num (text : String)
  | str (s : String)
  | date (d : δ)
  | arr (vs : List (Payload δ))
  | obj (fields : List (String × Payload δ))

namespace Payload

variable {δ : Type}

def isFinite (text : String) : Bool := !(["NaN", "Infinity", "-Infinity"].contains text)

section

-- `toJSON` of a date; `null` for one that is invalid
variable (iso : δ → Option String)

mutual

/-- What `JSON.stringify` writes, if anything. -/
def serialize : Payload δ → Option Json
  | .undefined  => none
  | .null       => some .null
  | .bool b     => some (.bool b)
  | .num text   => some (if isFinite text then .num text else .null)
  | .str s      => some (.str s)
  | .date d     => some ((iso d).elim .null .str)
  | .arr vs     => some (.arr (serializeItems vs))
  | .obj fields => some (.obj (serializeFields fields))

/-- What is not written is `null` in an array. -/
def serializeItems : List (Payload δ) → List Json
  | []      => []
  | v :: vs => (serialize v).getD .null :: serializeItems vs

def serializeFields : List (String × Payload δ) → List (String × Json)
  | []               => []
  | (k, v) :: fields => match serialize v with
      | none   => serializeFields fields
      | some j => (k, j) :: serializeFields fields

end

/-- What is published: an argument that is undefined is sent as the empty text. -/
def message (payload : Payload δ) : String := (serialize iso payload).elim "" Json.stringify

mutual

/-- Nothing is undefined, no number is infinite, no text looks like a date, and every date
    does. -/
def survives : Payload δ → Bool
  | .undefined  => false
  | .null       => true
  | .bool _     => true
  | .num text   => isFinite text
  | .str s      => !isIsoDate s
  | .date d     => (iso d).any isIsoDate
  | .arr vs     => survivesItems vs
  | .obj fields => survivesFields fields

def survivesItems : List (Payload δ) → Bool
  | []      => true
  | v :: vs => survives v && survivesItems vs

def survivesFields : List (String × Payload δ) → Bool
  | []               => true
  | (_, v) :: fields => survives v && survivesFields fields

end

end

section

-- `new Date(s)`
variable (newDate : String → δ)

mutual

/-- What `reviveDates` makes of a value. -/
def revive : Json → Payload δ
  | .null       => .null
  | .bool b     => .bool b
  | .num text   => .num text
  | .str s      => if isIsoDate s then .date (newDate s) else .str s
  | .arr vs     => .arr (reviveItems vs)
  | .obj fields => .obj (reviveFields fields)

def reviveItems : List Json → List (Payload δ)
  | []      => []
  | v :: vs => revive v :: reviveItems vs

def reviveFields : List (String × Json) → List (String × Payload δ)
  | []               => []
  | (k, v) :: fields => (k, revive v) :: reviveFields fields

end

/-- `JSON.parse(message, reviveDates)` -/
def arrives (number : String → String) (message : String) : Option (Payload δ) :=
  (Json.parse number message).map (revive newDate)

end

mutual

/-- The values of the language: a number is finite or not, and the keys of an object are
    different. -/
def Value (number : String → String) : Payload δ → Prop
  | .num text   => isFinite text = true → Json.IsNumber number text
  | .arr vs     => ValueItems number vs
  | .obj fields => (fields.map Prod.fst).Nodup ∧ ValueFields number fields
  | _           => True

def ValueItems (number : String → String) : List (Payload δ) → Prop
  | []      => True
  | v :: vs => Value number v ∧ ValueItems number vs

def ValueFields (number : String → String) : List (String × Payload δ) → Prop
  | []               => True
  | (_, v) :: fields => Value number v ∧ ValueFields number fields

end

/-! ## What is written can be read -/

variable {iso : δ → Option String} {newDate : String → δ} {number : String → String}

theorem serializeFields_cons (k : String) (v : Payload δ) (fields : List (String × Payload δ)) :
    serializeFields iso ((k, v) :: fields)
      = ((serialize iso v).map fun j => (k, j)).toList ++ serializeFields iso fields := by
  rw [serializeFields]
  cases serialize iso v <;> rfl

theorem keys_serializeFields (fields : List (String × Payload δ)) :
    ((serializeFields iso fields).map Prod.fst).Sublist (fields.map Prod.fst) := by
  induction fields with
  | nil => exact List.Sublist.refl _
  | cons f fields ih =>
      obtain ⟨k, v⟩ := f
      rw [serializeFields_cons]
      cases serialize iso v with
      | none   => exact ih.cons _
      | some j => exact ih.cons_cons _

mutual

theorem valid_serialize : ∀ (payload : Payload δ), payload.Value number →
    ∀ j ∈ serialize iso payload, Json.Valid number j
  | .undefined, _   => by rintro j ⟨⟩
  | .null, _        => by rintro j ⟨⟩; trivial
  | .bool b, _      => by rintro j ⟨⟩; trivial
  | .num text, h    => by
      rintro j ⟨⟩
      split
      · next hfinite => exact h hfinite
      · trivial
  | .str s, _       => by rintro j ⟨⟩; trivial
  | .date d, _      => by
      rintro j ⟨⟩
      cases iso d <;> trivial
  | .arr vs, h      => by
      rintro j ⟨⟩
      exact valid_serializeItems vs h
  | .obj fields, h  => by
      rintro j ⟨⟩
      exact ⟨h.1.sublist (keys_serializeFields fields), valid_serializeFields fields h.2⟩

theorem valid_serializeItems : ∀ (vs : List (Payload δ)), ValueItems number vs →
    Json.ValidItems number (serializeItems iso vs)
  | [], _      => trivial
  | v :: vs, h => by
      refine ⟨?_, valid_serializeItems vs h.2⟩
      have hv := valid_serialize v h.1
      cases hj : serialize iso v with
      | none   => trivial
      | some j => exact hv j hj

theorem valid_serializeFields : ∀ (fields : List (String × Payload δ)),
    ValueFields number fields → Json.ValidFields number (serializeFields iso fields)
  | [], _               => trivial
  | (k, v) :: fields, h => by
      have hv := valid_serialize v h.1
      rw [serializeFields_cons]
      cases hj : serialize iso v with
      | none   => exact valid_serializeFields fields h.2
      | some j => exact ⟨hv j hj, valid_serializeFields fields h.2⟩

end

/-! ## What stays as it is -/

theorem length_reviveFields (fields : List (String × Json)) :
    (reviveFields newDate fields).length = fields.length := by
  induction fields with
  | nil => rfl
  | cons f fields ih => exact congrArg Nat.succ ih

theorem length_serializeFields (fields : List (String × Payload δ)) :
    (serializeFields iso fields).length ≤ fields.length := by
  have h : ((serializeFields iso fields).map Prod.fst).length ≤ (fields.map Prod.fst).length :=
    (keys_serializeFields fields).length_le
  rwa [List.length_map, List.length_map] at h

mutual

theorem revive_serialize (hnew : ∀ d t, iso d = some t → newDate t = d) :
    ∀ (payload : Payload δ), (serialize iso payload).map (revive newDate) = some payload ↔
      payload.survives iso = true
  | .undefined  => iff_of_false (by rintro ⟨⟩) (by rintro ⟨⟩)
  | .null       => iff_of_true rfl rfl
  | .bool b     => iff_of_true rfl rfl
  | .num text   => by
      rw [serialize, survives]
      split
      · next hfinite => exact iff_of_true rfl hfinite
      · next hinfinite => exact iff_of_false (by rintro ⟨⟩) hinfinite
  | .str s      => by
      rw [serialize, survives, Option.map_some, revive]
      cases isIsoDate s with
      | true  => exact iff_of_false (by rintro ⟨⟩) (by rintro ⟨⟩)
      | false => exact iff_of_true rfl rfl
  | .date d     => by
      rw [serialize, survives, Option.map_some]
      cases hd : iso d with
      | none   => exact iff_of_false (by rintro ⟨⟩) (by rintro ⟨⟩)
      | some t =>
          show some (revive newDate (.str t)) = _ ↔ isIsoDate t = true
          rw [revive]
          split
          · next hiso => exact iff_of_true (by rw [hnew d t hd]) hiso
          · next hnot => exact iff_of_false (by rintro ⟨⟩) hnot
  | .arr vs     => by
      rw [serialize, survives, Option.map_some, revive, ← revive_serializeItems hnew vs]
      exact ⟨fun h => Payload.arr.inj (Option.some.inj h), fun h => by rw [h]⟩
  | .obj fields => by
      rw [serialize, survives, Option.map_some, revive, ← revive_serializeFields hnew fields]
      exact ⟨fun h => Payload.obj.inj (Option.some.inj h), fun h => by rw [h]⟩

theorem revive_serializeItems (hnew : ∀ d t, iso d = some t → newDate t = d) :
    ∀ (vs : List (Payload δ)), reviveItems newDate (serializeItems iso vs) = vs ↔
      survivesItems iso vs = true
  | []      => iff_of_true rfl rfl
  | v :: vs => by
      have hv : revive newDate ((serialize iso v).getD .null) = v ↔ v.survives iso = true := by
        rw [← revive_serialize hnew v]
        cases hj : serialize iso v with
        | some j => exact ⟨fun h => by rw [← h]; rfl, fun h => Option.some.inj h⟩
        | none   =>
            -- only what is undefined is not written
            refine iff_of_false ?_ (by rintro ⟨⟩)
            cases v with
            | undefined =>
                show ¬ Payload.null = .undefined
                rintro ⟨⟩
            | _ => cases hj
      rw [serializeItems, reviveItems, survivesItems, Bool.and_eq_true_iff, ← hv,
        ← revive_serializeItems hnew vs]
      exact List.cons_eq_cons

theorem revive_serializeFields (hnew : ∀ d t, iso d = some t → newDate t = d) :
    ∀ (fields : List (String × Payload δ)),
      reviveFields newDate (serializeFields iso fields) = fields ↔ survivesFields iso fields = true
  | []               => iff_of_true rfl rfl
  | (k, v) :: fields => by
      rw [survivesFields, Bool.and_eq_true_iff, ← revive_serialize hnew v,
        ← revive_serializeFields hnew fields, serializeFields_cons]
      cases serialize iso v with
      | none   =>
          -- a field is missing
          refine iff_of_false (fun h => ?_) (by rintro ⟨⟨⟩, -⟩)
          have hlength := congrArg List.length h
          rw [length_reviveFields] at hlength
          have hle : (serializeFields iso fields).length ≤ fields.length :=
            length_serializeFields fields
          rw [show (serializeFields iso fields).length = fields.length + 1 from hlength] at hle
          exact absurd hle (Nat.not_succ_le_self _)
      | some j =>
          show (k, revive newDate j) :: _ = _ ↔ some (revive newDate j) = some v ∧ _
          rw [List.cons_eq_cons, Prod.mk.injEq, Option.some.injEq, and_iff_right rfl]
          rfl

end

/-- **A payload arrives as it was** exactly if there is nothing undefined or infinite in it,
    no text in it looks like a date, and every date in it does. -/
theorem arrives_iff {payload : Payload δ} (hvalue : payload.Value number)
    (hnew : ∀ d t, iso d = some t → newDate t = d) :
    arrives newDate number (payload.message iso) = some payload ↔ payload.survives iso = true := by
  rw [← revive_serialize hnew payload, arrives, message]
  cases hj : serialize iso payload with
  | none   =>
      -- the empty text is not JSON
      rfl
  | some j =>
      show (Json.parse number j.stringify).map _ = _ ↔ _
      rw [Json.parse_stringify (valid_serialize payload hvalue j hj)]

/-- A date, as its text, and a number. -/
def reminder : Payload String := .obj [("at", .date "2024-01-02T03:04:05.678Z"), ("n", .num "7")]

theorem value_reminder : reminder.Value id := by
  refine ⟨by decide, trivial, fun _ => ⟨by decide, rfl⟩, trivial⟩

theorem arrives_reminder : arrives id id (reminder.message some) = some reminder :=
  (arrives_iff value_reminder (by rintro d t ⟨⟩; rfl)).mpr (by decide)

/-- A text that looks like a date arrives as one. -/
example : (.str "2024-01-02T03:04:05Z" : Payload String).survives some = false := by decide

end Payload

/-- What is published unharmed is what the handlers are called with. -/
theorem Delivered.payloads {δ : Type} {iso : δ → Option String} {newDate : String → δ}
    {number : String → String} (hnew : ∀ d t, iso d = some t → newDate t = d)
    {log : List (String × String)} {e : Engine (Payload δ)} {id : Nat}
    {sub : Subscription (Payload δ)} (h : Delivered (Payload.arrives newDate number) log e id sub)
    {payloads : List (Payload δ)}
    (hlog : published log sub.channel = payloads.map fun payload => payload.message iso)
    (hall : ∀ payload ∈ payloads, payload.Value number ∧ payload.survives iso = true) :
    sub.got.Sublist payloads := by
  have hread :
      (published log sub.channel).filterMap (Payload.arrives newDate number) = payloads := by
    rw [hlog, List.filterMap_map]
    refine (List.filterMap_congr fun payload hmem => ?_).trans List.filterMap_some
    exact (Payload.arrives_iff (hall payload hmem).1 hnew).mpr (hall payload hmem).2
  exact hread ▸ h.inOrder

end CoreRedisPubSub
