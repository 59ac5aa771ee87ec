import NestServer.Mongo.Collection

/-! # The documents a write makes

    `effects` lists every document that a write puts into the collection, with
    the one it takes the place of and the one it was made from.  A property of
    documents that relates each to its predecessor holds after the write exactly
    if it holds of these: `exec_iff`. -/

namespace Mongo

/-- One document that a write makes.  `old` is the document it replaces, and
    `start` what the update was applied to: that document, or what an upsert
    starts from. -/
structure Effect where
  old   : Option Document
  start : Document
  new   : Document

namespace Collection

variable (c : Collection)

/-- The row of an upsert, if it is inserted. -/
def upsertEffects (upsert : Option String) (start : Document) (made : Option Document) :
    List Effect :=
  match upsert, made with
  | some id, some d => if c.get? id = none then [⟨none, start, d⟩] else []
  | _,       _      => []

/-- The rows that are updated; an update that fails ends them. -/
def rowEffects (u : Update) (es : List (String × Document)) : List Effect :=
  (updated u es).filterMap fun e => (u.apply false e.2).map fun d => ⟨some e.2, e.2, d⟩

def updateEffects (filter : FilterQuery) (u : Update) (upsert : Option String) :
    List (String × Document) → List Effect
  | [] => match seed filter with
      | some s => c.upsertEffects upsert s (u.apply true s)
      | none   => []
  | e :: es => rowEffects u (e :: es)

def effects : Write → List Effect
  | .insertOne id d => c.upsertEffects (some id) d (some d)
  | .query filter (.updateOne sort u upsert) =>
      c.updateEffects filter u upsert (c.chosen filter sort).toList
  | .query filter (.updateMany u upsert) => c.updateEffects filter u upsert (c.selected filter)
  | .query filter (.replaceOne sort d upsert) => match c.chosen filter sort with
      | some e => [⟨some e.2, d, d⟩]
      | none   => c.upsertEffects upsert d (some d)
  | .query _ (.deleteOne _) => []
  | .query _ .deleteMany    => []

/-! ## What holds after a write -/

/-- Each document after the write is related to the one before it. -/
def Related (P : Option Document → Document → Prop) (c c' : Collection) : Prop :=
  ∀ id d, c'.get? id = some d → P (c.get? id) d

section Exec

variable {c} {P : Option Document → Document → Prop}

theorem mem_upsertEffects {upsert : Option String} {start : Document} {made : Option Document}
    {e : Effect} : e ∈ c.upsertEffects upsert start made ↔
      ∃ id d, upsert = some id ∧ made = some d ∧ c.get? id = none ∧ e = ⟨none, start, d⟩ := by
  cases upsert with
  | none => simp [upsertEffects]
  | some id =>
      cases made with
      | none => simp [upsertEffects]
      | some d =>
          by_cases hid : c.get? id = none
          · simp [upsertEffects, hid]
          · simp [upsertEffects, hid]

theorem upsert_iff (hrefl : ∀ d, P (some d) d) (upsert : Option String) (start : Document)
    (made : Option Document) :
    Related P c (c.upsertRow upsert made).1 ↔
      ∀ e ∈ c.upsertEffects upsert start made, P e.old e.new := by
  constructor
  · rintro h e he
    obtain ⟨id, d, rfl, rfl, hid, rfl⟩ := mem_upsertEffects.mp he
    have hnew := h id d (get?_upsertRow_new hid)
    rwa [hid] at hnew
  · intro h id d hd
    rcases get?_upsertRow hd with hold | ⟨hup, hmade, hid⟩
    · rw [hold]
      exact hrefl d
    · rw [hid]
      exact h ⟨none, start, d⟩ (mem_upsertEffects.mpr ⟨id, d, hup, hmade, hid, rfl⟩)

theorem rows_iff (hrefl : ∀ d, P (some d) d) (u : Update) {es : List (String × Document)}
    (hnd : (es.map Prod.fst).Nodup) (hes : ∀ e ∈ es, c.get? e.1 = some e.2) :
    Related P c (updateRows u es c).1 ↔ ∀ e ∈ rowEffects u es, P e.old e.new := by
  have hsub : (updated u es).Sublist es := List.takeWhile_sublist _
  constructor
  · intro h e he
    obtain ⟨row, hrow, hmade⟩ := List.mem_filterMap.mp he
    obtain ⟨d, hd, rfl⟩ := Option.map_eq_some_iff.mp hmade
    -- no other row has the key
    have hfind : ((updated u es).find? fun r => r.1 = row.1) = some row := by
      cases hf : (updated u es).find? fun r => r.1 = row.1 with
      | none => exact absurd (decide_eq_true rfl) (List.find?_eq_none.mp hf row hrow)
      | some r =>
          have hkey : r.1 = row.1 := by simpa using List.find?_some hf
          rw [List.inj_on_of_nodup_map hnd (hsub.subset (List.mem_of_find?_eq_some hf))
            (hsub.subset hrow) hkey]
    have hget := get?_updateRows u hnd c row.1
    rw [hfind] at hget
    have hnew := h row.1 d (hget.trans hd)
    rwa [hes row (hsub.subset hrow)] at hnew
  · intro h id d hd
    rw [get?_updateRows u hnd c id] at hd
    cases hf : (updated u es).find? fun r => r.1 = id with
    | none =>
        rw [hf] at hd
        rw [show c.get? id = some d from hd]
        exact hrefl d
    | some row =>
        rw [hf] at hd
        have hrow := List.mem_of_find?_eq_some hf
        have hkey : row.1 = id := by simpa using List.find?_some hf
        rw [← hkey, hes row (hsub.subset hrow)]
        exact h ⟨some row.2, row.2, d⟩
          (List.mem_filterMap.mpr ⟨row,
            hrow, by rw [show u.apply false row.2 = some d from hd]; rfl⟩)

theorem update_iff (hrefl : ∀ d, P (some d) d) (filter : FilterQuery) (u : Update)
    (upsert : Option String) {es : List (String × Document)} (hnd : (es.map Prod.fst).Nodup)
    (hes : ∀ e ∈ es, c.get? e.1 = some e.2) :
    Related P c (c.updateOrUpsert filter u upsert es).1 ↔
      ∀ e ∈ c.updateEffects filter u upsert es, P e.old e.new := by
  cases es with
  | nil =>
      rw [updateOrUpsert, updateEffects]
      cases hs : seed filter with
      | none =>
          rw [Option.bind_none]
          refine (upsert_iff hrefl upsert OrderedMap.empty none).trans ?_
          cases upsert <;> simp [upsertEffects]
      | some s => exact upsert_iff hrefl upsert s _
  | cons e es => exact rows_iff hrefl u hnd hes

/-- **What a write does** to a property of documents: it holds of every document
    afterwards exactly if it holds of those that the write makes. -/
theorem exec_iff (hrefl : ∀ d, P (some d) d) (w : Write) :
    Related P c (c.exec w).1 ↔ ∀ e ∈ c.effects w, P e.old e.new := by
  have hsame : Related P c c := by
    intro id d hd
    rw [hd]
    exact hrefl d
  cases w with
  | insertOne id d =>
      have hinsert : (c.insert id d).1 = (c.upsertRow (some id) (some d)).1 := rfl
      rw [exec, hinsert]
      exact upsert_iff hrefl (some id) d (some d)
  | query filter change =>
      cases change with
      | updateOne sort u upsert =>
          refine update_iff hrefl filter u upsert (chosen_nodup c filter sort) ?_
          intro e he
          exact (mem_selected.mp (chosen_mem (Option.mem_toList.mp he))).1
      | updateMany u upsert =>
          exact update_iff hrefl filter u upsert (selected_nodup c filter)
            fun e he => (mem_selected.mp he).1
      | replaceOne sort d upsert =>
          rw [exec, execChange, effects]
          cases hc : c.chosen filter sort with
          | none => exact upsert_iff hrefl upsert d (some d)
          | some e =>
              have hold : c.get? e.1 = some e.2 := (mem_selected.mp (chosen_mem hc)).1
              constructor
              · intro h e' he'
                rw [List.mem_singleton.mp he']
                have hnew := h e.1 d (OrderedMap.get?_set_self c e.1 d)
                rwa [hold] at hnew
              · intro h id d' hd'
                by_cases hid : id = e.1
                · rw [hid] at hd' ⊢
                  have hd : d = d' :=
                    Option.some.inj ((OrderedMap.get?_set_self c e.1 d).symm.trans hd')
                  rw [hold, ← hd]
                  exact h ⟨some e.2, d, d⟩ List.mem_cons_self
                · exact hsame id d' ((OrderedMap.get?_set_of_ne c d hid).symm.trans hd')
      | deleteOne sort =>
          rw [exec, execChange, effects]
          refine iff_of_true ?_ (by simp)
          cases hc : c.chosen filter sort with
          | none => exact hsame
          | some e =>
              intro id d hd
              refine hsame id d ?_
              rw [← hd]
              refine (OrderedMap.get?_delete_of_ne c ?_).symm
              rintro rfl
              rw [OrderedMap.get?_delete_self] at hd
              cases hd
      | deleteMany =>
          rw [exec, execChange, effects]
          refine iff_of_true ?_ (by simp)
          intro id d hd
          have hd' := (OrderedMap.get?_filterKeys _ c id).symm.trans hd
          split at hd'
          · exact hsame id d hd'
          · cases hd'

/-- The document that is replaced is one of the collection. -/
theorem mem_of_effects {w : Write} {e : Effect} (he : e ∈ c.effects w) {d : Document}
    (hd : e.old = some d) : ∃ id, c.get? id = some d := by
  have hupsert : ∀ {upsert : Option String} {start : Document} {made : Option Document},
      e ∉ c.upsertEffects upsert start made := by
    intro upsert start made hm
    obtain ⟨_, _, _, _, _, rfl⟩ := mem_upsertEffects.mp hm
    cases hd
  have hrows : ∀ {filter : FilterQuery} {u : Update} {upsert : Option String}
      {es : List (String × Document)}, (∀ row ∈ es, c.get? row.1 = some row.2) →
      e ∈ c.updateEffects filter u upsert es → ∃ id, c.get? id = some d := by
    intro filter u upsert es hes hm
    cases es with
    | nil =>
        rw [updateEffects] at hm
        split at hm
        · exact absurd hm hupsert
        · cases hm
    | cons row rows =>
        obtain ⟨r, hr, hmade⟩ := List.mem_filterMap.mp hm
        obtain ⟨_, -, rfl⟩ := Option.map_eq_some_iff.mp hmade
        rw [← Option.some.inj hd]
        exact ⟨r.1, hes r ((List.takeWhile_sublist _).subset hr)⟩
  cases w with
  | insertOne id d' =>
      rw [effects] at he
      exact absurd he hupsert
  | query filter change =>
      cases change with
      | updateOne sort u upsert =>
          refine hrows ?_ he
          exact fun row hrow => (mem_selected.mp (chosen_mem (Option.mem_toList.mp hrow))).1
      | updateMany u upsert => exact hrows (fun row hrow => (mem_selected.mp hrow).1) he
      | replaceOne sort d' upsert =>
          rw [effects] at he
          cases hc : c.chosen filter sort with
          | none =>
              rw [hc] at he
              exact absurd he hupsert
          | some row =>
              rw [hc, List.mem_singleton] at he
              rw [he] at hd
              rw [← Option.some.inj hd]
              exact ⟨row.1, (mem_selected.mp (chosen_mem hc)).1⟩
      | deleteOne sort => cases he
      | deleteMany => cases he

/-- Where all documents have a property, a write keeps it exactly if those that
    it makes have it. -/
theorem all_exec_iff {Q : Document → Prop} (hall : ∀ id d, c.get? id = some d → Q d) (w : Write) :
    (∀ id d, (c.exec w).1.get? id = some d → Q d) ↔ ∀ e ∈ c.effects w, Q e.new := by
  have hiff := exec_iff (c := c) (P := fun old new => Q new ∨ old = some new)
    (fun d => Or.inr rfl) w
  constructor
  · intro h e he
    rcases hiff.mp (fun id d hd => Or.inl (h id d hd)) e he with hnew | hsame
    · exact hnew
    · obtain ⟨id, hid⟩ := mem_of_effects he hsame
      exact hall id _ hid
  · intro h id d hd
    rcases hiff.mpr (fun e he => Or.inl (h e he)) id d hd with hnew | hsame
    · exact hnew
    · exact hall id d hsame

end Exec

end Collection

end Mongo
