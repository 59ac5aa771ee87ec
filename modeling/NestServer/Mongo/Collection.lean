import NestServer.Mongo.Document
import Mathlib.Data.List.Sort

/-! # Updates and writes

    What a document store does with the writes it is handed.  Operators of one
    update may not name a field twice, so each field is changed by at most one
    of them: `fieldAfter` reads that change off the update, and
    `get?_apply` says the whole update does exactly that to every field. -/

namespace Mongo

/-! ## Updates -/

/-- An update document: plain fields and the operators.  `others` stands for
    every further operator, by the field it changes; such an operator may fail
    on the value it finds. -/
structure UpdateDocument where
  plain       : Document := .empty
  set         : Document := .empty
  setOnInsert : Document := .empty
  unset       : List String := []
  rename      : List (String × String) := []
  others      : List (String × (Option Value → Option Value)) := []

namespace UpdateDocument

/-- The values an update writes: plain fields count as `$set`, and an insert
    adds `$setOnInsert`. -/
def assignments (u : UpdateDocument) (inserting : Bool) : Document :=
  if inserting then (u.set.spread u.plain).spread u.setOnInsert else u.set.spread u.plain

/-- The fields an update names, with repetition. -/
def names (u : UpdateDocument) : List String :=
  (u.set.spread u.plain).entries.map Prod.fst ++ u.setOnInsert.entries.map Prod.fst
    ++ u.unset ++ u.rename.map Prod.fst ++ u.rename.map Prod.snd ++ u.others.map Prod.fst

/-- Move the value of a field, if there is one. -/
def renameField (d : Document) (r : String × String) : Document :=
  match d.get? r.1 with
  | some v => (d.delete r.1).set r.2 v
  | none   => d

/-- Change one field by an operator that may fail. -/
def changeField (d : Document) (o : String × (Option Value → Option Value)) : Option Document :=
  (o.2 (d.get? o.1)).map (d.set o.1)

/-- Apply an update to a document; `none` is a write error. -/
def apply (u : UpdateDocument) (inserting : Bool) (d : Document) : Option Document :=
  if u.names.Nodup then
    u.others.foldlM changeField
      (u.rename.foldl renameField
        (u.unset.foldl OrderedMap.delete (d.spread (u.assignments inserting))))
  else none

/-- What the update makes of one field. -/
def fieldAfter (u : UpdateDocument) (inserting : Bool) (d : Document) (k : String) :
    Option Value :=
  match (u.assignments inserting).get? k with
  | some v => some v
  | none =>
      if k ∈ u.unset ∨ k ∈ u.rename.map Prod.fst then none
      else match u.rename.find? fun r => r.2 = k with
        | some r => (d.get? r.1).or (d.get? k)
        | none => match u.others.find? fun o => o.1 = k with
            | some o => o.2 (d.get? k)
            | none   => d.get? k

/-! ### The field an operator changes -/

theorem get?_unset (names : List String) (d : Document) (k : String) :
    (names.foldl OrderedMap.delete d).get? k = if k ∈ names then none else d.get? k := by
  induction names generalizing d with
  | nil => rfl
  | cons n names ih =>
      rw [List.foldl_cons, ih]
      by_cases hm : k ∈ names
      · rw [if_pos hm, if_pos (List.mem_cons_of_mem n hm)]
      · rw [if_neg hm]
        by_cases hk : k = n
        · rw [hk, if_pos List.mem_cons_self, OrderedMap.get?_delete_self]
        · rw [if_neg (by simp [hk, hm]), OrderedMap.get?_delete_of_ne d hk]

theorem get?_renameField {r : String × String} (hne : r.1 ≠ r.2) (d : Document) (k : String) :
    (renameField d r).get? k
      = if k = r.1 then none else if k = r.2 then (d.get? r.1).or (d.get? k) else d.get? k := by
  unfold renameField
  cases hv : d.get? r.1 with
  | none =>
      by_cases hk : k = r.1
      · rw [if_pos hk, hk]
        exact hv
      · rw [if_neg hk, Option.none_or, ite_self]
  | some v =>
      by_cases hk : k = r.1
      · rw [if_pos hk, hk]
        exact (OrderedMap.get?_set_of_ne _ v hne).trans (OrderedMap.get?_delete_self d r.1)
      · rw [if_neg hk, Option.some_or]
        by_cases hk2 : k = r.2
        · rw [if_pos hk2, hk2]
          exact OrderedMap.get?_set_self _ _ v
        · rw [if_neg hk2]
          exact (OrderedMap.get?_set_of_ne _ v hk2).trans (OrderedMap.get?_delete_of_ne d hk)

/-- Renames with pairwise different fields do not see one another. -/
theorem get?_rename {rs : List (String × String)}
    (hnd : (rs.map Prod.fst ++ rs.map Prod.snd).Nodup) (d : Document) (k : String) :
    (rs.foldl renameField d).get? k
      = if k ∈ rs.map Prod.fst then none
        else match rs.find? fun r => r.2 = k with
          | some r => (d.get? r.1).or (d.get? k)
          | none   => d.get? k := by
  induction rs generalizing d with
  | nil => rfl
  | cons r rs ih =>
      rw [List.map_cons, List.map_cons, List.cons_append, List.nodup_cons, List.mem_append,
        List.mem_cons] at hnd
      obtain ⟨hfst, hrest⟩ := hnd
      have hmid := List.perm_middle.nodup_iff.mp hrest
      rw [List.nodup_cons, List.mem_append] at hmid
      obtain ⟨hsnd, htail⟩ := hmid
      have hne : r.1 ≠ r.2 := fun h => hfst (Or.inr (Or.inl h))
      rw [List.foldl_cons, ih htail, List.map_cons]
      by_cases hsrc : k ∈ rs.map Prod.fst
      · rw [if_pos hsrc, if_pos (List.mem_cons_of_mem _ hsrc)]
      · rw [if_neg hsrc]
        by_cases hk1 : k = r.1
        · -- the source of the first rename is gone and nothing else writes it
          rw [hk1, if_pos List.mem_cons_self]
          have hnone : (rs.find? fun r' => r'.2 = r.1) = none := by
            refine List.find?_eq_none.mpr ?_
            intro r' hr' h
            exact hfst (Or.inr (Or.inr (of_decide_eq_true h ▸ List.mem_map_of_mem hr')))
          rw [hnone]
          exact (get?_renameField hne d r.1).trans (if_pos rfl)
        · rw [if_neg (by simp [hk1, hsrc])]
          by_cases hk2 : k = r.2
          · rw [hk2, List.find?_cons_of_pos (by simp)]
            have hnone : (rs.find? fun r' => r'.2 = r.2) = none := by
              refine List.find?_eq_none.mpr ?_
              intro r' hr' h
              exact hsnd (Or.inr (of_decide_eq_true h ▸ List.mem_map_of_mem hr'))
            rw [hnone]
            dsimp only
            rw [get?_renameField hne, if_neg (Ne.symm hne), if_pos rfl]
          · have hother : (renameField d r).get? k = d.get? k := by
              rw [get?_renameField hne, if_neg hk1, if_neg hk2]
            rw [List.find?_cons_of_neg (by simpa using fun h => hk2 h.symm), hother]
            cases hf : rs.find? fun r' => r'.2 = k with
            | none => rfl
            | some r' =>
                have hmem := List.mem_of_find?_eq_some hf
                have h1 : r'.1 ≠ r.1 := fun h => hfst (Or.inl (h ▸ List.mem_map_of_mem hmem))
                have h2 : r'.1 ≠ r.2 := fun h => hsnd (Or.inl (h ▸ List.mem_map_of_mem hmem))
                dsimp only
                rw [get?_renameField hne, if_neg h1, if_neg h2]

theorem get?_others {os : List (String × (Option Value → Option Value))}
    (hnd : (os.map Prod.fst).Nodup) {d d' : Document} (h : os.foldlM changeField d = some d')
    (k : String) :
    d'.get? k = match os.find? fun o => o.1 = k with
      | some o => o.2 (d.get? k)
      | none   => d.get? k := by
  induction os generalizing d with
  | nil =>
      cases Option.some.inj h
      rfl
  | cons o os ih =>
      rw [List.map_cons, List.nodup_cons] at hnd
      rw [List.foldlM_cons] at h
      obtain ⟨m, hm, hrest⟩ := Option.bind_eq_some_iff.mp h
      obtain ⟨v, hv, hset⟩ := Option.map_eq_some_iff.mp hm
      rw [ih hnd.2 hrest, ← hset]
      by_cases hk : o.1 = k
      · have hnone : (os.find? fun o' => o'.1 = k) = none := by
          refine List.find?_eq_none.mpr ?_
          intro o' ho' h'
          exact hnd.1 (hk ▸ of_decide_eq_true h' ▸ List.mem_map_of_mem ho')
        rw [hnone, List.find?_cons_of_pos (by simpa using hk), ← hk]
        dsimp only
        rw [hv, OrderedMap.get?_set_self]
      · have hother : (d.set o.1 v).get? k = d.get? k :=
          OrderedMap.get?_set_of_ne d v (Ne.symm hk)
        rw [List.find?_cons_of_neg (by simpa using hk), hother]

theorem mem_of_assignments {u : UpdateDocument} {inserting : Bool} {k : String} {v : Value}
    (h : (u.assignments inserting).get? k = some v) :
    k ∈ (u.set.spread u.plain).entries.map Prod.fst ++ u.setOnInsert.entries.map Prod.fst := by
  have hkey : ∀ {m : Document}, m.get? k = some v → k ∈ m.entries.map Prod.fst := fun hm =>
    List.mem_map_of_mem (f := Prod.fst) (OrderedMap.get?_eq_some_iff.mp hm)
  unfold assignments at h
  cases inserting with
  | false => exact List.mem_append_left _ (hkey h)
  | true =>
      rw [if_pos rfl, OrderedMap.get?_spread] at h
      cases hs : u.setOnInsert.get? k with
      | none =>
          rw [hs, Option.none_or] at h
          exact List.mem_append_left _ (hkey h)
      | some w =>
          rw [hs, Option.some_or] at h
          exact List.mem_append_right _ (hkey (hs.trans h))

/-- No two operators name one field. -/
structure Separate (u : UpdateDocument) : Prop where
  assigned : ∀ inserting k v, (u.assignments inserting).get? k = some v →
    k ∉ u.unset ∧ k ∉ u.rename.map Prod.fst ∧ k ∉ u.rename.map Prod.snd
      ∧ k ∉ u.others.map Prod.fst
  unset : ∀ k ∈ u.unset, k ∉ u.rename.map Prod.fst ∧ k ∉ u.rename.map Prod.snd
    ∧ k ∉ u.others.map Prod.fst
  sources : ∀ k ∈ u.rename.map Prod.fst, k ∉ u.others.map Prod.fst
  targets : ∀ k ∈ u.rename.map Prod.snd, k ∉ u.others.map Prod.fst
  renames : (u.rename.map Prod.fst ++ u.rename.map Prod.snd).Nodup
  changes : (u.others.map Prod.fst).Nodup

theorem separate_of_nodup {u : UpdateDocument} (h : u.names.Nodup) : u.Separate := by
  unfold names at h
  obtain ⟨h1, hchanges, hothers⟩ := List.nodup_append.mp h
  have hpair := h1
  rw [List.append_assoc] at hpair
  obtain ⟨h2, _, htgt⟩ := List.nodup_append.mp h1
  obtain ⟨h3, _, hsrc⟩ := List.nodup_append.mp h2
  obtain ⟨_, _, hunset⟩ := List.nodup_append.mp h3
  refine ⟨?_, ?_, ?_, ?_, (List.nodup_append.mp hpair).2.1, hchanges⟩
  · intro inserting k v hv
    have hk := mem_of_assignments hv
    refine ⟨fun hm => hunset k hk k hm rfl, fun hm => ?_, fun hm => ?_, fun hm => ?_⟩
    · exact hsrc k (List.mem_append_left _ hk) k hm rfl
    · exact htgt k (List.mem_append_left _ (List.mem_append_left _ hk)) k hm rfl
    · exact hothers k (List.mem_append_left _ (List.mem_append_left _
        (List.mem_append_left _ hk))) k hm rfl
  · intro k hk
    refine ⟨fun hm => ?_, fun hm => ?_, fun hm => ?_⟩
    · exact hsrc k (List.mem_append_right _ hk) k hm rfl
    · exact htgt k (List.mem_append_left _ (List.mem_append_right _ hk)) k hm rfl
    · exact hothers k (List.mem_append_left _ (List.mem_append_left _
        (List.mem_append_right _ hk))) k hm rfl
  · intro k hk hm
    exact hothers k (List.mem_append_left _ (List.mem_append_right _ hk)) k hm rfl
  · intro k hk hm
    exact hothers k (List.mem_append_right _ hk) k hm rfl

theorem find?_fst_eq_none {α : Type} {l : List (String × α)} {k : String}
    (h : k ∉ l.map Prod.fst) : (l.find? fun e => e.1 = k) = none := by
  refine List.find?_eq_none.mpr ?_
  intro e he hk
  exact h (of_decide_eq_true hk ▸ List.mem_map_of_mem he)

theorem find?_snd_eq_none {α : Type} {l : List (α × String)} {k : String}
    (h : k ∉ l.map Prod.snd) : (l.find? fun e => e.2 = k) = none := by
  refine List.find?_eq_none.mpr ?_
  intro e he hk
  exact h (of_decide_eq_true hk ▸ List.mem_map_of_mem he)

/-- **An update acts field by field.** -/
theorem get?_apply {u : UpdateDocument} {inserting : Bool} {d d' : Document}
    (h : u.apply inserting d = some d') (k : String) :
    d'.get? k = u.fieldAfter inserting d k := by
  unfold apply at h
  by_cases hnd : u.names.Nodup
  · rw [if_pos hnd] at h
    have hsep := separate_of_nodup hnd
    rw [get?_others hsep.changes h, get?_rename hsep.renames, get?_unset,
      OrderedMap.get?_spread]
    unfold fieldAfter
    cases hA : (u.assignments inserting).get? k with
    | some v =>
        obtain ⟨h1, h2, h3, h4⟩ := hsep.assigned inserting k v hA
        rw [find?_fst_eq_none h4, if_neg h2, find?_snd_eq_none h3, if_neg h1]
        rfl
    | none =>
        dsimp only
        by_cases hun : k ∈ u.unset
        · obtain ⟨h2, h3, h4⟩ := hsep.unset k hun
          rw [find?_fst_eq_none h4, if_neg h2, find?_snd_eq_none h3, if_pos hun,
            if_pos (Or.inl hun)]
        · by_cases hsrc : k ∈ u.rename.map Prod.fst
          · rw [find?_fst_eq_none (hsep.sources k hsrc), if_pos hsrc, if_pos (Or.inr hsrc)]
          · rw [if_neg hsrc, if_neg hun, if_neg (by simp [hun, hsrc]), Option.none_or]
            cases hr : u.rename.find? fun r => r.2 = k with
            | none => rfl
            | some r =>
                have hmem := List.mem_of_find?_eq_some hr
                have htgt : k ∈ u.rename.map Prod.snd := by
                  have hk : r.2 = k := by simpa using List.find?_some hr
                  rw [← hk]
                  exact List.mem_map_of_mem hmem
                have hrsrc := List.mem_map_of_mem (f := Prod.fst) hmem
                -- the source of the rename is named by no other operator
                have hA1 : (u.assignments inserting).get? r.1 = none := by
                  cases hv : (u.assignments inserting).get? r.1 with
                  | none => rfl
                  | some v => exact absurd hrsrc (hsep.assigned inserting r.1 v hv).2.1
                have hun1 : r.1 ∉ u.unset := fun hm => (hsep.unset r.1 hm).1 hrsrc
                rw [find?_fst_eq_none (hsep.targets k htgt)]
                dsimp only
                rw [get?_unset, if_neg hun1, OrderedMap.get?_spread, hA1, Option.none_or]
  · rw [if_neg hnd] at h
    cases h

/-! ### One operator, one effect -/

section Effects

variable {u : UpdateDocument} {inserting : Bool} {d : Document} {k : String}

theorem Separate.not_assigned (h : u.Separate)
    (hk : k ∈ u.unset ∨ k ∈ u.rename.map Prod.fst ∨ k ∈ u.rename.map Prod.snd
      ∨ k ∈ u.others.map Prod.fst) : (u.assignments inserting).get? k = none := by
  cases hv : (u.assignments inserting).get? k with
  | none => rfl
  | some v =>
      obtain ⟨h1, h2, h3, h4⟩ := h.assigned inserting k v hv
      rcases hk with hk | hk | hk | hk
      · exact absurd hk h1
      · exact absurd hk h2
      · exact absurd hk h3
      · exact absurd hk h4

theorem fieldAfter_assigned {v : Value} (h : (u.assignments inserting).get? k = some v) :
    u.fieldAfter inserting d k = some v := by
  rw [fieldAfter, h]

theorem fieldAfter_removed (h : u.Separate) (hk : k ∈ u.unset ∨ k ∈ u.rename.map Prod.fst) :
    u.fieldAfter inserting d k = none := by
  unfold fieldAfter
  rw [h.not_assigned (hk.imp_right Or.inl)]
  exact if_pos hk

theorem fieldAfter_renamed (h : u.Separate) {r : String × String} (hr : r ∈ u.rename) :
    u.fieldAfter inserting d r.2 = (d.get? r.1).or (d.get? r.2) := by
  have htgt := List.mem_map_of_mem (f := Prod.snd) hr
  obtain ⟨_, hsnd, hdisj⟩ := List.nodup_append.mp h.renames
  have hgone : ¬ (r.2 ∈ u.unset ∨ r.2 ∈ u.rename.map Prod.fst) := by
    rintro (hun | hsrc)
    · exact (h.unset _ hun).2.1 htgt
    · exact hdisj _ hsrc _ htgt rfl
  have hfind : (u.rename.find? fun r' => r'.2 = r.2) = some r := by
    cases hf : u.rename.find? fun r' => r'.2 = r.2 with
    | none => exact absurd (decide_eq_true rfl) (List.find?_eq_none.mp hf r hr)
    | some r' =>
        have hr' : r'.2 = r.2 := by simpa using List.find?_some hf
        rw [List.inj_on_of_nodup_map hsnd (List.mem_of_find?_eq_some hf) hr hr']
  unfold fieldAfter
  rw [h.not_assigned (Or.inr (Or.inr (Or.inl htgt))), hfind]
  exact if_neg hgone

theorem fieldAfter_changed (h : u.Separate) {o : String × (Option Value → Option Value)}
    (ho : o ∈ u.others) : u.fieldAfter inserting d o.1 = o.2 (d.get? o.1) := by
  have hkey := List.mem_map_of_mem (f := Prod.fst) ho
  have hgone : ¬ (o.1 ∈ u.unset ∨ o.1 ∈ u.rename.map Prod.fst) := by
    rintro (hun | hsrc)
    · exact (h.unset _ hun).2.2 hkey
    · exact h.sources _ hsrc hkey
  have hfind : (u.others.find? fun o' => o'.1 = o.1) = some o := by
    cases hf : u.others.find? fun o' => o'.1 = o.1 with
    | none => exact absurd (decide_eq_true rfl) (List.find?_eq_none.mp hf o ho)
    | some o' =>
        have ho' : o'.1 = o.1 := by simpa using List.find?_some hf
        rw [List.inj_on_of_nodup_map h.changes (List.mem_of_find?_eq_some hf) ho ho']
  unfold fieldAfter
  rw [h.not_assigned (Or.inr (Or.inr (Or.inr hkey))),
    find?_snd_eq_none fun htgt => h.targets _ htgt hkey, hfind]
  exact if_neg hgone

/-- A field no operator names is as before. -/
theorem fieldAfter_unnamed (hA : (u.assignments inserting).get? k = none)
    (hgone : ¬ (k ∈ u.unset ∨ k ∈ u.rename.map Prod.fst)) (hr : k ∉ u.rename.map Prod.snd)
    (ho : k ∉ u.others.map Prod.fst) : u.fieldAfter inserting d k = d.get? k := by
  unfold fieldAfter
  rw [hA, find?_snd_eq_none hr, find?_fst_eq_none ho]
  exact if_neg hgone

end Effects

end UpdateDocument

/-- An update: operators, or a pipeline that computes the new document. -/
inductive Update where
  | operators (u : UpdateDocument)
  | pipeline (f : Document → Option Document)

def Update.apply (inserting : Bool) (d : Document) : Update → Option Document
  | operators u => u.apply inserting d
  | pipeline f  => f d

/-! ## Writes -/

/-- The rows by their keys. -/
abbrev Collection := OrderedMap String Document

/-- What is done to the rows a filter selects.  `sort` orders the rows a
    single-row change chooses from; `upsert` is the key of the row that is made
    where none is selected. -/
inductive Change where
  | updateOne (sort : Document → Document → Bool) (u : Update) (upsert : Option String)
  | updateMany (u : Update) (upsert : Option String)
  | replaceOne (sort : Document → Document → Bool) (d : Document) (upsert : Option String)
  | deleteOne (sort : Document → Document → Bool)
  | deleteMany

/-- One write. -/
inductive Write where
  | insertOne (id : String) (d : Document)
  | query (filter : FilterQuery) (change : Change)

namespace Collection

/-- The rows a filter selects. -/
def selected (c : Collection) (filter : FilterQuery) : List (String × Document) :=
  c.entries.filter fun e => filter.accepts e.1 e.2

/-- The row a single-row write takes. -/
def chosen (c : Collection) (filter : FilterQuery) (sort : Document → Document → Bool) :
    Option (String × Document) :=
  ((c.selected filter).insertionSort fun a b => sort a.2 b.2 = true).head?

/-- Insert a row, unless its key is taken. -/
def insert (c : Collection) (id : String) (d : Document) : Collection × Bool :=
  match c.get? id with
  | some _ => (c, false)
  | none   => (c.set id d, true)

/-- The row an upsert starts from: the equalities of the filter. -/
def seed (filter : FilterQuery) : Option Document :=
  let es := (filter.entries.flatMap fun e => e.2.equalities e.1).filter fun e => e.1 ≠ "_id"
  if h : (es.map Prod.fst).Nodup then some ⟨es, h⟩ else none

/-- Update rows one after the other, up to the first that fails. -/
def updateRows (u : Update) : List (String × Document) → Collection → Collection × Bool
  | [],           c => (c, true)
  | (id, d) :: es, c => match u.apply false d with
      | some d' => updateRows u es (c.set id d')
      | none    => (c, false)

/-- Upsert a row, where an upsert is asked for. -/
def upsertRow (c : Collection) (upsert : Option String) (made : Option Document) :
    Collection × Bool :=
  match upsert, made with
  | some id, some d => c.insert id d
  | some _,  none   => (c, false)
  | none,    _      => (c, true)

/-- Update the rows, or upsert one where there are none. -/
def updateOrUpsert (c : Collection) (filter : FilterQuery) (u : Update)
    (upsert : Option String) : List (String × Document) → Collection × Bool
  | []      => c.upsertRow upsert ((seed filter).bind fun s => u.apply true s)
  | e :: es => updateRows u (e :: es) c

/-- Change the selected rows; the flag says whether the change succeeded. -/
def execChange (c : Collection) (filter : FilterQuery) : Change → Collection × Bool
  | .updateOne sort u upsert =>
      c.updateOrUpsert filter u upsert (c.chosen filter sort).toList
  | .updateMany u upsert => c.updateOrUpsert filter u upsert (c.selected filter)
  | .replaceOne sort d upsert => match c.chosen filter sort with
      | some e => (c.set e.1 d, true)
      | none   => c.upsertRow upsert (some d)
  | .deleteOne sort => match c.chosen filter sort with
      | some e => (c.delete e.1, true)
      | none   => (c, true)
  | .deleteMany =>
      (c.filterKeys fun id => !(c.selected filter).any fun e => e.1 = id, true)

/-- Carry out a write. -/
def exec (c : Collection) : Write → Collection × Bool
  | .insertOne id d       => c.insert id d
  | .query filter change => c.execChange filter change

/-- Carry out a list of writes; an ordered one stops at the first failure. -/
def execAll (ordered : Bool) : List Write → Collection → Collection
  | [],      c => c
  | w :: ws, c =>
      if ordered && !(c.exec w).2 then (c.exec w).1 else execAll ordered ws (c.exec w).1

/-! ### Which rows a write can reach -/

theorem mem_selected {c : Collection} {filter : FilterQuery} {e : String × Document} :
    e ∈ c.selected filter ↔ c.get? e.1 = some e.2 ∧ filter.accepts e.1 e.2 = true := by
  rw [selected, List.mem_filter, OrderedMap.get?_eq_some_iff]

theorem chosen_mem {c : Collection} {filter : FilterQuery} {sort : Document → Document → Bool}
    {e : String × Document} (h : c.chosen filter sort = some e) : e ∈ c.selected filter :=
  (List.mem_insertionSort _).mp (List.mem_of_head? h)

/-- An insert adds its row or nothing. -/
theorem get?_insert (c : Collection) (id : String) (d : Document) (k : String) :
    (c.insert id d).1.get? k
      = if k = id ∧ c.get? id = none then some d else c.get? k := by
  unfold insert
  cases hid : c.get? id with
  | some row => simp
  | none =>
      by_cases hk : k = id
      · rw [hk, if_pos ⟨rfl, rfl⟩]
        exact OrderedMap.get?_set_self c id d
      · rw [if_neg (fun h => hk h.1)]
        exact OrderedMap.get?_set_of_ne c d hk

/-- An upsert adds the row it makes or nothing. -/
theorem get?_upsertRow_of_some {c : Collection} {upsert : Option String}
    {made : Option Document} {k : String} {d : Document} (h : c.get? k = some d) :
    (c.upsertRow upsert made).1.get? k = some d := by
  unfold upsertRow
  split
  · rw [get?_insert, if_neg]
    · exact h
    · rintro ⟨rfl, hnone⟩
      rw [h] at hnone
      cases hnone
  · exact h
  · exact h

theorem get?_upsertRow_new {c : Collection} {id : String} {d : Document}
    (h : c.get? id = none) : (c.upsertRow (some id) (some d)).1.get? id = some d := by
  rw [upsertRow, get?_insert, if_pos ⟨rfl, h⟩]

theorem get?_upsertRow {c : Collection} {upsert : Option String} {made : Option Document}
    {k : String} {d : Document} (h : (c.upsertRow upsert made).1.get? k = some d) :
    c.get? k = some d ∨ (upsert = some k ∧ made = some d ∧ c.get? k = none) := by
  unfold upsertRow at h
  split at h
  · next id m =>
      rw [get?_insert] at h
      by_cases hk : k = id ∧ c.get? id = none
      · rw [if_pos hk] at h
        exact Or.inr ⟨by rw [hk.1], h, hk.1 ▸ hk.2⟩
      · rw [if_neg hk] at h
        exact Or.inl h
  · exact Or.inl h
  · exact Or.inl h

/-- Rows whose keys are not listed are not updated. -/
theorem get?_updateRows_of_notMem (u : Update) {es : List (String × Document)} (c : Collection)
    {k : String} (hk : k ∉ es.map Prod.fst) : (updateRows u es c).1.get? k = c.get? k := by
  induction es generalizing c with
  | nil => rfl
  | cons e es ih =>
      obtain ⟨id, d⟩ := e
      rw [List.map_cons, List.mem_cons, not_or] at hk
      unfold updateRows
      cases u.apply false d with
      | none => rfl
      | some d' => exact (ih _ hk.2).trans (OrderedMap.get?_set_of_ne c d' hk.1)

/-- The rows that are updated before one fails. -/
def updated (u : Update) (es : List (String × Document)) : List (String × Document) :=
  es.takeWhile fun e => (u.apply false e.2).isSome

/-- Each updated row gets its new document, every other row stays. -/
theorem get?_updateRows (u : Update) {es : List (String × Document)}
    (hnd : (es.map Prod.fst).Nodup) (c : Collection) (k : String) :
    (updateRows u es c).1.get? k = match (updated u es).find? fun e => e.1 = k with
      | some e => u.apply false e.2
      | none   => c.get? k := by
  induction es generalizing c with
  | nil => rfl
  | cons e es ih =>
      obtain ⟨id, d⟩ := e
      rw [List.map_cons, List.nodup_cons] at hnd
      unfold updateRows updated
      cases hd : u.apply false d with
      | none => simp [hd]
      | some d' =>
          dsimp only
          rw [ih hnd.2, List.takeWhile_cons_of_pos (by simp [hd])]
          by_cases hk : id = k
          · have hnone : ((updated u es).find? fun e => e.1 = k) = none := by
              refine List.find?_eq_none.mpr ?_
              intro e he h
              have hmem := List.mem_map_of_mem (f := Prod.fst)
                  ((List.takeWhile_sublist _).subset he)
              rw [of_decide_eq_true h, ← hk] at hmem
              exact hnd.1 hmem
            rw [hnone, List.find?_cons_of_pos (by simpa using hk), ← hk]
            dsimp only
            rw [OrderedMap.get?_set_self, hd]
          · rw [List.find?_cons_of_neg (by simpa using hk),
              OrderedMap.get?_set_of_ne c d' (Ne.symm hk)]
            rfl

/-- A change leaves every row alone that its filter does not select. -/
theorem get?_execChange_of_unselected {c : Collection} {filter : FilterQuery} (change : Change)
    {k : String} {d : Document} (h : c.get? k = some d)
    (hk : ∀ e ∈ c.selected filter, e.1 ≠ k) :
    (c.execChange filter change).1.get? k = some d := by
  have hrows : ∀ {es : List (String × Document)} (u : Update) (upsert : Option String),
      (∀ e ∈ es, e ∈ c.selected filter) →
      (c.updateOrUpsert filter u upsert es).1.get? k = some d := by
    intro es u upsert hsub
    cases es with
    | nil => exact get?_upsertRow_of_some h
    | cons e es =>
        refine (get?_updateRows_of_notMem u c ?_).trans h
        intro hm
        obtain ⟨e', he', hek⟩ := List.mem_map.mp hm
        exact hk e' (hsub e' he') hek
  have hchosen : ∀ {sort : Document → Document → Bool} {e : String × Document},
      c.chosen filter sort = some e → e.1 ≠ k := fun he => hk _ (chosen_mem he)
  cases change with
  | updateOne sort u upsert =>
      refine hrows u upsert ?_
      intro e he
      exact chosen_mem (Option.mem_toList.mp he)
  | updateMany u upsert => exact hrows u upsert fun e he => he
  | replaceOne sort d' upsert =>
      rw [execChange]
      cases he : c.chosen filter sort with
      | none => exact get?_upsertRow_of_some h
      | some e => exact (OrderedMap.get?_set_of_ne c d' (Ne.symm (hchosen he))).trans h
  | deleteOne sort =>
      rw [execChange]
      cases he : c.chosen filter sort with
      | none => exact h
      | some e => exact (OrderedMap.get?_delete_of_ne c (Ne.symm (hchosen he))).trans h
  | deleteMany =>
      refine (OrderedMap.get?_filterKeys _ c k).trans ?_
      rw [if_pos]
      · exact h
      · simpa using fun e he => hk e he

/-- An upserted row carries the equalities of its filter. -/
theorem get?_seed {filter : FilterQuery} {s : Document} (h : seed filter = some s) {k : String}
    {v : Value} (hk : k ≠ "_id") (hv : filter.get? k = some (.eq v)) : s.get? k = some v := by
  unfold seed at h
  dsimp only at h
  split at h
  · rw [← Option.some.inj h]
    refine OrderedMap.get?_eq_some_iff.mpr (List.mem_filter.mpr ⟨?_, by simpa using hk⟩)
    exact List.mem_flatMap.mpr ⟨(k, .eq v), OrderedMap.get?_eq_some_iff.mp hv,
      List.mem_singleton_self _⟩
  · cases h

theorem selected_nodup (c : Collection) (filter : FilterQuery) :
    ((c.selected filter).map Prod.fst).Nodup :=
  (List.filter_sublist.map Prod.fst).nodup c.nodup

theorem chosen_nodup (c : Collection) (filter : FilterQuery)
    (sort : Document → Document → Bool) :
    ((c.chosen filter sort).toList.map Prod.fst).Nodup := by
  cases c.chosen filter sort <;> simp

end Collection

end Mongo
