import NestServer.TenantPlugin

/-! # Tenant write isolation

    Does a hooked write of tenant `T` stay within tenant `T`?  A row owned by no
    one else is out of reach of every filtered write (`Untouched`), so what is
    left to ask is whether the rows a write leaves behind are `T`'s own
    (`Carried`).  The hooks answer that for inserts and deletions.  They do not
    for every update: `Keeps` collects, write by write, what the hook leaves
    unchecked, and `perform_isolated_iff` says that is all. -/

open Mongo

namespace TenantPlugin

/-! ## Ownership -/

/-- The row is found by `{ tenantId: T }`. -/
def Owns (T : String) (d : Document) : Prop :=
  (Value.str T).matchedBy (d.get? "tenantId") = true

instance (T : String) (d : Document) : Decidable (Owns T d) :=
  inferInstanceAs (Decidable (_ = true))

/-- The row belongs to another tenant. -/
def Foreign (T : String) (d : Document) : Prop :=
  ∃ v, d.get? "tenantId" = some v ∧ v ≠ .null ∧ ¬ Owns T d

/-- The rows of other tenants are as before, and every row that was inserted or
    modified carries the tenant's id. -/
structure Isolated (T : String) (before after : Collection) : Prop where
  unchanged : ∀ id d, before.get? id = some d → Foreign T d → after.get? id = some d
  carried   : ∀ id d, after.get? id = some d → before.get? id = some d ∨ Owns T d

/-- Rows the tenant does not own are as before. -/
def Untouched (T : String) (before after : Collection) : Prop :=
  ∀ id d, before.get? id = some d → ¬ Owns T d → after.get? id = some d

/-- Every new row is the tenant's. -/
def Carried (T : String) (before after : Collection) : Prop :=
  ∀ id d, after.get? id = some d → before.get? id = some d ∨ Owns T d

section Ownership

variable {T : String}

theorem owns_stamp (d : Document) : Owns T (stamp d T) := by
  unfold Owns stamp
  rw [OrderedMap.get?_set_self]
  simp [Value.matchedBy]

theorem owns_of_get? {d : Document} (h : d.get? "tenantId" = some (.str T)) : Owns T d := by
  unfold Owns
  rw [h]
  simp [Value.matchedBy]

/-- A row found under the tenant's filter is the tenant's. -/
theorem owns_of_accepts {f : FilterQuery} {id : String} {d : Document}
    (hf : f.get? "tenantId" = some (.eq (.str T))) (h : f.accepts id d = true) : Owns T d :=
  FilterQuery.holds_of_accepts hf h

theorem spread_byTenant (f : FilterQuery) :
    (f.spread (byTenant T)).get? "tenantId" = some (.eq (.str T)) := by
  rw [OrderedMap.get?_spread, byTenant, OrderedMap.get?_set_self, Option.some_or]

theorem isolated_of_untouched {c c' : Collection} (h : Untouched T c c') :
    Isolated T c c' ↔ Carried T c c' := by
  constructor
  · exact fun hi => hi.carried
  · intro hc
    refine ⟨?_, hc⟩
    intro id d hd hforeign
    obtain ⟨_, _, _, hnot⟩ := hforeign
    exact h id d hd hnot

theorem untouched_trans {c c' c'' : Collection} (h : Untouched T c c')
    (h' : Untouched T c' c'') : Untouched T c c'' :=
  fun id d hd hnot => h' id d (h id d hd hnot) hnot

/-- Rows that escaped the tenant stay escaped, so a list of writes is judged
    write by write. -/
theorem carried_trans_iff {c c' c'' : Collection} (h : Untouched T c c')
    (h' : Untouched T c' c'') : Carried T c c'' ↔ Carried T c c' ∧ Carried T c' c'' := by
  constructor
  · intro hc
    constructor
    · intro id d hd
      by_cases hown : Owns T d
      · exact Or.inr hown
      · exact hc id d (h' id d hd hown)
    · intro id d hd
      rcases hc id d hd with hold | hown
      · by_cases hown : Owns T d
        · exact Or.inr hown
        · exact Or.inl (h id d hold hown)
      · exact Or.inr hown
  · rintro ⟨h1, h2⟩ id d hd
    rcases h2 id d hd with hmid | hown
    · exact h1 id d hmid
    · exact Or.inr hown

end Ownership

/-! ## What an update must not do -/

/-- The operators of an update leave an owned document owned: a value assigned
    to `tenantId` is the own one, nothing removes the field or renames it away,
    what is renamed into it or computed for it is the own id. -/
structure OperatorsKeep (T : String) (u : UpdateDocument) (inserting : Bool) (d : Document) :
    Prop where
  assigned : ∀ v, (u.assignments inserting).get? "tenantId" = some v →
    (Value.str T).matchedBy (some v) = true
  unset    : "tenantId" ∉ u.unset
  renamed  : "tenantId" ∉ u.rename.map Prod.fst
  into     : ∀ r ∈ u.rename, r.2 = "tenantId" → ∀ v, d.get? r.1 = some v →
    (Value.str T).matchedBy (some v) = true
  changed  : ∀ o ∈ u.others, o.1 = "tenantId" →
    (Value.str T).matchedBy (o.2 (d.get? "tenantId")) = true

/-- The update, where it succeeds on an owned document, keeps it owned. -/
def UpdateKeeps (T : String) (inserting : Bool) (d : Document) : Update → Prop
  | .operators u => (u.apply inserting d).isSome = true → OperatorsKeep T u inserting d
  | .pipeline f  => ∀ d', f d = some d' → Owns T d'

section Updates

variable {T : String}

theorem nodup_of_apply {u : UpdateDocument} {inserting : Bool} {d d' : Document}
    (h : u.apply inserting d = some d') : u.names.Nodup := by
  unfold UpdateDocument.apply at h
  by_cases hnd : u.names.Nodup
  · exact hnd
  · rw [if_neg hnd] at h
    cases h

/-- The document an operator update makes is owned exactly when the operators
    keep it. -/
theorem owns_apply_iff {u : UpdateDocument} {inserting : Bool} {d d' : Document}
    (hd : Owns T d) (h : u.apply inserting d = some d') :
    Owns T d' ↔ OperatorsKeep T u inserting d := by
  have hsep := UpdateDocument.separate_of_nodup (nodup_of_apply h)
  have hafter := UpdateDocument.get?_apply h "tenantId"
  unfold Owns at hd ⊢
  rw [hafter]
  constructor
  · intro hown
    refine ⟨?_, ?_, ?_, ?_, ?_⟩
    · intro v hv
      rw [UpdateDocument.fieldAfter_assigned hv] at hown
      exact hown
    · intro hun
      rw [UpdateDocument.fieldAfter_removed hsep (Or.inl hun)] at hown
      cases hown
    · intro hsrc
      rw [UpdateDocument.fieldAfter_removed hsep (Or.inr hsrc)] at hown
      cases hown
    · intro r hr hr2 v hv
      rw [← hr2, UpdateDocument.fieldAfter_renamed hsep hr, hv, Option.some_or] at hown
      exact hown
    · intro o ho ho1
      rw [← ho1, UpdateDocument.fieldAfter_changed hsep ho] at hown
      rw [← ho1]
      exact hown
  · intro hk
    -- which operator names the field?
    cases hA : (u.assignments inserting).get? "tenantId" with
    | some v =>
        rw [UpdateDocument.fieldAfter_assigned hA]
        exact hk.assigned v hA
    | none =>
        by_cases htgt : "tenantId" ∈ u.rename.map Prod.snd
        · obtain ⟨r, hr, hr2⟩ := List.mem_map.mp htgt
          rw [← hr2, UpdateDocument.fieldAfter_renamed hsep hr]
          cases hv : d.get? r.1 with
          | none =>
              rw [Option.none_or, hr2]
              exact hd
          | some v => exact hk.into r hr hr2 v hv
        · by_cases hch : "tenantId" ∈ u.others.map Prod.fst
          · obtain ⟨o, ho, ho1⟩ := List.mem_map.mp hch
            rw [← ho1, UpdateDocument.fieldAfter_changed hsep ho, ho1]
            exact hk.changed o ho ho1
          · rw [UpdateDocument.fieldAfter_unnamed hA (not_or.mpr ⟨hk.unset, hk.renamed⟩) htgt hch]
            exact hd

/-- **What the hooks leave to the caller, for one row.** An update that succeeds
    on an owned document leaves it owned exactly when it keeps it. -/
theorem owns_iff_updateKeeps {u : Update} {inserting : Bool} {d d' : Document}
    (hd : Owns T d) (h : u.apply inserting d = some d') :
    Owns T d' ↔ UpdateKeeps T inserting d u := by
  cases u with
  | operators u =>
      have happly : u.apply inserting d = some d' := h
      rw [owns_apply_iff hd happly]
      constructor
      · exact fun hk _ => hk
      · intro hk
        exact hk (by rw [happly]; rfl)
  | pipeline f =>
      have happly : f d = some d' := h
      constructor
      · intro hown d'' hd''
        rw [happly] at hd''
        exact Option.some.inj hd'' ▸ hown
      · intro hk
        exact hk d' happly

end Updates

/-! ## What a write must not do -/

/-- The row an upsert would make: it starts from the filter's equalities. -/
def UpsertKeeps (T : String) (c : Collection) (filter : FilterQuery) (u : Update)
    (upsert : Option String) : Prop :=
  ∀ id s, upsert = some id → c.get? id = none → Collection.seed filter = some s →
    UpdateKeeps T true s u

/-- The rows an update reaches, or the one it upserts. -/
def RowsKeep (T : String) (c : Collection) (filter : FilterQuery) (u : Update)
    (upsert : Option String) (rows : List (String × Document)) : Prop :=
  (rows = [] → UpsertKeeps T c filter u upsert)
    ∧ ∀ e ∈ Collection.updated u rows, UpdateKeeps T false e.2 u

/-- The condition on a change under a filter of the tenant's: its updates keep
    every row they reach, and a replacement, where one happens, names the
    tenant. -/
def ChangeKeeps (T : String) (c : Collection) (filter : FilterQuery) : Change → Prop
  | .updateOne sort u upsert => RowsKeep T c filter u upsert (c.chosen filter sort).toList
  | .updateMany u upsert => RowsKeep T c filter u upsert (c.selected filter)
  | .replaceOne sort d upsert =>
      (c.chosen filter sort ≠ none ∨ ∃ id, upsert = some id ∧ c.get? id = none) → Owns T d
  | .deleteOne _ | .deleteMany => True

/-- The condition on a write: a change keeps its rows, an insert that happens
    names the tenant. -/
def WriteKeeps (T : String) (c : Collection) : Write → Prop
  | .insertOne id d => c.get? id = none → Owns T d
  | .query filter change => ChangeKeeps T c filter change

/-- The condition on a list of writes, each in the collection it finds. -/
def AllKeep (T : String) (ordered : Bool) : List Write → Collection → Prop
  | [],      _ => True
  | w :: ws, c => WriteKeeps T c w
      ∧ ((ordered && !(c.exec w).2) = false → AllKeep T ordered ws (c.exec w).1)

/-- The filter of the write is the tenant's. -/
def Guarded (T : String) : Write → Prop
  | .insertOne _ _  => True
  | .query filter _ => filter.get? "tenantId" = some (.eq (.str T))

section Writes

variable {T : String} {c : Collection} {filter : FilterQuery}

/-- Every write under the tenant's filter leaves the rows of others alone. -/
theorem untouched_exec {w : Write} (hg : Guarded T w) : Untouched T c (c.exec w).1 := by
  intro id d hd hnot
  cases w with
  | insertOne newId newDoc =>
      refine (Collection.get?_insert c newId newDoc id).trans ?_
      rw [if_neg]
      · exact hd
      · rintro ⟨rfl, hnone⟩
        rw [hd] at hnone
        cases hnone
  | query filter change =>
      refine Collection.get?_execChange_of_unselected change hd ?_
      intro e he hid
      obtain ⟨hrow, hacc⟩ := Collection.mem_selected.mp he
      rw [hid, hd] at hrow
      exact hnot (Option.some.inj hrow ▸ owns_of_accepts hg hacc)

/-- Updating owned rows carries the tenant exactly when each reached row is
    kept. -/
theorem carried_updateRows_iff {u : Update} {rows : List (String × Document)}
    (hnd : (rows.map Prod.fst).Nodup) (hrows : ∀ e ∈ rows, c.get? e.1 = some e.2 ∧ Owns T e.2) :
    Carried T c (Collection.updateRows u rows c).1
      ↔ ∀ e ∈ Collection.updated u rows, UpdateKeeps T false e.2 u := by
  have hafter := Collection.get?_updateRows u hnd c
  have hsub : ∀ e ∈ Collection.updated u rows, e ∈ rows := fun e he =>
    (List.takeWhile_sublist _).subset he
  constructor
  · intro hc e he
    obtain ⟨d', hd'⟩ := Option.isSome_iff_exists.mp (List.all_eq_true.mp List.all_takeWhile e he)
    have hfind : ((Collection.updated u rows).find? fun e' => e'.1 = e.1) = some e := by
      cases hf : (Collection.updated u rows).find? fun e' => e'.1 = e.1 with
      | none => exact absurd (decide_eq_true rfl) (List.find?_eq_none.mp hf e he)
      | some e' =>
          have he' : e'.1 = e.1 := by simpa using List.find?_some hf
          rw [List.inj_on_of_nodup_map hnd (hsub e' (List.mem_of_find?_eq_some hf))
            (hsub e he) he']
    have hnew : (Collection.updateRows u rows c).1.get? e.1 = some d' := by
      rw [hafter, hfind]
      exact hd'
    obtain ⟨hrow, hown⟩ := hrows e (hsub e he)
    refine (owns_iff_updateKeeps hown hd').mp ?_
    rcases hc e.1 d' hnew with hold | hown'
    · rw [hrow] at hold
      exact Option.some.inj hold ▸ hown
    · exact hown'
  · intro hk id d hd
    rw [hafter] at hd
    cases hf : (Collection.updated u rows).find? fun e => e.1 = id with
    | none =>
        rw [hf] at hd
        exact Or.inl hd
    | some e =>
        rw [hf] at hd
        have he := List.mem_of_find?_eq_some hf
        exact Or.inr ((owns_iff_updateKeeps (hrows e (hsub e he)).2 hd).mpr (hk e he))

/-- An upsert carries the tenant exactly when the row it makes is owned. -/
theorem carried_upsertRow_iff (upsert : Option String) (made : Option Document) :
    Carried T c (c.upsertRow upsert made).1
      ↔ ∀ id d, upsert = some id → c.get? id = none → made = some d → Owns T d := by
  constructor
  · intro hc id d hu hid hm
    rw [hu, hm] at hc
    rcases hc id d (Collection.get?_upsertRow_new hid) with hold | hown
    · rw [hid] at hold
      cases hold
    · exact hown
  · intro h id d hd
    rcases Collection.get?_upsertRow hd with hold | ⟨hu, hm, hid⟩
    · exact Or.inl hold
    · exact Or.inr (h id d hu hid hm)

theorem carried_updateOrUpsert_iff {u : Update} {upsert : Option String}
    {rows : List (String × Document)} (hg : filter.get? "tenantId" = some (.eq (.str T)))
    (hnd : (rows.map Prod.fst).Nodup) (hrows : ∀ e ∈ rows, e ∈ c.selected filter) :
    Carried T c (c.updateOrUpsert filter u upsert rows).1
      ↔ RowsKeep T c filter u upsert rows := by
  unfold RowsKeep
  cases rows with
  | nil =>
      rw [Collection.updateOrUpsert, carried_upsertRow_iff]
      have hseed : ∀ s, Collection.seed filter = some s → Owns T s := fun s hs =>
        owns_of_get? (Collection.get?_seed hs (by decide) hg)
      constructor
      · intro h
        refine ⟨?_, fun e he => by cases he⟩
        intro _ id s hu hid hs
        cases happly : u.apply true s with
        | none =>
            -- an update that fails keeps everything
            cases u with
            | operators u =>
                intro hsome
                have hnone : u.apply true s = none := happly
                rw [hnone] at hsome
                cases hsome
            | pipeline f =>
                intro d' hd'
                have hnone : f s = none := happly
                rw [hnone] at hd'
                cases hd'
        | some d' =>
            refine (owns_iff_updateKeeps (hseed s hs) happly).mp ?_
            exact h id d' hu hid (by rw [hs]; exact happly)
      · rintro ⟨h, _⟩ id d hu hid hm
        obtain ⟨s, hs, happly⟩ := Option.bind_eq_some_iff.mp hm
        exact (owns_iff_updateKeeps (hseed s hs) happly).mpr (h rfl id s hu hid hs)
  | cons e es =>
      rw [Collection.updateOrUpsert, carried_updateRows_iff hnd]
      · exact (and_iff_right fun h => by cases h).symm
      · intro e' he'
        obtain ⟨hrow, hacc⟩ := Collection.mem_selected.mp (hrows e' he')
        exact ⟨hrow, owns_of_accepts hg hacc⟩

theorem carried_execChange_iff {change : Change}
    (hg : filter.get? "tenantId" = some (.eq (.str T))) :
    Carried T c (c.execChange filter change).1 ↔ ChangeKeeps T c filter change := by
  cases change with
  | updateOne sort u upsert =>
      exact carried_updateOrUpsert_iff hg (c.chosen_nodup filter sort) fun e he =>
        Collection.chosen_mem (Option.mem_toList.mp he)
  | updateMany u upsert =>
      exact carried_updateOrUpsert_iff hg (c.selected_nodup filter) fun e he => he
  | replaceOne sort d upsert =>
      unfold ChangeKeeps
      rw [Collection.execChange]
      cases he : c.chosen filter sort with
      | none =>
          dsimp only
          rw [carried_upsertRow_iff]
          constructor
          · rintro h (hne | ⟨id, hu, hid⟩)
            · exact absurd he hne
            · exact h id d hu hid rfl
          · intro h id d' hu hid hd
            exact Option.some.inj hd ▸ h (Or.inr ⟨id, hu, hid⟩)
      | some e =>
          obtain ⟨hrow, hacc⟩ := Collection.mem_selected.mp (Collection.chosen_mem he)
          dsimp only
          constructor
          · intro hc _
            rcases hc e.1 d (OrderedMap.get?_set_self c e.1 d) with hold | hown
            · rw [hrow] at hold
              exact Option.some.inj hold ▸ owns_of_accepts hg hacc
            · exact hown
          · intro h id d' hd
            by_cases hid : id = e.1
            · have hself : (OrderedMap.set c e.1 d).get? id = some d := by
                rw [hid]
                exact OrderedMap.get?_set_self c e.1 d
              cases Option.some.inj (hself.symm.trans hd)
              exact Or.inr (h (Or.inl (by rw [he]; exact Option.some_ne_none e)))
            · exact Or.inl ((OrderedMap.get?_set_of_ne c d hid).symm.trans hd)
  | deleteOne sort =>
      rw [Collection.execChange]
      refine iff_of_true ?_ trivial
      intro id d hd
      cases he : c.chosen filter sort with
      | none =>
          rw [he] at hd
          exact Or.inl hd
      | some e =>
          rw [he] at hd
          dsimp only at hd
          by_cases hid : id = e.1
          · rw [hid] at hd
            cases ((OrderedMap.get?_delete_self c e.1).symm.trans hd)
          · exact Or.inl ((OrderedMap.get?_delete_of_ne c hid).symm.trans hd)
  | deleteMany =>
      refine iff_of_true ?_ trivial
      intro id d hd
      have hsub := (OrderedMap.get?_filterKeys _ c id).symm.trans hd
      split at hsub
      · exact Or.inl hsub
      · cases hsub

/-- One write carries the tenant exactly when it keeps it. -/
theorem carried_exec_iff {w : Write} (hg : Guarded T w) :
    Carried T c (c.exec w).1 ↔ WriteKeeps T c w := by
  cases w with
  | insertOne id d =>
      have hupsert := carried_upsertRow_iff (T := T) (c := c) (some id) (some d)
      have hinsert : c.exec (.insertOne id d) = c.upsertRow (some id) (some d) := rfl
      rw [hinsert, hupsert]
      constructor
      · intro h hid
        exact h id d rfl hid rfl
      · intro h id' d' hu hid hd
        cases hu
        cases hd
        exact h hid
  | query filter change => exact carried_execChange_iff hg

/-- **A list of writes**, ordered or not, isolates the tenant exactly when every
    write that is carried out keeps it. -/
theorem execAll_spec (ordered : Bool) {ws : List Write} (hg : ∀ w ∈ ws, Guarded T w) :
    ∀ c : Collection, Untouched T c (Collection.execAll ordered ws c)
      ∧ (Carried T c (Collection.execAll ordered ws c) ↔ AllKeep T ordered ws c) := by
  induction ws with
  | nil =>
      intro c
      exact ⟨fun _ _ h _ => h, iff_of_true (fun _ _ h => Or.inl h) trivial⟩
  | cons w ws ih =>
      intro c
      have hw := hg w List.mem_cons_self
      have hone := untouched_exec (c := c) hw
      obtain ⟨hrest, hiff⟩ := ih (fun w' hw' => hg w' (List.mem_cons_of_mem w hw')) (c.exec w).1
      unfold Collection.execAll AllKeep
      cases hstop : ordered && !(c.exec w).2 with
      | true =>
          -- the list ends at the failure
          rw [if_pos rfl]
          exact ⟨hone, by simp [carried_exec_iff hw]⟩
      | false =>
          rw [if_neg (by simp)]
          refine ⟨untouched_trans hone hrest, ?_⟩
          rw [carried_trans_iff hone hrest, carried_exec_iff hw, hiff]
          simp

/-- Owned inserts keep the tenant whatever they meet. -/
theorem allKeep_inserts {ordered : Bool} {ws : List Write}
    (h : ∀ w ∈ ws, ∃ id d, w = .insertOne id d ∧ Owns T d) :
    ∀ c : Collection, AllKeep T ordered ws c := by
  induction ws with
  | nil => exact fun _ => trivial
  | cons w ws ih =>
      intro c
      obtain ⟨id, d, rfl, hown⟩ := h w List.mem_cons_self
      exact ⟨fun _ => hown, fun _ => ih (fun w' hw' => h w' (List.mem_cons_of_mem _ hw')) _⟩

end Writes

/-! ## Saving a document that exists -/

/-- What `save` of an existing document may find under its key: a row that
    already has the modified values, or one of no other tenant that ends up
    owned. -/
def SaveKeeps (T : String) (c : Collection) (id : String) (d : Document)
    (modified : List String) : Prop :=
  ∀ row, c.get? id = some row → (∀ k ∈ modified, row.get? k = d.get? k)
    ∨ (¬ Foreign T row ∧ if "tenantId" ∈ modified then Owns T d else Owns T row)

section Save

variable {T : String} {c : Collection}

theorem accepts_byId {id : String} {e : String × Document} :
    (byId id).accepts e.1 e.2 = true ↔ e.1 = id := by
  show ([("_id", Condition.eq (.str id))].all fun x => x.2.holds e.1 e.2 x.1) = true ↔ _
  simp [Condition.holds, fieldOf, Value.matchedBy]

theorem chosen_byId {id : String} {row : Document} (sort : Document → Document → Bool)
    (h : c.get? id = some row) : c.chosen (byId id) sort = some (id, row) := by
  cases he : c.chosen (byId id) sort with
  | none =>
      have hmem : (id, row) ∈ c.selected (byId id) :=
        Collection.mem_selected.mpr ⟨h, accepts_byId.mpr rfl⟩
      have hnil := List.head?_eq_none_iff.mp he
      rw [← List.mem_insertionSort fun a b => sort a.2 b.2 = true, hnil] at hmem
      cases hmem
  | some e =>
      obtain ⟨hrow, hacc⟩ := Collection.mem_selected.mp (Collection.chosen_mem he)
      have hid := accepts_byId.mp hacc
      rw [hid, h] at hrow
      rw [← hid, Option.some.inj hrow]

/-- The fields `save` sets and the ones it unsets are different ones. -/
theorem delta_names (d : Document) (modified : List String) : (delta d modified).names.Nodup := by
  have hset : ((delta d modified).set.spread (delta d modified).plain) = (delta d modified).set :=
    rfl
  unfold UpdateDocument.names
  rw [hset]
  simp only [delta, OrderedMap.empty, List.map_nil, List.append_nil]
  refine List.nodup_append.mpr ⟨OrderedMap.nodup _, List.nodup_dedup _, ?_⟩
  rintro k hk _ hun rfl
  obtain ⟨e, he, rfl⟩ := List.mem_map.mp hk
  have hmem : e ∈ d.entries := (List.mem_filter.mp he).1
  have hsome : d.get? e.1 = some e.2 := OrderedMap.get?_eq_some_iff.mpr hmem
  have hnone := (List.mem_filter.mp (List.mem_dedup.mp hun)).2
  rw [hsome] at hnone
  cases hnone

/-- What a save makes of the stored row. -/
theorem delta_apply (d row : Document) (modified : List String) :
    ∃ row', (delta d modified).apply false row = some row'
      ∧ (∀ k, row'.get? k = if k ∈ modified then d.get? k else row.get? k)
      ∧ (row' = row ↔ ∀ k ∈ modified, row.get? k = d.get? k) := by
  have happly : (delta d modified).apply false row = some
      ((delta d modified).unset.foldl OrderedMap.delete (row.spread (delta d modified).set)) := by
    unfold UpdateDocument.apply
    rw [if_pos (delta_names d modified)]
    rfl
  have hget : ∀ k, ((delta d modified).unset.foldl OrderedMap.delete
      (row.spread (delta d modified).set)).get? k
        = if k ∈ modified then d.get? k else row.get? k := by
    intro k
    rw [UpdateDocument.get?_unset, OrderedMap.get?_spread]
    show (if k ∈ (modified.filter fun k => (d.get? k).isNone).dedup then none
      else ((d.filterKeys modified.contains).get? k).or (row.get? k)) = _
    rw [OrderedMap.get?_filterKeys]
    simp only [List.mem_dedup, List.mem_filter]
    by_cases hk : k ∈ modified
    · cases hd : d.get? k <;> simp [hk]
    · simp [hk]
  refine ⟨_, happly, hget, ?_⟩
  constructor
  · intro heq k hk
    have hrow := hget k
    rw [heq, if_pos hk] at hrow
    exact hrow
  · intro hsame
    have hspread : row.spread (delta d modified).set = row := by
      refine OrderedMap.foldl_set_eq_self ?_
      intro e he
      obtain ⟨hmem, hmod⟩ := List.mem_filter.mp he
      rw [hsame e.1 (by simpa using hmod)]
      exact OrderedMap.get?_eq_some_iff.mpr hmem
    rw [hspread]
    refine OrderedMap.foldl_delete_eq_self ?_
    intro k hk
    obtain ⟨hmod, hnone⟩ := List.mem_filter.mp (List.mem_dedup.mp hk)
    rw [hsame k hmod]
    exact Option.isNone_iff_eq_none.mp hnone

/-- A save isolates the tenant exactly when it keeps it. -/
theorem isolated_save_iff {id : String} {d : Document} {modified : List String}
    (sort : Document → Document → Bool) :
    Isolated T c (c.exec (.query (byId id)
        (.updateOne sort (.operators (delta d modified)) none))).1
      ↔ SaveKeeps T c id d modified := by
  show Isolated T c (c.updateOrUpsert (byId id) (.operators (delta d modified)) none
    (c.chosen (byId id) sort).toList).1 ↔ _
  cases hrow : c.get? id with
  | none =>
      have hnone : c.chosen (byId id) sort = none := by
        cases he : c.chosen (byId id) sort with
        | none => rfl
        | some e =>
            obtain ⟨hrow', hacc⟩ := Collection.mem_selected.mp (Collection.chosen_mem he)
            rw [accepts_byId.mp hacc, hrow] at hrow'
            cases hrow'
      rw [hnone]
      refine iff_of_true ⟨fun _ _ h _ => h, fun _ _ h => Or.inl h⟩ ?_
      intro row hr
      rw [hrow] at hr
      cases hr
  | some row =>
      obtain ⟨row', happly, hget, hsame⟩ := delta_apply d row modified
      have hexec : (c.updateOrUpsert (byId id) (.operators (delta d modified)) none
          (c.chosen (byId id) sort).toList).1 = c.set id row' := by
        rw [chosen_byId sort hrow]
        show (Collection.updateRows _ [(id, row)] c).1 = _
        unfold Collection.updateRows
        rw [show Update.apply false row (.operators (delta d modified)) = some row' from happly]
        rfl
      have howns : Owns T row' ↔ if "tenantId" ∈ modified then Owns T d else Owns T row := by
        unfold Owns
        rw [hget]
        split <;> rfl
      have hself := OrderedMap.get?_set_self c id row'
      rw [hexec]
      constructor
      · intro hiso row₁ hr
        rw [hrow] at hr
        rw [← Option.some.inj hr]
        by_cases heq : row' = row
        · exact Or.inl (hsame.mp heq)
        · refine Or.inr ⟨?_, howns.mp ?_⟩
          · intro hforeign
            have hkept := hiso.unchanged id row hrow hforeign
            exact heq (Option.some.inj (hself.symm.trans hkept))
          · rcases hiso.carried id row' hself with hold | hown
            · exact absurd (Option.some.inj (hold.symm.trans hrow)) heq
            · exact hown
      · intro hk
        have hother : ∀ {k d₁}, k ≠ id →
            ((c.set id row').get? k = some d₁ ↔ c.get? k = some d₁) := by
          intro k d₁ hk
          rw [OrderedMap.get?_set_of_ne c row' hk]
        rcases hk row hrow with hsame' | ⟨hnot, hown⟩
        · rw [hsame.mpr hsame', OrderedMap.set_eq_self hrow]
          exact ⟨fun _ _ h _ => h, fun _ _ h => Or.inl h⟩
        · constructor
          · intro k d₁ hd₁ hforeign
            by_cases hk : k = id
            · rw [hk, hrow] at hd₁
              exact absurd (Option.some.inj hd₁ ▸ hforeign) hnot
            · exact (hother hk).mpr hd₁
          · intro k d₁ hd₁
            by_cases hk : k = id
            · rw [hk, hself] at hd₁
              exact Or.inr (Option.some.inj hd₁ ▸ howns.mpr hown)
            · exact Or.inl ((hother hk).mp hd₁)

end Save

/-! ## Every write of a model -/

/-- A request of the single tenant `T`, on a model that is not excluded. -/
structure SingleTenant (s : Surroundings) (modelName T : String) : Prop where
  guarded  : shouldBypass s modelName = false
  tenantId : s.context.bind RequestContext.tenantId = some T
  truthy   : JsText.truthy T = true

/-- What the hooks do not look at: the row a save writes to, a single document
    handed to `insertMany`, the operators of an update other than the values of
    `$set` and `$setOnInsert`, a `null` among those, a pipeline, a replacement
    that names no tenant, and whatever a bulk op inserts or writes. -/
def Keeps (T : String) (c : Collection) : ModelWrite → Prop
  | .create _ _                => True
  | .save id d modified        => SaveKeeps T c id d modified
  | .insertMany (.array _)     => True
  | .insertMany (.single id d) => c.get? id = none → Owns T d
  | .query filter change       => ChangeKeeps T c (filter.spread (byTenant T)) change
  | .bulkWrite ordered ops     =>
      AllKeep T ordered (ops.map (preOp (byTenant T) (some T))) c

section Model

variable {s : Surroundings} {modelName T : String}

theorem resolveTenantFilter_single (h : SingleTenant s modelName T) :
    resolveTenantFilter s modelName = .ok (some (byTenant T)) := by
  have hctx : (s.context.getD {}).tenantId = some T := by
    cases hc : s.context with
    | none => cases (hc ▸ h.tenantId)
    | some context =>
        have := h.tenantId
        rw [hc] at this
        exact this
  unfold resolveTenantFilter
  rw [h.guarded, if_neg (by simp)]
  dsimp only
  rw [hctx, Option.filter_some, if_pos h.truthy]

theorem resolveSingleTenantId_single (h : SingleTenant s modelName T) :
    resolveSingleTenantId s modelName = some T := by
  unfold resolveSingleTenantId
  rw [h.guarded, if_neg (by simp), h.tenantId, Option.filter_some, if_pos h.truthy]

/-- What passes the check and is no `null` is the own id. -/
theorem owns_of_assertOwnTenant {d : Document} {isNew : Bool} (hlacks : lacksTenantId d = false)
    (h : assertOwnTenant (d.get? "tenantId") T isNew = .ok ()) : Owns T d := by
  unfold lacksTenantId at hlacks
  unfold assertOwnTenant at h
  cases hv : d.get? "tenantId" with
  | none =>
      rw [hv] at hlacks
      cases hlacks
  | some v =>
      rw [hv] at h hlacks
      dsimp only at h hlacks
      split at h
      · next hok =>
          rcases hok with rfl | rfl
          · cases hlacks
          · exact owns_of_get? hv
      · cases h

theorem preInsert_owns {d d' : Document} (h : preInsert T d = .ok d') : Owns T d' := by
  unfold preInsert at h
  cases hl : lacksTenantId d with
  | true =>
      rw [hl, if_pos rfl] at h
      exact Except.ok.inj h ▸ owns_stamp d
  | false =>
      rw [hl, if_neg (by simp)] at h
      split at h
      · cases h
      · next hok => exact Except.ok.inj h ▸ owns_of_assertOwnTenant hl hok

theorem insertAll_owns {docs : List (String × Document)} {ws : List Write}
    (h : insertAll T docs = .ok ws) : ∀ w ∈ ws, ∃ id d, w = .insertOne id d ∧ Owns T d := by
  induction docs generalizing ws with
  | nil =>
      rw [← Except.ok.inj h]
      exact fun w hw => by cases hw
  | cons e docs ih =>
      obtain ⟨id, d⟩ := e
      unfold insertAll at h
      split at h
      · next d' ws' hd' hws' =>
          rw [← Except.ok.inj h]
          intro w hw
          rcases List.mem_cons.mp hw with rfl | hw
          · exact ⟨id, d', rfl, preInsert_owns hd'⟩
          · exact ih hws' w hw
      · cases h
      · cases h

theorem preSave_new_owns (hctx : SingleTenant s modelName T) {d d' : Document}
    (h : preSave s modelName true d = .ok d') : Owns T d' := by
  unfold preSave at h
  rw [resolveSingleTenantId_single hctx] at h
  dsimp only at h
  cases hl : lacksTenantId d with
  | true =>
      rw [hl, Bool.and_self, if_pos rfl] at h
      exact Except.ok.inj h ▸ owns_stamp d
  | false =>
      rw [hl, Bool.and_false, if_neg (by simp)] at h
      split at h
      · cases h
      · next hok => exact Except.ok.inj h ▸ owns_of_assertOwnTenant hl hok

theorem preSave_existing {d d' : Document} (h : preSave s modelName false d = .ok d') :
    d' = d := by
  unfold preSave at h
  split at h
  · exact (Except.ok.inj h).symm
  · rw [Bool.false_and, if_neg (by simp)] at h
    split at h
    · cases h
    · exact (Except.ok.inj h).symm

theorem preQuery_single (hctx : SingleTenant s modelName T) {filter : FilterQuery}
    {change : Change} {w : Write} (h : preQuery s modelName filter change = .ok w) :
    w = .query (filter.spread (byTenant T)) change := by
  unfold preQuery at h
  rw [resolveTenantFilter_single hctx, resolveSingleTenantId_single hctx] at h
  dsimp only at h
  split at h
  · cases h
  · exact (Except.ok.inj h).symm

theorem guarded_preOp (w : Write) : Guarded T (preOp (byTenant T) (some T) w) := by
  cases w with
  | insertOne id d =>
      unfold preOp
      dsimp only
      split <;> trivial
  | query filter change => exact spread_byTenant filter

/-- Guarded writes, one or many, in the form the model's writes take. -/
theorem isolated_execAll_iff {ordered : Bool} {ws : List Write} {c : Collection}
    (hg : ∀ w ∈ ws, Guarded T w) :
    Isolated T c (Collection.execAll ordered ws c) ↔ AllKeep T ordered ws c := by
  obtain ⟨hun, hiff⟩ := execAll_spec ordered hg c
  rw [isolated_of_untouched hun, hiff]

theorem allKeep_singleton {ordered : Bool} {w : Write} {c : Collection} :
    AllKeep T ordered [w] c ↔ WriteKeeps T c w :=
  and_iff_left fun _ => trivial

theorem isolated_hooked_iff (hctx : SingleTenant s modelName T) {w : ModelWrite}
    {ordered : Bool} {ws : List Write} (h : hooked s modelName w = .ok (ordered, ws))
    (c : Collection) : Isolated T c (Collection.execAll ordered ws c) ↔ Keeps T c w := by
  cases w with
  | create id d =>
      rw [hooked] at h
      split at h
      · cases h
      · next d' hd' =>
          cases Except.ok.inj h
          have hown := preSave_new_owns hctx hd'
          rw [isolated_execAll_iff (by simp [Guarded]), allKeep_singleton]
          exact iff_of_true (fun _ => hown) trivial
  | save id d modified =>
      rw [hooked] at h
      split at h
      · cases h
      · next d' hd' =>
          cases Except.ok.inj h
          rw [preSave_existing hd']
          by_cases hm : modified = []
          · rw [if_pos hm, hm]
            exact iff_of_true ⟨fun _ _ h _ => h, fun _ _ h => Or.inl h⟩
              (fun _ _ => Or.inl fun _ hk => by cases hk)
          · rw [if_neg hm]
            have hone : ∀ w : Write, Collection.execAll true [w] c = (c.exec w).1 := by
              intro w
              unfold Collection.execAll Collection.execAll
              exact ite_self _
            rw [hone]
            exact isolated_save_iff _
  | insertMany docs =>
      rw [hooked] at h
      unfold preInsertMany at h
      rw [resolveSingleTenantId_single hctx] at h
      cases docs with
      | array docs =>
          dsimp only at h
          split at h
          · cases h
          · next ws' hws' =>
              cases Except.ok.inj h
              have hins := insertAll_owns hws'
              have hg : ∀ w ∈ ws, Guarded T w := by
                intro w hw
                obtain ⟨_, _, rfl, _⟩ := hins w hw
                trivial
              rw [isolated_execAll_iff hg]
              exact iff_of_true (allKeep_inserts hins c) trivial
      | single id d =>
          cases Except.ok.inj h
          rw [isolated_execAll_iff (by simp [Guarded]), allKeep_singleton]
          rfl
  | query filter change =>
      rw [hooked] at h
      split at h
      · cases h
      · next w hw =>
          cases Except.ok.inj h
          rw [preQuery_single hctx hw, isolated_execAll_iff, allKeep_singleton]
          · rfl
          · intro w' hw'
            rw [List.mem_singleton.mp hw']
            exact spread_byTenant filter
  | bulkWrite ordered' ops =>
      rw [hooked, preBulkWrite, resolveTenantFilter_single hctx, resolveSingleTenantId_single hctx]
        at h
      cases Except.ok.inj h
      rw [isolated_execAll_iff]
      · rfl
      · intro w hw
        obtain ⟨op, _, rfl⟩ := List.mem_map.mp hw
        exact guarded_preOp op

end Model

/-- **Tenant write isolation, exactly.** In the context of a single tenant, a
    write is refused by its hook or leaves the collection isolated, if and only
    if it is refused or keeps what the hooks do not look at. -/
theorem perform_isolated_iff (s : Surroundings) (modelName T : String) (w : ModelWrite)
    (c : Collection) (hctx : SingleTenant s modelName T) :
    (∀ c', perform s modelName w c = .ok c' → Isolated T c c')
      ↔ (∃ e, hooked s modelName w = .error e) ∨ Keeps T c w := by
  unfold perform
  cases hw : hooked s modelName w with
  | error e => exact iff_of_true (fun _ h => by cases h) (Or.inl ⟨e, rfl⟩)
  | ok r =>
      obtain ⟨ordered, ws⟩ := r
      have hiff := isolated_hooked_iff hctx hw c
      constructor
      · intro h
        exact Or.inr (hiff.mp (h _ rfl))
      · rintro (⟨e, he⟩ | hk) c' hc'
        · cases he
        · exact Except.ok.inj hc' ▸ hiff.mpr hk

/-- `$unset` passes the hook of `updateMany`, and a foreign `insertOne` the one of
    `bulkWrite`. -/
theorem writes_escape_tenant :
    let s : Surroundings := { multiTenancy := some {}, context := some { tenantId := some "acme" } }
    let own : Document := OrderedMap.empty.set "tenantId" (.str "acme")
    let foreign : Document := OrderedMap.empty.set "tenantId" (.str "globex")
    (∃ c', perform s "Patient"
        (.query .empty (.updateMany (.operators { unset := ["tenantId"] }) none))
        (OrderedMap.empty.set "p1" own) = .ok c'
      ∧ c'.get? "p1" = some OrderedMap.empty
      ∧ ¬ Isolated "acme" (OrderedMap.empty.set "p1" own) c')
    ∧ ∃ c', perform s "Patient" (.bulkWrite true [.insertOne "p2" foreign]) .empty = .ok c'
      ∧ c'.get? "p2" = some foreign ∧ ¬ Isolated "acme" .empty c' := by
  refine ⟨⟨_, rfl, by decide, ?_⟩, ⟨_, rfl, by decide, ?_⟩⟩
  · intro h
    have hp1 := h.carried "p1" OrderedMap.empty (by decide)
    exact absurd hp1 (by decide)
  · intro h
    have hp2 := h.carried "p2" (OrderedMap.empty.set "tenantId" (.str "globex")) (by decide)
    exact absurd hp2 (by decide)

/-- A caller's condition on another tenant is overridden. -/
theorem perform_isolated_iff_rename :
    let s : Surroundings := { multiTenancy := some {}, context := some { tenantId := some "acme" } }
    let w : ModelWrite := .query (byTenant "globex")
      (.updateMany (.operators { rename := [("name", "title")] }) none)
    let c : Collection := OrderedMap.empty.set "p1" (OrderedMap.empty.set "tenantId" (.str "acme"))
    (∀ c', perform s "Patient" w c = .ok c' → Isolated "acme" c c')
      ↔ (∃ e, hooked s "Patient" w = .error e) ∨ Keeps "acme" c w :=
  perform_isolated_iff _ _ _ _ _ ⟨by decide, by decide, by decide⟩

end TenantPlugin
