import NestServer.Files.Listing
import NestServer.Mongo.Rename

/-! # The content type in GridFS

    It is in the metadata there, and at the root of the documents of the other stores.  The
    query and the sort are put under the other key, the documents that are found are put
    back, and it is as if they had been like the others from the start. -/

namespace Files.Listing

open FilterHelper Mongo

/-! ## Queries with their keys apart -/

mutual

/-- No object of a query has both of the two keys. -/
def keysApart : Bson → Bool
  | .list vs    => keysApartAll vs
  | .doc fields => keysApartFields fields
  | _           => true

def keysApartAll : List Bson → Bool
  | []      => true
  | v :: vs => keysApart v && keysApartAll vs

def keysApartFields : List (String × Bson) → Bool
  | []             => true
  | (k, v) :: rest =>
      (rest.all fun field => mapKey field.1 ≠ mapKey k) && (!isLogical k || keysApart v) &&
        keysApartFields rest

end

def mapField (field : String × Bson) : String × Bson :=
  (mapKey field.1, if isLogical field.1 then mapContentTypeKeys field.2 else field.2)

theorem mapFields_eq {fields mapped : List (String × Bson)} (h : keysApartFields fields = true)
    (hnew : ∀ field ∈ fields, mapKey field.1 ∉ mapped.map Prod.fst) :
    mapFields mapped fields = mapped ++ fields.map mapField := by
  induction fields generalizing mapped with
  | nil => exact (List.append_nil mapped).symm
  | cons field rest ih =>
      obtain ⟨k, v⟩ := field
      rw [keysApartFields, Bool.and_eq_true, Bool.and_eq_true] at h
      rw [mapFields, OrderedMap.setEntries_of_notMem (hnew (k, v) (List.mem_cons_self ..)), ih h.2,
        List.append_assoc]
      · rfl
      · intro field hfield hmem
        rw [List.map_append, List.mem_append] at hmem
        rcases hmem with hmem | hmem
        · exact hnew field (List.mem_cons_of_mem _ hfield) hmem
        · exact of_decide_eq_true (List.all_eq_true.mp h.1.1 field hfield)
            (List.mem_singleton.mp hmem)

@[simp] theorem isOperator_mapKey (k : String) : isOperator (mapKey k) = isOperator k := by
  rw [mapKey]
  split
  · rename_i heq
    subst heq
    decide
  · rfl

theorem mapKey_of_operator {k : String} (h : isOperator k = true) : mapKey k = k := by
  refine if_neg ?_
  rintro rfl
  exact absurd h (by decide)

theorem parseEntry_field {k : String} (h : isOperator k = false) (v : Bson) :
    parseEntry (mapKey k) v = (parseEntry k v).map (Query.rename mapKey) := by
  have hnot : ¬ isOperator k = true := by simp [h]
  have hnot' : ¬ isOperator (mapKey k) = true := by simp [h]
  cases v with
  | doc fields =>
      rw [parseEntry, parseEntry, if_neg hnot, if_neg hnot']
      split
      · rw [Option.map_map]
        rfl
      · rfl
  | _ => simp [parseEntry, h, Query.rename]

/-- An operator that is not a logical one is refused where a field is expected. -/
theorem parseEntry_of_not_logical {k : String} (h : isOperator k = true)
    (hlogical : isLogical k = false) (v : Bson) :
    parseEntry k v = none := by
  cases v with
  | list vs =>
      refine (if_pos h).trans ?_
      split
      · rfl
      · cases hlogical
      · cases hlogical
      · cases hlogical
      · rfl
  | _ => exact if_pos h

theorem logical_cases {k : String} (h : isLogical k = true) : k = "$and" ∨ k = "$nor" ∨
    k = "$or" := by
  simpa [isLogical, or_assoc] using h

/-- The operand of a logical operator is a list. -/
theorem parseEntry_of_logical {k : String} (h : isLogical k = true) {v : Bson}
    (hlist : ∀ vs, v ≠ .list vs) :
    parseEntry k v = none := by
  have hop : isOperator k = true := by
    rcases logical_cases h with rfl | rfl | rfl
    · decide
    · decide
    · decide
  cases v with
  | list vs => exact absurd rfl (hlist vs)
  | _ => exact if_pos hop

theorem parseEntry_list {k : String} (h : isLogical k = true) {vs : List Bson}
    (hvs : parseList (mapEntries vs) = (parseList vs).map (Query.renameAll mapKey)) :
    parseEntry (mapKey k) (.list (mapEntries vs)) =
      (parseEntry k (.list vs)).map (Query.rename mapKey) := by
  cases vs with
  | nil =>
      rcases logical_cases h with rfl | rfl | rfl
      · rfl
      · rfl
      · rfl
  | cons v vs =>
      rcases logical_cases h with rfl | rfl | rfl
      · show (parseList (mapEntries (v :: vs))).map Query.every =
            ((parseList (v :: vs)).map Query.every).map _
        rw [hvs, Option.map_map, Option.map_map]
        rfl
      · show (parseList (mapEntries (v :: vs))).map Query.none =
            ((parseList (v :: vs)).map Query.none).map _
        rw [hvs, Option.map_map, Option.map_map]
        rfl
      · show (parseList (mapEntries (v :: vs))).map Query.some =
            ((parseList (v :: vs)).map Query.some).map _
        rw [hvs, Option.map_map, Option.map_map]
        rfl

theorem parseEntry_unmapped {k : String} (h : isLogical k = false) (v : Bson) :
    parseEntry (mapKey k) v = (parseEntry k v).map (Query.rename mapKey) := by
  cases hop : isOperator k with
  | false => exact parseEntry_field hop v
  | true =>
      rw [mapKey_of_operator hop, parseEntry_of_not_logical hop h]
      rfl

theorem mapKey_of_logical {k : String} (h : isLogical k = true) : mapKey k = k := by
  rcases logical_cases h with rfl | rfl | rfl
  · rfl
  · rfl
  · rfl

/-- What is no list under a logical operator is none afterwards. -/
theorem parseEntry_refused {k : String} {v : Bson} (hv : ∀ vs, v ≠ .list vs)
    (hmapped : ∀ vs, mapContentTypeKeys v ≠ .list vs) :
    parseEntry (mapKey k) (if isLogical k then mapContentTypeKeys v else v) =
      (parseEntry k v).map (Query.rename mapKey) := by
  cases hlogical : isLogical k with
  | false => exact parseEntry_unmapped hlogical v
  | true =>
      rw [if_pos rfl, mapKey_of_logical hlogical, parseEntry_of_logical hlogical hv,
        parseEntry_of_logical hlogical hmapped]
      rfl

mutual

theorem parseEntry_mapped (k : String) : ∀ v : Bson, (isLogical k = true → keysApart v = true) →
    parseEntry (mapKey k) (if isLogical k then mapContentTypeKeys v else v) =
      (parseEntry k v).map (Query.rename mapKey)
  | .list vs, h => by
      cases hlogical : isLogical k with
      | false => exact parseEntry_unmapped hlogical (.list vs)
      | true => exact parseEntry_list hlogical (parseList_mapped vs (h hlogical))
  | .doc fields, _ => parseEntry_refused (fun _ => Bson.noConfusion) fun _ => Bson.noConfusion
  | .null, _ => parseEntry_refused (fun _ => Bson.noConfusion) fun _ => Bson.noConfusion
  | .num _, _ => parseEntry_refused (fun _ => Bson.noConfusion) fun _ => Bson.noConfusion
  | .str _, _ => parseEntry_refused (fun _ => Bson.noConfusion) fun _ => Bson.noConfusion
  | .bool _, _ => parseEntry_refused (fun _ => Bson.noConfusion) fun _ => Bson.noConfusion
  | .date _, _ => parseEntry_refused (fun _ => Bson.noConfusion) fun _ => Bson.noConfusion
  | .objectId _, _ => parseEntry_refused (fun _ => Bson.noConfusion) fun _ => Bson.noConfusion
  | .regex _ _, _ => parseEntry_refused (fun _ => Bson.noConfusion) fun _ => Bson.noConfusion

theorem parseList_mapped : ∀ vs : List Bson, keysApartAll vs = true →
    parseList (mapEntries vs) = (parseList vs).map (Query.renameAll mapKey)
  | [], _ => rfl
  | .doc fields :: rest, h => by
      rw [keysApartAll, Bool.and_eq_true] at h
      have hfields := parseEntries_mapped fields h.1
      have hrest := parseList_mapped rest h.2
      rw [mapEntries, mapContentTypeKeys, mapFields_eq h.1 (fun _ _ => List.not_mem_nil),
        List.nil_append, parseList, parseList, hfields, hrest]
      cases parseEntries fields with
      | none => rfl
      | some q =>
          cases parseList rest with
          | none => rfl
          | some qs => rfl
  | .list _ :: _, _ => rfl
  | .null :: _, _ => rfl
  | .num _ :: _, _ => rfl
  | .str _ :: _, _ => rfl
  | .bool _ :: _, _ => rfl
  | .date _ :: _, _ => rfl
  | .objectId _ :: _, _ => rfl
  | .regex _ _ :: _, _ => rfl

theorem parseEntries_mapped : ∀ fields : List (String × Bson), keysApartFields fields = true →
    parseEntries (fields.map mapField) = (parseEntries fields).map (Query.renameAll mapKey)
  | [], _ => rfl
  | (k, v) :: rest, h => by
      rw [keysApartFields, Bool.and_eq_true, Bool.and_eq_true] at h
      have hentry := parseEntry_mapped k v (fun hlogical => by simpa [hlogical] using h.1.2)
      have hrest := parseEntries_mapped rest h.2
      rw [List.map_cons, mapField, parseEntries, parseEntries, hentry, hrest]
      cases parseEntry k v with
      | none => rfl
      | some q =>
          cases parseEntries rest with
          | none => rfl
          | some qs => rfl

end

/-- **The mapped query is the query under the mapped keys.** -/
theorem parseQuery_mapped {query : Bson} (h : keysApart query = true) :
    parseQuery (mapContentTypeKeys query) = (parseQuery query).map (Query.rename mapKey) := by
  cases query with
  | doc fields =>
      rw [mapContentTypeKeys, mapFields_eq h (fun _ _ => List.not_mem_nil), List.nil_append,
        parseQuery, parseQuery, parseEntries_mapped fields h, Option.map_map, Option.map_map]
      rfl
  | _ => rfl

/-! ## Sorts -/

/-- No key is in two directions, and the two names of the content type are one key. -/
def SortApart (spec : SortSpec) : Prop :=
  ∀ x ∈ spec, ∀ y ∈ spec, mapKey x.1 = mapKey y.1 → x.2 = y.2

/-- A key that comes again with its direction is assigned in vain. -/
theorem setEntries_of_same {key : String} {direction : Direction} {spec : SortSpec}
    (hmem : key ∈ spec.map Prod.fst) (hsame : ∀ x ∈ spec, x.1 = key → x.2 = direction) :
    OrderedMap.setEntries key direction spec = spec ∧ (key, direction) ∈ spec := by
  induction spec with
  | nil => cases hmem
  | cons x spec ih =>
      rw [OrderedMap.setEntries]
      by_cases hx : x.1 = key
      · have heq : x = (key, direction) := Prod.ext hx (hsame x (List.mem_cons_self ..) hx)
        rw [if_pos hx, heq]
        exact ⟨rfl, List.mem_cons_self ..⟩
      · have hrest := ih ((List.mem_cons.mp hmem).resolve_left (Ne.symm hx)) fun y hy =>
          hsame y (List.mem_cons_of_mem _ hy)
        rw [if_neg hx, hrest.1]
        exact ⟨rfl, List.mem_cons_of_mem _ hrest.2⟩

theorem compareBy_foldl (items spec : SortSpec)
    (h : ∀ x ∈ spec ++ items, ∀ y ∈ spec ++ items, x.1 = y.1 → x.2 = y.2) (a b : Bson) :
    compareBy (items.foldl (fun spec item => OrderedMap.setEntries item.1 item.2 spec) spec) a b =
      compareBy (spec ++ items) a b := by
  induction items generalizing spec with
  | nil => rw [List.foldl_nil, List.append_nil]
  | cons item items ih =>
      have hitem : item ∈ spec ++ item :: items := by simp
      rw [List.foldl_cons]
      by_cases hmem : item.1 ∈ spec.map Prod.fst
      · obtain ⟨hset, hin⟩ := setEntries_of_same hmem fun x hx heq =>
          h x (List.mem_append_left _ hx) item hitem heq
        have hless : ∀ x ∈ spec ++ items, x ∈ spec ++ item :: items := by
          intro x hx
          rcases List.mem_append.mp hx with hx | hx
          · exact List.mem_append_left _ hx
          · exact List.mem_append_right _ (List.mem_cons_of_mem _ hx)
        rw [hset, ih spec fun x hx y hy => h x (hless x hx) y (hless y hy), compareBy_append,
          ← compareBy_append_of_mem hin, ← compareBy_append, List.append_assoc,
          List.singleton_append]
      · rw [OrderedMap.setEntries_of_notMem hmem, ih, List.append_assoc, List.singleton_append]
        rwa [List.append_assoc, List.singleton_append]

theorem compareBy_mapSort {spec : SortSpec} (h : SortApart spec) (a b : Bson) :
    compareBy (mapSort spec) a b = compareBy (spec.map fun key => (mapKey key.1, key.2)) a b := by
  refine compareBy_foldl _ [] ?_ a b
  rw [List.nil_append]
  intro x hx y hy heq
  obtain ⟨key, hkey, rfl⟩ := List.mem_map.mp hx
  obtain ⟨key', hkey', rfl⟩ := List.mem_map.mp hy
  exact h key hkey key' hkey' heq

/-! ## Documents -/

theorem valuesAtField_eq (p : String) (ps : List String) (fields : List (String × Bson)) :
    Bson.valuesAtField p ps fields = (fields.lookup p).elim [none] (Bson.valuesAt ps) := by
  induction fields with
  | nil => rfl
  | cons field rest ih =>
      obtain ⟨k, v⟩ := field
      rw [Bson.valuesAtField, List.lookup_cons]
      by_cases hk : k = p
      · rw [if_pos hk, hk, beq_self_eq_true]
        rfl
      · have hne : (p == k) = false := by simpa using fun h : p = k => hk h.symm
        rw [if_neg hk, hne]
        exact ih

theorem lookup_cons_ite (k x : String) (v : Bson) (rest : List (String × Bson)) :
    ((k, v) :: rest).lookup x = if x = k then some v else rest.lookup x := by
  rw [List.lookup_cons]
  by_cases hx : x = k
  · rw [if_pos hx, hx, beq_self_eq_true]
  · rw [if_neg hx, beq_false_of_ne hx]

theorem lookup_setEntries (key x : String) (value : Bson) (fields : List (String × Bson)) :
    (OrderedMap.setEntries key value fields).lookup x = if x = key then some value
      else fields.lookup x := by
  induction fields with
  | nil => rw [OrderedMap.setEntries, lookup_cons_ite]
  | cons field rest ih =>
      obtain ⟨k, v⟩ := field
      rw [OrderedMap.setEntries]
      by_cases hk : k = key
      · subst hk
        rw [if_pos rfl, lookup_cons_ite, lookup_cons_ite]
        split
        · rfl
        · rfl
      · rw [if_neg hk, lookup_cons_ite, lookup_cons_ite, ih]
        by_cases hx : x = k
        · rw [if_pos hx, if_pos hx, if_neg (hx ▸ hk)]
        · rw [if_neg hx, if_neg hx]

theorem lookup_assign (key x : String) (value : Option Bson) (fields : List (String × Bson)) :
    (assign key value fields).lookup x = if x = key then value else fields.lookup x := by
  cases value with
  | some value => exact lookup_setEntries key x value fields
  | none =>
      show (fields.filter fun field => field.1 ≠ key).lookup x = _
      induction fields with
      | nil => simp
      | cons field rest ih =>
          obtain ⟨k, v⟩ := field
          by_cases hk : k = key
          · rw [List.filter_cons_of_neg (by simp [hk]), ih, lookup_cons_ite, hk]
            split
            · rfl
            · rfl
          · rw [List.filter_cons_of_pos (by simp [hk]), lookup_cons_ite, lookup_cons_ite, ih]
            by_cases hx : x = k
            · rw [if_pos hx, if_pos hx, if_neg (hx ▸ hk)]
            · rw [if_neg hx, if_neg hx]

theorem splitPath_contentType {path : String} (h : splitPath path = ["contentType"]) :
    path = "contentType" := by
  have hparts : path.toList.splitOn '.' = ["contentType".toList] := by
    rw [splitPath] at h
    cases hsplit : path.toList.splitOn '.' with
    | nil => simp [hsplit] at h
    | cons part parts =>
        rw [hsplit, List.map_cons] at h
        obtain ⟨hpart, hnil⟩ := List.cons.inj h
        rw [List.map_eq_nil_iff.mp hnil, ← hpart, String.toList_ofList]
  have hjoin : List.intercalate ['.'] (path.toList.splitOn '.') = path.toList :=
    List.intercalate_splitOn '.'
  rw [hparts] at hjoin
  exact String.toList_inj.mp (hjoin.symm.trans (by simp))

/-- Under a part that comes behind it, a value that is not gone into has nothing. -/
theorem valuesAt_leaf {v : Bson} (h : IsLeaf v) (p : String) (ps : List String) :
    v.valuesAt (p :: ps) = [none] := by
  cases v with
  | doc fields => exact absurd rfl (h.1 fields)
  | list vs => exact absurd rfl (h.2 vs)
  | _ => rfl

theorem isLeaf_contentTypeOf (document : FileDocument) (v : Bson)
    (h : contentTypeOf document.fields = some v) :
    IsLeaf v := by
  rw [contentTypeOf] at h
  cases hmetadata : document.fields.lookup "metadata" with
  | none =>
      rw [hmetadata] at h
      cases h
  | some w =>
      obtain ⟨record, rfl, hleaf⟩ := document.metadata w hmetadata
      rw [hmetadata] at h
      exact hleaf v h

/-- **A document that is normalized has under a path what it had under the mapped one.** -/
theorem sameUnder_normalize (document : FileDocument) :
    SameUnder mapKey document.row (normalizeFileInfo document.row) := by
  intro path
  show (Bson.doc document.fields).valuesAt (splitPath (mapKey path)) =
    (Bson.doc (assign "contentType" (contentTypeOf document.fields) document.fields)).valuesAt
      (splitPath path)
  by_cases hpath : path = "contentType"
  · subst hpath
    have hsplit : splitPath (mapKey "contentType") = ["metadata", "contentType"] := by decide
    have hsplit' : splitPath "contentType" = ["contentType"] := by decide
    rw [hsplit, hsplit', Bson.valuesAt, Bson.valuesAt, valuesAtField_eq, valuesAtField_eq,
      lookup_assign, if_pos rfl, contentTypeOf]
    cases hmetadata : document.fields.lookup "metadata" with
    | none => rfl
    | some v =>
        obtain ⟨record, rfl, _⟩ := document.metadata v hmetadata
        exact valuesAtField_eq "contentType" [] record
  · rw [mapKey, if_neg hpath]
    cases hsplit : splitPath path with
    | nil => exact absurd (List.map_eq_nil_iff.mp hsplit) (List.splitOn_ne_nil _ _)
    | cons p ps =>
        rw [Bson.valuesAt, Bson.valuesAt, valuesAtField_eq, valuesAtField_eq, lookup_assign]
        by_cases hp : p = "contentType"
        · subst hp
          cases ps with
          | nil => exact absurd (splitPath_contentType hsplit) hpath
          | cons p' ps' =>
              have hnone : ∀ v : Option Bson, (∀ w, v = some w → IsLeaf w) →
                  v.elim [none] (Bson.valuesAt (p' :: ps')) = [none] := by
                intro v hv
                cases v with
                | none => rfl
                | some w => exact valuesAt_leaf (hv w rfl) p' ps'
              rw [if_pos rfl, hnone _ document.contentType, hnone _ (isLeaf_contentTypeOf document)]
        · rw [if_neg hp]

/-! ## What is found -/

def FileDocument.shown (document : FileDocument) : Bson := normalizeFileInfo document.row

/-- **The documents are found as if they had been normalized before.** -/
theorem findGridFSFiles_eq (e : RegexEngine) {query : Bson} {options : FindOptions}
    (hquery : keysApart query = true)
    (hsort : SortApart options.sort) (documents : List FileDocument) :
    findGridFSFiles e query options documents =
      find e query options (documents.map FileDocument.shown) := by
  have hrows : documents.map FileDocument.shown =
      (documents.map FileDocument.row).map normalizeFileInfo :=
    List.map_map.symm
  have hsame : ∀ row ∈ documents.map FileDocument.row,
      SameUnder mapKey row (normalizeFileInfo row) := by
    intro row hrow
    obtain ⟨document, _, rfl⟩ := List.mem_map.mp hrow
    exact sameUnder_normalize document
  rw [hrows, findGridFSFiles, findFiles]
  refine find_rename e (parseQuery_mapped hquery) hsame ?_
  intro a ha b hb
  rw [compareBy_mapSort hsort, compareBy_rename (hsame a ha) (hsame b hb)]

end Files.Listing
