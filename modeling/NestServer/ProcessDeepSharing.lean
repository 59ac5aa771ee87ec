import NestServer.ProcessDeep

/-! # Deep processing and sharing

    `processDeep` returns what it meets again as it is.  Two functions find every place
    where that shows: `everyTrue` what is met twice, `stamp` what is met and also lies in a
    special object.

    `processDeep_iff` says for which values deep processing treats every occurrence,
    whatever the function. -/

open JsTree Heap

namespace ProcessDeep

variable {κ : Type}

/-! ## A function that finds what is met twice

    It answers `true` where all that it is given below is `true`.  An object or array that
    is met again comes back as it is, which is not `true`. -/

def isTrue (v : GVal) : Bool := v = .prim (.bool true)

theorem isTrue_bool (b : Bool) : isTrue (.prim (.bool b)) = b := by cases b <;> rfl

def isTrueTree : JsTree κ → Bool
  | .prim p => p = .bool true
  | _       => false

section

variable [DecidableEq κ] (o : Options κ)

/-- What it answers for an object or array. -/
def allTrue : Cell κ → Bool
  | .arr items        => items.all isTrue
  | .obj proto fields => isSpecial o proto (fields.map Prod.fst) || fields.all fun e => isTrue e.2

def everyTrue : Func κ := fun v h => match v with
  | .ref r => (.prim (.bool (h[r]?.all (allTrue o))), h)
  | _      => (.prim (.bool true), h)

def everyTrueTree : JsTree κ → JsTree κ
  | .arr items        => .prim (.bool (items.all isTrueTree))
  | .obj proto fields =>
      .prim (.bool (isSpecial o proto (keys fields) || fields.all fun e => isTrueTree e.2))
  | _                 => .prim (.bool true)

end

section

variable {S : Nat → Prop} {h : Heap κ} {v : GVal} {t : JsTree κ}

theorem reads_isTrue (hr : Reads S h v t) : isTrue v = isTrueTree t := by
  obtain ⟨n, hu⟩ := hr
  cases v with
  | prim p =>
      rw [unfolds_prim.mp hu, isTrue, isTrueTree]
      exact decide_eq_decide.mpr ⟨GVal.prim.inj, congrArg _⟩
  | oid hex => rw [unfolds_oid.mp hu]; rfl
  | ref r =>
      match n, hu with
      | n + 1, ⟨_, .inl ⟨_, _, _, _, ht, _⟩⟩ => rw [ht]; rfl
      | n + 1, ⟨_, .inr ⟨_, _, _, ht, _⟩⟩    => rw [ht]; rfl

/-- A cell that is read. -/
theorem cell_of_reads {r : Nat} (hr : Reads S h (.ref r) t) : ∃ cell, h[r]? = some cell := by
  obtain ⟨n, hu⟩ := hr
  match n, hu with
  | n + 1, ⟨_, .inl ⟨_, _, _, hcell, _, _⟩⟩ => exact ⟨_, hcell⟩
  | n + 1, ⟨_, .inr ⟨_, _, hcell, _, _⟩⟩    => exact ⟨_, hcell⟩

end

section

variable [DecidableEq κ] {o : Options κ}

theorem everyTrue_realizes : Realizes (everyTrue o) (everyTrueTree o) where
  result S h v t hr := by
    have hanswer : ∃ b, (everyTrue o v h).1 = .prim (.bool b)
        ∧ everyTrueTree o t = .prim (.bool b) := by
      cases v with
      | prim p  => rw [reads_prim.mp hr]; exact ⟨true, rfl, rfl⟩
      | oid hex => rw [reads_oid.mp hr]; exact ⟨true, rfl, rfl⟩
      | ref r =>
          obtain ⟨cell, hcell⟩ := cell_of_reads hr
          cases cell with
          | arr items =>
              obtain ⟨-, items', rfl, hall⟩ := (reads_arr hcell).mp hr
              refine ⟨items.all isTrue, ?_, ?_⟩
              · rw [everyTrue, hcell]
                rfl
              · rw [everyTrueTree]
                clear hcell hr
                congr 2
                induction hall with
                | nil => rfl
                | cons hhead _ ih => rw [List.all_cons, List.all_cons, reads_isTrue hhead, ih]
          | obj proto fields =>
              obtain ⟨-, fields', rfl, hall⟩ := (reads_obj hcell).mp hr
              refine ⟨isSpecial o proto (fields.map Prod.fst) || fields.all fun e => isTrue e.2, ?_,
                ?_⟩
              · rw [everyTrue, hcell]
                rfl
              · rw [everyTrueTree]
                clear hcell hr
                have hkeys : keys fields' = fields.map Prod.fst := forall₂_keys hall
                have hfields : (fields'.all fun e => isTrueTree e.2) = fields.all fun e =>
                    isTrue e.2 := by
                  clear hkeys
                  induction hall with
                  | nil => rfl
                  | cons hhead _ ih => rw [List.all_cons, List.all_cons, reads_isTrue hhead.2, ih]
                rw [hkeys, hfields]
    obtain ⟨b, hv, ht⟩ := hanswer
    rw [hv, ht]
    exact reads_prim.mpr rfl
  length v h := by cases v <;> exact Nat.le_refl _
  kept v h r _ _ := by cases v <;> rfl

/-- On a tree it answers `true`. -/
theorem processTree_everyTrue (h : Heap κ) (n : Nat) (v : GVal) :
    processTree o (everyTrueTree o) (h.view n v) = .prim (.bool true) := by
  induction n generalizing v with
  | zero =>
      cases v with
      | prim p  => rw [Heap.view, processTree]; rfl
      | oid hex => rw [Heap.view, processTree]; rfl
      | ref r   =>
          rw [Heap.view, processTree]
          cases hspecial : isSpecial o ([] : List κ) (keys []) <;>
            simp [everyTrueTree, processTreeFields, hspecial]
  | succ n ih =>
      cases v with
      | prim p  => rw [Heap.view, processTree]; rfl
      | oid hex => rw [Heap.view, processTree]; rfl
      | ref r =>
          rw [Heap.view]
          cases h[r]? with
          | none => dsimp only; rw [processTree]; rfl
          | some cell =>
              cases cell with
              | arr items =>
                  dsimp only
                  rw [processTree, processTrees_eq_map, everyTrueTree, List.map_map, List.all_map]
                  congr 2
                  refine List.all_eq_true.mpr fun w _ => ?_
                  rw [Function.comp_apply, Function.comp_apply, ih]
                  rfl
              | obj proto fields =>
                  dsimp only
                  rw [processTree]
                  cases hspecial : isSpecial o proto
                      (keys (fields.map fun e => (e.1, h.view n e.2))) with
                  | true => rw [if_pos rfl, everyTrueTree, hspecial, Bool.true_or]
                  | false =>
                      rw [if_neg Bool.false_ne_true, processTreeFields_eq_map, everyTrueTree,
                        List.map_map, List.all_map]
                      congr 2
                      rw [Bool.or_eq_true]
                      refine Or.inr (List.all_eq_true.mpr fun e _ => ?_)
                      show isTrueTree (processTree o (everyTrueTree o) (h.view n e.2)) = true
                      rw [ih]
                      rfl

end

/-- What has not been met is as it was at the start. -/
structure Intact (h₀ : Heap κ) (s : State κ) : Prop where
  length : h₀.length ≤ s.heap.length
  same   : ∀ r < h₀.length, r ∉ s.processed → s.heap[r]? = h₀[r]?

/-- These addresses have been met on the way, each of them once. -/
structure MetOnce (M : List Nat) (s s' : State κ) : Prop where
  nodup : M.Nodup
  fresh : ∀ r ∈ M, r ∉ s.processed
  met   : ∀ r ∈ M, r ∈ s'.processed

/-- A call that answers `true` only if nothing has been met twice. -/
def Detects (h₀ : Heap κ) (met : GVal → List Nat) (f : GVal → State κ → Option (GVal × State κ))
    (v : GVal) : Prop :=
  ∀ s, Intact h₀ s → ∃ v' s', f v s = some (v', s') ∧ Intact h₀ s'
    ∧ (∀ r ∈ s.processed, r ∈ s'.processed) ∧ (isTrue v' = true → MetOnce (met v) s s')

section

variable {h₀ : Heap κ} {s s₁ s₂ : State κ}

theorem MetOnce.nil (s : State κ) : MetOnce [] s s :=
  ⟨List.nodup_nil, fun _ h => absurd h List.not_mem_nil, fun _ h => absurd h List.not_mem_nil⟩

theorem MetOnce.append {M₁ M₂ : List Nat} (h₁ : MetOnce M₁ s s₁) (h₂ : MetOnce M₂ s₁ s₂)
    (hkept₁ : ∀ r ∈ s.processed, r ∈ s₁.processed) (hkept₂ : ∀ r ∈ s₁.processed, r ∈ s₂.processed) :
    MetOnce (M₁ ++ M₂) s s₂ where
  nodup := by
    refine List.nodup_append.mpr ⟨h₁.nodup, h₂.nodup, ?_⟩
    rintro a ha _ hb rfl
    exact h₂.fresh a hb (h₁.met a ha)
  fresh r hr := by
    rcases List.mem_append.mp hr with hr | hr
    · exact h₁.fresh r hr
    · exact fun h => h₂.fresh r hr (hkept₁ r h)
  met r hr := by
    rcases List.mem_append.mp hr with hr | hr
    · exact hkept₂ r (h₁.met r hr)
    · exact h₂.met r hr

/-- An object or array, after what is in it. -/
theorem MetOnce.enter {M : List Nat} {r : Nat} (h : MetOnce M (s.enter r) s₁)
    (hnew : r ∉ s.processed) (hkept : ∀ a ∈ (s.enter r).processed, a ∈ s₁.processed) :
    MetOnce (r :: M) s s₁ where
  nodup := List.nodup_cons.mpr ⟨fun hr => h.fresh r hr List.mem_cons_self, h.nodup⟩
  fresh a ha := by
    rcases List.mem_cons.mp ha with rfl | ha
    · exact hnew
    · exact fun hmem => h.fresh a ha (List.mem_cons_of_mem _ hmem)
  met a ha := by
    rcases List.mem_cons.mp ha with rfl | ha
    · exact hkept a List.mem_cons_self
    · exact h.met a ha

theorem Intact.enter (h : Intact h₀ s) (r : Nat) : Intact h₀ (s.enter r) :=
  ⟨h.length, fun a ha hnot => h.same a ha fun hmem => hnot (List.mem_cons_of_mem _ hmem)⟩

theorem Intact.write (h : Intact h₀ s) {r : Nat} (hr : r ∈ s.processed) (cell : Cell κ) :
    Intact h₀ (s.write r cell) where
  length := by rw [State.write, List.length_set]; exact h.length
  same a ha hnot := by
    have hne : r ≠ a := by
      rintro rfl
      exact hnot hr
    rw [State.write, List.getElem?_set_ne hne]
    exact h.same a ha hnot

theorem Intact.alloc (h : Intact h₀ s) (items : List GVal) : Intact h₀ (s.alloc items) where
  length := by
    rw [State.alloc, List.length_append]
    exact Nat.le_add_right_of_le h.length
  same a ha hnot := by
    rw [State.alloc, List.getElem?_append_left (Nat.lt_of_lt_of_le ha h.length)]
    exact h.same a ha hnot

variable {met : GVal → List Nat} {f : GVal → State κ → Option (GVal × State κ)}

theorem processItems_detects {items : List GVal} (hf : ∀ w ∈ items, Detects h₀ met f w)
    (hs : Intact h₀ s) :
    ∃ results s', processItems f items s = some (results, s') ∧ Intact h₀ s'
      ∧ (∀ r ∈ s.processed, r ∈ s'.processed)
      ∧ (results.all isTrue = true → MetOnce (items.flatMap met) s s') := by
  induction items generalizing s with
  | nil => exact ⟨[], s, rfl, hs, fun _ h => h, fun _ => MetOnce.nil s⟩
  | cons w rest ih =>
      obtain ⟨v', s₁, hrun₁, hs₁, hkept₁, honce₁⟩ := hf w List.mem_cons_self s hs
      obtain ⟨results, s₂, hrun₂, hs₂, hkept₂, honce₂⟩ :=
        ih (fun w hw => hf w (List.mem_cons_of_mem _ hw)) hs₁
      refine ⟨v' :: results, s₂, ?_, hs₂, fun r hr => hkept₂ r (hkept₁ r hr), fun htrue => ?_⟩
      · rw [processItems, hrun₁, Option.bind_some, hrun₂]
        rfl
      · rw [List.all_cons, Bool.and_eq_true] at htrue
        exact (honce₁ htrue.1).append (honce₂ htrue.2) hkept₁ hkept₂

theorem processFields_detects {r : Nat} {proto : List κ} {fields : List (String × GVal)}
    (hf : ∀ e ∈ fields, Detects h₀ met f e.2) (hs : Intact h₀ s) (hr : r ∈ s.processed)
    (hlt : r < h₀.length) {done : List (String × GVal)}
    (hcell : s.heap[r]? = some (.obj proto (done ++ fields))) :
    ∃ fields' s', processFields f r proto done fields s = some s' ∧ Intact h₀ s'
      ∧ (∀ r ∈ s.processed, r ∈ s'.processed)
      ∧ s'.heap[r]? = some (.obj proto (done ++ fields'))
      ∧ fields'.map Prod.fst = fields.map Prod.fst
      ∧ ((fields'.all fun e => isTrue e.2) = true →
        MetOnce ((fields.map Prod.snd).flatMap met) s s') := by
  induction fields generalizing s done with
  | nil => exact ⟨[], s, rfl, hs, fun _ h => h, hcell, rfl, fun _ => MetOnce.nil s⟩
  | cons e rest ih =>
      obtain ⟨key, w⟩ := e
      obtain ⟨v', s₁, hrun₁, hs₁, hkept₁, honce₁⟩ := hf _ List.mem_cons_self s hs
      have hcell₂ : (s₁.write r (.obj proto (done ++ (key, v') :: rest))).heap[r]?
          = some (.obj proto ((done ++ [(key, v')]) ++ rest)) := by
        rw [State.write, List.getElem?_set_self (Nat.lt_of_lt_of_le hlt hs₁.length),
          List.append_assoc]
        rfl
      obtain ⟨fields', s₂, hrun₂, hs₂, hkept₂, hcell', hkeys, honce₂⟩ :=
        ih (fun e he => hf e (List.mem_cons_of_mem _ he)) (hs₁.write (hkept₁ r hr) _)
          (hkept₁ r hr) hcell₂
      refine ⟨(key, v') :: fields', s₂, ?_, hs₂, fun a ha => hkept₂ a (hkept₁ a ha), ?_, ?_,
        fun htrue => ?_⟩
      · rw [processFields, hrun₁, Option.bind_some]
        exact hrun₂
      · rw [hcell', List.append_assoc]
        rfl
      · rw [List.map_cons, List.map_cons, hkeys]
      · rw [List.all_cons, Bool.and_eq_true] at htrue
        obtain ⟨hnodup, hfresh, hmet⟩ := honce₂ htrue.2
        exact (honce₁ htrue.1).append ⟨hnodup, hfresh, hmet⟩ hkept₁ hkept₂

end

section

variable [DecidableEq κ] {o : Options κ} {h₀ : Heap κ}

/-- **What is met twice is found.** -/
theorem everyTrue_detects (n : Nat) {v : GVal} (hs : Sound h₀ n v) :
    Detects h₀ (meets o h₀ n) (processDeep o (everyTrue o) n) v := by
  induction n generalizing v with
  | zero =>
      cases v with
      | prim p  => exact fun s hi => ⟨_, s, rfl, hi, fun _ h => h, fun _ => MetOnce.nil s⟩
      | oid hex => exact fun s hi => ⟨_, s, rfl, hi, fun _ h => h, fun _ => MetOnce.nil s⟩
      | ref r   => exact hs.elim
  | succ n ih =>
      cases v with
      | prim p  => exact fun s hi => ⟨_, s, rfl, hi, fun _ h => h, fun _ => MetOnce.nil s⟩
      | oid hex => exact fun s hi => ⟨_, s, rfl, hi, fun _ h => h, fun _ => MetOnce.nil s⟩
      | ref r =>
          intro s hi
          obtain ⟨cell, hcell, hchildren⟩ := sound_ref hs
          have hlt : r < h₀.length := (List.getElem?_eq_some_iff.mp hcell).1
          rw [processDeep, meets_ref hcell]
          -- what is met again is no boolean
          by_cases hvisited : s.processed.contains r = true
          · rw [if_pos hvisited]
            exact ⟨_, s, rfl, hi, fun _ h => h, fun htrue => by cases htrue⟩
          · rw [if_neg hvisited]
            have hnew : r ∉ s.processed := by simpa using hvisited
            rw [(hi.same r hlt hnew).trans hcell]
            cases cell with
            | arr items =>
                dsimp only
                have hitems : ∀ w ∈ items,
                    Detects h₀ (meets o h₀ n) (processDeep o (everyTrue o) n) w :=
                  fun w hw => ih (hchildren w hw)
                obtain ⟨results, s₁, hrun, hi₁, hkept, honce⟩ :=
                  processItems_detects hitems (hi.enter r)
                rw [hrun]
                refine ⟨_, _, rfl, hi₁.alloc results, fun a ha =>
                  hkept a (List.mem_cons_of_mem _ ha), fun htrue => ?_⟩
                have hanswer : (everyTrue o (.ref s₁.heap.length) (s₁.alloc results).heap).1
                    = .prim (.bool (results.all isTrue)) := by
                  rw [everyTrue, State.alloc]
                  dsimp only
                  rw [List.getElem?_concat_length]
                  rfl
                rw [hanswer, isTrue_bool] at htrue
                obtain ⟨hnodup, hfresh, hmet⟩ := (honce htrue).enter hnew hkept
                exact ⟨hnodup, hfresh, hmet⟩
            | obj proto fields =>
                dsimp only
                by_cases hspecial : isSpecial o proto (fields.map Prod.fst) = true
                · rw [if_pos hspecial, opened_special hspecial]
                  refine ⟨_, _, rfl, hi.enter r, fun a ha => List.mem_cons_of_mem _ ha, fun _ => ?_⟩
                  exact (MetOnce.nil (s.enter r)).enter hnew fun _ h => h
                · rw [if_neg hspecial, opened_obj hspecial]
                  have hentered : (s.enter r).heap[r]? = some (.obj proto ([] ++ fields)) :=
                    (hi.same r hlt hnew).trans hcell
                  obtain ⟨fields', s₁, hrun, hi₁, hkept, hcell₁, hkeys, honce⟩ :=
                    processFields_detects (fun e he => ih (hchildren e.2 (List.mem_map_of_mem he)))
                      (hi.enter r) List.mem_cons_self hlt hentered
                  rw [hrun]
                  refine ⟨_, _, rfl, hi₁, fun a ha => hkept a (List.mem_cons_of_mem _ ha),
                    fun htrue => ?_⟩
                  have hanswer : (everyTrue o (.ref r) s₁.heap).1
                      = .prim (.bool (fields'.all fun e => isTrue e.2)) := by
                    rw [everyTrue, hcell₁, Option.all_some, List.nil_append, allTrue, hkeys]
                    rw [Bool.eq_false_iff.mpr hspecial, Bool.false_or]
                  rw [hanswer, isTrue_bool] at htrue
                  exact (honce htrue).enter hnew hkept

end

/-! ## A function that finds what is met and hidden

    It adds a key to every object it is given, in place.  An object that is met and also
    hidden in a special object has the key at both places, where a tree has it at one. -/

/-- A key that is longer than the others. -/
def stampKey (names : List String) : String := String.join names ++ "+"

def stampFields (fields : List (String × GVal)) : List (String × GVal) :=
  fields ++ [(stampKey (fields.map Prod.fst), .prim (.bool true))]

def stampCell : Cell κ → Cell κ
  | .obj proto fields => .obj proto (stampFields fields)
  | .arr items        => .arr items

def stamp : Func κ := fun v h => match v with
  | .ref r => (v, h.modify r stampCell)
  | _      => (v, h)

def stampTreeFields (fields : Fields κ) : Fields κ :=
  fields ++ [(stampKey (keys fields), .prim (.bool true))]

def stampTree : JsTree κ → JsTree κ
  | .obj proto fields => .obj proto (stampTreeFields fields)
  | t                 => t

section

variable {S : Nat → Prop} {h : Heap κ} {v : GVal} {t : JsTree κ}

theorem modify_array {r : Nat} {items : List GVal} (hcell : h[r]? = some (.arr items)) :
    h.modify r stampCell = h := by
  refine List.ext_getElem? fun a => ?_
  rw [List.getElem?_modify]
  by_cases ha : r = a
  · subst ha
    rw [hcell]
    show some (if r = r then stampCell (.arr items) else .arr items) = _
    rw [if_pos rfl]
    rfl
  · cases h[a]? with
    | none      => rfl
    | some cell => exact congrArg some (if_neg ha)

theorem stamp_realizes : Realizes (stamp (κ := κ)) stampTree where
  result S h v t hr := by
    have hwiden : ∀ r, S r → S r ∨ h.length ≤ r := fun _ => Or.inl
    cases v with
    | prim p  => rw [reads_prim.mp hr]; exact reads_prim.mpr rfl
    | oid hex => rw [reads_oid.mp hr]; exact reads_oid.mpr rfl
    | ref r =>
        obtain ⟨cell, hcell⟩ := cell_of_reads hr
        cases cell with
        | arr items =>
            have hsame : (stamp (.ref r) h).2 = h := modify_array hcell
            have ht : stampTree t = t := by
              obtain ⟨-, items', rfl, -⟩ := (reads_arr hcell).mp hr
              rfl
            rw [hsame, ht]
            exact hr.frame hwiden fun _ _ _ hc => hc
        | obj proto fields =>
            obtain ⟨hS, fields', ht, hall⟩ := (reads_obj hcell).mp hr
            have hnew : (stamp (.ref r) h).2[r]? = some (.obj proto (stampFields fields)) := by
              rw [stamp, List.getElem?_modify_eq, hcell]
              rfl
            rw [ht]
            refine (reads_obj hnew).mpr ⟨Or.inl hS, _, rfl, ?_⟩
            rw [stampFields, stampTreeFields, forall₂_keys hall]
            refine List.rel_append ?_ (.cons ⟨rfl, reads_prim.mpr rfl⟩ .nil)
            -- the values of a key do not pass the object that they are in
            have hsmaller : ∀ e' ∈ fields', sizeOf e'.2 < sizeOf t := by
              intro e' he'
              rw [ht]
              exact sizeOf_field_lt he'
            clear ht hnew hcell
            induction hall with
            | nil => exact .nil
            | cons hhead _ ih =>
                refine .cons ⟨hhead.1, ?_⟩ (ih fun e' he' =>
                  hsmaller e' (List.mem_cons_of_mem _ he'))
                refine (hr.avoids hhead.2 (hsmaller _ List.mem_cons_self)).frame
                  (fun a ha => Or.inl ha.1) fun a c ha hc => ?_
                exact (List.getElem?_modify_ne _ _ (Ne.symm ha.2)).trans hc
  length v h := by
    cases v with
    | ref r => exact Nat.le_of_eq (List.length_modify ..).symm
    | _     => exact Nat.le_refl _
  kept v h r _ hne := by
    cases v with
    | ref a =>
        have ha : a ≠ r := fun heq => hne (heq ▸ rfl)
        exact List.getElem?_modify_ne _ _ ha
    | _ => rfl

end

section

variable [DecidableEq κ] (o : Options κ) (h₀ : Heap κ)

/-- The result of a value with all that has been met stamped, over the cells in `S`. -/
def Stamped : Nat → (Nat → Prop) → Heap κ → GVal → GVal → Prop
  | _, _, _, v', .prim p     => v' = .prim p
  | _, _, _, v', .oid hex    => v' = .oid hex
  | 0, _, _, _, .ref _       => False
  | n + 1, S, heap, v', .ref r =>
      (∃ items r' items', h₀[r]? = some (.arr items) ∧ v' = .ref r' ∧ S r'
        ∧ heap[r']? = some (.arr items') ∧ List.Forall₂ (Stamped n S heap) items' items)
      ∨ ∃ proto fields fields', h₀[r]? = some (.obj proto fields) ∧ v' = .ref r ∧ S r
        ∧ heap[r]? = some (.obj proto (stampFields fields'))
        ∧ (isSpecial o proto (fields.map Prod.fst) = true ∧ fields' = fields
          ∨ isSpecial o proto (fields.map Prod.fst) = false
            ∧ List.Forall₂ (fun e' e => e'.1 = e.1 ∧ Stamped n S heap e'.2 e.2) fields' fields)

end

section

variable [DecidableEq κ] {o : Options κ} {h₀ : Heap κ}

omit [DecidableEq κ] in
/-- Stamping an object that has been met. -/
theorem step_stamp {r : Nat} {M : List Nat} {s s' : State κ} (hobj : IsObject h₀ r)
    (hstep : Step h₀ (r :: M) s s') :
    Step h₀ (r :: M) s { s' with heap := s'.heap.modify r stampCell } where
  length := by
    rw [List.length_modify]
    exact hstep.length
  kept a ha hnot := by
    have hne : r ≠ a := by
      rintro rfl
      exact hnot List.mem_cons_self hobj
    exact (List.getElem?_modify_ne _ _ hne).trans (hstep.kept a ha hnot)
  processed := hstep.processed

theorem framed_stamped (n : Nat) : Framed (Stamped o h₀ n) where
  frame := by
    induction n with
    | zero =>
        intro S S' heap heap' v' v hst hS hkept
        cases v with
        | ref r => exact hst.elim
        | _     => exact hst
    | succ n ih =>
        intro S S' heap heap' v' v hst hS hkept
        cases v with
        | prim p  => exact hst
        | oid hex => exact hst
        | ref r =>
            rcases hst with ⟨items, r', items', hcell, hv, hr, hcell', hall⟩ | ⟨proto, fields,
              fields', hcell, hv, hr, hcell', hfields⟩
            · exact .inl ⟨items, r', items', hcell, hv, hS r' hr, hkept r' _ hr hcell',
                hall.imp fun _ _ he => ih he hS hkept⟩
            · refine .inr ⟨proto, fields, fields', hcell, hv, hS r hr, hkept r _ hr hcell', ?_⟩
              refine hfields.imp id fun hopened => ⟨hopened.1, ?_⟩
              exact hopened.2.imp fun _ _ he => ⟨he.1, ih he.2 hS hkept⟩

section

variable {r : Nat}

theorem mem_flatMap_nil {ws : List GVal} {a : Nat} (h : a ∈ ws.flatMap fun _ => ([] : List Nat)) :
    a ∈ ([] : List Nat) := by
  obtain ⟨_, -, ha⟩ := List.mem_flatMap.mp h
  exact ha

theorem stamp_array {items : List GVal} (hcell : h₀[r]? = some (.arr items))
    (hf : ∀ w ∈ items, Processes h₀ (Stamped o h₀ n) (meets o h₀ n) (fun _ => [])
      (processDeep o stamp n) w) :
    Processes h₀ (Stamped o h₀ (n + 1)) (meets o h₀ (n + 1)) (fun _ => [])
      (processDeep o stamp (n + 1)) (.ref r) := by
  rw [Processes, meets_ref hcell]
  intro s hready
  obtain ⟨results, s₁, hrun, hstep, hlength, hcell₁, hall⟩ :=
    enterItems_spec (framed_stamped n) hcell hf (fun _ => mem_flatMap_nil) hready
  -- a new array is left as it is
  have hcall : call stamp (.ref s₁.heap.length) (s₁.alloc results)
      = (.ref s₁.heap.length, s₁.alloc results) := by
    show (_, { s₁.alloc results with
      heap := (s₁.alloc results).heap.modify s₁.heap.length stampCell }) = _
    rw [modify_array hcell₁]
    rfl
  exact ⟨_, _, hrun.trans (congrArg some hcall), hstep,
    .inl ⟨items, s₁.heap.length, results, hcell, rfl, Or.inr (Or.inr hlength), hcell₁, hall⟩⟩

theorem stamp_special {proto : List κ} {fields : List (String × GVal)}
    (hcell : h₀[r]? = some (.obj proto fields))
    (h : isSpecial o proto (fields.map Prod.fst) = true) :
    Processes h₀ (Stamped o h₀ (n + 1)) (meets o h₀ (n + 1)) (fun _ => [])
      (processDeep o stamp (n + 1)) (.ref r) := by
  rw [Processes, meets_ref hcell, opened_special h]
  intro s hready
  have hsame : s.heap[r]? = some (.obj proto fields) :=
    (hready.intact r (Or.inl List.mem_cons_self)).trans hcell
  have hnewCell : ((s.enter r).heap.modify r stampCell)[r]?
      = some (.obj proto (stampFields fields)) := by
    rw [List.getElem?_modify_eq, State.enter, hsame]
    rfl
  refine ⟨_, _, processDeep_special (hready.fresh r List.mem_cons_self) hsame h,
    step_stamp ⟨proto, fields, hcell⟩ (Step.refl (s.enter r)).enter, .inr ⟨proto, fields, fields,
      hcell, rfl, Or.inl List.mem_cons_self, hnewCell, Or.inl ⟨h, rfl⟩⟩⟩

theorem stamp_object {proto : List κ} {fields : List (String × GVal)}
    (hcell : h₀[r]? = some (.obj proto fields))
    (h : ¬ isSpecial o proto (fields.map Prod.fst) = true)
    (hf : ∀ e ∈ fields, Processes h₀ (Stamped o h₀ n) (meets o h₀ n) (fun _ => [])
      (processDeep o stamp n) e.2) :
    Processes h₀ (Stamped o h₀ (n + 1)) (meets o h₀ (n + 1)) (fun _ => [])
      (processDeep o stamp (n + 1)) (.ref r) := by
  rw [Processes, meets_ref hcell, opened_obj h]
  intro s hready
  obtain ⟨fields', s₁, hrun, hstep, hcell₁, hall⟩ :=
    enterFields_spec (framed_stamped n) hcell h hf (fun _ => mem_flatMap_nil) hready
  have hnewCell : (s₁.heap.modify r stampCell)[r]? = some (.obj proto (stampFields fields')) := by
    rw [List.getElem?_modify_eq, hcell₁]
    rfl
  refine ⟨_, _, hrun, step_stamp ⟨proto, fields, hcell⟩ hstep, .inr ⟨proto, fields, fields', hcell,
    rfl, Or.inl List.mem_cons_self, hnewCell, Or.inr ⟨Bool.eq_false_iff.mpr h,
      hall.imp fun e' e he => ⟨he.1, ?_⟩⟩⟩⟩
  -- the object itself is not among what its entries pass
  refine (framed_stamped n).frame he.2 (fun a ha => ?_) fun a c ha hc => ?_
  · rcases ha with ha | ha | ha
    · exact Or.inl (List.mem_cons_of_mem _ ha)
    · exact Or.inr (Or.inl (mem_flatMap_nil ha))
    · exact Or.inr (Or.inr ha)
  · have hne : r ≠ a := by
      rintro rfl
      rcases ha with ha | ha | ha
      · exact (List.nodup_cons.mp hready.nodup).1 ha
      · exact List.not_mem_nil (mem_flatMap_nil ha)
      · have hlt := Nat.lt_of_lt_of_le (hready.bounded r (Or.inl List.mem_cons_self)) hready.length
        exact absurd hlt (Nat.not_lt.mpr ha)
    exact (List.getElem?_modify_ne _ _ hne).trans hc

end

/-- **Stamping.** -/
theorem stamp_run (n : Nat) {v : GVal} (hs : Sound h₀ n v) :
    Processes h₀ (Stamped o h₀ n) (meets o h₀ n) (fun _ => []) (processDeep o stamp n) v := by
  induction n generalizing v with
  | zero =>
      cases v with
      | prim p  => exact fun s _ => ⟨_, s, rfl, Step.refl s, rfl⟩
      | oid hex => exact fun s _ => ⟨_, s, rfl, Step.refl s, rfl⟩
      | ref r   => exact hs.elim
  | succ n ih =>
      cases v with
      | prim p  => exact fun s _ => ⟨_, s, rfl, Step.refl s, rfl⟩
      | oid hex => exact fun s _ => ⟨_, s, rfl, Step.refl s, rfl⟩
      | ref r   =>
          obtain ⟨cell, hcell, hchildren⟩ := sound_ref hs
          cases cell with
          | arr items => exact stamp_array hcell fun w hw => ih (hchildren w hw)
          | obj proto fields =>
              by_cases h : isSpecial o proto (fields.map Prod.fst) = true
              · exact stamp_special hcell h
              · exact stamp_object hcell h fun e he => ih (hchildren e.2 (List.mem_map_of_mem he))

/-- An object that has been met has one key more. -/
theorem stamped_cell {S : Nat → Prop} {heap : Heap κ} {n : Nat} {v v' : GVal}
    (hst : Stamped o h₀ n S heap v' v) {u : Nat} (hu : u ∈ meets o h₀ n v) {proto : List κ}
    {fields : List (String × GVal)} (hcell : h₀[u]? = some (.obj proto fields)) :
    ∃ fields', heap[u]? = some (.obj proto fields') ∧ fields'.length = fields.length + 1 := by
  induction n generalizing v v' with
  | zero => cases v <;> exact absurd hu List.not_mem_nil
  | succ n ih =>
      cases v with
      | prim p  => exact absurd hu List.not_mem_nil
      | oid hex => exact absurd hu List.not_mem_nil
      | ref r =>
          rcases hst with ⟨items, r', items', hr, -, -, -, hall⟩ | ⟨proto', fields₀, fields', hr, -,
            -, hr', hfields⟩
          · rw [meets_ref hr] at hu
            rcases List.mem_cons.mp hu with rfl | hu
            · rw [hr] at hcell
              cases hcell
            · obtain ⟨w, hw, hu⟩ := List.mem_flatMap.mp hu
              obtain ⟨v', hst⟩ := forall₂_exists hall hw
              exact ih hst hu
          · rw [meets_ref hr] at hu
            rcases List.mem_cons.mp hu with rfl | hu
            · rw [hr] at hcell
              cases hcell
              refine ⟨_, hr', ?_⟩
              rw [stampFields, List.length_append, List.length_singleton]
              rcases hfields with ⟨-, rfl⟩ | ⟨-, hall⟩
              · rfl
              · rw [hall.length_eq]
            · obtain ⟨w, hw, hu⟩ := List.mem_flatMap.mp hu
              rcases hfields with ⟨hspecial, -⟩ | ⟨hspecial, hall⟩
              · rw [opened_special hspecial] at hw
                exact absurd hw List.not_mem_nil
              · rw [opened_obj (Bool.eq_false_iff.mp hspecial)] at hw
                obtain ⟨e, he, rfl⟩ := List.mem_map.mp hw
                obtain ⟨e', -, hst⟩ := forall₂_exists hall he
                exact ih hst hu

section

variable {S : Nat → Prop} {heap : Heap κ} {M : List Nat}
  (hmet : ∀ u ∈ M, ∀ proto fields, h₀[u]? = some (.obj proto fields) →
    ∃ fields', heap[u]? = some (.obj proto fields') ∧ fields'.length = fields.length + 1)
  (hkept : ∀ u < h₀.length, (u ∈ M → ¬ IsObject h₀ u) → heap[u]? = h₀[u]?)
include hmet hkept

omit [DecidableEq κ] in
/-- A value that still reads as it did passes no object that has been met. -/
theorem not_met_of_reads (k : Nat) {w : GVal} (hs : Sound h₀ k w)
    (hread : Reads S heap w (h₀.view k w)) {r : Nat} (hr : r ∈ passes h₀ k w)
    (hobj : IsObject h₀ r) : r ∉ M := by
  induction k generalizing w with
  | zero => cases w <;> exact absurd hr List.not_mem_nil
  | succ k ih =>
      cases w with
      | prim p  => exact absurd hr List.not_mem_nil
      | oid hex => exact absurd hr List.not_mem_nil
      | ref a =>
          obtain ⟨cell, hcell, hchildren⟩ := sound_ref hs
          have hlt : a < h₀.length := (List.getElem?_eq_some_iff.mp hcell).1
          rw [Heap.view, hcell] at hread
          cases cell with
          | obj proto fields =>
              dsimp only at hread
              -- with a key more it would read otherwise
              have hunmet : a ∉ M := by
                intro hmem
                obtain ⟨fields', hcell', hlength⟩ := hmet a hmem proto fields hcell
                obtain ⟨-, fields'', heq, hall⟩ := (reads_obj hcell').mp hread
                cases heq
                have hsame := hall.length_eq
                rw [List.length_map] at hsame
                omega
              have hcell' : heap[a]? = some (.obj proto fields) :=
                (hkept a hlt fun hmem => absurd hmem hunmet).trans hcell
              rw [passes, hcell] at hr
              rcases List.mem_cons.mp hr with rfl | hr
              · exact hunmet
              · obtain ⟨w, hw, hr⟩ := List.mem_flatMap.mp hr
                obtain ⟨e, he, rfl⟩ := List.mem_map.mp hw
                obtain ⟨-, fields'', heq, hall⟩ := (reads_obj hcell').mp hread
                cases heq
                rw [List.forall₂_map_right_iff, List.forall₂_same] at hall
                exact ih (hchildren _ hw) (hall e he).2 hr
          | arr items =>
              dsimp only at hread
              have hcell' : heap[a]? = some (.arr items) := by
                refine (hkept a hlt fun _ hobj => ?_).trans hcell
                obtain ⟨proto, fields, hobj⟩ := hobj
                rw [hcell] at hobj
                cases hobj
              rw [passes, hcell] at hr
              rcases List.mem_cons.mp hr with rfl | hr
              · obtain ⟨proto, fields, hobj⟩ := hobj
                rw [hcell] at hobj
                cases hobj
              · obtain ⟨w, hw, hr⟩ := List.mem_flatMap.mp hr
                obtain ⟨-, items'', heq, hall⟩ := (reads_arr hcell').mp hread
                cases heq
                rw [List.forall₂_map_right_iff, List.forall₂_same] at hall
                exact ih (hchildren _ hw) (hall w hw) hr

/-- If the stamped value reads as it is meant to, nothing that is hidden has been met. -/
theorem hidden_not_met (n : Nat) {S' : Nat → Prop} {v v' : GVal} (hs : Sound h₀ n v)
    (hst : Stamped o h₀ n S' heap v' v)
    (hread : Reads S heap v' (processTree o stampTree (h₀.view n v))) {r : Nat}
    (hr : r ∈ hidden o h₀ n v) (hobj : IsObject h₀ r) : r ∉ M := by
  induction n generalizing v v' with
  | zero => cases v <;> exact absurd hr List.not_mem_nil
  | succ n ih =>
      cases v with
      | prim p  => exact absurd hr List.not_mem_nil
      | oid hex => exact absurd hr List.not_mem_nil
      | ref a =>
          obtain ⟨cell, hcell, hchildren⟩ := sound_ref hs
          rw [Heap.view, hcell] at hread
          rcases hst with ⟨items, r', items', hcell', rfl, -, hheap, hall⟩ | ⟨proto, fields,
            fields', hcell', rfl, -, hheap, hfields⟩
          · rw [hcell] at hcell'
            cases hcell'
            rw [hidden_arr hcell] at hr
            obtain ⟨w, hw, hr⟩ := List.mem_flatMap.mp hr
            change Reads S heap (.ref r')
              (.arr (processTrees o stampTree (items.map (h₀.view n)))) at hread
            obtain ⟨-, items'', heq, hreads⟩ := (reads_arr hheap).mp hread
            cases heq
            rw [processTrees_eq_map, List.map_map, List.forall₂_map_right_iff] at hreads
            obtain ⟨v', hst, hread⟩ := forall₂_exists (forall₂_and hall hreads) hw
            exact ih (hchildren w hw) hst hread hr
          · rw [hcell] at hcell'
            cases hcell'
            dsimp only at hread
            rw [processTree, keys_view] at hread
            rcases hfields with ⟨hspecial, rfl⟩ | ⟨hspecial, hall⟩
            · -- what is in a special object must read as it did
              rw [hidden_special hcell hspecial] at hr
              rw [if_pos hspecial, stampTree] at hread
              obtain ⟨-, fields'', heq, hreads⟩ := (reads_obj hheap).mp hread
              cases heq
              obtain ⟨hreads, -⟩ := forall₂_append_singleton hreads
              rw [List.forall₂_map_right_iff, List.forall₂_same] at hreads
              obtain ⟨w, hw, hr⟩ := List.mem_flatMap.mp hr
              obtain ⟨e, he, rfl⟩ := List.mem_map.mp hw
              exact not_met_of_reads hmet hkept n (hchildren _ hw) (hreads e he).2 hr hobj
            · have hnot := Bool.eq_false_iff.mp hspecial
              rw [hidden_obj hcell hnot] at hr
              rw [if_neg hnot, stampTree] at hread
              obtain ⟨-, fields'', heq, hreads⟩ := (reads_obj hheap).mp hread
              cases heq
              obtain ⟨hreads, -⟩ := forall₂_append_singleton hreads
              rw [processTreeFields_eq_map, List.map_map, List.forall₂_map_right_iff] at hreads
              obtain ⟨w, hw, hr⟩ := List.mem_flatMap.mp hr
              obtain ⟨e, he, rfl⟩ := List.mem_map.mp hw
              obtain ⟨e', ⟨-, hst⟩, -, hread⟩ := forall₂_exists (forall₂_and hall hreads) he
              exact ih (hchildren _ hw) hst hread hr

end

end

/-! ## The result -/

/-- **Deep processing.**  For a finite acyclic value, what `processDeep` returns reads as
    the processed unfolding, whatever the function, exactly if nothing is shared. -/
theorem processDeep_iff [DecidableEq κ] (o : Options κ) (g : Graph κ) :
    (∀ (func : Func κ) (F : JsTree κ → JsTree κ), Realizes func F →
      ∃ v' s', processDeep o func g.depth g.root ⟨g.heap, []⟩ = some (v', s')
        ∧ Reads (fun _ => True) s'.heap v' (processTree o F g.unfolding)) ↔ Unshared o g := by
  have hs : Sound g.heap g.depth g.root := g.unfolds
  have hbounded : ∀ r, r ∈ meets o g.heap g.depth g.root ∨ r ∈ hidden o g.heap g.depth g.root →
      r < g.heap.length := fun r hr => passes_lt hs r (mem_passes_of_met g.depth g.root r hr)
  constructor
  · intro hall
    have honce : (meets o g.heap g.depth g.root).Nodup := by
      obtain ⟨v', s', hrun, hread⟩ := hall (everyTrue o) (everyTrueTree o) everyTrue_realizes
      obtain ⟨v'', s'', hrun', -, -, hdetects⟩ :=
        everyTrue_detects g.depth hs ⟨g.heap, []⟩ ⟨Nat.le_refl _, fun _ _ _ => rfl⟩
      rw [hrun] at hrun'
      cases hrun'
      rw [Graph.unfolding, processTree_everyTrue] at hread
      exact (hdetects (reads_isTrue hread)).nodup
    refine ⟨honce, fun r hr hobj => ?_⟩
    obtain ⟨v', s', hrun, hread⟩ := hall stamp stampTree stamp_realizes
    have hready : Ready g.heap (meets o g.heap g.depth g.root) [] ⟨g.heap, []⟩ :=
      { bounded := fun r hr => hbounded r (hr.imp_right fun h => absurd h List.not_mem_nil)
        length  := Nat.le_refl _
        intact  := fun _ _ => rfl
        nodup   := honce
        fresh   := fun _ _ => List.not_mem_nil
        apart   := fun _ h => absurd h List.not_mem_nil }
    obtain ⟨v'', s'', hrun', hstep, hstamped⟩ := stamp_run g.depth hs _ hready
    rw [hrun] at hrun'
    cases hrun'
    exact hidden_not_met (fun u hu proto fields hcell => stamped_cell hstamped hu hcell) hstep.kept
      g.depth hs hstamped hread hr hobj
  · intro hunshared func F hF
    have hready : Ready g.heap (meets o g.heap g.depth g.root) (hidden o g.heap g.depth g.root)
        ⟨g.heap, []⟩ :=
      { bounded := hbounded
        length  := Nat.le_refl _
        intact  := fun _ _ => rfl
        nodup   := hunshared.once
        fresh   := fun _ _ => List.not_mem_nil
        apart   := hunshared.apart }
    obtain ⟨v', s', hrun, -, hread⟩ := processDeep_of_ready hF g.depth hs _ hready
    exact ⟨v', s', hrun, Reads.frame hread (fun _ _ => trivial) fun _ _ _ hc => hc⟩

/-! ### A user at two places of a response -/

/-- The only class, with a method `securityCheck`. -/
def userClasses : ClassTable Unit := ⟨fun _ => "User", fun _ sF => sF = "securityCheck"⟩

/-- The options of `CheckSecurityInterceptor`. -/
def checkOptions : Options Unit := { classes := userClasses, specialFunctions := ["securityCheck"] }

/-- `{ author: user, editor: user }` -/
def response : Graph Unit where
  heap   := [.obj [] [("author", .ref 1), ("editor", .ref 1)],
    .obj [()] [("email", .prim (.str "user@example.com"))]]
  root   := .ref 0
  rank r := 1 - r
  rooted := by decide
  falls  := by
    intro r cell hcell
    match r with
    | 0     => cases hcell; decide
    | 1     => cases hcell; decide
    | _ + 2 => cases hcell

/-- A user is removed. -/
def removeUser : Func Unit := fun v h => match v with
  | .ref r => match h[r]? with
    | some (.obj [()] _) => (.prim .null, h)
    | _                  => (v, h)
  | _ => (v, h)

def removeUserTree : JsTree Unit → JsTree Unit
  | .obj [()] _ => .prim .null
  | t           => t

theorem removeUser_heap (v : GVal) (h : Heap Unit) : (removeUser v h).2 = h := by
  unfold removeUser
  repeat' split
  all_goals rfl

theorem removeUser_realizes : Realizes removeUser removeUserTree where
  result S h v t hr := by
    have hwiden : ∀ r, S r → S r ∨ h.length ≤ r := fun _ => Or.inl
    cases v with
    | prim p  => rw [reads_prim.mp hr]; exact reads_prim.mpr rfl
    | oid hex => rw [reads_oid.mp hr]; exact reads_oid.mpr rfl
    | ref r =>
        obtain ⟨cell, hcell⟩ := cell_of_reads hr
        rw [removeUser, hcell]
        cases cell with
        | arr items =>
            obtain ⟨-, items', rfl, -⟩ := (reads_arr hcell).mp hr
            exact hr.frame hwiden fun _ _ _ hc => hc
        | obj proto fields =>
            obtain ⟨-, fields', rfl, -⟩ := (reads_obj hcell).mp hr
            match proto with
            | []          => exact hr.frame hwiden fun _ _ _ hc => hc
            | [()]        => exact reads_prim.mpr rfl
            | _ :: _ :: _ => exact hr.frame hwiden fun _ _ _ hc => hc
  length v h := Nat.le_of_eq (by rw [removeUser_heap])
  kept v h r _ _ := by rw [removeUser_heap]

/-- The second place keeps the user. -/
theorem processDeep_keeps_second :
    ¬ ∀ (o : Options Unit) (g : Graph Unit) (func : Func Unit) (F : JsTree Unit → JsTree Unit),
      Realizes func F → ∃ v' s', processDeep o func g.depth g.root ⟨g.heap, []⟩ = some (v', s')
        ∧ Reads (fun _ => True) s'.heap v' (processTree o F g.unfolding) := by
  intro hclaim
  obtain ⟨v', s', hrun, hread⟩ :=
    hclaim checkOptions response removeUser removeUserTree removeUser_realizes
  have hcode : processDeep checkOptions removeUser response.depth response.root ⟨response.heap, []⟩
      = some (.ref 0, ⟨[.obj [] [("author", .prim .null), ("editor", .ref 1)],
        .obj [()] [("email", .prim (.str "user@example.com"))]], [1, 0]⟩) := rfl
  have hmeant : processTree checkOptions removeUserTree response.unfolding
      = .obj [] [("author", .prim .null), ("editor", .prim .null)] := rfl
  rw [hcode] at hrun
  cases hrun
  rw [hmeant] at hread
  obtain ⟨-, fields, heq, hall⟩ := (reads_obj rfl).mp hread
  cases heq
  obtain ⟨-, hall⟩ := List.forall₂_cons.mp hall
  obtain ⟨⟨-, n, heditor⟩, -⟩ := List.forall₂_cons.mp hall
  exact absurd heditor.isNullish (by decide)

end ProcessDeep
