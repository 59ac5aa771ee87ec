import NestServer.TenantReadIsolation
import Mathlib.Logic.Function.Iterate
import Mathlib.Data.List.Induction

/-! # Pipelines that are run again

    The `aggregate` hook edits the stage objects it is handed.  A pipeline kept as
    a constant meets the hook again with the edits of every earlier run on it,
    while the list around the stages is fresh for each run.

    An object that is edited has an identity, under which a store keeps what the
    rewrites have left on it; the same object may stand at several places.
    `rewrites_independent_iff` says which runs come out as if each had copied the
    stages first. -/

open Mongo

namespace TenantPlugin

/-- A stage object.  `ref` is the identity of the object that the hook edits. -/
inductive StageObject where
  | match_ (filter : FilterQuery)
  | other (run : Env → List Row → Option (List Row))
  | lookup (ref : Nat) (source : Option String) (joins : Env → Row → Row → Bool)
      (bind : Env → Row → Env) (pipeline : List StageObject) (attach : Row → List Row → Row)
  | unionWithName (ref : Nat) (coll : String)
  | unionWith (ref : Nat) (coll : Option String) (pipeline : List StageObject)
  | graphLookup (ref : Nat) (g : GraphLookup)
  | facet (branches : List (String × List StageObject)) (combine : List (String × List Row) → Row)
  | write

/-- What the rewrites have left on an object: `$match` stages in front of its own
    sub-pipeline, the latest first, or a `restrictSearchWithMatch`. -/
structure Edits where
  guards : List FilterQuery := []
  restrictSearchWithMatch : Option FilterQuery := none

abbrev Store := Nat → Edits

/-- No object is edited: what a deep copy of the original stages starts from. -/
def Store.fresh : Store := fun _ => {}

/-- How an edited object reads its collection. -/
inductive Reader where
  /-- through a sub-pipeline: `$lookup` and `$unionWith` -/
  | pipeline (source : Option String)
  | graph (g : GraphLookup)

/-! ## The stages as they are now -/

section View

variable (store : Store)

mutual

/-- A stage object with the edits on it. -/
def view : StageObject → Stage
  | .match_ filter => .match_ filter
  | .other run     => .other run
  | .lookup ref source joins bind pipeline attach =>
      .lookup source joins bind ((store ref).guards.map .match_ ++ viewPipeline pipeline) attach
  | .unionWithName ref coll => match (store ref).guards with
      | []               => .unionWithName coll
      | filter :: guards => .unionWith (some coll) (.match_ filter :: guards.map .match_)
  | .unionWith ref coll pipeline =>
      .unionWith coll ((store ref).guards.map .match_ ++ viewPipeline pipeline)
  | .graphLookup ref g => .graphLookup { g with
      restrictSearchWithMatch :=
        (store ref).restrictSearchWithMatch.getD g.restrictSearchWithMatch }
  | .facet branches combine => .facet (viewBranches branches) combine
  | .write => .write

def viewPipeline : List StageObject → List Stage
  | []              => []
  | stage :: stages => view stage :: viewPipeline stages

def viewBranches : List (String × List StageObject) → List (String × List Stage)
  | []                           => []
  | (name, pipeline) :: branches => (name, viewPipeline pipeline) :: viewBranches branches

end

end View

/-! ## The hook -/

section Secure

variable (filterFor : Option String → Option FilterQuery)

/-- The edit of one object: `pipeline = [{ $match: filter }, ...(pipeline ?? [])]`, or
    `restrictSearchWithMatch = { ...restrictSearchWithMatch, ...filter }`. -/
def Reader.edit : Reader → Edits → Edits
  | .pipeline source, e => match filterFor source with
      | some filter => { e with guards := filter :: e.guards }
      | none        => e
  | .graph g, e => match filterFor (some g.source) with
      | some filter => { e with
          restrictSearchWithMatch :=
            some ((e.restrictSearchWithMatch.getD g.restrictSearchWithMatch).spread filter) }
      | none        => e

def Store.edit (store : Store) (o : Nat × Reader) : Store :=
  Function.update store o.1 (o.2.edit filterFor (store o.1))

mutual

/-- One stage of `secureCrossCollectionStages`, on the objects themselves. -/
def secureObject : StageObject → Store → Store
  | .lookup ref source _ _ pipeline _, store =>
      secureObjects pipeline (store.edit filterFor (ref, .pipeline source))
  | .unionWithName ref coll, store => store.edit filterFor (ref, .pipeline (some coll))
  | .unionWith ref coll pipeline, store =>
      secureObjects pipeline (store.edit filterFor (ref, .pipeline coll))
  | .graphLookup ref g, store => store.edit filterFor (ref, .graph g)
  | .facet branches _, store => secureBranchObjects branches store
  | .match_ _, store | .other _, store | .write, store => store

/-- `secureCrossCollectionStages(pipeline, model)` -/
def secureObjects : List StageObject → Store → Store
  | [], store              => store
  | stage :: stages, store => secureObjects stages (secureObject stage store)

def secureBranchObjects : List (String × List StageObject) → Store → Store
  | [], store                        => store
  | (_, pipeline) :: branches, store => secureBranchObjects branches (secureObjects pipeline store)

end

end Secure

/-- The exception for `$out` and `$merge`. -/
def writeStageRefused : ForbiddenException :=
  ⟨"Aggregation write stages ($out / $merge) are not permitted inside a tenant context — "
    ++ "they cannot be tenant-filtered. Run them as a system operation if this is intended."⟩

/-! ## The objects of a pipeline -/

mutual

/-- The objects the hook visits in a stage, with how each reads its collection. -/
def readers : StageObject → List (Nat × Reader)
  | .lookup ref source _ _ pipeline _ => (ref, .pipeline source) :: readersIn pipeline
  | .unionWithName ref coll           => [(ref, .pipeline (some coll))]
  | .unionWith ref coll pipeline      => (ref, .pipeline coll) :: readersIn pipeline
  | .graphLookup ref g                => [(ref, .graph g)]
  | .facet branches _                 => readersInBranches branches
  | .match_ _ | .other _ | .write     => []

def readersIn : List StageObject → List (Nat × Reader)
  | []              => []
  | stage :: stages => readers stage ++ readersIn stages

def readersInBranches : List (String × List StageObject) → List (Nat × Reader)
  | []                        => []
  | (_, pipeline) :: branches => readersIn pipeline ++ readersInBranches branches

end

section Fold

variable (filterFor : Option String → Option FilterQuery)

mutual

/-- The hook edits one object after the other. -/
theorem secureObject_eq : ∀ (stage : StageObject) (store : Store),
    secureObject filterFor stage store = (readers stage).foldl (Store.edit filterFor) store
  | .match_ _, _ => rfl
  | .other _, _ => rfl
  | .write, _ => rfl
  | .lookup _ _ _ _ pipeline _, _ => secureObjects_eq pipeline _
  | .unionWithName _ _, _ => rfl
  | .unionWith _ _ pipeline, _ => secureObjects_eq pipeline _
  | .graphLookup _ _, _ => rfl
  | .facet branches _, store => secureBranchObjects_eq branches store

theorem secureObjects_eq : ∀ (pipeline : List StageObject) (store : Store),
    secureObjects filterFor pipeline store
      = (readersIn pipeline).foldl (Store.edit filterFor) store
  | [], _ => rfl
  | stage :: stages, store => by
      rw [secureObjects, readersIn, List.foldl_append, ← secureObject_eq stage store]
      exact secureObjects_eq stages _

theorem secureBranchObjects_eq : ∀ (branches : List (String × List StageObject)) (store : Store),
    secureBranchObjects filterFor branches store
      = (readersInBranches branches).foldl (Store.edit filterFor) store
  | [], _ => rfl
  | (_, pipeline) :: branches, store => by
      rw [secureBranchObjects, readersInBranches, List.foldl_append,
        ← secureObjects_eq pipeline store]
      exact secureBranchObjects_eq branches _

end

/-- Every visit of an object is one more edit of it. -/
theorem foldl_edit {os : List (Nat × Reader)} {o : Nat × Reader} (store : Store)
    (hsame : ∀ o' ∈ os, o'.1 = o.1 → o' = o) :
    (os.foldl (Store.edit filterFor) store) o.1
      = (o.2.edit filterFor)^[os.countP fun o' => o'.1 = o.1] (store o.1) := by
  induction os generalizing store with
  | nil => rfl
  | cons o' os ih =>
      have ih := ih (store.edit filterFor o') fun o'' ho'' =>
          hsame o'' (List.mem_cons_of_mem _ ho'')
      rw [List.foldl_cons, ih]
      by_cases href : o'.1 = o.1
      · have heq := hsame o' List.mem_cons_self href
        subst heq
        rw [List.countP_cons_of_pos (by simp), Store.edit, Function.update_self,
          Function.iterate_succ_apply]
      · rw [List.countP_cons_of_neg (by simpa using href), Store.edit,
          Function.update_of_ne (Ne.symm href)]

end Fold

/-! ## Runs -/

/-- A pipeline of a model, as a constant holds it; what has one identity is one
    object. -/
structure Constant where
  models : List Model
  model  : Model
  stages : List StageObject
  single : ∀ o ∈ readersIn stages, ∀ o' ∈ readersIn stages, o'.1 = o.1 → o' = o

namespace Constant

variable (k : Constant)

/-- One run of the `aggregate` hook: the rewritten pipeline, and the store after
    it. -/
def aggregate (s : Surroundings) (store : Store) :
    Except ForbiddenException (List Stage) × Store :=
  match resolveTenantFilter s k.model.name with
  | .error e => (.error e, store)
  | .ok none => (.ok (viewPipeline store k.stages), store)
  | .ok (some filter) =>
      if (viewPipeline store k.stages).any isWriteStage then (.error writeStageRefused, store)
      else
        let store' := secureObjects (filterForCollection s k.models) k.stages store
        (.ok (.match_ filter :: viewPipeline store' k.stages), store')

/-- What one run after the other is rewritten to. -/
def runs : Store → List Surroundings → List (Except ForbiddenException (List Stage))
  | _, []          => []
  | store, s :: ss => (k.aggregate s store).1 :: runs (k.aggregate s store).2 ss

/-- The store after one run after the other. -/
def storeAfter (store : Store) (ss : List Surroundings) : Store :=
  ss.foldl (fun store s => (k.aggregate s store).2) store

/-- The stages in front of the rewritten ones, or the refusal. -/
def head (s : Surroundings) : Except ForbiddenException (List Stage) :=
  match resolveTenantFilter s k.model.name with
  | .error e => .error e
  | .ok none => .ok []
  | .ok (some filter) =>
      if (viewPipeline .fresh k.stages).any isWriteStage then .error writeStageRefused
      else .ok [.match_ filter]

/-- The filter a run puts on the reads of a collection. -/
def injected (s : Surroundings) : Option String → Option FilterQuery :=
  match k.head s with
  | .ok (_ :: _) => filterForCollection s k.models
  | _            => fun _ => none

/-- The filter that the last of the runs to do so has put on a collection. -/
def lastInjected (earlier : List Surroundings) (source : Option String) : Option FilterQuery :=
  earlier.reverse.findSome? fun s => k.injected s source

end Constant

/-- Edits of earlier runs that make no difference to a run: none of a
    sub-pipeline; of a traversal those that the run overwrites, or that ask what
    the traversal asks anyway. -/
def Reader.Unaffected (last now : Option String → Option FilterQuery) : Reader → Prop
  | .pipeline source => last source = none
  | .graph g => (now (some g.source)).isSome = true ∨ ∀ F, last (some g.source) = some F →
      g.restrictSearchWithMatch.spread F = g.restrictSearchWithMatch

/-- A run that is refused anyway, or that no earlier edit makes a difference to. -/
def Constant.Unaffected (k : Constant) (earlier : List Surroundings) (s : Surroundings) : Prop :=
  (∃ e, k.head s = .error e)
    ∨ ∀ o ∈ readersIn k.stages, o.2.Unaffected (k.lastInjected earlier) (k.injected s)

/-! ## Two stores that show one pipeline -/

/-- An object shows the same under two edits. -/
def Reader.Same : Reader → Edits → Edits → Prop
  | .pipeline _, e, e' => e.guards = e'.guards
  | .graph g, e, e' => e.restrictSearchWithMatch.getD g.restrictSearchWithMatch
      = e'.restrictSearchWithMatch.getD g.restrictSearchWithMatch

section Same

variable {store store' : Store}

theorem length_viewPipeline (pipeline : List StageObject) :
    (viewPipeline store pipeline).length = pipeline.length := by
  induction pipeline with
  | nil => rfl
  | cons stage stages ih => exact congrArg (· + 1) ih

theorem map_match_inj {guards guards' : List FilterQuery} :
    guards.map Stage.match_ = guards'.map Stage.match_ ↔ guards = guards' :=
  (List.map_injective_iff.mpr fun _ _ => Stage.match_.inj).eq_iff

theorem guarded_eq_iff {guards guards' : List FilterQuery} {pipeline : List StageObject} :
    guards.map Stage.match_ ++ viewPipeline store pipeline
        = guards'.map Stage.match_ ++ viewPipeline store' pipeline
      ↔ guards = guards' ∧ viewPipeline store pipeline = viewPipeline store' pipeline := by
  constructor
  · intro h
    obtain ⟨hguards, hpipeline⟩ := List.append_inj' h
      ((length_viewPipeline pipeline).trans (length_viewPipeline pipeline).symm)
    exact ⟨map_match_inj.mp hguards, hpipeline⟩
  · rintro ⟨rfl, hpipeline⟩
    rw [hpipeline]

mutual

theorem view_eq_iff : ∀ stage : StageObject, view store stage = view store' stage
    ↔ ∀ o ∈ readers stage, o.2.Same (store o.1) (store' o.1)
  | .match_ _ => iff_of_true rfl fun _ h => absurd h List.not_mem_nil
  | .other _ => iff_of_true rfl fun _ h => absurd h List.not_mem_nil
  | .write => iff_of_true rfl fun _ h => absurd h List.not_mem_nil
  | .lookup ref source _ _ pipeline _ => by
      rw [view, view, Stage.lookup.injEq, readers, List.forall_mem_cons,
        ← viewPipeline_eq_iff pipeline, guarded_eq_iff]
      simp [Reader.Same]
  | .unionWithName ref coll => by
      rw [view, view, readers, List.forall_mem_singleton, Reader.Same]
      cases hg : (store ref).guards with
      | nil =>
          cases hg' : (store' ref).guards with
          | nil => simp
          | cons filter' guards' => simp
      | cons filter guards =>
          cases hg' : (store' ref).guards with
          | nil => simp
          | cons filter' guards' => simp [map_match_inj]
  | .unionWith ref coll pipeline => by
      rw [view, view, Stage.unionWith.injEq, readers, List.forall_mem_cons,
        ← viewPipeline_eq_iff pipeline, guarded_eq_iff]
      simp [Reader.Same]
  | .graphLookup ref g => by
      rw [view, view, Stage.graphLookup.injEq, GraphLookup.mk.injEq, readers,
        List.forall_mem_singleton]
      simp [Reader.Same]
  | .facet branches _ => by
      rw [view, view, Stage.facet.injEq, readers, ← viewBranches_eq_iff branches]
      exact and_iff_left rfl

theorem viewPipeline_eq_iff : ∀ pipeline : List StageObject,
    viewPipeline store pipeline = viewPipeline store' pipeline
      ↔ ∀ o ∈ readersIn pipeline, o.2.Same (store o.1) (store' o.1)
  | [] => iff_of_true rfl fun _ h => absurd h List.not_mem_nil
  | stage :: stages => by
      rw [viewPipeline, viewPipeline, List.cons.injEq, view_eq_iff stage,
        viewPipeline_eq_iff stages, readersIn, List.forall_mem_append]

theorem viewBranches_eq_iff : ∀ branches : List (String × List StageObject),
    viewBranches store branches = viewBranches store' branches
      ↔ ∀ o ∈ readersInBranches branches, o.2.Same (store o.1) (store' o.1)
  | [] => iff_of_true rfl fun _ h => absurd h List.not_mem_nil
  | (_, pipeline) :: branches => by
      rw [viewBranches, viewBranches, List.cons.injEq, Prod.mk.injEq, viewPipeline_eq_iff pipeline,
        viewBranches_eq_iff branches, readersInBranches, List.forall_mem_append,
        and_iff_right rfl]

end

variable (store') in
/-- Edits make no stage one that writes. -/
theorem any_isWriteStage (pipeline : List StageObject) :
    (viewPipeline store pipeline).any isWriteStage
      = (viewPipeline store' pipeline).any isWriteStage := by
  induction pipeline with
  | nil => rfl
  | cons stage stages ih =>
      have hstage : isWriteStage (view store stage) = isWriteStage (view store' stage) := by
        cases stage with
        | unionWithName ref coll =>
            rw [view, view]
            cases (store ref).guards with
            | nil => cases (store' ref).guards with
              | nil => rfl
              | cons filter' guards' => rfl
            | cons filter guards => cases (store' ref).guards with
              | nil => rfl
              | cons filter' guards' => rfl
        | _ => rfl
      rw [viewPipeline, viewPipeline, List.any_cons, List.any_cons, hstage, ih]

end Same

/-! ## What the visits of a run leave on an object -/

/-- A tenant's filter asks for `tenantId` and nothing else. -/
def AsksTenant (F : FilterQuery) : Prop := ∃ c, F = OrderedMap.empty.set "tenantId" c

theorem asksTenant_filterForCollection {s : Surroundings} {models : List Model}
    {source : Option String} {F : FilterQuery} (h : filterForCollection s models source = some F) :
    AsksTenant F := by
  rw [filterForCollection.eq_def] at h
  split at h
  · cases h
  · split at h
    · cases h
    · split at h
      · cases h
      · split at h
        · cases h
        · split at h
          · rename_i name _ candidate _ _ filter hfilter
            rw [resolveTenantFilter] at hfilter
            split at h
            · cases h
            · rename_i hsize
              cases h
              split at hfilter
              · cases hfilter
              · dsimp only at hfilter
                split at hfilter
                · cases hfilter
                  exact ⟨_, rfl⟩
                · cases hfilter
                  exact ⟨_, rfl⟩
                · split at hfilter
                  · cases hfilter
                    exact absurd rfl hsize
                  · cases hfilter
          · cases h

/-- The later of two tenants' filters takes the place of the earlier. -/
theorem spread_spread {f F F' : FilterQuery} (hF : AsksTenant F) (hF' : AsksTenant F') :
    (f.spread F).spread F' = f.spread F' := by
  obtain ⟨c, rfl⟩ := hF
  obtain ⟨c', rfl⟩ := hF'
  exact OrderedMap.set_set f "tenantId" c c'

section Visits

variable {last now : Option String → Option FilterQuery} {e : Edits} {n : Nat}

theorem edit_unfiltered (r : Reader) (e : Edits) : r.edit (fun _ => none) e = e := by
  cases r with
  | pipeline source => rfl
  | graph g => rfl

variable (now) in
theorem guards_visited (source : Option String) (n : Nat) (e : Edits) :
    (((Reader.pipeline source).edit now)^[n] e).guards
      = List.replicate n ((now source).getD .empty) ++ e.guards ∧ now source ≠ none
    ∨ (((Reader.pipeline source).edit now)^[n] e).guards = e.guards ∧ now source = none := by
  cases hnow : now source with
  | none =>
      have hedit : (Reader.pipeline source).edit now = id := by
        funext e
        rw [Reader.edit, hnow]
        rfl
      rw [hedit, Function.iterate_id]
      exact .inr ⟨rfl, rfl⟩
  | some F =>
      refine .inl ⟨?_, nofun⟩
      rw [Option.getD_some]
      induction n generalizing e with
      | zero => rfl
      | succ n ih =>
          rw [Function.iterate_succ_apply, ih, Reader.edit, hnow, List.replicate_succ',
            List.append_assoc]
          rfl

theorem restrict_visited {g : GraphLookup} {F : FilterQuery} (hnow : now (some g.source) = some F)
    (hF : AsksTenant F) (n : Nat) (e : Edits) :
    (((Reader.graph g).edit now)^[n + 1] e).restrictSearchWithMatch.getD g.restrictSearchWithMatch
      = (e.restrictSearchWithMatch.getD g.restrictSearchWithMatch).spread F := by
  induction n generalizing e with
  | zero =>
      rw [Function.iterate_one, Reader.edit, hnow]
      rfl
  | succ n ih =>
      rw [Function.iterate_succ_apply, ih, Reader.edit, hnow]
      exact spread_spread hF hF

/-- What the runs so far have left on an object. -/
def Reader.Left (last : Option String → Option FilterQuery) : Reader → Edits → Prop
  | .pipeline source, e => e.guards = [] ↔ last source = none
  | .graph g, e => e.restrictSearchWithMatch.getD g.restrictSearchWithMatch
      = (last (some g.source)).elim g.restrictSearchWithMatch g.restrictSearchWithMatch.spread

/-- A run that visits an object leaves its own filter on it, or what was there. -/
theorem Reader.Left.visit {r : Reader} (h : r.Left last e) (hn : n ≠ 0)
    (hlast : ∀ source F, last source = some F → AsksTenant F)
    (hnow : ∀ source F, now source = some F → AsksTenant F) :
    r.Left (fun source => (now source).or (last source)) ((r.edit now)^[n] e) := by
  obtain ⟨n, rfl⟩ := Nat.exists_eq_succ_of_ne_zero hn
  cases r with
  | pipeline source =>
      show _ = [] ↔ (now source).or (last source) = none
      rcases guards_visited now source (n + 1) e with ⟨hguards, hsome⟩ | ⟨hguards, hnone⟩
      · rw [hguards]
        refine iff_of_false (by simp [List.replicate_succ]) ?_
        intro hor
        exact hsome (Option.or_eq_none_iff.mp hor).1
      · rw [hguards, hnone, Option.none_or]
        exact h
  | graph g =>
      show Option.getD _ _ = ((now (some g.source)).or (last (some g.source))).elim _ _
      cases hF : now (some g.source) with
      | none =>
          have hedit : (Reader.graph g).edit now e = e := by
            rw [Reader.edit, hF]
          rw [Function.iterate_fixed hedit, Option.none_or]
          exact h
      | some F =>
          rw [restrict_visited hF (hnow _ F hF), Option.some_or, h]
          cases hl : last (some g.source) with
          | none => rfl
          | some F' => exact spread_spread (hlast _ F' hl) (hnow _ F hF)

/-- A run shows a visited object as a run on a copy does, exactly when the
    earlier edits make no difference. -/
theorem Reader.Left.same_iff {r : Reader} (h : r.Left last e) (hn : n ≠ 0)
    (hlast : ∀ source F, last source = some F → AsksTenant F)
    (hnow : ∀ source F, now source = some F → AsksTenant F) :
    r.Same ((r.edit now)^[n] e) ((r.edit now)^[n] {}) ↔ r.Unaffected last now := by
  obtain ⟨n, rfl⟩ := Nat.exists_eq_succ_of_ne_zero hn
  cases r with
  | pipeline source =>
      have hleft : e.guards = [] ↔ last source = none := h
      show _ = _ ↔ last source = none
      rw [← hleft]
      rcases guards_visited now source (n + 1) e with ⟨hguards, hsome⟩ | ⟨hguards, hnone⟩
      · rcases guards_visited now source (n + 1) {} with ⟨hfresh, -⟩ | ⟨-, hnone⟩
        · rw [hguards, hfresh]
          exact List.append_right_inj _
        · exact absurd hnone hsome
      · rcases guards_visited now source (n + 1) {} with ⟨-, hsome⟩ | ⟨hfresh, -⟩
        · exact absurd hnone hsome
        · rw [hguards, hfresh]
  | graph g =>
      show Option.getD _ _ = Option.getD _ _ ↔ (now (some g.source)).isSome = true ∨ _
      cases hF : now (some g.source) with
      | none =>
          have hedit : ∀ e, (Reader.graph g).edit now e = e := by
            intro e
            rw [Reader.edit, hF]
          rw [Function.iterate_fixed (hedit e), Function.iterate_fixed (hedit {}), h]
          cases last (some g.source) with
          | none => simp
          | some F' => simp
      | some F =>
          rw [restrict_visited hF (hnow _ F hF), restrict_visited hF (hnow _ F hF), h]
          refine iff_of_true ?_ (.inl rfl)
          cases hl : last (some g.source) with
          | none => rfl
          | some F' => exact spread_spread (hlast _ F' hl) (hnow _ F hF)

end Visits

/-! ## All runs -/

namespace Constant

variable (k : Constant)

theorem injected_asksTenant (s : Surroundings) {source : Option String} {F : FilterQuery}
    (h : k.injected s source = some F) : AsksTenant F := by
  unfold injected at h
  cases hhead : k.head s with
  | error e =>
      rw [hhead] at h
      cases h
  | ok stages =>
      rw [hhead] at h
      cases stages with
      | nil => cases h
      | cons stage stages => exact asksTenant_filterForCollection h

theorem lastInjected_asksTenant (earlier : List Surroundings) {source : Option String}
    {F : FilterQuery} (h : k.lastInjected earlier source = some F) : AsksTenant F := by
  obtain ⟨s, -, hs⟩ := List.exists_of_findSome?_eq_some h
  exact k.injected_asksTenant s hs

theorem lastInjected_append (earlier : List Surroundings) (s : Surroundings) :
    k.lastInjected (earlier ++ [s])
      = fun source => (k.injected s source).or (k.lastInjected earlier source) := by
  funext source
  rw [lastInjected, List.reverse_append, List.reverse_singleton, List.singleton_append,
    List.findSome?_cons]
  cases k.injected s source with
  | none => rfl
  | some F => rfl

theorem secureObjects_unfiltered (stages : List StageObject) (store : Store) :
    secureObjects (fun _ => none) stages store = store := by
  rw [secureObjects_eq]
  induction readersIn stages with
  | nil => rfl
  | cons o os ih =>
      rw [List.foldl_cons, Store.edit, edit_unfiltered, Function.update_eq_self]
      exact ih

/-- A run edits the objects, and shows them behind its head. -/
theorem aggregate_eq (s : Surroundings) (store : Store) :
    k.aggregate s store
      = ((k.head s).map (· ++ viewPipeline (secureObjects (k.injected s) k.stages store) k.stages),
        secureObjects (k.injected s) k.stages store) := by
  rw [aggregate, injected, head]
  cases resolveTenantFilter s k.model.name with
  | error e =>
      dsimp only
      rw [secureObjects_unfiltered]
      rfl
  | ok filter =>
      cases filter with
      | none =>
          dsimp only
          rw [secureObjects_unfiltered]
          rfl
      | some F =>
          dsimp only
          rw [any_isWriteStage .fresh]
          by_cases hwrite : (viewPipeline .fresh k.stages).any isWriteStage = true
          · rw [if_pos hwrite, if_pos hwrite]
            dsimp only
            rw [secureObjects_unfiltered]
            rfl
          · rw [if_neg hwrite, if_neg hwrite]
            rfl

variable {k} {o : Nat × Reader}

/-- An object is visited, and only its own edits count. -/
theorem secured_at (ho : o ∈ readersIn k.stages) (filterFor : Option String → Option FilterQuery) :
    ∃ n, n ≠ 0 ∧ ∀ store, secureObjects filterFor k.stages store o.1
      = (o.2.edit filterFor)^[n] (store o.1) := by
  refine ⟨(readersIn k.stages).countP fun o' => o'.1 = o.1, ?_, ?_⟩
  · have hpos : 0 < (readersIn k.stages).countP fun o' => o'.1 = o.1 :=
      List.countP_pos_iff.mpr ⟨o, ho, by simp⟩
    omega
  · intro store
    rw [secureObjects_eq]
    exact foldl_edit filterFor store fun o' ho' href => k.single o ho o' ho' href

/-- What a sequence of runs leaves on the objects. -/
theorem storeAfter_left (ho : o ∈ readersIn k.stages) (earlier : List Surroundings) :
    o.2.Left (k.lastInjected earlier) (k.storeAfter .fresh earlier o.1) := by
  induction earlier using List.reverseRecOn with
  | nil =>
      show o.2.Left _ {}
      cases o.2 with
      | pipeline source => exact iff_of_true rfl rfl
      | graph g => rfl
  | append_singleton earlier s ih =>
      obtain ⟨n, hn, hsecured⟩ := secured_at ho (k.injected s)
      rw [storeAfter, List.foldl_append, List.foldl_cons, List.foldl_nil, aggregate_eq,
        lastInjected_append]
      dsimp only
      rw [hsecured]
      exact ih.visit hn (fun _ _ => k.lastInjected_asksTenant earlier)
        fun _ _ => k.injected_asksTenant s

/-- One run after others comes out as on a copy exactly when it is unaffected. -/
theorem aggregate_storeAfter_iff (k : Constant) (earlier : List Surroundings) (s : Surroundings) :
    (k.aggregate s (k.storeAfter .fresh earlier)).1 = (k.aggregate s .fresh).1
      ↔ k.Unaffected earlier s := by
  rw [aggregate_eq, aggregate_eq, Unaffected]
  cases k.head s with
  | error e => exact iff_of_true rfl (.inl ⟨e, rfl⟩)
  | ok head =>
      have hok : ∀ stages stages' : List Stage,
          (Except.ok head : Except ForbiddenException (List Stage)).map (· ++ stages)
            = (Except.ok head).map (· ++ stages') ↔ stages = stages' := by
        intro stages stages'
        show Except.ok (head ++ stages) = Except.ok (head ++ stages') ↔ _
        rw [Except.ok.injEq, List.append_right_inj]
      rw [hok, viewPipeline_eq_iff, or_iff_right nofun]
      refine forall₂_congr ?_
      intro o ho
      obtain ⟨n, hn, hsecured⟩ := secured_at ho (k.injected s)
      rw [hsecured, hsecured]
      exact (storeAfter_left ho earlier).same_iff hn
        (fun _ _ => k.lastInjected_asksTenant earlier) fun _ _ => k.injected_asksTenant s

theorem runs_eq_iff (k : Constant) (store : Store) (ss : List Surroundings)
    (expected : Surroundings → Except ForbiddenException (List Stage)) :
    k.runs store ss = ss.map expected
      ↔ ∀ earlier s later, ss = earlier ++ s :: later →
          (k.aggregate s (k.storeAfter store earlier)).1 = expected s := by
  induction ss generalizing store with
  | nil =>
      refine iff_of_true rfl ?_
      intro earlier s later h
      simp at h
  | cons s₀ ss ih =>
      rw [runs, List.map_cons, List.cons.injEq, ih]
      constructor
      · rintro ⟨hfirst, hrest⟩ earlier s later h
        cases earlier with
        | nil =>
            cases h
            exact hfirst
        | cons s' earlier =>
            rw [List.cons_append, List.cons.injEq] at h
            obtain ⟨rfl, h⟩ := h
            exact hrest earlier s later h
      · intro h
        refine ⟨h [] s₀ ss rfl, ?_⟩
        intro earlier s later hss
        exact h (s₀ :: earlier) s later (congrArg (s₀ :: ·) hss)

/-- **Rewriting does not depend on earlier rewrites** exactly when no run that is
    not refused comes after one that has filtered a sub-pipeline of the constant,
    or a traversal that the run itself does not filter again. -/
theorem rewrites_independent_iff (k : Constant) (ss : List Surroundings) :
    k.runs .fresh ss = ss.map (fun s => (k.aggregate s .fresh).1)
      ↔ ∀ earlier s later, ss = earlier ++ s :: later → k.Unaffected earlier s := by
  rw [runs_eq_iff]
  exact forall₄_congr fun earlier s _ _ => k.aggregate_storeAfter_iff earlier s

/-- A report that joins the patients of every visit, run for two tenants: the
    second run still asks for the first tenant's patients. -/
theorem second_tenant_sees_first_filter :
    let tenant (id : String) : Surroundings :=
      { multiTenancy := some {}, context := some { tenantId := some id } }
    let report : Constant :=
      { models := [⟨"Visit", "visits", true, by decide⟩, ⟨"Patient", "patients", true, by decide⟩]
        model := ⟨"Visit", "visits", true, by decide⟩
        stages := [.lookup 0 (some "patients") (fun _ _ _ => true) (fun env _ => env) []
          fun r rows => (r.1, r.2.set "patients" (.num rows.length))]
        single := by simp [readersIn, readers] }
    report.runs .fresh [tenant "acme", tenant "globex"]
      ≠ [tenant "acme", tenant "globex"].map fun s => (report.aggregate s .fresh).1 := by
  intro tenant report h
  have hsecond := (report.runs_eq_iff .fresh _ _).mp h [tenant "acme"] (tenant "globex") [] rfl
  rcases (report.aggregate_storeAfter_iff _ _).mp hsecond with ⟨e, herror⟩ | hunaffected
  · cases herror
  · cases hunaffected (0, .pipeline (some "patients")) List.mem_cons_self

end Constant

/-! ## One run on a copy -/

section Copy

variable {filterFor : Option String → Option FilterQuery} {store : Store}

theorem guards_once (source : Option String) :
    ((Reader.pipeline source).edit filterFor {}).guards.map Stage.match_
      = guardStage (filterFor source) := by
  rw [Reader.edit]
  cases filterFor source with
  | none => rfl
  | some F => rfl

mutual

/-- Objects that are each edited once show what `secureStage` makes of them. -/
theorem view_secured : ∀ stage : StageObject,
    (∀ o ∈ readers stage, store o.1 = o.2.edit filterFor {}) →
      view store stage = secureStage filterFor (view .fresh stage)
  | .match_ _, _ => by
      rw [view, view, secureStage]
  | .other _, _ => by
      rw [view, view, secureStage]
  | .write, _ => by
      rw [view, view, secureStage]
  | .lookup ref source _ _ pipeline _, h => by
      rw [readers, List.forall_mem_cons] at h
      rw [view, view, secureStage, h.1, guards_once, viewPipeline_secured pipeline h.2]
      rfl
  | .unionWithName ref coll, h => by
      rw [readers, List.forall_mem_singleton] at h
      rw [view, view, h, Reader.edit]
      show _ = secureStage filterFor (.unionWithName coll)
      rw [secureStage]
      cases filterFor (some coll) with
      | none => rfl
      | some F => rfl
  | .unionWith ref coll pipeline, h => by
      rw [readers, List.forall_mem_cons] at h
      rw [view, view, secureStage, h.1, guards_once, viewPipeline_secured pipeline h.2]
      rfl
  | .graphLookup ref g, h => by
      rw [readers, List.forall_mem_singleton] at h
      rw [view, view, h, Reader.edit]
      show _ = secureStage filterFor (.graphLookup g)
      rw [secureStage]
      cases filterFor (some g.source) with
      | none => rfl
      | some F => rfl
  | .facet branches _, h => by
      rw [view, view, secureStage, viewBranches_secured branches h]

theorem viewPipeline_secured : ∀ pipeline : List StageObject,
    (∀ o ∈ readersIn pipeline, store o.1 = o.2.edit filterFor {}) →
      viewPipeline store pipeline = securePipeline filterFor (viewPipeline .fresh pipeline)
  | [], _ => by
      rw [viewPipeline, viewPipeline, securePipeline]
  | stage :: stages, h => by
      rw [readersIn, List.forall_mem_append] at h
      rw [viewPipeline, viewPipeline, securePipeline, view_secured stage h.1,
        viewPipeline_secured stages h.2]

theorem viewBranches_secured : ∀ branches : List (String × List StageObject),
    (∀ o ∈ readersInBranches branches, store o.1 = o.2.edit filterFor {}) →
      viewBranches store branches = secureBranches filterFor (viewBranches .fresh branches)
  | [], _ => by
      rw [viewBranches, viewBranches, secureBranches]
  | (_, pipeline) :: branches, h => by
      rw [readersInBranches, List.forall_mem_append] at h
      rw [viewBranches, viewBranches, secureBranches, viewPipeline_secured pipeline h.1,
        viewBranches_secured branches h.2]

end

end Copy

/-- Where no object stands at two places, a run on a copy is the rewrite of the
    stages as values. -/
theorem Constant.aggregate_fresh (k : Constant) (s : Surroundings)
    (hdistinct : ((readersIn k.stages).map Prod.fst).Nodup) :
    (k.aggregate s .fresh).1
      = preAggregate s k.models k.model (viewPipeline .fresh k.stages) := by
  rw [Constant.aggregate, preAggregate]
  cases resolveTenantFilter s k.model.name with
  | error e => rfl
  | ok filter =>
      cases filter with
      | none => rfl
      | some F =>
          dsimp only
          by_cases hwrite : (viewPipeline .fresh k.stages).any isWriteStage = true
          · rw [if_pos hwrite, if_pos hwrite]
            rfl
          · rw [if_neg hwrite, if_neg hwrite, securePipeline, secureStage, viewPipeline_secured]
            intro o ho
            have hcount : (readersIn k.stages).countP (fun o' => o'.1 = o.1) = 1 := by
              have hone := List.count_eq_one_of_mem hdistinct
                  (List.mem_map_of_mem (f := Prod.fst) ho)
              rw [List.count, List.countP_map] at hone
              rw [← hone]
              exact List.countP_congr fun o' _ => by simp
            rw [secureObjects_eq, foldl_edit (o := o) _ _ fun o' ho' href =>
              k.single o ho o' ho' href, hcount]
            rfl

end TenantPlugin
