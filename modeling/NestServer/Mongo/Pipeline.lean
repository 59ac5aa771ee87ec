import NestServer.Mongo.Document

/-! # Aggregation pipelines

    The stages that read a further collection, with their sub-pipelines; every
    other stage is a function of the rows it is given.

    A pipeline is guarded by a filter when each of its reads of a scoped
    collection, at any depth, sees only rows the filter accepts.
    `evalPipeline_of_guarded` is the two-run consequence: rows the filter does
    not accept cannot be told apart from no rows at all. -/

namespace Mongo

/-- A row or a computed document, with its key. -/
abbrev Row := String × Document

/-- The variables `let` has bound around a sub-pipeline. -/
abbrev Env := Document

/-- The rows of every collection, by its name. -/
abbrev Database := String → List Row

def FilterQuery.acceptsRow (f : FilterQuery) (r : Row) : Bool := f.accepts r.1 r.2

/-- `$graphLookup`: a row starts from some values; a document of the collection
    is reached when it connects to one of them, and reaches on from its own. -/
structure GraphLookup where
  source    : String
  startWith : Env → Row → List Value
  connectTo : Row → Value → Bool
  connectFrom : Row → List Value
  maxDepth  : Option Nat
  restrictSearchWithMatch : FilterQuery
  attach    : Row → List (Row × Nat) → Row

/-- A stage.  An absent sub-pipeline is the empty one; `$lookup` and `$unionWith`
    without a collection start from no rows. -/
inductive Stage where
  /-- `{ $match: filter }` -/
  | match_ (filter : FilterQuery)
  /-- A stage that reads no further collection; it may fail. -/
  | other (run : Env → List Row → Option (List Row))
  | lookup (source : Option String) (joins : Env → Row → Row → Bool) (bind : Env → Row → Env)
      (pipeline : List Stage) (attach : Row → List Row → Row)
  /-- `{ $unionWith: "coll" }` -/
  | unionWithName (coll : String)
  /-- `{ $unionWith: { coll, pipeline } }` -/
  | unionWith (coll : Option String) (pipeline : List Stage)
  | graphLookup (g : GraphLookup)
  | facet (branches : List (String × List Stage)) (combine : List (String × List Row) → Row)
  /-- `$out` or `$merge` -/
  | write

/-- The rows of an optional collection. -/
def Database.rowsOf (db : Database) (source : Option String) : List Row :=
  (source.map db).getD []

namespace GraphLookup

/-- Breadth first: each round reaches what connects to the frontier, and takes
    it off the rows that remain. -/
def traverse (g : GraphLookup) : Nat → Nat → List Value → List Row → List (Row × Nat)
  | 0,        _,     _,        _    => []
  | fuel + 1, depth, frontier, rows =>
      let hits := rows.filter fun r => frontier.any (g.connectTo r)
      hits.map (fun r => (r, depth))
        ++ traverse g fuel (depth + 1) (hits.flatMap g.connectFrom)
            (rows.filter fun r => !frontier.any (g.connectTo r))

/-- What a row reaches among the rows of the collection.  A round without hits
    ends the traversal, so no more rounds than rows are needed. -/
def search (g : GraphLookup) (env : Env) (r : Row) (rows : List Row) : List (Row × Nat) :=
  let candidates := rows.filter g.restrictSearchWithMatch.acceptsRow
  g.traverse ((g.maxDepth.map fun m => min (m + 1) candidates.length).getD candidates.length) 0
    (g.startWith env r) candidates

end GraphLookup

mutual

/-- Run a stage on rows; `none` is a failed aggregation.  `$out` and `$merge` are
    no reads, and a sub-pipeline may not contain them. -/
def evalStage (db : Database) (env : Env) : Stage → List Row → Option (List Row)
  | .match_ filter, rows => some (rows.filter filter.acceptsRow)
  | .other run, rows => run env rows
  | .lookup source joins bind pipeline attach, rows =>
      rows.mapM fun r =>
        (evalPipeline db (bind env r) pipeline ((db.rowsOf source).filter (joins env r))).map
          (attach r)
  | .unionWithName coll, rows => some (rows ++ db coll)
  | .unionWith coll pipeline, rows =>
      (evalPipeline db env pipeline (db.rowsOf coll)).map (rows ++ ·)
  | .graphLookup g, rows => some (rows.map fun r => g.attach r (g.search env r (db g.source)))
  | .facet branches combine, rows =>
      (evalBranches db env branches rows).map fun results => [combine results]
  | .write, _ => none

def evalPipeline (db : Database) (env : Env) : List Stage → List Row → Option (List Row)
  | [],              rows => some rows
  | stage :: stages, rows => (evalStage db env stage rows).bind (evalPipeline db env stages)

/-- The branches of a `$facet`, each on the same rows. -/
def evalBranches (db : Database) (env : Env) : List (String × List Stage) → List Row →
    Option (List (String × List Row))
  | [], _ => some []
  | (name, pipeline) :: branches, rows =>
      (evalPipeline db env pipeline rows).bind fun result =>
        (evalBranches db env branches rows).map ((name, result) :: ·)

end

/-! ## Guarded reads -/

section Guards

variable (inScope : String → Prop) (F : FilterQuery)

/-- A sub-pipeline over a scoped collection starts with the filter. -/
def StartsWith (source : Option String) (pipeline : List Stage) : Prop :=
  ∀ coll, source = some coll → inScope coll → ∃ rest, pipeline = .match_ F :: rest

mutual

/-- Every read of a scoped collection in the stage sees the filter. -/
def Stage.Guarded : Stage → Prop
  | .match_ _ | .other _ | .write => True
  | .lookup source _ _ pipeline _ => StartsWith inScope F source pipeline ∧ PipelineGuarded pipeline
  | .unionWithName coll => ¬ inScope coll
  | .unionWith coll pipeline => StartsWith inScope F coll pipeline ∧ PipelineGuarded pipeline
  | .graphLookup g => inScope g.source →
      ∀ r, g.restrictSearchWithMatch.acceptsRow r = true → F.acceptsRow r = true
  | .facet branches _ => BranchesGuarded branches

def PipelineGuarded : List Stage → Prop
  | []              => True
  | stage :: stages => stage.Guarded ∧ PipelineGuarded stages

def BranchesGuarded : List (String × List Stage) → Prop
  | []                        => True
  | (_, pipeline) :: branches => PipelineGuarded pipeline ∧ BranchesGuarded branches

end

/-- Two databases that differ only in rows of scoped collections the filter does
    not accept. -/
structure AgreeOn (db db' : Database) : Prop where
  filtered : ∀ coll, inScope coll →
    (db coll).filter F.acceptsRow = (db' coll).filter F.acceptsRow
  whole    : ∀ coll, ¬ inScope coll → db coll = db' coll

variable {inScope F} {db db' : Database}

/-- A sub-pipeline that starts with the filter does not see the difference in
    its source. -/
theorem evalPipeline_source (h : AgreeOn inScope F db db') {source : Option String}
    {pipeline : List Stage} (hstart : StartsWith inScope F source pipeline) (env : Env)
    (p : Row → Bool) :
    evalPipeline db env pipeline ((db.rowsOf source).filter p)
      = evalPipeline db env pipeline ((db'.rowsOf source).filter p) := by
  cases source with
  | none => rfl
  | some coll =>
      by_cases hs : inScope coll
      · obtain ⟨rest, hrest⟩ := hstart coll rfl hs
        have hfilter : ((db coll).filter p).filter F.acceptsRow
            = ((db' coll).filter p).filter F.acceptsRow := by
          rw [List.filter_comm, h.filtered coll hs, List.filter_comm]
        rw [hrest, evalPipeline, evalStage, evalPipeline, evalStage]
        show (some (((db coll).filter p).filter F.acceptsRow)).bind _
          = (some (((db' coll).filter p).filter F.acceptsRow)).bind _
        rw [hfilter]
      · show evalPipeline db env pipeline ((db coll).filter p)
          = evalPipeline db env pipeline ((db' coll).filter p)
        rw [h.whole coll hs]

/-- A restricted traversal does not see the difference either. -/
theorem search_source (h : AgreeOn inScope F db db') {g : GraphLookup}
    (hg : inScope g.source →
      ∀ r, g.restrictSearchWithMatch.acceptsRow r = true → F.acceptsRow r = true)
    (env : Env) (r : Row) : g.search env r (db g.source) = g.search env r (db' g.source) := by
  have hcandidates : (db g.source).filter g.restrictSearchWithMatch.acceptsRow
      = (db' g.source).filter g.restrictSearchWithMatch.acceptsRow := by
    by_cases hs : inScope g.source
    · -- the restriction only looks among the rows of the filter
      have hsub : ∀ rows : List Row, (rows.filter F.acceptsRow).filter
          g.restrictSearchWithMatch.acceptsRow
            = rows.filter g.restrictSearchWithMatch.acceptsRow := by
        intro rows
        rw [List.filter_filter]
        refine List.filter_congr ?_
        intro r' _
        cases hr : g.restrictSearchWithMatch.acceptsRow r' with
        | false => rfl
        | true => exact (Bool.true_and _).trans (hg hs r' hr)
      rw [← hsub, h.filtered g.source hs, hsub]
    · rw [h.whole g.source hs]
  unfold GraphLookup.search
  rw [hcandidates]

mutual

/-- **Two runs of a guarded stage** on the same rows give the same rows. -/
theorem evalStage_of_guarded (h : AgreeOn inScope F db db') :
    ∀ (stage : Stage) (env : Env) (rows : List Row), stage.Guarded inScope F →
      evalStage db env stage rows = evalStage db' env stage rows
  | .match_ _, _, _, _ => by rw [evalStage, evalStage]
  | .other _, _, _, _ => by rw [evalStage, evalStage]
  | .write, _, _, _ => by rw [evalStage, evalStage]
  | .lookup source joins bind pipeline attach, env, rows, hg => by
      obtain ⟨hstart, hpipe⟩ := hg
      rw [evalStage, evalStage]
      congr 1
      funext r
      rw [evalPipeline_source h hstart,
        evalPipeline_of_guarded h pipeline (bind env r) _ hpipe]
  | .unionWithName coll, _, rows, hg => by
      rw [evalStage, evalStage, h.whole coll hg]
  | .unionWith coll pipeline, env, rows, hg => by
      obtain ⟨hstart, hpipe⟩ := hg
      have hsource := evalPipeline_source h hstart env (fun _ => true)
      rw [List.filter_true, List.filter_true] at hsource
      rw [evalStage, evalStage, hsource, evalPipeline_of_guarded h pipeline env _ hpipe]
  | .graphLookup g, env, rows, hg => by
      rw [evalStage, evalStage]
      congr 2
      funext r
      rw [search_source h hg]
  | .facet branches _, env, rows, hg => by
      rw [evalStage, evalStage, evalBranches_of_guarded h branches env rows hg]

theorem evalPipeline_of_guarded (h : AgreeOn inScope F db db') :
    ∀ (pipeline : List Stage) (env : Env) (rows : List Row), PipelineGuarded inScope F pipeline →
      evalPipeline db env pipeline rows = evalPipeline db' env pipeline rows
  | [], _, _, _ => by rw [evalPipeline, evalPipeline]
  | stage :: stages, env, rows, hg => by
      rw [evalPipeline, evalPipeline, evalStage_of_guarded h stage env rows hg.1]
      congr 1
      funext rows'
      exact evalPipeline_of_guarded h stages env rows' hg.2

theorem evalBranches_of_guarded (h : AgreeOn inScope F db db') :
    ∀ (branches : List (String × List Stage)) (env : Env) (rows : List Row),
      BranchesGuarded inScope F branches →
      evalBranches db env branches rows = evalBranches db' env branches rows
  | [], _, _, _ => by rw [evalBranches, evalBranches]
  | (_, pipeline) :: branches, env, rows, hg => by
      rw [evalBranches, evalBranches, evalPipeline_of_guarded h pipeline env rows hg.1,
        evalBranches_of_guarded h branches env rows hg.2]

end

end Guards

end Mongo
