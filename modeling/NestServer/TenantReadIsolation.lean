import NestServer.Mongo.Pipeline
import NestServer.TenantPlugin

/-! # Tenant read isolation of aggregations

    The `aggregate` hook of `mongooseTenantPlugin`: a `$match` in front, and
    `secureCrossCollectionStages` over every stage that reads a further
    collection.  The rewritten pipeline is guarded at every depth
    (`securePipeline_guarded`), so two databases that differ only in rows the
    tenant filter does not accept give it the same result
    (`aggregate_isolated`). -/

open Mongo

namespace TenantPlugin

/-- A registered model, with the collection it owns; `tenantScoped` when its
    schema has a `tenantId` path. -/
structure Model where
  name         : String
  collection   : String
  tenantScoped : Bool
  named        : collection ≠ ""

/-- `filterForCollection(collectionName, sourceModel)`.  It cannot throw: the
    source model's own filter has been resolved in the same context
    (`resolveTenantFilter_other`). -/
def filterForCollection (s : Surroundings) (models : List Model) (collectionName : Option String) :
    Option FilterQuery :=
  match collectionName with
  | none => none
  | some name =>
      if name = "" then none
      else match models.find? fun m => m.collection = name with
        | none => none
        | some candidate =>
            if candidate.tenantScoped = false then none
            else match resolveTenantFilter s candidate.name with
              | .ok (some filter) => if filter.size = 0 then none else some filter
              | _                 => none

/-- `{ $match: filter }` in front, where there is a filter. -/
def guardStage (filter : Option FilterQuery) : List Stage := (filter.map .match_).toList

section Secure

variable (filterFor : Option String → Option FilterQuery)

mutual

/-- One stage of `secureCrossCollectionStages`.  The source looks through the
    prefixed sub-pipeline; its first stage, a `$match`, is left as it is. -/
def secureStage : Stage → Stage
  | .lookup source joins bind pipeline attach =>
      .lookup source joins bind (guardStage (filterFor source) ++ securePipeline pipeline) attach
  | .unionWithName coll => match filterFor (some coll) with
      | some filter => .unionWith (some coll) [.match_ filter]
      | none        => .unionWithName coll
  | .unionWith coll pipeline =>
      .unionWith coll (guardStage (filterFor coll) ++ securePipeline pipeline)
  | .graphLookup g => match filterFor (some g.source) with
      | some filter => .graphLookup { g with
          restrictSearchWithMatch := g.restrictSearchWithMatch.spread filter }
      | none => .graphLookup g
  | .facet branches combine => .facet (secureBranches branches) combine
  | .match_ filter => .match_ filter
  | .other run     => .other run
  | .write         => .write

/-- `secureCrossCollectionStages(pipeline, model)` -/
def securePipeline : List Stage → List Stage
  | []              => []
  | stage :: stages => secureStage stage :: securePipeline stages

def secureBranches : List (String × List Stage) → List (String × List Stage)
  | []                           => []
  | (name, pipeline) :: branches => (name, securePipeline pipeline) :: secureBranches branches

end

end Secure

/-- `stage.$out !== undefined || stage.$merge !== undefined` -/
def isWriteStage : Stage → Bool
  | .write => true
  | _      => false

/-- The `aggregate` hook. -/
def preAggregate (s : Surroundings) (models : List Model) (model : Model)
    (pipeline : List Stage) : Except ForbiddenException (List Stage) :=
  match resolveTenantFilter s model.name with
  | .error e => .error e
  | .ok none => .ok pipeline
  | .ok (some filter) =>
      if pipeline.any isWriteStage then
        .error ⟨"Aggregation write stages ($out / $merge) are not permitted inside a tenant context — "
          ++ "they cannot be tenant-filtered. Run them as a system operation if this is intended."⟩
      else .ok (securePipeline (filterForCollection s models) (.match_ filter :: pipeline))

/-! ## Every read is guarded -/

/-- The collections that belong to a tenant-scoped model which is not
    excluded. -/
def TenantScoped (s : Surroundings) (models : List Model) (coll : String) : Prop :=
  ∃ m ∈ models, m.collection = coll ∧ m.tenantScoped = true ∧ shouldBypass s m.name = false

section Guarded

variable {s : Surroundings} {models : List Model} {F : FilterQuery}

/-- The filter is the context's: all models that are not excluded share it. -/
theorem resolveTenantFilter_other {a b : String} (h : resolveTenantFilter s a = .ok (some F))
    (hb : shouldBypass s b = false) : resolveTenantFilter s b = .ok (some F) := by
  unfold resolveTenantFilter at h ⊢
  rw [hb, if_neg (by simp)]
  by_cases ha : shouldBypass s a = true
  · rw [if_pos ha] at h
    cases h
  · rw [if_neg ha] at h
    exact h

theorem filterForCollection_scoped {a coll : String}
    (hnames : (models.map Model.collection).Nodup)
    (hF : resolveTenantFilter s a = .ok (some F)) (hsize : F.size ≠ 0)
    (hcoll : TenantScoped s models coll) :
    filterForCollection s models (some coll) = some F := by
  obtain ⟨m, hm, rfl, hscoped, hbypass⟩ := hcoll
  have hfind : (models.find? fun m' => m'.collection = m.collection) = some m := by
    cases hf : models.find? fun m' => m'.collection = m.collection with
    | none => exact absurd (decide_eq_true rfl) (List.find?_eq_none.mp hf m hm)
    | some m' =>
        have hm' : m'.collection = m.collection := by simpa using List.find?_some hf
        rw [List.inj_on_of_nodup_map hnames (List.mem_of_find?_eq_some hf) hm hm']
  unfold filterForCollection
  dsimp only
  rw [if_neg m.named, hfind]
  dsimp only
  rw [if_neg (by simp [hscoped]), resolveTenantFilter_other hF hbypass]
  exact if_neg hsize

variable {filterFor : Option String → Option FilterQuery} {inScope : String → Prop}

theorem startsWith_guardStage (h : ∀ coll, inScope coll → filterFor (some coll) = some F)
    (source : Option String) (pipeline : List Stage) :
    StartsWith inScope F source (guardStage (filterFor source) ++ pipeline) := by
  intro coll hsource hcoll
  rw [hsource, h coll hcoll]
  exact ⟨pipeline, rfl⟩

theorem pipelineGuarded_guardStage {filter : Option FilterQuery} {pipeline : List Stage}
    (h : PipelineGuarded inScope F pipeline) :
    PipelineGuarded inScope F (guardStage filter ++ pipeline) := by
  cases filter with
  | none => exact h
  | some f => exact ⟨trivial, h⟩

mutual

/-- **After the rewrite every read is guarded**, at every depth. -/
theorem secureStage_guarded (h : ∀ coll, inScope coll → filterFor (some coll) = some F) :
    ∀ stage : Stage, (secureStage filterFor stage).Guarded inScope F
  | .match_ _ => by rw [secureStage]; trivial
  | .other _ => by rw [secureStage]; trivial
  | .write => by rw [secureStage]; trivial
  | .lookup source joins bind pipeline attach => by
      rw [secureStage]
      exact ⟨startsWith_guardStage h source _,
        pipelineGuarded_guardStage (securePipeline_guarded h pipeline)⟩
  | .unionWithName coll => by
      rw [secureStage]
      cases hf : filterFor (some coll) with
      | none =>
          intro hcoll
          rw [h coll hcoll] at hf
          cases hf
      | some f =>
          have hstart := startsWith_guardStage h (some coll) []
          rw [hf] at hstart
          exact ⟨hstart, trivial, trivial⟩
  | .unionWith coll pipeline => by
      rw [secureStage]
      exact ⟨startsWith_guardStage h coll _,
        pipelineGuarded_guardStage (securePipeline_guarded h pipeline)⟩
  | .graphLookup g => by
      rw [secureStage]
      cases hf : filterFor (some g.source) with
      | none =>
          intro hcoll
          rw [h g.source hcoll] at hf
          cases hf
      | some f =>
          intro hcoll r hr
          rw [h g.source hcoll] at hf
          cases Option.some.inj hf
          exact FilterQuery.accepts_of_spread hr
  | .facet branches _ => by
      rw [secureStage]
      exact secureBranches_guarded h branches

theorem securePipeline_guarded (h : ∀ coll, inScope coll → filterFor (some coll) = some F) :
    ∀ pipeline : List Stage, PipelineGuarded inScope F (securePipeline filterFor pipeline)
  | [] => trivial
  | stage :: stages => ⟨secureStage_guarded h stage, securePipeline_guarded h stages⟩

theorem secureBranches_guarded (h : ∀ coll, inScope coll → filterFor (some coll) = some F) :
    ∀ branches : List (String × List Stage),
      BranchesGuarded inScope F (secureBranches filterFor branches)
  | [] => trivial
  | (_, pipeline) :: branches =>
      ⟨securePipeline_guarded h pipeline, secureBranches_guarded h branches⟩

end

/-- A filter without conditions accepts every row, so nothing may differ. -/
theorem database_eq_of_empty_filter {db db' : Database} (hsize : F.size = 0)
    (h : AgreeOn inScope F db db') : db = db' := by
  have hall : ∀ r : Row, F.acceptsRow r = true := by
    intro r
    have hnil : F.entries = [] := List.length_eq_zero_iff.mp hsize
    unfold FilterQuery.acceptsRow FilterQuery.accepts
    rw [hnil]
    rfl
  funext coll
  by_cases hcoll : inScope coll
  · have hfilter := h.filtered coll hcoll
    rw [List.filter_eq_self.mpr fun r _ => hall r,
      List.filter_eq_self.mpr fun r _ => hall r] at hfilter
    exact hfilter
  · exact h.whole coll hcoll

end Guarded

/-- **Tenant read isolation of aggregations.** Under a tenant filter, a pipeline
    that is not refused starts with the filter, reads every tenant-scoped
    collection through it, and cannot tell two databases apart that differ only
    in tenant-scoped rows the filter does not accept. -/
theorem aggregate_isolated (s : Surroundings) (models : List Model) (model : Model)
    (F : FilterQuery) (pipeline rewritten : List Stage) (db db' : Database)
    (hnames : (models.map Model.collection).Nodup)
    (hF : resolveTenantFilter s model.name = .ok (some F))
    (hagree : AgreeOn (TenantScoped s models) F db db')
    (hrun : preAggregate s models model pipeline = .ok rewritten) :
    evalPipeline db .empty rewritten (db model.collection)
        = evalPipeline db' .empty rewritten (db' model.collection)
    ∧ (∃ stages, rewritten = .match_ F :: stages)
    ∧ (F.size ≠ 0 → PipelineGuarded (TenantScoped s models) F rewritten) := by
  unfold preAggregate at hrun
  rw [hF] at hrun
  dsimp only at hrun
  split at hrun
  · cases hrun
  · have hrewritten := Except.ok.inj hrun
    have hhead : ∃ stages, rewritten = .match_ F :: stages := by
      rw [← hrewritten, securePipeline, secureStage]
      exact ⟨_, rfl⟩
    have hguarded : F.size ≠ 0 → PipelineGuarded (TenantScoped s models) F rewritten := by
      intro hsize
      rw [← hrewritten]
      exact securePipeline_guarded
        (fun coll hcoll => filterForCollection_scoped hnames hF hsize hcoll) _
    refine ⟨?_, hhead, hguarded⟩
    by_cases hsize : F.size = 0
    · rw [database_eq_of_empty_filter hsize hagree]
    · have hstart : StartsWith (TenantScoped s models) F (some model.collection) rewritten :=
        fun _ _ _ => hhead
      have hsource := evalPipeline_source hagree hstart .empty fun _ => true
      rw [List.filter_true, List.filter_true] at hsource
      exact hsource.trans (evalPipeline_of_guarded hagree rewritten .empty _ (hguarded hsize))

/-- A report that joins the patients of every visit: another tenant's patients
    make no difference. -/
theorem aggregate_isolated_join :
    let s : Surroundings := { multiTenancy := some {}, context := some { tenantId := some "acme" } }
    let models : List Model :=
      [⟨"Visit", "visits", true, by decide⟩, ⟨"Patient", "patients", true, by decide⟩]
    let row (id tenantId : String) : Row := (id, OrderedMap.empty.set "tenantId" (.str tenantId))
    let db : Database := fun coll => if coll = "visits" then [row "v" "acme"]
      else if coll = "patients" then [row "p" "acme"] else []
    let db' : Database := fun coll => if coll = "visits" then [row "v" "acme"]
      else if coll = "patients" then [row "p" "acme", row "q" "globex"] else []
    let join (pipeline : List Stage) : Stage :=
      .lookup (some "patients") (fun _ _ _ => true) (fun env _ => env) pipeline
        (fun r rows => (r.1, r.2.set "patients" (.num rows.length)))
    evalPipeline db .empty [.match_ (byTenant "acme"), join [.match_ (byTenant "acme")]]
        (db "visits")
      = evalPipeline db' .empty [.match_ (byTenant "acme"), join [.match_ (byTenant "acme")]]
        ( db' "visits") := by
  intro s models row db db' join
  refine (aggregate_isolated s models ⟨"Visit", "visits", true, by decide⟩ (byTenant "acme")
    [join []] _ db db' (by decide) rfl ⟨?_, ?_⟩ rfl).1
  · intro coll _
    by_cases hv : coll = "visits"
    · simp [db, db', hv]
    · by_cases hp : coll = "patients"
      · simp only [db, db', hp]
        decide
      · simp [db, db', hv, hp]
  · intro coll hcoll
    have hv : coll ≠ "visits" := by
      rintro rfl
      exact hcoll ⟨_, List.mem_cons_self, rfl, rfl, by decide⟩
    have hp : coll ≠ "patients" := by
      rintro rfl
      exact hcoll ⟨_, List.mem_cons_of_mem _ List.mem_cons_self, rfl, rfl, by decide⟩
    simp [db, db', hv, hp]

end TenantPlugin
