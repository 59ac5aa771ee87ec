import NestServer.TenantReadIsolation

/-! # Tenant filters and the caller's own

    The `bulkWrite` hook and the `$graphLookup` branch of
    `secureCrossCollectionStages` merge the tenant's filter over the caller's, key
    by key.  The merge selects the rows of both filters except where the caller
    has a condition of his own under the tenant's key: that condition is dropped
    (`narrows_iff`). -/

open Mongo

namespace TenantPlugin

/-! ## The traversals of a pipeline -/

mutual

/-- Every `$graphLookup` of a stage, at any depth. -/
def graphLookups : Stage → List GraphLookup
  | .graphLookup g           => [g]
  | .lookup _ _ _ pipeline _ => pipelineGraphLookups pipeline
  | .unionWith _ pipeline    => pipelineGraphLookups pipeline
  | .facet branches _        => branchesGraphLookups branches
  | .match_ _ | .other _ | .unionWithName _ | .write => []

def pipelineGraphLookups : List Stage → List GraphLookup
  | []              => []
  | stage :: stages => graphLookups stage ++ pipelineGraphLookups stages

def branchesGraphLookups : List (String × List Stage) → List GraphLookup
  | []                        => []
  | (_, pipeline) :: branches => pipelineGraphLookups pipeline ++ branchesGraphLookups branches

end

section Secured

variable (filterFor : Option String → Option FilterQuery)

/-- `{ ...stage.$graphLookup.restrictSearchWithMatch, ...filter }` -/
def restricted (g : GraphLookup) : GraphLookup :=
  match filterFor (some g.source) with
  | some filter => { g with restrictSearchWithMatch := g.restrictSearchWithMatch.spread filter }
  | none        => g

theorem pipelineGraphLookups_guardStage (filter : Option FilterQuery) (pipeline : List Stage) :
    pipelineGraphLookups (guardStage filter ++ pipeline) = pipelineGraphLookups pipeline := by
  cases filter with
  | none => rfl
  | some f => rfl

mutual

/-- The hook reaches every traversal, and adds none. -/
theorem graphLookups_secureStage :
    ∀ stage : Stage, graphLookups (secureStage filterFor stage)
      = (graphLookups stage).map (restricted filterFor)
  | .match_ _ => by
      rw [secureStage]
      rfl
  | .other _ => by
      rw [secureStage]
      rfl
  | .write => by
      rw [secureStage]
      rfl
  | .lookup _ _ _ pipeline _ => by
      rw [secureStage, graphLookups, graphLookups, pipelineGraphLookups_guardStage]
      exact pipelineGraphLookups_secure pipeline
  | .unionWithName coll => by
      rw [secureStage]
      cases filterFor (some coll) with
      | none => rfl
      | some filter => rfl
  | .unionWith _ pipeline => by
      rw [secureStage, graphLookups, graphLookups, pipelineGraphLookups_guardStage]
      exact pipelineGraphLookups_secure pipeline
  | .graphLookup g => by
      rw [secureStage, graphLookups, List.map_singleton, restricted]
      cases filterFor (some g.source) with
      | none => rfl
      | some filter => rfl
  | .facet branches _ => by
      rw [secureStage, graphLookups, graphLookups]
      exact branchesGraphLookups_secure branches

theorem pipelineGraphLookups_secure :
    ∀ pipeline : List Stage, pipelineGraphLookups (securePipeline filterFor pipeline)
      = (pipelineGraphLookups pipeline).map (restricted filterFor)
  | [] => rfl
  | stage :: stages => by
      rw [securePipeline, pipelineGraphLookups, pipelineGraphLookups, List.map_append,
        graphLookups_secureStage stage, pipelineGraphLookups_secure stages]

theorem branchesGraphLookups_secure :
    ∀ branches : List (String × List Stage),
      branchesGraphLookups (secureBranches filterFor branches)
        = (branchesGraphLookups branches).map (restricted filterFor)
  | [] => rfl
  | (_, pipeline) :: branches => by
      rw [secureBranches, branchesGraphLookups, branchesGraphLookups, List.map_append,
        pipelineGraphLookups_secure pipeline, branchesGraphLookups_secure branches]

end

end Secured

/-! ## Narrowing -/

/-- The caller's condition under a key of the tenant's filter keeps a row out that
    the tenant's filter and his other conditions let through. -/
def Overridden (f T : FilterQuery) (r : Row) : Prop :=
  T.acceptsRow r = true
    ∧ (∀ field c, f.get? field = some c → T.get? field = none → c.holds r.1 r.2 field = true)
    ∧ ∃ field c, f.get? field = some c ∧ (T.get? field).isSome = true
        ∧ c.holds r.1 r.2 field = false

/-- Among these rows, `f'` selects those that satisfy both `f` and `T`. -/
def Conjoins (f T f' : FilterQuery) (rows : List Row) : Prop :=
  rows.filter f'.acceptsRow = rows.filter fun r => f.acceptsRow r && T.acceptsRow r

section Merge

variable {f T : FilterQuery} {r : Row} {rows : List Row}

theorem accepts_both_of_spread (h : FilterQuery.acceptsRow (f.spread T) r = true)
    (hr : ¬ Overridden f T r) : (f.acceptsRow r && T.acceptsRow r) = true := by
  obtain ⟨hT, hothers⟩ := FilterQuery.accepts_spread_iff.mp h
  rw [Bool.and_eq_true]
  refine ⟨FilterQuery.accepts_iff.mpr ?_, hT⟩
  intro field c hc
  cases hkey : T.get? field with
  | none => exact hothers field c hc hkey
  | some c' =>
      by_contra hfails
      exact hr ⟨hT, hothers, field, c, hc, by rw [hkey]; rfl, Bool.eq_false_iff.mpr hfails⟩

theorem spread_accepts_of_both (h : (f.acceptsRow r && T.acceptsRow r) = true) :
    FilterQuery.acceptsRow (f.spread T) r = true := by
  rw [Bool.and_eq_true] at h
  exact FilterQuery.accepts_spread_iff.mpr ⟨h.2, fun field c hc _ =>
    FilterQuery.accepts_iff.mp h.1 field c hc⟩

/-- **The merge is the conjunction** exactly where no row is let in by the
    condition it drops. -/
theorem conjoins_spread_iff : Conjoins f T (f.spread T) rows ↔ ∀ r ∈ rows, ¬ Overridden f T r := by
  constructor
  · rintro h r hr ⟨hT, hothers, field, c, hc, -, hfails⟩
    have hspread : FilterQuery.acceptsRow (f.spread T) r = true :=
      FilterQuery.accepts_spread_iff.mpr ⟨hT, hothers⟩
    have hmem : r ∈ rows.filter fun r => f.acceptsRow r && T.acceptsRow r :=
      h ▸ List.mem_filter.mpr ⟨hr, hspread⟩
    have hboth := (List.mem_filter.mp hmem).2
    rw [Bool.and_eq_true] at hboth
    have hholds := FilterQuery.accepts_iff.mp hboth.1 field c hc
    rw [hfails] at hholds
    cases hholds
  · intro h
    refine List.filter_congr ?_
    intro r hr
    exact Bool.eq_iff_iff.mpr ⟨fun hs => accepts_both_of_spread hs (h r hr), spread_accepts_of_both⟩

end Merge

/-! ## Every write and every traversal -/

/-- An op and what the hook made of it: it selects the rows of both filters, and
    leaves alone what the caller's own did not select. -/
def OpNarrows (T : FilterQuery) (c : Collection) : Write → Write → Prop
  | .query f _, .query f' change =>
      Conjoins f T f' c.entries
        ∧ ∀ id d, c.get? id = some d → f.accepts id d = false →
            (c.exec (.query f' change)).1.get? id = some d
  | .insertOne _ _, .insertOne _ _ => True
  | _, _ => False

/-- A traversal and what the hook made of it: it searches the rows of both
    filters, where there is a filter for its collection. -/
def TraversalNarrows (filterFor : Option String → Option FilterQuery) (db : Database)
    (g g' : GraphLookup) : Prop :=
  Conjoins g.restrictSearchWithMatch ((filterFor (some g.source)).getD .empty)
    g'.restrictSearchWithMatch (db g.source)

/-- No op loses a condition that kept a row out. -/
def OpKeepsConditions (T : FilterQuery) (c : Collection) : Write → Prop
  | .query f _      => ∀ r ∈ c.entries, ¬ Overridden f T r
  | .insertOne _ _ => True

def TraversalKeepsConditions (filterFor : Option String → Option FilterQuery) (db : Database)
    (g : GraphLookup) : Prop :=
  ∀ F, filterFor (some g.source) = some F →
    ∀ r ∈ db g.source, ¬ Overridden g.restrictSearchWithMatch F r

theorem opNarrows_iff {T : FilterQuery} {c : Collection} {tenantId : Option String} (op : Write) :
    OpNarrows T c op (preOp T tenantId op) ↔ OpKeepsConditions T c op := by
  cases op with
  | insertOne id d =>
      cases tenantId with
      | none => exact iff_of_true trivial trivial
      | some t =>
          refine iff_of_true ?_ trivial
          show OpNarrows T c _ (if lacksTenantId d then .insertOne id (stamp d t)
              else .insertOne id d)
          split
          · trivial
          · trivial
  | query f change =>
      show OpNarrows T c _ (.query (f.spread T) change) ↔ _
      constructor
      · intro h
        exact conjoins_spread_iff.mp h.1
      · intro h
        refine ⟨conjoins_spread_iff.mpr h, ?_⟩
        intro id d hd hf
        refine Collection.get?_execChange_of_unselected change hd ?_
        -- a row that the merged filter selects is one of the caller's
        rintro e he rfl
        obtain ⟨hget, hspread⟩ := Collection.mem_selected.mp he
        rw [hd] at hget
        cases hget
        have hboth := accepts_both_of_spread hspread (h e (OrderedMap.get?_eq_some_iff.mp hd))
        rw [Bool.and_eq_true] at hboth
        exact absurd hboth.1 (by rw [FilterQuery.acceptsRow, hf]; exact Bool.false_ne_true)

theorem traversalNarrows_iff {filterFor : Option String → Option FilterQuery} {db : Database}
    (g : GraphLookup) :
    TraversalNarrows filterFor db g (restricted filterFor g)
      ↔ TraversalKeepsConditions filterFor db g := by
  rw [TraversalNarrows, TraversalKeepsConditions, restricted]
  cases filterFor (some g.source) with
  | none =>
      refine iff_of_true ?_ nofun
      refine List.filter_congr ?_
      intro r _
      exact (Bool.and_true _).symm
  | some F =>
      rw [Option.getD_some]
      constructor
      · intro h F' hF'
        cases hF'
        exact conjoins_spread_iff.mp h
      · intro h
        exact conjoins_spread_iff.mpr (h F rfl)

/-- **Tenant filters only ever narrow** exactly where no op and no traversal has a
    condition of its own on `tenantId` that keeps a row out which the tenant's
    filter and its other conditions let through. -/
theorem narrows_iff (s : Surroundings) (models : List Model) (model : Model) (T : FilterQuery)
    (ops ops' : List Write) (pipeline pipeline' : List Stage) (c : Collection) (db : Database)
    (hT : resolveTenantFilter s model.name = .ok (some T))
    (hops : preBulkWrite s model.name ops = .ok ops')
    (hpipeline : preAggregate s models model pipeline = .ok pipeline') :
    (List.Forall₂ (OpNarrows T c) ops ops'
      ∧ List.Forall₂ (TraversalNarrows (filterForCollection s models) db)
          (pipelineGraphLookups pipeline) (pipelineGraphLookups pipeline'))
    ↔ (∀ op ∈ ops, OpKeepsConditions T c op)
      ∧ ∀ g ∈ pipelineGraphLookups pipeline,
          TraversalKeepsConditions (filterForCollection s models) db g := by
  have hops' : ops' = ops.map (preOp T (resolveSingleTenantId s model.name)) := by
    rw [preBulkWrite, hT] at hops
    exact (Except.ok.inj hops).symm
  have hpipeline' : pipelineGraphLookups pipeline'
      = (pipelineGraphLookups pipeline).map (restricted (filterForCollection s models)) := by
    rw [preAggregate, hT] at hpipeline
    dsimp only at hpipeline
    split at hpipeline
    · cases hpipeline
    · rw [← Except.ok.inj hpipeline]
      exact pipelineGraphLookups_secure _ (.match_ T :: pipeline)
  rw [hops', hpipeline', List.forall₂_map_right_iff, List.forall₂_map_right_iff, List.forall₂_same,
    List.forall₂_same]
  exact and_congr (forall₂_congr fun op _ => opNarrows_iff op)
    (forall₂_congr fun g _ => traversalNarrows_iff g)

/-! ## Filters without a condition on the tenant -/

/-- Only `tenantId` is asked for by a tenant's filter. -/
theorem key_byTenant {t field : String} (h : ((byTenant t).get? field).isSome = true) :
    field = "tenantId" := by
  by_contra hne
  rw [byTenant, OrderedMap.get?_set_of_ne _ _ hne] at h
  cases h

/-- A filter without a condition on `tenantId` loses none. -/
theorem not_overridden {f : FilterQuery} {t : String} {r : Row} (h : f.get? "tenantId" = none) :
    ¬ Overridden f (byTenant t) r := by
  rintro ⟨-, -, field, c, hc, hkey, -⟩
  rw [key_byTenant hkey, h] at hc
  cases hc

/-- `{ status: "draft" }`, in a bulk deletion and on a traversal of the patients. -/
theorem drafts_are_narrowed :
    let s : Surroundings := { multiTenancy := some {}, context := some { tenantId := some "acme" } }
    let patients : Model := ⟨"Patient", "patients", true, by decide⟩
    let drafts : FilterQuery := OrderedMap.empty.set "status" (.eq (.str "draft"))
    let relatives : GraphLookup :=
      ⟨"patients", fun _ _ => [], fun _ _ => true, fun _ => [], none, drafts, fun r _ => r⟩
    let c : Collection := OrderedMap.empty.set "p" (OrderedMap.empty.set "status" (.str "draft"))
    let db : Database := fun _ => c.entries
    List.Forall₂ (OpNarrows (byTenant "acme") c) [.query drafts .deleteMany]
        [.query (drafts.spread (byTenant "acme")) .deleteMany]
      ∧ List.Forall₂ (TraversalNarrows (filterForCollection s [patients]) db) [relatives]
        [restricted (filterForCollection s [patients]) relatives] := by
  intro s patients drafts relatives c db
  refine (narrows_iff s [patients] patients (byTenant "acme") [.query drafts .deleteMany] _
    [.graphLookup relatives] _ c db rfl rfl rfl).mpr ⟨?_, ?_⟩
  · intro op hop
    rw [List.mem_singleton.mp hop]
    exact fun r _ => not_overridden rfl
  · intro g hg F hF r _
    rw [List.mem_singleton.mp hg] at hF ⊢
    cases hF
    exact not_overridden rfl

/-- A deletion of another tenant's drafts deletes one's own. -/
theorem own_drafts_are_deleted :
    let others : FilterQuery :=
      (OrderedMap.empty.set "tenantId" (.eq (.str "globex"))).set "status" (.eq (.str "draft"))
    let draft : Document :=
      (OrderedMap.empty.set "tenantId" (.str "acme")).set "status" (.str "draft")
    ¬ OpNarrows (byTenant "acme") (OrderedMap.empty.set "p" draft) (.query others .deleteMany)
      (preOp (byTenant "acme") (some "acme") (.query others .deleteMany)) := by
  intro others draft h
  have hkept := h.2 "p" draft rfl rfl
  cases hkept

end TenantPlugin
