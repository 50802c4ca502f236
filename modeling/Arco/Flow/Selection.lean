import Mathlib.Data.List.Dedup
import Arco.Data.Text
import Arco.Data.Worklist
import Arco.Flow.Events

/-! Selections of assets and the tasks planned for them. -/

namespace Arco.Flow

open Keyed Text

structure SelectionOptions where
  includeUpstream : Bool := false
  includeDownstream : Bool := false

structure AssetGraph where
  upstream : Map String (List String) := Table.empty
  downstream : Map String (List String) := Table.empty

namespace AssetGraph

def extendDownstream (m : Map String (List String)) (key : String) (added : List String) : Map String (List String) :=
  m.insert key ((m.get key).getD [] ++ added)

def insertAsset (g : AssetGraph) (assetKey : String) (upstreamDeps : List String) : AssetGraph where
  upstream := g.upstream.insert assetKey upstreamDeps
  downstream := upstreamDeps.foldl (fun m upstream => extendDownstream m upstream [assetKey])
    (extendDownstream g.downstream assetKey [])

def upstreamOf (g : AssetGraph) (assetKey : String) : List String := (g.upstream.get assetKey).getD []

def downstreamOf (g : AssetGraph) (assetKey : String) : List String := (g.downstream.get assetKey).getD []

def listed (m : Map String (List String)) : List String := m.rows.flatMap Prod.snd

/-- One pass over the queue of roots. An asset is queued when the pass selects it, which it does at
most once for each place where it is listed. -/
def expand (m : Map String (List String)) (roots selected : List String) : List String :=
  Worklist.explore (fun key => (m.get key).getD []) ((listed m).length + roots.length) roots selected

/-- The selected assets in order. The downstream pass starts from what the upstream pass selected. -/
def closeSelection (g : AssetGraph) (roots : List String) (options : SelectionOptions) : List String :=
  let selected := roots.dedup
  let selected := if options.includeUpstream then expand g.upstream roots selected else selected
  let selected := if options.includeDownstream then expand g.downstream roots selected else selected
  selected.insertionSort (· ≤ ·)

theorem subset_listed (m : Map String (List String)) (key : String) : (m.get key).getD [] ⊆ listed m := by
  intro asset member
  cases found : m.find key with
  | none => simp [Map.get, found] at member
  | some entry =>
    rw [Map.get, found] at member
    exact List.mem_flatMap.mpr ⟨entry, Table.mem_of_find found, member⟩

/-- A pass ends with an empty queue. It leaves only from roots and from assets that were not selected
before it. -/
theorem mem_expand (m : Map String (List String)) {roots selected : List String} (start : roots ⊆ selected)
    (asset : String) :
    asset ∈ expand m roots selected ↔ asset ∈ selected ∨ ∃ root ∈ roots,
      Relation.ReflTransGen (fun a b => (a ∈ roots ∨ a ∉ selected) ∧ b ∈ (m.get a).getD []) root asset :=
  Worklist.mem_explore (subset_listed m) (Nat.le_refl _) start asset

theorem nodup_closeSelection (g : AssetGraph) (roots : List String) (options : SelectionOptions) :
    (g.closeSelection roots options).Nodup := by
  have start : roots.dedup.Nodup := roots.nodup_dedup
  have upstream : (if options.includeUpstream then expand g.upstream roots roots.dedup else roots.dedup).Nodup := by
    split
    · exact Worklist.nodup_explore start _ _
    · exact start
  rw [closeSelection, List.Perm.nodup_iff (List.perm_insertionSort _ _)]
  split
  · exact Worklist.nodup_explore upstream _ _
  · exact upstream

end AssetGraph

def isValidAssetSegment (segment : String) : Bool :=
  match segment.toList with
  | [] => false
  | first :: rest => first.isLower && rest.all fun c => c.isLower || c.isDigit || c = '_'

def isValidAssetNamespace (namespaceName : String) : Bool := isValidAssetSegment namespaceName

def isValidAssetName (name : String) : Bool :=
  let segments := splitString '.' name
  if segments.isEmpty || segments.any (· = "") then false else segments.all isValidAssetSegment

def checkAssetKey (trimmed : String) (parts : Option (String × String)) : Except String String :=
  match parts with
  | none => .error s!"invalid asset key '{trimmed}': expected 'namespace/name'"
  | some (namespaceName, name) =>
    if namespaceName = "" ∨ name = "" then
      .error s!"invalid asset key '{trimmed}': namespace and name must be non-empty"
    else if ¬ isValidAssetNamespace namespaceName then
      .error s!"invalid asset key '{trimmed}': invalid namespace '{namespaceName}'"
    else if ¬ isValidAssetName name then .error s!"invalid asset key '{trimmed}': invalid name '{name}'"
    else .ok s!"{namespaceName}.{name}"

def canonicalizeAssetKey (input : String) : Except String String :=
  let trimmed := trim input
  if trimmed = "" then .error "asset key cannot be empty"
  else if trimmed ≠ input then .error "asset key cannot have leading/trailing whitespace"
  else if trimmed.toList.any isWhitespace then .error "asset key cannot contain whitespace"
  else if '/' ∈ trimmed.toList then checkAssetKey trimmed (splitOnce '/' trimmed)
  else if '.' ∈ trimmed.toList then checkAssetKey trimmed (splitOnce '.' trimmed)
  else .error s!"invalid asset key '{trimmed}': expected 'namespace.name' or 'namespace/name'"

/-- The upstreams of an asset that are planned with it, as often as the graph lists them. -/
def AssetGraph.plannedUpstreams (g : AssetGraph) (plannedAssets : List String) (assetKey : String) : List String :=
  ((g.upstreamOf assetKey).filter fun upstream => upstream ∈ plannedAssets).insertionSort (· ≤ ·)

def AssetGraph.taskDef (g : AssetGraph) (plannedAssets : List String) (partitionKey : Option String)
    (assetKey : String) : TaskDef where
  key := assetKey
  dependsOn := g.plannedUpstreams plannedAssets assetKey
  assetKey := some assetKey
  partitionKey := partitionKey
  maxAttempts := 3
  heartbeatTimeoutSec := 300
  requiresVisibleOutput := true

def buildTaskDefsForSelection (g : AssetGraph) (roots : List String) (options : SelectionOptions)
    (partitionKey : Option String) : Except String (List TaskDef) := do
  let canonicalRoots ← roots.mapM canonicalizeAssetKey
  let plannedAssets := g.closeSelection canonicalRoots options
  return (plannedAssets.map (g.taskDef plannedAssets partitionKey)).insertionSort fun a b => a.key ≤ b.key

/-! ## What the closure of a selection contains.

The upstream and the downstream pass share the set of selected assets, and a pass leaves an asset
only if it is a root or the pass itself has selected it. An asset that the upstream pass has
selected therefore ends the downstream paths through it.
-/

open Relation

namespace AssetGraph

def Upstream (g : AssetGraph) (roots : List String) (asset : String) : Prop :=
  ∃ root ∈ roots, ReflTransGen (fun a b => b ∈ g.upstreamOf a) root asset

def Downstream (g : AssetGraph) (roots : List String) (asset : String) : Prop :=
  ∃ root ∈ roots, ReflTransGen (fun a b => b ∈ g.downstreamOf a) root asset

/-- What a selection is meant to contain. -/
def Selected (g : AssetGraph) (roots : List String) (options : SelectionOptions) (asset : String) : Prop :=
  asset ∈ roots ∨ (options.includeUpstream ∧ g.Upstream roots asset) ∨
    (options.includeDownstream ∧ g.Downstream roots asset)

/-- Reached downstream by a path that passes through no upstream asset other than a root. -/
def Unshadowed (g : AssetGraph) (roots : List String) (asset : String) : Prop :=
  ∃ root ∈ roots, ReflTransGen (fun a b => (a ∈ roots ∨ ¬ g.Upstream roots a) ∧ b ∈ g.downstreamOf a) root asset

theorem Unshadowed.downstream {g : AssetGraph} {roots : List String} {asset : String}
    (reached : g.Unshadowed roots asset) : g.Downstream roots asset := by
  obtain ⟨root, isRoot, path⟩ := reached
  exact ⟨root, isRoot, ReflTransGen.mono (fun _ _ step => step.2) _ _ path⟩

theorem mem_upstreamPass (g : AssetGraph) (roots : List String) (enabled : Bool) (asset : String) :
    (asset ∈ if enabled then expand g.upstream roots roots.dedup else roots.dedup) ↔
      asset ∈ roots ∨ (enabled ∧ g.Upstream roots asset) := by
  have start : roots ⊆ roots.dedup := fun _ member => List.mem_dedup.mpr member
  cases enabled with
  | false => simp
  | true => simp [mem_expand g.upstream start, Upstream, upstreamOf, Classical.em]

theorem mem_closeSelection (g : AssetGraph) (roots : List String) (options : SelectionOptions) (asset : String) :
    asset ∈ g.closeSelection roots options ↔
      asset ∈ roots ∨ (options.includeUpstream ∧ g.Upstream roots asset) ∨ (options.includeDownstream ∧
          if options.includeUpstream then g.Unshadowed roots asset else g.Downstream roots asset) := by
  rw [closeSelection, List.mem_insertionSort]
  have upstream := g.mem_upstreamPass roots options.includeUpstream
  generalize (if options.includeUpstream then expand g.upstream roots roots.dedup else roots.dedup) = selected
    at upstream
  have start : roots ⊆ selected := fun root isRoot => (upstream root).mpr (.inl isRoot)
  have leaves : ∀ a, (a ∈ roots ∨ a ∉ selected) ↔ (a ∈ roots ∨ ¬ (options.includeUpstream ∧ g.Upstream roots a)) := by
    intro a
    rw [upstream a]
    tauto
  cases both : options.includeDownstream with
  | false => simp [upstream]
  | true =>
    simp only [if_true, mem_expand g.downstream start, leaves]
    simp only [upstream, or_assoc]
    cases options.includeUpstream with
    | false => simp [Downstream, downstreamOf]
    | true => simp [Unshadowed, downstreamOf]

/-- The closure is what the options ask for exactly when the upstream pass shadows nothing: every
asset downstream of a root is upstream of a root too, or is reached past the upstream assets. -/
theorem closeSelection_exact_iff (g : AssetGraph) (roots : List String) (options : SelectionOptions) :
    (∀ asset, asset ∈ g.closeSelection roots options ↔ g.Selected roots options asset) ↔
      (options.includeUpstream → options.includeDownstream →
        ∀ asset, g.Downstream roots asset → g.Upstream roots asset ∨ g.Unshadowed roots asset) := by
  simp only [mem_closeSelection, Selected]
  constructor
  · intro exact up down asset reached
    have selected := (exact asset).mpr (.inr (.inr ⟨down, reached⟩))
    rw [if_pos up] at selected
    rcases selected with isRoot | ⟨_, upstream⟩ | ⟨_, unshadowed⟩
    · exact .inl ⟨asset, isRoot, .refl⟩
    · exact .inl upstream
    · exact .inr unshadowed
  · intro clear asset
    cases up : options.includeUpstream with
    | false => simp
    | true =>
      cases down : options.includeDownstream with
      | false => simp
      | true =>
        have sound : g.Unshadowed roots asset → g.Downstream roots asset := Unshadowed.downstream
        have complete := clear up down asset
        tauto

/-- An asset graph in which `stage.orders` is between the assets of a selection and has a second
dependent. -/
def auditGraph : AssetGraph :=
  ({} : AssetGraph).insertAsset "stage.orders" ["raw.orders"]
    |>.insertAsset "mart.daily" ["stage.orders"] |>.insertAsset "mart.audit" ["stage.orders"]

/-- `mart.audit` is downstream of `raw.orders`, but the downstream pass stops at `stage.orders`, which
the upstream pass has selected for `mart.daily`. -/
theorem closeSelection_misses_downstream :
    "mart.audit" ∉ auditGraph.closeSelection ["mart.daily", "raw.orders"]
        { includeUpstream := true, includeDownstream := true } ∧
      auditGraph.Selected ["mart.daily", "raw.orders"]
        { includeUpstream := true, includeDownstream := true } "mart.audit" := by
  refine ⟨by decide, .inr (.inr ⟨rfl, "raw.orders", by decide, ?_⟩)⟩
  exact (ReflTransGen.single (b := "stage.orders") (by decide)).tail (by decide)

end AssetGraph

end Arco.Flow
