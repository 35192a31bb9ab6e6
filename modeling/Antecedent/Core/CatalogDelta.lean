import Antecedent.Core.Catalog

/-!
# Hypothetical catalog changes

Model of `EvidenceCatalogDelta` (`antecedent-core/src/query/transport_delta.rs`): proposed regimes,
the preview of a catalog with them, and the placeholder bindings of a preview. A catalog is made by
`EvidenceCatalog::try_new`, which validates it.
-/

namespace Antecedent.Core

def EvidenceCatalog.tryNew (c : EvidenceCatalog) : Except QueryError EvidenceCatalog := do
  c.validate
  return c

structure EvidenceCatalogDelta where
  proposedRegimes : List EvidenceRegime
  deriving DecidableEq

namespace EvidenceCatalogDelta

/-- The loop of `try_new`: every regime is a proposal under an id of its own. -/
def checkProposed : List Nat → List EvidenceRegime → Except QueryError Unit
  | _, [] => .ok ()
  | ids, r :: rs => do
    require (r.evidenceKind = .proposed ∧ r.id ∉ ids) "catalog delta requires distinct proposed regimes"
    checkProposed (ids ++ [r.id]) rs

/-- Lines 22-44. -/
def tryNew (d : EvidenceCatalogDelta) (base : EvidenceCatalog) : Except QueryError Unit := do
  checkProposed (base.regimes.map (·.id)) d.proposedRegimes
  { base with regimes := base.regimes ++ d.proposedRegimes }.validate

/-- Lines 51-64. -/
def previewCatalog (d : EvidenceCatalogDelta) (base : EvidenceCatalog) :
    Except QueryError EvidenceCatalog := do
  d.tryNew base
  EvidenceCatalog.tryNew { base with
    regimes := base.regimes ++ d.proposedRegimes.map fun r => { r with evidenceKind := .available } }

/-- The placeholder of one regime; its sampling and dependence are read by no modelled function. -/
def placeholder (r : EvidenceRegime) : RegimeBinding where
  datasetIdentity := none
  regime := r.id
  snapshotIdentity := s!"hypothetical:{r.id}"
  schemaNames := []
  weights := none

/-- Lines 75-97. -/
def withPlaceholderBindings (d : EvidenceCatalogDelta) (preview : EvidenceCatalog) :
    Except QueryError EvidenceCatalog :=
  EvidenceCatalog.tryNew { preview with
    bindings := preview.bindings ++ d.proposedRegimes.map placeholder }

end EvidenceCatalogDelta

end Antecedent.Core
