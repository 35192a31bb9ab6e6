import Antecedent.Graph.Types

/-!
# Errors of the artifact layer

`IoError` (`antecedent-io-core/src/error.rs`), the variants the modelled functions return, and the text
a graph error is wrapped with.
-/

namespace Antecedent.Io

open Graph

/-- `error.rs`. -/
inductive IoError
  | badMagic
  | unsupportedVersion (version : Nat)
  | unsupportedFormat (major minor : Nat)
  | cbor (message : String)
  | checksumMismatch (section' : String)
  | manifestMismatch (message : String)
  | tooLarge
  | io (message : String)
  | convert (message : String)
  | unsupportedCompression (algo : String)
  | decompress (section' message : String)
  | mappedCompressed (section' : String)

/-- `Display` of a `GraphError` (`antecedent-graph/src/error.rs`). -/
def displayError : GraphError → String
  | .unknownNode id => s!"unknown dense node {id}"
  | .cycle src dst => s!"edge {src}->{dst} would create a cycle"
  | .invalidEndpoints message => s!"invalid endpoints: {message}"
  | .contemporaneousSelfEdge v => s!"contemporaneous self-edge on V{v}"
  | .duplicateEdge src dst => s!"duplicate edge {src}->{dst}"
  | .futureToPast src dst srcLag dstLag =>
    s!"edge {src}->{dst} points from the future (L{srcLag}) into the past (L{dstLag})"
  | .tooManyNodes => "too many nodes"
  | .searchBudgetExhausted maxPaths maxLen =>
    s!"path search budget exhausted (max_paths={maxPaths}, max_len={maxLen})"
  | .separationUndetermined => "m-separation is not determined for every MAG in the PAG's class"

/-- `map_err(|e| IoError::Convert(e.to_string()))`. -/
def converted {α : Type} : Except GraphError α → Except IoError α
  | .ok a => .ok a
  | .error e => .error (.convert (displayError e))

theorem converted_ok {α : Type} {x : Except GraphError α} {a : α} :
    converted x = .ok a ↔ x = .ok a := by
  cases x <;> simp [converted]

theorem foldlM_converted {α β : Type} {f : β → α → Except GraphError β} : ∀ {l : List α} {b : β},
    l.foldlM (fun b a => converted (f b a)) b = converted (l.foldlM f b)
  | [], _ => rfl
  | a :: l, b => by
    rw [List.foldlM_cons, List.foldlM_cons]
    cases f b a with
    | error e => rfl
    | ok b => exact foldlM_converted

end Antecedent.Io
