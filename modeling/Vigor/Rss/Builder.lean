import Mathlib.Data.List.Sort
import Vigor.Rss.Constraint

/-!
# The builder of RSS configurations

Model of the constructor of `RSSConfigBuilder` in
`synthesized/rss-config-from-lvas/rss_config_builder.cpp`, up to the list of
constraints for the solver.  Every two accesses to one object from different
call paths give a constraint.  The constraints that are left after the analysis
of the index allocators are copied to the list of the solver, while the packet
fields that each device can still use are kept in a map.

The analysis itself, `analyse_dchain_interpretations`, only erases constraints
from the list or exits, and is a parameter.  The options of the network card and
the set of all packet fields are not read by the functions here and are left
out.
-/

namespace Vigor
namespace Rss

variable {Field Path : Type} [DecidableEq Path]

/-! ## Accesses -/

/-- The map of `fill_unique_devices` from call paths to devices. -/
def devicePerCallPath (accesses : List (LibvigAccess Field Path)) :
    Path → Option ℕ :=
  accesses.foldl
    (fun devices access => fun path =>
      if path = access.file then some access.srcDevice else devices path)
    fun _ => none

/-- The loop of `filter_reads_without_writes_on_objects`, with the objects that
were seen and whether their accesses are kept. -/
def filterLoop (accesses : List (LibvigAccess Field Path)) :
    List (LibvigAccess Field Path) → (ℕ → Option Bool) →
      List (LibvigAccess Field Path)
  | [], _ => []
  | access :: rest, accessByObject =>
      match accessByObject access.object with
      | some true => access :: filterLoop accesses rest accessByObject
      | some false => filterLoop accesses rest accessByObject
      | none =>
          let foundRead := accesses.any fun other => other.object = access.object ∧
            (other.operation = .read ∨ other.operation = .verify)
          let foundWrite := accesses.any fun other => other.object = access.object ∧
            (other.operation = .write ∨ other.operation = .create ∨ other.operation = .update)
          if foundRead && !foundWrite then
            filterLoop accesses rest fun object =>
              if object = access.object then some false else accessByObject object
          else
            access :: filterLoop accesses rest fun object =>
              if object = access.object then some true else accessByObject object

/-- `filter_reads_without_writes_on_objects`. -/
def filterReadsWithoutWritesOnObjects
    (accesses : List (LibvigAccess Field Path)) :
    List (LibvigAccess Field Path) :=
  filterLoop accesses accesses fun _ => none

/-! ## Constraints between accesses -/

variable (toolkit : Toolkit Field)

/-- A dependency that is not ignored and is incompatible with RSS. -/
def incompatibleDependencyFilter (dependency : Dependency Field) : Bool :=
  if dependency.shouldIgnore then false else !dependency.isRssCompatible

/-- `check_incompatible_dependencies`: whether the program goes on.  Both
arguments are those of the first access. -/
def checkIncompatibleDependencies (first _second : LibvigAccess Field Path) : Option Unit := do
  let firstReadArg ← first.getArgument .read
  let secondReadArg ← first.getArgument .read
  if firstReadArg.dependencies.any incompatibleDependencyFilter ||
      secondReadArg.dependencies.any incompatibleDependencyFilter then none
  else pure ()

/-- `generate_expression_from_read_args`. -/
def generateExpressionFromReadArgs (first second : LibvigAccess Field Path) : Option Ast := do
  let firstReadArg ← first.getArgument .read
  let secondReadArg ← second.getArgument .read
  pure (toolkit.simplifyEq firstReadArg.expression secondReadArg.expression)

/-- The two accesses of a constraint, the one with the bigger device first. -/
def orderedAccesses (first second : LibvigAccess Field Path) :
    LibvigAccess Field Path × LibvigAccess Field Path :=
  (if first.srcDevice ≥ second.srcDevice then first else second,
    if first.srcDevice ≥ second.srcDevice then second else first)

/-- The constructor of `LibvigAccessConstraint`. -/
def makeConstraint (first second : LibvigAccess Field Path) :
    Option (LibvigAccessConstraint Field Path) := do
  let (first, second) := orderedAccesses first second
  checkIncompatibleDependencies first second
  let expression ← generateExpressionFromReadArgs toolkit first second
  pure ⟨first, second, expression⟩

/-- Two accesses to one object from different call paths, both with something
read. -/
def Conflicts (first second : LibvigAccess Field Path) : Prop :=
  first.object = second.object ∧ first.file ≠ second.file ∧
    first.hasArgument .read = true ∧ second.hasArgument .read = true

instance (first second : LibvigAccess Field Path) :
    Decidable (Conflicts first second) :=
  inferInstanceAs (Decidable (_ ∧ _))

/-- The inner loop of `fill_libvig_access_constraints`. -/
def fillFrom
    (first : LibvigAccess Field Path)
    (accesses : List (LibvigAccess Field Path))
    (constraints : List (LibvigAccessConstraint Field Path)) :
    Option (List (LibvigAccessConstraint Field Path)) :=
  accesses.foldlM (fun constraints second =>
    if Conflicts first second then do
      let constraint ← makeConstraint toolkit first second
      pure (constraints ++ [constraint])
    else pure constraints) constraints

/-- The outer loop of `fill_libvig_access_constraints`. -/
def fillLoop :
    List (LibvigAccess Field Path) → List (LibvigAccessConstraint Field Path) →
      Option (List (LibvigAccessConstraint Field Path))
  | [], constraints => pure constraints
  | first :: accesses, constraints => do
      let constraints ← fillFrom toolkit first accesses constraints
      fillLoop accesses constraints

/-- `fill_libvig_access_constraints`. -/
def fillLibvigAccessConstraints (accesses : List (LibvigAccess Field Path)) :
    Option (List (LibvigAccessConstraint Field Path)) :=
  fillLoop toolkit accesses []

/-! ## Constraints for the solver -/

variable [LinearOrder Field]

/-- `std::sort` of packet fields. -/
def sortPacketFields (packetFields : List Field) : List Field :=
  packetFields.insertionSort (· ≤ ·)

/-- `interset_packet_fields`. -/
def intersetPacketFields (pf1 pf2 : List Field) : List Field :=
  let pf1 := sortPacketFields pf1
  let pf2 := sortPacketFields pf2
  pf1.foldl (fun result pf =>
    if pf ∉ pf2 then result
    else if pf ∈ result then result
    else result ++ [pf]) []

/-- `analyse_constraint`. -/
def analyseConstraint (constraint : Constraint Field Path) : Option Bool :=
  if !constraint.nonPacketDependenciesExpressions.isEmpty &&
      !constraint.packetDependenciesExpressions.isEmpty then none
  else if constraint.nonPacketDependenciesExpressions.any fun npde =>
      match npde.symbol with
      | .index _ => false
      | _ => true then none
  else pure (!constraint.packetDependenciesExpressions.isEmpty)

/-- The map `packet_fields_per_device` and the vector `constraints`. -/
structure Generation (Field Path : Type) where
  packetFieldsPerDevice : ℕ → Option (List Field)
  constraints : List (Constraint Field Path)

namespace Generation

/-- Store the packet fields of a device. -/
def setFields
    (device : ℕ)
    (packetFields : List Field)
    (generation : Generation Field Path) : Generation Field Path :=
  { generation with
    packetFieldsPerDevice :=
      Function.update generation.packetFieldsPerDevice device (some packetFields) }

/-- Copy a constraint to the end of the vector. -/
def push
    (constraint : Constraint Field Path)
    (generation : Generation Field Path) : Generation Field Path :=
  { generation with constraints := generation.constraints ++ [constraint] }

/-- Intersect the packet fields of one device of a constraint between call
paths. -/
def restrict
    (device : ℕ)
    (packetFields : List Field)
    (generation : Generation Field Path) : Generation Field Path :=
  match generation.packetFieldsPerDevice device with
  | none => generation.setFields device packetFields
  | some stored => generation.setFields device (intersetPacketFields stored packetFields)

/-- One round of the first loop of `generate_solver_constraints`. -/
def callPathRound
    (devices : Path → Option ℕ)
    (generation : Generation Field Path)
    (callPathConstraint : CallPathsConstraint Field Path) :
    Option (Generation Field Path) := do
  let source ← callPathConstraint.getCallPathInfo .source
  let pair ← callPathConstraint.getCallPathInfo .pair
  let sourceDevice ← devices source.callPath
  let pairDevice ← devices pair.callPath
  let constraint ← callPathConstraint.process toolkit sourceDevice pairDevice
  let generation := generation.restrict sourceDevice (constraint.getPacketFields sourceDevice)
  let generation := generation.restrict pairDevice (constraint.getPacketFields pairDevice)
  pure (generation.push constraint)

/-- The round of the inner loop for one device of a constraint between accesses.
A device without packet fields gets those of the constraint, and the round ends
there. -/
def deviceRound
    (constraint : Constraint Field Path)
    (generation : Generation Field Path)
    (device : ℕ) : Option (Generation Field Path) := do
  if ¬ (← analyseConstraint constraint) then pure generation
  else
    let devicePacketFields := sortPacketFields (constraint.getPacketFields device)
    match generation.packetFieldsPerDevice device with
    | none => pure (generation.setFields device devicePacketFields)
    | some stored =>
        let intersection := intersetPacketFields stored devicePacketFields
        if intersection.length > 0 ∧ intersection ≠ stored then
          pure ((generation.setFields device intersection).push constraint)
        -- Incompatible constraints.
        else if intersection.length = 0 then none
        else pure (generation.push constraint)

/-- One round of the second loop of `generate_solver_constraints`. -/
def libvigRound
    (generation : Generation Field Path)
    (libvigAccessConstraint : LibvigAccessConstraint Field Path) :
    Option (Generation Field Path) := do
  let constraint ← libvigAccessConstraint.process toolkit
  let generation ← generation.deviceRound constraint constraint.devices.1
  generation.deviceRound constraint constraint.devices.2

end Generation

/-- `generate_solver_constraints`. -/
def generateSolverConstraints
    (devices : Path → Option ℕ)
    (callPathsConstraints : List (CallPathsConstraint Field Path))
    (libvigAccessConstraints : List (LibvigAccessConstraint Field Path)) :
    Option (List (Constraint Field Path)) := do
  let generation ← callPathsConstraints.foldlM (Generation.callPathRound toolkit devices)
    ⟨fun _ => none, []⟩
  let generation ← libvigAccessConstraints.foldlM (Generation.libvigRound toolkit) generation
  pure generation.constraints

/-- `RSSConfigBuilder`: the constraints between accesses when
`generate_solver_constraints` starts, and the constraints for the solver when it
returns. -/
def rssConfigBuilder
    (analyseDchainInterpretations :
      List (LibvigAccess Field Path) →
        List (LibvigAccessConstraint Field Path) →
        Option (List (LibvigAccessConstraint Field Path)))
    (accesses : List (LibvigAccess Field Path))
    (callPathsConstraints : List (CallPathsConstraint Field Path)) :
    Option (List (LibvigAccessConstraint Field Path) × List (Constraint Field Path)) := do
  let trimmedAccesses := filterReadsWithoutWritesOnObjects accesses
  let filled ← fillLibvigAccessConstraints toolkit trimmedAccesses
  let remaining ← analyseDchainInterpretations trimmedAccesses filled
  let constraints ← generateSolverConstraints toolkit (devicePerCallPath accesses)
    callPathsConstraints remaining
  pure (remaining, constraints)

end Rss
end Vigor
