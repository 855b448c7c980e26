import Vigor.Rss.Builder

/-!
# Which constraints reach the solver

A constraint between two accesses is copied to the list of the solver in the
rounds for devices that have packet fields already.  When both devices of a
constraint are new and different, no round copies it.  The check for
dependencies that are incompatible with RSS looks at one of the two accesses
only.
-/

namespace Vigor
namespace Rss

variable {Field Path : Type}

/-! ## Processing -/

/-- The equation of the constraint mentions bytes of packets. -/
def LibvigAccessConstraint.HasPacketDependencies
    (constraint : LibvigAccessConstraint Field Path) : Prop :=
  (constraint.expression.fillDependencies (⟨[], []⟩ : Expressions Field)).packet ≠ []

instance (constraint : LibvigAccessConstraint Field Path) [DecidableEq Field] :
    Decidable constraint.HasPacketDependencies :=
  inferInstanceAs (Decidable (_ ≠ _))

theorem length_zipLoop
    {packetChunksIds : ℕ × ℕ}
    {pdes zipped : List (PacketDependenciesExpression Field)}
    {firstDeps secondDeps : List (Dependency Field)}
    (succeeds : zipLoop packetChunksIds pdes firstDeps secondDeps =
      some zipped) :
    zipped.length = pdes.length := by
  induction pdes generalizing firstDeps secondDeps zipped with
  | nil =>
      obtain rfl := Option.some.inj succeeds
      rfl
  | cons pde pdes ih =>
      rw [zipLoop] at succeeds
      split at succeeds
      · obtain ⟨rest, zippedRest, isCons⟩ := Option.bind_eq_some_iff.mp succeeds
        obtain rfl := Option.some.inj isCons
        rw [List.length_cons, List.length_cons, ih zippedRest]
      · split at succeeds
        · obtain ⟨rest, zippedRest, isCons⟩ := Option.bind_eq_some_iff.mp succeeds
          obtain rfl := Option.some.inj isCons
          rw [List.length_cons, List.length_cons, ih zippedRest]
        · cases succeeds

/-- What a processed constraint keeps of the unprocessed one. -/
theorem process_eq_some
    {processed : Constraint Field Path}
    (succeeds : constraint.process toolkit = some processed) :
    processed.origin = .libvigAccess constraint ∧
      processed.devices =
        (constraint.first.srcDevice, constraint.second.srcDevice) ∧
      (processed.packetDependenciesExpressions ≠ [] ↔
        constraint.HasPacketDependencies) := by
  obtain ⟨_, _, succeeds⟩ := Option.bind_eq_some_iff.mp succeeds
  obtain ⟨_, _, succeeds⟩ := Option.bind_eq_some_iff.mp succeeds
  obtain ⟨zipped, isZipped, isProcessed⟩ := Option.bind_eq_some_iff.mp succeeds
  obtain rfl := Option.some.inj isProcessed
  refine ⟨rfl, rfl, ?_⟩
  rw [zipPacketFieldsExpressionAndValues] at isZipped
  split at isZipped
  · cases isZipped
  · have sameLength := (length_zipLoop isZipped).trans (toolkit.sortExpressions_perm _).length_eq
    rw [LibvigAccessConstraint.HasPacketDependencies, ne_eq, ne_eq, not_iff_not,
      ← List.length_eq_zero_iff, ← List.length_eq_zero_iff]
    dsimp only
    rw [sameLength]

theorem origin_process
    {processed : Constraint Field Path}
    (succeeds : callPathsConstraint.process toolkit sourceDevice pairDevice =
      some processed) :
    processed.origin = .callPaths callPathsConstraint := by
  obtain ⟨_, _, succeeds⟩ := Option.bind_eq_some_iff.mp succeeds
  obtain ⟨_, _, succeeds⟩ := Option.bind_eq_some_iff.mp succeeds
  obtain ⟨_, _, succeeds⟩ := Option.bind_eq_some_iff.mp succeeds
  obtain ⟨_, _, succeeds⟩ := Option.bind_eq_some_iff.mp succeeds
  obtain ⟨_, _, isProcessed⟩ := Option.bind_eq_some_iff.mp succeeds
  obtain rfl := Option.some.inj isProcessed
  rfl

/-! ## Rounds -/

section Rounds

/-- The device has packet fields. -/
def Generation.Known
    (generation : Generation Field Path)
    (device : ℕ) : Prop :=
  generation.packetFieldsPerDevice device ≠ none

theorem known_setFields {generation : Generation Field Path} :
    (generation.setFields device packetFields).Known other ↔
      generation.Known other ∨ other = device := by
  rw [Generation.Known, Generation.Known, Generation.setFields]
  by_cases same : other = device
  · simp [same]
  · simp [same]

theorem analyseConstraint_eq_some
    {constraint : Constraint Field Path}
    {result : Bool}
    (succeeds : analyseConstraint constraint = some result) :
    result = true ↔ constraint.packetDependenciesExpressions ≠ [] := by
  rw [analyseConstraint] at succeeds
  split at succeeds
  · cases succeeds
  split at succeeds
  · cases succeeds
  obtain rfl := Option.some.inj succeeds
  simp

/-- The device has packet fields after the constraints `before`, when those that
are `known` have some at the start of the loop. -/
def Seen
    (known : ℕ → Prop)
    (before : List (LibvigAccessConstraint Field Path))
    (device : ℕ) : Prop :=
  known device ∨ ∃ earlier ∈ before, earlier.HasPacketDependencies ∧
    (device = earlier.first.srcDevice ∨ device = earlier.second.srcDevice)

/-- The two devices of a constraint are the same, or one of them has packet
fields when the loop comes to the constraint. -/
def Reaches
    (known : ℕ → Prop)
    (before : List (LibvigAccessConstraint Field Path))
    (constraint : LibvigAccessConstraint Field Path) : Prop :=
  constraint.first.srcDevice = constraint.second.srcDevice ∨
    Seen known before constraint.first.srcDevice ∨
    Seen known before constraint.second.srcDevice

/-- What a round of the second loop does. -/
structure Advances
    (toolkit : Toolkit Field)
    (generation : Generation Field Path)
    (constraint : LibvigAccessConstraint Field Path)
    (following : Generation Field Path) : Prop where
  known : ∀ device, following.Known device ↔ generation.Known device ∨
    constraint.HasPacketDependencies ∧
      (device = constraint.first.srcDevice ∨ device = constraint.second.srcDevice)
  mem : ∀ solverConstraint, solverConstraint ∈ following.constraints ↔
    solverConstraint ∈ generation.constraints ∨
      constraint.process toolkit = some solverConstraint ∧
        constraint.HasPacketDependencies ∧ Reaches generation.Known [] constraint
  processes : (constraint.process toolkit).isSome = true

variable
  {generation following : Generation Field Path} {toolkit : Toolkit Field}
  {constraint : LibvigAccessConstraint Field Path}

theorem Advances.seen
    (advances : Advances toolkit generation constraint following) :
    Seen following.Known before device ↔
      Seen generation.Known (constraint :: before) device := by
  simp only [Seen, advances.known, or_assoc, List.mem_cons, exists_eq_or_imp]

theorem Advances.reaches
    (advances : Advances toolkit generation constraint following) :
    Reaches following.Known before later ↔
      Reaches generation.Known (constraint :: before) later := by
  rw [Reaches, Reaches, advances.seen, advances.seen]

variable [LinearOrder Field]

/-- A round for a device of a constraint without bytes of packets. -/
theorem deviceRound_of_nil
    {constraint : Constraint Field Path}
    (none : constraint.packetDependenciesExpressions = [])
    (succeeds : generation.deviceRound constraint device = some following) :
    following = generation := by
  obtain ⟨result, analysed, succeeds⟩ := Option.bind_eq_some_iff.mp succeeds
  have isFalse : result ≠ true := fun isTrue =>
    (analyseConstraint_eq_some analysed).mp isTrue none
  rw [if_pos isFalse] at succeeds
  exact (Option.some.inj succeeds).symm

theorem deviceRound_of_ne_nil
    {constraint : Constraint Field Path}
    (nonempty : constraint.packetDependenciesExpressions ≠ [])
    (succeeds : generation.deviceRound constraint device = some following) :
    (∀ other, following.Known other ↔ generation.Known other ∨ other = device) ∧
      (generation.Known device →
        following.constraints = generation.constraints ++ [constraint]) ∧
      (¬ generation.Known device →
        following.constraints = generation.constraints) := by
  obtain ⟨result, analysed, succeeds⟩ := Option.bind_eq_some_iff.mp succeeds
  have isTrue : result = true := (analyseConstraint_eq_some analysed).mpr nonempty
  rw [if_neg (not_not.mpr isTrue)] at succeeds
  dsimp only at succeeds
  cases stored : generation.packetFieldsPerDevice device with
  | none =>
      have unknown : ¬ generation.Known device := fun known => known stored
      rw [stored] at succeeds
      obtain rfl := Option.some.inj succeeds
      exact ⟨fun _ => known_setFields, fun known => absurd known unknown, fun _ => rfl⟩
  | some packetFields =>
      have known : generation.Known device := by simp [Generation.Known, stored]
      have already : ∀ other, generation.Known other ↔
          generation.Known other ∨ other = device :=
        fun other => (or_iff_left_of_imp fun same => same ▸ known).symm
      rw [stored] at succeeds
      dsimp only at succeeds
      split at succeeds
      · obtain rfl := Option.some.inj succeeds
        exact ⟨fun _ => known_setFields, fun _ => rfl, fun unknown => absurd known unknown⟩
      split at succeeds
      · cases succeeds
      obtain rfl := Option.some.inj succeeds
      exact ⟨already, fun _ => rfl, fun unknown => absurd known unknown⟩

theorem advances_libvigRound
    (succeeds : generation.libvigRound toolkit constraint = some following) :
    Advances toolkit generation constraint following := by
  obtain ⟨processed, isProcessed, succeeds⟩ := Option.bind_eq_some_iff.mp succeeds
  obtain ⟨between, firstRound, secondRound⟩ := Option.bind_eq_some_iff.mp succeeds
  obtain ⟨_, devices, nonempty⟩ := process_eq_some isProcessed
  rw [devices] at firstRound secondRound
  dsimp only at firstRound secondRound
  by_cases hasPacket : constraint.HasPacketDependencies
  · have some := nonempty.mpr hasPacket
    obtain ⟨knownFirst, pushFirst, skipFirst⟩ := deviceRound_of_ne_nil some firstRound
    obtain ⟨knownSecond, pushSecond, skipSecond⟩ := deviceRound_of_ne_nil some secondRound
    refine ⟨fun device => ?_, fun solverConstraint => ?_, by simp [isProcessed]⟩
    · rw [knownSecond, knownFirst, or_assoc]
      simp only [hasPacket, true_and]
    · have isSame : (constraint.process toolkit = Option.some solverConstraint) ↔
          solverConstraint = processed := by
        rw [isProcessed, Option.some_inj, eq_comm]
      simp only [isSame, hasPacket, true_and, Reaches, Seen, List.not_mem_nil,
        false_and, exists_false, or_false]
      -- The second round also finds the device that the first round has stored.
      have secondKnown := knownFirst constraint.second.srcDevice
      by_cases first : generation.Known constraint.first.srcDevice
      · by_cases second : between.Known constraint.second.srcDevice
        · simp [pushSecond second, pushFirst first, first]
        · simp [skipSecond second, pushFirst first, first]
      · by_cases second : between.Known constraint.second.srcDevice
        · have admitted := secondKnown.mp second
          rw [pushSecond second, skipFirst first, List.mem_append, List.mem_singleton]
          grind
        · rw [secondKnown, not_or] at second
          rw [skipSecond (by rw [secondKnown, not_or]; exact second), skipFirst first]
          grind
  · have none : processed.packetDependenciesExpressions = [] := by
      by_contra some
      exact hasPacket (nonempty.mp some)
    obtain rfl := deviceRound_of_nil none firstRound
    obtain rfl := deviceRound_of_nil none secondRound
    exact ⟨by simp [hasPacket], by simp [hasPacket], by simp [isProcessed]⟩

variable {constraints : List (LibvigAccessConstraint Field Path)}

theorem mem_libvigRounds
    (succeeds : constraints.foldlM (Generation.libvigRound toolkit) generation =
      some following) :
    solverConstraint ∈ following.constraints ↔
        solverConstraint ∈ generation.constraints ∨
      ∃ before constraint after, constraints = before ++ constraint :: after ∧
        constraint.process toolkit = some solverConstraint ∧
        constraint.HasPacketDependencies ∧
          Reaches generation.Known before constraint := by
  induction constraints generalizing generation with
  | nil =>
      obtain rfl := Option.some.inj succeeds
      simp
  | cons head constraints ih =>
      rw [List.foldlM_cons] at succeeds
      obtain ⟨between, headRound, rounds⟩ := Option.bind_eq_some_iff.mp succeeds
      have advances := advances_libvigRound headRound
      rw [ih rounds, advances.mem, or_assoc]
      refine or_congr_right ⟨?_, ?_⟩
      · rintro (⟨processes, hasPacket, reaches⟩ |
          ⟨before, constraint, after, rfl, processes, hasPacket, reaches⟩)
        · exact ⟨[], head, constraints, rfl, processes, hasPacket, reaches⟩
        · exact ⟨head :: before, constraint, after, rfl, processes, hasPacket,
            advances.reaches.mp reaches⟩
      · rintro ⟨before, constraint, after, split, processes, hasPacket, reaches⟩
        rcases List.cons_eq_append_iff.mp split with ⟨rfl, isHead⟩ | ⟨tail, rfl, isTail⟩
        · obtain ⟨rfl, rfl⟩ := List.cons_eq_cons.mp isHead
          exact Or.inl ⟨processes, hasPacket, reaches⟩
        · exact Or.inr ⟨tail, constraint, after, isTail, processes, hasPacket,
            advances.reaches.mpr reaches⟩

theorem process_of_libvigRounds
    (succeeds : constraints.foldlM (Generation.libvigRound toolkit) generation =
      some following) :
    ∀ constraint ∈ constraints, ∃ processed,
      constraint.process toolkit = some processed := by
  induction constraints generalizing generation with
  | nil => exact fun _ mem => absurd mem List.not_mem_nil
  | cons head constraints ih =>
      rw [List.foldlM_cons] at succeeds
      obtain ⟨between, headRound, rounds⟩ := Option.bind_eq_some_iff.mp succeeds
      exact List.forall_mem_cons.mpr
        ⟨Option.isSome_iff_exists.mp (advances_libvigRound headRound).processes, ih rounds⟩

/-! ## Call paths -/

/-- The device of one of the two call paths of a constraint. -/
def CallPathDevice
    (devices : Path → Option ℕ)
    (callPathsConstraints : List (CallPathsConstraint Field Path))
    (device : ℕ) : Prop :=
  ∃ constraint ∈ callPathsConstraints, ∃ type info,
    constraint.getCallPathInfo type = some info ∧ devices info.callPath = some device

theorem known_restrict :
    (generation.restrict device packetFields).Known other ↔
      generation.Known other ∨ other = device := by
  rw [Generation.restrict]
  split <;> exact known_setFields

theorem constraints_restrict :
    (generation.restrict device packetFields).constraints =
      generation.constraints := by
  rw [Generation.restrict]
  split <;> rfl

variable {devices : Path → Option ℕ}

/-- A round of the first loop makes the devices of the two call paths known, and
copies a constraint between call paths. -/
theorem callPathRound_eq_some
    {callPathConstraint : CallPathsConstraint Field Path}
    (succeeds : generation.callPathRound toolkit devices callPathConstraint =
      some following) :
    (∀ device, following.Known device ↔
        generation.Known device ∨
          CallPathDevice devices [callPathConstraint] device) ∧
      ∃ constraint, constraint.origin = .callPaths callPathConstraint ∧
        following.constraints = generation.constraints ++ [constraint] := by
  obtain ⟨source, isSource, succeeds⟩ := Option.bind_eq_some_iff.mp succeeds
  obtain ⟨pair, isPair, succeeds⟩ := Option.bind_eq_some_iff.mp succeeds
  obtain ⟨sourceDevice, isSourceDevice, succeeds⟩ := Option.bind_eq_some_iff.mp succeeds
  obtain ⟨pairDevice, isPairDevice, succeeds⟩ := Option.bind_eq_some_iff.mp succeeds
  obtain ⟨constraint, isConstraint, succeeds⟩ := Option.bind_eq_some_iff.mp succeeds
  obtain rfl := Option.some.inj succeeds
  refine ⟨fun device => ?_, constraint, origin_process isConstraint, ?_⟩
  · have isDevice : CallPathDevice devices [callPathConstraint] device ↔
        device = sourceDevice ∨ device = pairDevice := by
      constructor
      · rintro ⟨only, isOnly, type, info, isInfo, isDevice⟩
        obtain rfl := List.mem_singleton.mp isOnly
        cases type with
        | source =>
            obtain rfl := Option.some.inj (isSource.symm.trans isInfo)
            exact Or.inl (Option.some.inj (isDevice.symm.trans isSourceDevice))
        | pair =>
            obtain rfl := Option.some.inj (isPair.symm.trans isInfo)
            exact Or.inr (Option.some.inj (isDevice.symm.trans isPairDevice))
      · rintro (rfl | rfl)
        · exact ⟨_, List.mem_singleton_self _, .source, source, isSource, isSourceDevice⟩
        · exact ⟨_, List.mem_singleton_self _, .pair, pair, isPair, isPairDevice⟩
    rw [isDevice, ← or_assoc, ← known_restrict, ← known_restrict]
    rfl
  · rw [Generation.push, constraints_restrict, constraints_restrict]

theorem callPathRounds_eq_some
    (succeeds : callPathsConstraints.foldlM
      (Generation.callPathRound toolkit devices) generation = some following) :
    (∀ device, following.Known device ↔
        generation.Known device ∨
          CallPathDevice devices callPathsConstraints device) ∧
      ∀ constraint ∈ following.constraints,
          constraint ∈ generation.constraints ∨
        ∃ callPathsConstraint,
          constraint.origin = .callPaths callPathsConstraint := by
  induction callPathsConstraints generalizing generation with
  | nil =>
      obtain rfl := Option.some.inj succeeds
      exact ⟨by simp [CallPathDevice], fun _ mem => Or.inl mem⟩
  | cons head callPathsConstraints ih =>
      rw [List.foldlM_cons] at succeeds
      obtain ⟨between, headRound, rounds⟩ := Option.bind_eq_some_iff.mp succeeds
      obtain ⟨knownHead, copied, origin, isCopied⟩ := callPathRound_eq_some headRound
      obtain ⟨knownRest, origins⟩ := ih rounds
      refine ⟨fun device => ?_, fun constraint mem => ?_⟩
      · rw [knownRest, knownHead, or_assoc]
        simp only [CallPathDevice, List.mem_cons, exists_eq_or_imp,
          List.not_mem_nil, or_false, exists_eq_left]
      · rcases origins constraint mem with earlier | isCallPaths
        · rw [isCopied, List.mem_append, List.mem_singleton] at earlier
          rcases earlier with earlier | rfl
          · exact Or.inl earlier
          · exact Or.inr ⟨head, origin⟩
        · exact Or.inr isCallPaths

theorem mem_generateSolverConstraints
    (succeeds : generateSolverConstraints toolkit devices callPathsConstraints
      constraints = some solverConstraints)
    (hasPacket : constraint.HasPacketDependencies) :
    (∃ processed ∈ solverConstraints,
        constraint.process toolkit = some processed) ↔
      ∃ before after, constraints = before ++ constraint :: after ∧
        Reaches (CallPathDevice devices callPathsConstraints) before
          constraint := by
  obtain ⟨between, callPathRounds, succeeds⟩ := Option.bind_eq_some_iff.mp succeeds
  obtain ⟨following, libvigRounds, isFollowing⟩ := Option.bind_eq_some_iff.mp succeeds
  obtain rfl := Option.some.inj isFollowing
  obtain ⟨known, origins⟩ := callPathRounds_eq_some callPathRounds
  have isKnown : between.Known = CallPathDevice devices callPathsConstraints := by
    funext device
    rw [known device]
    simp [Generation.Known]
  simp only [mem_libvigRounds libvigRounds, isKnown]
  constructor
  · rintro ⟨processed, fromCallPaths | ⟨before, other, after, split, processes, _, reaches⟩,
      isProcessed⟩
    · have origin := (process_eq_some isProcessed).1
      rcases origins processed fromCallPaths with isNil | ⟨_, isCallPaths⟩
      · exact absurd isNil List.not_mem_nil
      · rw [origin] at isCallPaths
        cases isCallPaths
    · -- The origin tells processed constraints apart.
      obtain rfl : other = constraint := Constraint.Origin.libvigAccess.inj
        ((process_eq_some processes).1.symm.trans (process_eq_some isProcessed).1)
      exact ⟨before, after, split, reaches⟩
  · rintro ⟨before, after, split, reaches⟩
    obtain ⟨processed, isProcessed⟩ := process_of_libvigRounds libvigRounds constraint
      (split ▸ List.mem_append_right _ List.mem_cons_self)
    exact ⟨processed, Or.inr ⟨before, constraint, after, split, isProcessed, hasPacket, reaches⟩,
      isProcessed⟩

end Rounds

/-! ## Pairs of accesses -/

/-- No dependency of what the access reads is both not ignored and incompatible
with RSS. -/
def LibvigAccess.Compatible (access : LibvigAccess Field Path) : Prop :=
  ∀ argument, access.getArgument .read = some argument →
    argument.dependencies.any incompatibleDependencyFilter = false

variable {toolkit : Toolkit Field}

theorem fillFrom_eq_some
    [DecidableEq Path]
    {constraints filled : List (LibvigAccessConstraint Field Path)}
    (succeeds : fillFrom toolkit first accesses constraints = some filled) :
    ∀ second ∈ accesses, Conflicts first second →
      ∃ constraint, makeConstraint toolkit first second = some constraint := by
  induction accesses generalizing constraints with
  | nil => exact fun _ mem => absurd mem List.not_mem_nil
  | cons head accesses ih =>
      rw [fillFrom, List.foldlM_cons] at succeeds
      obtain ⟨between, round, rounds⟩ := Option.bind_eq_some_iff.mp succeeds
      refine List.forall_mem_cons.mpr ⟨fun conflicts => ?_, ih rounds⟩
      rw [if_pos conflicts] at round
      obtain ⟨constraint, made, _⟩ := Option.bind_eq_some_iff.mp round
      exact ⟨constraint, made⟩

/-- A builder that does not exit has made a constraint for every pair of
accesses. -/
theorem fillLoop_eq_some
    [DecidableEq Path]
    (succeeds : fillLoop toolkit accesses constraints = some filled)
    {first second : LibvigAccess Field Path}
    (pair : [first, second].Sublist accesses)
    (conflicts : Conflicts first second) :
    ∃ constraint, makeConstraint toolkit first second = some constraint := by
  induction accesses generalizing constraints with
  | nil => cases pair
  | cons head accesses ih =>
      obtain ⟨between, round, rounds⟩ := Option.bind_eq_some_iff.mp succeeds
      cases pair with
      | cons _ pair => exact ih rounds pair
      | cons_cons _ pair =>
          exact fillFrom_eq_some round second (List.singleton_sublist.mp pair) conflicts

theorem compatible_makeConstraint
    {first second : LibvigAccess Field Path}
    {constraint : LibvigAccessConstraint Field Path}
    (made : makeConstraint toolkit first second = some constraint) :
    (orderedAccesses first second).1.Compatible := by
  obtain ⟨_, checked, _⟩ := Option.bind_eq_some_iff.mp made
  obtain ⟨readArg, isReadArg, checked⟩ := Option.bind_eq_some_iff.mp checked
  obtain ⟨_, _, checked⟩ := Option.bind_eq_some_iff.mp checked
  intro argument isArgument
  obtain rfl := Option.some.inj (isReadArg.symm.trans isArgument)
  by_contra incompatible
  rw [Bool.not_eq_false] at incompatible
  rw [if_pos (by rw [incompatible, Bool.true_or])] at checked
  cases checked

theorem compatible_orderedAccesses {first second : LibvigAccess Field Path} :
    (first.Compatible ∧ second.Compatible) ↔
      (orderedAccesses first second).1.Compatible ∧
        (orderedAccesses first second).2.Compatible := by
  rw [orderedAccesses]
  split_ifs
  · exact Iff.rfl
  · exact and_comm

/-- When the builder does not exit, two accesses to one object from different
call paths give a constraint.  If it mentions bytes of packets and is still
there when the constraints for the solver are generated, both accesses are
compatible with RSS and the constraint reaches the solver exactly when the
second access is compatible and the devices are the same, or one of them has
packet fields from a constraint before. -/
theorem conflicting_accesses_reach_solver_iff
    [DecidableEq Path]
    [LinearOrder Field]
    {toolkit : Toolkit Field}
    {analyseDchainInterpretations :
      List (LibvigAccess Field Path) →
        List (LibvigAccessConstraint Field Path) →
        Option (List (LibvigAccessConstraint Field Path))}
    {accesses : List (LibvigAccess Field Path)}
    {callPathsConstraints : List (CallPathsConstraint Field Path)}
    {remaining : List (LibvigAccessConstraint Field Path)}
    {solverConstraints : List (Constraint Field Path)}
    (builds : rssConfigBuilder toolkit analyseDchainInterpretations accesses
      callPathsConstraints = some (remaining, solverConstraints))
    {first second : LibvigAccess Field Path}
    (pair : [first, second].Sublist
      (filterReadsWithoutWritesOnObjects accesses))
    (conflicts : Conflicts first second) :
    ∃ constraint, makeConstraint toolkit first second = some constraint ∧
      (constraint ∈ remaining → constraint.HasPacketDependencies →
        ((first.Compatible ∧ second.Compatible ∧
            ∃ processed ∈ solverConstraints,
              constraint.process toolkit = some processed) ↔
          (orderedAccesses first second).2.Compatible ∧
            ∃ before after, remaining = before ++ constraint :: after ∧
              Reaches (CallPathDevice (devicePerCallPath accesses)
                callPathsConstraints) before constraint)) := by
  obtain ⟨filled, isFilled, builds⟩ := Option.bind_eq_some_iff.mp builds
  obtain ⟨_, _, builds⟩ := Option.bind_eq_some_iff.mp builds
  obtain ⟨_, generates, isResult⟩ := Option.bind_eq_some_iff.mp builds
  obtain ⟨rfl, rfl⟩ := Prod.mk.inj (Option.some.inj isResult)
  obtain ⟨constraint, made⟩ := fillLoop_eq_some isFilled pair conflicts
  refine ⟨constraint, made, fun _ hasPacket => ?_⟩
  rw [← and_assoc, compatible_orderedAccesses, mem_generateSolverConstraints generates hasPacket,
    and_iff_right (compatible_makeConstraint made)]

/-- A solver that leaves equations as they are, and sorting that moves
nothing. -/
def plainToolkit : Toolkit ℕ where
  simplifyEq := fun first second => .app (.other 0) (.cons first (.cons second .nil))
  sortDependencies := id
  sortExpressions := id
  sortExpressions_perm := List.Perm.refl

/-- An access that writes an object at a byte of the packet, from the call path
of the same number as the packet. -/
def byteAccess
    (packetChunksId device : ℕ)
    (dependency : Dependency ℕ) : LibvigAccess ℕ ℕ where
  id := packetChunksId
  srcDevice := device
  operation := .write
  object := 0
  arguments := [⟨.read, .app .select (.cons (.app (.packetChunks packetChunksId) .nil)
    (.cons (.numeral 26) .nil)), [dependency]⟩]
  file := packetChunksId

/-- The constraint between the accesses of two packets. -/
def byteConstraint (first second : LibvigAccess ℕ ℕ) :
    LibvigAccessConstraint ℕ ℕ :=
  ⟨first, second, .app (.other 0) (.cons
    (.app .select (.cons (.app (.packetChunks first.id) .nil) (.cons (.numeral 26) .nil)))
    (.cons (.app .select (.cons (.app (.packetChunks second.id) .nil)
      (.cons (.numeral 26) .nil))) .nil))⟩

/-- Two accesses from different call paths on one device: the constraint is
found through the device itself. -/
theorem conflicting_accesses_reach_solver_one_device :
    let first := byteAccess 1 0 (.processed 3 12 0)
    let second := byteAccess 2 0 (.processed 3 12 0)
    first.Compatible ∧ second.Compatible ∧ ∃ remaining solverConstraints,
      rssConfigBuilder plainToolkit (fun _ constraints => some constraints)
        [first, second] [] = some (remaining, solverConstraints) ∧
      ∃ processed ∈ solverConstraints,
        (byteConstraint first second).process plainToolkit = some processed := by
  intro first second
  obtain ⟨solverConstraints, builds⟩ : ∃ solverConstraints,
      rssConfigBuilder plainToolkit (fun _ constraints => some constraints)
        [first, second] [] = some ([byteConstraint first second], solverConstraints) :=
    ⟨_, rfl⟩
  obtain ⟨constraint, made, reaches⟩ := conflicting_accesses_reach_solver_iff builds
    (show [first, second].Sublist _ from List.Sublist.refl _) (by decide)
  obtain rfl : byteConstraint first second = constraint := Option.some.inj made
  obtain ⟨compatibleFirst, compatibleSecond, solved⟩ :=
    (reaches List.mem_cons_self (by decide)).mpr
      ⟨by rintro argument ⟨⟩; rfl, [], [], rfl, Or.inl rfl⟩
  exact ⟨compatibleFirst, compatibleSecond, _, solverConstraints, builds, solved⟩

/-- Two accesses on devices that no constraint before has mentioned: the builder
returns without the constraint.  Two accesses on one device, of which the second
depends on bytes that RSS cannot use: the builder returns all the same. -/
theorem builder_misses_new_devices_and_second_access :
    (let first := byteAccess 1 1 (.processed 3 12 0)
      let second := byteAccess 0 0 (.processed 3 12 0)
      Conflicts first second ∧
        makeConstraint plainToolkit first second = some (byteConstraint first second) ∧
        (byteConstraint first second).HasPacketDependencies ∧
        rssConfigBuilder plainToolkit (fun _ constraints => some constraints)
          [first, second] [] = some ([byteConstraint first second], [])) ∧
      let first := byteAccess 1 0 (.processed 3 12 0)
      let second := byteAccess 2 0 (.incompatible 3 12 false)
      Conflicts first second ∧
        makeConstraint plainToolkit first second = some (byteConstraint first second) ∧
        (byteConstraint first second).HasPacketDependencies ∧
        ¬ second.Compatible ∧
        ∃ solverConstraints, rssConfigBuilder plainToolkit
          (fun _ constraints => some constraints) [first, second] [] =
            some ([byteConstraint first second], solverConstraints) := by
  refine ⟨⟨by decide, rfl, by decide, rfl⟩, by decide, rfl, by decide, ?_, _, rfl⟩
  intro compatible
  exact absurd (compatible _ rfl) (by decide)

end Rss
end Vigor
