import Mathlib.Data.Nat.Notation

/-!
# Constraints of the RSS configuration generator

Model of `constraint.h`, `constraint.cpp`, `dependency.h` and `libvig_access.h`
of `synthesized/rss-config-from-lvas`.  A constraint is an equation between what
two accesses read.  It is taken apart into the bytes of the packets that it
mentions, and these are matched with the dependencies of the two accesses.

Expressions are those of the solver, after parsing.  Of a symbol the program
only looks at a few properties of its name, and these are its constructors.  Two
functions of the standard library and of the solver are parameters: the
simplified equation of two expressions, and `std::sort`, which does not
determine the order of equal elements and for dependencies is given a comparison
that is not an order.  A failed assertion and a call of `exit` are both `none`.
-/

namespace Vigor
namespace Rss

/-! ## Dependencies -/

/-- `PacketDependency` and the two classes derived from it, without the
protocol, the description and the number of the byte. -/
inductive Dependency (Field : Type) where
  | packet (layer offset : ℕ)
  | incompatible (layer offset : ℕ) (ignore : Bool)
  | processed (layer offset : ℕ) (packetField : Field)
  deriving DecidableEq, Repr

namespace Dependency

variable {Field : Type}

/-- `should_ignore`. -/
def shouldIgnore : Dependency Field → Bool
  | .incompatible _ _ ignore => ignore
  | .packet _ _ | .processed _ _ _ => false

/-- `is_rss_compatible`. -/
def isRssCompatible : Dependency Field → Bool
  | .processed _ _ _ => true
  | .packet _ _ | .incompatible _ _ _ => false

/-- `get_layer` and `get_offset`. -/
def place : Dependency Field → ℕ × ℕ
  | .packet layer offset | .incompatible layer offset _ | .processed layer offset _ =>
      (layer, offset)

/-- The packet field of a dependency that is not ignored, is compatible and was
processed. -/
def packetField : Dependency Field → Option Field
  | .processed _ _ packetField => some packetField
  | .packet _ _ | .incompatible _ _ _ => none

end Dependency

/-! ## Expressions -/

/-- Names of functions and constants. -/
inductive Symbol where
  | select
  /-- A name that starts with `packet_chunks__ref_`, and the number behind. -/
  | packetChunks (id : ℕ)
  /-- `true` or `false`. -/
  | truth (value : Bool)
  /-- A name with `new_index` or `allocated_index` in it. -/
  | index (number : ℕ)
  | other (number : ℕ)
  deriving DecidableEq, Repr

mutual

/-- `Z3_ast`. -/
inductive Ast where
  | app (symbol : Symbol) (args : Args)
  | numeral (value : ℕ)
  | unknown (number : ℕ)
  deriving DecidableEq, Repr

/-- Arguments of an application. -/
inductive Args where
  | nil
  | cons (head : Ast) (tail : Args)
  deriving DecidableEq, Repr

end

/-- `PacketDependenciesExpression`. -/
structure PacketDependenciesExpression (Field : Type) where
  expression : Ast
  index : ℕ
  packetChunksId : ℕ
  dependencies : List (Dependency Field)
  deriving DecidableEq, Repr

/-- `NonPacketDependencyExpression`. -/
structure NonPacketDependencyExpression where
  expression : Ast
  symbol : Symbol
  deriving DecidableEq, Repr

/-- The two vectors of expressions of a constraint. -/
structure Expressions (Field : Type) where
  packet : List (PacketDependenciesExpression Field)
  nonPacket : List NonPacketDependencyExpression
  deriving DecidableEq, Repr

namespace Expressions

variable {Field : Type}

/-- `store_unique_dependencies_expression` for bytes of packets. -/
def storePacket
    (pde : PacketDependenciesExpression Field)
    (expressions : Expressions Field) : Expressions Field :=
  if expressions.packet.any fun stored => stored.expression = pde.expression then expressions
  else { expressions with packet := expressions.packet ++ [pde] }

/-- `store_unique_dependencies_expression` for other symbols. -/
def storeNonPacket
    (npde : NonPacketDependencyExpression)
    (expressions : Expressions Field) : Expressions Field :=
  if expressions.nonPacket.any fun stored => stored.expression = npde.expression then
    expressions
  else { expressions with nonPacket := expressions.nonPacket ++ [npde] }

end Expressions

/-- `is_select_from_chunk`: the index and the packet of a byte.  The index is
taken to be a numeral. -/
def selectFromChunk : Symbol → Args → Option (ℕ × ℕ)
  | .select, .cons (.app (.packetChunks id) _) (.cons (.numeral index) _) => some (index, id)
  | _, _ => none

/-- `is_not_chunk_symbol`. -/
def isNotChunkSymbol : Symbol → Args → Bool
  | _, .cons _ _ => false
  | .truth _, .nil | .packetChunks _, .nil => false
  | .select, .nil | .index _, .nil | .other _, .nil => true

mutual

/-- `fill_dependencies`. -/
def Ast.fillDependencies {Field : Type} :
    Ast → Expressions Field → Expressions Field
  | .app symbol args, expressions =>
      let expressions :=
        match selectFromChunk symbol args with
        | some (index, packetChunksId) =>
            expressions.storePacket ⟨.app symbol args, index, packetChunksId, []⟩
        | none =>
            if isNotChunkSymbol symbol args then
              expressions.storeNonPacket ⟨.app symbol args, symbol⟩
            else expressions
      args.fillDependencies expressions
  | .numeral _, expressions | .unknown _, expressions => expressions

/-- The loop of `fill_dependencies` over the arguments. -/
def Args.fillDependencies {Field : Type} :
    Args → Expressions Field → Expressions Field
  | .nil, expressions => expressions
  | .cons head tail, expressions =>
      tail.fillDependencies (head.fillDependencies expressions)

end

/-! ## Accesses -/

/-- `LibvigAccessArgument::Type`. -/
inductive ArgumentType where
  | read
  | write
  | result
  deriving DecidableEq, Repr

/-- `LibvigAccessArgument`. -/
structure LibvigAccessArgument (Field : Type) where
  type : ArgumentType
  expression : Ast
  dependencies : List (Dependency Field)
  deriving DecidableEq, Repr

/-- `LibvigAccess::Operation`. -/
inductive Operation where
  | read
  | write
  | nop
  | init
  | create
  | verify
  | update
  | destroy
  deriving DecidableEq, Repr

/-- `LibvigAccess`, with the file of its metadata, which is its call path. -/
structure LibvigAccess (Field Path : Type) where
  id : ℕ
  srcDevice : ℕ
  operation : Operation
  object : ℕ
  arguments : List (LibvigAccessArgument Field)
  file : Path
  deriving DecidableEq, Repr

variable {Field Path : Type}

/-- `get_argument`. -/
def LibvigAccess.getArgument
    (access : LibvigAccess Field Path)
    (type : ArgumentType) : Option (LibvigAccessArgument Field) :=
  access.arguments.find? fun argument => argument.type = type

/-- `has_argument`. -/
def LibvigAccess.hasArgument
    (access : LibvigAccess Field Path)
    (type : ArgumentType) : Bool :=
  (access.getArgument type).isSome

/-- `LibvigAccessConstraint` before it is processed. -/
structure LibvigAccessConstraint (Field Path : Type) where
  first : LibvigAccess Field Path
  second : LibvigAccess Field Path
  expression : Ast
  deriving DecidableEq, Repr

/-- `CallPathInfo::Type`. -/
inductive CallPathInfo.Type where
  | source
  | pair
  deriving DecidableEq, Repr

/-- `CallPathInfo`. -/
structure CallPathInfo (Field Path : Type) where
  callPath : Path
  type : CallPathInfo.Type
  id : Option ℕ
  dependencies : List (Dependency Field)
  deriving DecidableEq, Repr

/-- `CallPathsConstraint` before it is processed. -/
structure CallPathsConstraint (Field Path : Type) where
  expression : Ast
  first : CallPathInfo Field Path
  second : CallPathInfo Field Path
  deriving DecidableEq, Repr

/-- `get_call_path_info`. -/
def CallPathsConstraint.getCallPathInfo
    (constraint : CallPathsConstraint Field Path)
    (type : CallPathInfo.Type) : Option (CallPathInfo Field Path) :=
  if constraint.first.type = type then some constraint.first
  else if constraint.second.type = type then some constraint.second
  else none

/-! ## Constraints -/

/-- What a constraint was made from. -/
inductive Constraint.Origin (Field Path : Type) where
  | libvigAccess (constraint : LibvigAccessConstraint Field Path)
  | callPaths (constraint : CallPathsConstraint Field Path)
  deriving DecidableEq, Repr

/-- `Constraint` after it was processed. -/
structure Constraint (Field Path : Type) where
  origin : Constraint.Origin Field Path
  devices : ℕ × ℕ
  packetChunksIds : ℕ × ℕ
  packetDependenciesExpressions : List (PacketDependenciesExpression Field)
  nonPacketDependenciesExpressions : List NonPacketDependencyExpression
  deriving DecidableEq, Repr

/-- The inner loop of `zip_packet_fields_expression_and_values`: dependencies at
one place are stored, up to the first one at another place. -/
def storeDependencies :
    Option (ℕ × ℕ) → List (Dependency Field) →
      List (Dependency Field) × List (Dependency Field)
  | _, [] => ([], [])
  | previous, dependency :: rest =>
      if previous.any fun place => place ≠ dependency.place then ([], dependency :: rest)
      else
        let (stored, rest) := storeDependencies (some dependency.place) rest
        (dependency :: stored, rest)

/-- The outer loop of `zip_packet_fields_expression_and_values`.  An expression
about a third packet fails an assertion. -/
def zipLoop (packetChunksIds : ℕ × ℕ) :
    List (PacketDependenciesExpression Field) → List (Dependency Field) →
      List (Dependency Field) →
        Option (List (PacketDependenciesExpression Field))
  | [], _, _ => some []
  | pde :: pdes, firstDeps, secondDeps =>
      if pde.packetChunksId = packetChunksIds.1 then do
        let (stored, firstDeps) := storeDependencies none firstDeps
        let pdes ← zipLoop packetChunksIds pdes firstDeps secondDeps
        pure ({ pde with dependencies := stored } :: pdes)
      else if pde.packetChunksId = packetChunksIds.2 then do
        let (stored, secondDeps) := storeDependencies none secondDeps
        let pdes ← zipLoop packetChunksIds pdes firstDeps secondDeps
        pure ({ pde with dependencies := stored } :: pdes)
      else none

/-- The functions of the standard library and of the solver. -/
structure Toolkit (Field : Type) where
  /-- `Z3_simplify` of `Z3_mk_eq`. -/
  simplifyEq : Ast → Ast → Ast
  /-- `DependencyManager::sort`. -/
  sortDependencies : List (Dependency Field) → List (Dependency Field)
  /-- `std::sort` of expressions by index. -/
  sortExpressions :
    List (PacketDependenciesExpression Field) → List (PacketDependenciesExpression Field)
  sortExpressions_perm : ∀ pdes, (sortExpressions pdes).Perm pdes

variable (toolkit : Toolkit Field)

/-- `zip_packet_fields_expression_and_values`. -/
def zipPacketFieldsExpressionAndValues
    (packetChunksIds : ℕ × ℕ)
    (firstDeps secondDeps : List (Dependency Field))
    (pdes : List (PacketDependenciesExpression Field)) :
    Option (List (PacketDependenciesExpression Field)) :=
  let pdes := toolkit.sortExpressions pdes
  if firstDeps.length + secondDeps.length < pdes.length then none
  else zipLoop packetChunksIds pdes firstDeps secondDeps

/-- The common part of the two versions of `internal_process`. -/
def internalProcess
    (origin : Constraint.Origin Field Path)
    (expression : Ast)
    (devices packetChunksIds : ℕ × ℕ)
    (firstDeps secondDeps : List (Dependency Field)) : Option (Constraint Field Path) := do
  let filled := expression.fillDependencies ⟨[], []⟩
  let pdes ← zipPacketFieldsExpressionAndValues toolkit packetChunksIds
    (toolkit.sortDependencies firstDeps) (toolkit.sortDependencies secondDeps) filled.packet
  pure
    { origin := origin
      devices := devices
      packetChunksIds := packetChunksIds
      packetDependenciesExpressions := pdes
      nonPacketDependenciesExpressions := filled.nonPacket }

/-- `LibvigAccessConstraint::process`. -/
def LibvigAccessConstraint.process
    (constraint : LibvigAccessConstraint Field Path) :
    Option (Constraint Field Path) := do
  let firstReadArg ← constraint.first.getArgument .read
  let secondReadArg ← constraint.second.getArgument .read
  internalProcess toolkit (.libvigAccess constraint) constraint.expression
    (constraint.first.srcDevice, constraint.second.srcDevice)
    (constraint.first.id, constraint.second.id)
    firstReadArg.dependencies secondReadArg.dependencies

/-- `CallPathsConstraint::process`. -/
def CallPathsConstraint.process
    (constraint : CallPathsConstraint Field Path)
    (sourceDevice pairDevice : ℕ) : Option (Constraint Field Path) := do
  let source ← constraint.getCallPathInfo .source
  let pair ← constraint.getCallPathInfo .pair
  let sourceId ← source.id
  let pairId ← pair.id
  internalProcess toolkit (.callPaths constraint) constraint.expression
    (sourceDevice, pairDevice) (sourceId, pairId) source.dependencies pair.dependencies

variable [DecidableEq Field]

/-- Add the packet fields that are not there yet. -/
def mergePacketFields (packetFields more : List Field) : List Field :=
  more.foldl (fun packetFields pf =>
    if pf ∈ packetFields then packetFields else packetFields ++ [pf]) packetFields

/-- `get_associated_dependencies_packet_fields`. -/
def PacketDependenciesExpression.getAssociatedDependenciesPacketFields
    (pde : PacketDependenciesExpression Field) : List Field :=
  mergePacketFields [] (pde.dependencies.filterMap Dependency.packetField)

/-- `get_packet_fields`. -/
def Constraint.getPacketFields
    (constraint : Constraint Field Path)
    (device : ℕ) : List Field :=
  let packetChunkId :=
    if constraint.devices.1 = device then constraint.packetChunksIds.1
    else constraint.packetChunksIds.2
  constraint.packetDependenciesExpressions.foldl (fun packetFields pde =>
    if pde.packetChunksId ≠ packetChunkId then packetFields
    else mergePacketFields packetFields pde.getAssociatedDependenciesPacketFields) []

end Rss
end Vigor
