import WebIdl.Scope

namespace WebIdl

/-- A computation that may report problems and goes on after each. -/
abbrev Reporting := StateT (List Problem) (Except Fault)

def Position.text (interner : Interner) : Position → Except Fault String
  | .attr name => return s!"attribute `{← interner.lookup name}`"
  | .operationReturn name => return s!"return type of {← operation name}"
  | .operationArgument name argument =>
    return s!"argument `{← interner.lookup argument}` of {← operation name}"
  | .constructorArgument argument =>
    return s!"argument `{← interner.lookup argument}` of constructor"
  | .constant name => return s!"constant `{← interner.lookup name}`"
  | .dictionaryMember name => return s!"dictionary member `{← interner.lookup name}`"
  | .callbackReturn => return "return type"
  | .callbackArgument argument => return s!"argument `{← interner.lookup argument}`"
  | .typedefTarget => return "aliased type"
  | .inheritance => return "inheritance"
  | .includes => return "includes statement"
where
  operation (name : Identifier) : Except Fault String :=
    if name.isEmpty then return "anonymous operation"
    else return s!"operation `{← interner.lookup name}`"

structure Site where
  identifier : Identifier
  name : String
  locations : Locations

namespace Site

def report (site : Site) (cause : Problem.Cause) : Reporting Unit :=
  modify (· ++ [⟨site.identifier, site.name, cause⟩])

end Site

namespace Scope

def reportUnresolved (scope : Scope) (site : Site) (position : Position) (name : Identifier) :
    Reporting Unit := do
  unless scope.failed.contains name do
    let referenced ← scope.interner.lookup name
    let described ← position.text scope.interner
    site.report (.unresolvedReference referenced described site.locations)

/-- Resolves a name in a type. Builtin types cannot be redefined. A name that stands for nothing
    becomes `any`, after it has been reported. -/
def resolveName (scope : Scope) (site : Site) (position : Position) (name : Identifier) :
    Reporting Referent := do
  let spelling ← scope.interner.lookup name
  match BuiltinType.ofSpelling? spelling with
  | some type => return .builtin type
  | none =>
    match scope.handle? name with
    | some handle => return .definition handle
    | none =>
      scope.reportUnresolved site position name
      return .builtin .any

def resolveReference (scope : Scope) (site : Site) (expected : Kind) (position : Position)
    (name : Identifier) : Reporting (Option Handle) := do
  match scope.find? name with
  | some (definition, place) =>
    if definition.kind = expected then
      return some ⟨name, .ofNat place⟩
    else
      let referenced ← scope.interner.lookup name
      let described ← position.text scope.interner
      site.report
        (.invalidReference referenced described expected definition.kind site.locations)
      return none
  | none =>
    scope.reportUnresolved site position name
    return none

def resolveType (scope : Scope) (site : Site) (position : Position) (type : RawType) :
    Reporting ResolvedType :=
  type.mapM (scope.resolveName site position)

def resolveBody (scope : Scope) (site : Site) (body : RawBody) :
    Reporting (Body Handle ResolvedType) :=
  body.mapM (scope.resolveReference site) (scope.resolveType site)

def resolveDefinition (scope : Scope) (definition : RawDefinition) :
    Reporting ResolvedDefinition := do
  let name ← scope.interner.lookup definition.identifier
  let site := ⟨definition.identifier, name, definition.declaration.locations⟩
  return ⟨definition.declaration, ← scope.resolveBody site definition.body⟩

end Scope

def sortByName (interner : Interner) (definitions : List RawDefinition) :
    Except Fault (List RawDefinition) := do
  let named ← definitions.mapM fun definition =>
    return (← interner.lookup definition.identifier, definition)
  return (named.mergeSort fun one other => one.1 ≤ other.1).map (·.2)

structure Resolution where
  definitions : List ResolvedDefinition
  problems : List Problem
deriving DecidableEq, Repr

/-- Resolves all references between definitions. References to `failed` names are not reported. -/
def Resolution.ofDefinitions (interner : Interner) (failed : List Identifier)
    (definitions : List RawDefinition) : Except Fault Resolution := do
  let definitions ← sortByName interner definitions
  let scope := Scope.ofDefinitions interner definitions failed
  let cycles ← scope.cycleProblems definitions
  let (resolved, problems) ← (definitions.mapM scope.resolveDefinition).run cycles
  return ⟨resolved, problems⟩

end WebIdl
