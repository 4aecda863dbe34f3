import RuleWiring.Bytes.Cbor
import RuleWiring.Parameters.Table

/-!
# Tables on demand

The two tables come from texts or files and are read the first time they are asked for.
From then on the table read is used. Both together can be frozen into a snapshot, which
has a concise binary form.
-/

namespace RuleWiring

/-- Where a table comes from. A file is given by what it holds; a file that cannot be read
holds nothing. -/
inductive TableSource where
  | empty
  | text (s : String)
  | file (contents : Option String)
deriving DecidableEq, Repr

/-- The text of a source, if it has one. -/
def TableSource.contents? : TableSource → Option String
  | .empty => none
  | .text s => some s
  | .file contents => contents

/-- Both tables. -/
structure TableSnapshot where
  params : ParameterTable
  bridge : BridgeTable
deriving DecidableEq, Repr

namespace TableSnapshot

def toJson (s : TableSnapshot) : Json :=
  .object [("params", s.params.toJson), ("bridge", s.bridge.toJson)]

structure Met where
  params : Option ParameterTable := none
  bridge : Option BridgeTable := none

def Met.snapshot (m : Met) : Except Fault TableSnapshot :=
  match m.params, m.bridge with
  | some params, some bridge => .ok ⟨params, bridge⟩
  | _, _ => .error .mismatched

def fields : List (Decoder.Field Met) := [
  Decoder.field "params" false (·.params) (fun m x => { m with params := some x })
    ParameterTable.decoder,
  Decoder.field "bridge" false (·.bridge) (fun m x => { m with bridge := some x })
    BridgeTable.decoder]

def decoder : Decoder TableSnapshot := Decoder.record fields {} Met.snapshot

end TableSnapshot

/-- The sources of both tables, and the tables that have been read. -/
structure TableCache where
  paramsSource : TableSource := .empty
  bridgeSource : TableSource := .empty
  params : Option ParameterTable := none
  bridge : Option BridgeTable := none
deriving DecidableEq, Repr

namespace TableCache

/-- Nothing has been read yet. -/
def ofSources (params bridge : TableSource) : TableCache :=
  { paramsSource := params, bridgeSource := bridge }

/-- Both tables are given. -/
def ofTables (params : ParameterTable) (bridge : BridgeTable) : TableCache :=
  { params := some params, bridge := some bridge }

/-- The parameter table that is or will be used. -/
def paramsTable (c : TableCache) : ParameterTable :=
  c.params.getD ((c.paramsSource.contents?.map ParameterTable.parse).getD {})

/-- The bridge table that is or will be used. -/
def bridgeTable (c : TableCache) : BridgeTable :=
  c.bridge.getD ((c.bridgeSource.contents?.map BridgeTable.parse).getD {})

def loadParams (c : TableCache) : TableCache := { c with params := some c.paramsTable }

def loadBridge (c : TableCache) : TableCache := { c with bridge := some c.bridgeTable }

/-- Looks a code up, which reads the parameter table. -/
def lookupParams (code : Exocode) : StateM TableCache (Option ParameterRecord) := fun c =>
  (c.paramsTable.get? code, c.loadParams)

/-- Looks an id up, which reads the bridge table. -/
def lookupBridge (id : String) : StateM TableCache (Option Exocode) := fun c =>
  (c.bridgeTable.get? id, c.loadBridge)

/-- Both tables, which are read for it. -/
def snapshot : StateM TableCache TableSnapshot := fun c =>
  (⟨c.paramsTable, c.bridgeTable⟩, c.loadParams.loadBridge)

/-- The concise binary form of both tables. -/
def toCbor : StateM TableCache (List UInt8) := do
  let s ← snapshot
  pure (Cbor.encode s.toJson)

/-- The cache that holds the tables of a concise binary form. -/
def ofCbor? (bs : List UInt8) : Option TableCache :=
  match Cbor.decode? bs with
  | none => none
  | some d =>
      match TableSnapshot.decoder d with
      | .ok s => some (ofTables s.params s.bridge)
      | .error _ => none

end TableCache

end RuleWiring
