import RuleWiring.Json.Basic
import RuleWiring.Json.Decoder
import RuleWiring.Parameters.Basic

/-!
# Parameters as structured values

A complete record shows all of its fields; when it is read, fields may be missing and have
their defaults. A partial set shows `null` for a field that is not set.
-/

namespace RuleWiring

def Exocode.toJson (c : Exocode) : Json := .text c.text

def Exocode.decoder : Decoder Exocode := Decoder.parsed fun s => (parse s).toOption

def MixMode.toJson (m : MixMode) : Json := .text m.name

def MixMode.decoder : Decoder MixMode := Decoder.parsed fun s => some (ofText s)

def Preservation.toJson (p : Preservation) : Json := .text p.name

def Preservation.decoder : Decoder Preservation := Decoder.choice all name

def Provenance.toJson (p : Provenance) : Json := .text p.name

def Provenance.decoder : Decoder Provenance := Decoder.choice all name

/-! ## Complete records -/

namespace ParameterRecord

def toJson (r : ParameterRecord) : Json :=
  .object [
    ("rotation", .nat r.rotation.toNat),
    ("match-threshold", .real r.matchThreshold),
    ("update-probability", .real r.updateProbability),
    ("mix-mode", r.mixMode.toJson),
    ("invert-on-secondary", .bool r.invertOnSecondary)]

/-- The fields, read into a partial set. -/
def fields : List (Decoder.Field ParameterOverrides) := [
  Decoder.field "rotation" true (·.rotation) (fun o x => { o with rotation := some x })
    Decoder.word32,
  Decoder.field "match-threshold" true (·.matchThreshold)
    (fun o x => { o with matchThreshold := some x }) Decoder.real,
  Decoder.field "update-probability" true (·.updateProbability)
    (fun o x => { o with updateProbability := some x }) Decoder.real,
  Decoder.field "mix-mode" true (·.mixMode) (fun o x => { o with mixMode := some x })
    MixMode.decoder,
  Decoder.field "invert-on-secondary" true (·.invertOnSecondary)
    (fun o x => { o with invertOnSecondary := some x }) Decoder.bool]

def decoder : Decoder ParameterRecord := Decoder.record fields {} fun o => .ok o.complete

end ParameterRecord

/-! ## Partial sets -/

namespace ParameterOverrides

def toJson (o : ParameterOverrides) : Json :=
  .object [
    ("rotation", Json.ofOption (fun n => .nat n.toNat) o.rotation),
    ("match-threshold", Json.ofOption .real o.matchThreshold),
    ("update-probability", Json.ofOption .real o.updateProbability),
    ("mix-mode", Json.ofOption MixMode.toJson o.mixMode),
    ("invert-on-secondary", Json.ofOption .bool o.invertOnSecondary)]

/-- The fields met so far; a field may be met as `null`. -/
structure Met where
  rotation : Option (Option UInt32) := none
  matchThreshold : Option (Option Binary64) := none
  updateProbability : Option (Option Binary64) := none
  mixMode : Option (Option MixMode) := none
  invertOnSecondary : Option (Option Bool) := none

def Met.overrides (m : Met) : ParameterOverrides where
  rotation := m.rotation.join
  matchThreshold := m.matchThreshold.join
  updateProbability := m.updateProbability.join
  mixMode := m.mixMode.join
  invertOnSecondary := m.invertOnSecondary.join

def fields : List (Decoder.Field Met) := [
  Decoder.field "rotation" true (·.rotation) (fun m x => { m with rotation := some x })
    (Decoder.optional Decoder.word32),
  Decoder.field "match-threshold" true (·.matchThreshold)
    (fun m x => { m with matchThreshold := some x }) (Decoder.optional Decoder.real),
  Decoder.field "update-probability" true (·.updateProbability)
    (fun m x => { m with updateProbability := some x }) (Decoder.optional Decoder.real),
  Decoder.field "mix-mode" true (·.mixMode) (fun m x => { m with mixMode := some x })
    (Decoder.optional MixMode.decoder),
  Decoder.field "invert-on-secondary" true (·.invertOnSecondary)
    (fun m x => { m with invertOnSecondary := some x }) (Decoder.optional Decoder.bool)]

def decoder : Decoder ParameterOverrides := Decoder.record fields {} fun m => .ok m.overrides

end ParameterOverrides

end RuleWiring
