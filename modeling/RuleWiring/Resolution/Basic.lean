import RuleWiring.Pattern.Basic
import RuleWiring.Resolution.Cache

/-!
# Resolution

The parameters of a pattern are looked for in four places, and the first that has any
decides:

1. the pattern itself, if it sets at least one parameter;
2. the table entry of its own code;
3. the table entry of the code that the bridge table has for its id;
4. the defaults.

A table is read only when its turn has come. A pattern without a code of its own keeps the
one the bridge table has for it, so that the next time the second place decides.
-/

namespace RuleWiring

structure Resolution where
  params : ParameterRecord := .defaults
  provenance : Provenance := .default
  code : Option Exocode := none
deriving DecidableEq, Repr

namespace Resolution

def toJson (r : Resolution) : Json :=
  .object [("params", r.params.toJson), ("provenance", r.provenance.toJson),
    ("code", Json.ofOption Exocode.toJson r.code)]

/-- The parameters a pattern sets itself, if it sets any. -/
def own? (p : Pattern) : Option ParameterOverrides := p.inline.filter fun o => !o.isEmpty

/-- The table entry of the pattern's own code. -/
def table? (p : Pattern) : StateM TableCache (Option ParameterRecord) :=
  match p.code with
  | none => pure none
  | some code => TableCache.lookupParams code

/-- The pattern with the code it is to keep, and the table entry of the bridged code. -/
def fallback (p : Pattern) : StateM TableCache (Pattern × Option (Exocode × ParameterRecord)) := do
  match ← TableCache.lookupBridge p.id with
  | none => pure (p, none)
  | some code =>
      let record ← TableCache.lookupParams code
      pure ({ p with code := p.code.or (some code) }, record.map fun r => (code, r))

/-- The parameters of a pattern, and the pattern with the code it keeps. -/
def resolve (p : Pattern) : StateM TableCache (Resolution × Pattern) := do
  match own? p with
  | some o => pure (⟨o.complete, .inline, p.code⟩, p)
  | none =>
      match ← table? p with
      | some r => pure (⟨r, .table, p.code⟩, p)
      | none =>
          match ← fallback p with
          | (p, some (code, r)) => pure (⟨r, .fallbackTable, some code⟩, p)
          | (p, none) => pure (⟨.defaults, .default, p.code⟩, p)

/-- The parameters of an id with parameters of its own, if it has any. -/
def resolveId (id : String) (inline : Option ParameterOverrides) :
    StateM TableCache (ParameterRecord × Provenance) := do
  let (r, _) ← resolve { id := id, inline := inline }
  pure (r.params, r.provenance)

end Resolution

end RuleWiring
