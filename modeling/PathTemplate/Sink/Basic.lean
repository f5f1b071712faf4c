import PathTemplate.Value

namespace PathTemplate

class Sink (σ : Type) where
  kind : String
  /-- An empty sink with the same settings. -/
  fresh : σ → σ
  /-- Takes a value. Null adds nothing, and maps and records have no written form. -/
  accept : {ρ : Type} → σ → Value ρ → σ
  splice : σ → σ → σ
  /-- Whether nothing was taken since the start or the last reset. -/
  isEmpty : σ → Bool
  bytes : σ → List UInt8
  reset : σ → σ
  /-- Ends the current record. Without `force` an empty record is left out. -/
  endRecord : (force : Bool) → σ → σ

end PathTemplate
