import PathTemplate.Sink.Basic

namespace PathTemplate

structure ObjectSink where
  value : Option (Value Empty)

namespace ObjectSink

variable {ρ : Type}

def empty : ObjectSink := ⟨none⟩

/-- What is kept of a value. A list keeps the items that are not null and can be detached. -/
def keep : Value ρ → Option (Value Empty)
  | .null => none
  | .list items => some (.list ((items.filter fun v => !v.isNull).filterMap Value.detach?))
  | v => v.detach?

def result (s : ObjectSink) : Value Empty := s.value.getD .null

instance : Sink ObjectSink where
  kind := "object"
  fresh _ := empty
  accept s v := ⟨(keep v).or s.value⟩
  splice s other := ⟨other.value.or s.value⟩
  isEmpty s := s.value.isNone
  bytes s := ((s.value.bind Value.text?).getD "").toUTF8.toList
  reset _ := empty
  endRecord _ s := s

end ObjectSink

end PathTemplate
