import PathTemplate.Sink.Binary
import PathTemplate.Sink.Object
import PathTemplate.Sink.Text

/-!
Sinks only grow at their end. What an operation adds to a sink is what it writes into a fresh one,
so that a part can be written apart and spliced in. Text, wire and single-value sinks obey this.
-/

namespace PathTemplate

open Sink

/-- A sink for which writing apart and splicing is the same as writing in place. -/
class LawfulSink (σ : Type) [Sink σ] : Prop where
  splice_fresh : ∀ s t : σ, splice s (fresh t) = s
  splice_assoc : ∀ s t u : σ, splice (splice s t) u = splice s (splice t u)
  accept_eq_splice : ∀ {ρ : Type} (s : σ) (v : Value ρ), accept s v = splice s (accept (fresh s) v)
  fresh_fresh : ∀ s : σ, fresh (fresh s) = fresh s
  fresh_splice : ∀ s t : σ, fresh (splice s t) = fresh s
  fresh_accept : ∀ {ρ : Type} (s : σ) (v : Value ρ), fresh (accept s v) = fresh s
  reset_eq_fresh : ∀ s : σ, reset s = fresh s

instance : LawfulSink TextSink where
  splice_fresh s t := by simp [splice, fresh, TextSink.append, TextSink.ofFormat]
  splice_assoc s t u := by simp [splice, TextSink.append, String.append_assoc]
  accept_eq_splice s v := by simp [accept, splice, fresh, TextSink.append, TextSink.ofFormat]
  fresh_fresh s := rfl
  fresh_splice s t := rfl
  fresh_accept s v := rfl
  reset_eq_fresh s := rfl

instance : LawfulSink BinarySink where
  splice_fresh s t := by simp [splice, fresh, BinarySink.append, BinarySink.empty]
  splice_assoc s t u := by simp [splice, BinarySink.append]
  accept_eq_splice s v := by simp [accept, splice, fresh, BinarySink.append, BinarySink.empty]
  fresh_fresh s := rfl
  fresh_splice s t := rfl
  fresh_accept s v := rfl
  reset_eq_fresh s := rfl

instance : LawfulSink ObjectSink where
  splice_fresh s t := by simp [splice, fresh, ObjectSink.empty]
  splice_assoc s t u := by simp [splice, Option.or_assoc]
  accept_eq_splice s v := by simp [accept, splice, fresh, ObjectSink.empty]
  fresh_fresh s := rfl
  fresh_splice s t := rfl
  fresh_accept s v := rfl
  reset_eq_fresh s := rfl

/-- An operation on sinks that adds to the end, whatever the sink holds, and keeps its settings. -/
structure Appends {σ : Type} [Sink σ] (f : σ → σ) : Prop where
  settings : ∀ s, fresh (f s) = fresh s
  apart : ∀ s, f s = splice s (f (fresh s))

namespace Appends

variable {σ : Type} [Sink σ] [LawfulSink σ]

open LawfulSink

omit [LawfulSink σ] in
theorem congr {f g : σ → σ} (hg : Appends g) (h : ∀ s, f s = g s) : Appends f := by
  have hfg : f = g := funext h
  rwa [hfg]

theorem id : Appends (fun s : σ => s) :=
  ⟨fun _ => rfl, fun s => (splice_fresh s s).symm⟩

theorem accept {ρ : Type} (v : Value ρ) : Appends (fun s : σ => Sink.accept s v) :=
  ⟨fun s => fresh_accept s v, fun s => accept_eq_splice s v⟩

theorem comp {f g : σ → σ} (hg : Appends g) (hf : Appends f) : Appends (fun s => g (f s)) where
  settings s := by rw [hg.settings, hf.settings]
  apart s := by
    have hin : fresh (f (fresh s)) = fresh s := by rw [hf.settings, fresh_fresh]
    calc g (f s) = splice (f s) (g (fresh s)) := by rw [hg.apart, hf.settings]
      _ = splice (splice s (f (fresh s))) (g (fresh s)) := by rw [← hf.apart]
      _ = splice s (splice (f (fresh s)) (g (fresh s))) := splice_assoc ..
      _ = splice s (g (f (fresh s))) := by rw [hg.apart (f (fresh s)), hin]

theorem capture (f : σ → σ) : Appends (fun s => splice s (f (fresh s))) where
  settings s := fresh_splice s _
  apart s := by rw [fresh_fresh, ← splice_assoc, splice_fresh]

end Appends

end PathTemplate
