/-!
# Computations that leave a trace

What a run does besides computing its result is a list of events. A traced computation is its events
in order and its result. Steps that follow each other append their events, and an error keeps the
events that came before it.
-/

namespace Treeline

/-- The events of a computation and its result. -/
structure Traced (ω ε α : Type) where
  events : List ω
  result : Except ε α

namespace Traced

variable {ω ε δ α β : Type}

def ofExcept (result : Except ε α) : Traced ω ε α := ⟨[], result⟩

def emit (event : ω) : Traced ω ε Unit := ⟨[event], .ok ()⟩

/-- A computation that goes on with the result of another one. -/
def bind (x : Traced ω ε α) (f : α → Traced ω ε β) : Traced ω ε β :=
  match x.result with
  | .error e => ⟨x.events, .error e⟩
  | .ok a => ⟨x.events ++ (f a).events, (f a).result⟩

instance : Monad (Traced ω ε) where
  pure a := ⟨[], .ok a⟩
  bind := bind

/-- The same computation with another kind of error. -/
def mapError (f : ε → δ) (x : Traced ω ε α) : Traced ω δ α := ⟨x.events, x.result.mapError f⟩

end Traced

end Treeline
