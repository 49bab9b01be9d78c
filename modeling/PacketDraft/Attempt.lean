import PacketDraft.Fault

/-!
# Attempts

An attempt runs on a state and gives a value or a fault, and the new state. An attempt that fails
keeps what it has done before.
-/

namespace PacketDraft

/-- A computation on a state that may fail. -/
def Attempt (σ α : Type) : Type :=
  σ → Except Fault α × σ

namespace Attempt

variable {σ α β : Type}

@[inline] def done (a : α) : Attempt σ α :=
  fun s => (.ok a, s)

@[inline] def andThen (x : Attempt σ α) (f : α → Attempt σ β) : Attempt σ β := fun s =>
  match x s with
  | (.ok a, t) => f a t
  | (.error e, t) => (.error e, t)

instance : Monad (Attempt σ) where
  pure := done
  bind := andThen

/-- Fails and leaves the state alone. -/
def fail (e : Fault) : Attempt σ α :=
  fun s => (.error e, s)

/-- A question about the state, which may have no answer. -/
def ask (f : σ → Except Fault α) : Attempt σ α :=
  fun s => (f s, s)

/-- What the state tells. -/
def read (f : σ → α) : Attempt σ α :=
  fun s => (.ok (f s), s)

/-- Changes the state. -/
def update (f : σ → σ) : Attempt σ Unit :=
  fun s => (.ok (), f s)

/-- A computation without the state. -/
def ofExcept (x : Except Fault α) : Attempt σ α :=
  fun s => (x, s)

/-- One attempt after the other, up to the first that fails. -/
def each (f : α → Attempt σ Unit) : List α → Attempt σ Unit
  | [] => done ()
  | a :: as => do
    f a
    each f as

end Attempt

end PacketDraft
