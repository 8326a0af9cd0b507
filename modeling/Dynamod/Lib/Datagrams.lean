/-
Datagram sockets behind one name of a file system.

A socket has a number, used once, and a queue while it is open. The name
stands for the socket last bound to it, or for none. A datagram sent to
the name is dropped where there is no open socket behind it. Removing the
name touches no socket; binding makes a new one with an empty queue.

`Listens` is what the owner of a socket relies on: the name stands for it,
and its queue is known. It begins with `listens_bind`; sending and
receiving keep it.
-/
import Mathlib.Logic.Function.Basic

namespace Dynamod.Lib

/-- The sockets behind a name, for datagrams of type `δ`. -/
structure Sockets (δ : Type) where
  /-- The socket that the name stands for. -/
  name : Option Nat
  /-- The queues of the open sockets. -/
  queue : Nat → Option (List δ)
  /-- The number of the next socket. -/
  next : Nat

namespace Sockets

variable {δ : Type}

/-- Remove the name. -/
def unlink (k : Sockets δ) : Sockets δ := { k with name := none }

/-- Bind a new socket, unless the name is in use. -/
def bind (k : Sockets δ) : Option Nat × Sockets δ :=
  match k.name with
  | some _ => (none, k)
  | none =>
    (some k.next,
      { name := some k.next, queue := Function.update k.queue k.next (some [])
        next := k.next + 1 })

/-- Send a datagram to the name. -/
def send (d : δ) (k : Sockets δ) : Sockets δ :=
  match k.name with
  | none => k
  | some s =>
    { k with queue := Function.update k.queue s ((k.queue s).map fun q => q ++ [d]) }

/-- Take the next datagram of a socket, without waiting for one. -/
def recv (s : Nat) (k : Sockets δ) : Option δ × Sockets δ :=
  ((k.queue s).bind List.head?,
    { k with queue := Function.update k.queue s ((k.queue s).map List.tail) })

/-- Close a socket; its queue is gone. -/
def close (s : Nat) (k : Sockets δ) : Sockets δ :=
  { k with queue := Function.update k.queue s none }

/-- The name stands for the socket `s`, and `q` waits in it. -/
structure Listens (k : Sockets δ) (s : Nat) (q : List δ) : Prop where
  name : k.name = some s
  queue : k.queue s = some q

variable {k : Sockets δ} {s : Nat} {q : List δ}

@[simp] theorem send_name (d : δ) : (k.send d).name = k.name := by
  unfold send
  split
  · rfl
  · rfl

theorem listens_bind (h : k.name = none) (hbind : k.bind.1 = some s) : k.bind.2.Listens s [] := by
  unfold bind at hbind ⊢
  rw [h] at hbind ⊢
  cases hbind
  exact ⟨rfl, Function.update_self ..⟩

namespace Listens

theorem send (h : k.Listens s q) (d : δ) : (k.send d).Listens s (q ++ [d]) := by
  unfold Sockets.send
  rw [h.name]
  refine ⟨rfl, ?_⟩
  dsimp only
  rw [Function.update_self, h.queue]
  rfl

theorem recv_fst (h : k.Listens s q) : (k.recv s).1 = q.head? := by
  unfold Sockets.recv
  rw [h.queue]
  rfl

theorem recv_snd (h : k.Listens s q) : (k.recv s).2.Listens s q.tail := by
  refine ⟨h.name, ?_⟩
  unfold Sockets.recv
  dsimp only
  rw [Function.update_self, h.queue]
  rfl

end Listens

end Sockets

end Dynamod.Lib
