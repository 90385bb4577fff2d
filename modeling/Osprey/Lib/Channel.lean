/-
An unbounded channel that can be closed. Closing refuses what is sent later
and keeps what is queued: a receiver still takes it, and learns that the
channel is closed when nothing is left.
-/
import Mathlib.Data.List.Basic

namespace Lib

structure Channel (α : Type*) where
  queue : List α := []
  closed : Bool := false
  deriving DecidableEq

namespace Channel

variable {α : Type*}

/-- What a receiver that does not wait finds. -/
inductive Received (α : Type*)
  | item (a : α)
  | empty
  | closed

def send (c : Channel α) (a : α) : Channel α := if c.closed then c else { c with queue := c.queue ++ [a] }

def close (c : Channel α) : Channel α := { c with closed := true }

def tryRecv (c : Channel α) : Received α :=
  match c.queue with
  | a :: _ => .item a
  | [] => if c.closed then .closed else .empty

def pop (c : Channel α) : Channel α := { c with queue := c.queue.tail }

def Exhausted (c : Channel α) : Prop := c.closed = true ∧ c.queue = []

instance [DecidableEq α] (c : Channel α) : Decidable c.Exhausted := instDecidableAnd

variable {c : Channel α} {a : α}

@[simp] theorem pop_queue (c : Channel α) : c.pop.queue = c.queue.tail := rfl

theorem send_of_closed (h : c.closed = true) : c.send a = c := if_pos h

theorem send_of_open (h : ¬ c.closed = true) : c.send a = { c with queue := c.queue ++ [a] } := if_neg h

theorem tryRecv_eq_item (h : c.tryRecv = .item a) : c.queue = a :: c.pop.queue := by
  unfold tryRecv at h
  split at h
  · next b l heq =>
    cases h
    rw [pop_queue, heq]
    rfl
  · split at h <;> cases h

theorem tryRecv_eq_closed (h : c.tryRecv = .closed) : c.Exhausted := by
  unfold tryRecv at h
  split at h
  · cases h
  · next heq =>
    split at h
    · next hclosed => exact ⟨hclosed, heq⟩
    · cases h

theorem tryRecv_eq_empty (h : c.tryRecv = .empty) : c.closed = false ∧ c.queue = [] := by
  unfold tryRecv at h
  split at h
  · cases h
  · next heq =>
    split at h
    · cases h
    · next hopen => exact ⟨by simpa using hopen, heq⟩

theorem Exhausted.close (h : c.Exhausted) : c.close.Exhausted := ⟨rfl, h.2⟩

theorem pop_queue_of_empty (h : c.queue = []) : c.pop.queue = [] := by
  rw [pop_queue, h]
  rfl

end Channel

end Lib
