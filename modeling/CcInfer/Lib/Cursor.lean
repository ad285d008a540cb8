import Mathlib.Data.List.Basic
import Mathlib.Tactic.Common

/-!
# `CcInfer.Lib.Cursor`: reading a buffer from a moving offset

A `Cursor` reads from a fixed buffer, from an offset on, and returns a value and the offset
behind it, or an error. `Reads p code x` says that `p` reads `x` off `code`: wherever `code`
stands in a buffer, `p` started in front of it returns `x` and stops right behind it. Proofs
follow the reader: `Reads.bind` for one part behind another, `Reads.times` for a counted list.
-/

set_option autoImplicit false

namespace CcInfer

/-- A reader of a buffer of `β` with a moving offset. -/
abbrev Cursor (β ε : Type) : Type → Type := ReaderT (List β) (StateT Nat (Except ε))

namespace Cursor

variable {β ε α γ : Type}

/-- The next `n` elements, or an error if there are fewer. -/
def take (n : Nat) (err : ε) : Cursor β ε (List β) := fun buffer offset =>
  if buffer.length < offset ∨ buffer.length - offset < n then .error err
  else .ok ((buffer.drop offset).take n, offset + n)

/-- `n` values, one after the other. -/
def times (p : Cursor β ε α) : Nat → Cursor β ε (List α)
  | 0 => pure []
  | n + 1 => do
    let x ← p
    let xs ← times p n
    pure (x :: xs)

/-- `p` reads `x` off `code`. -/
def Reads (p : Cursor β ε α) (code : List β) (x : α) : Prop :=
  ∀ front rest : List β, p (front ++ (code ++ rest)) front.length =
    .ok (x, front.length + code.length)

theorem Reads.pure (x : α) : Reads (Pure.pure x : Cursor β ε α) [] x := fun _ _ => rfl

theorem Reads.bind {p : Cursor β ε α} {f : α → Cursor β ε γ} {code code' : List β} {x : α} {y : γ}
    (h : Reads p code x) (h' : Reads (f x) code' y) : Reads (p >>= f) (code ++ code') y := by
  intro front rest
  have hp := h front (code' ++ rest)
  have hf := h' (front ++ code) rest
  rw [List.append_assoc, List.length_append] at hf
  show (p (front ++ (code ++ code' ++ rest)) front.length >>= fun (x, offset) =>
    f x (front ++ (code ++ code' ++ rest)) offset) = _
  rw [List.append_assoc, hp, List.length_append, ← Nat.add_assoc]
  exact hf

theorem Reads.map {p : Cursor β ε α} {code : List β} {x : α} (g : α → γ) (h : Reads p code x) :
    Reads (g <$> p) code (g x) := by
  have hbind := h.bind (f := fun x => Pure.pure (g x)) (Reads.pure (g x))
  rw [List.append_nil] at hbind
  exact hbind

theorem reads_take (code : List β) (err : ε) : Reads (take code.length err) code code := by
  intro front rest
  rw [take, if_neg, List.drop_left, List.take_left]
  simp only [List.length_append]
  omega

/-- A counted list is read if each of its elements is. -/
theorem Reads.times {p : Cursor β ε α} (encode : γ → List β) (f : γ → α) (xs : List γ)
    (h : ∀ x ∈ xs, Reads p (encode x) (f x)) :
    Reads (Cursor.times p xs.length) (xs.flatMap encode) (xs.map f) := by
  induction xs with
  | nil => exact Reads.pure []
  | cons x xs ih =>
    have hrest := ih fun y hy => h y (List.mem_cons_of_mem _ hy)
    have hall := (h x List.mem_cons_self).bind
      (f := fun x => do let xs ← Cursor.times p xs.length; Pure.pure (x :: xs))
      (hrest.bind (Reads.pure _))
    rw [List.append_nil] at hall
    exact hall

end Cursor

end CcInfer
