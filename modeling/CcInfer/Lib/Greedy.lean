import Mathlib.Data.List.Basic

/-!
# `CcInfer.Lib.Greedy`: greedy continuation of a context

A deterministic generator `next` extends a context one element at a time. `loop` is the
generation loop with a bound and a stopping test, `continuation` the one without a test.
`Follows` says that a list is a beginning of what the generator produces; it grows at its
end, which is how a program builds it up, while `loop` unfolds from the front.
-/

set_option autoImplicit false

namespace Greedy

variable {α : Type*} (next : List α → α) (stop : α → Bool)

/-- At most `n` elements, up to and including the first one that `stop` accepts. -/
def loop (context : List α) : Nat → List α
  | 0 => []
  | n + 1 =>
    if stop (next context) then [next context]
    else next context :: loop (context ++ [next context]) n

/-- The first `n` elements of the greedy continuation. -/
def continuation (context : List α) (n : Nat) : List α := loop next (fun _ => false) context n

/-- The list is what the generator produces first. -/
def Follows : List α → List α → Prop
  | _, [] => True
  | context, a :: l => a = next context ∧ Follows (context ++ [a]) l

variable {next stop} {context l : List α} {a : α} {n : Nat}

theorem follows_append_singleton :
    Follows next context (l ++ [a]) ↔ Follows next context l ∧ a = next (context ++ l) := by
  induction l generalizing context with
  | nil => simp [Follows]
  | cons b l ih => simp only [List.cons_append, Follows, ih, List.append_assoc, and_assoc,
      List.nil_append]

section

variable (h : Follows next context l)
include h

/-- The loop produces a list that follows, as far as nothing in it stops the loop. -/
theorem Follows.loop_eq (running : ∀ a ∈ l, stop a = false) (hn : l.length ≤ n) :
    loop next stop context n = l ++ loop next stop (context ++ l) (n - l.length) := by
  induction l generalizing context n with
  | nil => simp
  | cons a l ih =>
    obtain ⟨rfl, hl⟩ := h
    obtain ⟨n, rfl⟩ : ∃ m, n = m + 1 := ⟨n - 1, by simp at hn; omega⟩
    rw [loop, running _ List.mem_cons_self]
    simp only [Bool.false_eq_true, if_false, List.length_cons, Nat.add_sub_add_right,
      List.cons_append, List.cons.injEq, true_and]
    rw [ih hl (fun a ha => running a (List.mem_cons_of_mem _ ha))
      (Nat.le_of_succ_le_succ hn), List.append_assoc, List.singleton_append]

/-- What follows is a beginning of the continuation. -/
theorem Follows.eq_continuation : l = continuation next context l.length := by
  rw [continuation, h.loop_eq (fun _ _ => rfl) (Nat.le_refl _), Nat.sub_self]
  exact (List.append_nil l).symm

/-- A list that follows and does not stop is a beginning of the loop. -/
theorem Follows.prefix_loop (running : ∀ a ∈ l, stop a = false)
    (hn : l.length ≤ n) : l <+: loop next stop context n :=
  ⟨_, (h.loop_eq running hn).symm⟩

/-- The loop ends at its bound. -/
theorem Follows.loop_bound (running : ∀ a ∈ l, stop a = false) :
    loop next stop context l.length = l := by
  rw [h.loop_eq running (Nat.le_refl _), Nat.sub_self]
  exact List.append_nil l

end

/-- The loop ends at the first element that stops it. -/
theorem Follows.loop_stop (h : Follows next context (l ++ [a]))
    (running : ∀ a ∈ l, stop a = false) (stops : stop a = true) (hn : l.length < n) :
    loop next stop context n = l ++ [a] := by
  obtain ⟨hl, rfl⟩ := follows_append_singleton.mp h
  obtain ⟨m, hm⟩ : ∃ m, n - l.length = m + 1 := ⟨n - l.length - 1, by omega⟩
  rw [hl.loop_eq running (Nat.le_of_lt hn), hm, loop, if_pos stops]

/-- A beginning of the loop grows by the next element. -/
theorem Follows.prefix_loop_append (h : Follows next context (l ++ [a]))
    (running : ∀ a ∈ l, stop a = false) (hn : l.length < n) :
    l ++ [a] <+: loop next stop context n := by
  cases hstop : stop a with
  | true =>
    have heq := h.loop_stop running hstop hn
    exact heq ▸ List.prefix_rfl
  | false =>
    refine h.prefix_loop (fun b hb => ?_) (by rw [List.length_append]; exact hn)
    rcases List.mem_append.mp hb with hb | hb
    · exact running b hb
    · rw [List.mem_singleton.mp hb, hstop]

end Greedy
