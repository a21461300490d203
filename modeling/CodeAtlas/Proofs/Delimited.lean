import Mathlib.Data.List.Infix

/-!
# Where a part of a list ends

Two lists that are put together from parts are equal only if the parts are, where each part is told
from what follows.
-/

namespace CodeAtlas

variable {α : Type}

def Stops (p : α → Bool) (rest : List α) : Prop :=
  ∀ a ∈ rest.head?, p a = false

@[simp] theorem stops_nil (p : α → Bool) : Stops p [] := by
  simp [Stops]

@[simp] theorem stops_cons (p : α → Bool) (a : α) (rest : List α) :
    Stops p (a :: rest) ↔ p a = false := by
  simp [Stops]

theorem Stops.of_imp {p q : α → Bool} {rest : List α} (h : Stops p rest)
    (hpq : ∀ a, q a = true → p a = true) : Stops q rest := by
  intro a ha
  have hp := h a ha
  cases hq : q a with
  | false => rfl
  | true => exact absurd (hpq a hq) (by simp [hp])

theorem takeWhile_of_stops {p : α → Bool} {x rest : List α} (hx : ∀ a ∈ x, p a = true)
    (hrest : Stops p rest) : (x ++ rest).takeWhile p = x := by
  rw [List.takeWhile_append_of_pos hx]
  cases rest with
  | nil => simp
  | cons a rest =>
    have ha : p a = false := by simpa using hrest
    simp [ha]

theorem append_inj_of_stops {p : α → Bool} {x y r s : List α} (hx : ∀ a ∈ x, p a = true)
    (hy : ∀ a ∈ y, p a = true) (hr : Stops p r) (hs : Stops p s) (h : x ++ r = y ++ s) :
    x = y ∧ r = s := by
  have hxy : x = y := by
    rw [← takeWhile_of_stops hx hr, h, takeWhile_of_stops hy hs]
  subst hxy
  exact ⟨rfl, List.append_cancel_left h⟩

theorem ne_of_isDigit {c d : Char} (hc : c.isDigit = true) (hd : d.isDigit = false) : c ≠ d := by
  intro heq
  rw [heq, hd] at hc
  cases hc

theorem toList_intercalate_cons (sep first : String) (rest : List String) :
    (sep.intercalate (first :: rest)).toList
      = first.toList ++ rest.flatMap fun s => sep.toList ++ s.toList := by
  rw [String.toList_intercalate]
  induction rest generalizing first with
  | nil => simp
  | cons second rest ih =>
    have ih := ih second
    rw [List.map_cons] at ih
    rw [List.map_cons, List.map_cons, List.intercalate_cons_cons, ih]
    simp

/-- A list of parts, each behind a mark of its own, up to a closing mark. -/
theorem flatMap_inj_of_close {β : Type} {f : β → List α} {start close : α} {xs ys : List β}
    {r s : List α} (hf : ∀ x, ∃ rest, f x = start :: rest) (hclose : start ≠ close)
    (hparts : ∀ x ∈ xs, ∀ y ∈ ys, ∀ r s : List α, (r.head? = some start ∨ r.head? = some close) →
      (s.head? = some start ∨ s.head? = some close) → f x ++ r = f y ++ s → x = y ∧ r = s)
    (h : xs.flatMap f ++ close :: r = ys.flatMap f ++ close :: s) : xs = ys ∧ r = s := by
  have hhead : ∀ (zs : List β) (t : List α), (zs.flatMap f ++ close :: t).head? = some start
      ∨ (zs.flatMap f ++ close :: t).head? = some close := by
    intro zs t
    cases zs with
    | nil => exact .inr rfl
    | cons z zs =>
      obtain ⟨rest, hz⟩ := hf z
      exact .inl (by simp [hz])
  induction xs generalizing ys with
  | nil =>
    cases ys with
    | nil => exact ⟨rfl, by simpa using h⟩
    | cons y ys =>
      obtain ⟨rest, hy⟩ := hf y
      simp only [List.flatMap_nil, List.flatMap_cons, hy, List.nil_append, List.cons_append,
        List.cons.injEq] at h
      exact absurd h.1.symm hclose
  | cons x xs ih =>
    cases ys with
    | nil =>
      obtain ⟨rest, hx⟩ := hf x
      simp only [List.flatMap_nil, List.flatMap_cons, hx, List.nil_append, List.cons_append,
        List.cons.injEq] at h
      exact absurd h.1 hclose
    | cons y ys =>
      rw [List.flatMap_cons, List.flatMap_cons, List.append_assoc, List.append_assoc] at h
      obtain ⟨rfl, hrest⟩ := hparts x (by simp) y (by simp) _ _ (hhead xs r) (hhead ys s) h
      obtain ⟨rfl, rfl⟩ := ih (fun x hx y hy => hparts x (by simp [hx]) y (by simp [hy])) hrest
      exact ⟨rfl, rfl⟩

end CodeAtlas
