import Mathlib.Data.List.Forall2

/-!
Computations that may fail. The outcome of several steps is a result when every step has one, and
otherwise the error of the first step that fails.
-/

namespace MiniLisp

variable {ε α β : Type}

theorem bind_eq_ok_iff {x : Except ε α} {f : α → Except ε β} {b : β} :
    x >>= f = .ok b ↔ ∃ a, x = .ok a ∧ f a = .ok b := by
  cases x with
  | error e => exact ⟨nofun, nofun⟩
  | ok a =>
      change f a = .ok b ↔ _
      simp

theorem bind_eq_error_iff {x : Except ε α} {f : α → Except ε β} {e : ε} :
    x >>= f = .error e ↔ x = .error e ∨ ∃ a, x = .ok a ∧ f a = .error e := by
  cases x with
  | error e' =>
      change Except.error e' = .error e ↔ _
      simp
  | ok a =>
      change f a = .error e ↔ _
      simp

theorem mapM_eq_ok_iff {f : α → Except ε β} {xs : List α} {ys : List β} :
    xs.mapM f = .ok ys ↔ List.Forall₂ (fun x y => f x = .ok y) xs ys := by
  induction xs generalizing ys with
  | nil =>
      rw [List.mapM_nil, List.forall₂_nil_left_iff]
      exact ⟨fun h => (Except.ok.inj h).symm, fun h => by rw [h]; rfl⟩
  | cons x xs ih =>
      rw [List.mapM_cons, bind_eq_ok_iff, List.forall₂_cons_left_iff]
      constructor
      · rintro ⟨y, hx, h⟩
        obtain ⟨ys', hxs, hys⟩ := bind_eq_ok_iff.mp h
        exact ⟨y, ys', hx, ih.mp hxs, (Except.ok.inj hys).symm⟩
      · rintro ⟨y, ys', hx, hxs, rfl⟩
        exact ⟨y, hx, bind_eq_ok_iff.mpr ⟨ys', ih.mpr hxs, rfl⟩⟩

theorem mapM_eq_error_iff {f : α → Except ε β} {xs : List α} {e : ε} :
    xs.mapM f = .error e ↔ ∃ before x after, xs = before ++ x :: after ∧
      (∀ u ∈ before, ∃ y, f u = .ok y) ∧ f x = .error e := by
  induction xs with
  | nil =>
      refine ⟨nofun, ?_⟩
      rintro ⟨before, x, after, h, -⟩
      simp at h
  | cons x xs ih =>
      rw [List.mapM_cons, bind_eq_error_iff]
      constructor
      · rintro (hx | ⟨y, hx, h⟩)
        · exact ⟨[], x, xs, rfl, by simp, hx⟩
        · rcases bind_eq_error_iff.mp h with hxs | ⟨ys, -, h⟩
          · obtain ⟨before, u, after, rfl, hbefore, hu⟩ := ih.mp hxs
            exact ⟨x :: before, u, after, rfl, List.forall_mem_cons.mpr ⟨⟨y, hx⟩, hbefore⟩, hu⟩
          · cases h
      · rintro ⟨before, u, after, hxs, hbefore, hu⟩
        cases before with
        | nil =>
            obtain ⟨rfl, rfl⟩ := List.cons.inj hxs
            exact .inl hu
        | cons first before =>
            obtain ⟨rfl, rfl⟩ := List.cons.inj hxs
            obtain ⟨⟨y, hy⟩, hbefore⟩ := List.forall_mem_cons.mp hbefore
            have hrest := ih.mpr ⟨before, u, after, rfl, hbefore, hu⟩
            exact .inr ⟨y, hy, bind_eq_error_iff.mpr (.inl hrest)⟩

theorem exists_mapM_eq_ok_iff {f : α → Except ε β} {xs : List α} :
    (∃ ys, xs.mapM f = .ok ys) ↔ ∀ x ∈ xs, ∃ y, f x = .ok y := by
  constructor
  · rintro ⟨ys, h⟩ x hx
    rw [mapM_eq_ok_iff] at h
    induction h with
    | nil => cases hx
    | @cons u y _ _ hu _ ih =>
        rcases List.mem_cons.mp hx with rfl | hx
        · exact ⟨y, hu⟩
        · exact ih hx
  · intro hall
    cases h : xs.mapM f with
    | ok ys => exact ⟨ys, rfl⟩
    | error e =>
        obtain ⟨before, x, after, rfl, -, hx⟩ := mapM_eq_error_iff.mp h
        obtain ⟨y, hy⟩ := hall x (by simp)
        rw [hx] at hy
        cases hy

theorem ne_nil_of_mapM {f : α → Except ε β} {xs : List α} {ys : List β} (hne : xs ≠ [])
    (h : xs.mapM f = .ok ys) : ys ≠ [] := by
  rintro rfl
  exact hne (List.forall₂_nil_right_iff.mp (mapM_eq_ok_iff.mp h))

theorem mapM_append_eq_ok_iff {f : α → Except ε β} {xs xs' : List α} {ys : List β} :
    (xs ++ xs').mapM f = .ok ys ↔
      ∃ us vs, xs.mapM f = .ok us ∧ xs'.mapM f = .ok vs ∧ us ++ vs = ys := by
  rw [List.mapM_append, bind_eq_ok_iff]
  constructor
  · rintro ⟨us, hus, h⟩
    obtain ⟨vs, hvs, h⟩ := bind_eq_ok_iff.mp h
    exact ⟨us, vs, hus, hvs, Except.ok.inj h⟩
  · rintro ⟨us, vs, hus, hvs, rfl⟩
    exact ⟨us, hus, bind_eq_ok_iff.mpr ⟨vs, hvs, rfl⟩⟩

theorem exists_of_foldlM_eq_error {f : β → α → Except ε β} {xs : List α} {b : β} {e : ε}
    (h : xs.foldlM f b = .error e) : ∃ c, ∃ x ∈ xs, f c x = .error e := by
  induction xs generalizing b with
  | nil => cases h
  | cons x xs ih =>
      rw [List.foldlM_cons, bind_eq_error_iff] at h
      rcases h with h | ⟨c, -, h⟩
      · exact ⟨b, x, List.mem_cons_self, h⟩
      · obtain ⟨c', u, hu, he⟩ := ih h
        exact ⟨c', u, List.mem_cons_of_mem x hu, he⟩

end MiniLisp
