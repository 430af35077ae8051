import Mathlib.Data.List.Forall2
/-!
# Steps that succeed and steps that fail

A computation made of steps, one behind the other or one for each member of a list, succeeds if all
steps do. The lemmas take such a computation apart into its steps.

What such a computation fails with can be told by the list of everything that is wrong, step by
step: it is the first member (`Reports`). The lists of the steps are put together as the steps are.
-/

namespace BracketPaint

variable {ε α β : Type} {x : Except ε α}

/-- A computation in two steps succeeds if both steps do. -/
theorem bind_eq_ok_iff {f : α → Except ε β} {b : β} :
    (x >>= f) = .ok b ↔ ∃ a, x = .ok a ∧ f a = .ok b := by
  cases x <;> simp [bind, Except.bind]

theorem map_eq_ok_iff {f : α → β} {b : β} : x.map f = .ok b ↔ ∃ a, x = .ok a ∧ f a = b := by
  cases x <;> simp [Except.map]

/-- What runs through a list gives one result for each member, in order. -/
theorem mapM_eq_ok_iff {f : α → Except ε β} {as : List α} {bs : List β} :
    as.mapM f = .ok bs ↔ List.Forall₂ (fun a b => f a = .ok b) as bs := by
  induction as generalizing bs with
  | nil =>
      rw [List.mapM_nil, List.forall₂_nil_left_iff]
      exact ⟨fun h => by cases h; rfl, fun h => by rw [h]; rfl⟩
  | cons a as ih =>
      rw [List.mapM_cons, bind_eq_ok_iff, List.forall₂_cons_left_iff]
      simp only [bind_eq_ok_iff, ih]
      constructor
      · rintro ⟨b, hb, rest, hrest, heq⟩
        cases heq
        exact ⟨b, rest, hb, hrest, rfl⟩
      · rintro ⟨b, rest, hb, hrest, rfl⟩
        exact ⟨b, hb, rest, hrest, rfl⟩

theorem exists_mapM_eq_ok {f : α → Except ε β} {as : List α} (h : ∀ a ∈ as, ∃ b, f a = .ok b) :
    ∃ bs, as.mapM f = .ok bs := by
  induction as with
  | nil => exact ⟨[], rfl⟩
  | cons a as ih =>
      obtain ⟨b, hb⟩ := h a List.mem_cons_self
      obtain ⟨bs, hbs⟩ := ih fun a ha => h a (List.mem_cons_of_mem _ ha)
      refine ⟨b :: bs, ?_⟩
      rw [List.mapM_cons, bind_eq_ok_iff]
      refine ⟨b, hb, ?_⟩
      rw [hbs]
      rfl

/-! ### Steps that fail -/

/-- The computation fails with the first of the errors, and succeeds if there are none. -/
def Reports (x : Except ε α) (es : List ε) : Prop := ∀ e, x = .error e ↔ es.head? = some e

theorem reports_ok (a : α) : Reports (.ok a : Except ε α) [] := by
  simp [Reports]

theorem reports_error (e : ε) (es : List ε) : Reports (.error e : Except ε α) (e :: es) := by
  simp [Reports]

namespace Reports

variable {es es' : List ε}

theorem eq_ok_iff (h : Reports x es) : (∃ a, x = .ok a) ↔ es = [] := by
  cases x with
  | ok a => simpa [Reports, ← List.head?_eq_none_iff, Option.eq_none_iff_forall_ne_some] using h
  | error e =>
      have := (h e).mp rfl
      cases es <;> simp_all

theorem exists_error_iff (h : Reports x es) : (∃ e, x = .error e) ↔ es ≠ [] := by
  cases es <;> simp [h _]

/-- The second step is taken only if there is nothing wrong in the first one. -/
theorem bind {f : α → Except ε β} (h : Reports x es) (hf : ∀ a, x = .ok a → Reports (f a) es') :
    Reports (x >>= f) (es ++ es') := by
  cases x with
  | ok a =>
      obtain rfl : es = [] := h.eq_ok_iff.mp ⟨a, rfl⟩
      exact hf a rfl
  | error e =>
      intro e'
      rw [List.head?_append, (h e).mp rfl]
      simp [Bind.bind, Except.bind]

theorem map (h : Reports x es) (f : α → β) : Reports (x.map f) es := by
  cases x <;> simpa [Reports, Except.map] using h

theorem mapM {f : α → Except ε β} {g : α → List ε} (as : List α) (h : ∀ a, Reports (f a) (g a)) :
    Reports (as.mapM f) (as.flatMap g) := by
  induction as with
  | nil => exact reports_ok []
  | cons a as ih =>
      rw [List.mapM_cons, List.flatMap_cons]
      refine (h a).bind fun b _ => ?_
      have := ih.bind fun bs _ => reports_ok (b :: bs)
      rwa [List.append_nil] at this

end Reports

/-! ### Members of two lists that go together -/

variable {R : α → β → Prop} {as : List α} {bs : List β}

theorem exists_of_mem_left (h : List.Forall₂ R as bs) {a : α} (ha : a ∈ as) :
    ∃ b ∈ bs, R a b := by
  induction h with
  | nil => cases ha
  | cons hab _ ih =>
      rcases List.mem_cons.mp ha with rfl | ha
      · exact ⟨_, List.mem_cons_self, hab⟩
      · obtain ⟨b, hb, hR⟩ := ih ha
        exact ⟨b, List.mem_cons_of_mem _ hb, hR⟩

theorem exists_of_mem_right (h : List.Forall₂ R as bs) {b : β} (hb : b ∈ bs) :
    ∃ a ∈ as, R a b :=
  exists_of_mem_left h.flip hb

/-- What holds of every two members of one list holds of every two of the other one, if it does so
for those that go together. -/
theorem pairwise_iff_of_forall₂ {P : α → α → Prop} {Q : β → β → Prop}
    (h : List.Forall₂ R as bs) (hPQ : ∀ a b a' b', R a b → R a' b' → (P a a' ↔ Q b b')) :
    as.Pairwise P ↔ bs.Pairwise Q := by
  induction h with
  | nil => exact iff_of_true List.Pairwise.nil List.Pairwise.nil
  | @cons a b as bs hab hrest ih =>
      rw [List.pairwise_cons, List.pairwise_cons, ih]
      refine and_congr_left fun _ => ⟨fun h b' hb' => ?_, fun h a' ha' => ?_⟩
      · obtain ⟨a', ha', hab'⟩ := exists_of_mem_right hrest hb'
        exact (hPQ a b a' b' hab hab').mp (h a' ha')
      · obtain ⟨b', hb', hab'⟩ := exists_of_mem_left hrest ha'
        exact (hPQ a b a' b' hab hab').mpr (h b' hb')

end BracketPaint
