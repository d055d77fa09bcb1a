/- Finite runs of a partial step function, together with the labels that produced them. -/
import Mathlib.Data.List.Induction

namespace Runs

variable {σ α : Type*}

/-- Labels are executed in order; a label that is not enabled gives no run at all. -/
def run (step : σ → α → Option σ) : σ → List α → Option σ
  | s, [] => some s
  | s, a :: as => (step s a).bind fun t => run step t as

/-- Some finite run leads from the first state to the second. -/
def Reaches (step : σ → α → Option σ) (s t : σ) : Prop := ∃ as, run step s as = some t

variable {step : σ → α → Option σ} {s t u : σ}

@[simp] theorem run_nil : run step s [] = some s := rfl

theorem run_cons (a : α) (as : List α) :
    run step s (a :: as) = (step s a).bind fun t => run step t as := rfl

theorem run_append (as bs : List α) :
    run step s (as ++ bs) = (run step s as).bind fun t => run step t bs := by
  induction as generalizing s with
  | nil => rfl
  | cons a as ih =>
      simp only [List.cons_append, run_cons, Option.bind_assoc]
      cases step s a with
      | none => rfl
      | some t => exact ih

theorem run_append_some {as bs : List α} :
    run step s (as ++ bs) = some u ↔ ∃ t, run step s as = some t ∧ run step t bs = some u := by
  rw [run_append, Option.bind_eq_some_iff]

theorem run_cons_some {a : α} {as : List α} :
    run step s (a :: as) = some u ↔ ∃ t, step s a = some t ∧ run step t as = some u := by
  rw [run_cons, Option.bind_eq_some_iff]

theorem run_snoc_some {as : List α} {a : α} :
    run step s (as ++ [a]) = some u ↔ ∃ t, run step s as = some t ∧ step t a = some u := by
  simp only [run_append_some, run_cons_some, run_nil, Option.some.injEq, exists_eq_right]

theorem Reaches.refl (s : σ) : Reaches step s s := ⟨[], rfl⟩

theorem Reaches.trans (h : Reaches step s t) (k : Reaches step t u) : Reaches step s u := by
  obtain ⟨as, ha⟩ := h
  obtain ⟨bs, hb⟩ := k
  exact ⟨as ++ bs, run_append_some.mpr ⟨t, ha, hb⟩⟩

theorem Reaches.single {a : α} (h : step s a = some t) : Reaches step s t :=
  ⟨[a], run_cons_some.mpr ⟨t, h, rfl⟩⟩

/-- A guarded step that was made was enabled, and had one outcome. -/
theorem enabled {c : Prop} [Decidable c] (h : (if c then some t else none) = some u) :
    c ∧ t = u := by
  obtain ⟨hc, hsome⟩ := Option.ite_none_right_eq_some.mp h
  exact ⟨hc, Option.some.inj hsome⟩

/-- A law about the labels so far and the present state is proved from its last step. -/
theorem history_invariant {P : List α → σ → Prop} (base : P [] s)
    (next : ∀ as t a u, run step s as = some t → P as t → step t a = some u → P (as ++ [a]) u)
    (as : List α) : ∀ t, run step s as = some t → P as t := by
  induction as using List.reverseRecOn with
  | nil =>
      intro t h
      cases h
      exact base
  | append_singleton as a ih =>
      intro u h
      obtain ⟨t, ht, hu⟩ := run_snoc_some.mp h
      exact next as t a u ht (ih t ht) hu

/-- Every label of a trace comes in a state that satisfies its guard. -/
def Guarded (step : σ → α → Option σ) (G : σ → α → Prop) (s : σ) (as : List α) : Prop :=
  ∀ pre a post t, as = pre ++ a :: post → run step s pre = some t → G t a

section Guards

variable {G : σ → α → Prop} {as bs : List α} {a : α}

theorem Guarded.of_forall (h : ∀ a ∈ as, ∀ t, G t a) : Guarded step G s as := by
  rintro pre a post t rfl -
  exact h a (by simp) t

theorem Guarded.left (h : Guarded step G s (as ++ bs)) : Guarded step G s as := by
  rintro pre a post t rfl
  exact h pre a (post ++ bs) t (by rw [List.append_assoc, List.cons_append])

theorem Guarded.append (h : Guarded step G s as) (hrun : run step s as = some t)
    (k : Guarded step G t bs) : Guarded step G s (as ++ bs) := by
  intro pre a post u same hu
  rcases List.append_eq_append_iff.mp same with ⟨more, rfl, hbs⟩ | ⟨more, has, hrest⟩
  · obtain ⟨v, hv, hmore⟩ := run_append_some.mp hu
    obtain rfl := Option.some.inj (hv.symm.trans hrun)
    exact k more a post u hbs hmore
  · cases more with
    | nil =>
        rw [List.append_nil] at has
        subst has
        obtain rfl := Option.some.inj (hu.symm.trans hrun)
        exact k [] a post u hrest.symm rfl
    | cons b more =>
        obtain ⟨rfl, -⟩ := List.cons.inj hrest
        exact h pre a more u has hu

theorem Guarded.cons (first : G s a) (hstep : step s a = some t) (rest : Guarded step G t as) :
    Guarded step G s (a :: as) := by
  have hsingle : Guarded step G s [a] := by
    intro pre b post u same hu
    cases pre with
    | nil =>
        obtain ⟨rfl, -⟩ := List.cons.inj same
        obtain rfl := Option.some.inj hu
        exact first
    | cons c pre => simp at same
  exact hsingle.append (run_cons_some.mpr ⟨t, hstep, rfl⟩) rest

end Guards

/-- The same rule when the labels so far are all known to satisfy a condition. -/
theorem guarded_invariant {P : List α → σ → Prop} {G : σ → α → Prop} (base : P [] s)
    (next : ∀ as t a u, P as t → G t a → step t a = some u → P (as ++ [a]) u)
    (as : List α) (good : Guarded step G s as) :
    ∀ t, run step s as = some t → P as t := by
  induction as using List.reverseRecOn with
  | nil =>
      intro t h
      cases h
      exact base
  | append_singleton as a ih =>
      intro u h
      obtain ⟨t, ht, hu⟩ := run_snoc_some.mp h
      exact next as t a u (ih good.left t ht) (good as a [] t rfl ht) hu

theorem invariant {P : σ → Prop} (base : P s)
    (next : ∀ t a u, P t → step t a = some u → P u) (h : Reaches step s t) : P t := by
  obtain ⟨as, ha⟩ := h
  exact history_invariant (P := fun _ => P) base (fun _ t a u _ => next t a u) as t ha

end Runs
