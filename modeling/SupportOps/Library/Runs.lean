import Mathlib.Algebra.GroupWithZero.Nat
import Mathlib.Data.List.Basic
import Mathlib.Data.List.Infix

/-!
# Labelled machines and their runs

A machine takes labelled steps, or refuses a label. An interleaving of any number of
parties is a list of labels, so a statement about every list of labels is a statement
about every order of steps. `Along` restricts the steps of a run by a condition on the
state *before* each of them; the rules below carry an invariant through such a run.
-/
namespace SupportOps.Library

/-- A deterministic machine; nondeterminism lives in the choice of labels. -/
structure Machine (σ ℓ : Type*) where
  step : σ → ℓ → Option σ

namespace Machine

variable {σ ℓ : Type*} (M : Machine σ ℓ)

/-- Take the steps of a list of labels in order. -/
def run : σ → List ℓ → Option σ
  | s, [] => some s
  | s, l :: ls => (M.step s l).bind fun t => run t ls

@[simp] theorem run_nil (s : σ) : M.run s [] = some s := rfl

theorem run_cons (s : σ) (l : ℓ) (ls : List ℓ) :
    M.run s (l :: ls) = (M.step s l).bind fun t => M.run t ls := rfl

theorem run_cons_eq_some {s u : σ} {l : ℓ} {ls : List ℓ} :
    M.run s (l :: ls) = some u ↔ ∃ t, M.step s l = some t ∧ M.run t ls = some u := by
  rw [run_cons, Option.bind_eq_some_iff]

/-- Every step of the run starts in a state in which `G` admits its label. -/
def Along (G : σ → ℓ → Prop) : σ → List ℓ → Prop
  | _, [] => True
  | s, l :: ls => G s l ∧ ∀ t, M.step s l = some t → Along G t ls

@[simp] theorem along_nil (G : σ → ℓ → Prop) (s : σ) : M.Along G s [] := trivial

theorem along_cons {G : σ → ℓ → Prop} {s : σ} {l : ℓ} {ls : List ℓ} :
    M.Along G s (l :: ls) ↔ G s l ∧ ∀ t, M.step s l = some t → M.Along G t ls := Iff.rfl

theorem along_append {G : σ → ℓ → Prop} {s : σ} {xs ys : List ℓ} :
    M.Along G s (xs ++ ys) ↔
      M.Along G s xs ∧ ∀ t, M.run s xs = some t → M.Along G t ys := by
  induction xs generalizing s with
  | nil => simp
  | cons x xs ih =>
    simp only [List.cons_append, along_cons, ih, run_cons_eq_some]
    constructor
    · rintro ⟨admitted, rest⟩
      exact ⟨⟨admitted, fun t ht => (rest t ht).1⟩,
        fun u ⟨t, ht, hu⟩ => (rest t ht).2 u hu⟩
    · rintro ⟨⟨admitted, rest⟩, later⟩
      exact ⟨admitted, fun t ht => ⟨rest t ht, fun u hu => later u ⟨t, ht, hu⟩⟩⟩

theorem Along.mono {G H : σ → ℓ → Prop} {s : σ} {ls : List ℓ} (h : M.Along G s ls)
    (weaken : ∀ s l, G s l → H s l) : M.Along H s ls := by
  induction ls generalizing s with
  | nil => trivial
  | cons l ls ih => exact ⟨weaken _ _ h.1, fun t ht => ih (h.2 t ht)⟩

/-- Conditions on the labels alone join a condition on the steps. -/
theorem Along.and_label {G : σ → ℓ → Prop} {Q : ℓ → Prop} {s : σ} {ls : List ℓ}
    (h : M.Along G s ls) (labels : ∀ l ∈ ls, Q l) : M.Along (fun s l => Q l ∧ G s l) s ls := by
  induction ls generalizing s with
  | nil => trivial
  | cons l ls ih =>
    exact ⟨⟨labels l (List.mem_cons_self ..), h.1⟩,
      fun t ht => ih (h.2 t ht) fun l' hl' => labels l' (List.mem_cons_of_mem _ hl')⟩

/-- An unrestricted run. -/
theorem along_true (s : σ) (ls : List ℓ) : M.Along (fun _ _ => True) s ls := by
  induction ls generalizing s with
  | nil => trivial
  | cons l ls ih => exact ⟨trivial, fun t _ => ih t⟩

/-- A condition that can be decided of a step can be decided of a run. -/
instance decidableAlong {G : σ → ℓ → Prop} [∀ s l, Decidable (G s l)] :
    ∀ (s : σ) (ls : List ℓ), Decidable (M.Along G s ls)
  | _, [] => isTrue trivial
  | s, l :: ls =>
    match h : M.step s l with
    | none => decidable_of_iff (G s l) <| by simp [along_cons, h]
    | some t =>
      have := decidableAlong (G := G) t ls
      decidable_of_iff (G s l ∧ M.Along G t ls) <| by simp [along_cons, h]

/-- What every admitted step keeps holds after every restricted run. -/
theorem run_invariant_of_along {G : σ → ℓ → Prop} {I : σ → Prop}
    (kept : ∀ s l t, G s l → I s → M.step s l = some t → I t)
    {s t : σ} {ls : List ℓ} (along : M.Along G s ls) (start : I s)
    (h : M.run s ls = some t) : I t := by
  induction ls generalizing s with
  | nil => cases h; exact start
  | cons l ls ih =>
    obtain ⟨u, hu, ht⟩ := M.run_cons_eq_some.mp h
    exact ih (along.2 u hu) (kept s l u along.1 start hu) ht

/-- What every step keeps holds after every run. -/
theorem run_invariant {I : σ → Prop} (kept : ∀ s l t, I s → M.step s l = some t → I t)
    {s t : σ} {ls : List ℓ} (start : I s) (h : M.run s ls = some t) : I t :=
  M.run_invariant_of_along (fun s l t _ => kept s l t) (M.along_true s ls) start h

/-- Two conditions on steps that agree wherever `I` holds restrict the same runs. -/
theorem along_iff_of_invariant {G H : σ → ℓ → Prop} {I : σ → Prop}
    (same : ∀ s l, I s → (G s l ↔ H s l))
    (kept : ∀ s l t, I s → H s l → M.step s l = some t → I t)
    {s : σ} (start : I s) (ls : List ℓ) : M.Along G s ls ↔ M.Along H s ls := by
  induction ls generalizing s with
  | nil => exact Iff.rfl
  | cons l ls ih =>
    rw [along_cons, along_cons]
    constructor
    · rintro ⟨here, rest⟩
      have admitted := (same s l start).mp here
      exact ⟨admitted, fun t ht => (ih (kept s l t start admitted ht)).mp (rest t ht)⟩
    · rintro ⟨here, rest⟩
      exact ⟨(same s l start).mpr here,
        fun t ht => (ih (kept s l t start here ht)).mpr (rest t ht)⟩

/-- A restricted run meets every condition that follows from an invariant of restricted runs. -/
theorem along_of_invariant {G Q : σ → ℓ → Prop} {I : σ → Prop}
    (kept : ∀ s l t, G s l → I s → M.step s l = some t → I t)
    (follows : ∀ s l, G s l → I s → Q s l) {s : σ} {ls : List ℓ} (along : M.Along G s ls)
    (start : I s) : M.Along Q s ls := by
  induction ls generalizing s with
  | nil => trivial
  | cons l ls ih =>
    exact ⟨follows s l along.1 start,
      fun t ht => ih (along.2 t ht) (kept s l t along.1 start ht)⟩

/-- What relates the two ends of every step relates the two ends of a run. -/
theorem rel_of_along {R : σ → σ → Prop} (refl : ∀ s, R s s)
    (trans : ∀ s t u, R s t → R t u → R s u) {s t : σ} {ls : List ℓ}
    (along : M.Along (fun s l => ∀ t, M.step s l = some t → R s t) s ls)
    (h : M.run s ls = some t) : R s t := by
  induction ls generalizing s with
  | nil => cases h; exact refl _
  | cons l ls ih =>
    obtain ⟨u, hu, ht⟩ := M.run_cons_eq_some.mp h
    exact trans s u t (along.1 u hu) (ih (along.2 u hu) ht)

/-- A machine whose admitted steps are steps of `N`, or nothing, in the view `f`: in that view its
runs are runs of `N`. -/
theorem run_of_simulation {τ m : Type*} {N : Machine τ m} {f : σ → τ} {G : σ → ℓ → Prop}
    {I : σ → Prop} (kept : ∀ s l t, G s l → I s → M.step s l = some t → I t)
    (simulated : ∀ s l t, G s l → I s → M.step s l = some t →
      f t = f s ∨ ∃ k, N.step (f s) k = some (f t))
    {s t : σ} {ls : List ℓ} (along : M.Along G s ls) (start : I s) (h : M.run s ls = some t) :
    ∃ ks, N.run (f s) ks = some (f t) := by
  induction ls generalizing s with
  | nil => cases h; exact ⟨[], rfl⟩
  | cons l ls ih =>
    obtain ⟨u, hu, ht⟩ := M.run_cons_eq_some.mp h
    obtain ⟨ks, rest⟩ := ih (along.2 u hu) (kept s l u along.1 start hu) ht
    rcases simulated s l u along.1 start hu with same | ⟨k, step⟩
    · exact ⟨ks, by rw [← same]; exact rest⟩
    · exact ⟨k :: ks, N.run_cons_eq_some.mpr ⟨f u, step, rest⟩⟩

/-- Two machines that keep a relation when they take one label keep it along the labels of an
admitted run. -/
theorem run_lockstep {τ : Type*} {N : Machine τ ℓ} {G : σ → ℓ → Prop} {R : σ → τ → Prop}
    (lockstep : ∀ s t l u, G s l → R s t → M.step s l = some u → ∃ v, N.step t l = some v ∧ R u v)
    {s u : σ} {t : τ} {ls : List ℓ} (along : M.Along G s ls) (start : R s t)
    (h : M.run s ls = some u) : ∃ v, N.run t ls = some v ∧ R u v := by
  induction ls generalizing s t with
  | nil => cases h; exact ⟨t, rfl, start⟩
  | cons l ls ih =>
    obtain ⟨s', hs, hu⟩ := M.run_cons_eq_some.mp h
    obtain ⟨t', ht, related⟩ := lockstep s t l s' along.1 start hs
    obtain ⟨v, hv, last⟩ := ih (along.2 s' hs) related hu
    exact ⟨v, N.run_cons_eq_some.mpr ⟨t', ht, hv⟩, last⟩

/-- What the steps of a run cost together. -/
def total (cost : σ → ℓ → Nat) : σ → List ℓ → Nat
  | _, [] => 0
  | s, l :: ls => cost s l + ((M.step s l).map fun t => total cost t ls).getD 0

theorem total_cons {cost : σ → ℓ → Nat} {s t : σ} {l : ℓ} (step : M.step s l = some t)
    (ls : List ℓ) : M.total cost s (l :: ls) = cost s l + M.total cost t ls := by
  simp only [total, step, Option.map_some, Option.getD_some]

/-- The potential method: where every admitted step either reaches `D`, which is not left again, or
pays for its gain out of its cost and a potential, a run that gains more than that reaches `D`. -/
theorem reached_of_potential {G : σ → ℓ → Prop} {D I : σ → Prop} {potential : σ → Nat}
    {cost : σ → ℓ → Nat} {gain : ℓ → Nat} (stays : ∀ s l t, G s l → D s → M.step s l = some t → D t)
    (pays : ∀ s l t, G s l → I s → M.step s l = some t →
      D t ∨ I t ∧ gain l + potential t ≤ cost s l + potential s)
    {s t : σ} {ls : List ℓ} (along : M.Along G s ls) (start : I s) (h : M.run s ls = some t)
    (enough : M.total cost s ls + potential s < (ls.map gain).sum) : D t := by
  induction ls generalizing s with
  | nil => exact absurd enough (Nat.not_lt_zero _)
  | cons l ls ih =>
    obtain ⟨u, hu, ht⟩ := M.run_cons_eq_some.mp h
    rw [M.total_cons hu, List.map_cons, List.sum_cons] at enough
    rcases pays s l u along.1 start hu with reached | ⟨inside, paid⟩
    · exact M.run_invariant_of_along stays (along.2 u hu) reached ht
    · exact ih (along.2 u hu) inside ht (by omega)

/-- `I` holds in every state the run passes through, its first and last included. -/
def Throughout (I : σ → Prop) (s : σ) (ls : List ℓ) : Prop :=
  ∀ pre, pre <+: ls → ∀ t, M.run s pre = some t → I t

theorem throughout_cons {I : σ → Prop} {s : σ} {l : ℓ} {ls : List ℓ} :
    M.Throughout I s (l :: ls) ↔
      I s ∧ ∀ t, M.step s l = some t → M.Throughout I t ls := by
  constructor
  · intro h
    refine ⟨h [] (List.nil_prefix) s rfl, fun t ht pre hpre u hu => ?_⟩
    exact h (l :: pre) (List.prefix_cons_inj l |>.mpr hpre) u
      (M.run_cons_eq_some.mpr ⟨t, ht, hu⟩)
  · rintro ⟨now, later⟩ pre hpre u hu
    cases pre with
    | nil => cases hu; exact now
    | cons l' pre =>
      obtain ⟨rfl, tail⟩ := List.cons_prefix_cons.mp hpre
      obtain ⟨t, ht, hu⟩ := M.run_cons_eq_some.mp hu
      exact later t ht pre tail u hu

/-- Where an admitted step keeps `I` and any other step breaks it, a run stays in `I`
exactly when all its steps are admitted. -/
theorem throughout_iff_along {G : σ → ℓ → Prop} {I : σ → Prop}
    (exact_step : ∀ s l t, I s → M.step s l = some t → (I t ↔ G s l))
    (total : ∀ s l, (M.step s l).isSome) {s : σ} (start : I s) (ls : List ℓ) :
    M.Throughout I s ls ↔ M.Along G s ls := by
  induction ls generalizing s with
  | nil =>
    refine iff_of_true (fun pre hpre t ht => ?_) trivial
    obtain rfl := List.prefix_nil.mp hpre
    cases ht
    exact start
  | cons l ls ih =>
    obtain ⟨t, ht⟩ := Option.isSome_iff_exists.mp (total s l)
    have sole : ∀ u, M.step s l = some u → u = t := fun u hu => by
      rw [ht] at hu; exact (Option.some.inj hu).symm
    rw [throughout_cons, along_cons]
    constructor
    · rintro ⟨-, later⟩
      have here : I t := later t ht [] List.nil_prefix t rfl
      refine ⟨(exact_step s l t start ht).mp here, fun u hu => ?_⟩
      obtain rfl := sole u hu
      exact (ih here).mp (later u hu)
    · rintro ⟨admitted, rest⟩
      refine ⟨start, fun u hu => ?_⟩
      obtain rfl := sole u hu
      exact (ih ((exact_step s l u start hu).mpr admitted)).mpr (rest u hu)

end Machine

end SupportOps.Library
