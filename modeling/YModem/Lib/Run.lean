import Mathlib.Algebra.Ring.Nat
import Mathlib.Data.List.Induction

/-!
# Runs of a labelled step relation

A run is a finite sequence of labelled steps. The rules below are the ones the
development uses: an invariant carried along a run, an invariant that only holds
while every step meets a side condition, and a potential that pays for what the
steps spend.
-/

namespace YModem.Lib

variable {σ α : Type} {step : σ → α → σ → Prop}

/-- `Run step s es t`: the labels `es`, taken in order, lead from `s` to `t`. -/
inductive Run (step : σ → α → σ → Prop) (s : σ) : List α → σ → Prop where
  | refl : Run step s [] s
  | tail {t u : σ} {es : List α} {e : α} :
      Run step s es t → step t e u → Run step s (es ++ [e]) u

namespace Run

theorem single {s t : σ} {e : α} (h : step s e t) : Run step s [e] t :=
  Run.refl.tail h

theorem append {s t u : σ} {es fs : List α} (h₁ : Run step s es t) (h₂ : Run step t fs u) :
    Run step s (es ++ fs) u := by
  induction h₂ with
  | refl => simpa using h₁
  | tail _ hs ih =>
    rw [← List.append_assoc]
    exact ih.tail hs

theorem cons {s t u : σ} {e : α} {es : List α} (h : step s e t) (hr : Run step t es u) :
    Run step s (e :: es) u :=
  (single h).append hr

theorem nil_inv {s t : σ} {es : List α} (h : Run step s es t) (he : es = []) : t = s := by
  cases h with
  | refl => rfl
  | tail _ _ => simp at he

/-- The last step of a nonempty run. -/
theorem snoc_inv {s u : σ} {es : List α} {e : α} (h : Run step s (es ++ [e]) u) :
    ∃ t, Run step s es t ∧ step t e u := by
  generalize he : es ++ [e] = fs at h
  cases h with
  | refl => simp at he
  | tail hr hs =>
    obtain ⟨rfl, rfl⟩ := List.append_singleton_inj.mp he
    exact ⟨_, hr, hs⟩

theorem append_inv {s u : σ} {es fs : List α} (h : Run step s (es ++ fs) u) :
    ∃ t, Run step s es t ∧ Run step t fs u := by
  induction fs using List.reverseRecOn generalizing u with
  | nil => exact ⟨u, by simpa using h, Run.refl⟩
  | append_singleton fs e ih =>
    rw [← List.append_assoc] at h
    obtain ⟨t, hr, hs⟩ := h.snoc_inv
    obtain ⟨w, hw, hwt⟩ := ih hr
    exact ⟨w, hw, hwt.tail hs⟩

/-- The first step of a nonempty run. -/
theorem cons_inv {s u : σ} {es : List α} {e : α} (h : Run step s (e :: es) u) :
    ∃ t, step s e t ∧ Run step t es u := by
  rw [← List.singleton_append] at h
  obtain ⟨t, ht, hu⟩ := append_inv h
  rw [← List.nil_append [e]] at ht
  obtain ⟨w, hw, hs⟩ := snoc_inv ht
  rw [hw.nil_inv rfl] at hs
  exact ⟨t, hs, hu⟩

/-- A run of steps that are steps of another relation too. -/
theorem mono {step' : σ → α → σ → Prop} {s t : σ} {es : List α} (h : Run step s es t)
    (hstep : ∀ {s e t}, step s e t → step' s e t) : Run step' s es t := by
  induction h with
  | refl => exact .refl
  | tail _ hs ih => exact ih.tail (hstep hs)

/-- **The invariant rule.** What every step preserves, every run preserves. -/
theorem invariant {I : σ → Prop} {s t : σ} {es : List α}
    (hstep : ∀ {s e t}, I s → step s e t → I t) (h : Run step s es t) (hs : I s) : I t := by
  induction h with
  | refl => exact hs
  | tail _ hst ih => exact hstep ih hst

/-- The invariant rule for runs whose labels are all admissible. -/
theorem invariant_of_labels {I : σ → Prop} {ok : α → Prop} {s t : σ} {es : List α}
    (hstep : ∀ {s e t}, ok e → I s → step s e t → I t) (h : Run step s es t)
    (hok : ∀ e ∈ es, ok e) (hs : I s) : I t := by
  induction h with
  | refl => exact hs
  | tail _ hst ih =>
    exact hstep (hok _ (by simp)) (ih fun e he => hok e (by simp [he])) hst

/-- The labels determine a run when they determine each step. -/
theorem unique {s t u : σ} {es : List α} (ht : Run step s es t) (hu : Run step s es u)
    (hdet : ∀ {s e t u}, step s e t → step s e u → t = u) : t = u := by
  induction ht generalizing u with
  | refl => exact (hu.nil_inv rfl).symm
  | tail _ hs ih =>
    obtain ⟨w, hw, hs'⟩ := hu.snoc_inv
    rw [ih hw] at hs
    exact hdet hs hs'

/-- A function gives a run of the relation that it computes, and the other way round. -/
theorem foldlM_iff {f : σ → α → Option σ} {s t : σ} {es : List α} :
    es.foldlM f s = some t ↔ Run (fun s e t => f s e = some t) s es t := by
  constructor
  · intro h
    induction es generalizing s with
    | nil =>
      cases h
      exact .refl
    | cons e es ih =>
      obtain ⟨u, hu, h⟩ := Option.bind_eq_some_iff.mp h
      exact Run.cons hu (ih h)
  · intro h
    induction h with
    | refl => rfl
    | tail _ hs ih =>
      rw [List.foldlM_append]
      exact Option.bind_eq_some_iff.mpr ⟨_, ih, Option.bind_eq_some_iff.mpr ⟨_, hs, rfl⟩⟩

/-- A fallible function fails along a list exactly when it fails at one of its items. -/
theorem foldlM_eq_error_iff {ε : Type} {f : σ → α → Except ε σ} {s : σ} {es : List α} {x : ε} :
    es.foldlM f s = .error x ↔
      ∃ es₁ e es₂ t, es = es₁ ++ e :: es₂ ∧ es₁.foldlM f s = .ok t ∧ f t e = .error x := by
  constructor
  · intro h
    induction es generalizing s with
    | nil => cases h
    | cons e es ih =>
      rw [List.foldlM_cons] at h
      cases hu : f s e with
      | error y =>
        rw [hu] at h
        cases h
        exact ⟨[], e, es, s, rfl, rfl, hu⟩
      | ok u =>
        rw [hu] at h
        obtain ⟨es₁, e', es₂, t, rfl, ht, hx⟩ := ih h
        refine ⟨e :: es₁, e', es₂, t, rfl, ?_, hx⟩
        rw [List.foldlM_cons, hu]
        exact ht
  · rintro ⟨es₁, e, es₂, t, rfl, ht, hx⟩
    rw [List.foldlM_append, ht]
    change (e :: es₂).foldlM f t = .error x
    rw [List.foldlM_cons, hx]
    rfl

end Run

/-- Every step taken along the run of `es` from `s` satisfies `C`. -/
def EveryStep (step : σ → α → σ → Prop) (C : σ → α → σ → Prop) (s : σ) (es : List α) : Prop :=
  ∀ es₁ e es₂ t u, es = es₁ ++ e :: es₂ → Run step s es₁ t → step t e u → C t e u

namespace EveryStep

variable {C D : σ → α → σ → Prop} {s : σ}

theorem init {es fs : List α} (h : EveryStep step C s (es ++ fs)) : EveryStep step C s es := by
  intro es₁ e es₂ t u he hr hs
  exact h es₁ e (es₂ ++ fs) t u (by simp [he]) hr hs

theorem drop {es fs : List α} {t : σ} (h : EveryStep step C s (es ++ fs)) (hr : Run step s es t) :
    EveryStep step C t fs := by
  intro es₁ e es₂ u w he hr' hs
  exact h (es ++ es₁) e es₂ u w (by simp [he]) (hr.append hr') hs

theorem last {es : List α} {e : α} {t u : σ} (h : EveryStep step C s (es ++ [e]))
    (hr : Run step s es t) (hs : step t e u) : C t e u :=
  h es e [] t u rfl hr hs

theorem nil : EveryStep step C s [] := by
  intro es₁ e es₂ t u he
  simp at he

theorem cons {e : α} {es : List α} (h : ∀ t, step s e t → C s e t ∧ EveryStep step C t es) :
    EveryStep step C s (e :: es) := by
  intro es₁ a es₂ t u he hr hs
  cases es₁ with
  | nil =>
    cases he
    cases hr.nil_inv rfl
    exact (h u hs).1
  | cons b es₁ =>
    obtain ⟨rfl, rfl⟩ := List.cons.inj he
    obtain ⟨w, hw, hr⟩ := hr.cons_inv
    exact (h w hw).2 es₁ a es₂ t u rfl hr hs

theorem and {es : List α} (hC : EveryStep step C s es) (hD : EveryStep step D s es) :
    EveryStep step (fun t e u => C t e u ∧ D t e u) s es :=
  fun es₁ e es₂ t u he hr hs => ⟨hC es₁ e es₂ t u he hr hs, hD es₁ e es₂ t u he hr hs⟩

theorem of_labels {ok : α → Prop} {es : List α} (h : ∀ e ∈ es, ok e) :
    EveryStep step (fun _ e _ => ok e) s es :=
  fun es₁ e es₂ _ _ he _ _ => h e (by simp [he])

/-- Two conditions that agree on every step from a state that is reached. -/
theorem congr {es : List α} (h : ∀ {es₁ t e u}, Run step s es₁ t → step t e u → (C t e u ↔ D t e u)) :
    EveryStep step C s es ↔ EveryStep step D s es :=
  ⟨fun hC es₁ e es₂ t u he hr hs => (h hr hs).mp (hC es₁ e es₂ t u he hr hs),
    fun hD es₁ e es₂ t u he hr hs => (h hr hs).mpr (hD es₁ e es₂ t u he hr hs)⟩

end EveryStep

/-- A fold that checks each step is a run whose steps all meet the side condition. -/
theorem Run.of_checked {f : σ → α → Option σ} {ok : σ → α → Bool} {C : σ → α → σ → Prop}
    (hstep : ∀ {s e t}, step s e t ↔ f s e = some t)
    (hok : ∀ {s e t}, ok s e = true → step s e t → C s e t) {s t : σ} {es : List α}
    (h : es.foldlM (fun s e => if ok s e then f s e else none) s = some t) :
    Run step s es t ∧ EveryStep step C s es := by
  induction es generalizing s with
  | nil =>
    cases h
    exact ⟨.refl, .nil⟩
  | cons e es ih =>
    obtain ⟨u, hu, h⟩ := Option.bind_eq_some_iff.mp h
    simp only at hu
    split_ifs at hu with hgood
    obtain ⟨hrun, hevery⟩ := ih h
    have hs : step s e u := hstep.mpr hu
    refine ⟨Run.cons hs hrun, .cons fun t ht => ?_⟩
    obtain rfl : u = t := Option.some.inj (hu.symm.trans (hstep.mp ht))
    exact ⟨hok hgood hs, hevery⟩

/-- The invariant rule for runs whose steps all meet a side condition. -/
theorem Run.invariant_of_everyStep {I : σ → Prop} {C : σ → α → σ → Prop} {s t : σ} {es : List α}
    (hstep : ∀ {s e t}, I s → C s e t → step s e t → I t) (h : Run step s es t)
    (hC : EveryStep step C s es) (hs : I s) : I t := by
  induction h with
  | refl => exact hs
  | tail hr hst ih => exact hstep (ih hC.init) (hC.last hr hst) hst

/-- **The converse of the invariant rule.** When a step that does not meet the side condition
leads to a doomed state, and every step from a doomed state to another one, a run that ends in
a state that is not doomed has met the condition in every step. -/
theorem Run.everyStep_of_not_doomed {I D : σ → Prop} {C : σ → α → σ → Prop} {s t : σ} {es : List α}
    (hdet : ∀ {s e t u}, step s e t → step s e u → t = u)
    (hstep : ∀ {s e t}, I s → C s e t → step s e t → I t)
    (hbreak : ∀ {s e t}, I s → ¬ C s e t → step s e t → D t)
    (hdoom : ∀ {s e t}, D s → step s e t → D t)
    (h : Run step s es t) (hs : I s) (ht : ¬ D t) : EveryStep step C s es := by
  have hboth {s e t} (hi : I s ∨ D s) (hst : step s e t) : I t ∨ D t := by
    rcases hi with hi | hd
    · by_cases hC : C s e t
      · exact .inl (hstep hi hC hst)
      · exact .inr (hbreak hi hC hst)
    · exact .inr (hdoom hd hst)
  intro es₁ e es₂ u w he hu hw
  by_contra hC
  have hdoomed : D w := by
    rcases hu.invariant (I := fun v => I v ∨ D v) hboth (.inl hs) with hi | hd
    · exact hbreak hi hC hw
    · exact hdoom hd hw
  rw [he] at h
  obtain ⟨u', hu', hrest⟩ := h.append_inv
  obtain ⟨w', hw', hrest⟩ := hrest.cons_inv
  cases hu'.unique hu hdet
  cases hdet hw' hw
  exact ht (hrest.invariant hdoom hdoomed)

/-- **The countdown rule.** When every step lowers the number of steps that are left, a run is no
longer than that number. -/
theorem Run.length_add_le {Left : σ → Nat → Prop} {s t : σ} {es : List α} {n : Nat}
    (h : Run step s es t) (hstep : ∀ {s e t n}, Left s n → step s e t → ∃ k < n, Left t k)
    (hs : Left s n) : ∃ k, Left t k ∧ es.length + k ≤ n := by
  induction h with
  | refl => exact ⟨n, hs, by simp⟩
  | @tail es e t u _ hst ih =>
    obtain ⟨k, hk, hle⟩ := ih
    obtain ⟨j, hj, ht⟩ := hstep hk hst
    refine ⟨j, ht, ?_⟩
    rw [List.length_append, List.length_singleton]
    omega

/-- **The potential rule.** Along a run on admissible labels that makes no progress, when
every step without progress lowers the potential by at least what it spends, the whole run
spends no more than the potential it started with. -/
theorem Run.spent_le_potential {I : σ → Prop} {ok : α → Prop} {progress spent pot : σ → Nat}
    {s t : σ} {es : List α}
    (hinv : ∀ {s e t}, I s → step s e t → I t)
    (hmono : ∀ {s e t}, I s → step s e t → progress s ≤ progress t)
    (hpay : ∀ {s e t}, I s → ok e → step s e t → progress t = progress s →
      spent t + pot t ≤ spent s + pot s)
    (h : Run step s es t) (hok : ∀ e ∈ es, ok e) (hs : I s) (hq : progress t = progress s) :
    spent t + pot t ≤ spent s + pot s := by
  suffices hall : progress s ≤ progress t ∧
      (progress t = progress s → spent t + pot t ≤ spent s + pot s) from hall.2 hq
  clear hq
  induction h with
  | refl => exact ⟨Nat.le_refl _, fun _ => Nat.le_refl _⟩
  | tail hr hst ih =>
    obtain ⟨hle, hpaid⟩ := ih fun e he => hok e (by simp [he])
    have hmid := hr.invariant (I := I) hinv hs
    have hnext := hmono hmid hst
    refine ⟨Nat.le_trans hle hnext, fun hq => ?_⟩
    have hpaid := hpaid (by omega)
    have hlast := hpay hmid (hok _ (by simp)) hst (by omega)
    omega

end YModem.Lib
