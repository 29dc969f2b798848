import YModem.Lib.Run

/-!
# Transmissions that follow a script

A script lists items, each with the event on which it is first sent. A trace lists events,
each with what was sent while it was handled. The trace follows the script when the items
are begun in order, each one on its event, and when in between only the item begun last is
sent again.
-/

namespace YModem.Lib

variable {σ α ε ι β : Type}

/-- `ys` may have been sent as `xs`: each item of `ys` one or more times, in order. -/
inductive Repeats : List ι → List ι → Prop where
  | nil : Repeats [] []
  | next {xs ys : List ι} (i : ι) (h : Repeats xs ys) : Repeats (xs ++ [i]) (ys ++ [i])
  | again {xs ys : List ι} {i : ι} (h : Repeats xs (ys ++ [i])) : Repeats (xs ++ [i]) (ys ++ [i])

/-- The trace follows the script and has begun its first `n` items; `first i` is what is
sent when `i` is begun, and `again i` what is sent when it is repeated. -/
inductive Follows (first again : ι → β) (script : List (ι × α)) :
    List (α × List β) → Nat → Prop where
  | start : Follows first again script [] 0
  | quiet {trace n} (e : α) (h : Follows first again script trace n) :
      Follows first again script (trace ++ [(e, [])]) n
  | repeated {trace n i c} (e : α) (h : Follows first again script trace (n + 1))
      (hi : script[n]? = some (i, c)) :
      Follows first again script (trace ++ [(e, [again i])]) (n + 1)
  | begun {trace n i e} (h : Follows first again script trace n) (hi : script[n]? = some (i, e)) :
      Follows first again script (trace ++ [(e, [first i])]) (n + 1)

/-- What a trace sends. -/
def sentIn (trace : List (ε × List β)) : List β := trace.flatMap Prod.snd

@[simp] theorem sentIn_append (trace trace' : List (ε × List β)) :
    sentIn (trace ++ trace') = sentIn trace ++ sentIn trace' := List.flatMap_append

@[simp] theorem sentIn_singleton (e : ε) (out : List β) : sentIn [(e, out)] = out := by
  simp [sentIn]

@[simp] theorem sentIn_map (event : ε → α) (trace : List (ε × List β)) :
    sentIn (trace.map fun l => (event l.1, l.2)) = sentIn trace := by
  simp [sentIn, List.flatMap_map]

variable {first again : ι → β} {script : List (ι × α)}

/-- What is sent is a beginning of the script, each item one or more times. -/
theorem Follows.repeats {trace : List (α × List β)} {n : Nat} (item : β → ι)
    (hfirst : ∀ i, item (first i) = i) (hagain : ∀ i, item (again i) = i)
    (h : Follows first again script trace n) :
    Repeats ((sentIn trace).map item) ((script.take n).map Prod.fst) := by
  induction h with
  | start => exact .nil
  | quiet e h ih => simpa using ih
  | repeated e h hi ih =>
    rw [List.take_add_one, hi] at ih ⊢
    simp only [sentIn_append, sentIn_singleton, List.map_append, List.map_cons, List.map_nil,
      Option.toList_some, hagain] at ih ⊢
    exact .again ih
  | begun h hi ih =>
    rw [List.take_add_one, hi]
    simp only [sentIn_append, sentIn_singleton, List.map_append, List.map_cons, List.map_nil,
      Option.toList_some, hfirst]
    exact .next _ ih

/-- One step either sends nothing, or the last item again, or begins the next item on its
event. `J` relates a state to the item begun last and to the rest of the script. -/
def Advances (first again : ι → β) (J : σ → Option ι → List (ι × α) → Prop) (last : Option ι)
    (rest : List (ι × α)) (e : α × List β) (t : σ) : Prop :=
  (e.2 = [] ∧ J t last rest) ∨
  (∃ i, last = some i ∧ e.2 = [again i] ∧ J t last rest) ∨
  (∃ i rest', rest = (i, e.1) :: rest' ∧ e.2 = [first i] ∧ J t (some i) rest')

/-- A step together with what it sends: `out` is all that has been sent so far. -/
def Emits (step : σ → ε → σ → Prop) (out : σ → List β) (s : σ) (l : ε × List β) (t : σ) : Prop :=
  step s l.1 t ∧ out t = out s ++ l.2

theorem Run.out_eq {step : σ → ε → σ → Prop} {out : σ → List β} {s t : σ}
    {trace : List (ε × List β)} (h : Run (Emits step out) s trace t) :
    out t = out s ++ sentIn trace := by
  induction h with
  | refl => simp [sentIn]
  | tail hr hst ih => rw [hst.2, ih, sentIn_append, List.append_assoc, sentIn, sentIn]; simp

/-- **The script rule.** If every step advances, every run follows the script. -/
theorem Run.follows {step : σ → ε → σ → Prop} (first again : ι → β) (out : σ → List β)
    (event : ε → α) (J : σ → Option ι → List (ι × α) → Prop)
    (hstep : ∀ {s e t last rest}, J s last rest → step s e t →
      ∃ new, out t = out s ++ new ∧ Advances first again J last rest (event e, new) t)
    {s t : σ} {es : List ε} (h : Run step s es t) (hs : J s none script) :
    ∃ trace, trace.map Prod.fst = es ∧ Run (Emits step out) s trace t ∧
      ∃ n, Follows first again script (trace.map fun l => (event l.1, l.2)) n := by
  suffices hall : ∃ trace, trace.map Prod.fst = es ∧ Run (Emits step out) s trace t ∧
      ∃ n last, Follows first again script (trace.map fun l => (event l.1, l.2)) n ∧
        (∀ i, last = some i → ∃ k c, n = k + 1 ∧ script[k]? = some (i, c)) ∧
        J t last (script.drop n) by
    obtain ⟨trace, hes, hr, n, _, hf, -⟩ := hall
    exact ⟨trace, hes, hr, n, hf⟩
  induction h with
  | refl => exact ⟨[], rfl, .refl, 0, none, .start, by simp, hs⟩
  | @tail t u es e hr hst ih =>
    obtain ⟨trace, rfl, hr', n, last, hf, hlast, hJ⟩ := ih
    obtain ⟨new, hout, hadv⟩ := hstep hJ hst
    refine ⟨trace ++ [(e, new)], by simp, hr'.tail ⟨hst, hout⟩, ?_⟩
    rw [List.map_append]
    rcases hadv with ⟨hnew, hJ⟩ | ⟨i, rfl, hnew, hJ⟩ | ⟨i, rest', hrest, hnew, hJ⟩
    · obtain rfl : new = [] := hnew
      exact ⟨n, last, .quiet (event e) hf, hlast, hJ⟩
    · obtain rfl : new = [again i] := hnew
      obtain ⟨k, _, rfl, hi⟩ := hlast i rfl
      exact ⟨k + 1, some i, .repeated (event e) hf hi, hlast, hJ⟩
    · obtain rfl : new = [first i] := hnew
      have hi : script[n]? = some (i, event e) := by
        rw [← List.head?_drop, hrest]
        rfl
      have hdrop : script.drop (n + 1) = rest' := by
        rw [← List.drop_drop, hrest]
        rfl
      refine ⟨n + 1, some i, .begun hf hi, ?_, hdrop ▸ hJ⟩
      intro j hj
      cases hj
      exact ⟨n, event e, rfl, hi⟩

end YModem.Lib
