/-!
# Folds and loops that can fail

A fold that can fail is followed by an invariant. Either the invariant shows that no step fails, and
then it may speak of the elements that are still to come, or the fold is known to have gone through.

If it is known which elements a step fails on, then it is known when the fold goes through, and the
first element at fault is reported. Where the steps do not depend on each other, all of them go through
or none counts. Two computations whose steps follow each other give results that are related in the
end.
-/

namespace DrawnModels

universe u v w

variable {α : Type u} {σ : Type v} {ε : Type w} {f : σ → α → Except ε σ}

theorem exists_eq_ok_of_isOk {x : Except ε α} (h : x.isOk = true) : ∃ a, x = .ok a := by
  cases x with
  | error e => cases h
  | ok a => exact ⟨a, rfl⟩

theorem bind_eq_ok_iff {β : Type v} {x : Except ε β} {g : β → Except ε σ} {s : σ} :
    x >>= g = .ok s ↔ ∃ b, x = .ok b ∧ g b = .ok s := by
  cases x with
  | error e => simp [bind, Except.bind]
  | ok b => simp [bind, Except.bind]

theorem map_eq_ok_iff {β : Type v} {x : Except ε α} {g : α → β} {b : β} :
    x.map g = .ok b ↔ ∃ a, x = .ok a ∧ g a = b := by
  cases x with
  | error e => simp [Except.map]
  | ok a => simp [Except.map]

theorem map_eq_error_iff {β : Type v} {x : Except ε α} {g : α → β} {e : ε} :
    x.map g = .error e ↔ x = .error e := by
  cases x with
  | error e' => simp [Except.map]
  | ok a => simp [Except.map]

/-- A fold goes through the front of a list if every step does and keeps an invariant, which then
speaks of what is left of the list. -/
theorem foldlM_front_ok_of_step {P : List α → σ → Prop}
    (step : ∀ a rest s, P (a :: rest) s → ∃ t, f s a = .ok t ∧ P rest t) {front rest : List α}
    {s : σ} (h : P (front ++ rest) s) : ∃ t, front.foldlM f s = .ok t ∧ P rest t := by
  induction front generalizing s with
  | nil => exact ⟨s, rfl, h⟩
  | cons a front ih =>
    obtain ⟨t, ht, hP⟩ := step a (front ++ rest) s h
    obtain ⟨t', ht', hP'⟩ := ih hP
    exact ⟨t', by rw [List.foldlM_cons, ht]; exact ht', hP'⟩

/-- A fold goes through if every step does and keeps an invariant. -/
theorem foldlM_ok_of_step {P : List α → σ → Prop}
    (step : ∀ a rest s, P (a :: rest) s → ∃ t, f s a = .ok t ∧ P rest t) {l : List α} {s : σ}
    (h : P l s) : ∃ t, l.foldlM f s = .ok t ∧ P [] t := by
  rw [← List.append_nil l] at h
  exact foldlM_front_ok_of_step step h

/-- A fold goes through, or it stops at an element on which its step fails after those before it
went through. The invariant speaks of the elements that are done. -/
theorem foldlM_cases {P : List α → σ → Prop}
    (step : ∀ done a s t, P done s → f s a = .ok t → P (done ++ [a]) t) {done l : List α} {s : σ}
    (h : P done s) :
    (∃ t, l.foldlM f s = .ok t ∧ P (done ++ l) t) ∨
      ∃ before a after t e, l = before ++ a :: after ∧ P (done ++ before) t ∧ f t a = .error e ∧
        l.foldlM f s = .error e := by
  induction l generalizing done s with
  | nil => exact Or.inl ⟨s, rfl, by simpa using h⟩
  | cons a rest ih =>
    rw [List.foldlM_cons]
    cases ha : f s a with
    | error e => exact Or.inr ⟨[], a, rest, s, e, rfl, by simpa using h, ha, rfl⟩
    | ok s' =>
      have hdone : ∀ l, done ++ [a] ++ l = done ++ a :: l := fun l => by simp
      rcases ih (step done a s s' h ha) with ⟨t, ht, hP⟩ | ⟨before, b, after, t, e, rfl, hP, hb, he⟩
      · exact Or.inl ⟨t, ht, hdone rest ▸ hP⟩
      · exact Or.inr ⟨a :: before, b, after, t, e, rfl, hdone before ▸ hP, hb, he⟩

/-- What the steps keep holds at the end of a fold that goes through. -/
theorem of_foldlM_eq_ok {P : List α → σ → Prop}
    (step : ∀ done a s t, P done s → f s a = .ok t → P (done ++ [a]) t) {l : List α} {s t : σ}
    (h : P [] s) (hok : l.foldlM f s = .ok t) : P l t := by
  rcases foldlM_cases step h (l := l) with ⟨t', ht', hP⟩ | ⟨_, _, _, _, e, -, -, -, herr⟩
  · rw [ht'] at hok
    cases hok
    exact hP
  · rw [herr] at hok
    cases hok

/-! ### The first fault -/

/-- A fold judges the elements of a list, each by those before it. `P` says what has been built from
the elements that are done, `Good` that none of them is at fault, and `Fault` what is at fault with
an element that comes after them. -/
structure Judges (f : σ → α → Except ε σ) (s : σ) (P : List α → σ → Prop) (Good : List α → Prop)
    (Fault : List α → α → ε → Prop) : Prop where
  start : P [] s
  step : ∀ done a s t, P done s → f s a = .ok t → P (done ++ [a]) t
  good : ∀ done s, P done s → Good done
  error_iff : ∀ done a s e, P done s → (f s a = .error e ↔ Fault done a e)
  not_fault : ∀ done a rest e, Good (done ++ a :: rest) → ¬ Fault done a e

namespace Judges

variable {P : List α → σ → Prop} {Good : List α → Prop} {Fault : List α → α → ε → Prop} {s t : σ}
  {l : List α} {e : ε}

theorem of_foldlM_eq_ok (h : Judges f s P Good Fault) (hok : l.foldlM f s = .ok t) : P l t :=
  DrawnModels.of_foldlM_eq_ok h.step h.start hok

theorem foldlM_cases (h : Judges f s P Good Fault) (l : List α) :
    (∃ t, l.foldlM f s = .ok t ∧ P l t) ∨
      ∃ earlier a later e, l = earlier ++ a :: later ∧ Good earlier ∧ Fault earlier a e ∧
        l.foldlM f s = .error e := by
  rcases DrawnModels.foldlM_cases h.step h.start (l := l) with
    hok | ⟨earlier, a, later, t, e, hl, hP, hstep, herror⟩
  · exact Or.inl hok
  · have hfault := (h.error_iff earlier a t e hP).mp hstep
    exact Or.inr ⟨earlier, a, later, e, hl, h.good earlier t hP, hfault, herror⟩

theorem exists_foldlM_iff (h : Judges f s P Good Fault) :
    (∃ t, l.foldlM f s = .ok t) ↔ Good l := by
  constructor
  · rintro ⟨t, hok⟩
    exact h.good l t (h.of_foldlM_eq_ok hok)
  · intro hgood
    rcases h.foldlM_cases l with ⟨t, hok, -⟩ | ⟨earlier, a, later, e, rfl, -, hfault, -⟩
    · exact ⟨t, hok⟩
    · exact absurd hfault (h.not_fault earlier a later e hgood)

/-- What is reported is the first fault. -/
theorem foldlM_eq_error_iff (h : Judges f s P Good Fault) :
    l.foldlM f s = .error e ↔
      ∃ earlier a later, l = earlier ++ a :: later ∧ Good earlier ∧ Fault earlier a e := by
  constructor
  · intro herror
    rcases h.foldlM_cases l with ⟨t, hok, -⟩ | ⟨earlier, a, later, e', hl, hgood, hfault, herror'⟩
    · rw [hok] at herror
      cases herror
    · cases herror'.symm.trans herror
      exact ⟨earlier, a, later, hl, hgood, hfault⟩
  · rintro ⟨earlier, a, later, rfl, hgood, hfault⟩
    obtain ⟨t, hok⟩ := h.exists_foldlM_iff.mpr hgood
    have hstep := (h.error_iff earlier a t e (h.of_foldlM_eq_ok hok)).mpr hfault
    rw [List.foldlM_append, hok]
    simp only [bind, Except.bind, List.foldlM_cons, hstep]

end Judges

/-! ### Steps that do not depend on each other -/

theorem forM_eq_ok_iff {f : α → Except ε PUnit} {l : List α} :
    l.forM f = .ok ⟨⟩ ↔ ∀ a ∈ l, f a = .ok ⟨⟩ := by
  induction l with
  | nil => simp [pure, Except.pure]
  | cons a rest ih =>
    rw [List.forM, List.forall_mem_cons, ← ih]
    cases f a <;> simp [bind, Except.bind]

/-- Goes through unless there is a fault to report. -/
def report : Option ε → Except ε PUnit
  | none => .ok ⟨⟩
  | some e => .error e

theorem forM_eq_report {f : α → Except ε PUnit} {fault : α → Option ε} {l : List α}
    (h : ∀ a ∈ l, f a = report (fault a)) : l.forM f = report (l.findSome? fault) := by
  induction l with
  | nil => rfl
  | cons a rest ih =>
    obtain ⟨ha, hrest⟩ := List.forall_mem_cons.mp h
    rw [List.forM, ha, List.findSome?_cons]
    cases fault a with
    | none => exact ih hrest
    | some e => rfl

/-- Where `g` says what a step gives if it goes through, a list is mapped by `g` if all steps go
through. -/
theorem mapM_eq_ok_iff {β : Type v} {f : α → Except ε β} {g : α → β}
    (hg : ∀ a b, f a = .ok b → b = g a) {l : List α} {m : List β} :
    l.mapM f = .ok m ↔ (∀ a ∈ l, f a = .ok (g a)) ∧ m = l.map g := by
  induction l generalizing m with
  | nil => simp [pure, Except.pure, eq_comm]
  | cons a rest ih =>
    rw [List.mapM_cons, List.forall_mem_cons, List.map_cons]
    cases ha : f a with
    | error e => simp [bind, Except.bind]
    | ok b =>
      cases hg a b ha
      cases hrest : rest.mapM f with
      | error e =>
        have hnot : ¬ ∀ a ∈ rest, f a = .ok (g a) := fun hall => by
          have := ih.mpr ⟨hall, rfl⟩
          rw [hrest] at this
          cases this
        simp [bind, Except.bind, hnot]
      | ok ms =>
        obtain ⟨hall, rfl⟩ := ih.mp hrest
        rw [and_iff_right ⟨rfl, hall⟩]
        simp [bind, Except.bind, pure, Except.pure, eq_comm]

theorem mapM_eq_ok {β : Type v} {f : α → Except ε β} {g : α → β} {l : List α}
    (h : ∀ a ∈ l, f a = .ok (g a)) : l.mapM f = .ok (l.map g) := by
  induction l with
  | nil => rfl
  | cons a rest ih =>
    obtain ⟨ha, hrest⟩ := List.forall_mem_cons.mp h
    rw [List.mapM_cons, ha, ih hrest]
    rfl

/-! ### Two computations side by side -/

/-- Either both computations go through, with related results, or the first fails and the second
fails with the same error under another name. -/
inductive Follows {τ : Type v} {ε' : Type w} (rename : ε → ε') (R : σ → τ → Prop) :
    Except ε σ → Except ε' τ → Prop
  | ok {s : σ} {t : τ} (h : R s t) : Follows rename R (.ok s) (.ok t)
  | error (e : ε) : Follows rename R (.error e) (.error (rename e))

namespace Follows

variable {τ : Type v} {ε' : Type w} {rename : ε → ε'}

theorem bind {σ' τ' : Type v} {R : σ → τ → Prop} {R' : σ' → τ' → Prop} {x : Except ε σ}
    {y : Except ε' τ} {f : σ → Except ε σ'} {g : τ → Except ε' τ'} (h : Follows rename R x y)
    (hfg : ∀ s t, R s t → Follows rename R' (f s) (g t)) :
    Follows rename R' (x >>= f) (y >>= g) := by
  cases h with
  | ok h => exact hfg _ _ h
  | error e => exact error e

theorem foldlM {R : List α → σ → τ → Prop} {g : τ → α → Except ε' τ} {l : List α}
    (step : ∀ a ∈ l, ∀ done s t, R done s t →
      Follows rename (R (done ++ [a])) (f s a) (g t a))
    (done : List α) {s : σ} {t : τ} (h : R done s t) :
    Follows rename (R (done ++ l)) (l.foldlM f s) (l.foldlM g t) := by
  induction l generalizing done s t with
  | nil => exact ok (by simpa using h)
  | cons a rest ih =>
    obtain ⟨ha, hrest⟩ := List.forall_mem_cons.mp step
    rw [List.foldlM_cons, List.foldlM_cons]
    apply (ha done s t h).bind
    intro s' t' h'
    simpa using ih hrest (done ++ [a]) h'

theorem mapError {ε'' : Type w} {R : σ → τ → Prop} {x : Except ε σ} {y : Except ε' τ}
    (wrap : ε → ε'') (rename : ε'' → ε') (h : Follows (fun e => rename (wrap e)) R x y) :
    Follows rename R (x.mapError wrap) y := by
  cases h with
  | ok h => exact ok h
  | error e => exact error (wrap e)

theorem map_right {τ' : Type v} {R : σ → τ → Prop} {R' : σ → τ' → Prop} {x : Except ε σ}
    {y : Except ε' τ} {g : τ → τ'} (h : Follows rename R x y) (hg : ∀ s t, R s t → R' s (g t)) :
    Follows rename R' x (y >>= fun t => pure (g t)) := by
  cases h with
  | ok h => exact ok (hg _ _ h)
  | error e => exact error e

theorem eq_mapError {x : Except ε σ} {y : Except ε' σ} (h : Follows rename (fun s t => t = s) x y) :
    y = x.mapError rename := by
  cases h with
  | ok h => rw [h]; rfl
  | error e => rfl

end Follows

end DrawnModels
