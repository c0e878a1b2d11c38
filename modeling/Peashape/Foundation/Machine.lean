import Mathlib.Data.List.Forall2
import Mathlib.Tactic.SplitIfs
import Mathlib.Tactic.TypeStar

/-!
# Labelled machines and their runs

A machine takes actions; a step on an action changes the state and leaves events
behind. This module gives the runs of a machine from a starting state, with the
actions taken and the events left, and the rules by which facts about one step
become facts about every run:

* `Run.invariant` — what holds at the start and is kept by every step holds at the
  end of every run. The invariant may speak of the events so far (the history), so
  conservation laws are invariants too.
* `Run.along` — a run all of whose steps meet a condition, as a run of the machine
  restricted to such steps.
* `Run.observed` — what an observer sees of a run, as a run of a smaller machine, whose
  actions are the visible ones. If that one is given by a function, two runs with the same
  visible actions look the same (`Run.unique`).
* `observeWith_eq_low` — unwinding: when an abstraction of the state is not touched by
  the silent actions and determines, with the visible input, what a visible action
  shows and what it becomes, the observations of a run are a function of the visible
  inputs alone, so that two runs with the same visible inputs look the same. This may
  depend on a condition that holds along the run (`Always`).
  `forall₂_observe`, `forall_mem_observe_iff` — what each visible action shows, along a
  whole run.

A machine given by a function is run by `exec`, and what `exec` computes is a run.
-/

namespace Peashape.Foundation

variable {σ α ε : Type*}

/-- The runs of the machine `step` from `s₀`: the actions taken, the events left, and
the state reached. The last step is outermost, as history invariants need. -/
inductive Run (step : σ → α → List ε → σ → Prop) (s₀ : σ) : List α → List ε → σ → Prop
  /-- Nothing done. -/
  | nil : Run step s₀ [] [] s₀
  /-- One more step. -/
  | snoc {as : List α} {tr : List ε} {s : σ} {a : α} {es : List ε} {s' : σ} :
      Run step s₀ as tr s → step s a es s' → Run step s₀ (as ++ [a]) (tr ++ es) s'

namespace Run

variable {step step' : σ → α → List ε → σ → Prop} {s₀ s₁ s₂ : σ} {as bs : List α} {tr tr' : List ε}

/-- One step is a run. -/
theorem single {a : α} (h : step s₀ a tr s₁) : Run step s₀ [a] tr s₁ := by
  have h0 : Run step s₀ [] [] s₀ := .nil
  simpa using h0.snoc h

/-- A run followed by a run. -/
theorem trans (h : Run step s₀ as tr s₁) (h' : Run step s₁ bs tr' s₂) :
    Run step s₀ (as ++ bs) (tr ++ tr') s₂ := by
  induction h' with
  | nil => simpa using h
  | snoc _ hs ih => simpa only [List.append_assoc] using ih.snoc hs

/-- A run whose first step is known. -/
theorem cons {a : α} {es : List ε} (h : step s₀ a es s₁) (h' : Run step s₁ as tr s₂) :
    Run step s₀ (a :: as) (es ++ tr) s₂ := by
  simpa using (single h).trans h'

/-- A run does nothing, or has a first step. -/
theorem uncons (h : Run step s₀ as tr s₂) : (as = [] ∧ tr = [] ∧ s₂ = s₀) ∨
    ∃ a bs es s₁ tr', as = a :: bs ∧ tr = es ++ tr' ∧ step s₀ a es s₁ ∧ Run step s₁ bs tr' s₂ := by
  induction h with
  | nil => exact .inl ⟨rfl, rfl, rfl⟩
  | @snoc _ _ _ a es s' _ hs ih =>
    rcases ih with ⟨rfl, rfl, rfl⟩ | ⟨b, bs, es₁, s₁, tr', rfl, rfl, hb, hrun⟩
    · exact .inr ⟨a, [], es, s', [], rfl, by simp, hs, .nil⟩
    · exact .inr ⟨b, bs ++ [a], es₁, s₁, tr' ++ es, rfl, List.append_assoc .., hb, hrun.snoc hs⟩

/-- What every step keeps, and holds after the history `tr`, holds after a run that goes on from there. -/
theorem invariant_after {I : List ε → σ → Prop} (h0 : I tr s₀)
    (hstep : ∀ {tr s a es s'}, I tr s → step s a es s' → I (tr ++ es) s')
    (h : Run step s₀ as tr' s₁) : I (tr ++ tr') s₁ := by
  induction h with
  | nil => rwa [List.append_nil]
  | snoc _ hs ih =>
    rw [← List.append_assoc]
    exact hstep ih hs

/-- **The invariant rule**: what holds at the start, with no events yet, and is kept by
every step holds of every run. -/
theorem invariant {I : List ε → σ → Prop} (h0 : I [] s₀)
    (hstep : ∀ {tr s a es s'}, I tr s → step s a es s' → I (tr ++ es) s')
    (h : Run step s₀ as tr s₁) : I tr s₁ :=
  h.invariant_after h0 hstep

/-- The invariant rule, for an invariant that needs another one at each step. -/
theorem invariant_of {I J : List ε → σ → Prop} (hJ : ∀ {as tr s}, Run step s₀ as tr s → J tr s)
    (h0 : I [] s₀) (hstep : ∀ {tr s a es s'}, J tr s → I tr s → step s a es s' → I (tr ++ es) s')
    (h : Run step s₀ as tr s₁) : I tr s₁ := by
  induction h with
  | nil => exact h0
  | snoc hr hs ih => exact hstep (hJ hr) ih hs

/-- Every step of one machine is a step of the other. -/
theorem mono (hle : ∀ {s a es s'}, step s a es s' → step' s a es s')
    (h : Run step s₀ as tr s₁) : Run step' s₀ as tr s₁ := by
  induction h with
  | nil => exact .nil
  | snoc _ hs ih => exact ih.snoc (hle hs)

end Run

/-- **A run of a machine, seen at one of its parts**: when every step is a run of the part, what
the part leaves behind is its own share of the history. The relation `R` says what else is
kept of the part's actions. -/
theorem Run.project {τ β δ : Type*} {step : σ → α → List ε → σ → Prop} {part : τ → β → List δ → τ → Prop}
    (π : σ → τ) (share : List ε → List δ) {R : List α → List β → List ε → Prop} (share_nil : share [] = [])
    (share_append : ∀ es es', share (es ++ es') = share es ++ share es') (R_nil : R [] [] [])
    (R_append : ∀ {as bs es as' bs' es'}, R as bs es → R as' bs' es' → R (as ++ as') (bs ++ bs') (es ++ es'))
    (hstep : ∀ {s a es s'}, step s a es s' → ∃ bs, Run part (π s) bs (share es) (π s') ∧ R [a] bs es)
    {s₀ s : σ} {as : List α} {tr : List ε} (h : Run step s₀ as tr s) :
    ∃ bs, Run part (π s₀) bs (share tr) (π s) ∧ R as bs tr := by
  induction h with
  | nil => exact ⟨[], by rw [share_nil]; exact .nil, R_nil⟩
  | snoc _ hs ih =>
    obtain ⟨bs, hrun, hR⟩ := ih
    obtain ⟨bs', hrun', hR'⟩ := hstep hs
    exact ⟨bs ++ bs', by rw [share_append]; exact hrun.trans hrun', R_append hR hR'⟩

/-- The machine `step`, restricted to the steps taken where `C` holds of the state and
the action. -/
def Along (step : σ → α → List ε → σ → Prop) (C : σ → α → Prop) : σ → α → List ε → σ → Prop :=
  fun s a es s' => step s a es s' ∧ C s a

/-- A run whose steps all meet a condition is a run. -/
theorem Run.of_along {step : σ → α → List ε → σ → Prop} {C : σ → α → Prop} {s₀ s : σ} {as : List α}
    {tr : List ε} (h : Run (Along step C) s₀ as tr s) : Run step s₀ as tr s :=
  h.mono fun h => h.1

/-- A run all of whose actions meet a condition. -/
theorem Run.along_of_forall {step : σ → α → List ε → σ → Prop} {P : α → Prop} {s₀ s : σ} {as : List α}
    {tr : List ε} (h : Run step s₀ as tr s) (hP : ∀ a ∈ as, P a) : Run (Along step fun _ a => P a) s₀ as tr s := by
  induction h with
  | nil => exact .nil
  | snoc _ hs ih =>
    obtain ⟨has, ha⟩ := List.forall_mem_append.mp hP
    exact (ih has).snoc ⟨hs, List.forall_mem_singleton.mp ha⟩

/-- A run whose steps all meet the condition, when every step of the run leaves events
that only such steps leave. -/
theorem Run.along {step : σ → α → List ε → σ → Prop} {C : σ → α → Prop} (good : List ε → Prop)
    (hgood : ∀ {tr es}, good (tr ++ es) → good tr ∧ good es) {s₀ : σ}
    (hC : ∀ {as tr s a es s'}, Run step s₀ as tr s → step s a es s' → good es → C s a)
    {as : List α} {tr : List ε} {s : σ}
    (h : Run step s₀ as tr s) (hg : good tr) : Run (Along step C) s₀ as tr s := by
  induction h with
  | nil => exact .nil
  | snoc hr hs ih =>
    obtain ⟨h1, h2⟩ := hgood hg
    exact (ih h1).snoc ⟨hs, hC hr hs h2⟩

/-- **What an observer sees of a run**: if the hidden actions show nothing, and leave alone what is seen
of the state, and the visible ones are, as far as they are seen, steps of another machine, it is a run
of that machine. -/
theorem Run.observed {τ δ : Type*} {step : σ → α → List ε → σ → Prop} {part : τ → α → List δ → τ → Prop}
    (π : σ → τ) (share : List ε → List δ) (visible : α → Bool) {J : List ε → σ → Prop} {s₀ s : σ} {as : List α}
    {tr : List ε} (share_nil : share [] = []) (share_append : ∀ es es', share (es ++ es') = share es ++ share es')
    (hJ : ∀ {as tr s}, Run step s₀ as tr s → J tr s)
    (hidden : ∀ {tr s a es s'}, J tr s → step s a es s' → visible a = false → share es = [] ∧ π s' = π s)
    (shown : ∀ {tr s a es s'}, J tr s → step s a es s' → visible a = true → part (π s) a (share es) (π s'))
    (h : Run step s₀ as tr s) : Run part (π s₀) (as.filter visible) (share tr) (π s) := by
  induction h with
  | nil => exact share_nil ▸ .nil
  | @snoc as tr s a es s' hr hs ih =>
    rw [List.filter_append, share_append]
    cases ha : visible a with
    | false =>
      obtain ⟨hes, hπ⟩ := hidden (hJ hr) hs ha
      rw [hes, hπ, List.append_nil, List.filter_singleton, ha]
      simpa using ih
    | true =>
      rw [List.filter_singleton, ha]
      exact ih.snoc (shown (hJ hr) hs ha)

/-! ### Machines given by a function -/

/-- The steps of a machine given by a function; `none` refuses the action. -/
def stepOf (f : σ → α → Option (List ε × σ)) : σ → α → List ε → σ → Prop :=
  fun s a es s' => f s a = some (es, s')

/-- They do the same on the same actions. -/
theorem Run.unique {f : σ → α → Option (List ε × σ)} {s₀ s s' : σ} {as : List α} {tr tr' : List ε}
    (h : Run (stepOf f) s₀ as tr s) (h' : Run (stepOf f) s₀ as tr' s') : tr = tr' ∧ s = s' := by
  induction h generalizing tr' s' with
  | nil =>
    generalize hbs : ([] : List α) = bs at h'
    cases h' with
    | nil => exact ⟨rfl, rfl⟩
    | snoc => simp at hbs
  | @snoc as tr s a es s₁ _ hs ih =>
    generalize hbs : as ++ [a] = bs at h'
    cases h' with
    | nil => simp at hbs
    | snoc hr' hs' =>
      obtain ⟨rfl, ha⟩ := List.append_inj' hbs rfl
      cases ha
      obtain ⟨rfl, rfl⟩ := ih hr'
      obtain ⟨rfl, rfl⟩ := Prod.mk.inj (Option.some.inj (hs.symm.trans hs'))
      exact ⟨rfl, rfl⟩

/-- Take the actions one after another. -/
def exec (f : σ → α → Option (List ε × σ)) : σ → List α → Option (List ε × σ)
  | s, [] => some ([], s)
  | s, a :: as =>
    match f s a with
    | none => none
    | some (es, s') =>
      match exec f s' as with
      | none => none
      | some (tr, s'') => some (es ++ tr, s'')

/-- What `exec` computes is a run. -/
theorem run_of_exec {f : σ → α → Option (List ε × σ)} :
    ∀ {as : List α} {s s' : σ} {tr : List ε}, exec f s as = some (tr, s') → Run (stepOf f) s as tr s' := by
  intro as
  induction as with
  | nil =>
    intro s s' tr h
    simp only [exec, Option.some.injEq, Prod.mk.injEq] at h
    obtain ⟨rfl, rfl⟩ := h
    exact .nil
  | cons a as ih =>
    intro s s' tr h
    simp only [exec] at h
    split at h
    · cases h
    · rename_i es s₁ hs
      split at h
      · cases h
      · rename_i tr' s₂ hr
        simp only [Option.some.injEq, Prod.mk.injEq] at h
        obtain ⟨rfl, rfl⟩ := h
        exact .cons hs (ih hr)

/-- What `exec` computes is a run, and what it finds at its end holds. -/
theorem exists_run_of_exec {f : σ → α → Option (List ε × σ)} {s : σ} {as : List α} {P : List ε → σ → Prop}
    [∀ tr s, Decidable (P tr s)] (h : ((exec f s as).any fun x => decide (P x.1 x.2)) = true) :
    ∃ tr s', Run (stepOf f) s as tr s' ∧ P tr s' := by
  obtain ⟨⟨tr, s'⟩, has, hP⟩ := (Option.any_eq_true _ _).mp h
  exact ⟨tr, s', run_of_exec has, of_decide_eq_true hP⟩

/-- What `exec` computes around an action that leaves nothing behind are two runs and its step, and
what it finds at their ends holds. -/
theorem exists_runs_of_exec {f : σ → α → Option (List ε × σ)} {s : σ} {as bs : List α} {a : α}
    {P : List ε → σ → List ε → σ → Prop} [∀ tr s tr' s', Decidable (P tr s tr' s')]
    (h : ((exec f s as).any fun x => (f x.2 a).any fun y => y.1.isEmpty &&
      (exec f y.2 bs).any fun z => decide (P x.1 x.2 z.1 z.2)) = true) :
    ∃ tr s₁ s₂ tr' s₃, Run (stepOf f) s as tr s₁ ∧ stepOf f s₁ a [] s₂ ∧ Run (stepOf f) s₂ bs tr' s₃ ∧
      P tr s₁ tr' s₃ := by
  obtain ⟨⟨tr, s₁⟩, has, hrest⟩ := (Option.any_eq_true _ _).mp h
  obtain ⟨⟨es, s₂⟩, ha, hrest⟩ := (Option.any_eq_true _ _).mp hrest
  obtain ⟨hes, hrest⟩ := Bool.and_eq_true_iff.mp hrest
  obtain rfl := List.isEmpty_iff.mp hes
  obtain ⟨⟨tr', s₃⟩, hbs, hP⟩ := (Option.any_eq_true _ _).mp hrest
  exact ⟨tr, s₁, s₂, tr', s₃, run_of_exec has, ha, run_of_exec hbs, of_decide_eq_true hP⟩

/-- What `exec` computes in two stages are two runs, and what it finds at their ends holds. -/
theorem runs_of_exec {f : σ → α → Option (List ε × σ)} {s : σ} {as bs : List α} {P : σ → List ε → σ → Prop}
    [∀ s₁ tr s₂, Decidable (P s₁ tr s₂)]
    (h : ((exec f s as).bind fun x => (exec f x.2 bs).map fun y => decide (P x.2 y.1 y.2)) = some true) :
    ∃ tr₁ s₁ tr₂ s₂, Run (stepOf f) s as tr₁ s₁ ∧ Run (stepOf f) s₁ bs tr₂ s₂ ∧ P s₁ tr₂ s₂ := by
  obtain ⟨⟨tr₁, s₁⟩, has, hrest⟩ := Option.bind_eq_some_iff.mp h
  obtain ⟨⟨tr₂, s₂⟩, hbs, hP⟩ := Option.map_eq_some_iff.mp hrest
  exact ⟨tr₁, s₁, tr₂, s₂, run_of_exec has, run_of_exec hbs, of_decide_eq_true hP⟩

/-- A machine that also refuses the actions that do not meet a condition. -/
def guarded (f : σ → α → Option (List ε × σ)) (C : σ → α → Prop) [∀ s a, Decidable (C s a)] :
    σ → α → Option (List ε × σ) :=
  fun s a => if C s a then f s a else none

/-- What it computes is a run whose steps all meet the condition. -/
theorem run_along_of_exec {f : σ → α → Option (List ε × σ)} {C : σ → α → Prop} [∀ s a, Decidable (C s a)]
    {s s' : σ} {as : List α} {tr : List ε} (h : exec (guarded f C) s as = some (tr, s')) :
    Run (Along (stepOf f) C) s as tr s' := by
  refine (run_of_exec h).mono fun {s a es s'} hstep => ?_
  simp only [stepOf, guarded] at hstep
  split_ifs at hstep with hC
  exact ⟨hstep, hC⟩

/-! ### Unwinding -/

section Unwinding

variable {ι ω L : Type*}

/-- The observations a total machine makes: one for each visible action of the list. -/
def observe (f : σ → α → List ε × σ) (vis : α → Option ι) (obs : List ε → ω) : σ → List α → List ω
  | _, [] => []
  | s, a :: as =>
    match vis a with
    | none => observe f vis obs (f s a).2 as
    | some _ => obs (f s a).1 :: observe f vis obs (f s a).2 as

/-- To look at less of each visible action is to look at less of the observations. -/
theorem map_observe {ω' : Type*} (f : σ → α → List ε × σ) (vis : α → Option ι) (obs : List ε → ω)
    (proj : ω → ω') : ∀ (as : List α) (s : σ),
      (observe f vis obs s as).map proj = observe f vis (fun es => proj (obs es)) s as
  | [], _ => rfl
  | a :: as, s => by
    cases hv : vis a with
    | none => simp only [observe, hv, map_observe f vis obs proj as]
    | some i => simp only [observe, hv, List.map_cons, map_observe f vis obs proj as]

/-- What every visible action shows, in states that keep an invariant, all of them show. -/
theorem forall₂_observe {f : σ → α → List ε × σ} {vis : α → Option ι} {obs : List ε → ω}
    {I : σ → Prop} {R : ι → ω → Prop} (hI : ∀ {s a}, I s → I (f s a).2)
    (visible : ∀ {s a i}, I s → vis a = some i → R i (obs (f s a).1)) :
    ∀ {as : List α} {s : σ}, I s → List.Forall₂ R (as.filterMap vis) (observe f vis obs s as) := by
  intro as
  induction as with
  | nil => intro s _; exact .nil
  | cons a as ih =>
    intro s hs
    cases hv : vis a with
    | none =>
      simp only [observe, hv, List.filterMap_cons]
      exact ih (hI hs)
    | some i =>
      simp only [observe, hv, List.filterMap_cons]
      exact .cons (visible hs hv) (ih (hI hs))

/-! #### Observing the state too -/

/-- The observations of a total machine when one sees, after each visible action, something
of the state too. -/
def observeWith (f : σ → α → List ε × σ) (vis : α → Option ι) (obs : List ε → σ → ω) : σ → List α → List ω
  | _, [] => []
  | s, a :: as =>
    match vis a with
    | none => observeWith f vis obs (f s a).2 as
    | some _ => obs (f s a).1 (f s a).2 :: observeWith f vis obs (f s a).2 as

/-- To see the events alone. -/
theorem observe_eq_observeWith (f : σ → α → List ε × σ) (vis : α → Option ι) (obs : List ε → ω) :
    ∀ (as : List α) (s : σ), observe f vis obs s as = observeWith f vis (fun es _ => obs es) s as
  | [], _ => rfl
  | a :: as, s => by
    cases hv : vis a with
    | none => simp only [observe, observeWith, hv, observe_eq_observeWith f vis obs as]
    | some i => simp only [observe, observeWith, hv, observe_eq_observeWith f vis obs as]

/-- A condition that holds of every action taken, in the state in which it is. -/
def Always (f : σ → α → List ε × σ) (C : σ → α → Prop) : σ → List α → Prop
  | _, [] => True
  | s, a :: as => C s a ∧ Always f C (f s a).2 as

instance Always.decidable (f : σ → α → List ε × σ) (C : σ → α → Prop) [∀ s a, Decidable (C s a)] :
    ∀ (s : σ) (as : List α), Decidable (Always f C s as)
  | _, [] => inferInstanceAs (Decidable True)
  | s, a :: as =>
    have := Always.decidable f C (f s a).2 as
    inferInstanceAs (Decidable (C s a ∧ Always f C (f s a).2 as))

theorem always_true (f : σ → α → List ε × σ) : ∀ (as : List α) (s : σ), Always f (fun _ _ => True) s as
  | [], _ => trivial
  | _ :: as, _ => ⟨trivial, always_true f as _⟩

/-- A condition on the actions alone holds always if it holds of each. -/
theorem always_of_forall_mem (f : σ → α → List ε × σ) {C : α → Prop} : ∀ {as : List α} (s : σ),
    (∀ a ∈ as, C a) → Always f (fun _ a => C a) s as
  | [], _, _ => trivial
  | a :: _, _, h => ⟨h a List.mem_cons_self, always_of_forall_mem f _ fun b hb => h b (List.mem_cons_of_mem a hb)⟩

/-- Two conditions that each hold always. -/
theorem Always.and {f : σ → α → List ε × σ} {C D : σ → α → Prop} : ∀ {as : List α} {s : σ},
    Always f C s as → Always f D s as → Always f (fun s a => C s a ∧ D s a) s as
  | [], _, _, _ => trivial
  | _ :: _, _, ⟨hc, hcs⟩, ⟨hd, hds⟩ => ⟨⟨hc, hd⟩, hcs.and hds⟩

/-- Conditions that are equivalent. -/
theorem always_congr {f : σ → α → List ε × σ} {C D : σ → α → Prop} (h : ∀ {s a}, C s a ↔ D s a) :
    ∀ {as : List α} {s : σ}, Always f C s as ↔ Always f D s as
  | [], _ => Iff.rfl
  | _ :: _, _ => and_congr h (always_congr h)

/-- Every observation is as it should be exactly if the condition always holds, when the
condition says so of each visible action and nothing of the silent ones. -/
theorem forall_mem_observe_iff {f : σ → α → List ε × σ} {vis : α → Option ι} {obs : List ε → ω}
    {C : σ → α → Prop} {P : ω → Prop} (silent : ∀ {s a}, vis a = none → C s a)
    (visible : ∀ {s a i}, vis a = some i → (P (obs (f s a).1) ↔ C s a)) :
    ∀ {as : List α} {s : σ}, (∀ o ∈ observe f vis obs s as, P o) ↔ Always f C s as := by
  intro as
  induction as with
  | nil => exact fun {s} => iff_of_true (List.forall_mem_nil _) trivial
  | cons a as ih =>
    intro s
    cases hv : vis a with
    | none =>
      simp only [observe, hv, Always]
      exact ih.trans (and_iff_right (silent hv)).symm
    | some i =>
      simp only [observe, hv, Always, List.forall_mem_cons]
      exact and_congr (visible hv) ih

/-- The observations of the low machine on the visible inputs alone. -/
def observeLow (g : L → ι → ω × L) : L → List ι → List ω
  | _, [] => []
  | l, i :: is => (g l i).1 :: observeLow g (g l i).2 is

/-- **Unwinding.** Where the condition holds, the silent actions do not touch the
abstraction `low`, and a visible one shows, and makes of it, what the low machine does. Then
the observations of a run along which the condition holds are those of the low machine on
its visible inputs. -/
theorem observeWith_eq_low {f : σ → α → List ε × σ} {vis : α → Option ι} {obs : List ε → σ → ω}
    (low : σ → L) {g : L → ι → ω × L} {I : σ → Prop} {C : σ → α → Prop}
    (hI : ∀ {s a}, I s → C s a → I (f s a).2)
    (silent : ∀ {s a}, I s → C s a → vis a = none → low (f s a).2 = low s)
    (visible : ∀ {s a i}, I s → C s a → vis a = some i →
      obs (f s a).1 (f s a).2 = (g (low s) i).1 ∧ low (f s a).2 = (g (low s) i).2) :
    ∀ {as : List α} {s : σ}, I s → Always f C s as →
      observeWith f vis obs s as = observeLow g (low s) (as.filterMap vis) := by
  intro as
  induction as with
  | nil => intro s _ _; rfl
  | cons a as ih =>
    rintro s hs ⟨ha, has⟩
    have hrest := ih (hI hs ha) has
    cases hv : vis a with
    | none => simp only [observeWith, hv, List.filterMap_cons, hrest, silent hs ha hv]
    | some i =>
      obtain ⟨h1, h2⟩ := visible hs ha hv
      simp only [observeWith, hv, List.filterMap_cons, observeLow, hrest, h1, h2]

/-- Unwinding, for a machine whose actions need no condition and an observer of the events
alone. -/
theorem observe_eq_low {f : σ → α → List ε × σ} {vis : α → Option ι} {obs : List ε → ω}
    (low : σ → L) {g : L → ι → ω × L} {I : σ → Prop}
    (hI : ∀ {s a}, I s → I (f s a).2)
    (silent : ∀ {s a}, I s → vis a = none → low (f s a).2 = low s)
    (visible : ∀ {s a i}, I s → vis a = some i →
      obs (f s a).1 = (g (low s) i).1 ∧ low (f s a).2 = (g (low s) i).2) :
    ∀ {as : List α} {s : σ}, I s → observe f vis obs s as = observeLow g (low s) (as.filterMap vis) := by
  intro as s hs
  rw [observe_eq_observeWith]
  exact observeWith_eq_low low (C := fun _ _ => True) (fun hs _ => hI hs) (fun hs _ => silent hs)
    (fun hs _ => visible hs) hs (always_true f as s)

end Unwinding

end Peashape.Foundation
