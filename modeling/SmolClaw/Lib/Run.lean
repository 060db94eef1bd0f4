/-
  Runs of a deterministic machine, and the induction rules every safety proof here goes through.

  A machine is a step function on a state.  Two flavours occur:

  1. **Total machines** `step : S → A → S` — every action has an effect, refusals included.  `run`
     folds a list of actions; `EachStep G` says that every action of a run was taken in a state in
     which the guard `G` allows it.  `run_invariant` is the rule: what one guarded step preserves, a
     run of guarded steps preserves.

  2. **Fallible machines** `step : S → A → Except E S` — an action may be refused.  `runOk` folds the
     actions and stops at the first refusal; `runOk_invariant` is its rule.

  A machine may also keep a history, a list that grows at its end: `Each G` says that every entry is one
  that `G` allows behind the earlier ones, and `each_concat` is its rule.
-/
import Mathlib.Data.List.Basic

namespace Lib.Run

variable {S A E : Type*}

/-! ## Total machines -/

/-- The state after the actions `as`, taken one after the other from `s`. -/
def run (step : S → A → S) (s : S) (as : List A) : S := as.foldl step s

/-- `EachStep step G s as` — every action of the run from `s` is taken in a state where `G` allows
    it. -/
def EachStep (step : S → A → S) (G : S → A → Prop) : S → List A → Prop
  | _, [] => True
  | s, a :: as => G s a ∧ EachStep step G (step s a) as

theorem run_concat (step : S → A → S) (s : S) (as : List A) (a : A) :
    run step s (as ++ [a]) = step (run step s as) a := by
  rw [run, List.foldl_append]
  rfl

/-- **The invariant rule**: what a guarded step preserves, a run of guarded steps preserves. -/
theorem run_invariant {step : S → A → S} {G : S → A → Prop} {I : S → Prop}
    (hstep : ∀ s a, I s → G s a → I (step s a)) :
    ∀ (as : List A) (s : S), I s → EachStep step G s as → I (run step s as) := by
  intro as
  induction as with
  | nil => intro s hs _; exact hs
  | cons a as ih => intro s hs hG; exact ih (step s a) (hstep s a hs hG.1) hG.2

/-- The rule without a guard: what every step preserves, every run preserves. -/
theorem run_preserves {step : S → A → S} {I : S → Prop} (hstep : ∀ s a, I s → I (step s a)) :
    ∀ (as : List A) (s : S), I s → I (run step s as) := by
  intro as
  induction as with
  | nil => intro s hs; exact hs
  | cons a as ih => intro s hs; exact ih (step s a) (hstep s a hs)

/-- A guard that looks at the action only, met by every action. -/
theorem eachStep_of_forall {step : S → A → S} {G : A → Prop} :
    ∀ {as : List A} {s : S}, (∀ a ∈ as, G a) → EachStep step (fun _ a => G a) s as := by
  intro as
  induction as with
  | nil => intro s _; exact trivial
  | cons a as ih =>
    intro s h
    exact ⟨h a List.mem_cons_self, ih fun b hb => h b (List.mem_cons_of_mem a hb)⟩

/-- Along an invariant, two guards that agree state by state agree on whole runs. -/
theorem eachStep_congr (step : S → A → S) {G G' : S → A → Prop} {I : S → Prop}
    (hstep : ∀ s a, I s → I (step s a)) (h : ∀ s a, I s → (G s a ↔ G' s a)) :
    ∀ (as : List A) (s : S), I s → (EachStep step G s as ↔ EachStep step G' s as) := by
  intro as
  induction as with
  | nil => intro s _; exact Iff.rfl
  | cons a as ih => intro s hs; exact and_congr (h s a hs) (ih (step s a) (hstep s a hs))

/-- Along an invariant that guarded steps keep, a guard that implies another one state by state does so
    on whole runs. -/
theorem EachStep.imp {step : S → A → S} {G G' : S → A → Prop} {I : S → Prop}
    (hstep : ∀ s a, I s → G s a → I (step s a)) (h : ∀ s a, I s → G s a → G' s a) :
    ∀ {as : List A} {s : S}, I s → EachStep step G s as → EachStep step G' s as := by
  intro as
  induction as with
  | nil => intro s _ _; exact trivial
  | cons a as ih => intro s hs hG; exact ⟨h s a hs hG.1, ih (hstep s a hs hG.1) hG.2⟩

/-- A guard that holds along a run holds along every initial part of it. -/
theorem EachStep.of_initial {step : S → A → S} {G : S → A → Prop} :
    ∀ {as bs : List A} {s : S}, as <+: bs → EachStep step G s bs → EachStep step G s as := by
  intro as
  induction as with
  | nil => intro bs s _ _; exact trivial
  | cons a as ih =>
    intro bs s hp h
    obtain ⟨rest, rfl⟩ := hp
    exact ⟨h.1, ih ⟨rest, rfl⟩ h.2⟩

/-- A run in two parts. -/
theorem eachStep_append {step : S → A → S} {G : S → A → Prop} {bs : List A} :
    ∀ {as : List A} {s : S},
      EachStep step G s (as ++ bs) ↔ EachStep step G s as ∧ EachStep step G (run step s as) bs := by
  intro as
  induction as with
  | nil => exact (true_and _).symm.to_iff
  | cons a as ih => exact (and_congr_right fun _ => ih).trans and_assoc.symm

/-- A guard that holds along a run holds where its last action is taken. -/
theorem EachStep.last {step : S → A → S} {G : S → A → Prop} {a : A} :
    ∀ {as : List A} {s : S}, EachStep step G s (as ++ [a]) → G (run step s as) a := by
  intro as
  induction as with
  | nil => intro s h; exact h.1
  | cons b as ih => intro s h; exact ih h.2

/-- A guard that holds where the last action of every initial part is taken holds along the run. -/
theorem eachStep_of_last {step : S → A → S} {G : S → A → Prop} :
    ∀ {as : List A} {s : S}, (∀ before a, before ++ [a] <+: as → G (run step s before) a) →
      EachStep step G s as := by
  intro as
  induction as with
  | nil => intro s _; exact trivial
  | cons a as ih =>
    intro s h
    refine ⟨h [] a ⟨as, rfl⟩, ih fun before b hbefore => ?_⟩
    exact h (a :: before) b (List.cons_prefix_cons.mpr ⟨rfl, hbefore⟩)

/-- **When a run stays safe**: if a legal step from a state with the invariant leads to a safe state only when
    the guard allows it, and then to the invariant, which says that a state is safe, a legal run passes through
    safe states only exactly when the guard allows every step. -/
theorem safe_iff_eachStep_of_legal {step : S → A → S} {L G : S → A → Prop} {I P : S → Prop}
    (hsafe : ∀ s, I s → P s) (hI : ∀ s a, I s → L s a → G s a → I (step s a))
    (h : ∀ s a, I s → L s a → P (step s a) → G s a) :
    ∀ (as : List A) (s : S), I s → EachStep step L s as →
      ((∀ before, before <+: as → P (run step s before)) ↔ EachStep step G s as) := by
  intro as
  induction as with
  | nil =>
    intro s hs _
    refine ⟨fun _ => trivial, fun _ before hbefore => ?_⟩
    rw [List.prefix_nil.mp hbefore]
    exact hsafe s hs
  | cons a as ih =>
    intro s hs hL
    constructor
    · intro hrun
      have hG : G s a := h s a hs hL.1 (hrun [a] ⟨as, rfl⟩)
      refine ⟨hG, (ih (step s a) (hI s a hs hL.1 hG) hL.2).mp fun before hbefore => ?_⟩
      exact hrun (a :: before) (List.cons_prefix_cons.mpr ⟨rfl, hbefore⟩)
    · rintro ⟨hG, hrest⟩ before hbefore
      cases before with
      | nil => exact hsafe s hs
      | cons b before =>
        obtain ⟨rfl, htail⟩ := List.cons_prefix_cons.mp hbefore
        exact (ih (step s b) (hI s b hs hL.1 hG) hL.2).mpr hrest before htail

/-- The same when every step is legal. -/
theorem safe_iff_eachStep_of_guarded {step : S → A → S} {G : S → A → Prop} {I P : S → Prop}
    (hsafe : ∀ s, I s → P s) (hI : ∀ s a, I s → G s a → I (step s a))
    (h : ∀ s a, I s → P (step s a) → G s a) (as : List A) (s : S) (hs : I s) :
    (∀ before, before <+: as → P (run step s before)) ↔ EachStep step G s as :=
  safe_iff_eachStep_of_legal (L := fun _ _ => True) hsafe (fun s a hs _ => hI s a hs)
    (fun s a hs _ => h s a hs) as s hs (eachStep_of_forall fun _ _ => trivial)

/-- The same for an invariant that every step keeps. -/
theorem safe_iff_eachStep {step : S → A → S} {G : S → A → Prop} {I P : S → Prop}
    (hI : ∀ s a, I s → I (step s a)) (h : ∀ s a, I s → P s → (P (step s a) ↔ G s a)) (as : List A) (s : S)
    (hs : I s) (hP : P s) : (∀ before, before <+: as → P (run step s before)) ↔ EachStep step G s as :=
  safe_iff_eachStep_of_guarded (I := fun s => I s ∧ P s) (fun _ hs => hs.2)
    (fun s a hs hG => ⟨hI s a hs.1, (h s a hs.1 hs.2).mpr hG⟩) (fun s a hs => (h s a hs.1 hs.2).mp) as s ⟨hs, hP⟩

/-- A machine that carries extra bookkeeping on top of another one takes the same guarded steps: `π`
    forgets the bookkeeping. -/
theorem eachStep_proj {T : Type*} {step : S → A → S} {step' : T → A → T} {G : S → A → Prop}
    {π : T → S} (hπ : ∀ t a, π (step' t a) = step (π t) a) :
    ∀ (as : List A) (t : T),
      EachStep step' (fun t a => G (π t) a) t as ↔ EachStep step G (π t) as := by
  intro as
  induction as with
  | nil => intro t; exact Iff.rfl
  | cons a as ih =>
    intro t
    refine and_congr Iff.rfl ?_
    rw [← hπ t a]
    exact ih (step' t a)

/-- **Two machines in step**: related states stay related as long as the guards allow the actions, and in
    related states the guards allow the same ones. -/
theorem eachStep_sim {T : Type*} {step : S → A → S} {step' : T → A → T} {G : S → A → Prop}
    {G' : T → A → Prop} {R : S → T → Prop} (hG : ∀ s t a, R s t → (G s a ↔ G' t a))
    (hR : ∀ s t a, R s t → G s a → R (step s a) (step' t a)) :
    ∀ (as : List A) (s : S) (t : T), R s t → (EachStep step G s as ↔ EachStep step' G' t as) ∧
      (EachStep step G s as → R (run step s as) (run step' t as)) := by
  intro as
  induction as with
  | nil => intro s t h; exact ⟨Iff.rfl, fun _ => h⟩
  | cons a as ih =>
    intro s t h
    refine ⟨and_congr_right_iff.mpr ?_ |>.trans (and_congr_left_iff.mpr fun _ => hG s t a h), ?_⟩
    · intro ha
      exact (ih _ _ (hR s t a h ha)).1
    · intro hsteps
      exact (ih _ _ (hR s t a h hsteps.1)).2 hsteps.2

/-! ## Fallible machines -/

/-- The state after the actions `as`, or the first refusal. -/
def runOk (step : S → A → Except E S) : S → List A → Except E S
  | s, [] => .ok s
  | s, a :: as =>
      match step s a with
      | .ok s' => runOk step s' as
      | .error e => .error e

/-- A successful run splits off its first action. -/
theorem runOk_cons_ok {step : S → A → Except E S} {s t : S} {a : A} {as : List A}
    (h : runOk step s (a :: as) = .ok t) : ∃ s', step s a = .ok s' ∧ runOk step s' as = .ok t := by
  cases hs : step s a with
  | error e => simp [runOk, hs] at h
  | ok s' => exact ⟨s', rfl, by simpa [runOk, hs] using h⟩

/-- A successful run splits where its actions do. -/
theorem runOk_append_ok {step : S → A → Except E S} {bs : List A} :
    ∀ {as : List A} {s t : S}, runOk step s (as ++ bs) = .ok t →
      ∃ m, runOk step s as = .ok m ∧ runOk step m bs = .ok t := by
  intro as
  induction as with
  | nil => intro s t h; exact ⟨s, rfl, h⟩
  | cons a as ih =>
    intro s t h
    obtain ⟨s', ha, hrest⟩ := runOk_cons_ok h
    obtain ⟨m, hm, ht⟩ := ih hrest
    exact ⟨m, by rw [runOk, ha]; exact hm, ht⟩

/-- **The invariant rule for fallible machines**: what a successful step preserves, a successful run
    preserves. -/
theorem runOk_invariant {step : S → A → Except E S} {I : S → Prop}
    (hstep : ∀ s a s', I s → step s a = .ok s' → I s') :
    ∀ (as : List A) (s t : S), I s → runOk step s as = .ok t → I t := by
  intro as
  induction as with
  | nil => intro s t hs h; cases h; exact hs
  | cons a as ih =>
    intro s t hs h
    obtain ⟨s', ha, hrest⟩ := runOk_cons_ok h
    exact ih s' t (hstep s a s' hs ha) hrest

/-- The same rule when only the actions of the run are known to preserve the invariant. -/
theorem runOk_invariant_of_mem {step : S → A → Except E S} {I : S → Prop} :
    ∀ {as : List A} {s t : S}, (∀ a ∈ as, ∀ s s', I s → step s a = .ok s' → I s') → I s →
      runOk step s as = .ok t → I t := by
  intro as
  induction as with
  | nil => intro s t _ hs h; cases h; exact hs
  | cons a as ih =>
    intro s t hstep hs h
    obtain ⟨s', ha, hrest⟩ := runOk_cons_ok h
    exact ih (fun b hb => hstep b (List.mem_cons_of_mem a hb))
      (hstep a List.mem_cons_self s s' hs ha) hrest

/-- A run all of whose actions succeed, each with the effect `next` says. -/
theorem runOk_map {B : Type*} {step : S → A → Except E S} {f : B → A} {next : S → B → S} :
    ∀ {bs : List B} {s : S}, (∀ b ∈ bs, ∀ s, step s (f b) = .ok (next s b)) →
      runOk step s (bs.map f) = .ok (run next s bs) := by
  intro bs
  induction bs with
  | nil => intro s _; rfl
  | cons b bs ih =>
    intro s h
    rw [List.map_cons, runOk, h b List.mem_cons_self s]
    exact ih fun c hc => h c (List.mem_cons_of_mem b hc)

example : run (fun n a => n + a) 0 [1, 2] = 3 := by decide +kernel

end Lib.Run

namespace Lib.History

variable {A : Type*} {G G' : List A → A → Prop}

/-- Every entry is allowed behind the entries before it. -/
def Each (G : List A → A → Prop) (as : List A) : Prop := ∀ before a, before ++ [a] <+: as → G before a

theorem each_nil : Each G ([] : List A) := by
  intro before a h
  exact absurd (List.prefix_nil.mp h) (List.append_ne_nil_of_right_ne_nil _ (List.cons_ne_nil _ _))

/-- **One more entry.** -/
theorem each_concat {as : List A} {a : A} : Each G (as ++ [a]) ↔ Each G as ∧ G as a := by
  constructor
  · intro h
    exact ⟨fun before b hb => h before b (hb.trans (List.prefix_append _ _)), h as a List.prefix_rfl⟩
  · rintro ⟨h, ha⟩ before b hb
    rcases List.prefix_concat_iff.mp hb with heq | hold
    · obtain ⟨rfl, hlast⟩ := List.append_inj' heq rfl
      obtain rfl := List.singleton_inj.mp hlast
      exact ha
    · exact h before b hold

end Lib.History
