import ActionFlow.Proofs.Compiler.Ledger
import ActionFlow.Proofs.Lowering.Steadiness

/-!
# Compilations do not influence each other

In a store that refuses nothing and has no transaction open, what a compilation gives back is
decided by lowering and scheduling alone (`Compiler.compile_result`), and the number it is given
shows in the activity record only (`Setting.map_unnumbered_result`). Calls leave such a store as
calm as it was and the setting as it is (`Compiler.run_calm`). So whatever two compilers of one
setting have done before, and whatever their stores hold, they give back the same for the same
definition (`compile_independent`), and a batch in another order gives back the same activities in
that order.
-/

namespace ActionFlow

/-- The compiled activity without its number. -/
def CompiledActivity.unnumbered (x : CompiledActivity) : CompiledActivity :=
  { x with activity := { x.activity with anum := "" } }

theorem CompiledActivity.eq_of_unnumbered {x y : CompiledActivity}
    (h : y.unnumbered = x.unnumbered) : y.graph = x.graph ∧ y.schedule = x.schedule ∧
      y.activity = { x.activity with anum := y.activity.anum } := by
  obtain ⟨⟨anum, _⟩, _⟩ := x
  obtain ⟨⟨anum', _⟩, _⟩ := y
  cases h
  exact ⟨rfl, rfl, rfl⟩

namespace Setting

/-- What lowering and scheduling an activity give, whatever happens to the store. -/
def result (s : Setting) (anum path : String) (a : ActivityDefinition) :
    Except ActivityError CompiledActivity :=
  match s.lower anum path a with
  | (.error e, d) => .error ⟨path, d.fragment, e⟩
  | (.ok (), d) =>
    match d.graph.schedule with
    | .error e => .error ⟨d.activity.path, none, .scheduling e⟩
    | .ok schedule => .ok ⟨d.activity, d.graph, schedule⟩

/-- The number shows in the activity record and nowhere else. -/
theorem map_unnumbered_result (s : Setting) (anum anum' path : String) (a : ActivityDefinition) :
    (s.result anum' path a).map (·.unnumbered) = (s.result anum path a).map (·.unnumbered) := by
  obtain ⟨journal, hlower⟩ := s.lower_renumbered anum anum' path a
  unfold result
  rw [hlower]
  rcases s.lower anum path a with ⟨outcome, d⟩
  cases outcome with
  | error e => rfl
  | ok _ =>
    show Except.map _ (match d.graph.schedule with | .error e => _ | .ok schedule => _) = _
    dsimp only
    cases d.graph.schedule with
    | error e => rfl
    | ok schedule => rfl

end Setting

namespace Compiler

variable {c c₁ c₂ : Compiler} {a : ActivityDefinition}

/-! ## One compilation -/

theorem attempt_result (hc : c.store.Calm) (anum : String) (a : ActivityDefinition) :
    (c.attempt anum a).1 = c.setting.result anum (c.pathOf a) a := by
  unfold Setting.result
  rcases hlower : c.setting.lower anum (c.pathOf a) a with ⟨outcome, d⟩
  obtain ⟨store, hreplay, hstore, -⟩ := TracedStore.replay_calm hc (c.pathOf a) d.journal
  cases outcome with
  | error e => rw [attempt_of_lower_error hlower hreplay]
  | ok _ =>
    rw [attempt_of_lower_ok hlower hreplay]
    unfold finish
    dsimp only
    cases d.graph.schedule with
    | error e => rfl
    | ok schedule =>
      obtain ⟨final, hcommit, -, -⟩ :=
        TracedStore.commit_calm hstore (scheduleTransaction d.activity.anum d.graph schedule)
      dsimp only
      rw [hcommit]

/-- In a calm store the domain, lowering and scheduling decide what a compilation gives back. -/
theorem compile_result (hc : c.store.Calm) (a : ActivityDefinition) :
    (c.compile a).1 =
      match c.domain.validate with
      | .error e => .error ⟨c.pathOf a, none, .model e⟩
      | .ok () => c.setting.result c.nextAnum (c.pathOf a) a := by
  unfold compile
  cases c.domain.validate with
  | error e => rfl
  | ok _ =>
    dsimp only
    rw [← attempt_result hc]
    rcases c.attempt c.nextAnum a with ⟨outcome, store⟩
    cases outcome with
    | error e => rfl
    | ok compiled => rfl

/-- Two compilers of one setting give back the same, except for the number. -/
theorem map_unnumbered_compile (hsetting : c₂.setting = c₁.setting) (hc₁ : c₁.store.Calm)
    (hc₂ : c₂.store.Calm) (a : ActivityDefinition) :
    (c₂.compile a).1.map (·.unnumbered) = (c₁.compile a).1.map (·.unnumbered) := by
  rw [compile_result hc₁, compile_result hc₂]
  unfold pathOf domain
  rw [hsetting]
  cases c₁.setting.domain.validate with
  | error e => rfl
  | ok _ => exact c₁.setting.map_unnumbered_result _ _ _ a

/-! ## Histories -/

/-- The setting is the same, and the store is still calm. -/
structure Continues (c c' : Compiler) : Prop where
  setting : c'.setting = c.setting
  calm : c'.store.Calm

theorem Continues.trans {c' c'' : Compiler} (h : c.Continues c') (h' : c'.Continues c'') :
    c.Continues c'' := ⟨h'.setting.trans h.setting, h'.calm⟩

theorem compile_continues (hc : c.store.Calm) (a : ActivityDefinition) :
    c.Continues (c.compile a).2 := by
  unfold compile
  cases c.domain.validate with
  | error e => exact ⟨rfl, hc⟩
  | ok _ =>
    dsimp only
    rcases attempt_calm hc c.nextAnum a with
      ⟨compiled, store, hattempt, hstore, -, -⟩ | ⟨e, store, hattempt, hstore, -⟩
    · rw [hattempt]
      exact ⟨rfl, hstore⟩
    · rw [hattempt]
      exact ⟨rfl, hstore.forget _⟩

theorem forgetAll_continues (hc : c.store.Calm) (done : List CompiledActivity) :
    c.Continues (c.forgetAll done) := by
  refine ⟨rfl, ?_⟩
  unfold forgetAll
  dsimp only
  induction done generalizing c with
  | nil => exact hc
  | cons x rest ih => exact ih (c := { c with store := c.store.forget x.activity.anum }) (hc.forget _)

theorem compileFrom_continues (hc : c.store.Calm) (done : List CompiledActivity)
    (activities : List ActivityDefinition) : c.Continues (c.compileFrom done activities).2 := by
  induction activities generalizing c done with
  | nil => exact ⟨rfl, hc⟩
  | cons a rest ih =>
    have hnext := compile_continues hc a
    unfold compileFrom
    rcases hcompile : c.compile a with ⟨outcome, c'⟩
    rw [hcompile] at hnext
    cases outcome with
    | error e => exact hnext.trans (forgetAll_continues hnext.calm done)
    | ok compiled => exact hnext.trans (ih hnext.calm _)

theorem answer_continues (hc : c.store.Calm) (call : CompileCall) :
    c.Continues (c.answer call).2 := by
  cases call with
  | one a =>
    have hnext := compile_continues hc a
    unfold answer
    dsimp only
    rcases hcompile : c.compile a with ⟨outcome, c'⟩
    rw [hcompile] at hnext
    cases outcome with
    | error e => exact hnext
    | ok compiled => exact hnext
  | all activities => exact compileFrom_continues hc [] activities

/-- **A history** of calls, whether they succeed or fail, changes neither the setting nor the calm of
the store. -/
theorem run_continues (hc : c.store.Calm) (calls : List CompileCall) :
    c.Continues (c.run calls).2 := by
  induction calls generalizing c with
  | nil => exact ⟨rfl, hc⟩
  | cons call rest ih =>
    have hnext := answer_continues hc call
    exact hnext.trans (ih hnext.calm)

/-! ## Batches -/

/-- A batch whose activities all compile gives them back in order, each as it is without the other
ones. -/
theorem compileFrom_ok (hc : c.store.Calm) {f : ActivityDefinition → CompiledActivity}
    (done : List CompiledActivity) {activities : List ActivityDefinition}
    (h : ∀ a ∈ activities, (c.compile a).1.map (·.unnumbered) = .ok (f a)) :
    ∃ results, (c.compileFrom done activities).1 = .ok (done ++ results) ∧
      results.map (·.unnumbered) = activities.map f := by
  induction activities generalizing c done with
  | nil => exact ⟨[], by rw [List.append_nil]; rfl, rfl⟩
  | cons a rest ih =>
    obtain ⟨ha, hrest⟩ := List.forall_mem_cons.1 h
    have hnext := compile_continues hc a
    unfold compileFrom
    rcases hcompile : c.compile a with ⟨outcome, c'⟩
    rw [hcompile] at ha hnext
    cases outcome with
    | error e => cases ha
    | ok compiled =>
      obtain ⟨results, hresults, hmap⟩ := ih hnext.calm (done ++ [compiled]) fun b hb => by
        rw [map_unnumbered_compile hnext.setting hc hnext.calm, hrest b hb]
      refine ⟨compiled :: results, ?_, ?_⟩
      · rw [List.append_cons]
        exact hresults
      · rw [List.map_cons, List.map_cons, hmap]
        exact congrArg (· :: _) (Except.ok.inj ha)

/-- **No state leaks between activities.** Let two compilers be made for one domain with one
precedence, over stores with any contents that have no transaction open and refuse nothing, and let
them have answered any calls before. Then a definition fails in both with the same error, or it
compiles in both to the same graph, the same schedule and the same activity record, except for the
number. If all definitions of a batch compile, then so does the batch in any order, and each
definition with what it is compiled to is found in one as it is in the other. -/
theorem compile_independent (d : Domain) (precedence : Precedence) {store₁ store₂ : TracedStore}
    (hstore₁ : store₁.Calm) (hstore₂ : store₂.Calm) (calls₁ calls₂ : List CompileCall)
    (hc₁ : c₁ = ((Compiler.new d precedence store₁).run calls₁).2)
    (hc₂ : c₂ = ((Compiler.new d precedence store₂).run calls₂).2) :
    (∀ a, (∃ e, (c₁.compile a).1 = .error e ∧ (c₂.compile a).1 = .error e) ∨
      ∃ x y, (c₁.compile a).1 = .ok x ∧ (c₂.compile a).1 = .ok y ∧ y.graph = x.graph ∧
        y.schedule = x.schedule ∧ y.activity = { x.activity with anum := y.activity.anum }) ∧
    ∀ activities activities' : List ActivityDefinition, activities.Perm activities' →
      (∀ a ∈ activities, ∃ x, (c₁.compile a).1 = .ok x) →
      ∃ results results', (c₁.compileAll activities).1 = .ok results ∧
        (c₂.compileAll activities').1 = .ok results' ∧
        results.length = activities.length ∧ results'.length = activities'.length ∧
        (activities.zip (results.map (·.unnumbered))).Perm
          (activities'.zip (results'.map (·.unnumbered))) := by
  have hnext₁ := run_continues (c := Compiler.new d precedence store₁) hstore₁ calls₁
  have hnext₂ := run_continues (c := Compiler.new d precedence store₂) hstore₂ calls₂
  rw [← hc₁] at hnext₁
  rw [← hc₂] at hnext₂
  have hsetting : c₂.setting = c₁.setting := hnext₂.setting.trans hnext₁.setting.symm
  have hsame := map_unnumbered_compile hsetting hnext₁.calm hnext₂.calm
  refine ⟨fun a => ?_, fun activities activities' hperm hok => ?_⟩
  · have ha := hsame a
    rcases h₁ : (c₁.compile a).1 with e | x
    · rcases h₂ : (c₂.compile a).1 with e' | y
      · rw [h₁, h₂] at ha
        cases ha
        exact Or.inl ⟨e, rfl, rfl⟩
      · rw [h₁, h₂] at ha
        cases ha
    · rcases h₂ : (c₂.compile a).1 with e' | y
      · rw [h₁, h₂] at ha
        cases ha
      · rw [h₁, h₂] at ha
        exact Or.inr ⟨x, y, rfl, rfl, CompiledActivity.eq_of_unnumbered (Except.ok.inj ha)⟩
  · -- what each definition is compiled to, wherever it stands in a batch
    let f : ActivityDefinition → CompiledActivity := fun a =>
      ((c₁.compile a).1.map (·.unnumbered)).toOption.getD default
    have hf : ∀ a ∈ activities, (c₁.compile a).1.map (·.unnumbered) = .ok (f a) := by
      intro a ha
      obtain ⟨x, hx⟩ := hok a ha
      simp only [f, hx]
      rfl
    have hf' : ∀ a ∈ activities', (c₂.compile a).1.map (·.unnumbered) = .ok (f a) := by
      intro a ha
      rw [hsame, hf a (hperm.mem_iff.2 ha)]
    obtain ⟨results, hresults, hmap⟩ := compileFrom_ok hnext₁.calm [] hf
    obtain ⟨results', hresults', hmap'⟩ := compileFrom_ok hnext₂.calm [] hf'
    refine ⟨results, results', hresults, hresults', ?_, ?_, ?_⟩
    · simpa using congrArg List.length hmap
    · simpa using congrArg List.length hmap'
    · rw [hmap, hmap', ← List.map_prod_left_eq_zip, ← List.map_prod_left_eq_zip]
      exact hperm.map _

/-- A compiler over a store with a row of another activity, after calls that succeeded and calls that
failed. -/
def experienced : Compiler :=
  ((Compiler.new single.domain .explicit (.ofStore
    ⟨.ofList [("Activity", [activityRow "A9" []])], none⟩ fun _ _ => false)).run mixed).2

/-- The activity with a switch gets the first number in one compiler and the sixth in the other, and
is the same otherwise. The one that names nothing fails in both. -/
theorem experienced_independent :
    (∃ x y, (single.compile lopsided).1 = .ok x ∧ (experienced.compile lopsided).1 = .ok y ∧
      x.activity.anum = "A1" ∧ y.activity.anum = "A6" ∧ y.graph = x.graph ∧
      y.schedule = x.schedule ∧ y.activity = { x.activity with anum := "A6" }) ∧
    (∃ e, (single.compile nameless).1 = .error e ∧ (experienced.compile nameless).1 = .error e) ∧
    ∃ results results', (single.compileAll [lopsided, idle]).1 = .ok results ∧
      (experienced.compileAll [idle, lopsided]).1 = .ok results' ∧
      ([lopsided, idle].zip (results.map (·.unnumbered))).Perm
        ([idle, lopsided].zip (results'.map (·.unnumbered))) := by
  have hfirst : (single.compile lopsided).1.toOption.any (·.activity.anum = "A1") = true := by
    decide +kernel
  have hsixth : (experienced.compile lopsided).1.toOption.any (·.activity.anum = "A6") = true := by
    decide +kernel
  have hfails : (single.compile nameless).1.toOption.isNone = true := by decide +kernel
  have hbatch : [lopsided, idle].all (fun a => (single.compile a).1.toOption.isSome) = true := by
    decide +kernel
  obtain ⟨hone, hall⟩ := compile_independent single.domain .explicit ⟨fun _ _ => rfl, rfl⟩
    ⟨fun _ _ => rfl, rfl⟩ [] mixed (show single = _ from rfl) (show experienced = _ from rfl)
  refine ⟨?_, ?_, ?_⟩
  · rcases hone lopsided with ⟨e, he, -⟩ | ⟨x, y, hx, hy, hgraph, hschedule, hactivity⟩
    · rw [he] at hfirst
      cases hfirst
    · rw [hx] at hfirst
      rw [hy] at hsixth
      have hx' : x.activity.anum = "A1" := of_decide_eq_true hfirst
      have hy' : y.activity.anum = "A6" := of_decide_eq_true hsixth
      rw [hy'] at hactivity
      exact ⟨x, y, hx, hy, hx', hy', hgraph, hschedule, hactivity⟩
  · rcases hone nameless with ⟨e, he, he'⟩ | ⟨x, y, hx, -⟩
    · exact ⟨e, he, he'⟩
    · rw [hx] at hfails
      cases hfails
  · have hok : ∀ a ∈ [lopsided, idle], ∃ x, (single.compile a).1 = .ok x := by
      intro a ha
      have hsome := List.all_eq_true.1 hbatch a ha
      rcases hresult : (single.compile a).1 with e | x
      · rw [hresult] at hsome
        cases hsome
      · exact ⟨x, rfl⟩
    obtain ⟨results, results', hresults, hresults', -, -, hperm⟩ :=
      hall [lopsided, idle] [idle, lopsided] (.swap ..) hok
    exact ⟨results, results', hresults, hresults', hperm⟩

end Compiler

end ActionFlow
