import ActionFlow.Proofs.Compiler.Casting

/-!
# The order in which labels are enumerated

Two loops go through all labels in force: when a switch case ends, one collects the labels that the
case has bound, and the other one writes the labels from before the case back on their flows. An
`Enumeration` goes through them in any order, another one each time, and `compileBy` compiles as
`compile` does except that it leaves the order to an enumeration.

Two labels of one flow would show the order, because the one that is written last would stay. But no
draft that lowering comes to binds a flow twice (`Setting.Passes.injective`), so what is written
back does not depend on the order (`Graph.restoreLabelsBy_eq`). What is collected is sorted by label
afterwards, and a case adds one flow to a label at most, so the flows of each label are listed case
by case (`byLabel_congr`). By induction over the syntax every statement comes to the same outcome
and the same draft (`statementBy_exec`, `bodyBy_exec`, `casesBy_relisted`), and compiling gives back
the same (`Compiler.compile_enumerated`).
-/

namespace ActionFlow

/-! ## Restoring in any order -/

namespace Graph

variable {f f' : FlowId} {bindings : SortedMap String FlowId} {order : List (String × FlowId)}

/-- Replaces the labels by bindings that were in force before, which are written on the flows in the
order given. -/
def restoreLabelsBy (g : Graph) (bindings : SortedMap String FlowId)
    (order : List (String × FlowId)) : Graph :=
  let cleared := { g with flows := g.flows.map fun (f : Flow) => { f with label := none } }
  let written := order.foldl (fun g b => g.writeLabel b.2 b.1) cleared
  { written with labels := bindings }

/-- Labels can be written on different flows in any order. -/
theorem writeLabel_comm (h : f ≠ f') (l l' : String) (g : Graph) :
    (g.writeLabel f l).writeLabel f' l' = (g.writeLabel f' l').writeLabel f l := by
  obtain ⟨m⟩ := f
  obtain ⟨n⟩ := f'
  unfold writeLabel modifyFlow
  cases m with
  | zero => rfl
  | succ m =>
    cases n with
    | zero => rfl
    | succ n =>
      have hne : m ≠ n := fun heq => h (by rw [heq])
      exact congrArg (fun flows => { g with flows := flows }) (List.modify_modify_ne _ _ _ hne)

/-- **Restoring** does not depend on the order, if no flow is bound twice. -/
theorem restoreLabelsBy_eq (horder : order.Perm bindings.entries)
    (hinj : ∀ l l' f, bindings.get? l = some f → bindings.get? l' = some f → l = l') (g : Graph) :
    g.restoreLabelsBy bindings order = g.restoreLabels bindings := by
  have hwritten : ∀ g : Graph, order.foldl (fun g b => g.writeLabel b.2 b.1) g =
      bindings.entries.foldl (fun g b => g.writeLabel b.2 b.1) g := by
    refine horder.foldl_eq' fun b hb b' hb' g => ?_
    by_cases hflow : b.2 = b'.2
    · have hget := SortedMap.get?_of_mem_entries (horder.subset hb)
      have hget' := SortedMap.get?_of_mem_entries (horder.subset hb')
      rw [← hflow] at hget'
      rw [Prod.ext (hinj _ _ _ hget hget') hflow]
    · exact writeLabel_comm hflow _ _ g
  unfold restoreLabelsBy restoreLabels
  dsimp only
  rw [hwritten]

/-- A flow with two labels would keep the one that is written last. -/
example : let g := Graph.empty.addFlow .scalar (.scalar "T") none
    let bindings := SortedMap.ofList [("x", Graph.empty.nextFlow), ("y", Graph.empty.nextFlow)]
    g.restoreLabelsBy bindings bindings.entries ≠
      g.restoreLabelsBy bindings bindings.entries.reverse := by
  decide

end Graph

/-! ## Lowering with an enumeration -/

/-- Goes through the labels in force in some order, which may be another one for each draft. -/
structure Enumeration where
  /-- The order in which the labels that a case has bound are collected. -/
  collected : Draft → SortedMap String FlowId → List (String × FlowId)
  /-- The order in which labels are written back. -/
  restored : Draft → SortedMap String FlowId → List (String × FlowId)
  collected_perm : ∀ d m, (collected d m).Perm m.entries
  restored_perm : ∀ d m, (restored d m).Perm m.entries

/-- The greatest label first. -/
def Enumeration.descending : Enumeration where
  collected _ m := m.entries.reverse
  restored _ m := m.entries.reverse
  collected_perm _ m := m.entries.reverse_perm
  restored_perm _ m := m.entries.reverse_perm

namespace Lower

/-- Lowers a case as `inCase` does. -/
def inCaseBy (E : Enumeration) (control : FlowId) (body : Lower Unit) :
    Lower (List (String × FlowId)) := do
  let before := (← get).graph.labels
  modify fun d => { d with control := some control }
  body
  let d ← get
  let bound := (E.collected d d.graph.labels).filter fun b => before.get? b.1 ≠ some b.2
  modify fun d => { d with graph := d.graph.restoreLabelsBy before (E.restored d before) }
  return bound

mutual

/-- Lowers a statement as `statement` does. -/
def statementBy (E : Enumeration) (s : Setting) : Statement → Lower Unit
  | .switch scalar cs => do
    let enabled ← openCases s scalar cs
    let outer := (← get).control
    let bound ← casesBy E s enabled cs
    modify fun d => { d with control := outer }
    bindLabels (byLabel bound).entries
  | .iterate source label statements => do
    openIteration s source label
    bodyBy E s statements
  | st => statement s st
termination_by structural st => st

/-- Lowers statements in turn as `body` does. -/
def bodyBy (E : Enumeration) (s : Setting) : List Statement → Lower Unit
  | [] => return ()
  | st :: rest => do
    let outer := (← get).fragment
    modify fun d => { d with fragment := some st.headline }
    statementBy E s st
    modify fun d => { d with fragment := outer }
    bodyBy E s rest
termination_by structural l => l

/-- Lowers the cases of a switch as `cases` does. -/
def casesBy (E : Enumeration) (s : Setting) :
    List FlowId → List Case → Lower (List (String × FlowId))
  | control :: controls, ⟨_, statements⟩ :: rest => do
    let bound ← inCaseBy E control (bodyBy E s statements)
    return bound ++ (← casesBy E s controls rest)
  | _, _ => return []
termination_by structural _ l => l

end

/-- Lowers an activity as `activity` does. -/
def activityBy (E : Enumeration) (s : Setting) (a : ActivityDefinition) : Lower Unit := do
  opening s a
  bodyBy E s a.body
  let d ← get
  record (labelsTransaction d.activity.anum d.graph)

end Lower

/-- Lowers an activity under a number as `lower` does. -/
def Setting.lowerBy (E : Enumeration) (s : Setting) (anum path : String) (a : ActivityDefinition) :
    Except CompileError Unit × Draft :=
  (Lower.activityBy E s a).run.run (.start s.domain.name anum path a)

namespace Compiler

/-- Lowers an activity, writes it and schedules it as `attempt` does. -/
def attemptBy (E : Enumeration) (c : Compiler) (anum : String) (a : ActivityDefinition) :
    Except ActivityError CompiledActivity × TracedStore :=
  let path := c.pathOf a
  let (outcome, draft) := c.setting.lowerBy E anum path a
  match c.store.replay path draft.journal with
  | (.error e, store) => (.error e, store)
  | (.ok (), store) =>
    match outcome with
    | .error e => (.error ⟨path, draft.fragment, e⟩, store)
    | .ok () => finish store draft

/-- Compiles one activity as `compile` does. -/
def compileBy (E : Enumeration) (c : Compiler) (a : ActivityDefinition) :
    CompileResult CompiledActivity :=
  match c.domain.validate with
  | .error e => (.error ⟨c.pathOf a, none, .model e⟩, c)
  | .ok () =>
    match c.attemptBy E c.nextAnum a with
    | (.ok compiled, store) => (.ok compiled, { c with store := store, number := c.number + 1 })
    | (.error e, store) =>
      (.error e, { c with store := store.forget c.nextAnum, number := c.number + 1 })

end Compiler

namespace Lower

variable {s : Setting} {d d' : Draft} {E : Enumeration} {bound bound' : List (String × FlowId)}

/-! ## Collecting in any order -/

/-- A label occurs once at most among the labels in force, so it makes no difference where. -/
theorem filter_of_perm {m : SortedMap String FlowId} {order : List (String × FlowId)}
    (horder : order.Perm m.entries) (l : String) :
    order.filter (·.1 = l) = m.entries.filter (·.1 = l) := by
  have hperm := horder.filter (·.1 = l)
  rw [m.filter_entries] at hperm ⊢
  cases hget : m.get? l with
  | none =>
    rw [hget] at hperm
    exact List.perm_nil.1 hperm
  | some f =>
    rw [hget] at hperm
    exact List.perm_singleton.1 hperm

/-- What a case has bound to a label does not depend on the order. -/
theorem filter_collected {before after : SortedMap String FlowId} {order : List (String × FlowId)}
    (horder : order.Perm after.entries) (l : String) :
    (order.filter fun b => before.get? b.1 ≠ some b.2).filter (·.1 = l) =
      (rebound before after).filter (·.1 = l) := by
  unfold rebound
  rw [List.filter_comm, filter_of_perm horder, List.filter_comm]

/-- A label that is bound has flows, and they are those that are listed for it. -/
theorem get?_byLabel_eq (bound : List (String × FlowId)) (l : String) :
    (byLabel bound).get? l =
      if bound.filter (·.1 = l) = [] then none
      else some ((bound.filter (·.1 = l)).map Prod.snd) := by
  have hflows := get?_byLabel bound l
  cases hget : (byLabel bound).get? l with
  | none =>
    rw [hget] at hflows
    rw [if_pos (List.map_eq_nil_iff.1 hflows.symm)]
  | some flows =>
    have hne := ne_nil_of_mem_byLabel (SortedMap.mem_entries_of_get? hget)
    rw [hget] at hflows
    have hflows : flows = (bound.filter (·.1 = l)).map Prod.snd := hflows
    rw [if_neg fun hnil => hne (by rw [hflows, hnil]; rfl), hflows]

/-- **Sorting by label** does not depend on where the other labels are listed. -/
theorem byLabel_congr (h : ∀ l, bound.filter (·.1 = l) = bound'.filter (·.1 = l)) :
    byLabel bound = byLabel bound' := by
  refine SortedMap.ext_get? fun l => ?_
  rw [get?_byLabel_eq, get?_byLabel_eq, h l]

/-! ## Two runs from one draft -/

/-- Both runs come to the same outcome and the same draft, except that the labels that are given
back may be listed in another order. -/
inductive Relisted : Except CompileError (List (String × FlowId)) × Draft →
    Except CompileError (List (String × FlowId)) × Draft → Prop where
  | ok {bound bound' : List (String × FlowId)} (d : Draft)
      (h : ∀ l, bound.filter (·.1 = l) = bound'.filter (·.1 = l)) :
      Relisted (.ok bound, d) (.ok bound', d)
  | error (e : CompileError) (d : Draft) : Relisted (.error e, d) (.error e, d)

section Runs

variable {α β : Type} {R : Except CompileError β × Draft → Except CompileError β × Draft → Prop}

/-- After the same outcome two runs go on alike if they do after every result. -/
theorem exec_bind_same {m m' : Lower α} {k k' : α → Lower β}
    (herror : ∀ e d, R (.error e, d) (.error e, d)) (hm : m.exec d = m'.exec d)
    (hk : ∀ a d', m'.exec d = (.ok a, d') → R ((k a).exec d') ((k' a).exec d')) :
    R ((m >>= k).exec d) ((m' >>= k').exec d) := by
  rcases hexec : m'.exec d with ⟨outcome, d'⟩
  rw [hexec] at hm
  cases outcome with
  | error e =>
    rw [exec_bind_error hm, exec_bind_error hexec]
    exact herror e d'
  | ok a =>
    rw [exec_bind_ok hm, exec_bind_ok hexec]
    exact hk a d' hexec

/-- So they do after labels that are listed in another order, if that makes no difference. -/
theorem Relisted.bind {m m' : Lower (List (String × FlowId))}
    {k k' : List (String × FlowId) → Lower β} (herror : ∀ e d, R (.error e, d) (.error e, d))
    (hm : Relisted (m.exec d) (m'.exec d))
    (hk : ∀ bound bound' d', m'.exec d = (.ok bound', d') →
      (∀ l, bound.filter (·.1 = l) = bound'.filter (·.1 = l)) →
      R ((k bound).exec d') ((k' bound').exec d')) :
    R ((m >>= k).exec d) ((m' >>= k').exec d) := by
  generalize hleft : m.exec d = left, hright : m'.exec d = right at hm
  cases hm with
  | error e d' =>
    rw [exec_bind_error hleft, exec_bind_error hright]
    exact herror e d'
  | ok d' h =>
    rw [exec_bind_ok hleft, exec_bind_ok hright]
    exact hk _ _ d' hright h

end Runs

/-! ## Statements -/

/-- A case ends alike in any order, if its body does. -/
theorem inCaseBy_relisted (E : Enumeration) (hd : d.Ready s) {control : FlowId} {m m' : Lower Unit}
    (hm : m.exec (d.inside control) = m'.exec (d.inside control)) (x : Option FlowId) :
    Relisted ((inCaseBy E control m).exec { d with control := x })
      ((inCase control m').exec { d with control := x }) := by
  unfold inCaseBy inCase
  rw [exec_bind_ok (exec_get _), exec_bind_ok (exec_get _), exec_bind_ok (exec_modify _ _),
    exec_bind_ok (exec_modify _ _)]
  refine exec_bind_same .error hm fun _ d₂ _ => ?_
  have hrestored : d₂.graph.restoreLabelsBy d.graph.labels (E.restored d₂ d.graph.labels) =
      d₂.graph.restoreLabels d.graph.labels :=
    Graph.restoreLabelsBy_eq (E.restored_perm _ _) (fun _ _ _ h h' => hd.label_injective h h') _
  rw [exec_bind_ok (exec_get d₂), exec_bind_ok (exec_get d₂), exec_bind_ok (exec_modify _ d₂),
    exec_bind_ok (exec_modify _ d₂)]
  dsimp only
  rw [hrestored]
  exact .ok _ (filter_collected (E.collected_perm _ _))

theorem ready_headed (hd : d.Ready s) (fragment : Option String) :
    { d with fragment := fragment : Draft }.Ready s :=
  (Draft.Move.headline (W := fun _ => True) fragment).ready hd

mutual

/-- A statement comes to the same outcome and the same draft. -/
theorem statementBy_exec (E : Enumeration) (hs : s.domain.Complete) {d : Draft} (hd : d.Ready s)
    (st : Statement) : (statementBy E s st).exec d = (statement s st).exec d := by
  cases st with
  | switch scalar cs =>
    refine exec_bind_same (fun _ _ => rfl) rfl fun enabled d₁ hopen => ?_
    obtain ⟨hwalk, hopened⟩ := openCases_tracks (W := fun _ => True) hs hd scalar cs enabled d₁
      hopen
    rw [exec_bind_ok (exec_get d₁), exec_bind_ok (exec_get d₁)]
    refine Relisted.bind (fun _ _ => rfl)
      (casesBy_relisted E hs (hwalk.ready hd) hopened cs d₁.control) fun bound bound' d₂ _ h => ?_
    rw [byLabel_congr h]
  | iterate source label statements =>
    refine exec_bind_same (fun _ _ => rfl) rfl fun u d₁ hopen => ?_
    have hwalk := (openIteration_tracks (W := fun _ => True) hs hd source trivial u d₁ hopen).1
    exact bodyBy_exec E hs (hwalk.ready hd) statements
  | _ => rfl
termination_by structural st

theorem bodyBy_exec (E : Enumeration) (hs : s.domain.Complete) {d : Draft} (hd : d.Ready s)
    (statements : List Statement) : (bodyBy E s statements).exec d = (body s statements).exec d := by
  cases statements with
  | nil => rfl
  | cons st rest =>
    have hheaded := ready_headed hd (some st.headline)
    unfold bodyBy body
    rw [exec_bind_ok (exec_get d), exec_bind_ok (exec_get d), exec_bind_ok (exec_modify _ d),
      exec_bind_ok (exec_modify _ d)]
    refine exec_bind_same (fun _ _ => rfl) (statementBy_exec E hs hheaded st) fun u d₁ hexec => ?_
    have hwalk := statement_walks (W := fun _ => True) hs hheaded st (fun _ _ => trivial) hexec
    exact bodyBy_exec E hs (ready_headed (hwalk.ready hheaded) d.fragment) rest
termination_by structural statements

/-- The cases of a switch come to the same draft, and list the same flows for each label. -/
theorem casesBy_relisted (E : Enumeration) (hs : s.domain.Complete) {d : Draft} (hd : d.Ready s)
    {controls : List FlowId} (hopened : d.Opened controls) (cs : List Case) (x : Option FlowId) :
    Relisted ((casesBy E s controls cs).exec { d with control := x })
      ((cases s controls cs).exec { d with control := x }) := by
  cases cs with
  | nil => cases controls <;> exact .ok _ fun _ => rfl
  | cons c rest =>
    cases controls with
    | nil => exact .ok _ fun _ => rfl
    | cons control controls =>
      cases c with
      | mk values statements =>
        have hcase := inCaseBy_relisted E hd
          (bodyBy_exec E hs (hd.inside hopened.enters) statements) x
        refine Relisted.bind .error hcase fun bound bound' left hexec hfirst => ?_
        obtain ⟨d₂, hbody, -, rfl⟩ := exec_inCase hexec
        have hinner := body_walks (W := fun _ => True) hs (hd.inside hopened.enters) statements
          (fun _ _ => trivial) hbody
        have hd₁ := ((Draft.Walk.refl d).case hopened.enters hinner).ready hd
        have hlater := casesBy_relisted E hs hd₁ (hopened.leaving hd hinner) rest d₂.control
        refine Relisted.bind .error hlater fun later later' d₃ _ hrest => .ok d₃ fun l => ?_
        rw [List.filter_append, List.filter_append, hfirst, hrest]
termination_by structural cs

end

/-! ## Activities -/

theorem activityBy_exec (E : Enumeration) (hs : s.domain.Complete) (anum path : String)
    (a : ActivityDefinition) :
    (activityBy E s a).exec (.start s.domain.name anum path a) =
      (activity s a).exec (.start s.domain.name anum path a) := by
  have hstart := Draft.ready_start s s.domain.name anum path a
  rw [activity_eq]
  refine exec_bind_same (fun _ _ => rfl) rfl fun u d₁ hopening => ?_
  have hwalk := (opening_tracks (W := fun _ => True) hstart rfl (fun _ _ _ _ => trivial) u d₁
    hopening).1
  exact exec_bind_same (fun _ _ => rfl) (bodyBy_exec E hs (hwalk.ready hstart) a.body)
    fun _ _ _ => rfl

end Lower

namespace Setting

open Lower

variable {s : Setting} {anum path : String} {a : ActivityDefinition} {d₁ : Draft}

/-- Lowering an activity may come to a draft: while the flows that it starts with are supplied,
while one of its statements is lowered, or when it is done. A walk covers whatever a piece of
lowering does, and a case is entered and left where another control flow is in force. -/
inductive Passes (s : Setting) (anum path : String) (a : ActivityDefinition) : Draft → Prop where
  | opening {d₁ : Draft}
      (h : (Draft.start s.domain.name anum path a).Walk s (fun _ => True) d₁ []) :
      Passes s anum path a d₁
  | visits {d₁ : Draft} (h : s.Visits anum path a d₁) : Passes s anum path a d₁
  | between {d₁ : Draft} (control : Option FlowId) (fragment : Option String)
      (h : Passes s anum path a d₁) :
      Passes s anum path a { d₁ with control := control, fragment := fragment }
  | lowered {d₁ : Draft} (h : s.lower anum path a = (.ok (), d₁)) : Passes s anum path a d₁

/-- **No flow is bound twice** in a draft that lowering comes to. -/
theorem Passes.injective (h : s.Passes anum path a d₁) (hs : s.domain.Complete) :
    ∀ l l' f, d₁.graph.label? l = some f → d₁.graph.label? l' = some f → l = l' := by
  induction h with
  | opening hwalk =>
    exact fun _ _ _ => (hwalk.ready (Draft.ready_start s ..)).label_injective
  | visits hvisits => exact fun _ _ _ => (hvisits.ready hs).label_injective
  | between control fragment _ ih => exact ih
  | lowered hlower =>
    obtain ⟨d', -, hd', rfl⟩ := lower_walks (W := fun _ => True) hs (fun _ _ _ _ => trivial)
      (fun _ _ => trivial) hlower
    exact fun _ _ _ => hd'.label_injective

theorem lowerBy_eq (hs : s.domain.Complete) (E : Enumeration) (anum path : String)
    (a : ActivityDefinition) : s.lowerBy E anum path a = s.lower anum path a :=
  activityBy_exec E hs anum path a

theorem Meets.ready {d₀ : Draft} {st : Statement} (h : s.Meets anum path a d₀ st)
    (hs : s.domain.Complete) : d₀.Ready s :=
  Visits.ready ⟨d₀, st, [], h, .refl d₀⟩ hs

end Setting

namespace Compiler

open Lower

variable {c : Compiler} {d : Domain}

/-- Compiling gives back the same and writes the same rows. -/
theorem compileBy_eq (hc : c.domain = d.withBuiltins) (E : Enumeration) (a : ActivityDefinition) :
    c.compileBy E a = c.compile a := by
  unfold compileBy compile
  cases hvalid : c.domain.validate with
  | error e => rfl
  | ok u =>
    have hs : c.setting.domain.Complete := Domain.complete_of_valid hc hvalid
    have hattempt : c.attemptBy E c.nextAnum a = c.attempt c.nextAnum a := by
      unfold attemptBy attempt
      dsimp only
      rewrite [Setting.lowerBy_eq hs]
      rfl
    dsimp only
    rewrite [hattempt]
    rfl

/-- **The order in which labels are enumerated never shows.** Compiling an activity gives back the
same and leaves the same store behind for every enumeration, whether it succeeds or fails. While the
activity is lowered no flow is bound to two labels. So writing the labels in force back on the flows
of a graph gives the same graph in every order, and what is collected for a label is the same in
every order. And every statement that is lowered, a switch in particular, comes to the same outcome
and the same draft: to the same labels, and to the same gates with the same inputs. -/
theorem compile_enumerated (hc : c.domain = d.withBuiltins) (a : ActivityDefinition) :
    (∀ E, c.compileBy E a = c.compile a) ∧
    (c.domain.validate = .ok () → ∀ anum path,
      (∀ d₁, c.setting.Passes anum path a d₁ →
        (∀ l l' f, d₁.graph.label? l = some f → d₁.graph.label? l' = some f → l = l') ∧
        ∀ order, order.Perm d₁.graph.labels.entries →
          (∀ g : Graph, g.restoreLabelsBy d₁.graph.labels order =
            g.restoreLabels d₁.graph.labels) ∧
          ∀ before l, (order.filter fun b => before.get? b.1 ≠ some b.2).filter (·.1 = l) =
            (rebound before d₁.graph.labels).filter (·.1 = l)) ∧
      ∀ E d₀ st, c.setting.Meets anum path a d₀ st →
        (statementBy E c.setting st).exec d₀ = (statement c.setting st).exec d₀) := by
  refine ⟨fun E => compileBy_eq hc E a, fun hvalid anum path => ?_⟩
  have hs : c.setting.domain.Complete := Domain.complete_of_valid hc hvalid
  refine ⟨fun d₁ hpasses => ?_, fun E d₀ st hmeets => statementBy_exec E hs (hmeets.ready hs) st⟩
  have hinj := hpasses.injective hs
  exact ⟨hinj, fun order horder => ⟨Graph.restoreLabelsBy_eq horder hinj, fun before l =>
    filter_collected horder l⟩⟩

/-- The greatest label first, the activity with a switch around a switch is compiled to the same.
Within it two labels are in force at once, so that the orders differ. -/
theorem nested_enumerated :
    single.compileBy .descending nested = single.compile nested ∧
    single.setting.Meets "A1" "D:C:S" nested outerDraft
      (.switch (.literal (.boolean true)) outerCases) ∧
    (statementBy .descending single.setting (.switch (.literal (.boolean true)) outerCases)).exec
      outerDraft = (statement single.setting (.switch (.literal (.boolean true)) outerCases)).exec
        outerDraft ∧
    ∃ d₁, single.setting.Passes "A1" "D:C:S" nested d₁ ∧
      d₁.graph.labels.entries.reverse ≠ d₁.graph.labels.entries ∧
      ∀ g : Graph, g.restoreLabelsBy d₁.graph.labels d₁.graph.labels.entries.reverse =
        g.restoreLabels d₁.graph.labels := by
  obtain ⟨hcompile, hlowering⟩ := compile_enumerated (c := single) (d := oneClass) rfl nested
  obtain ⟨hpasses, hstatement⟩ := hlowering (by decide +kernel) "A1" "D:C:S"
  have hmeets : single.setting.Meets "A1" "D:C:S" nested outerDraft
      (.switch (.literal (.boolean true)) outerCases) :=
    ⟨Prod.ext (by decide +kernel) rfl, .here _ _ _⟩
  have hok : (single.setting.lower "A1" "D:C:S" nested).1 = .ok () := by decide +kernel
  have hdiffers : (single.setting.lower "A1" "D:C:S" nested).2.graph.labels.entries.reverse ≠
      (single.setting.lower "A1" "D:C:S" nested).2.graph.labels.entries := by
    decide +kernel
  generalize hlower : single.setting.lower "A1" "D:C:S" nested = result at hok hdiffers
  obtain ⟨outcome, d₁⟩ := result
  cases hok
  exact ⟨hcompile .descending, hmeets, hstatement .descending _ _ hmeets, d₁, .lowered hlower,
    hdiffers, ((hpasses d₁ (.lowered hlower)).2 _ (List.reverse_perm _)).1⟩

end Compiler

end ActionFlow
