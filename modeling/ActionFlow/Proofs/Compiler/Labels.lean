import ActionFlow.Proofs.Compiler.Isolation
import ActionFlow.Proofs.Compiler.Ledger

/-!
# Labels of compiled activities

A graph holds its labels twice, as a map from labels to flows and on the flows. The labels that an
activity writes share one name space with those that are made for flows that gates merge. If none of
the written labels has the form of a made one (`Plain`), the two copies agree (`Draft.Labelled`): a
made label is given to one flow only, so it is never taken from another one. A label that statements
do not write then names after them what it named before (`Walk.label?_eq`), and the rows that are
written for the labels have different names (`compile_labels`).

A written label of that form can be taken over, and the two copies part (`not_every_label_unique`).
-/

namespace ActionFlow

/-! ## Written labels and made labels -/

/-- The label does not have the form of those that are made for merged flows. -/
def Plain (l : String) : Prop := ∀ id label, l ≠ alternativeLabel id label

/-- Labels that do not begin with an underscore are plain. -/
theorem plain_of_head {l : String} (h : l.toList.head? ≠ some '_') : Plain l := by
  rintro id label rfl
  refine h ?_
  unfold alternativeLabel
  rw [String.append_assoc, String.append_assoc, String.toList_append]
  rfl

theorem Graph.Alternative.not_plain {g : Graph} {f : FlowId} {l : String}
    (h : g.Alternative f l) : ¬ Plain l := by
  obtain ⟨a, -, -, label, rfl⟩ := h
  exact fun hplain => hplain a.id label rfl

namespace Draft

variable {s : Setting} {W : String → Prop} {d d' : Draft} {spans : List CaseSpan} {l : String}

/-- Labels are allowed or made for their flow, and whatever is written on a flow names the flow. -/
structure Labelled (W : String → Prop) (d : Draft) : Prop where
  named : ∀ l f, d.graph.label? l = some f → W l ∨ d.graph.Alternative f l
  bound : ∀ l f, d.graph.labelOf? f = some l → d.graph.label? l = some f

/-- A label that is made for a flow names that flow or nothing. -/
theorem Labelled.eq_of_alternative (h : d.Labelled W) (hW : ∀ l, W l → Plain l) (hd : d.Sound)
    {f f' : FlowId} (hl : d.graph.label? l = some f') (hmade : d.graph.Alternative f l) :
    f' = f := by
  rcases h.named l f' hl with hallowed | hmade'
  · exact absurd (hW l hallowed) hmade.not_plain
  · exact hmade'.unique hd.causal hmade

/-- **One move** keeps the two copies of the labels alike. -/
theorem Move.labelled (h : Move s W d d') (hd : d.Ready s) (hW : ∀ l, W l → Plain l)
    (hl : d.Labelled W) : d'.Labelled W := by
  have hgrows := (h.step hd.sound.causal).grows
  constructor
  · intro l f hbound
    rcases h.walk.given hd hbound with hold | ⟨-, hname⟩
    · exact (hl.named l f hold).imp id fun hmade => hmade.grows hgrows
    · exact hname
  · intro l' f' hlabel
    rcases h.labels hd.sound.causal with ⟨hbound, hlabelOf⟩ | ⟨f, l, hgives⟩
    · rw [hlabelOf] at hlabel
      rw [hbound]
      exact hl.bound l' f' hlabel
    · rw [hgives.bound]
      by_cases hf : f' = f
      · subst hf
        cases hgives.carried.symm.trans hlabel
        rw [if_pos rfl]
      · have hcarried : d.graph.labelOf? f' = some l' := by
          rcases hgives.others f' hf with hsame | ⟨-, hnone⟩
          · exact hsame.symm.trans hlabel
          · rw [hnone] at hlabel
            cases hlabel
        have hold := hl.bound l' f' hcarried
        rw [if_neg, hold]
        -- a flow that had the label has lost it, or it is the one that the label is made for
        rintro rfl
        rcases hgives.taken with hmade | hlost
        · exact hf (hl.eq_of_alternative hW hd.sound hold hmade)
        · rw [hlost f' hf hold] at hlabel
          cases hlabel

/-- **A walk** keeps the two copies of the labels alike. -/
theorem Walk.labelled (h : Walk s W d d' spans) (hd : d.Ready s) (hW : ∀ l, W l → Plain l)
    (hl : d.Labelled W) : d'.Labelled W := by
  induction h with
  | refl => exact hl
  | move hwalk hmove ih => exact hmove.labelled (hwalk.ready hd) hW (ih hd hl)
  | @case d d' d₂ spans inner c hwalk henters hinner ih _ =>
    -- the labels before the case come back in both copies
    have hd' := hwalk.ready hd
    have hgrows := hd'.grows_case henters hinner
    have hleft := hgrows.trans (.of_sameButLabels (sameButLabels_leaving d₂ d'))
    constructor
    · intro l f hbound
      exact ((ih hd hl).named l f hbound).imp id fun hmade => hmade.grows hleft
    · intro l f hlabel
      exact (Graph.labelOf?_restoreLabels (fun f hf => hgrows.has f (hd'.sound.labels f hf))
        fun l l' f h h' => hd'.label_injective h h').1 hlabel

/-- A plain label that is not given on a walk names the same flow after it as before it. -/
theorem Walk.label?_eq (h : Walk s W d d' spans) (hd : d.Ready s) (hplain : Plain l)
    (hl : ¬ W l) : d'.graph.label? l = d.graph.label? l := by
  induction h with
  | refl => rfl
  | move hwalk hmove ih =>
    rw [← ih hd]
    rcases hmove.labels (hwalk.ready hd).sound.causal with ⟨hlabel, -⟩ | ⟨f, l', hgives⟩
    · exact hlabel l
    · have hne : l ≠ l' := by
        rintro rfl
        exact hgives.name.elim hl fun hmade => hmade.not_plain hplain
      rw [hgives.bound, if_neg hne]
  | case _ _ _ ih _ => exact ih hd

/-! ## Rows of labels -/

/-- Before the end of an activity no row is written for a label. -/
theorem Walk.rows_label (h : Walk s W d d' spans)
    (hd : ∀ e ∈ d.journal, e.transaction.rows "Label" = []) :
    ∀ e ∈ d'.journal, e.transaction.rows "Label" = [] := by
  induction h with
  | refl => exact hd
  | @move d d' d'' spans hwalk hmove ih =>
    have hrecorded : ∀ t : Transaction, t.rows "Label" = [] →
        ∀ e ∈ d'.journal ++ [⟨d'.fragment, t⟩], e.transaction.rows "Label" = [] := by
      intro t ht e he
      rcases List.mem_append.1 he with he | he
      · exact ih hd e he
      · rw [List.mem_singleton.1 he]
        exact ht
    cases hmove with
    | openActivity => exact hrecorded _ rfl
    | seed _ _ => exact hrecorded _ rfl
    | @act specs kind _ _ _ _ _ =>
      refine hrecorded _ ?_
      generalize Graph.action _ _ = act
      unfold Transaction.rows actionTransaction ActionKind.relation
      cases act.kind <;> simp [ActionKind.name]
    | _ => exact ih hd
  | case _ _ _ ih ihinner => exact ihinner (ih hd)

end Draft

namespace Graph

variable {g : Graph} {anum : String}

/-- The row of a label holds it as its name. -/
theorem name_labelRow? {f : Flow} {row : Tuple} (h : labelRow? anum f = some row) :
    ∃ l, f.label = some l ∧ row.get? "Name" = some (.text l) := by
  obtain ⟨l, hl, rfl⟩ := Option.map_eq_some_iff.1 h
  refine ⟨l, hl, ?_⟩
  unfold activityRow SortedMap.ofList
  exact SortedMap.get?_insertAll_of_mem (by simp) (by simp) _

theorem Numbered.pairwise_flows (hg : g.Numbered) : g.flows.Pairwise fun f f' => f.id ≠ f'.id := by
  refine hg.ascending_flows.imp fun h he => ?_
  rw [he] at h
  exact Nat.lt_irrefl _ h

/-- If every label that is written on a flow names the flow, the rows of labels have different
names. -/
theorem nodup_label_names (hg : g.Numbered)
    (hbound : ∀ l f, g.labelOf? f = some l → g.label? l = some f) :
    ((g.flows.filterMap (labelRow? anum)).map (·.get? "Name")).Nodup := by
  rw [List.nodup_iff_pairwise_ne, List.pairwise_map, List.pairwise_filterMap]
  refine hg.pairwise_flows.imp_of_mem fun {f f'} hf hf' hne row hrow row' hrow' heq => hne ?_
  obtain ⟨l, hl, hname⟩ := name_labelRow? hrow
  obtain ⟨l', hl', hname'⟩ := name_labelRow? hrow'
  have hsame : l = l' := by
    rw [hname, hname'] at heq
    simpa using heq
  have hlabelOf : ∀ f ∈ g.flows, g.labelOf? f.id = f.label := by
    intro f hf
    unfold labelOf?
    rw [hg.flow?_id hf]
    rfl
  have hfound := hbound l f.id (by rw [hlabelOf f hf, hl])
  have hfound' := hbound l f'.id (by rw [hlabelOf f' hf', hl', hsame])
  exact Option.some.inj (hfound.symm.trans hfound')

end Graph

/-! ## Names in a body -/

/-- The label is written in the body, or it is the name of a parameter. -/
def ActivityDefinition.Writes (d : Domain) (a : ActivityDefinition) (l : String) : Prop :=
  l ∈ bodyLabels a.body ∨
    ∃ parameters, d.activityParameters? a = some parameters ∧ ∃ p ∈ parameters, p.name = l

theorem Lower.body_append (s : Setting) (before after : List Statement) :
    body s (before ++ after) = (do body s before; body s after) := by
  induction before with
  | nil => simp [body]
  | cons st rest ih => simp only [List.cons_append, body, ih, bind_assoc]

namespace Setting

open Lower

variable {s : Setting} {anum path : String} {a : ActivityDefinition} {d : Draft}

/-- The draft of an activity after some statements of its body. -/
def draftAfter (s : Setting) (anum path : String) (a : ActivityDefinition)
    (statements : List Statement) : Draft := ((body s statements).exec (s.opened anum path a)).2

theorem graph_draftAfter_body (h : s.lower anum path a = (.ok (), d)) :
    (s.draftAfter anum path a a.body).graph = d.graph := by
  obtain ⟨-, d', hexec, rfl⟩ := exec_of_lower h
  unfold draftAfter
  rw [hexec]
  rfl

/-- A plain label that some statements of a body do not write names after them what it named before
them. -/
theorem label?_draftAfter (hs : s.domain.Complete) (h : s.lower anum path a = (.ok (), d))
    {before between after : List Statement} (hbody : a.body = before ++ between ++ after)
    {l : String} (hplain : Plain l) (hl : l ∉ bodyLabels between) :
    (s.draftAfter anum path a (before ++ between)).graph.label? l =
      (s.draftAfter anum path a before).graph.label? l := by
  have hopened := (opened_walk (W := fun _ => True) (fun _ _ _ _ => trivial) h).ready
    (Draft.ready_start s ..)
  obtain ⟨-, _, hexec, -⟩ := exec_of_lower h
  rw [hbody, body_append] at hexec
  obtain ⟨_, d₂, hboth, -⟩ := exec_bind_inv hexec
  have hparts := hboth
  rw [body_append] at hparts
  obtain ⟨_, d₁, hbefore, hbetween⟩ := exec_bind_inv hparts
  have hd₁ := (body_walks (W := fun _ => True) hs hopened before (fun _ _ => trivial)
    hbefore).ready hopened
  have hwalk := body_walks (W := (· ∈ bodyLabels between)) hs hd₁ between (fun _ hl => hl) hbetween
  unfold draftAfter
  rw [hboth, hbefore]
  exact hwalk.label?_eq hd₁ hplain hl

end Setting

theorem Draft.labelled_start (W : String → Prop) (domain anum path : String)
    (a : ActivityDefinition) : (Draft.start domain anum path a).Labelled W := by
  refine ⟨nofun, fun l f hlabel => ?_⟩
  obtain ⟨hpos, hle⟩ := Graph.has_of_labelOf? hlabel
  have hzero : (Draft.start domain anum path a).graph.flows.length = 0 := rfl
  omega

/-! ## Compilations -/

/-- A journal that has been replayed has appended the rows of its transactions. -/
theorem TracedStore.tuples_of_replay {s s' : TracedStore} {path : String}
    {journal : List JournalEntry} (h : s.replay path journal = (.ok (), s')) (relation : String) :
    s'.store.tuples relation =
      s.store.tuples relation ++ journal.flatMap (·.transaction.rows relation) := by
  induction journal generalizing s with
  | nil =>
    cases h
    exact (List.append_nil _).symm
  | cons entry rest ih =>
    unfold replay at h
    rcases commit_cases s entry.transaction with ⟨s₁, hcommit, hdone⟩ | ⟨e, s₁, hcommit, -, -⟩
    · rw [hcommit] at h
      rw [ih h, hdone.tuples, List.flatMap_cons, List.append_assoc]
    · rw [hcommit] at h
      cases h

namespace Compiler

open Lower

variable {c c' : Compiler} {a : ActivityDefinition} {compiled : CompiledActivity} {d : Domain}

theorem tuples_of_finish {store store' : TracedStore} {draft : Draft}
    (h : finish store draft = (.ok compiled, store')) (relation : String) :
    store'.store.tuples relation = store.store.tuples relation ++
      (scheduleTransaction draft.activity.anum draft.graph compiled.schedule).rows relation := by
  unfold finish at h
  split at h
  · cases h
  · rename_i schedule _
    rcases TracedStore.commit_cases store (scheduleTransaction _ _ schedule) with
      ⟨s₁, hcommit, hdone⟩ | ⟨e, s₁, hcommit, -, -⟩
    · rw [hcommit] at h
      cases h
      exact hdone.tuples relation
    · rw [hcommit] at h
      cases h

/-- An attempt that succeeds has appended the rows of the journal and of the schedule. -/
theorem tuples_of_attempt {anum : String} {store : TracedStore}
    (h : c.attempt anum a = (.ok compiled, store)) :
    ∃ draft, c.setting.lower anum (c.pathOf a) a = (.ok (), draft) ∧
      compiled.graph = draft.graph ∧ compiled.activity = draft.activity ∧
      ∀ relation, store.store.tuples relation = c.store.store.tuples relation ++
        (draft.journal.flatMap (·.transaction.rows relation) ++
          (scheduleTransaction draft.activity.anum draft.graph
            compiled.schedule).rows relation) := by
  obtain ⟨draft, hlower, -, hgraph, hactivity⟩ := exists_draft_of_attempt (congrArg Prod.fst h)
  refine ⟨draft, hlower, hgraph, hactivity, fun relation => ?_⟩
  rcases hreplay : c.store.replay (c.pathOf a) draft.journal with ⟨outcome, replayed⟩
  cases outcome with
  | error e =>
    unfold attempt at h
    dsimp only at h
    rw [hlower] at h
    dsimp only at h
    rw [hreplay] at h
    cases h
  | ok _ =>
    rw [attempt_of_lower_ok hlower hreplay] at h
    rw [tuples_of_finish h, TracedStore.tuples_of_replay hreplay, List.append_assoc]

theorem attempt_of_compile_ok (h : c.compile a = (.ok compiled, c')) :
    c.attempt c.nextAnum a = (.ok compiled, c'.store) := by
  unfold compile at h
  split at h
  · cases h
  · split at h
    · rename_i hattempt
      cases h
      exact hattempt
    · cases h

/-- The draft of an activity after some statements of its body. -/
def draftAfter (c : Compiler) (a : ActivityDefinition) (statements : List Statement) : Draft :=
  c.setting.draftAfter c.nextAnum (c.pathOf a) a statements

/-- **Labels are unique.** Let no label that an activity writes have the form of those that are made
for merged flows. Then in the compiled activity a label names a flow exactly when the flow carries
the label. What is added to the relation of labels are the rows of these flows, and their names
differ. A label is one that the activity writes, or it is made for the flow that it names. And
statements of the body that do not write a label leave it with the flow that it names before them,
up to the end of the body. -/
theorem compile_labels (hc : c.domain = d.withBuiltins)
    (hplain : ∀ l, a.Writes c.domain l → Plain l) (h : c.compile a = (.ok compiled, c')) :
    (∀ l f, compiled.graph.label? l = some f ↔ compiled.graph.labelOf? f = some l) ∧
    c'.store.store.tuples "Label" = c.store.store.tuples "Label" ++
      compiled.graph.flows.filterMap (labelRow? compiled.activity.anum) ∧
    ((compiled.graph.flows.filterMap (labelRow? compiled.activity.anum)).map
      (·.get? "Name")).Nodup ∧
    (∀ l f, compiled.graph.label? l = some f →
      a.Writes c.domain l ∨ compiled.graph.Alternative f l) ∧
    (∀ before between after l, a.body = before ++ between ++ after → l ∉ bodyLabels between →
      Plain l → (c.draftAfter a (before ++ between)).graph.label? l =
        (c.draftAfter a before).graph.label? l) ∧
    compiled.graph = (c.draftAfter a a.body).graph := by
  have hs := complete_of_compile hc (congrArg Prod.fst h)
  obtain ⟨draft, hlower, hgraph, hactivity, htuples⟩ := tuples_of_attempt (attempt_of_compile_ok h)
  have hkept : ∀ before between after l, a.body = before ++ between ++ after →
      l ∉ bodyLabels between → Plain l → (c.draftAfter a (before ++ between)).graph.label? l =
        (c.draftAfter a before).graph.label? l :=
    fun before between after l hbody hl hplain =>
      Setting.label?_draftAfter hs hlower hbody hplain hl
  have hend : (c.draftAfter a a.body).graph = draft.graph := Setting.graph_draftAfter_body hlower
  obtain ⟨d', hwalk, hd', rfl⟩ := Setting.lower_walks (W := a.Writes c.domain) hs
    (fun parameters hparameters p hp => Or.inr ⟨parameters, hparameters, p, hp, rfl⟩)
    (fun l hl => Or.inl hl) hlower
  have hlabelled := hwalk.labelled (Draft.ready_start ..) hplain (Draft.labelled_start ..)
  have hrows : (d'.recorded (labelsTransaction d'.activity.anum d'.graph)).journal.flatMap
      (·.transaction.rows "Label") = d'.graph.flows.filterMap (labelRow? d'.activity.anum) := by
    show (d'.journal ++ [_]).flatMap _ = _
    rw [List.flatMap_append, List.flatMap_eq_nil_iff.2 (hwalk.rows_label nofun), List.nil_append,
      List.flatMap_singleton]
    exact List.append_nil _
  rw [hgraph, hactivity]
  refine ⟨fun l f => ⟨fun hl => (hd'.binds l f hl).carried, hlabelled.bound l f⟩, ?_,
    Graph.nodup_label_names hd'.sound.causal.numbered hlabelled.bound, hlabelled.named, hkept,
    hend.symm⟩
  rw [htuples, hrows]
  exact congrArg _ (List.append_nil _)

/-- All labels of the activity with two switches are unique, those of its gates included. -/
theorem nested_labels : ∃ compiled c', single.compile nested = (.ok compiled, c') ∧
    compiled.graph.label? "x" = some ⟨17⟩ ∧ compiled.graph.label? "_ACTN4_y" = some ⟨11⟩ ∧
    (∀ l f, compiled.graph.label? l = some f ↔ compiled.graph.labelOf? f = some l) ∧
    ((compiled.graph.flows.filterMap (labelRow? compiled.activity.anum)).map
      (·.get? "Name")).Nodup := by
  have hcompile : (single.compile nested).1.toOption.any (fun compiled =>
      compiled.graph.label? "x" = some ⟨17⟩ ∧
        compiled.graph.label? "_ACTN4_y" = some ⟨11⟩) = true := by decide +kernel
  have hplain : ∀ l, nested.Writes single.domain l → Plain l := by
    rintro l (hl | ⟨parameters, hparameters, p, hp, -⟩)
    · have hl : l ∈ ["x", "y", "y", "x"] := hl
      simp only [List.mem_cons, List.not_mem_nil, or_false] at hl
      rcases hl with rfl | rfl | rfl | rfl <;> exact plain_of_head (by decide)
    · cases hparameters
      cases hp
  rcases hresult : single.compile nested with ⟨outcome, c'⟩
  rw [hresult] at hcompile
  cases outcome with
  | error e => cases hcompile
  | ok compiled =>
    obtain ⟨hx, hy⟩ := of_decide_eq_true hcompile
    obtain ⟨hunique, -, hnames, -, -, -⟩ := compile_labels (d := oneClass) rfl hplain hresult
    exact ⟨compiled, c', rfl, hx, hy, hunique, hnames⟩

/-! ## A label that is taken over -/

/-- An activity that writes a label of the form made for merged flows, before a switch makes it. -/
def overtaken : ActivityDefinition :=
  let one : Expr := .literal (.integer 1)
  ⟨.state "C" "S", [], "", [.assign "_ACTN2_x" one, .switch (.literal (.boolean true)) [
    ⟨[.boolean true], [.assign "x" one]⟩, ⟨[.boolean false], [.assign "x" one]⟩]]⟩

/-- The label that was written names another flow at the end, and two flows carry it. -/
theorem not_every_label_unique :
    ¬ ∀ (c : Compiler) (d : Domain) (a : ActivityDefinition) (compiled : CompiledActivity),
      c.domain = d.withBuiltins → (c.compile a).1 = .ok compiled →
      ∀ l f, compiled.graph.label? l = some f ↔ compiled.graph.labelOf? f = some l := by
  intro h
  have hcompile : (single.compile overtaken).1.toOption.any (fun compiled =>
      compiled.graph.label? "_ACTN2_x" = some ⟨7⟩ ∧
        compiled.graph.labelOf? ⟨2⟩ = some "_ACTN2_x") = true := by decide +kernel
  rcases hresult : (single.compile overtaken).1 with e | compiled
  · rw [hresult] at hcompile
    cases hcompile
  · rw [hresult] at hcompile
    obtain ⟨hlabel, hcarried⟩ := of_decide_eq_true hcompile
    have hbound := (h single oneClass overtaken compiled rfl hresult "_ACTN2_x" ⟨2⟩).2 hcarried
    rw [hlabel] at hbound
    cases hbound

end Compiler

end ActionFlow
