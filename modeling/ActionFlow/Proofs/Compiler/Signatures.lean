import ActionFlow.Proofs.Compiler.Typing
import ActionFlow.Proofs.Lowering.Steadiness

/-!
# Callers and callees

A call and the activity that it calls read the same signature, each in its own way. The activity
gets one flow for each declared parameter, under its name, and the flow carries what the declared
name stands for (`Setting.parameters_of_lower`); the body leaves these flows as they are. The call
supplies one value for each declared name, and a value fits by its own name.

So a call supplies the names of the parameters in their order, each once, and every value carries
what the first parameter with its name does, or it is a scalar where the activity takes an instance
of a class named like its type (`compile_calls`). Where the names of a signature are all different
and no class is named like a scalar type, the two agree one by one. In all other cases they may not:
a name that is declared twice is supplied once, and a scalar is supplied where an instance is taken
(`not_every_call_agrees`).
-/

namespace ActionFlow

/-- The activity that is called. -/
def ActionKind.callee? : ActionKind → Option ActivityKind
  | .methodCall className method _ _ _ => some (.method className method)
  | .externalCall entity operation _ _ => some (.operation entity operation)
  | _ => none

/-! ## The parameters of an activity -/

namespace Domain

/-- A parameter of an activity has the declared name, and its flow carries what is declared. -/
def Realizes (d : Domain) (Γ : FlowTyping) (p : Parameter) (v : String × FlowId) : Prop :=
  v.1 = p.name ∧ ∃ spec, Lower.declaredType? d p.typeName = some spec ∧ Γ v.2 = some spec

variable {d : Domain} {Γ : FlowTyping} {declared : List Parameter} {values : List (String × FlowId)}

theorem Realizes.mono {Γ' : FlowTyping} (hΓ : ∀ f x, Γ f = some x → Γ' f = some x) {p : Parameter}
    {v : String × FlowId} (h : d.Realizes Γ p v) : d.Realizes Γ' p v := by
  obtain ⟨hname, spec, hspec, hv⟩ := h
  exact ⟨hname, spec, hspec, hΓ _ _ hv⟩

theorem realizes_names (h : List.Forall₂ (d.Realizes Γ) declared values) :
    values.map Prod.fst = declared.map (·.name) := by
  induction h with
  | nil => rfl
  | cons hfirst _ ih => rw [List.map_cons, List.map_cons, hfirst.1, ih]

/-- The first parameter with a name is the first one that is declared under it. -/
theorem realizes_find? (h : List.Forall₂ (d.Realizes Γ) declared values) {name : String}
    {p : Parameter} (hp : declared.find? (·.name = name) = some p) :
    ∃ v, values.find? (·.1 = name) = some v ∧ d.Realizes Γ p v := by
  induction h with
  | nil => cases hp
  | @cons q v declared values hfirst _ ih =>
    rw [List.find?_cons] at hp ⊢
    rw [hfirst.1]
    by_cases hname : q.name = name
    · simp only [hname, decide_true] at hp ⊢
      cases hp
      exact ⟨v, rfl, hfirst⟩
    · simp only [hname, decide_false] at hp ⊢
      exact ih hp

end Domain

namespace Lower

variable {s : Setting} {d d' : Draft}

theorem exec_openInstance {kind : ActivityKind} (h : (openInstance kind).exec d = (.ok (), d')) :
    d'.activity.parameters = d.activity.parameters ∧ d'.activity.kind = d.activity.kind := by
  unfold openInstance at h
  split at h
  · cases h
    exact ⟨rfl, rfl⟩
  · rw [exec_bind_ok (exec_seed d ..)] at h
    cases h
    exact ⟨rfl, rfl⟩

/-- A parameter is supplied under its name, and its flow carries what is declared. -/
theorem exec_openParameter {kind : ActivityKind} {p : Parameter}
    (h : (openParameter s kind p).exec d = (.ok (), d')) :
    ∃ f, d'.activity.parameters = d.activity.parameters ++ [(p.name, f)] ∧
      d'.activity.kind = d.activity.kind ∧ d.graph.Grows d'.graph ∧
      s.domain.Realizes d'.graph.shape? p (p.name, f) := by
  unfold openParameter at h
  obtain ⟨spec, d₁, hrequire, hrest⟩ := exec_bind_inv h
  obtain ⟨hspec, rfl⟩ : declaredType? s.domain p.typeName = some spec ∧ d = d₁ := by
    cases hdeclared : declaredType? s.domain p.typeName with
    | none => rw [hdeclared] at hrequire; cases hrequire
    | some spec' => rw [hdeclared] at hrequire; cases hrequire; exact ⟨rfl, rfl⟩
  rw [exec_bind_ok (exec_seed d ..)] at hrest
  cases hrest
  have hsame := Graph.SameButLabels.of_setLabel
    (d.graph.addFlow spec.1 spec.2 (some (.parameter p.name))) d.graph.nextFlow p.name
  refine ⟨d.graph.nextFlow, rfl, rfl, (Graph.Grows.addFlow ..).trans (.of_sameButLabels hsame),
    rfl, spec, hspec, ?_⟩
  exact (hsame.shape? _).trans ((Graph.shape?_addFlow ..).trans (if_pos rfl))

theorem exec_openParameters {kind : ActivityKind} {declared rest : List Parameter}
    (hdone : List.Forall₂ (s.domain.Realizes d.graph.shape?) declared d.activity.parameters)
    (h : (rest.forM (openParameter s kind)).exec d = (.ok (), d')) :
    List.Forall₂ (s.domain.Realizes d'.graph.shape?) (declared ++ rest) d'.activity.parameters ∧
      d'.activity.kind = d.activity.kind := by
  induction rest generalizing d declared with
  | nil =>
    cases h
    rw [List.append_nil]
    exact ⟨hdone, rfl⟩
  | cons p rest ih =>
    obtain ⟨_, d₁, hfirst, hrest⟩ := exec_bind_inv h
    obtain ⟨f, hparameters, hkind, hgrows, hf⟩ := exec_openParameter hfirst
    have hdone₁ : List.Forall₂ (s.domain.Realizes d₁.graph.shape?) (declared ++ [p])
        d₁.activity.parameters := by
      rw [hparameters]
      exact List.rel_append (hdone.imp fun _ _ => .mono hgrows.mono) (.cons hf .nil)
    obtain ⟨hall, hkind'⟩ := ih hdone₁ hrest
    rw [List.append_assoc, List.singleton_append] at hall
    exact ⟨hall, hkind'.trans hkind⟩

theorem exec_opening {a : ActivityDefinition}
    (hnone : d.activity.parameters = []) (h : (opening s a).exec d = (.ok (), d')) :
    ∃ declared, s.domain.activityParameters? a = some declared ∧
      List.Forall₂ (s.domain.Realizes d'.graph.shape?) declared d'.activity.parameters ∧
      d'.activity.kind = d.activity.kind := by
  unfold opening at h
  cases hdeclared : s.domain.activityParameters? a with
  | none =>
    rw [hdeclared] at h
    cases h
  | some declared =>
    rw [hdeclared] at h
    have hrest : (do openInstance a.kind; declared.forM (openParameter s a.kind)).exec
        (d.recorded (activityTransaction d.activity)) = (.ok (), d') := h
    obtain ⟨_, d₁, hinstance, hparameters⟩ := exec_bind_inv hrest
    obtain ⟨hsame, hkind⟩ := exec_openInstance hinstance
    have hnothing : List.Forall₂ (s.domain.Realizes d₁.graph.shape?) []
        d₁.activity.parameters := by
      rw [hsame.trans hnone]
      exact .nil
    obtain ⟨hall, hkind'⟩ := exec_openParameters hnothing hparameters
    exact ⟨declared, rfl, hall, hkind'.trans hkind⟩

end Lower

namespace Setting

open Lower

variable {s : Setting} {anum path : String} {a : ActivityDefinition} {d : Draft}

/-- **The parameters of an activity** are those that are declared, and their flows carry what is
declared. -/
theorem parameters_of_lower (h : s.lower anum path a = (.ok (), d)) :
    ∃ declared, s.domain.activityParameters? a = some declared ∧ d.activity.kind = a.kind ∧
      List.Forall₂ (s.domain.Realizes d.graph.shape?) declared d.activity.parameters := by
  obtain ⟨hopening, d', hbody, rfl⟩ := exec_of_lower h
  obtain ⟨declared, hdeclared, hopened, hkind⟩ := exec_opening rfl hopening
  have hactivity : d'.activity = (s.opened anum path a).activity := by
    have hsame := (body_steady (H := fun _ => True) s a.body fun _ _ => trivial).activity
      (s.opened anum path a)
    rwa [hbody] at hsame
  have hgrows : (s.opened anum path a).graph.Grows d'.graph := by
    have hsound : (s.opened anum path a).Sound := by
      have hstart := Draft.sound_start s.domain.name anum path a
      have hwalk := opened_walk (W := fun _ => True) (fun _ _ _ _ => trivial) h
      exact (hwalk.reaches hstart).sound hstart
    rcases body_extends (s := s) hsound a.body with ⟨_, d₁, hexec, hreaches, -⟩ | ⟨e, d₁, hexec, -⟩
    · rw [hbody] at hexec
      cases hexec
      exact hreaches.grows
    · rw [hbody] at hexec
      cases hexec
  refine ⟨declared, hdeclared, ?_, ?_⟩
  · show d'.activity.kind = a.kind
    rw [hactivity, hkind]
    rfl
  · show List.Forall₂ (s.domain.Realizes d'.graph.shape?) declared d'.activity.parameters
    rw [hactivity]
    exact hopened.imp fun _ _ => .mono hgrows.mono

end Setting

/-! ## Values and parameters -/

theorem eraseDups_of_nodup {l : List String} (h : l.Nodup) : l.eraseDups = l := by
  induction l with
  | nil => rfl
  | cons x rest ih =>
    obtain ⟨hx, hrest⟩ := List.nodup_cons.1 h
    have hfilter : rest.filter (fun y => !y == x) = rest := by
      rw [List.filter_eq_self]
      intro y hy
      simp only [Bool.not_eq_true', beq_eq_false_iff_ne, ne_eq]
      rintro rfl
      exact hx hy
    rw [List.eraseDups_cons, hfilter, ih hrest]

namespace Domain

variable {d : Domain} {Γ Γ' : FlowTyping} {p : Parameter} {v : String × FlowId} {f : FlowId}

/-- The value that is supplied is a scalar, and the parameter takes an instance of a class that is
named like its type. -/
def Confuses (d : Domain) (Γ Γ' : FlowTyping) (f f' : FlowId) : Prop :=
  ∃ name, d.Defines name ∧ d.hasClass name = true ∧ Γ f = some (.scalar, .scalar name) ∧
    Γ' f' = some (.singleInstance, .object name)

/-- A value that fits a declared name carries what the parameter does, unless it is a scalar and
there is a class of that name. -/
theorem agrees_or_confuses (hf : d.Carries Γ f p.typeName) (hv : d.Realizes Γ' p v) :
    (∃ x, Γ f = some x ∧ Γ' v.2 = some x) ∨ d.Confuses Γ Γ' f v.2 := by
  obtain ⟨-, spec, hspec, hv⟩ := hv
  unfold Lower.declaredType? at hspec
  by_cases hclass : d.hasClass p.typeName = true
  · rw [if_pos hclass] at hspec
    cases hspec
    rcases hf with ⟨hdefines, hf⟩ | ⟨-, hf⟩
    · exact Or.inr ⟨p.typeName, hdefines, hclass, hf, hv⟩
    · exact Or.inl ⟨_, hf, hv⟩
  · rw [if_neg hclass] at hspec
    rcases hf with ⟨hdefines, hf⟩ | ⟨hclass', -⟩
    · unfold Defines at hdefines
      rw [if_pos hdefines] at hspec
      cases hspec
      exact Or.inl ⟨_, hf, hv⟩
    · exact absurd hclass' hclass

/-- Two lists with the same names, where names decide what belongs together, agree one by one. -/
theorem forall₂_of_names {R : String × FlowId → String × FlowId → Prop}
    {supplied values : List (String × FlowId)}
    (hnames : supplied.map Prod.fst = values.map Prod.fst) (hnodup : (values.map Prod.fst).Nodup)
    (h : ∀ v ∈ supplied, ∃ w, values.find? (·.1 = v.1) = some w ∧ R v w) :
    List.Forall₂ (fun v w => v.1 = w.1 ∧ R v w) supplied values := by
  have hlength : supplied.length = values.length := by
    simpa using congrArg List.length hnames
  have halike : List.Forall₂ (fun v w : String × FlowId => v.1 = w.1) supplied values := by
    have heq : List.Forall₂ (· = ·) (supplied.map Prod.fst) (values.map Prod.fst) := by
      rw [hnames, List.forall₂_eq_eq_eq]
    exact List.forall₂_map_right_iff.1 (List.forall₂_map_left_iff.1 heq)
  refine List.forall₂_iff_zip.2 ⟨hlength, fun {v w} hmem => ?_⟩
  have hname : v.1 = w.1 := (List.forall₂_iff_zip.1 halike).2 hmem
  obtain ⟨hv, hw⟩ := List.of_mem_zip hmem
  obtain ⟨w', hfound, hR⟩ := h v hv
  have hsame : w' = w := by
    refine List.inj_on_of_nodup_map hnodup (List.mem_of_find?_eq_some hfound) hw ?_
    have hw' := List.find?_some hfound
    rw [decide_eq_true_iff] at hw'
    rw [hw', hname]
  exact ⟨hname, hsame ▸ hR⟩

end Domain

/-! ## Calls -/

namespace Compiler

variable {caller callee : Compiler} {a b : ActivityDefinition} {x y : CompiledActivity} {d : Domain}

/-- A call supplies the parameters that are declared for what it calls. -/
theorem supplies_of_callee {kind : ActionKind} {Γ : FlowTyping} (htypes : d.Types Γ kind)
    (hcallee : kind.callee? = some b.kind) {declared : List Parameter}
    (hdeclared : d.activityParameters? b = some declared) :
    d.Supplies Γ declared kind.supplied := by
  unfold Domain.activityParameters? at hdeclared
  cases htypes with
  | methodCall hreceiver hc hsig hparameters _ =>
    rw [← Option.some.inj hcallee] at hdeclared
    simp only [hc, hsig, Option.bind_eq_bind, Option.bind_some, Option.pure_def,
      Option.some.injEq] at hdeclared
    exact hdeclared ▸ hparameters
  | externalCall he hsig hparameters _ =>
    rw [← Option.some.inj hcallee] at hdeclared
    simp only [he, hsig, Option.bind_eq_bind, Option.bind_some, Option.pure_def,
      Option.some.injEq] at hdeclared
    exact hdeclared ▸ hparameters
  | _ => cases hcallee

/-- **Callers and callees.** A call in one compiled activity and the parameters of another one that
it calls, both compiled against one model. The call supplies the names of the parameters in their
order, each once. Every value carries what the first parameter with its name does, or it is a scalar
where the parameter takes an instance of a class that is named like its type. If the parameters have
different names and no class is named like a scalar type, values and parameters agree one by one. -/
theorem compile_calls (hd : caller.domain = d.withBuiltins) (hsame : callee.domain = caller.domain)
    (hx : (caller.compile a).1 = .ok x) (hy : (callee.compile b).1 = .ok y) {act : Action}
    (hact : act ∈ x.graph.actions) (hcallee : act.kind.callee? = some y.activity.kind) :
    act.kind.supplied.map Prod.fst = (y.activity.parameters.map Prod.fst).eraseDups ∧
    (∀ v ∈ act.kind.supplied, ∃ p, y.activity.parameters.find? (·.1 = v.1) = some p ∧
      ((∃ shape, x.graph.shape? v.2 = some shape ∧ y.graph.shape? p.2 = some shape) ∨
        caller.domain.Confuses x.graph.shape? y.graph.shape? v.2 p.2)) ∧
    ((y.activity.parameters.map Prod.fst).Nodup →
      (∀ name, caller.domain.Defines name → caller.domain.hasClass name = false) →
      List.Forall₂ (fun v p => v.1 = p.1 ∧
          ∃ shape, x.graph.shape? v.2 = some shape ∧ y.graph.shape? p.2 = some shape)
        act.kind.supplied y.activity.parameters) := by
  obtain ⟨draft, hlower, -, hgraph, hactivity⟩ := exists_draft_of_attempt (attempt_of_compile hy)
  obtain ⟨declared, hdeclared, hkind, hparameters⟩ := Setting.parameters_of_lower hlower
  rw [← hactivity] at hkind hparameters
  rw [← hgraph] at hparameters
  obtain ⟨d', hwalk, -, hwalked⟩ := exists_walk_of_compile (W := fun _ => True) hd hx
    (fun _ _ _ _ => trivial) fun _ _ => trivial
  have htypes : caller.domain.Types x.graph.shape? act.kind := by
    rw [hwalked] at hact ⊢
    exact (hwalk.wellTyped (Draft.ready_start ..) rfl).actions act hact
  have hdomain : callee.setting.domain = caller.domain := hsame
  rw [hdomain] at hdeclared hparameters
  have hsupplies := supplies_of_callee htypes (hcallee.trans (congrArg some hkind)) hdeclared
  have hnames : act.kind.supplied.map Prod.fst =
      (y.activity.parameters.map Prod.fst).eraseDups := by
    rw [hsupplies.names, Domain.realizes_names hparameters]
  have hvalues : ∀ v ∈ act.kind.supplied, ∃ p,
      y.activity.parameters.find? (·.1 = v.1) = some p ∧
        ((∃ shape, x.graph.shape? v.2 = some shape ∧ y.graph.shape? p.2 = some shape) ∨
          caller.domain.Confuses x.graph.shape? y.graph.shape? v.2 p.2) := by
    intro v hv
    obtain ⟨p, hp, hcarries⟩ := hsupplies.carries v hv
    obtain ⟨w, hw, hrealizes⟩ := Domain.realizes_find? hparameters hp
    exact ⟨w, hw, Domain.agrees_or_confuses hcarries hrealizes⟩
  refine ⟨hnames, hvalues, fun hnodup hseparate => ?_⟩
  refine Domain.forall₂_of_names (hnames.trans (eraseDups_of_nodup hnodup)) hnodup fun v hv => ?_
  obtain ⟨p, hp, hagree | ⟨name, hdefines, hclass, -⟩⟩ := hvalues v hv
  · exact ⟨p, hp, hagree⟩
  · rw [hseparate name hdefines] at hclass
    cases hclass

/-! ## Names that do not tell parameters apart -/

/-- A domain with a class named like the type of numbers, and a class with two methods: one takes a
parameter of that name, the other has two parameters of one name. -/
def ambiguous : Domain :=
  ⟨"D", [⟨"Integer", [], [], []⟩, ⟨"C", [], [⟨"m", [⟨"n", integerType⟩], none⟩,
    ⟨"t", [⟨"x", integerType⟩, ⟨"x", integerType⟩], none⟩], []⟩], [], [], []⟩

/-- A compiler for the domain, over an empty store. -/
def undecided : Compiler := .new ambiguous .explicit (.ofStore .empty fun _ _ => false)

/-- An activity that calls both methods with a number. -/
def callsBoth : ActivityDefinition :=
  let me : Expr := .instances [.name "me"]
  let one : Expr := .literal (.integer 1)
  ⟨.state "C" "S", [], "",
    [.call (.method me "m" [⟨"n", one⟩]), .call (.method me "t" [⟨"x", one⟩])]⟩

/-- A method that does nothing. -/
def emptyMethod (name : String) : ActivityDefinition := ⟨.method "C" name, [], "", []⟩

theorem exists_compile_callsBoth :
    ∃ x y z, (undecided.compile callsBoth).1 = .ok x ∧
      (undecided.compile (emptyMethod "m")).1 = .ok y ∧
      (undecided.compile (emptyMethod "t")).1 = .ok z ∧
      (⟨⟨1⟩, .methodCall "C" "m" ⟨1⟩ [("n", ⟨2⟩)] none, none⟩ : Action) ∈ x.graph.actions ∧
      (⟨⟨2⟩, .methodCall "C" "t" ⟨1⟩ [("x", ⟨3⟩)] none, none⟩ : Action) ∈ x.graph.actions ∧
      y.activity.kind = .method "C" "m" ∧ y.activity.parameters = [("n", ⟨2⟩)] ∧
      x.graph.shape? ⟨2⟩ = some (.scalar, .scalar "Integer") ∧
      y.graph.shape? ⟨2⟩ = some (.singleInstance, .object "Integer") ∧
      z.activity.kind = .method "C" "t" ∧
      z.activity.parameters = [("x", ⟨2⟩), ("x", ⟨3⟩)] := by
  have hx : (undecided.compile callsBoth).1.toOption.any (fun x =>
      (⟨⟨1⟩, .methodCall "C" "m" ⟨1⟩ [("n", ⟨2⟩)] none, none⟩ : Action) ∈ x.graph.actions ∧
      (⟨⟨2⟩, .methodCall "C" "t" ⟨1⟩ [("x", ⟨3⟩)] none, none⟩ : Action) ∈ x.graph.actions ∧
      x.graph.shape? ⟨2⟩ = some (.scalar, .scalar "Integer")) = true := by decide +kernel
  have hy : (undecided.compile (emptyMethod "m")).1.toOption.any (fun y =>
      y.activity.kind = .method "C" "m" ∧ y.activity.parameters = [("n", ⟨2⟩)] ∧
      y.graph.shape? ⟨2⟩ = some (.singleInstance, .object "Integer")) = true := by decide +kernel
  have hz : (undecided.compile (emptyMethod "t")).1.toOption.any (fun z =>
      z.activity.kind = .method "C" "t" ∧
      z.activity.parameters = [("x", ⟨2⟩), ("x", ⟨3⟩)]) = true := by decide +kernel
  generalize (undecided.compile callsBoth).1 = ox at hx
  generalize (undecided.compile (emptyMethod "m")).1 = oy at hy
  generalize (undecided.compile (emptyMethod "t")).1 = oz at hz
  cases ox with
  | error e => cases hx
  | ok x =>
    cases oy with
    | error e => cases hy
    | ok y =>
      cases oz with
      | error e => cases hz
      | ok z =>
        obtain ⟨hm, ht, hscalar⟩ := of_decide_eq_true hx
        obtain ⟨hkind, hparameters, hinstance⟩ := of_decide_eq_true hy
        obtain ⟨hkind', hparameters'⟩ := of_decide_eq_true hz
        exact ⟨x, y, z, rfl, rfl, rfl, hm, ht, hkind, hparameters, hscalar, hinstance, hkind',
          hparameters'⟩

/-- The name that is declared twice is supplied once. -/
theorem callsBoth_names : ∃ x z, (undecided.compile callsBoth).1 = .ok x ∧
    (undecided.compile (emptyMethod "t")).1 = .ok z ∧
    z.activity.parameters.map Prod.fst = ["x", "x"] ∧
    ∃ act ∈ x.graph.actions, act.kind.callee? = some z.activity.kind ∧
      act.kind.supplied.map Prod.fst = ["x"] := by
  obtain ⟨x, -, z, hx, -, hz, -, hcall, -, -, -, -, hkind, hparameters⟩ := exists_compile_callsBoth
  refine ⟨x, z, hx, hz, by rw [hparameters]; rfl, _, hcall, by rw [hkind]; rfl, ?_⟩
  rw [(compile_calls (d := ambiguous) rfl rfl hx hz hcall (by rw [hkind]; rfl)).1, hparameters]
  decide

/-- Values and parameters do not always agree, not even if there is only one of each. -/
theorem not_every_call_agrees :
    ¬ ∀ (caller callee : Compiler) (d : Domain) (a b : ActivityDefinition)
      (x y : CompiledActivity), caller.domain = d.withBuiltins → callee.domain = caller.domain →
      (caller.compile a).1 = .ok x → (callee.compile b).1 = .ok y →
      ∀ act ∈ x.graph.actions, act.kind.callee? = some y.activity.kind →
        List.Forall₂ (fun v p => v.1 = p.1 ∧ x.graph.shape? v.2 = y.graph.shape? p.2)
          act.kind.supplied y.activity.parameters := by
  intro h
  obtain ⟨x, y, -, hx, hy, -, hcall, -, hkind, hparameters, hscalar, hinstance, -, -⟩ :=
    exists_compile_callsBoth
  have hagree := h undecided undecided ambiguous callsBoth (emptyMethod "m") x y rfl rfl hx hy _
    hcall (by rw [hkind]; rfl)
  rw [hparameters] at hagree
  obtain ⟨⟨-, hshape⟩, -⟩ := List.forall₂_cons.1 hagree
  rw [hscalar, hinstance] at hshape
  cases hshape

end Compiler

end ActionFlow
