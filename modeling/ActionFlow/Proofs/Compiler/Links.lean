import ActionFlow.Proofs.Compiler.Extension
import ActionFlow.Proofs.Compiler.Typing
import ActionFlow.Proofs.Model.Lookup

/-!
# Links of new instances

A creation lists relationships with the instance to link the new one to. Of the two ends of such a
link only one is compared with the relationship: the class of the new instance has to be one that
can be linked on it (`Relationship.links`), while the other end may be an instance of any class.
What a compiled activity links is therefore exactly what the first check and the classes of the
domain allow (`exists_links_iff`). Whether the other end always takes part in the relationship
(`Compiler.LinksFit`) is a matter of the domain alone: it does if every class of the domain takes
part in every relationship on which something can be linked, and otherwise some activity compiles
that links an instance of a class that does not (`compile_links`).
-/

namespace ActionFlow

/-- Whether a new instance can be linked to an instance of a class on a relationship: the class is
one of the sides or the association class of an association, or the superclass of a
generalization. -/
def Relationship.linksTo (className : String) : Relationship → Bool
  | .association a => a.isParticipant className || a.isAssociationClass className
  | .generalization g => g.superclass = className
  | .ordinal _ => false

theorem Relationship.mem_mentions_of_links {r : Relationship} {className : String}
    (h : r.links className = true) : className ∈ r.mentions := by
  cases r with
  | association a =>
    simp only [links, Association.isParticipant, Association.isAssociationClass, Bool.or_eq_true,
      decide_eq_true_eq, Option.any_eq_true] at h
    unfold mentions
    grind
  | generalization g => exact List.mem_cons_of_mem _ (List.contains_iff_mem.1 h)
  | ordinal o => cases h

/-- A class that can be linked on a relationship is defined. -/
theorem Domain.Coherent.hasClass_of_links {d : Domain} (hd : d.Coherent) {rnum className : String}
    {r : Relationship} (hr : d.findRelationship rnum = some r) (h : r.links className = true) :
    d.hasClass className = true :=
  hd.mentions r (List.mem_of_find?_eq_some hr) className (Relationship.mem_mentions_of_links h)

/-- A creation of an activity links an instance of a class, on a relationship, to an instance of
another class. -/
def CompiledActivity.Links (compiled : CompiledActivity) (className rnum other : String) : Prop :=
  ∃ act ∈ compiled.graph.actions, ∃ attributes references output f,
    act.kind = .create className attributes references output ∧ (rnum, f) ∈ references ∧
      compiled.graph.shape? f = some (.singleInstance, .object other)

/-! ## A creation that links the executing instance -/

/-- A creation that links the new instance to the executing one. -/
def Creation.linking (className rnum : String) : Creation :=
  ⟨className, none, [], [(rnum, .instances [.name Lower.selfName])]⟩

/-- A state of a class in which an instance of another one is created and linked. -/
def ActivityDefinition.linking (other className rnum : String) : ActivityDefinition :=
  ⟨.state other "S", [], "", [.create (.linking className rnum)]⟩

namespace Lower

variable {s : Setting} {d : Draft} {className rnum other : String} {r : Relationship}

/-- An activity of a state begins with the executing instance. -/
theorem exec_opening_state {a : ActivityDefinition} {state : String}
    (hkind : a.kind = .state other state) (hparameters : a.parameters = [])
    (hother : s.domain.hasClass other = true) (anum path : String) :
    ∃ d me, (opening s a).exec (.start s.domain.name anum path a) = (.ok (), d) ∧
      d.activity.executingInstance = some me ∧
      d.graph.shape? me = some (.singleInstance, .object other) := by
  have hdeclared : s.domain.activityParameters? a = some [] := by
    unfold Domain.activityParameters?
    rw [hkind]
    dsimp only
    rw [if_pos hother, hparameters]
  unfold opening
  rw [hdeclared, hkind]
  exact ⟨_, ⟨1⟩, rfl, rfl, rfl⟩

theorem exec_expectSingleInstance {id : FlowId} (operation : String)
    (hshape : d.graph.shape? id = some (.singleInstance, .object className)) :
    (expectSingleInstance id operation).exec d = (.ok className, d) := by
  unfold expectSingleInstance expectInstance
  rw [exec_bind_ok (exec_flow id d), if_pos (flow_of_shape hshape).1,
    exec_bind_ok (exec_flow id d), instanceClass?_of_shape rfl hshape]
  rfl

theorem exec_body_single (st : Statement) {d' : Draft}
    (h : (statement s st).exec { d with fragment := some st.headline } = (.ok (), d')) :
    (body s [st]).exec d = (.ok (), { d' with fragment := d.fragment }) := by
  have hheaded : (headed st.headline (statement s st)).exec d =
      (.ok (), { d' with fragment := d.fragment }) := by
    rw [exec_headed, h]
  rw [body_cons, exec_bind_ok hheaded]
  rfl

theorem exec_executing {me : FlowId} (hme : d.activity.executingInstance = some me) :
    (expr s none (.instances [.name selfName])).exec d = (.ok (.existing me), d) := by
  have hfound : executingInstance.exec d = (.ok me, d) := by
    show (require _ d.activity.executingInstance).exec d = _
    rw [hme]
    rfl
  show (resolveName s selfName >>= fun id => pure (Chain.existing id)).exec d = _
  unfold resolveName
  rw [if_pos rfl, exec_bind_ok hfound]
  rfl

/-- The executing instance is linked whatever its class is. -/
theorem exec_create_linking {me : FlowId} (hme : d.activity.executingInstance = some me)
    (hshape : d.graph.shape? me = some (.singleInstance, .object other))
    (hclass : s.domain.hasClass className = true) (hr : s.domain.findRelationship rnum = some r)
    (hlinks : r.links className = true) :
    (create s (.linking className rnum)).exec d = (.ok (),
      d.acted [(.singleInstance, .object className)]
        (.create className [] [(rnum, me)] d.graph.nextFlow)) := by
  obtain ⟨cls, hcls⟩ := Option.isSome_iff_exists.1 hclass
  have hreferences : (references s className ("create " ++ className)
      (Creation.linking className rnum).references).exec d = (.ok [(rnum, me)], d) := by
    unfold Creation.linking references
    rw [hr, exec_bind_ok (show (require _ (some r)).exec d = (.ok r, d) from rfl), hlinks]
    show (expr s none (.instances [.name selfName]) >>= _).exec d = _
    rw [exec_bind_ok (exec_executing hme)]
    exact exec_bind_ok (exec_expectSingleInstance _ hshape)
  unfold create
  show (require _ (s.domain.findClass className) >>= _).exec d = _
  rw [hcls, exec_bind_ok (show (require _ (some cls)).exec d = (.ok cls, d) from rfl)]
  show (references s className ("create " ++ className)
      (Creation.linking className rnum).references >>= _).exec d = _
  rw [exec_bind_ok hreferences]
  rfl

end Lower

/-- The creation is all that the activity is made of. -/
theorem Setting.result_linking {s : Setting} {className rnum other : String} {r : Relationship}
    (hother : s.domain.hasClass other = true) (hclass : s.domain.hasClass className = true)
    (hr : s.domain.findRelationship rnum = some r) (hlinks : r.links className = true)
    (anum path : String) :
    ∃ compiled, s.result anum path (.linking other className rnum) = .ok compiled ∧
      compiled.Links className rnum other := by
  obtain ⟨d, me, hopening, hme, hshape⟩ := Lower.exec_opening_state
    (a := .linking other className rnum) rfl rfl hother anum path
  have hcreate := Lower.exec_create_linking (s := s)
    (d := { d with fragment := some (Statement.create (.linking className rnum)).headline })
    hme hshape hclass hr hlinks
  have hbody := Lower.exec_body_single (.create (.linking className rnum)) hcreate
  obtain ⟨schedule, -, hresult⟩ := result_of_lower (lower_of_exec hopening hbody)
  refine ⟨_, hresult, ⟨d.graph.nextAction, .create className [] [(rnum, me)] d.graph.nextFlow,
    d.control⟩, ?_, [], [(rnum, me)], d.graph.nextFlow, me, rfl, List.mem_singleton_self _, ?_⟩
  · show _ ∈ (d.graph.addProducer ..).actions
    rw [Graph.actions_addProducer]
    exact List.mem_append_right _ (List.mem_singleton_self _)
  · show (d.graph.addProducer ..).shape? me = _
    rw [Graph.shape?_addProducer_of_has (Graph.has_of_shape? hshape), hshape]

namespace Compiler

variable {c : Compiler} {a : ActivityDefinition} {compiled : CompiledActivity} {d : Domain}

/-- Whatever a creation is linked to takes part in the relationship it is linked on. -/
def LinksFit (c : Compiler) : Prop :=
  ∀ a compiled, (c.compile a).1 = .ok compiled → ∀ className rnum other,
    compiled.Links className rnum other →
      ∃ r, c.domain.findRelationship rnum = some r ∧ r.linksTo other = true

/-- One end of a link is checked against the relationship, the other one is some instance. -/
theorem references_of_compile (hc : c.domain = d.withBuiltins)
    (h : (c.compile a).1 = .ok compiled) {act : Action} (hact : act ∈ compiled.graph.actions)
    {className : String} {attributes references : List (String × FlowId)} {output : FlowId}
    (hkind : act.kind = .create className attributes references output) :
    ∀ v ∈ references, ∃ r other, c.domain.findRelationship v.1 = some r ∧
      r.links className = true ∧ compiled.graph.shape? v.2 = some (.singleInstance, .object other) ∧
      c.domain.hasClass other = true := by
  obtain ⟨d', hwalk, hready, hgraph⟩ := exists_walk_of_compile (W := fun _ => True) hc h
    (fun _ _ _ _ => trivial) fun _ _ => trivial
  rw [hgraph] at hact ⊢
  have htypes := (hwalk.wellTyped (Draft.ready_start ..) rfl).actions act hact
  rw [hkind] at htypes
  cases htypes with
  | create _ _ hreferences _ =>
    intro v hv
    obtain ⟨r, hr, hlinks, other, hother⟩ := hreferences v hv
    exact ⟨r, other, hr, hlinks, hother, (hready.agrees _ _ hother).2⟩

/-- An activity that links its executing instance compiles, whatever the class of that is. -/
theorem exists_compile_linking (hcalm : c.store.Calm) (hvalid : c.domain.validate = .ok ())
    (className rnum other : String) {r : Relationship}
    (hr : c.domain.findRelationship rnum = some r) (hlinks : r.links className = true)
    (hother : c.domain.hasClass other = true) :
    ∃ compiled, (c.compile (.linking other className rnum)).1 = .ok compiled ∧
      compiled.Links className rnum other := by
  have hclass := (Domain.coherent_of_validate hvalid).hasClass_of_links hr hlinks
  obtain ⟨compiled, hresult, hcompiled⟩ := Setting.result_linking (s := c.setting) hother hclass
    hr hlinks c.nextAnum (c.pathOf (.linking other className rnum))
  refine ⟨compiled, ?_, hcompiled⟩
  rw [compile_result hcalm, hvalid]
  exact hresult

/-- What can be linked by an activity that compiles. -/
theorem exists_links_iff (hc : c.domain = d.withBuiltins) (hcalm : c.store.Calm)
    (hvalid : c.domain.validate = .ok ()) {className rnum other : String} :
    (∃ a compiled, (c.compile a).1 = .ok compiled ∧ compiled.Links className rnum other) ↔
      ∃ r, c.domain.findRelationship rnum = some r ∧ r.links className = true ∧
        c.domain.hasClass other = true := by
  constructor
  · rintro ⟨a, compiled, h, act, hact, attributes, references, output, f, hkind, hf, hshape⟩
    obtain ⟨r, other', hr, hlinks, hshape', hother⟩ :=
      references_of_compile hc h hact hkind (rnum, f) hf
    cases hshape.symm.trans hshape'
    exact ⟨r, hr, hlinks, hother⟩
  · rintro ⟨r, hr, hlinks, hother⟩
    exact ⟨_, exists_compile_linking hcalm hvalid className rnum other hr hlinks hother⟩

/-- **Links of new instances.** In every activity that compiles, each creation is linked on
relationships on which its class can be linked, each time to one instance of some defined class. Let
the domain be valid and let the store refuse nothing. Then every class occurs there: a class, a
relationship and another class come together in some activity exactly if an instance of the first
one can be linked on the relationship and the other one is defined. So whatever is linked takes part
in the relationship exactly if every class of the domain takes part in every relationship on which
something can be linked. -/
theorem compile_links (hc : c.domain = d.withBuiltins) :
    (∀ a compiled, (c.compile a).1 = .ok compiled → ∀ act ∈ compiled.graph.actions,
      ∀ className attributes references output,
        act.kind = .create className attributes references output →
        ∀ v ∈ references, ∃ r other, c.domain.findRelationship v.1 = some r ∧
          r.links className = true ∧
          compiled.graph.shape? v.2 = some (.singleInstance, .object other) ∧
          c.domain.hasClass other = true) ∧
    (c.domain.validate = .ok () → c.store.Calm →
      (∀ className rnum other,
        (∃ a compiled, (c.compile a).1 = .ok compiled ∧ compiled.Links className rnum other) ↔
          ∃ r, c.domain.findRelationship rnum = some r ∧ r.links className = true ∧
            c.domain.hasClass other = true) ∧
      (c.LinksFit ↔ ∀ rnum r className other, c.domain.findRelationship rnum = some r →
        r.links className = true → c.domain.hasClass other = true → r.linksTo other = true)) := by
  refine ⟨fun a compiled h act hact className attributes references output hkind =>
    references_of_compile hc h hact hkind, fun hvalid hcalm =>
      ⟨fun _ _ _ => exists_links_iff hc hcalm hvalid, ?_, ?_⟩⟩
  · intro hfit rnum r className other hr hlinks hother
    obtain ⟨a, compiled, h, hcompiled⟩ :=
      (exists_links_iff hc hcalm hvalid).2 ⟨r, hr, hlinks, hother⟩
    obtain ⟨r', hr', hto⟩ := hfit a compiled h className rnum other hcompiled
    cases hr.symm.trans hr'
    exact hto
  · intro hall a compiled h className rnum other hcompiled
    obtain ⟨r, hr, hlinks, hother⟩ :=
      (exists_links_iff hc hcalm hvalid).1 ⟨a, compiled, h, hcompiled⟩
    exact ⟨r, hr, hall rnum r className other hr hlinks hother⟩

/-- Shafts and the cabins that run in them, among other classes. -/
def lift (others : List ModelClass) : Domain :=
  ⟨"D", ⟨"Shaft", [], [], []⟩ :: ⟨"Cabin", [], [], []⟩ :: others,
    [.association ⟨"R1", ⟨"Shaft", "runs in", .one, false⟩, ⟨"Cabin", "hosts", .one, false⟩, none,
      []⟩],
    [], []⟩

/-- A class that has nothing to do with shafts and cabins. -/
def floor : ModelClass := ⟨"Floor", [], [], []⟩

/-- A compiler for shafts and cabins among other classes, over an empty store. -/
def lifting (others : List ModelClass) : Compiler :=
  .new (lift others) .explicit (.ofStore .empty fun _ _ => false)

theorem lifting_calm (others : List ModelClass) : (lifting others).store.Calm :=
  ⟨fun _ _ => rfl, rfl⟩

/-- Without other classes nothing can go wrong, with one more class it can. -/
theorem lifting_links_fit :
    (lifting []).LinksFit ∧ ¬ (lifting [floor]).LinksFit := by
  constructor
  · refine ((compile_links (d := lift []) rfl).2 (by decide +kernel) (lifting_calm [])).2.2 ?_
    have hall : ∀ cls ∈ (lift []).classes, ∀ r ∈ (lift []).relationships,
        r.linksTo cls.name = true := by decide
    intro rnum r className other hr _ hother
    obtain ⟨cls, hcls⟩ := Option.isSome_iff_exists.1 hother
    have hname : cls.name = other := by simpa using List.find?_some hcls
    rw [← hname]
    exact hall cls (List.mem_of_find?_eq_some hcls) r (List.mem_of_find?_eq_some hr)
  · intro hfit
    have hall := ((compile_links (d := lift [floor]) rfl).2 (by decide +kernel)
      (lifting_calm [floor])).2.1 hfit
    exact absurd (hall "R1" _ "Cabin" "Floor" rfl rfl (by decide)) (by decide)

/-- What a creation is linked to does not always take part in the relationship: a cabin can be
linked to a floor where a shaft is meant. -/
theorem not_every_link_fits :
    ¬ ∀ (c : Compiler) (d : Domain) (a : ActivityDefinition) (compiled : CompiledActivity),
      c.domain = d.withBuiltins → c.domain.validate = .ok () → (c.compile a).1 = .ok compiled →
      ∀ act ∈ compiled.graph.actions, ∀ className attributes references output,
        act.kind = .create className attributes references output →
        ∀ v ∈ references, ∃ r other, c.domain.findRelationship v.1 = some r ∧
          compiled.graph.shape? v.2 = some (.singleInstance, .object other) ∧
          r.linksTo other = true := by
  intro h
  have hvalid : (lifting [floor]).domain.validate = .ok () := by decide +kernel
  obtain ⟨compiled, hcompile, act, hact, attributes, references, output, f, hkind, hf, hshape⟩ :=
    exists_compile_linking (lifting_calm [floor]) hvalid "Cabin" "R1" "Floor" rfl rfl (by decide)
  obtain ⟨r, other, hr, hother, hto⟩ := h (lifting [floor]) (lift [floor]) _ compiled rfl hvalid
    hcompile act hact _ _ _ _ hkind _ hf
  cases hshape.symm.trans hother
  cases (show (lifting [floor]).domain.findRelationship "R1" = some _ from rfl).symm.trans hr
  cases hto

end Compiler

end ActionFlow
