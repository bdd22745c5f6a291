import ActionFlow.Proofs.Compiler.Scheduling
import ActionFlow.Proofs.Lowering.Bodies

/-!
# Compiled activities are well typed

A compilation that succeeds has lowered its activity on a walk from the empty draft
(`exists_walk_of_compile`). Every action is well typed when it is added, and what its flows carry
never changes, so the graph of a compiled activity is well typed (`compile_wellTyped`).

A value that is supplied for a declared name fits by its name. Where no class is named like a scalar
type it carries what the declared name stands for. Where a class is, an instance of the class passes
for a scalar (`not_every_written_value_scalar`).
-/

namespace ActionFlow

/-! ## Well-typed graphs -/

theorem Graph.Grows.mono {g g' : Graph} (h : g.Grows g') :
    ∀ f x, g.shape? f = some x → g'.shape? f = some x := by
  intro f x hx
  rw [h.shape f (has_of_shape? hx), hx]

/-- A walk that begins with no action leads to a graph that is well typed. -/
theorem Draft.Walk.wellTyped {s : Setting} {W : String → Prop} {d d' : Draft}
    {spans : List CaseSpan} (h : d.Walk s W d' spans) (hd : d.Ready s)
    (hempty : d.graph.actions = []) : d'.graph.WellTyped s.domain := by
  have hd' := h.ready hd
  constructor
  · intro flow hflow
    refine hd'.agrees flow.id _ ?_
    unfold Graph.shape?
    rw [hd'.sound.causal.numbered.flow?_id hflow]
    rfl
  · refine h.forall_actions (P := fun g a => s.domain.Types g.shape? a.kind) hd
      (fun _ _ hgrows _ _ htyped => htyped.mono hgrows.mono) (fun _ _ _ _ htyped => htyped) ?_
    rw [hempty]
    nofun

/-- Where no class is named like a scalar type, a value that fits a name by its own name carries
what is declared by that name. -/
theorem Domain.declared_of_carries {d : Domain} {Γ : FlowTyping} {f : FlowId} {name : String}
    (hd : ∀ name, d.Defines name → d.hasClass name = false) (h : d.Carries Γ f name) :
    Γ f = Lower.declaredType? d name := by
  unfold Lower.declaredType?
  rcases h with ⟨hdefines, hf⟩ | ⟨hclass, hf⟩
  · unfold Domain.Defines at hdefines
    rw [if_neg (by rw [hd name hdefines]; nofun), if_pos hdefines, hf]
  · rw [if_pos hclass, hf]

/-! ## Compilations -/

namespace Compiler

variable {c : Compiler} {a : ActivityDefinition} {compiled : CompiledActivity} {d : Domain}

/-- The cases that are lowered with an activity. -/
def spans (c : Compiler) (a : ActivityDefinition) : List CaseSpan :=
  c.setting.spans c.nextAnum (c.pathOf a) a

theorem complete_of_compile (hc : c.domain = d.withBuiltins)
    (h : (c.compile a).1 = .ok compiled) : c.domain.Complete := by
  unfold compile at h
  split at h
  · cases h
  · rename_i hvalid
    exact Domain.complete_of_valid hc hvalid

/-- A compilation that succeeds has walked through its body. -/
theorem exists_walk_of_compile {W : String → Prop} (hc : c.domain = d.withBuiltins)
    (h : (c.compile a).1 = .ok compiled)
    (hp : ∀ parameters, c.domain.activityParameters? a = some parameters →
      ∀ p ∈ parameters, W p.name) (hl : ∀ l ∈ bodyLabels a.body, W l) :
    ∃ d', (Draft.start c.domain.name c.nextAnum (c.pathOf a) a).Walk c.setting W d'
        (c.spans a) ∧ d'.Ready c.setting ∧ compiled.graph = d'.graph := by
  obtain ⟨draft, hlower, -, hgraph, -⟩ := exists_draft_of_attempt (attempt_of_compile h)
  obtain ⟨d', hwalk, hd', rfl⟩ := Setting.lower_walks (complete_of_compile hc h) hp hl hlower
  exact ⟨d', hwalk, hd', hgraph⟩

/-- **Compiled activities are well typed.** In the graph of a compiled activity the content of every
flow fits its type and all names in it are defined, and every action is well typed against its
flows. A value that is supplied for a declared name carries what is declared, provided that no class
is named like a scalar type. -/
theorem compile_wellTyped (hc : c.domain = d.withBuiltins) (h : (c.compile a).1 = .ok compiled) :
    compiled.graph.WellTyped c.domain ∧
      ((∀ name, c.domain.Defines name → c.domain.hasClass name = false) →
        ∀ f name, c.domain.Carries compiled.graph.shape? f name →
          compiled.graph.shape? f = Lower.declaredType? c.domain name) := by
  obtain ⟨d', hwalk, -, hgraph⟩ := exists_walk_of_compile (W := fun _ => True) hc h
    (fun _ _ _ _ => trivial) fun _ _ => trivial
  rw [hgraph]
  exact ⟨hwalk.wellTyped (Draft.ready_start ..) rfl,
    fun hseparate _ _ => Domain.declared_of_carries hseparate⟩

/-! ## A class named like a scalar type -/

/-- A domain with a class that has a number and a class named like the type of numbers. -/
def homonyms : Domain :=
  ⟨"D", [⟨"Integer", [], [], []⟩, ⟨"C", [⟨"n", integerType, [], []⟩], [], []⟩], [], [], []⟩

/-- A compiler for the domain, over an empty store. -/
def homonymous : Compiler := .new homonyms .explicit (.ofStore .empty fun _ _ => false)

/-- An activity that writes an instance where a number is declared. -/
def misplaced : ActivityDefinition :=
  ⟨.state "C" "S", [], "", [.create ⟨"Integer", some "i", [], []⟩,
    .write (.instances [.name "me"]) "n" (.instances [.name "i"])]⟩

theorem exists_compile_misplaced : ∃ compiled, (homonymous.compile misplaced).1 = .ok compiled ∧
    (⟨⟨2⟩, .write ⟨1⟩ "n" ⟨2⟩, none⟩ : Action) ∈ compiled.graph.actions ∧
    compiled.graph.shape? ⟨2⟩ = some (.singleInstance, .object "Integer") := by
  have hcompile : (homonymous.compile misplaced).1.toOption.any (fun compiled =>
      (⟨⟨2⟩, .write ⟨1⟩ "n" ⟨2⟩, none⟩ : Action) ∈ compiled.graph.actions ∧
        compiled.graph.shape? ⟨2⟩ = some (.singleInstance, .object "Integer")) = true := by
    decide +kernel
  generalize (homonymous.compile misplaced).1 = outcome at hcompile
  cases outcome with
  | error e => cases hcompile
  | ok compiled => exact ⟨compiled, rfl, of_decide_eq_true hcompile⟩

/-- The activity compiles, and the instance is written by an action that counts as well typed. -/
theorem misplaced_wellTyped : ∃ compiled, (homonymous.compile misplaced).1 = .ok compiled ∧
    homonymous.domain.Types compiled.graph.shape? (.write ⟨1⟩ "n" ⟨2⟩) := by
  obtain ⟨compiled, hcompile, haction, -⟩ := exists_compile_misplaced
  exact ⟨compiled, hcompile, (compile_wellTyped (d := homonyms) rfl hcompile).1.actions _ haction⟩

/-- A value that is written is not always a scalar of the type of its attribute. -/
theorem not_every_written_value_scalar :
    ¬ ∀ (c : Compiler) (d : Domain) (a : ActivityDefinition) (compiled : CompiledActivity),
      c.domain = d.withBuiltins → (c.compile a).1 = .ok compiled →
      ∀ act ∈ compiled.graph.actions, ∀ target attr value, act.kind = .write target attr value →
        ∃ typeName, compiled.graph.shape? value = some (.scalar, .scalar typeName) := by
  intro h
  obtain ⟨compiled, hcompile, haction, hshape⟩ := exists_compile_misplaced
  obtain ⟨typeName, hscalar⟩ :=
    h homonymous homonyms misplaced compiled rfl hcompile _ haction _ _ _ rfl
  rw [hshape] at hscalar
  cases hscalar

end Compiler

end ActionFlow
