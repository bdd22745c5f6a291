import ActionFlow.Package
import ActionFlow.Proofs.Compiler.Scheduling
import ActionFlow.Proofs.Exchange.Graph

/-!
# Packages and compiled activities are read back

The main result, `exchange_round_trip`, says that nothing is lost in an exchange: a package and a
compiled activity are read back from their exchanged forms as they were. Only a real literal can
fail to be finite, so the condition on literals asks nothing of what has no reals. The numbers of a
compiled activity are exchanged in 32 bits, and a wave is exchanged as a set of actions.
-/

namespace ActionFlow

open Json

/-! ## Activities -/

theorem ActivityKind.ofJson?_toJson (layout : Layout) (k : ActivityKind) :
    ofJson? layout k.toJson = some k := by
  cases k <;> simp [toJson, ofJson?]

theorem ActivityDefinition.ofJson?_toJson (layout : Layout) {d : ActivityDefinition}
    (h : ∀ l ∈ bodyLiterals d.body, l.isFinite = true) : ofJson? layout d.toJson = some d := by
  simp [toJson, ofJson?, ActivityKind.ofJson?_toJson, bodyOfJson?_bodyToJson layout h]

namespace Activity

/-- The numbers in an activity. -/
def numbers (a : Activity) : List Nat :=
  (a.executingInstance.toList ++ a.parameters.map Prod.snd).map (·.number)

theorem ofJson?_toJson {a : Activity} (h : ∀ n ∈ a.numbers, n < UInt32.size) :
    ofJson? a.toJson = some a := by
  obtain ⟨hinstance, hparameters⟩ := List.forall_mem_append.1 (List.forall_mem_map.1 h)
  simp [toJson, ofJson?, ActivityKind.ofJson?_toJson, FlowId.option?_ofOption_toJson hinstance,
    namedFlowsOfJson?_namedFlowsToJson hparameters]

end Activity

/-! ## Compiled activities -/

namespace CompiledActivity

/-- The numbers in a compiled activity. -/
def numbers (c : CompiledActivity) : List Nat :=
  c.activity.numbers ++ c.graph.numbers ++ waveNumbers c.schedule.numbered

theorem ofJson?_toJson {c : CompiledActivity} (hl : ∀ l ∈ c.graph.literals, l.isFinite = true)
    (hn : ∀ n ∈ c.numbers, n < UInt32.size)
    (hwaves : ∀ w ∈ c.schedule.waves, w.Pairwise (·.number < ·.number)) :
    ofJson? c.toJson = some c := by
  obtain ⟨hrest, hschedule⟩ := List.forall_mem_append.1 hn
  obtain ⟨hactivity, hgraph⟩ := List.forall_mem_append.1 hrest
  simp [toJson, ofJson?, Activity.ofJson?_toJson hactivity, Graph.ofJson?_toJson hl hgraph,
    Schedule.ofJson?_toJson hwaves hschedule]

end CompiledActivity

/-! ## Packages -/

namespace Package

/-- The literals of a package. -/
def literals (p : Package) : List Literal := p.activities.flatMap fun d => bodyLiterals d.body

theorem ofJson?_toJson (layout : Layout) {p : Package}
    (h : ∀ l ∈ p.literals, l.isFinite = true) : ofJson? layout p.toJson = some p := by
  have hactivities : ∀ d ∈ p.activities, ActivityDefinition.ofJson? layout d.toJson = some d :=
    fun d hd => ActivityDefinition.ofJson?_toJson layout fun l hl =>
      h l (List.mem_flatMap.2 ⟨d, hd, hl⟩)
  simp [toJson, ofJson?, list?_ofList hactivities]

end Package

/-- Reading undoes writing, for packages in either layout and for compiled activities, whose numbers
have 32 bits and whose waves are sets, listed in ascending order. The numbers of waves that are read
back need not be those of a schedule, which have no gap. -/
theorem exchange_round_trip :
    (∀ (layout : Layout) (p : Package), (∀ l ∈ p.literals, l.isFinite = true) →
      Package.ofJson? layout p.toJson = some p) ∧
    (∀ c : CompiledActivity, (∀ l ∈ c.graph.literals, l.isFinite = true) →
      (∀ n ∈ c.numbers, n < UInt32.size) →
      (∀ w ∈ c.schedule.waves, w.Pairwise (·.number < ·.number)) →
      CompiledActivity.ofJson? c.toJson = some c) ∧
    (∀ waves : SortedMap Nat (List ActionId),
      (∀ w ∈ waves.values, w.Pairwise (·.number < ·.number)) →
      (∀ n ∈ waveNumbers waves.entries, n < UInt32.size) →
      wavesOfJson? (wavesToJson waves.entries) = some waves) :=
  ⟨fun layout _ => Package.ofJson?_toJson layout, fun _ => CompiledActivity.ofJson?_toJson,
    fun _ => wavesOfJson?_wavesToJson⟩

/-- A package with a relationship of every kind and with a body of nested statements. -/
def layered : Package where
  domain := ⟨"D",
    [⟨"C", [⟨"Id", "Integer", [1, 2], ["R1"]⟩], [⟨"m", [⟨"p", "Integer"⟩], none⟩], []⟩],
    [.association ⟨"R1", ⟨"C", "above", .one, true⟩, ⟨"C", "below", .many, false⟩,
        some ⟨"L", ["a"], ["b"]⟩, [⟨"e", [], some "Boolean"⟩]⟩,
      .generalization ⟨"R2", "C", ["E", "F"]⟩, .ordinal ⟨"R3", "C", "Id", "next", "previous"⟩],
    [⟨"Direction", .enumeration ["up", "down"], []⟩], [⟨"EE", [], []⟩]⟩
  activities := [Compiler.lopsided, ⟨.method "C" "m", [], "", [
    .iterate (.instances [.name "C", .path ⟨[.relationship "R1", .name "above"]⟩,
        .selection ⟨some .all, some (.and (.not (.flag "Up"))
          (.compare .equal (.name "Id") (.literal (.integer (-3)))))⟩]) "c" [
      .switch (.access (.instances [.name "c"]) "Direction") [⟨[.enum "up"], [
        .signal ⟨"e", [⟨"p", .call (.entity "EE" "now" [])⟩], .completion,
          some (.literal (.real ⟨0x3ff8000000000000⟩))⟩,
        .create ⟨"C", none, [], [("R1", .instances [.name "c"])]⟩]⟩]]]⟩]

/-- Waves that are numbered with gaps. -/
def sparse : SortedMap Nat (List ActionId) :=
  ⟨[(3, [⟨1⟩, ⟨4⟩]), (10, []), (12, [⟨2⟩])], by decide⟩

/-- The conditions hold of the package, of what the compiler makes of one of its activities, and of
the waves. -/
theorem layered_round_trip :
    (∀ l ∈ layered.literals, l.isFinite = true) ∧
      Package.ofJson? .ordered layered.toJson = some layered ∧
      (∃ c, (Compiler.single.compile Compiler.lopsided).1 = .ok c ∧
        CompiledActivity.ofJson? c.toJson = some c) ∧
      wavesOfJson? (wavesToJson sparse.entries) = some sparse := by
  have hliterals : ∀ l ∈ layered.literals, l.isFinite = true := by decide
  have hcompile : (Compiler.single.compile Compiler.lopsided).1.toOption.any (fun c =>
      (∀ l ∈ c.graph.literals, l.isFinite = true) ∧ (∀ n ∈ c.numbers, n < UInt32.size) ∧
        ∀ w ∈ c.schedule.waves, w.Pairwise (·.number < ·.number)) = true := by
    decide +kernel
  refine ⟨hliterals, exchange_round_trip.1 .ordered layered hliterals, ?_,
    exchange_round_trip.2.2 sparse (by decide) (by decide)⟩
  generalize (Compiler.single.compile Compiler.lopsided).1 = outcome at hcompile
  cases outcome with
  | error e => cases hcompile
  | ok c =>
    obtain ⟨hl, hn, hwaves⟩ := of_decide_eq_true hcompile
    exact ⟨c, rfl, exchange_round_trip.2.1 c hl hn hwaves⟩

end ActionFlow
