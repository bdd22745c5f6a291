import ActionFlow.Graph.Exchange
import ActionFlow.Proofs.Exchange.Language
import ActionFlow.Proofs.Exchange.Model

/-!
# Graphs and schedules are read back

A graph is read back from its exchanged form if its literals are finite and its numbers fit 32 bits
(`Graph.ofJson?_toJson`). So are numbered waves, whatever their numbers are
(`wavesOfJson?_wavesToJson`), and hence a schedule (`Schedule.ofJson?_toJson`). A wave is a set of
actions, written in ascending order.
-/

namespace ActionFlow

open Json

/-! ## Flows -/

theorem FlowId.ofJson?_toJson {f : FlowId} (h : f.number < UInt32.size) :
    ofJson? f.toJson = some f := by
  rw [ofJson?, toJson, count?_ofNat h, Option.map_some]

@[simp] theorem FlowId.ofJson?_null : ofJson? .null = none := by
  simp [ofJson?, count?]

theorem ActionId.ofJson?_toJson {a : ActionId} (h : a.number < UInt32.size) :
    ofJson? a.toJson = some a := by
  rw [ofJson?, toJson, count?_ofNat h, Option.map_some]

/-- A flow that may be absent is read back. -/
theorem FlowId.option?_ofOption_toJson {o : Option FlowId}
    (h : ∀ f ∈ o.toList, f.number < UInt32.size) :
    (ofOption toJson o).option? ofJson? = some o :=
  option?_ofOption ofJson?_null fun _ hf => ofJson?_toJson (h _ (Option.mem_toList.2 hf))

@[simp] theorem Content.ofJson?_toJson (c : Content) : ofJson? c.toJson = some c := by
  cases c <;> rfl

@[simp] theorem FlowType.ofJson?_toJson (t : FlowType) : ofJson? t.toJson = some t := by
  cases t <;> simp [toJson, ofJson?]

namespace FlowSource

/-- The literal of a constant. -/
def literals : FlowSource → List Literal
  | .constant l => [l]
  | .action _ | .executingInstance | .parameter _ | .classAccessor _ => []

/-- The number of the producer. -/
def numbers : FlowSource → List Nat
  | .action id => [id.number]
  | .executingInstance | .parameter _ | .classAccessor _ | .constant _ => []

theorem ofJson?_toJson {s : FlowSource} (hl : ∀ l ∈ s.literals, l.isFinite = true)
    (hn : ∀ n ∈ s.numbers, n < UInt32.size) : ofJson? s.toJson = some s := by
  cases s with
  | action id =>
    simp [toJson, ofJson?, ActionId.ofJson?_toJson (hn id.number List.mem_cons_self)]
  | constant l => simp [toJson, ofJson?, Literal.ofJson?_toJson (hl l List.mem_cons_self)]
  | _ => simp [toJson, ofJson?]

@[simp] theorem ofJson?_null : ofJson? .null = none := by simp [ofJson?, variant?]

end FlowSource

namespace Flow

/-- The literals of a flow. -/
def literals (f : Flow) : List Literal := f.source.toList.flatMap FlowSource.literals

/-- The numbers in a flow. -/
def numbers (f : Flow) : List Nat := f.id.number :: f.source.toList.flatMap FlowSource.numbers

theorem ofJson?_toJson {f : Flow} (hl : ∀ l ∈ f.literals, l.isFinite = true)
    (hn : ∀ n ∈ f.numbers, n < UInt32.size) : ofJson? f.toJson = some f := by
  obtain ⟨hid, hn⟩ := List.forall_mem_cons.1 hn
  have hsource : ∀ s ∈ f.source, FlowSource.ofJson? s.toJson = some s := fun s hs =>
    FlowSource.ofJson?_toJson
      (fun l h => hl l (List.mem_flatMap_of_mem (Option.mem_toList.2 hs) h))
      (fun n h => hn n (List.mem_flatMap_of_mem (Option.mem_toList.2 hs) h))
  simp [toJson, ofJson?, FlowId.ofJson?_toJson hid, option?_ofOption _ hsource]

end Flow

/-! ## Details of actions -/

theorem hopSide?_obj (s : Side) : hopSide? (.obj [("side", s.toJson)]) = some s := by
  simp [hopSide?]

@[simp] theorem HopKind.ofJson?_toJson (k : HopKind) : ofJson? k.toJson = some k := by
  cases k <;> simp [toJson, ofJson?, hopSide?_obj]

theorem Hop.ofJson?_toJson {h : Hop} (hn : h.number < UInt32.size) : ofJson? h.toJson = some h := by
  simp [toJson, ofJson?, count?_ofNat hn]

@[simp] theorem Cardinality.ofJson?_toJson (c : Cardinality) : ofJson? c.toJson = some c := by
  cases c <;> rfl

@[simp] theorem SignalKind.ofJson?_toJson (k : SignalKind) : ofJson? k.toJson = some k := by
  cases k <;> rfl

namespace Criterion

/-- The literal of a criterion. -/
def literals (c : Criterion) : List Literal :=
  match c.kind with
  | .comparison _ (.literal l) => [l]
  | _ => []

theorem ofJson?_toJson {c : Criterion} (hid : c.id < UInt32.size)
    (hl : ∀ l ∈ c.literals, l.isFinite = true) (hf : ∀ f ∈ c.flow?, f.number < UInt32.size) :
    ofJson? c.toJson = some c := by
  obtain ⟨id, attr, kind⟩ := c
  have hkind : CriterionKind.ofJson? kind.toJson = some kind := by
    cases kind with
    | ranking order => simp [CriterionKind.toJson, CriterionKind.ofJson?]
    | comparison op value =>
      have hvalue : CriterionValue.ofJson? value.toJson = some value := by
        cases value with
        | literal l =>
          have hl : l.isFinite = true := hl l List.mem_cons_self
          simp [CriterionValue.toJson, CriterionValue.ofJson?, Literal.ofJson?_toJson hl]
        | flow f =>
          have hf : f.number < UInt32.size := hf f rfl
          simp [CriterionValue.toJson, CriterionValue.ofJson?, FlowId.ofJson?_toJson hf]
        | _ => simp [CriterionValue.toJson, CriterionValue.ofJson?]
      simp [CriterionKind.toJson, CriterionKind.ofJson?, hvalue]
  simp [toJson, ofJson?, count?_ofNat hid, hkind]

end Criterion

namespace Condition

/-- The literals of a condition. -/
def literals (c : Condition) : List Literal := c.criteria.flatMap Criterion.literals

theorem ofJson?_toJson {c : Condition} (hid : ∀ n ∈ c.criteria.map (·.id), n < UInt32.size)
    (hl : ∀ l ∈ c.literals, l.isFinite = true)
    (hf : ∀ f ∈ c.criteria.filterMap Criterion.flow?, f.number < UInt32.size) :
    ofJson? c.toJson = some c := by
  have hcriteria : ∀ x ∈ c.criteria, Criterion.ofJson? x.toJson = some x := fun x hx =>
    Criterion.ofJson?_toJson (hid _ (List.mem_map_of_mem hx))
      (fun l h => hl l (List.mem_flatMap_of_mem hx h))
      (fun f h => hf f (List.mem_filterMap.2 ⟨x, hx, h⟩))
  simp [toJson, ofJson?, list?_ofList hcriteria]

end Condition

theorem SwitchCase.ofJson?_toJson {c : SwitchCase} (hl : ∀ l ∈ c.values, l.isFinite = true)
    (hf : c.control.number < UInt32.size) : ofJson? c.toJson = some c := by
  have hvalues : ∀ l ∈ c.values, Literal.ofJson? l.toJson = some l :=
    fun l h => Literal.ofJson?_toJson (hl l h)
  simp [toJson, ofJson?, list?_ofList hvalues, FlowId.ofJson?_toJson hf]

theorem namedFlowsOfJson?_namedFlowsToJson {flows : List (String × FlowId)}
    (h : ∀ f ∈ flows.map Prod.snd, f.number < UInt32.size) :
    namedFlowsOfJson? (namedFlowsToJson flows) = some flows :=
  list?_ofList fun f hf => by simp [FlowId.ofJson?_toJson (h _ (List.mem_map_of_mem hf))]

theorem flowIdsOfJson?_ofList {flows : List FlowId} (h : ∀ f ∈ flows, f.number < UInt32.size) :
    flowIdsOfJson? (ofList FlowId.toJson flows) = some flows :=
  list?_ofList fun f hf => FlowId.ofJson?_toJson (h f hf)

/-! ## Actions -/

namespace ActionKind

/-- The literals of a kind of action. -/
def literals : ActionKind → List Literal
  | .select _ _ condition | .restrict _ _ condition => condition.literals
  | .switch _ cases => cases.flatMap (·.values)
  | _ => []

/-- The places that the parts of a kind of action are numbered by. -/
def places : ActionKind → List Nat
  | .select _ _ condition | .restrict _ _ condition => condition.criteria.map (·.id)
  | .traverse _ _ _ hops _ => hops.map (·.number)
  | _ => []

theorem ofJson?_toJson {k : ActionKind} (hl : ∀ l ∈ k.literals, l.isFinite = true)
    (hp : ∀ n ∈ k.places, n < UInt32.size) (hin : ∀ f ∈ k.inputs, f.number < UInt32.size)
    (hout : ∀ f ∈ k.outputs, f.number < UInt32.size) : ofJson? k.toJson = some k := by
  cases k with
  | select input output condition | restrict input output condition =>
    obtain ⟨hinput, hflows⟩ := List.forall_mem_cons.1 hin
    have hcondition := Condition.ofJson?_toJson hp hl hflows
    have houtput := hout output List.mem_cons_self
    simp [toJson, exchangeName, name, members, ofJson?, readSelection, hcondition,
      FlowId.ofJson?_toJson hinput, FlowId.ofJson?_toJson houtput]
  | project input output _ | rename input output _ _ | cast input _ output
  | read input _ output | extract input _ output
  | cardinality input output | pass input output | iterator input output =>
    have hinput := hin input List.mem_cons_self
    have houtput := hout output List.mem_cons_self
    simp [toJson, exchangeName, name, members, ofJson?, readAttribute, readPlain,
      FlowId.ofJson?_toJson hinput, FlowId.ofJson?_toJson houtput]
  | set op lhs rhs output =>
    have hlhs := hin lhs List.mem_cons_self
    have hrhs := hin rhs (List.mem_cons_of_mem _ List.mem_cons_self)
    have houtput := hout output List.mem_cons_self
    simp [toJson, exchangeName, name, members, ofJson?, FlowId.ofJson?_toJson hlhs,
      FlowId.ofJson?_toJson hrhs, FlowId.ofJson?_toJson houtput]
  | traverse input output path hops destination =>
    have hinput := hin input List.mem_cons_self
    have houtput := hout output List.mem_cons_self
    have hhops : ∀ h ∈ hops, Hop.ofJson? h.toJson = some h :=
      fun h hh => Hop.ofJson?_toJson (hp _ (List.mem_map_of_mem hh))
    simp [toJson, exchangeName, name, members, ofJson?, list?_ofList hhops,
      FlowId.ofJson?_toJson hinput, FlowId.ofJson?_toJson houtput]
  | write target attr value =>
    have htarget := hin target List.mem_cons_self
    have hvalue := hin value (List.mem_cons_of_mem _ List.mem_cons_self)
    simp [toJson, exchangeName, name, members, ofJson?, FlowId.ofJson?_toJson htarget,
      FlowId.ofJson?_toJson hvalue]
  | create className attributes references output =>
    have hflows : ∀ f ∈ (attributes ++ references).map Prod.snd, f.number < UInt32.size := hin
    rw [List.map_append] at hflows
    obtain ⟨hattributes, hreferences⟩ := List.forall_mem_append.1 hflows
    have houtput := hout output List.mem_cons_self
    simp [toJson, exchangeName, name, members, ofJson?,
      namedFlowsOfJson?_namedFlowsToJson hattributes,
      namedFlowsOfJson?_namedFlowsToJson hreferences, FlowId.ofJson?_toJson houtput]
  | delete input =>
    have hinput := hin input List.mem_cons_self
    simp [toJson, exchangeName, name, members, ofJson?, FlowId.ofJson?_toJson hinput]
  | gate inputs output =>
    have hinputs : ∀ f ∈ inputs, f.number < UInt32.size := hin
    have houtput := hout output List.mem_cons_self
    simp [toJson, exchangeName, name, members, ofJson?, flowIdsOfJson?_ofList hinputs,
      FlowId.ofJson?_toJson houtput]
  | switch input cases =>
    have hinput := hin input List.mem_cons_self
    have hcases : ∀ c ∈ cases, SwitchCase.ofJson? c.toJson = some c := fun c hc =>
      SwitchCase.ofJson?_toJson (fun l h => hl l (List.mem_flatMap_of_mem hc h))
        (hout _ (List.mem_map_of_mem hc))
    simp [toJson, exchangeName, name, members, ofJson?, FlowId.ofJson?_toJson hinput,
      list?_ofList hcases]
  | signal kind event parameters target delay =>
    obtain ⟨hrest, hdelay⟩ := List.forall_mem_append.1 hin
    obtain ⟨hparameters, htarget⟩ := List.forall_mem_append.1 hrest
    simp [toJson, exchangeName, name, members, ofJson?,
      namedFlowsOfJson?_namedFlowsToJson hparameters, FlowId.option?_ofOption_toJson htarget,
      FlowId.option?_ofOption_toJson hdelay]
  | methodCall className method receiver parameters output =>
    obtain ⟨hreceiver, hparameters⟩ := List.forall_mem_cons.1 hin
    simp [toJson, exchangeName, members, ofJson?, FlowId.ofJson?_toJson hreceiver,
      namedFlowsOfJson?_namedFlowsToJson hparameters, FlowId.option?_ofOption_toJson hout]
  | externalCall entity operation parameters output =>
    simp [toJson, exchangeName, members, ofJson?, namedFlowsOfJson?_namedFlowsToJson hin,
      FlowId.option?_ofOption_toJson hout]
  | typeAction typeName operation operands output =>
    have hoperands : ∀ f ∈ operands, f.number < UInt32.size := hin
    have houtput := hout output List.mem_cons_self
    simp [toJson, exchangeName, members, ofJson?, flowIdsOfJson?_ofList hoperands,
      FlowId.ofJson?_toJson houtput]

end ActionKind

namespace Action

/-- The numbers in an action. -/
def numbers (a : Action) : List Nat :=
  a.id.number :: a.kind.places ++
    (a.kind.inputs ++ a.kind.outputs ++ a.control.toList).map (·.number)

theorem ofJson?_toJson {a : Action} (hl : ∀ l ∈ a.kind.literals, l.isFinite = true)
    (hn : ∀ n ∈ a.numbers, n < UInt32.size) : ofJson? a.toJson = some a := by
  obtain ⟨hrest, hflows⟩ := List.forall_mem_append.1 hn
  obtain ⟨hid, hplaces⟩ := List.forall_mem_cons.1 hrest
  obtain ⟨hflows, hcontrol⟩ := List.forall_mem_append.1 (List.forall_mem_map.1 hflows)
  obtain ⟨hin, hout⟩ := List.forall_mem_append.1 hflows
  simp [toJson, ofJson?, ActionId.ofJson?_toJson hid,
    ActionKind.ofJson?_toJson hl hplaces hin hout, FlowId.option?_ofOption_toJson hcontrol]

end Action

/-! ## Graphs -/

namespace Graph

/-- The literals of a graph. -/
def literals (g : Graph) : List Literal :=
  g.actions.flatMap (·.kind.literals) ++ g.flows.flatMap Flow.literals

/-- The numbers in a graph. -/
def numbers (g : Graph) : List Nat :=
  g.actions.flatMap Action.numbers ++ g.flows.flatMap Flow.numbers ++
    g.labels.values.map (·.number)

theorem labelsOfJson?_labelsToJson {labels : SortedMap String FlowId}
    (h : ∀ n ∈ labels.values.map (·.number), n < UInt32.size) :
    labelsOfJson? (labelsToJson labels) = some labels := by
  have hentries : (labelsToJson labels).entries? some FlowId.ofJson? = some labels.entries :=
    entries?_obj id (fun _ _ => rfl) fun e he => FlowId.ofJson?_toJson
      (h _ (List.mem_map_of_mem (List.mem_map_of_mem he)))
  rw [labelsOfJson?, hentries, Option.map_some, SortedMap.ofList_entries]

theorem ofJson?_toJson {g : Graph} (hl : ∀ l ∈ g.literals, l.isFinite = true)
    (hn : ∀ n ∈ g.numbers, n < UInt32.size) : ofJson? g.toJson = some g := by
  obtain ⟨hactionLiterals, hflowLiterals⟩ := List.forall_mem_append.1 hl
  obtain ⟨hrest, hlabels⟩ := List.forall_mem_append.1 hn
  obtain ⟨hactionNumbers, hflowNumbers⟩ := List.forall_mem_append.1 hrest
  have hactions : ∀ a ∈ g.actions, Action.ofJson? a.toJson = some a := fun a ha =>
    Action.ofJson?_toJson (fun l h => hactionLiterals l (List.mem_flatMap.2 ⟨a, ha, h⟩))
      (fun n h => hactionNumbers n (List.mem_flatMap_of_mem ha h))
  have hflows : ∀ f ∈ g.flows, Flow.ofJson? f.toJson = some f := fun f hf =>
    Flow.ofJson?_toJson (fun l h => hflowLiterals l (List.mem_flatMap_of_mem hf h))
      (fun n h => hflowNumbers n (List.mem_flatMap_of_mem hf h))
  simp [toJson, ofJson?, list?_ofList hactions, list?_ofList hflows,
    labelsOfJson?_labelsToJson hlabels]

end Graph

/-! ## Schedules -/

/-- The numbers in numbered waves. -/
def waveNumbers (waves : List (Nat × List ActionId)) : List Nat :=
  waves.flatMap fun w => w.1 :: w.2.map (·.number)

/-- Reading a wave sorts it, which leaves one that ascends as it is. -/
theorem waveOfJson?_ofList {wave : List ActionId} (hwave : wave.Pairwise (·.number < ·.number))
    (h : ∀ n ∈ wave.map (·.number), n < UInt32.size) :
    waveOfJson? (ofList ActionId.toJson wave) = some wave := by
  have hwrite : ofList ActionId.toJson wave = ofList ofNat (wave.map (·.number)) := by
    rw [ofList, ofList, List.map_map]
    rfl
  have hascending : ((wave.map (·.number)).map (·, ())).Pairwise
      fun a b => compare a.1 b.1 = .lt := by
    rw [List.pairwise_map, List.pairwise_map]
    exact hwave.imp fun hlt => Nat.compare_eq_lt.2 hlt
  have hkeys : (SortedMap.ofList ((wave.map (·.number)).map (·, ()))).keys =
      wave.map (·.number) := by
    rw [SortedMap.ofList_entries ⟨_, hascending⟩]
    simp [SortedMap.keys]
  rw [waveOfJson?, hwrite, list?_ofList fun n hn => count?_ofNat (h n hn), Option.map_some, hkeys]
  simp [Function.comp_def]

theorem wavesOfJson?_wavesToJson {waves : SortedMap Nat (List ActionId)}
    (hwaves : ∀ w ∈ waves.values, w.Pairwise (·.number < ·.number))
    (hn : ∀ n ∈ waveNumbers waves.entries, n < UInt32.size) :
    wavesOfJson? (wavesToJson waves.entries) = some waves := by
  have hnumbers : ∀ w ∈ waves.entries,
      w.1 < UInt32.size ∧ ∀ n ∈ w.2.map (·.number), n < UInt32.size :=
    fun w hw => List.forall_mem_cons.1 fun n h => hn n (List.mem_flatMap.2 ⟨w, hw, h⟩)
  have hentries : (wavesToJson waves.entries).entries? key? waveOfJson? = some waves.entries :=
    entries?_obj toString (fun w hw => key?_toString (hnumbers w hw).1) fun w hw =>
      waveOfJson?_ofList (hwaves _ (List.mem_map_of_mem hw)) (hnumbers w hw).2
  rw [wavesOfJson?, hentries, Option.map_some, SortedMap.ofList_entries]

namespace Schedule

theorem numbered_ascending (s : Schedule) :
    s.numbered.Pairwise fun a b => compare a.1 b.1 = .lt := by
  have hplaces : (s.waves.zipIdx.map Prod.snd).Pairwise (· < ·) := by
    rw [List.zipIdx_map_snd]
    exact List.pairwise_lt_range'
  rw [numbered, List.pairwise_map]
  exact (List.pairwise_map.1 hplaces).imp fun hlt => Nat.compare_eq_lt.2 (by omega)

theorem map_snd_numbered (s : Schedule) : s.numbered.map Prod.snd = s.waves := by
  simp [numbered, Function.comp_def]

theorem ofJson?_toJson {s : Schedule} (hwaves : ∀ w ∈ s.waves, w.Pairwise (·.number < ·.number))
    (hn : ∀ n ∈ waveNumbers s.numbered, n < UInt32.size) : ofJson? s.toJson = some s := by
  let waves : SortedMap Nat (List ActionId) := ⟨s.numbered, s.numbered_ascending⟩
  have hvalues : waves.values = s.waves := s.map_snd_numbered
  have hread : wavesOfJson? (wavesToJson s.numbered) = some waves :=
    wavesOfJson?_wavesToJson (by rwa [hvalues]) hn
  have hschedule : ofWaves? waves = some s := by
    rw [ofWaves?, hvalues]
    exact if_pos rfl
  simp [toJson, ofJson?, hread, hschedule]

end Schedule

end ActionFlow
