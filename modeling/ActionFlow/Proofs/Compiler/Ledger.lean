import ActionFlow.Proofs.Compiler.Scheduling
import ActionFlow.Proofs.Population
import ActionFlow.Proofs.Store.Transactions
import Std.Data.String.ToNat

/-!
# What compilations leave in the store

Every row that lowering writes carries the number of its activity (`Draft.Reaches.owned`), so
removing the rows under a number removes what was written under that number and nothing else. A
compiler that started with an empty store therefore keeps a ledger (`Compiler.Ledger`): the store
holds rows of activities that were given back, in order, and no others. One compilation adds its
activity to the ledger or strikes out what has the number that it took (`Ledger.compile`), a batch
adds all of its activities or none (`Ledger.compileFrom`), and so it goes for any sequence of calls
(`Ledger.run`).

Numbers have 32 bits and come back once all of them have been given out (`number_ne`). Until then
the numbers of the activities that were given back all differ, nothing is struck out by a later
failure, and the store holds the rows of all of them (`run_tuples`).
-/

namespace ActionFlow

namespace Compiler

/-- Different numbers are written differently. -/
theorem anumOf_injective {m n : UInt32} (h : anumOf m = anumOf n) : m = n := by
  have hname : "A" ++ m.toNat.repr = "A" ++ n.toNat.repr := h
  exact UInt32.toNat_inj.1 (Nat.repr_inj.1 ((String.append_right_inj _).1 hname))

/-- A number comes back only after all others. -/
theorem number_ne (m : UInt32) {i j : Nat} (hi : 0 < i) (hij : i < j) (hj : j ≤ UInt32.size) :
    m + UInt32.ofNat i ≠ m + UInt32.ofNat j := by
  intro h
  have hmod : i % UInt32.size = j % UInt32.size :=
    congrArg UInt32.toNat ((UInt32.add_right_inj m).1 h)
  unfold UInt32.size at hj hmod
  omega

theorem number_succ (m : UInt32) (k : Nat) :
    m + UInt32.ofNat k + 1 = m + UInt32.ofNat (k + 1) := by
  rw [UInt32.ofNat_add, ← UInt32.add_assoc]
  rfl

end Compiler

/-! ## Rows of a draft -/

namespace Draft

variable {d d' : Draft}

/-- All rows in the journal are rows of the activity. -/
def Owned (d : Draft) : Prop := ∀ e ∈ d.journal, e.transaction.Carries d.activity.anum

theorem Owned.recorded (hd : d.Owned) {t : Transaction} (ht : t.Carries d.activity.anum) :
    (d.recorded t).Owned := by
  intro e he
  rcases List.mem_append.1 he with he | he
  · exact hd e he
  · rw [List.mem_singleton.1 he]
    exact ht

/-- Whatever a step writes carries the number of the activity. -/
theorem Step.owned (h : d.Step d') (hd : d.Owned) : d'.Owned := by
  cases h with
  | openActivity => exact hd.recorded (activityTransaction_carries d.activity)
  | closeLabels => exact hd.recorded (labelsTransaction_carries d.graph)
  | @seed content type source =>
    have hgraph : Owned { d with graph := d.graph.addFlow content type (some source) } := hd
    exact hgraph.recorded (seedTransaction_carries _)
  | @act specs kind =>
    have hgraph : Owned { d with graph := d.graph.addProducer specs kind d.control } := hd
    exact hgraph.recorded (actionTransaction_carries _ _)
  | _ => exact hd

theorem Reaches.owned (h : d.Reaches d') (hd : d.Owned) : d'.Owned := by
  induction h with
  | refl => exact hd
  | tail _ hstep ih => exact hstep.owned ih

end Draft

namespace Setting

variable (s : Setting) (anum path : String) (a : ActivityDefinition)

theorem lower_activity :
    (s.lower anum path a).2.activity.anum = anum ∧ (s.lower anum path a).2.activity.path = path :=
  (s.lower_reaches anum path a).activity

theorem lower_owned : ∀ e ∈ (s.lower anum path a).2.journal, e.transaction.Carries anum := by
  have hstart : (Draft.start s.domain.name anum path a).Owned := by intro e he; cases he
  have howned := (s.lower_reaches anum path a).owned hstart
  unfold Draft.Owned at howned
  rwa [(s.lower_activity anum path a).1] at howned

end Setting

/-! ## Rows of a compiled activity -/

/-- A compiled activity with the definition it was compiled from. -/
structure Compilation where
  definition : ActivityDefinition
  compiled : CompiledActivity

namespace Compilation

/-- The number of the activity. -/
def anum (x : Compilation) : String := x.compiled.activity.anum

/-- The transactions in which the activity is written: those of its lowering, then its schedule. -/
def transactions (s : Setting) (x : Compilation) : List Transaction :=
  (s.lower x.anum x.compiled.activity.path x.definition).2.journal.map (·.transaction) ++
    [scheduleTransaction x.anum x.compiled.graph x.compiled.schedule]

/-- The rows that are written for the activity in a relation. -/
def rows (s : Setting) (relation : String) (x : Compilation) : List Tuple :=
  (x.transactions s).flatMap (·.rows relation)

end Compilation

theorem Transaction.Carries.rows {t : Transaction} {anum : String} (h : t.Carries anum)
    (relation : String) : ∀ row ∈ t.rows relation, Tuple.Carries row anum := by
  intro row hrow
  obtain ⟨i, hi, hmem⟩ := List.mem_flatMap.1 hrow
  split at hmem
  · exact h i hi row hmem
  · cases hmem

theorem Compilation.rows_carry (s : Setting) (relation : String) (x : Compilation) :
    ∀ row ∈ x.rows s relation, Tuple.Carries row x.anum := by
  intro row hrow
  obtain ⟨t, ht, hmem⟩ := List.mem_flatMap.1 hrow
  refine Transaction.Carries.rows ?_ relation row hmem
  rcases List.mem_append.1 ht with ht | ht
  · obtain ⟨e, he, rfl⟩ := List.mem_map.1 ht
    exact s.lower_owned _ _ _ e he
  · rw [List.mem_singleton.1 ht]
    exact scheduleTransaction_carries _ _

/-! ## Removing rows by number -/

theorem Tuple.Carries.hasValue {t : Tuple} {anum : String} (h : t.Carries anum) (other : String) :
    t.hasValue "Anum" (.text other) = decide (anum = other) := by
  unfold Tuple.hasValue
  rw [show t.get? "Anum" = some (.text anum) from h]
  simp

theorem filter_forget_self {anum : String} {l : List Tuple}
    (h : ∀ row ∈ l, Tuple.Carries row anum) :
    l.filter (fun t => !Tuple.hasValue t "Anum" (.text anum)) = [] := by
  rw [List.filter_eq_nil_iff]
  intro row hrow
  simp [(h row hrow).hasValue]

/-- To choose rows by their number is to choose activities by it. -/
theorem filter_rows {s : Setting} {relation : String} {q : Tuple → Bool} {p : String → Bool}
    (h : ∀ t anum, Tuple.Carries t anum → q t = p anum) (l : List Compilation) :
    (l.flatMap (·.rows s relation)).filter q =
      (l.filter fun x => p x.anum).flatMap (·.rows s relation) := by
  induction l with
  | nil => rfl
  | cons x rest ih =>
    have hx : ∀ row ∈ x.rows s relation, q row = p x.anum := fun row hrow =>
      h row x.anum (x.rows_carry s relation row hrow)
    rw [List.flatMap_cons, List.filter_append, ih, List.filter_cons]
    cases hp : p x.anum with
    | true =>
      rw [if_pos rfl, List.flatMap_cons, List.filter_eq_self.2]
      exact fun row hrow => (hx row hrow).trans hp
    | false =>
      rw [if_neg nofun, List.filter_eq_nil_iff.2, List.nil_append]
      intro row hrow
      rw [hx row hrow, hp]
      exact nofun

theorem tuples_forgetAll (c : Compiler) (done : List CompiledActivity) (relation : String) :
    (c.forgetAll done).store.store.tuples relation =
      (c.store.store.tuples relation).filter fun t =>
        !done.any fun a => Tuple.hasValue t "Anum" (.text a.activity.anum) := by
  unfold Compiler.forgetAll
  dsimp only
  generalize c.store = store
  induction done generalizing store with
  | nil => exact (List.filter_eq_self.2 fun _ _ => rfl).symm
  | cons a rest ih =>
    rw [List.foldl_cons, ih]
    unfold TracedStore.forget
    rw [TracedStore.tuples_purgeAll, List.filter_filter]
    refine List.filter_congr fun t _ => ?_
    rw [List.any_cons, Bool.not_or, Bool.and_comm]

theorem calm_forgetAll {c : Compiler} (h : c.store.Calm) (done : List CompiledActivity) :
    (c.forgetAll done).store.Calm := by
  unfold Compiler.forgetAll
  dsimp only
  generalize c.store = store at h
  induction done generalizing store with
  | nil => exact h
  | cons a rest ih => exact ih _ (h.forget _)

/-! ## The ledger -/

namespace Compiler

/-- Numbers have been given out `k` times, beginning after `m`. Of the activities that were given
back some are kept, and the store holds their rows, in order, and no others. As long as no number
has come back, all are kept and their numbers are all different. -/
structure Ledger (s : Setting) (m : UInt32) (k : Nat) (all kept : List Compilation)
    (c : Compiler) : Prop where
  setting : c.setting = s
  calm : c.store.Calm
  number : c.number = m + UInt32.ofNat k
  tuples : ∀ relation, c.store.store.tuples relation = kept.flatMap (·.rows s relation)
  sublist : kept.Sublist all
  numbered : ∀ x ∈ all, ∃ i, 0 < i ∧ i ≤ k ∧ x.anum = anumOf (m + UInt32.ofNat i)
  whole : k ≤ UInt32.size → kept = all ∧ (all.map (·.anum)).Nodup

variable {s : Setting} {m : UInt32} {k : Nat} {all kept done : List Compilation} {c : Compiler}
  {a : ActivityDefinition}

theorem attempt_of_lower_error {anum : String} {e : CompileError} {d : Draft} {store : TracedStore}
    (hlower : c.setting.lower anum (c.pathOf a) a = (.error e, d))
    (hreplay : c.store.replay (c.pathOf a) d.journal = (.ok (), store)) :
    c.attempt anum a = (.error ⟨c.pathOf a, d.fragment, e⟩, store) := by
  unfold attempt
  dsimp only
  rw [hlower]
  dsimp only
  rw [hreplay]

theorem attempt_of_lower_ok {anum : String} {d : Draft} {store : TracedStore}
    (hlower : c.setting.lower anum (c.pathOf a) a = (.ok (), d))
    (hreplay : c.store.replay (c.pathOf a) d.journal = (.ok (), store)) :
    c.attempt anum a = finish store d := by
  unfold attempt
  dsimp only
  rw [hlower]
  dsimp only
  rw [hreplay]

/-- An attempt in a calm store writes the whole activity, or part of it if it fails. -/
theorem attempt_calm (hc : c.store.Calm) (anum : String) (a : ActivityDefinition) :
    (∃ compiled store, c.attempt anum a = (.ok compiled, store) ∧ store.Calm ∧
      compiled.activity.anum = anum ∧ ∀ relation, store.store.tuples relation =
        c.store.store.tuples relation ++ (Compilation.mk a compiled).rows c.setting relation) ∨
    ∃ e store, c.attempt anum a = (.error e, store) ∧ store.Calm ∧
      ∀ relation, ∃ written, store.store.tuples relation =
        c.store.store.tuples relation ++ written ∧ ∀ row ∈ written, Tuple.Carries row anum := by
  have howned := c.setting.lower_owned anum (c.pathOf a) a
  have hactivity := c.setting.lower_activity anum (c.pathOf a) a
  have hsound := c.setting.lower_sound anum (c.pathOf a) a
  rcases hlower : c.setting.lower anum (c.pathOf a) a with ⟨outcome, d⟩
  rw [hlower] at howned hactivity hsound
  obtain ⟨store, hreplay, hstore, htuples⟩ :=
    TracedStore.replay_calm hc (c.pathOf a) d.journal
  cases outcome with
  | error e =>
    rw [attempt_of_lower_error hlower hreplay]
    refine Or.inr ⟨_, store, rfl, hstore, fun relation => ⟨_, htuples relation, ?_⟩⟩
    intro row hrow
    obtain ⟨entry, hentry, hmem⟩ := List.mem_flatMap.1 hrow
    exact (howned entry hentry).rows relation row hmem
  | ok _ =>
    rw [attempt_of_lower_ok hlower hreplay]
    obtain ⟨schedule, hschedule⟩ := hsound.causal.exists_schedule
    obtain ⟨final, hcommit, hfinal, hrows⟩ :=
      TracedStore.commit_calm hstore (scheduleTransaction anum d.graph schedule)
    refine Or.inl ⟨⟨d.activity, d.graph, schedule⟩, final, ?_, hfinal, hactivity.1, ?_⟩
    · unfold finish
      rw [hschedule]
      dsimp only
      rw [hactivity.1, hcommit]
    · intro relation
      rw [hrows, htuples]
      unfold Compilation.rows Compilation.transactions Compilation.anum
      dsimp only
      rw [hactivity.1, hactivity.2, hlower, List.flatMap_append, List.flatMap_map,
        List.append_assoc, List.flatMap_singleton]

namespace Ledger

theorem nextAnum (h : Ledger s m k all kept c) :
    c.nextAnum = anumOf (m + UInt32.ofNat (k + 1)) := by
  unfold Compiler.nextAnum
  rw [h.number, number_succ]

/-- The next number is a new one, unless all have been given out. -/
theorem anum_ne (h : Ledger s m k all kept c) (hk : k + 1 ≤ UInt32.size) :
    ∀ x ∈ all, x.anum ≠ c.nextAnum := by
  intro x hx heq
  obtain ⟨i, hi, hik, hanum⟩ := h.numbered x hx
  rw [hanum, h.nextAnum] at heq
  exact number_ne m hi (Nat.lt_succ_of_le hik) hk (anumOf_injective heq)

/-- Removing the rows under the numbers of the last activities strikes these out. -/
theorem forgetAll (h : Ledger s m k (all ++ done) kept c) :
    ∃ kept', Ledger s m k all kept' (c.forgetAll (done.map (·.compiled))) := by
  let stays (anum : String) : Bool :=
    !(done.map (·.compiled)).any fun a => decide (anum = a.activity.anum)
  have hstays : ∀ anum, stays anum = true ↔ ∀ x ∈ done, anum ≠ x.anum := by
    intro anum
    simp only [stays, List.any_map, Bool.not_eq_true', List.any_eq_false, Function.comp_apply,
      decide_eq_true_iff]
    rfl
  have hsplit : ((all ++ done).filter fun x => stays x.anum) =
      all.filter fun x => stays x.anum := by
    have hgone : (done.filter fun x => stays x.anum) = [] :=
      List.filter_eq_nil_iff.2 fun x hx hstay => (hstays x.anum).1 hstay x hx rfl
    rw [List.filter_append, hgone, List.append_nil]
  refine ⟨kept.filter fun x => stays x.anum, h.setting, calm_forgetAll h.calm _, h.number, ?_, ?_,
    ?_, ?_⟩
  · intro relation
    rw [tuples_forgetAll, h.tuples]
    refine filter_rows (fun t anum hcarry => ?_) kept
    simp only [hcarry.hasValue, stays]
  · exact (hsplit ▸ h.sublist.filter _).trans List.filter_sublist
  · exact fun x hx => h.numbered x (List.mem_append_left _ hx)
  · intro hk
    obtain ⟨rfl, hnodup⟩ := h.whole hk
    rw [List.map_append, List.nodup_append] at hnodup
    refine ⟨hsplit.trans (List.filter_eq_self.2 fun x hx => ?_), hnodup.1⟩
    exact (hstays x.anum).2 fun y hy =>
      hnodup.2.2 x.anum (List.mem_map_of_mem hx) y.anum (List.mem_map_of_mem hy)

/-- A compilation that succeeds adds its activity. -/
theorem ok (h : Ledger s m k all kept c) {compiled : CompiledActivity} {store : TracedStore}
    (hstore : store.Calm) (hanum : compiled.activity.anum = c.nextAnum)
    (htuples : ∀ relation, store.store.tuples relation =
      c.store.store.tuples relation ++ (Compilation.mk a compiled).rows c.setting relation) :
    Ledger s m (k + 1) (all ++ [⟨a, compiled⟩]) (kept ++ [⟨a, compiled⟩])
      { c with store := store, number := c.number + 1 } where
  setting := h.setting
  calm := hstore
  number := by rw [← number_succ, ← h.number]
  tuples := by
    intro relation
    rw [htuples, h.tuples, h.setting, List.flatMap_append, List.flatMap_singleton]
  sublist := h.sublist.append (.refl _)
  numbered := by
    intro x hx
    rcases List.mem_append.1 hx with hx | hx
    · obtain ⟨i, hi, hik, hx⟩ := h.numbered x hx
      exact ⟨i, hi, Nat.le_succ_of_le hik, hx⟩
    · rw [List.mem_singleton.1 hx]
      exact ⟨k + 1, Nat.succ_pos k, Nat.le_refl _, hanum.trans h.nextAnum⟩
  whole := by
    intro hk
    obtain ⟨rfl, hnodup⟩ := h.whole (Nat.le_of_succ_le hk)
    refine ⟨rfl, ?_⟩
    rw [List.map_append, List.nodup_append]
    refine ⟨hnodup, by simp, ?_⟩
    intro x hx y hy heq
    obtain ⟨z, hz, rfl⟩ := List.mem_map.1 hx
    rw [List.map_singleton, List.mem_singleton] at hy
    exact h.anum_ne hk z hz (heq.trans (hy.trans hanum))

/-- A compilation that fails strikes out what has the number that it took. -/
theorem error (h : Ledger s m k all kept c) {store : TracedStore} (hstore : store.Calm)
    (htuples : ∀ relation, ∃ written, store.store.tuples relation =
      c.store.store.tuples relation ++ written ∧
        ∀ row ∈ written, Tuple.Carries row c.nextAnum) :
    Ledger s m (k + 1) all (kept.filter fun x => !decide (x.anum = c.nextAnum))
      { c with store := store.forget c.nextAnum, number := c.number + 1 } where
  setting := h.setting
  calm := hstore.forget _
  number := by rw [← number_succ, ← h.number]
  tuples := by
    intro relation
    obtain ⟨written, hwritten, hcarry⟩ := htuples relation
    show (store.purgeAll "Anum" (.text c.nextAnum)).store.tuples relation = _
    rw [TracedStore.tuples_purgeAll, hwritten, List.filter_append, filter_forget_self hcarry,
      List.append_nil, h.tuples]
    exact filter_rows (fun t anum hcarry => congrArg (!·) (hcarry.hasValue c.nextAnum)) kept
  sublist := List.filter_sublist.trans h.sublist
  numbered := by
    intro x hx
    obtain ⟨i, hi, hik, hx⟩ := h.numbered x hx
    exact ⟨i, hi, Nat.le_succ_of_le hik, hx⟩
  whole := by
    intro hk
    obtain ⟨rfl, hnodup⟩ := h.whole (Nat.le_of_succ_le hk)
    refine ⟨List.filter_eq_self.2 fun x hx => ?_, hnodup⟩
    simpa using h.anum_ne hk x hx

/-- **One compilation** adds its activity to the ledger, or no activity. -/
theorem compile (h : Ledger s m k all kept c) (a : ActivityDefinition) :
    (∃ compiled c', c.compile a = (.ok compiled, c') ∧
      Ledger s m (k + 1) (all ++ [⟨a, compiled⟩]) (kept ++ [⟨a, compiled⟩]) c') ∨
    ∃ e c' k' kept', c.compile a = (.error e, c') ∧ k' ≤ k + 1 ∧ Ledger s m k' all kept' c' := by
  unfold Compiler.compile
  cases hvalid : c.domain.validate with
  | error e => exact Or.inr ⟨_, c, k, kept, rfl, Nat.le_succ k, h⟩
  | ok _ =>
    dsimp only
    rcases attempt_calm h.calm c.nextAnum a with
      ⟨compiled, store, hattempt, hstore, hanum, htuples⟩ | ⟨e, store, hattempt, hstore, htuples⟩
    · rw [hattempt]
      exact Or.inl ⟨compiled, _, rfl, h.ok hstore hanum htuples⟩
    · rw [hattempt]
      exact Or.inr ⟨e, _, k + 1, _, rfl, Nat.le_refl _, h.error hstore htuples⟩

/-- **A batch** adds all of its activities to the ledger, or none. -/
theorem compileFrom (h : Ledger s m k (all ++ done) kept c)
    (activities : List ActivityDefinition) :
    (∃ new c' k' kept', c.compileFrom (done.map (·.compiled)) activities =
        (.ok ((done ++ new).map (·.compiled)), c') ∧ new.map (·.definition) = activities ∧
      k' ≤ k + activities.length ∧ Ledger s m k' (all ++ (done ++ new)) kept' c') ∨
    ∃ e c' k' kept', c.compileFrom (done.map (·.compiled)) activities = (.error e, c') ∧
      k' ≤ k + activities.length ∧ Ledger s m k' all kept' c' := by
  induction activities generalizing c done k kept with
  | nil =>
    refine Or.inl ⟨[], c, k, kept, ?_, rfl, Nat.le_refl _, ?_⟩
    · rw [List.append_nil]
      rfl
    · rwa [List.append_nil]
  | cons a rest ih =>
    unfold Compiler.compileFrom
    rw [List.length_cons]
    rcases h.compile a with ⟨compiled, c', hcompile, hc'⟩ | ⟨e, c', k₁, kept₁, hcompile, hle, hc'⟩
    · rw [hcompile]
      dsimp only
      rw [List.append_assoc] at hc'
      rcases ih hc' with
        ⟨new, c'', k', kept', hrest, hnew, hle, hc''⟩ | ⟨e, c'', k', kept', hrest, hle, hc''⟩
      · rw [List.map_append] at hrest
        refine Or.inl ⟨⟨a, compiled⟩ :: new, c'', k', kept', ?_, by rw [List.map_cons, hnew],
          by omega, ?_⟩
        · rw [List.append_cons done]
          exact hrest
        · rwa [List.append_cons done]
      · rw [List.map_append] at hrest
        exact Or.inr ⟨e, c'', k', kept', hrest, by omega, hc''⟩
    · rw [hcompile]
      obtain ⟨kept', hkept'⟩ := hc'.forgetAll
      exact Or.inr ⟨e, _, k₁, kept', rfl, by omega, hkept'⟩

end Ledger

end Compiler

/-! ## Sequences of calls -/

/-- A call of the compiler: for one activity, or for a batch. -/
inductive CompileCall where
  | one (a : ActivityDefinition)
  | all (activities : List ActivityDefinition)

/-- The definitions that a call is given. -/
def CompileCall.definitions : CompileCall → List ActivityDefinition
  | .one a => [a]
  | .all activities => activities

/-- A call with what it gave back. -/
structure Answered where
  call : CompileCall
  answer : Except ActivityError (List CompiledActivity)

namespace Answered

/-- The activities that were given back; a call that failed gave back none. -/
def returned (x : Answered) : List CompiledActivity := x.answer.toOption.getD []

/-- The activities that were given back, with their definitions. -/
def compilations (x : Answered) : List Compilation :=
  List.zipWith Compilation.mk x.call.definitions x.returned

end Answered

namespace Compiler

variable {s : Setting} {m : UInt32} {k : Nat} {all kept : List Compilation} {c : Compiler}

/-- Answers a call. -/
def answer (c : Compiler) : CompileCall → CompileResult (List CompiledActivity)
  | .one a =>
    match c.compile a with
    | (.ok compiled, c) => (.ok [compiled], c)
    | (.error e, c) => (.error e, c)
  | .all activities => c.compileAll activities

/-- Answers calls in turn. -/
def run (c : Compiler) : List CompileCall → List Answered × Compiler
  | [] => ([], c)
  | call :: rest =>
    let (answer, c) := c.answer call
    let (answers, c) := c.run rest
    (⟨call, answer⟩ :: answers, c)

theorem zipWith_compilations (l : List Compilation) :
    List.zipWith Compilation.mk (l.map (·.definition)) (l.map (·.compiled)) = l := by
  induction l with
  | nil => rfl
  | cons x rest ih => rw [List.map_cons, List.map_cons, List.zipWith_cons_cons, ih]

/-- A call adds what it gives back to the ledger. -/
theorem Ledger.answer (h : Ledger s m k all kept c) (call : CompileCall) :
    ∃ new k' kept', (Answered.mk call (c.answer call).1).compilations = new ∧
      (Answered.mk call (c.answer call).1).returned = new.map (·.compiled) ∧
      k' ≤ k + call.definitions.length ∧ Ledger s m k' (all ++ new) kept' (c.answer call).2 := by
  cases call with
  | one a =>
    rcases h.compile a with ⟨compiled, c', hcompile, hc'⟩ | ⟨e, c', k', kept', hcompile, hle, hc'⟩
    · have hanswer : c.answer (.one a) = (.ok [compiled], c') := by
        unfold Compiler.answer
        dsimp only
        rw [hcompile]
      rw [hanswer]
      exact ⟨[⟨a, compiled⟩], k + 1, _, rfl, rfl, Nat.le_refl _, hc'⟩
    · have hanswer : c.answer (.one a) = (.error e, c') := by
        unfold Compiler.answer
        dsimp only
        rw [hcompile]
      rw [hanswer]
      exact ⟨[], k', kept', rfl, rfl, hle, by rwa [List.append_nil]⟩
  | all activities =>
    have hdone : Ledger s m k (all ++ []) kept c := by rwa [List.append_nil]
    rcases hdone.compileFrom activities with
      ⟨new, c', k', kept', hbatch, hnew, hle, hc'⟩ | ⟨e, c', k', kept', hbatch, hle, hc'⟩
    · have hanswer : c.answer (.all activities) = (.ok (new.map (·.compiled)), c') := hbatch
      rw [hanswer]
      refine ⟨new, k', kept', ?_, rfl, hle, hc'⟩
      show List.zipWith Compilation.mk activities (new.map (·.compiled)) = new
      rw [← hnew, zipWith_compilations]
    · have hanswer : c.answer (.all activities) = (.error e, c') := hbatch
      rw [hanswer]
      refine ⟨[], k', kept', ?_, rfl, hle, by rwa [List.append_nil]⟩
      show List.zipWith Compilation.mk activities [] = []
      exact List.zipWith_nil_right

/-- Calls in turn add what they give back, in the order of the calls. -/
theorem Ledger.run (h : Ledger s m k all kept c) (calls : List CompileCall) :
    (∃ k' kept', k' ≤ k + (calls.flatMap (·.definitions)).length ∧
      Ledger s m k' (all ++ (c.run calls).1.flatMap (·.compilations)) kept' (c.run calls).2) ∧
    ((c.run calls).1.flatMap (·.compilations)).map (·.compiled) =
      (c.run calls).1.flatMap (·.returned) := by
  induction calls generalizing c all kept k with
  | nil => exact ⟨⟨k, kept, Nat.le_refl _, by simpa [Compiler.run] using h⟩, rfl⟩
  | cons call rest ih =>
    obtain ⟨new, k₁, kept₁, hnew, hreturned, hle₁, hc⟩ := h.answer call
    obtain ⟨⟨k', kept', hle', hrest⟩, hmap⟩ := ih hc
    unfold Compiler.run
    dsimp only
    rw [List.flatMap_cons, List.flatMap_cons, List.flatMap_cons, List.length_append, hnew,
      hreturned, List.map_append, hmap, ← List.append_assoc]
    exact ⟨⟨k', kept', by omega, hrest⟩, rfl⟩

/-- **The store holds what was given back.** After any sequence of calls of a compiler that started
with an empty store, no transaction is open, and every relation holds rows of activities that were
given back, in the order of the calls, and no others. While no more definitions have been given than
there are numbers, no number comes back: the store then holds the rows of all activities that were
given back, and their numbers are all different. A call that failed has left nothing and taken
nothing away. -/
theorem run_tuples (hcalm : c.store.Calm) (hempty : ∀ relation, c.store.store.tuples relation = [])
    (calls : List CompileCall) :
    (c.run calls).2.store.store.pending = none ∧
    ((c.run calls).1.flatMap (·.compilations)).map (·.compiled) =
      (c.run calls).1.flatMap (·.returned) ∧
    (∃ kept : List Compilation, kept.Sublist ((c.run calls).1.flatMap (·.compilations)) ∧
      ∀ relation, (c.run calls).2.store.store.tuples relation =
        kept.flatMap (·.rows c.setting relation)) ∧
    ((calls.flatMap (·.definitions)).length ≤ UInt32.size →
      (∀ relation, (c.run calls).2.store.store.tuples relation =
        ((c.run calls).1.flatMap (·.compilations)).flatMap (·.rows c.setting relation)) ∧
      (((c.run calls).1.flatMap (·.returned)).map (·.activity.anum)).Nodup) := by
  have hstart : Ledger c.setting c.number 0 [] [] c :=
    ⟨rfl, hcalm, (UInt32.add_zero _).symm, hempty, .refl _, nofun, fun _ => ⟨rfl, List.nodup_nil⟩⟩
  obtain ⟨⟨k, kept, hk, hledger⟩, hmap⟩ := hstart.run calls
  rw [List.nil_append] at hledger
  rw [Nat.zero_add] at hk
  refine ⟨hledger.calm.idle, hmap, ⟨kept, hledger.sublist, hledger.tuples⟩, fun hbound => ?_⟩
  obtain ⟨rfl, hnodup⟩ := hledger.whole (Nat.le_trans hk hbound)
  refine ⟨hledger.tuples, ?_⟩
  rw [← hmap, List.map_map]
  exact hnodup

/-- An activity that does nothing. -/
def idle : ActivityDefinition := ⟨.state "C" "S", [], "", []⟩

/-- An activity that deletes what no name stands for. -/
def nameless : ActivityDefinition := ⟨.state "C" "T", [], "", [.delete (.instances [.name "y"])]⟩

/-- A failed activity and a failed batch between two activities that compile. -/
def mixed : List CompileCall :=
  [.one idle, .one nameless, .all [idle, nameless], .all [idle]]

/-- What is left are the activities of the first and the fifth try. -/
theorem run_mixed_tuples :
    (single.run mixed).2.store.store.pending = none ∧
    ((single.run mixed).1.flatMap (·.returned)).map (·.activity.anum) = ["A1", "A5"] ∧
    (single.run mixed).2.store.store.tuples "Flow" =
      ((single.run mixed).1.flatMap (·.compilations)).flatMap (·.rows single.setting "Flow") := by
  have hcalm : single.store.Calm := ⟨fun _ _ => rfl, rfl⟩
  obtain ⟨hidle, -, -, hbounded⟩ := run_tuples hcalm (fun _ => rfl) mixed
  obtain ⟨htuples, -⟩ := hbounded (by decide)
  refine ⟨hidle, ?_, htuples "Flow"⟩
  decide +kernel

end Compiler

end ActionFlow
