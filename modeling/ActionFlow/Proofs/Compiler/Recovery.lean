import ActionFlow.Proofs.Compiler.Ledger

/-!
# What a failed compilation leaves in the store

Whatever the store held before and whichever calls it refuses, an attempt only appends rows under
the number of its activity, and it leaves the open transaction alone as long as discarding one is
not refused (`TracedStore.Writes`, `Compiler.attempt_writes`). A call that fails removes the rows
under the numbers it has given out.

So a failed compilation restores the store it was given if no row of that store carries the new
number (`compile_restores`). If rows do, which happens when another compiler has numbered activities
in the same store, they are removed as well (`answer_error_tuples`, `not_every_failure_restores`).
-/

namespace ActionFlow

/-! ## Rows under given numbers -/

namespace Tuple

/-- Whether a row is under one of the next `k` numbers after `m`. -/
def isNumbered (m : UInt32) (k : Nat) (t : Tuple) : Bool :=
  (List.range' 1 k).any fun i => t.hasValue "Anum" (.text (Compiler.anumOf (m + UInt32.ofNat i)))

variable {m : UInt32} {k : Nat} {t : Tuple}

theorem hasValue_iff_carries {anum : String} :
    t.hasValue "Anum" (.text anum) = true ↔ t.Carries anum := by
  unfold hasValue Carries
  exact decide_eq_true_iff

theorem isNumbered_iff : t.isNumbered m k = true ↔
    ∃ i, 0 < i ∧ i ≤ k ∧ t.Carries (Compiler.anumOf (m + UInt32.ofNat i)) := by
  unfold isNumbered
  rw [List.any_eq_true]
  constructor
  · rintro ⟨i, hi, hvalue⟩
    rw [List.mem_range'_1] at hi
    exact ⟨i, by omega, by omega, hasValue_iff_carries.1 hvalue⟩
  · rintro ⟨i, hpos, hle, hcarry⟩
    exact ⟨i, List.mem_range'_1.2 (by omega), hasValue_iff_carries.2 hcarry⟩

theorem isNumbered_zero (m : UInt32) (t : Tuple) : t.isNumbered m 0 = false := rfl

theorem isNumbered_one (m : UInt32) (t : Tuple) :
    t.isNumbered m 1 = t.hasValue "Anum" (.text (Compiler.anumOf (m + 1))) := Bool.or_false _

/-- Numbers are given out in turn. -/
theorem isNumbered_add (m : UInt32) (k j : Nat) (t : Tuple) :
    (t.isNumbered m k || t.isNumbered (m + UInt32.ofNat k) j) = t.isNumbered m (k + j) := by
  have hlater : t.isNumbered (m + UInt32.ofNat k) j = (List.range' (1 + k) j).any fun i =>
      t.hasValue "Anum" (.text (Compiler.anumOf (m + UInt32.ofNat i))) := by
    unfold isNumbered
    rw [Nat.add_comm 1 k, ← List.map_add_range', List.any_map]
    refine congrArg (List.any _) (funext fun i => ?_)
    rw [Function.comp_apply, UInt32.ofNat_add, ← UInt32.add_assoc]
  rw [hlater]
  unfold isNumbered
  rw [← List.any_append, List.range'_append_1]

end Tuple

/-! ## Writing under a number -/

namespace TracedStore

variable {s s₁ s₂ : TracedStore} {anum : String}

/-- Rows under a number have been appended. The open transaction is the one before, unless
discarding a transaction may be refused. -/
structure Writes (s : TracedStore) (anum : String) (s' : TracedStore) : Prop where
  refuses : s'.refuses = s.refuses
  pending : (∀ n, s.refuses .rollback n = false) → s'.store.pending = s.store.pending
  tuples : ∀ relation, ∃ written, s'.store.tuples relation = s.store.tuples relation ++ written ∧
    ∀ row ∈ written, Tuple.Carries row anum

theorem Writes.refl (s : TracedStore) (anum : String) : s.Writes anum s :=
  ⟨rfl, fun _ => rfl, fun _ => ⟨[], (List.append_nil _).symm, nofun⟩⟩

theorem Writes.trans (h₁ : s.Writes anum s₁) (h₂ : s₁.Writes anum s₂) : s.Writes anum s₂ where
  refuses := h₂.refuses.trans h₁.refuses
  pending := by
    intro hrollback
    rw [h₂.pending (by rwa [h₁.refuses]), h₁.pending hrollback]
  tuples := by
    intro relation
    obtain ⟨written₁, htuples₁, hcarry₁⟩ := h₁.tuples relation
    obtain ⟨written₂, htuples₂, hcarry₂⟩ := h₂.tuples relation
    refine ⟨written₁ ++ written₂, by rw [htuples₂, htuples₁, List.append_assoc], ?_⟩
    intro row hrow
    rcases List.mem_append.1 hrow with hrow | hrow
    · exact hcarry₁ row hrow
    · exact hcarry₂ row hrow

theorem Executed.writes {t : Transaction} (h : s.Executed t s₁) (ht : t.Carries anum) :
    s.Writes anum s₁ :=
  ⟨h.refuses, fun _ => by rw [h.idleAfter, h.idleBefore],
    fun relation => ⟨_, h.tuples relation, ht.rows relation⟩⟩

theorem Abandoned.writes (h : s.Abandoned s₁) : s.Writes anum s₁ := by
  refine ⟨h.refuses, fun hrollback => by rw [h.store hrollback], fun relation => ⟨[], ?_, nofun⟩⟩
  unfold Store.tuples
  rw [h.relations, List.append_nil]

theorem commit_writes (s : TracedStore) {t : Transaction} (ht : t.Carries anum) :
    s.Writes anum (s.commit t).2 := by
  rcases commit_cases s t with ⟨s₁, hcommit, hdone⟩ | ⟨e, s₁, hcommit, hdone, -⟩
  · rw [hcommit]
    exact hdone.writes ht
  · rw [hcommit]
    exact hdone.writes

theorem replay_writes (s : TracedStore) (path : String) {journal : List JournalEntry}
    (h : ∀ e ∈ journal, e.transaction.Carries anum) :
    s.Writes anum (s.replay path journal).2 := by
  induction journal generalizing s with
  | nil => exact .refl s anum
  | cons entry rest ih =>
    have hentry := commit_writes s (h entry List.mem_cons_self)
    unfold replay
    split
    · rename_i s₁ hcommit
      rw [hcommit] at hentry
      exact hentry.trans (ih s₁ fun e he => h e (List.mem_cons_of_mem _ he))
    · rename_i e s₁ hcommit
      rw [hcommit] at hentry
      exact hentry

/-- Removing what was written leaves the rows on entry that are not under the number. -/
theorem Writes.tuples_forget (h : s.Writes anum s₁) (relation : String) :
    (s₁.forget anum).store.tuples relation =
      (s.store.tuples relation).filter fun t => !t.hasValue "Anum" (.text anum) := by
  obtain ⟨written, htuples, hcarry⟩ := h.tuples relation
  unfold forget
  rw [tuples_purgeAll, htuples, List.filter_append, filter_forget_self hcarry, List.append_nil]

end TracedStore

namespace Compiler

variable {c c' : Compiler} {a : ActivityDefinition} {compiled : CompiledActivity}
  {e : ActivityError} {anum : String}

/-- Scheduling writes under the number of the activity, and it succeeds only if no transaction is
open. -/
theorem finish_writes (store : TracedStore) (d : Draft) :
    store.Writes d.activity.anum (finish store d).2 ∧
      (∀ compiled, (finish store d).1 = .ok compiled → store.store.pending = none) := by
  unfold finish
  split
  · exact ⟨.refl store _, nofun⟩
  · rename_i schedule _
    rcases TracedStore.commit_cases store
        (scheduleTransaction d.activity.anum d.graph schedule) with
      ⟨s₁, hcommit, hdone⟩ | ⟨e, s₁, hcommit, hdone, -⟩
    · rw [hcommit]
      exact ⟨hdone.writes (scheduleTransaction_carries _ _), fun _ _ => hdone.idleBefore⟩
    · rw [hcommit]
      exact ⟨hdone.writes, nofun⟩

/-- An attempt writes under its number, and it succeeds only if no transaction is open on entry. -/
theorem attempt_writes (c : Compiler) (anum : String) (a : ActivityDefinition) :
    c.store.Writes anum (c.attempt anum a).2 ∧
      (∀ compiled, (c.attempt anum a).1 = .ok compiled →
        (∀ n, c.store.refuses .rollback n = false) → c.store.store.pending = none) := by
  have howned := c.setting.lower_owned anum (c.pathOf a) a
  have hactivity := c.setting.lower_activity anum (c.pathOf a) a
  unfold attempt
  dsimp only
  rcases hlower : c.setting.lower anum (c.pathOf a) a with ⟨outcome, d⟩
  rw [hlower] at howned hactivity
  have hjournal := c.store.replay_writes (c.pathOf a) howned
  dsimp only
  rcases hreplay : c.store.replay (c.pathOf a) d.journal with ⟨replayed, store⟩
  rw [hreplay] at hjournal
  cases replayed with
  | error e => exact ⟨hjournal, nofun⟩
  | ok _ =>
    cases outcome with
    | error e => exact ⟨hjournal, nofun⟩
    | ok _ =>
      have hfinish := finish_writes store d
      rw [hactivity.1] at hfinish
      refine ⟨hjournal.trans hfinish.1, fun compiled hok hrollback => ?_⟩
      rw [← hjournal.pending hrollback]
      exact hfinish.2 compiled hok

theorem anum_of_attempt (h : (c.attempt anum a).1 = .ok compiled) :
    compiled.activity.anum = anum := by
  obtain ⟨d, hlower, -, -, hactivity⟩ := exists_draft_of_attempt h
  rw [hactivity, ← (c.setting.lower_activity anum (c.pathOf a) a).1, hlower]

/-! ## One compilation -/

/-- A compilation that fails has not begun, or it has tried one activity and removed its rows. -/
theorem compile_error_cases (h : c.compile a = (.error e, c')) :
    c' = c ∨ ∃ store, c.store.Writes c.nextAnum store ∧
      c' = { c with store := store.forget c.nextAnum, number := c.number + 1 } := by
  unfold compile at h
  split at h
  · exact Or.inl (Prod.mk.inj h).2.symm
  · have hwrites := (c.attempt_writes c.nextAnum a).1
    split at h
    · cases (Prod.mk.inj h).1
    · rename_i store hattempt
      rw [hattempt] at hwrites
      exact Or.inr ⟨store, hwrites, (Prod.mk.inj h).2.symm⟩

/-- A compilation that succeeds has written its activity under the next number. -/
theorem compile_ok_cases (h : c.compile a = (.ok compiled, c')) :
    compiled.activity.anum = c.nextAnum ∧
      ∃ store, c.store.Writes c.nextAnum store ∧
        c' = { c with store := store, number := c.number + 1 } ∧
        ((∀ n, c.store.refuses .rollback n = false) → c.store.store.pending = none) := by
  unfold compile at h
  split at h
  · cases (Prod.mk.inj h).1
  · have hwrites := c.attempt_writes c.nextAnum a
    split at h
    · rename_i compiled' store hattempt
      obtain ⟨hcompiled, hc'⟩ := Prod.mk.inj h
      cases hcompiled
      have hok : (c.attempt c.nextAnum a).1 = .ok compiled := congrArg Prod.fst hattempt
      rw [hattempt] at hwrites
      exact ⟨anum_of_attempt hok, store, hwrites.1, hc'.symm, hwrites.2 compiled rfl⟩
    · cases (Prod.mk.inj h).1

theorem refuses_compile (c : Compiler) (a : ActivityDefinition) :
    (c.compile a).2.store.refuses = c.store.refuses := by
  rcases hcompile : c.compile a with ⟨outcome, c'⟩
  cases outcome with
  | error e =>
    rcases compile_error_cases hcompile with rfl | ⟨store, hwrites, rfl⟩
    · rfl
    · exact hwrites.refuses
  | ok compiled =>
    obtain ⟨-, store, hwrites, rfl, -⟩ := compile_ok_cases hcompile
    exact hwrites.refuses

/-- A compilation that fails removes the rows under the number it has given out. -/
theorem compile_error_tuples (h : c.compile a = (.error e, c')) :
    ∃ k ≤ 1, c'.number = c.number + UInt32.ofNat k ∧
      ∀ relation, c'.store.store.tuples relation =
        (c.store.store.tuples relation).filter fun t => !t.isNumbered c.number k := by
  rcases compile_error_cases h with rfl | ⟨store, hwrites, rfl⟩
  · refine ⟨0, Nat.zero_le 1, (UInt32.add_zero _).symm, fun relation => ?_⟩
    simp only [Tuple.isNumbered_zero]
    exact (List.filter_eq_self.2 fun _ _ => rfl).symm
  · refine ⟨1, Nat.le_refl 1, rfl, fun relation => ?_⟩
    simp only [Tuple.isNumbered_one]
    exact hwrites.tuples_forget relation

/-- **A refused call is undone.** Let any calls be refused, except the one that discards a
transaction, and let no row carry the number that is given out next. If a compilation fails, the
rows and the open transaction are those on entry. It succeeds only if no transaction is open, and
then leaves none open. So a transaction that is open on entry makes it fail and stays as it is. -/
theorem compile_restores (c : Compiler) (a : ActivityDefinition)
    (hrollback : ∀ n, c.store.refuses .rollback n = false)
    (hfresh : ∀ relation, ∀ t ∈ c.store.store.tuples relation,
      ¬ Tuple.Carries t c.nextAnum) :
    (∀ e c', c.compile a = (.error e, c') →
      (∀ relation, c'.store.store.tuples relation = c.store.store.tuples relation) ∧
      c'.store.store.pending = c.store.store.pending) ∧
    (∀ compiled c', c.compile a = (.ok compiled, c') →
      c.store.store.pending = none ∧ c'.store.store.pending = none) ∧
    ∀ p, c.store.store.pending = some p → ∃ e c', c.compile a = (.error e, c') ∧
      (∀ relation, c'.store.store.tuples relation = c.store.store.tuples relation) ∧
      c'.store.store.pending = some p := by
  have hfailed : ∀ e c', c.compile a = (.error e, c') →
      (∀ relation, c'.store.store.tuples relation = c.store.store.tuples relation) ∧
      c'.store.store.pending = c.store.store.pending := by
    intro e c' h
    rcases compile_error_cases h with rfl | ⟨store, hwrites, rfl⟩
    · exact ⟨fun _ => rfl, rfl⟩
    · refine ⟨fun relation => ?_, ?_⟩
      · show (store.forget _).store.tuples relation = _
        rw [hwrites.tuples_forget, List.filter_eq_self]
        intro t ht
        rw [Bool.not_eq_true', Bool.eq_false_iff]
        exact fun hvalue => hfresh relation t ht (Tuple.hasValue_iff_carries.1 hvalue)
      · show (store.forget _).store.pending = _
        rw [TracedStore.pending_forget, hwrites.pending hrollback]
  have hdone : ∀ compiled c', c.compile a = (.ok compiled, c') →
      c.store.store.pending = none ∧ c'.store.store.pending = none := by
    intro compiled c' h
    obtain ⟨-, store, hwrites, rfl, hidle⟩ := compile_ok_cases h
    exact ⟨hidle hrollback, by rw [hwrites.pending hrollback, hidle hrollback]⟩
  refine ⟨hfailed, hdone, fun p hp => ?_⟩
  rcases hcompile : c.compile a with ⟨outcome, c'⟩
  cases outcome with
  | ok compiled =>
    have hidle := (hdone compiled c' hcompile).1
    rw [hp] at hidle
    cases hidle
  | error e =>
    obtain ⟨htuples, hpending⟩ := hfailed e c' hcompile
    exact ⟨e, c', rfl, htuples, by rw [hpending, hp]⟩

/-- A compiler whose store refuses to execute the third transaction. -/
def faulty : Compiler :=
  .new single.domain .explicit (.ofStore .empty fun kind n => kind = .execute && n = 3)

/-- Two transactions of the activity are executed before the third is refused; none of their rows
is left. -/
theorem faulty_restored :
    (faulty.attempt "A1" idle).2.store.count "Activity" = 1 ∧
    ∃ e c', faulty.compile idle = (.error e, c') ∧ c'.store.calls.length = 9 ∧
      c'.store.store.tuples "Activity" = [] ∧ c'.store.store.pending = none := by
  have hwritten : (faulty.attempt "A1" idle).2.store.count "Activity" = 1 := by decide +kernel
  have hrun : (faulty.compile idle).1.isOk = false ∧
      (faulty.compile idle).2.store.calls.length = 9 := by decide +kernel
  have hfaults := (compile_restores faulty idle (fun _ => rfl) nofun).1
  rcases hcompile : faulty.compile idle with ⟨outcome, c'⟩
  rw [hcompile] at hrun
  cases outcome with
  | ok compiled => cases hrun.1
  | error e =>
    obtain ⟨htuples, hpending⟩ := hfaults e c' hcompile
    exact ⟨hwritten, e, c', rfl, hrun.2, htuples "Activity", hpending⟩

/-! ## Batches -/

/-- A batch on its way: `done` are the activities under the `k` numbers given out since `m`, and the
rows that have been appended to the `base` are under these numbers. -/
structure Batch (m : UInt32) (k : Nat) (base : String → List Tuple)
    (done : List CompiledActivity) (c : Compiler) : Prop where
  number : c.number = m + UInt32.ofNat k
  anums : done.map (·.activity.anum) =
    (List.range' 1 k).map fun i => anumOf (m + UInt32.ofNat i)
  tuples : ∀ relation, ∃ written, c.store.store.tuples relation = base relation ++ written ∧
    ∀ row ∈ written, Tuple.isNumbered m k row = true

variable {m : UInt32} {k : Nat} {base : String → List Tuple} {done : List CompiledActivity}

theorem Batch.any_anum (h : Batch m k base done c) (t : Tuple) :
    (done.any fun a => t.hasValue "Anum" (.text a.activity.anum)) = t.isNumbered m k := by
  have hmap : (done.any fun a => t.hasValue "Anum" (.text a.activity.anum)) =
      (done.map (·.activity.anum)).any fun anum => t.hasValue "Anum" (.text anum) := by
    rw [List.any_map]
    rfl
  rw [hmap, h.anums, List.any_map]
  rfl

/-- An activity that compiles joins the batch. -/
theorem Batch.ok (h : Batch m k base done c) (hcompile : c.compile a = (.ok compiled, c')) :
    Batch m (k + 1) base (done ++ [compiled]) c' := by
  obtain ⟨hanum, store, hwrites, rfl, -⟩ := compile_ok_cases hcompile
  have hnext : c.nextAnum = anumOf (m + UInt32.ofNat (k + 1)) := by
    rw [nextAnum, h.number, number_succ]
  refine ⟨by rw [← number_succ, ← h.number], ?_, fun relation => ?_⟩
  · rw [List.map_append, h.anums, List.map_singleton, hanum, hnext, List.range'_1_concat,
      List.map_append, List.map_singleton, Nat.add_comm 1 k]
  · obtain ⟨written, htuples, hnumbered⟩ := h.tuples relation
    obtain ⟨new, hnew, hcarry⟩ := hwrites.tuples relation
    refine ⟨written ++ new, by rw [hnew, htuples, List.append_assoc], fun row hrow => ?_⟩
    rw [Tuple.isNumbered_iff]
    rcases List.mem_append.1 hrow with hrow | hrow
    · obtain ⟨i, hpos, hle, hi⟩ := Tuple.isNumbered_iff.1 (hnumbered row hrow)
      exact ⟨i, hpos, Nat.le_succ_of_le hle, hi⟩
    · exact ⟨k + 1, Nat.succ_pos k, Nat.le_refl _, hnext ▸ hcarry row hrow⟩

/-- An activity that fails takes the batch with it. -/
theorem Batch.error (h : Batch m k base done c) (hcompile : c.compile a = (.error e, c')) :
    ∃ j ≤ 1, c'.number = m + UInt32.ofNat (k + j) ∧
      ∀ relation, (c'.forgetAll done).store.store.tuples relation =
        (base relation).filter fun t => !t.isNumbered m (k + j) := by
  obtain ⟨j, hj, hnumber, htuples⟩ := compile_error_tuples hcompile
  refine ⟨j, hj, ?_, fun relation => ?_⟩
  · rw [hnumber, h.number, UInt32.ofNat_add, UInt32.add_assoc]
  · obtain ⟨written, hwritten, hnumbered⟩ := h.tuples relation
    have hremoved : written.filter (fun t => !t.isNumbered m (k + j)) = [] := by
      rw [List.filter_eq_nil_iff]
      intro row hrow
      rw [← Tuple.isNumbered_add, hnumbered row hrow]
      exact nofun
    rw [tuples_forgetAll, htuples, List.filter_filter]
    simp only [h.any_anum, ← Bool.not_or, h.number, Tuple.isNumbered_add]
    rw [hwritten, List.filter_append, hremoved, List.append_nil]

theorem Batch.compileFrom (h : Batch m k base done c) {activities : List ActivityDefinition}
    (hfailed : c.compileFrom done activities = (.error e, c')) :
    ∃ j ≤ k + activities.length, c'.number = m + UInt32.ofNat j ∧
      ∀ relation, c'.store.store.tuples relation =
        (base relation).filter fun t => !t.isNumbered m j := by
  induction activities generalizing c done k with
  | nil => cases hfailed
  | cons a rest ih =>
    rw [List.length_cons]
    unfold Compiler.compileFrom at hfailed
    split at hfailed
    · rename_i compiled c₁ hcompile
      obtain ⟨j, hle, hnumber, htuples⟩ := ih (h.ok hcompile) hfailed
      exact ⟨j, by omega, hnumber, htuples⟩
    · rename_i e' c₁ hcompile
      obtain ⟨-, rfl⟩ := Prod.mk.inj hfailed
      obtain ⟨j, hj, hnumber, htuples⟩ := h.error hcompile
      exact ⟨k + j, by omega, hnumber, htuples⟩

/-! ## Stores that others have written to -/

/-- **What a failed call removes.** A call that fails, for one activity or for a batch, removes the
rows under the numbers it has given out, at most one for each definition, and no others. So it
leaves the rows on entry as they are exactly if none of them is under such a number. -/
theorem answer_error_tuples {call : CompileCall} (h : c.answer call = (.error e, c')) :
    ∃ k ≤ call.definitions.length, c'.number = c.number + UInt32.ofNat k ∧
      (∀ relation, c'.store.store.tuples relation =
        (c.store.store.tuples relation).filter fun t => !t.isNumbered c.number k) ∧
      ((∀ relation, c'.store.store.tuples relation = c.store.store.tuples relation) ↔
        ∀ relation, ∀ t ∈ c.store.store.tuples relation, ∀ i, 0 < i → i ≤ k →
          ¬ Tuple.Carries t (anumOf (c.number + UInt32.ofNat i))) := by
  have hremoved : ∃ k ≤ call.definitions.length, c'.number = c.number + UInt32.ofNat k ∧
      ∀ relation, c'.store.store.tuples relation =
        (c.store.store.tuples relation).filter fun t => !t.isNumbered c.number k := by
    cases call with
    | one a =>
      unfold answer at h
      dsimp only at h
      split at h
      · cases (Prod.mk.inj h).1
      · rename_i e' c₁ hcompile
        obtain ⟨-, rfl⟩ := Prod.mk.inj h
        exact compile_error_tuples hcompile
    | all activities =>
      have hstart : Batch c.number 0 c.store.store.tuples [] c :=
        ⟨(UInt32.add_zero _).symm, rfl, fun _ => ⟨[], (List.append_nil _).symm, nofun⟩⟩
      obtain ⟨k, hle, hnumber, htuples⟩ := hstart.compileFrom h
      exact ⟨k, by rwa [Nat.zero_add] at hle, hnumber, htuples⟩
  obtain ⟨k, hle, hnumber, htuples⟩ := hremoved
  refine ⟨k, hle, hnumber, htuples, ?_⟩
  simp only [htuples, List.filter_eq_self, Bool.not_eq_true', Bool.eq_false_iff, ne_eq,
    Tuple.isNumbered_iff]
  constructor
  · intro hkept relation t ht i hpos hle hcarry
    exact hkept relation t ht ⟨i, hpos, hle, hcarry⟩
  · rintro hfresh relation t ht ⟨i, hpos, hle, hcarry⟩
    exact hfresh relation t ht i hpos hle hcarry

/-- The compiler that has compiled one activity. -/
def onceUsed : Compiler := (single.compile idle).2

/-- A failed batch of the same compiler leaves the activity that was compiled before it. -/
theorem onceUsed_kept : ∃ e c', onceUsed.answer (.all [idle, nameless]) = (.error e, c') ∧
    c'.number = 3 ∧ c'.store.store.tuples "Activity" = onceUsed.store.store.tuples "Activity" ∧
    c'.store.store.count "Activity" = 1 := by
  have hrun : (onceUsed.answer (.all [idle, nameless])).1.isOk = false ∧
      (onceUsed.answer (.all [idle, nameless])).2.number = 3 := by decide +kernel
  have hkept : ∀ k ≤ 2, (onceUsed.store.store.tuples "Activity").filter
        (fun t => !t.isNumbered onceUsed.number k) = onceUsed.store.store.tuples "Activity" := by
    decide +kernel
  have hcount : onceUsed.store.store.count "Activity" = 1 := by decide +kernel
  rcases hanswer : onceUsed.answer (.all [idle, nameless]) with ⟨outcome, c'⟩
  rw [hanswer] at hrun
  cases outcome with
  | ok compiled => cases hrun.1
  | error e =>
    obtain ⟨k, hk, -, htuples, -⟩ := answer_error_tuples hanswer
    have hactivity := (htuples "Activity").trans (hkept k hk)
    refine ⟨e, c', rfl, hrun.2, hactivity, ?_⟩
    unfold Store.count
    rw [hactivity]
    exact hcount

/-- A new compiler over the store that another one has left. -/
def successor : Compiler := .new single.domain .explicit onceUsed.store

/-- The first activity of the new compiler gets the number of the first one of the other, and when
it fails, both are removed. -/
theorem not_every_failure_restores :
    ¬ ∀ (c c' : Compiler) (call : CompileCall) (e : ActivityError), c.store.Accepts →
      c.answer call = (.error e, c') →
      ∀ relation, c'.store.store.tuples relation = c.store.store.tuples relation := by
  intro h
  have hrun : (successor.answer (.one nameless)).1.isOk = false ∧
      (successor.answer (.one nameless)).2.store.store.count "Activity" = 0 ∧
      successor.store.store.count "Activity" = 1 := by decide +kernel
  have haccepts : successor.store.Accepts := by
    intro kind n
    show (single.compile idle).2.store.refuses kind n = false
    rw [refuses_compile]
    rfl
  rcases hanswer : successor.answer (.one nameless) with ⟨outcome, c'⟩
  rw [hanswer] at hrun
  cases outcome with
  | ok compiled => cases hrun.1
  | error e =>
    have hsame := congrArg List.length (h successor c' _ e haccepts hanswer "Activity")
    have hgone : (0 : Nat) = 1 := hrun.2.1.symm.trans (hsame.trans hrun.2.2)
    cases hgone

end Compiler

end ActionFlow
