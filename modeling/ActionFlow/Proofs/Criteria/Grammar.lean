import ActionFlow.Proofs.Flattening

/-!
# Reading criteria

The text of criteria is a list of tokens, each leaf being one of them. `Reads` is the grammar of the
usual precedence: a part of level one is a chain of `or`, of level two a chain of `and`, of level
three it may begin with `not`, and of level four it is a leaf or stands in parentheses. Chains group
to the left.

`parse` reads tokens from left to right and keeps what waits for its right operand on a stack. It
reads exactly what the grammar says (`parse_eq_some_iff`). Whether it succeeds depends on two things
only, whether an operand is due and how many parentheses are open (`exists_parse_iff`), so a pair of
parentheses can be left out and the rest is still read (`exists_parse_of_dropped`).
-/

namespace ActionFlow.Criteria

/-- An operator between two criteria. -/
inductive Connective where
  | or
  | and
deriving DecidableEq

namespace Connective

/-- How tightly a connective binds. -/
def level : Connective → Nat
  | .or => 1
  | .and => 2

/-- Two criteria with a connective between them. -/
def join : Connective → Criteria → Criteria → Criteria
  | .or => .or
  | .and => .and

theorem level_pos (op : Connective) : 1 ≤ op.level := by cases op <;> decide

theorem level_le (op : Connective) : op.level ≤ 2 := by cases op <;> decide

theorem level_injective {op op' : Connective} (h : op.level = op'.level) : op = op' := by
  cases op <;> cases op' <;> first | rfl | cases h

end Connective

/-- A token of the text of criteria. -/
inductive Token where
  | opening
  | closing
  | connective (op : Connective)
  | not
  | leaf (leaf : Leaf)
deriving DecidableEq

/-! ## The grammar -/

/-- The tokens are read as criteria whose outermost operator binds at least as tightly as the
level says, unless it stands in parentheses. -/
inductive Reads : Nat → List Token → Criteria → Prop
  | leaf (l : Leaf) : Reads 4 [.leaf l] l.alone
  | group {ts : List Token} {c : Criteria} (h : Reads 1 ts c) :
      Reads 4 (.opening :: (ts ++ [.closing])) c
  | not {ts : List Token} {c : Criteria} (h : Reads 3 ts c) : Reads 3 (.not :: ts) (.not c)
  | chain {op : Connective} {ts us : List Token} {c d : Criteria} (hl : Reads op.level ts c)
      (hr : Reads (op.level + 1) us d) :
      Reads op.level (ts ++ .connective op :: us) (op.join c d)
  | tighter {p : Nat} {ts : List Token} {c : Criteria} (h : Reads (p + 1) ts c) : Reads p ts c

theorem Reads.mono {p q : Nat} {ts : List Token} {c : Criteria} (h : Reads p ts c) (hq : q ≤ p) :
    Reads q ts c := by
  induction hq using Nat.decreasingInduction with
  | self => exact h
  | of_succ _ _ ih => exact ih.tighter

/-! ## The reader -/

/-- What waits for its right operand. -/
inductive Frame where
  | group
  | chain (op : Connective) (left : Criteria)
  | not

/-- How tightly a frame holds on to its right operand; parentheses do not let go of what is inside
them. -/
def Frame.precedence : Frame → Nat
  | .group => 0
  | .chain op _ => op.level
  | .not => 3

/-- The frame with its right operand. -/
def Frame.complete (operand : Criteria) : Frame → Criteria
  | .group => operand
  | .chain op left => op.join left operand
  | .not => .not operand

/-- Gives an operand to the frames that bind at least as tightly as a level, the last one first. -/
def reduce (level : Nat) : Criteria → List Frame → Criteria × List Frame
  | c, [] => (c, [])
  | c, f :: frames =>
    if level ≤ f.precedence then reduce level (f.complete c) frames else (c, f :: frames)

/-- A reader in the middle of its tokens. -/
inductive Reader where
  /-- An operand is due. -/
  | awaits (frames : List Frame)
  /-- An operand has been read. -/
  | holds (operand : Criteria) (frames : List Frame)

namespace Reader

/-- Reads one token. -/
def step : Reader → Token → Option Reader
  | .awaits frames, .leaf l => some (.holds l.alone frames)
  | .awaits frames, .not => some (.awaits (.not :: frames))
  | .awaits frames, .opening => some (.awaits (.group :: frames))
  | .holds c frames, .connective op =>
    some (.awaits (.chain op (reduce op.level c frames).1 :: (reduce op.level c frames).2))
  | .holds c frames, .closing =>
    match reduce 1 c frames with
    | (c, .group :: frames) => some (.holds c frames)
    | _ => none
  | _, _ => none

/-- Reads tokens in turn. -/
def run : Reader → List Token → Option Reader
  | r, [] => some r
  | r, t :: ts => (r.step t).bind (·.run ts)

/-- What has been read, if nothing waits. -/
def result : Reader → Option Criteria
  | .awaits _ => none
  | .holds c frames =>
    match reduce 1 c frames with
    | (c, []) => some c
    | _ => none

end Reader

/-- Reads criteria. -/
def parse (ts : List Token) : Option Criteria := ((Reader.awaits []).run ts).bind (·.result)

theorem Reader.run_append (r : Reader) (ts us : List Token) :
    r.run (ts ++ us) = (r.run ts).bind (·.run us) := by
  induction ts generalizing r with
  | nil => rfl
  | cons t ts ih =>
    rw [List.cons_append, run, run, Option.bind_assoc]
    exact congrArg _ (funext ih)

/-! ## What the grammar says is read -/

section Complete

variable {p : Nat} {ts : List Token} {c : Criteria} {frames : List Frame}

/-- The last frame lets go of an operand at a level. -/
def Below (p : Nat) (frames : List Frame) : Prop := ∀ f ∈ frames.head?, f.precedence < p

theorem reduce_of_below (h : Below p frames) (c : Criteria) : reduce p c frames = (c, frames) := by
  cases frames with
  | nil => rfl
  | cons f frames => rw [reduce, if_neg (Nat.not_le.2 (h f rfl))]

theorem reduce_cons {f : Frame} (h : p ≤ f.precedence) (c : Criteria) (frames : List Frame) :
    reduce p c (f :: frames) = reduce p (f.complete c) frames := if_pos h

/-- A part of the text is read to an operand that, whenever less tightly bound operators take it up,
is the one that the grammar says. Chains are read so only where no frame takes their first part. -/
theorem run_of_reads (h : Reads p ts c) (frames : List Frame) (hframes : 3 ≤ p ∨ Below p frames) :
    ∃ c' frames', (Reader.awaits frames).run ts = some (.holds c' frames') ∧
      ∀ q ≤ p, reduce q c' frames' = reduce q c frames := by
  induction h generalizing frames with
  | leaf l => exact ⟨_, _, rfl, fun _ _ => rfl⟩
  | @group ts c _ ih =>
    obtain ⟨c', frames', hrun, hreduce⟩ :=
      ih (.group :: frames) (.inr fun f hf => by cases hf; exact Nat.one_pos)
    refine ⟨c, frames, ?_, fun _ _ => rfl⟩
    rw [Reader.run, Reader.step, Option.bind_some, Reader.run_append, hrun, Option.bind_some,
      Reader.run, Reader.step, hreduce 1 le_rfl]
    rfl
  | @not ts c _ ih =>
    obtain ⟨c', frames', hrun, hreduce⟩ := ih (.not :: frames) (.inl le_rfl)
    exact ⟨c', frames', hrun, fun q hq => (hreduce q hq).trans (reduce_cons hq c frames)⟩
  | @chain op ts us c d _ _ ihl ihr =>
    have hbelow : Below op.level frames :=
      hframes.resolve_left (by have := op.level_le; omega)
    obtain ⟨c', frames', hrun, hreduce⟩ := ihl frames (.inr hbelow)
    obtain ⟨d', frames'', hrun', hreduce'⟩ := ihr (.chain op c :: frames)
      (.inr fun f hf => by cases hf; exact Nat.lt_succ_self _)
    refine ⟨d', frames'', ?_,
      fun q hq => (hreduce' q (by omega)).trans (reduce_cons hq d frames)⟩
    rw [Reader.run_append, hrun, Option.bind_some, Reader.run, Reader.step, hreduce _ le_rfl,
      reduce_of_below hbelow, Option.bind_some]
    exact hrun'
  | tighter _ ih =>
    obtain ⟨c', frames', hrun, hreduce⟩ := ih frames (hframes.imp (fun h => by omega)
      fun h f hf => Nat.lt_succ_of_lt (h f hf))
    exact ⟨c', frames', hrun, fun q hq => hreduce q (by omega)⟩

theorem parse_of_reads (h : Reads 1 ts c) : parse ts = some c := by
  obtain ⟨c', frames', hrun, hreduce⟩ := run_of_reads h [] (.inr nofun)
  unfold parse
  rw [hrun, Option.bind_some, Reader.result, hreduce 1 le_rfl]
  rfl

end Complete

/-! ## Nothing else is read -/

section Sound

variable {p r : Nat} {ts us : List Token} {c : Criteria} {frames : List Frame}

/-- The tokens that the frames of a reader stand for. -/
inductive Spells : List Frame → List Token → Prop
  | nil : Spells [] []
  | group {frames : List Frame} {ts : List Token} (h : Spells frames ts) :
      Spells (.group :: frames) (ts ++ [.opening])
  | not {frames : List Frame} {ts : List Token} (h : Spells frames ts) :
      Spells (.not :: frames) (ts ++ [.not])
  | chain {op : Connective} {frames : List Frame} {ts us : List Token} {c : Criteria}
      (h : Spells frames ts) (hbelow : Below op.level frames) (hl : Reads op.level us c) :
      Spells (.chain op c :: frames) (ts ++ us ++ [.connective op])

/-- The tokens that a reader has read. -/
def Reader.Spelled : Reader → List Token → Prop
  | .awaits frames, ts => Spells frames ts
  | .holds c frames, ts => ∃ before us, ts = before ++ us ∧ Spells frames before ∧ Reads 4 us c

/-- Frames take an operand as the grammar says, from the tightest to the level asked for. -/
theorem reduce_spells (h : Spells frames ts) (hc : Reads r us c) (hr : 3 ≤ r ∨ Below r frames)
    (hp : p ≤ r) (hp₁ : 1 ≤ p) (hp₃ : p ≤ 3) :
    ∃ before part, ts ++ us = before ++ part ∧ Spells (reduce p c frames).2 before ∧
      Reads p part (reduce p c frames).1 ∧ Below p (reduce p c frames).2 := by
  induction h generalizing r us c with
  | nil => exact ⟨[], us, rfl, .nil, hc.mono hp, nofun⟩
  | @group frames ts h _ =>
    have hbelow : Below p (.group :: frames) := fun f hf => by cases hf; exact hp₁
    rw [reduce_of_below hbelow]
    exact ⟨_, us, rfl, h.group, hc.mono hp, hbelow⟩
  | @not frames ts h ih =>
    have hc₃ : Reads 3 us c := hc.mono (hr.elim id fun hbelow => Nat.le_of_lt (hbelow _ rfl))
    rw [reduce_cons hp₃]
    obtain ⟨before, part, heq, hrest⟩ := ih hc₃.not (.inl le_rfl) hp₃
    exact ⟨before, part, by rw [← heq]; simp, hrest⟩
  | @chain op frames ts us' l h hbelow hl ih =>
    have hright : Reads (op.level + 1) us c :=
      hc.mono (hr.elim (fun h => by have := op.level_le; omega) fun hbelow => hbelow _ rfl)
    by_cases hlevel : p ≤ op.level
    · rw [reduce_cons hlevel]
      obtain ⟨before, part, heq, hrest⟩ := ih (hl.chain hright) (.inr hbelow) hlevel
      exact ⟨before, part, by rw [← heq]; simp, hrest⟩
    · have hstop : Below p (.chain op l :: frames) := fun f hf => by
        cases hf
        exact Nat.not_le.1 hlevel
      rw [reduce_of_below hstop]
      exact ⟨_, us, rfl, h.chain hbelow hl, hc.mono hp, hstop⟩

/-- One token keeps what a reader has read in line with the grammar. -/
theorem Reader.step_spelled {r r' : Reader} {t : Token} (h : r.Spelled ts)
    (hstep : r.step t = some r') : r'.Spelled (ts ++ [t]) := by
  cases r with
  | awaits frames =>
    have h : Spells frames ts := h
    cases t with
    | leaf l =>
      cases hstep
      exact ⟨ts, _, rfl, h, .leaf l⟩
    | not =>
      cases hstep
      exact h.not
    | opening =>
      cases hstep
      exact h.group
    | closing | connective => cases hstep
  | holds c frames =>
    obtain ⟨before, us, rfl, hframes, hc⟩ := h
    have hreduce : ∀ p, 1 ≤ p → p ≤ 3 → _ := fun p hp₁ hp₃ =>
      reduce_spells (p := p) hframes hc (.inl (by decide)) (by omega) hp₁ hp₃
    cases t with
    | leaf | not | opening => cases hstep
    | connective op =>
      cases hstep
      obtain ⟨before', part, heq, hspells, hpart, hbelow⟩ :=
        hreduce op.level op.level_pos (op.level_le.trans (by decide))
      rw [heq]
      exact hspells.chain hbelow hpart
    | closing =>
      obtain ⟨before', part, heq, hspells, hpart, -⟩ := hreduce 1 (by decide) (by decide)
      rw [Reader.step] at hstep
      split at hstep
      · rename_i c' frames' hreduced
        cases hstep
        rw [hreduced] at hspells hpart
        cases hspells with
        | @group _ outer houter =>
          rw [heq]
          exact ⟨outer, _, by simp, houter, hpart.group⟩
      · cases hstep

theorem Reader.run_spelled {r r' : Reader} (h : r.Spelled ts) (hrun : r.run us = some r') :
    r'.Spelled (ts ++ us) := by
  induction us generalizing r ts with
  | nil =>
    cases hrun
    rwa [List.append_nil]
  | cons t us ih =>
    obtain ⟨r₁, hstep, hrest⟩ := Option.bind_eq_some_iff.1 hrun
    rw [List.append_cons]
    exact ih (step_spelled h hstep) hrest

theorem reads_of_parse (h : parse ts = some c) : Reads 1 ts c := by
  obtain ⟨r, hrun, hresult⟩ := Option.bind_eq_some_iff.1 h
  have hspelled := Reader.run_spelled (show (Reader.awaits []).Spelled [] from .nil) hrun
  cases r with
  | awaits frames => cases hresult
  | holds c' frames =>
    obtain ⟨before, us, heq, hframes, hc'⟩ := hspelled
    obtain ⟨before', part, heq', hspells, hpart, -⟩ :=
      reduce_spells (p := 1) hframes hc' (.inl (by decide)) (by decide) (by decide) (by decide)
    rw [Reader.result] at hresult
    split at hresult
    · rename_i hreduced
      cases hresult
      rw [hreduced] at hspells hpart
      cases hspells
      rw [List.nil_append] at heq heq'
      rw [heq, heq']
      exact hpart
    · cases hresult

end Sound

/-- **The reader and the grammar.** What is read is what the grammar says. -/
theorem parse_eq_some_iff {ts : List Token} {c : Criteria} : parse ts = some c ↔ Reads 1 ts c :=
  ⟨reads_of_parse, parse_of_reads⟩

/-! ## What can be read -/

section Acceptance

variable {ts us before inside after : List Token} {c : Criteria} {frames : List Frame}

/-- How many parentheses are open. -/
def depth : List Frame → Nat
  | [] => 0
  | .group :: frames => depth frames + 1
  | .chain _ _ :: frames | .not :: frames => depth frames

theorem depth_reduce (p : Nat) (hp : 1 ≤ p) (c : Criteria) (frames : List Frame) :
    depth (reduce p c frames).2 = depth frames := by
  induction frames generalizing c with
  | nil => rfl
  | cons f frames ih =>
    rw [reduce]
    split
    · rename_i hle
      rw [ih]
      cases f with
      | group => exact absurd hle (Nat.not_le.2 hp)
      | chain | not => rfl
    · rfl

/-- At the lowest level only parentheses hold on to an operand. -/
theorem reduce_one_frames (c : Criteria) (frames : List Frame) :
    (reduce 1 c frames).2 = [] ∨ ∃ rest, (reduce 1 c frames).2 = .group :: rest := by
  induction frames generalizing c with
  | nil => exact .inl rfl
  | cons f frames ih =>
    cases f with
    | group => exact .inr ⟨frames, rfl⟩
    | not => exact ih _
    | chain op left =>
      rw [reduce_cons op.level_pos]
      exact ih _

/-- What a reader can read next depends on: whether it holds an operand, and how many parentheses
are open. -/
def Reader.view : Reader → Bool × Nat
  | .awaits frames => (false, depth frames)
  | .holds _ frames => (true, depth frames)

/-- One token, as it shows in the view of a reader. -/
def advance : Bool × Nat → Token → Option (Bool × Nat)
  | (false, n), .leaf _ => some (true, n)
  | (false, n), .not => some (false, n)
  | (false, n), .opening => some (false, n + 1)
  | (true, n), .connective _ => some (false, n)
  | (true, n + 1), .closing => some (true, n)
  | _, _ => none

/-- Tokens in turn, as they show in the view of a reader. -/
def scan : Bool × Nat → List Token → Option (Bool × Nat)
  | v, [] => some v
  | v, t :: ts => (advance v t).bind (scan · ts)

theorem scan_append (v : Bool × Nat) (ts us : List Token) :
    scan v (ts ++ us) = (scan v ts).bind (scan · us) := by
  induction ts generalizing v with
  | nil => rfl
  | cons t ts ih =>
    rw [List.cons_append, scan, scan, Option.bind_assoc]
    exact congrArg _ (funext ih)

theorem Reader.view_step (r : Reader) (t : Token) :
    (r.step t).map view = advance r.view t := by
  cases r with
  | awaits frames => cases t <;> rfl
  | holds c frames =>
    cases t with
    | leaf | not | opening => rfl
    | connective op =>
      exact congrArg some (congrArg (Prod.mk false) (depth_reduce op.level op.level_pos c frames))
    | closing =>
      have hdepth := depth_reduce 1 le_rfl c frames
      rw [step, view]
      rcases hreduced : reduce 1 c frames with ⟨c', frames'⟩
      rw [hreduced] at hdepth
      have hframes' := reduce_one_frames c frames
      rw [hreduced] at hframes'
      rcases hframes' with rfl | ⟨rest, rfl⟩
      · rw [← hdepth]
        rfl
      · rw [← hdepth]
        rfl

theorem Reader.view_run (r : Reader) (ts : List Token) : (r.run ts).map view = scan r.view ts := by
  induction ts generalizing r with
  | nil => rfl
  | cons t ts ih =>
    rw [run, scan, ← view_step, Option.map_bind, Option.bind_map]
    exact congrArg _ (funext ih)

theorem Reader.exists_result_iff (r : Reader) : (∃ c, r.result = some c) ↔ r.view = (true, 0) := by
  cases r with
  | awaits frames => simp [result, view]
  | holds c frames =>
    have hdepth := depth_reduce 1 le_rfl c frames
    have hframes := reduce_one_frames c frames
    rw [result, view]
    rcases hreduced : reduce 1 c frames with ⟨c', frames'⟩
    rw [hreduced] at hdepth hframes
    rcases hframes with rfl | ⟨rest, rfl⟩
    · simp [← hdepth, depth]
    · simp [← hdepth, depth]

/-- Tokens are read if they end with an operand and with no parenthesis open. -/
theorem exists_parse_iff : (∃ c, parse ts = some c) ↔ scan (false, 0) ts = some (true, 0) := by
  have hview := Reader.view_run (.awaits []) ts
  rw [show scan (false, 0) ts = _ from hview.symm]
  unfold parse
  cases (Reader.awaits []).run ts with
  | none => simp
  | some r => simpa using r.exists_result_iff

/-- Tokens in which every parenthesis has its partner. -/
inductive Balanced : List Token → Prop
  | nil : Balanced []
  | token {t : Token} (hopening : t ≠ .opening) (hclosing : t ≠ .closing) : Balanced [t]
  | group {ts : List Token} (h : Balanced ts) : Balanced (.opening :: (ts ++ [.closing]))
  | append {ts us : List Token} (h : Balanced ts) (h' : Balanced us) : Balanced (ts ++ us)

/-- Balanced tokens leave as many parentheses open as there were, however many that is. -/
theorem Balanced.scan (h : Balanced ts) (b : Bool) :
    (∀ n, Criteria.scan (b, n) ts = none) ∨ ∃ b', ∀ n, Criteria.scan (b, n) ts = some (b', n) := by
  induction h generalizing b with
  | nil => exact .inr ⟨b, fun _ => rfl⟩
  | @token t hopening hclosing =>
    cases t with
    | opening => exact absurd rfl hopening
    | closing => exact absurd rfl hclosing
    | connective | not | leaf =>
      cases b
      all_goals first | exact .inl fun _ => rfl | exact .inr ⟨_, fun _ => rfl⟩
  | @group ts _ ih =>
    cases b with
    | true => exact .inl fun _ => rfl
    | false =>
      have hgroup : ∀ n, Criteria.scan (false, n) (.opening :: (ts ++ [.closing])) =
          (Criteria.scan (false, n + 1) ts).bind (Criteria.scan · [.closing]) :=
        fun n => scan_append ..
      rcases ih false with hnone | ⟨b', hsome⟩
      · exact .inl fun n => by rw [hgroup, hnone]; rfl
      · cases b' with
        | false => exact .inl fun n => by rw [hgroup, hsome]; rfl
        | true => exact .inr ⟨true, fun n => by rw [hgroup, hsome]; rfl⟩
  | @append ts us _ _ ih ih' =>
    rcases ih b with hnone | ⟨b', hsome⟩
    · exact .inl fun n => by rw [scan_append, hnone]; rfl
    · rcases ih' b' with hnone' | ⟨b'', hsome'⟩
      · exact .inl fun n => by rw [scan_append, hsome, Option.bind_some, hnone']
      · exact .inr ⟨b'', fun n => by rw [scan_append, hsome, Option.bind_some, hsome']⟩

/-- Tokens that are read are still read when a pair of parentheses is left out. -/
theorem exists_parse_of_dropped
    (h : parse (before ++ .opening :: (inside ++ .closing :: after)) = some c)
    (hinside : Balanced inside) : ∃ d, parse (before ++ inside ++ after) = some d := by
  have hscan := exists_parse_iff.1 ⟨c, h⟩
  rw [scan_append] at hscan
  obtain ⟨⟨b, n⟩, hbefore, hscan⟩ := Option.bind_eq_some_iff.1 hscan
  obtain ⟨v, hopening, hscan⟩ := Option.bind_eq_some_iff.1 hscan
  -- an opening parenthesis stands where an operand is due
  cases b with
  | true => cases hopening
  | false =>
    cases hopening
    rw [scan_append] at hscan
    rcases hinside.scan false with hnone | ⟨b', hsome⟩
    · rw [hnone] at hscan
      cases hscan
    · rw [hsome, Option.bind_some] at hscan
      obtain ⟨v, hclosing, hafter⟩ := Option.bind_eq_some_iff.1 hscan
      cases b' with
      | false => cases hclosing
      | true =>
        cases hclosing
        refine exists_parse_iff.2 ?_
        rw [List.append_assoc, scan_append, hbefore, Option.bind_some, scan_append, hsome,
          Option.bind_some]
        exact hafter

end Acceptance

end ActionFlow.Criteria
