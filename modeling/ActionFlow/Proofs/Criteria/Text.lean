import ActionFlow.Proofs.Criteria.Grammar

/-!
# The text of criteria

The text of criteria spells a list of tokens (`renderIn_eq_spell`), and reading them gives the
criteria back up to re-association of chains of `and` and of `or` (`readBack`), which the tokens do
not show (`Reassociates.tokensIn_eq`). So criteria have the same tokens if and only if they are
re-associations of each other (`tokens_eq_iff`).

Parentheses are written only where they are needed: whatever is read as given criteria has at least
as many as their text (`Reads.openings_le`), so none can be left out (`render_unambiguous`).
-/

namespace ActionFlow.Criteria

/-! ## Tokens -/

/-- A token as it is written. -/
def Token.text : Token → String
  | .opening => "("
  | .closing => ")"
  | .connective .and => " and "
  | .connective .or => " or "
  | .not => "not "
  | .leaf l => l.alone.render

/-- Tokens as they are written one after the other. -/
def spell : List Token → String
  | [] => ""
  | t :: ts => t.text ++ spell ts

/-- Puts parentheses around the tokens of a part that binds less tightly than its surroundings. -/
def enclosed (outer inner : Nat) (body : List Token) : List Token :=
  if inner < outer then .opening :: (body ++ [.closing]) else body

/-- The tokens of a part whose surroundings bind with the given precedence. -/
def tokensIn (outer : Nat) : Criteria → List Token
  | .or l r => enclosed outer 1 (l.tokensIn 1 ++ .connective .or :: r.tokensIn 1)
  | .and l r => enclosed outer 2 (l.tokensIn 2 ++ .connective .and :: r.tokensIn 2)
  | .not c => enclosed outer 3 (.not :: c.tokensIn 3)
  | .compare op lhs rhs => enclosed outer 4 [.leaf (.compare op lhs rhs)]
  | .rank attr order => enclosed outer 4 [.leaf (.rank attr order)]
  | .flag attr => enclosed outer 4 [.leaf (.flag attr)]

/-- The tokens of criteria. -/
def tokens (c : Criteria) : List Token := c.tokensIn 0

theorem spell_append (ts us : List Token) : spell (ts ++ us) = spell ts ++ spell us := by
  induction ts with
  | nil => exact String.empty_append.symm
  | cons t ts ih => rw [List.cons_append, spell, spell, ih, String.append_assoc]

theorem spell_enclosed (outer inner : Nat) (body : List Token) :
    spell (enclosed outer inner body) = enclose outer inner (spell body) := by
  unfold enclosed enclose
  split
  · rw [spell, spell_append, ← String.append_assoc]
    rfl
  · rfl

/-- The text spells the tokens. -/
theorem renderIn_eq_spell (outer : Nat) (c : Criteria) :
    c.renderIn outer = spell (c.tokensIn outer) := by
  induction c generalizing outer with
  | and l r ihl ihr | or l r ihl ihr =>
    rw [renderIn, tokensIn, spell_enclosed, spell_append, spell, ihl, ihr, ← String.append_assoc]
    rfl
  | not c ih =>
    rw [renderIn, tokensIn, spell_enclosed, spell, ih]
    rfl
  | compare op lhs rhs =>
    rw [renderIn, tokensIn, spell_enclosed, spell, spell, String.append_empty]
    rfl
  | rank attr order =>
    rw [renderIn, tokensIn, spell_enclosed, spell, spell, String.append_empty]
    rfl
  | flag attr =>
    rw [renderIn, tokensIn, spell_enclosed, spell, spell, String.append_empty]
    rfl

/-- Parentheses are put around the same tokens, whatever the surroundings. -/
theorem exists_body (c : Criteria) :
    ∃ body, ∀ outer, c.tokensIn outer = enclosed outer c.precedence body := by
  cases c <;> exact ⟨_, fun _ => rfl⟩

theorem precedence_pos (c : Criteria) : 1 ≤ c.precedence := by
  cases c <;> exact Nat.le_of_ble_eq_true rfl

theorem enclosed_of_le {outer inner : Nat} (h : outer ≤ inner) (body : List Token) :
    enclosed outer inner body = body := if_neg (Nat.not_lt.2 h)

theorem tokensIn_join (op : Connective) (c d : Criteria) (outer : Nat) :
    (op.join c d).tokensIn outer =
      enclosed outer op.level (c.tokensIn op.level ++ .connective op :: d.tokensIn op.level) := by
  cases op <;> rfl

theorem tokensIn_alone (l : Leaf) (outer : Nat) :
    l.alone.tokensIn outer = enclosed outer 4 [.leaf l] := by
  cases l <;> rfl

/-! ## Re-association -/

/-- The same criteria up to how chains of one connective are grouped. -/
inductive Reassociates : Criteria → Criteria → Prop
  | assoc (op : Connective) (a b c : Criteria) :
      Reassociates (op.join (op.join a b) c) (op.join a (op.join b c))
  | join (op : Connective) {a a' b b' : Criteria} (h : Reassociates a a')
      (h' : Reassociates b b') : Reassociates (op.join a b) (op.join a' b')
  | not {a a' : Criteria} (h : Reassociates a a') : Reassociates (.not a) (.not a')
  | refl (a : Criteria) : Reassociates a a
  | symm {a b : Criteria} (h : Reassociates a b) : Reassociates b a
  | trans {a b c : Criteria} (h : Reassociates a b) (h' : Reassociates b c) : Reassociates a c

/-- Whether criteria are true when their leaves are as given. -/
def eval (v : Leaf → Bool) : Criteria → Bool
  | .and l r => l.eval v && r.eval v
  | .or l r => l.eval v || r.eval v
  | .not c => !c.eval v
  | .compare op lhs rhs => v (.compare op lhs rhs)
  | .rank attr order => v (.rank attr order)
  | .flag attr => v (.flag attr)

theorem parts_join (op : Connective) (c d : Criteria) :
    (op.join c d).parts = c.parts ++ d.parts := by
  cases op <;> rfl

namespace Reassociates

variable {c d : Criteria}

/-- How chains are grouped does not show in the tokens. -/
theorem tokensIn_eq (h : c.Reassociates d) (outer : Nat) : c.tokensIn outer = d.tokensIn outer := by
  induction h generalizing outer with
  | assoc op a b c =>
    simp only [tokensIn_join, enclosed_of_le le_rfl, List.append_assoc, List.cons_append]
  | join op _ _ ih ih' => rw [tokensIn_join, tokensIn_join, ih, ih']
  | not _ ih => rw [tokensIn, tokensIn, ih]
  | refl => rfl
  | symm _ ih => exact (ih outer).symm
  | trans _ _ ih ih' => exact (ih outer).trans (ih' outer)

theorem parts_eq (h : c.Reassociates d) : c.parts = d.parts := by
  induction h with
  | assoc op a b c => simp only [parts_join, List.append_assoc]
  | join op _ _ ih ih' => rw [parts_join, parts_join, ih, ih']
  | not _ ih => exact ih
  | refl => rfl
  | symm _ ih => exact ih.symm
  | trans _ _ ih ih' => exact ih.trans ih'

theorem eval_eq (h : c.Reassociates d) (v : Leaf → Bool) : c.eval v = d.eval v := by
  induction h with
  | assoc op a b c =>
    cases op with
    | or => exact Bool.or_assoc ..
    | and => exact Bool.and_assoc ..
  | join op _ _ ih ih' => cases op <;> rw [Connective.join, eval, eval, ih, ih']
  | not _ ih => rw [eval, eval, ih]
  | refl => rfl
  | symm _ ih => exact ih.symm
  | trans _ _ ih ih' => exact ih.trans ih'

end Reassociates

/-! ## Reading the tokens -/

/-- Two chains of a connective are read as one, grouped to the left. -/
theorem exists_reads_join {op : Connective} {ts us : List Token} {c d : Criteria}
    (hl : Reads op.level ts c) (hr : Reads op.level us d) :
    ∃ e, Reads op.level (ts ++ .connective op :: us) e ∧ e.Reassociates (op.join c d) := by
  have hlevel := op.level_le
  generalize hp : op.level = p at hr
  induction hr with
  | leaf | group | not => omega
  | @chain op' us₁ us₂ d₁ d₂ _ hr ihl _ =>
    obtain rfl := Connective.level_injective hp
    obtain ⟨e, he, hassoc⟩ := ihl rfl
    refine ⟨op.join e d₂, ?_, (Reassociates.join op hassoc (.refl d₂)).trans (.assoc op c d₁ d₂)⟩
    have hread := he.chain hr
    rwa [List.append_assoc, List.cons_append] at hread
  | tighter hr _ =>
    subst hp
    exact ⟨op.join c _, hl.chain hr, .refl _⟩

theorem Reads.enclosed {outer inner : Nat} {body : List Token} {c : Criteria}
    (h : Reads inner body c) (hinner : 1 ≤ inner) (houter : outer ≤ 4) :
    Reads outer (Criteria.enclosed outer inner body) c := by
  unfold Criteria.enclosed
  split
  · exact (h.mono hinner).group.mono houter
  · rename_i hlt
    exact h.mono (Nat.not_lt.1 hlt)

/-- The tokens of a part are read as the part, up to re-association. -/
def ReadBack (outer : Nat) (c : Criteria) : Prop :=
  ∃ d, Reads outer (c.tokensIn outer) d ∧ d.Reassociates c

section ReadBack

variable {outer : Nat} (houter : outer ≤ 4)

include houter

theorem readBack_join (op : Connective) {l r : Criteria} (hl : l.ReadBack op.level)
    (hr : r.ReadBack op.level) : (op.join l r).ReadBack outer := by
  obtain ⟨l', hl, hl'⟩ := hl
  obtain ⟨r', hr, hr'⟩ := hr
  obtain ⟨d, hd, hd'⟩ := exists_reads_join hl hr
  unfold ReadBack
  rw [tokensIn_join]
  exact ⟨d, hd.enclosed op.level_pos houter, hd'.trans (.join op hl' hr')⟩

theorem readBack_alone (l : Leaf) : l.alone.ReadBack outer := by
  unfold ReadBack
  rw [tokensIn_alone]
  exact ⟨l.alone, (Reads.leaf l).enclosed (by decide) houter, .refl _⟩

theorem readBack (c : Criteria) : c.ReadBack outer := by
  induction c generalizing outer with
  | and l r ihl ihr =>
    exact readBack_join houter .and (ihl (by decide)) (ihr (by decide))
  | or l r ihl ihr => exact readBack_join houter .or (ihl (by decide)) (ihr (by decide))
  | not c ih =>
    obtain ⟨d, hd, hd'⟩ : c.ReadBack 3 := ih (by decide)
    exact ⟨.not d, hd.not.enclosed (by decide) houter, hd'.not⟩
  | compare op lhs rhs => exact readBack_alone houter (.compare op lhs rhs)
  | rank attr order => exact readBack_alone houter (.rank attr order)
  | flag attr => exact readBack_alone houter (.flag attr)

end ReadBack

theorem tokensIn_one (c : Criteria) : c.tokensIn 1 = c.tokens := by
  obtain ⟨body, hbody⟩ := c.exists_body
  unfold tokens
  rw [hbody, hbody, enclosed_of_le c.precedence_pos, enclosed_of_le (Nat.zero_le _)]

theorem exists_parse_tokens (c : Criteria) : ∃ d, parse c.tokens = some d ∧ d.Reassociates c := by
  obtain ⟨d, hd, hd'⟩ : c.ReadBack 1 := readBack (by decide) c
  rw [tokensIn_one] at hd
  exact ⟨d, parse_eq_some_iff.2 hd, hd'⟩

/-- The tokens of criteria are those of their re-associations and of nothing else. -/
theorem tokens_eq_iff {c d : Criteria} : c.tokens = d.tokens ↔ c.Reassociates d := by
  constructor
  · intro heq
    obtain ⟨e, he, hec⟩ := c.exists_parse_tokens
    obtain ⟨e', he', hed⟩ := d.exists_parse_tokens
    rw [heq, he'] at he
    cases he
    exact hec.symm.trans hed
  · exact fun h => h.tokensIn_eq 0

/-! ## Parentheses -/

/-- How many parentheses are opened. -/
def openings (ts : List Token) : Nat := ts.count .opening

theorem openings_append (ts us : List Token) :
    openings (ts ++ us) = openings ts + openings us := List.count_append

/-- A pair of parentheses that is left out is missed. -/
theorem openings_dropped (before inside after : List Token) :
    openings (before ++ .opening :: (inside ++ .closing :: after)) =
      openings (before ++ inside ++ after) + 1 := by
  have hclosing : openings (.closing :: after) = openings after := rfl
  have hopening : ∀ ts, openings (.opening :: ts) = openings ts + 1 := fun _ =>
    List.count_cons_self
  rw [openings_append, hopening, openings_append, hclosing, openings_append, openings_append]
  omega

theorem openings_group (ts : List Token) :
    openings (.opening :: (ts ++ [.closing])) = openings ts + 1 := by
  simpa using openings_dropped [] ts []

theorem openings_enclosed (outer inner : Nat) (body : List Token) :
    openings (enclosed outer inner body) = openings body + if inner < outer then 1 else 0 := by
  unfold enclosed
  split
  · exact openings_group body
  · rfl

/-- Tighter surroundings need at least as many parentheses. -/
theorem openings_tokensIn_mono (c : Criteria) {p q : Nat} (h : p ≤ q) :
    openings (c.tokensIn p) ≤ openings (c.tokensIn q) := by
  obtain ⟨body, hbody⟩ := c.exists_body
  rw [hbody, hbody, openings_enclosed, openings_enclosed]
  split
  · rw [if_pos (by omega)]
  · exact Nat.le_add_right ..

theorem openings_tokensIn_le (c : Criteria) (p : Nat) :
    openings (c.tokensIn p) ≤ openings (c.tokensIn 1) + 1 := by
  obtain ⟨body, hbody⟩ := c.exists_body
  rw [hbody, hbody, openings_enclosed, enclosed_of_le c.precedence_pos]
  split <;> omega

/-- Whatever is read as given criteria has at least the parentheses of their text. -/
theorem Reads.openings_le {p : Nat} {ts : List Token} {c : Criteria} (h : Reads p ts c) :
    openings (c.tokensIn p) ≤ openings ts := by
  induction h with
  | leaf l =>
    rw [tokensIn_alone]
    exact le_rfl
  | @group ts c _ ih =>
    calc openings (c.tokensIn 4) ≤ openings (c.tokensIn 1) + 1 := c.openings_tokensIn_le 4
      _ ≤ openings ts + 1 := Nat.succ_le_succ ih
      _ = openings (.opening :: (ts ++ [.closing])) := (openings_group ts).symm
  | @not ts c _ ih => exact ih
  | @chain op ts us c d _ _ ihl ihr =>
    rw [tokensIn_join, enclosed_of_le le_rfl, openings_append, openings_append]
    exact Nat.add_le_add ihl ((d.openings_tokensIn_mono (Nat.le_succ _)).trans ihr)
  | @tighter p ts c _ ih => exact (c.openings_tokensIn_mono (Nat.le_succ p)).trans ih

/-- **The text of criteria is unambiguous.** It spells tokens that are read, with the usual
precedence, as the criteria up to re-association of chains. Criteria with the same tokens therefore
have the same leaves in the same order and are true under the same valuations of the leaves. If a
pair of parentheses is left out of the tokens they are still read, but as something else. -/
theorem render_unambiguous (c : Criteria) :
    c.render = spell c.tokens ∧
    (∃ d, parse c.tokens = some d ∧ d.Reassociates c) ∧
    (∀ d : Criteria, d.tokens = c.tokens →
      d.Reassociates c ∧ d.parts = c.parts ∧ ∀ v, d.eval v = c.eval v) ∧
    ∀ before inside after, c.tokens = before ++ .opening :: (inside ++ .closing :: after) →
      Balanced inside →
      ∃ d, parse (before ++ inside ++ after) = some d ∧ ¬ d.Reassociates c := by
  refine ⟨renderIn_eq_spell 0 c, c.exists_parse_tokens, fun d hd => ?_, ?_⟩
  · have hassoc := tokens_eq_iff.1 hd
    exact ⟨hassoc, hassoc.parts_eq, hassoc.eval_eq⟩
  · intro before inside after htokens hinside
    obtain ⟨e, he, -⟩ := c.exists_parse_tokens
    rw [htokens] at he
    obtain ⟨d, hd⟩ := exists_parse_of_dropped he hinside
    refine ⟨d, hd, fun hassoc => ?_⟩
    -- the criteria read would need the parenthesis that has been left out
    have hle := (parse_eq_some_iff.1 hd).openings_le
    rw [tokensIn_one, tokens_eq_iff.2 hassoc, htokens] at hle
    rw [openings_dropped] at hle
    omega

end ActionFlow.Criteria
