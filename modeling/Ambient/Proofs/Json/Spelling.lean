import Ambient.Json.Tree

/-!
# Texts that spell a tree

What a JSON text may look like, said without the machines that read it: a value
is a token, or items between square brackets with commas between them, or fields
between braces, with gaps wherever tokens may stand apart (`Spells`). A text
that spells a tree is read as that tree (`Spells.ofText`). The token machine
takes such a text piece by piece, because no token goes on behind a gap, a
bracket, a comma or a colon (`lex_append_cons`), and the builder takes the
tokens of a value to that value wherever it is due (`Builds`).
-/

namespace Ambient.Json

variable {s rest : List Char} {c : Char} {t : Token} {ts : List Token} {m : Lexer}

/-! ## Texts in pieces -/

/-- The tokens of a list of characters. -/
def lex (s : List Char) : List Token := (s.foldl Lexer.step .start).finish

/-- The token that is written as one character. -/
def mark? (c : Char) : Option Token :=
  match c with
  | '[' => some .openArray
  | ']' => some .closeArray
  | '\x7b' => some .openObject
  | '\x7d' => some .closeObject
  | ',' => some .comma
  | ':' => some .colon
  | _ => none

namespace Lexer

/-- The machine with tokens before its own. -/
def onto (m : Lexer) (before : List Token) : Lexer := ⟨m.tokens ++ before, m.mode⟩

theorem stepBetween_onto (m : Lexer) (before : List Token) (c : Char) :
    (m.onto before).stepBetween c = (m.stepBetween c).onto before := by
  unfold stepBetween
  split
  · rfl
  · split <;> try rfl
    split <;> rfl

/-- What was read before has no part in how the machine goes on. -/
theorem step_onto (m : Lexer) (before : List Token) (c : Char) :
    (m.onto before).step c = (m.step c).onto before := by
  obtain ⟨tokens, mode⟩ := m
  cases mode with
  | stuck => rfl
  | between => exact stepBetween_onto _ before c
  | word t letters =>
    cases letters with
    | nil => exact stepBetween_onto ⟨t :: tokens, .between⟩ before c
    | cons l letters =>
      simp only [step, onto]
      split
      · rfl
      · split <;> rfl
  | text d =>
    simp only [step, onto]
    split
    · rfl
    · split
      · rfl
      · split <;> rfl
  | escape d =>
    simp only [step, onto]
    split
    · rfl
    · split <;> rfl
  | unit d left code =>
    simp only [step, onto]
    split <;> rfl
  | number n phase =>
    simp only [step, onto]
    split
    · rfl
    · split
      · rfl
      · exact stepBetween_onto ⟨.number n.inOrder :: tokens, .between⟩ before c

theorem foldl_step_onto (s : List Char) (m : Lexer) (before : List Token) :
    s.foldl step (m.onto before) = (s.foldl step m).onto before := by
  induction s generalizing m with
  | nil => rfl
  | cons c s ih => rw [List.foldl_cons, List.foldl_cons, step_onto, ih]

theorem finish_onto (m : Lexer) (before : List Token) :
    (m.onto before).finish = before.reverse ++ m.finish := by
  obtain ⟨tokens, mode⟩ := m
  cases mode with
  | number n phase =>
    simp only [finish, onto]
    split <;> simp
  | _ => simp [finish, onto]

/-- Where the machine is stuck it has said so. -/
def Sane (m : Lexer) : Prop := m.mode = .stuck → Token.fault ∈ m.tokens

theorem sane_fail (m : Lexer) : m.fail.Sane := fun _ => List.mem_cons_self

theorem sane_emit (m : Lexer) (t : Token) : (m.emit t).Sane := by
  intro h
  cases h

theorem Sane.stepBetween (h : m.Sane) (c : Char) : (m.stepBetween c).Sane := by
  unfold Lexer.stepBetween
  split
  · exact h
  · split
    case h_12 =>
      split
      · intro h
        cases h
      · exact sane_fail m
    all_goals
      intro h
      cases h

theorem Sane.step (h : m.Sane) (c : Char) : (m.step c).Sane := by
  obtain ⟨tokens, mode⟩ := m
  cases mode with
  | stuck => exact h
  | between => exact h.stepBetween c
  | word t letters =>
    cases letters with
    | nil => exact (sane_emit _ t).stepBetween c
    | cons l letters =>
      simp only [Lexer.step]
      split
      · exact sane_fail _
      · split
        · exact sane_emit _ _
        · exact fun h => by cases h
  | text d =>
    simp only [Lexer.step]
    split
    · exact sane_emit _ _
    · split
      · exact fun h => by cases h
      · split
        · exact sane_fail _
        · exact fun h => by cases h
  | escape d =>
    simp only [Lexer.step]
    split
    · exact fun h => by cases h
    · split
      · exact fun h => by cases h
      · exact sane_fail _
  | unit d left code =>
    simp only [Lexer.step]
    split
    · exact sane_fail _
    · exact fun h => by cases h
    · exact fun h => by cases h
  | number n phase =>
    simp only [Lexer.step]
    split
    · exact fun h => by cases h
    · split
      · exact sane_fail _
      · exact (sane_emit _ _).stepBetween c

theorem Sane.foldl_step (h : m.Sane) (s : List Char) : (s.foldl Lexer.step m).Sane := by
  induction s generalizing m with
  | nil => exact h
  | cons c s ih => exact ih (h.step c)

end Lexer

/-- A character at which the token before it ends. -/
def isDelimiter (c : Char) : Bool := isGap c || (mark? c).isSome

theorem eq_of_isDelimiter (h : isDelimiter c) :
    c = ' ' ∨ c = '\t' ∨ c = '\n' ∨ c = '\r' ∨ c = '[' ∨ c = ']' ∨ c = '\x7b' ∨ c = '\x7d' ∨
      c = ',' ∨ c = ':' := by
  rw [isDelimiter, Bool.or_eq_true] at h
  obtain h | h := h
  · simp only [isGap, Bool.or_eq_true, beq_iff_eq] at h
    obtain ((h | h) | h) | h := h
    all_goals simp [h]
  · unfold mark? at h
    split at h
    case h_7 => cases h
    all_goals simp

/-- No numeral goes on at such a character. -/
theorem next?_of_isDelimiter (h : isDelimiter c) {phase : Phase} (hphase : phase.complete)
    (n : Numeral) : phase.next? n c = none ∧ c.isDigit = false := by
  obtain rfl | rfl | rfl | rfl | rfl | rfl | rfl | rfl | rfl | rfl := eq_of_isDelimiter h
  all_goals
    cases phase
    case sign | point | mark | markSign => cases hphase
    all_goals exact ⟨rfl, rfl⟩

/-- **A text can be read in pieces** where a token has to end. -/
theorem lex_append_cons (hs : .fault ∉ lex s) (hc : isDelimiter c) (rest : List Char) :
    lex (s ++ c :: rest) = lex s ++ lex (c :: rest) := by
  have hstep : (s.foldl Lexer.step .start).step c = (Lexer.start.step c).onto (lex s).reverse := by
    have hsane : (s.foldl Lexer.step .start).Sane :=
      Lexer.Sane.foldl_step (fun h => by cases h) s
    rw [lex] at hs ⊢
    generalize s.foldl Lexer.step .start = m at hs hsane ⊢
    obtain ⟨tokens, mode⟩ := m
    -- the modes inside a token would have left a fault at the end
    cases mode with
    | between =>
      rw [← Lexer.step_onto, Lexer.finish, List.reverse_reverse]
      rfl
    | stuck =>
      exact absurd (List.mem_reverse.2 (hsane rfl)) hs
    | number n phase =>
      cases hphase : phase.complete with
      | false => simp [Lexer.finish, hphase] at hs
      | true =>
        obtain ⟨hnext, hdigit⟩ := next?_of_isDelimiter hc hphase n
        have hends : (Lexer.mk tokens (.number n phase)).finish =
            (.number n.inOrder :: tokens).reverse := by
          rw [Lexer.finish]
          exact if_pos hphase
        have hread : (Lexer.mk tokens (.number n phase)).step c =
            (Lexer.start.onto (.number n.inOrder :: tokens)).stepBetween c := by
          simp only [Lexer.step, hnext]
          exact if_neg (by simp [hphase, hdigit])
        rw [hends, hread, List.reverse_reverse]
        exact Lexer.stepBetween_onto .start _ c
    | _ => simp [Lexer.finish] at hs
  rw [lex, List.foldl_append, List.foldl_cons, hstep, Lexer.foldl_step_onto, Lexer.finish_onto,
    List.reverse_reverse]
  rfl

theorem lex_gap (hc : isGap c) (rest : List Char) : lex (c :: rest) = lex rest := by
  have hstep : Lexer.start.step c = .start := if_pos hc
  rw [lex, List.foldl_cons, hstep]
  rfl

theorem lex_mark (hc : mark? c = some t) (rest : List Char) : lex (c :: rest) = t :: lex rest := by
  have hstep : Lexer.start.step c = Lexer.start.onto [t] := by
    unfold mark? at hc
    split at hc
    case h_7 => cases hc
    all_goals
      cases hc
      rfl
  rw [lex, List.foldl_cons, hstep, Lexer.foldl_step_onto, Lexer.finish_onto]
  rfl

/-! ## The grammar -/

/-- The tokens that are values. -/
def Token.isValue : Token → Bool
  | .null | .bool _ | .number _ | .string _ => true
  | _ => false

mutual

/-- The text is that of a value, with gaps around it. -/
inductive Spells : List Char → Node → Prop
  | token {s : List Char} {t : Token} (hlex : lex s = [t]) (hvalue : t.isValue) : Spells s t.node
  | array {s : List Char} {items : List Node} (h : SpellsItems s items) :
      Spells ('[' :: (s ++ [']'])) (.array items true)
  | object {s : List Char} {fields : List (Key × Node)} (h : SpellsFields s fields) :
      Spells ('\x7b' :: (s ++ ['\x7d'])) (.object fields true)
  | gapBefore {c : Char} {s : List Char} {n : Node} (hc : isGap c) (h : Spells s n) :
      Spells (c :: s) n
  | gapAfter {c : Char} {s : List Char} {n : Node} (hc : isGap c) (h : Spells s n) :
      Spells (s ++ [c]) n

/-- The text is that of the items of an array. -/
inductive SpellsItems : List Char → List Node → Prop
  | none {s : List Char} (hgaps : ∀ c ∈ s, isGap c) : SpellsItems s []
  | last {s : List Char} {n : Node} (h : Spells s n) : SpellsItems s [n]
  | more {s rest : List Char} {n next : Node} {items : List Node} (h : Spells s n)
      (hrest : SpellsItems rest (next :: items)) :
      SpellsItems (s ++ ',' :: rest) (n :: next :: items)

/-- The text is that of the fields of an object. -/
inductive SpellsFields : List Char → List (Key × Node) → Prop
  | none {s : List Char} (hgaps : ∀ c ∈ s, isGap c) : SpellsFields s []
  | last {key s : List Char} {k : Option String} {n : Node} (hkey : lex key = [.string k])
      (h : Spells s n) : SpellsFields (key ++ ':' :: s) [(.ofString k, n)]
  | more {key s rest : List Char} {k : Option String} {n : Node} {next : Key × Node}
      {fields : List (Key × Node)} (hkey : lex key = [.string k]) (h : Spells s n)
      (hrest : SpellsFields rest (next :: fields)) :
      SpellsFields (key ++ ':' :: (s ++ ',' :: rest)) ((.ofString k, n) :: next :: fields)

end

/-! ## Reading what is spelled -/

/-- Wherever a value is due the tokens give this one. -/
def Builds (ts : List Token) (n : Node) : Prop :=
  .fault ∉ ts ∧ ∀ frames, ts.foldl Builder.step (.value frames) = Builder.fill n frames

/-- Wherever an item is due the tokens give these; without tokens there are none. -/
def BuildsItems (ts : List Token) (items : List Node) : Prop :=
  .fault ∉ ts ∧ (ts = [] ∧ items = [] ∨
    ∀ done frames, ts.foldl Builder.step (.value (.array done :: frames)) =
      .afterItem (items.reverse ++ done) frames)

/-- Wherever a key is due the tokens give these fields; without tokens there are
none. -/
def BuildsFields (ts : List Token) (fields : List (Key × Node)) : Prop :=
  .fault ∉ ts ∧ (ts = [] ∧ fields = [] ∨
    ∀ first done frames, ts.foldl Builder.step (.nextKey first done frames) =
      .afterField (fields.reverse ++ done) frames)

variable {n : Node} {items : List Node} {fields : List (Key × Node)}

theorem foldl_step_finished (ts : List Token) (d : Document) :
    ts.foldl Builder.step (.finished d) = .finished d := by
  induction ts with
  | nil => rfl
  | cons t ts ih => exact ih

theorem builds_token (hvalue : t.isValue) : Builds [t] t.node := by
  cases t with
  | null | bool _ | number _ | string _ => exact ⟨by simp, fun _ => rfl⟩
  | _ => cases hvalue

/-- The first item of an array is read like any other. -/
theorem BuildsItems.array (h : BuildsItems ts items) :
    Builds (.openArray :: (ts ++ [.closeArray])) (.array items true) := by
  obtain ⟨hfault, ⟨rfl, rfl⟩ | hitems⟩ := h
  · exact ⟨by simp, fun _ => rfl⟩
  · refine ⟨by simp [hfault], fun frames => ?_⟩
    have hfirst : ts.foldl Builder.step (.firstItem frames) =
        ts.foldl Builder.step (.value (.array [] :: frames)) := by
      have hitems := hitems [] frames
      cases ts with
      | nil => cases hitems
      | cons t ts =>
        have ht : t ≠ .closeArray := by
          rintro rfl
          rw [List.foldl_cons] at hitems
          change ts.foldl Builder.step (.finished _) = _ at hitems
          rw [foldl_step_finished] at hitems
          cases hitems
        have hstep : Builder.step (.firstItem frames) t =
            Builder.step (.value (.array [] :: frames)) t := if_neg ht
        rw [List.foldl_cons, List.foldl_cons, hstep]
    rw [List.foldl_cons, List.foldl_append]
    change [Token.closeArray].foldl Builder.step (ts.foldl Builder.step (.firstItem frames)) = _
    rw [hfirst, hitems]
    simp [Builder.step]

theorem BuildsFields.object (h : BuildsFields ts fields) :
    Builds (.openObject :: (ts ++ [.closeObject])) (.object fields true) := by
  obtain ⟨hfault, ⟨rfl, rfl⟩ | hfields⟩ := h
  · exact ⟨by simp, fun _ => rfl⟩
  · refine ⟨by simp [hfault], fun frames => ?_⟩
    rw [List.foldl_cons, List.foldl_append]
    change [Token.closeObject].foldl Builder.step
      (ts.foldl Builder.step (.nextKey true [] frames)) = _
    rw [hfields]
    simp [Builder.step]

theorem Builds.last (h : Builds ts n) : BuildsItems ts [n] :=
  ⟨h.1, .inr fun done frames => h.2 (.array done :: frames)⟩

theorem Builds.more {next : Node} {ts' : List Token} (h : Builds ts n)
    (hrest : BuildsItems ts' (next :: items)) :
    BuildsItems (ts ++ .comma :: ts') (n :: next :: items) := by
  obtain ⟨hfault, ⟨-, hnil⟩ | hrest⟩ := hrest
  · cases hnil
  · refine ⟨by simp [h.1, hfault], .inr fun done frames => ?_⟩
    rw [List.foldl_append, h.2, List.foldl_cons]
    change ts'.foldl Builder.step (.value (.array (n :: done) :: frames)) = _
    rw [hrest]
    simp

theorem Builds.lastField (h : Builds ts n) (k : Option String) :
    BuildsFields (.string k :: .colon :: ts) [(.ofString k, n)] :=
  ⟨by simp [h.1], .inr fun _ done frames => h.2 (.object done (.ofString k) :: frames)⟩

theorem Builds.moreFields {next : Key × Node} {ts' : List Token} (h : Builds ts n)
    (k : Option String) (hrest : BuildsFields ts' (next :: fields)) :
    BuildsFields (.string k :: .colon :: (ts ++ .comma :: ts'))
      ((.ofString k, n) :: next :: fields) := by
  obtain ⟨hfault, ⟨-, hnil⟩ | hrest⟩ := hrest
  · cases hnil
  · refine ⟨by simp [h.1, hfault], .inr fun first done frames => ?_⟩
    change (ts ++ .comma :: ts').foldl Builder.step
      (.value (.object done (.ofString k) :: frames)) = _
    rw [List.foldl_append, h.2, List.foldl_cons]
    change ts'.foldl Builder.step (.nextKey false ((.ofString k, n) :: done) frames) = _
    rw [hrest]
    simp

/-! ## From the text to its tree -/

theorem lex_gaps (h : ∀ c ∈ s, isGap c) : lex s = [] := by
  induction s with
  | nil => rfl
  | cons c s ih =>
    obtain ⟨hc, hs⟩ := List.forall_mem_cons.1 h
    rw [lex_gap hc, ih hs]

theorem lex_append_gap (hs : .fault ∉ lex s) (hc : isGap c) : lex (s ++ [c]) = lex s := by
  have hdelimiter : isDelimiter c := by simp [isDelimiter, hc]
  rw [lex_append_cons hs hdelimiter, lex_gap hc]
  exact List.append_nil _

theorem lex_append_mark (hs : .fault ∉ lex s) (hc : mark? c = some t) (rest : List Char) :
    lex (s ++ c :: rest) = lex s ++ t :: lex rest := by
  have hdelimiter : isDelimiter c := by simp [isDelimiter, hc]
  rw [lex_append_cons hs hdelimiter, lex_mark hc]

mutual

/-- **The tokens of a text that spells a value** build it. -/
theorem Spells.builds {s : List Char} {n : Node} : Spells s n → Builds (lex s) n
  | .token hlex hvalue => hlex ▸ builds_token hvalue
  | .array h => by
    have hitems := h.builds
    rw [lex_mark rfl, lex_append_mark hitems.1 rfl]
    exact hitems.array
  | .object h => by
    have hfields := h.builds
    rw [lex_mark rfl, lex_append_mark hfields.1 rfl]
    exact hfields.object
  | .gapBefore hc h => by
    rw [lex_gap hc]
    exact h.builds
  | .gapAfter hc h => by
    have hvalue := h.builds
    rw [lex_append_gap hvalue.1 hc]
    exact hvalue

theorem SpellsItems.builds {s : List Char} {items : List Node} :
    SpellsItems s items → BuildsItems (lex s) items
  | .none hgaps => ⟨by simp [lex_gaps hgaps], .inl ⟨lex_gaps hgaps, rfl⟩⟩
  | .last h => h.builds.last
  | .more h hrest => by
    have hvalue := h.builds
    rw [lex_append_mark hvalue.1 rfl]
    exact hvalue.more hrest.builds

theorem SpellsFields.builds {s : List Char} {fields : List (Key × Node)} :
    SpellsFields s fields → BuildsFields (lex s) fields
  | .none hgaps => ⟨by simp [lex_gaps hgaps], .inl ⟨lex_gaps hgaps, rfl⟩⟩
  | .last hkey h => by
    rw [lex_append_mark (by simp [hkey]) rfl, hkey]
    exact h.builds.lastField _
  | .more hkey h hrest => by
    have hvalue := h.builds
    rw [lex_append_mark (by simp [hkey]) rfl, hkey, lex_append_mark hvalue.1 rfl]
    exact hvalue.moreFields _ hrest.builds

end

/-- **A text is read as the tree that it spells.** -/
theorem Spells.ofText {text : String} (h : Spells text.toList n) :
    Document.ofText text = ⟨n, true⟩ := by
  have hbuilt := h.builds.2 []
  rw [Document.ofText]
  change (Builder.finish ((lex text.toList).foldl Builder.step (.value []))) = _
  rw [hbuilt]
  rfl

end Ambient.Json
