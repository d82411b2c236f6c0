import Ambient.Proofs.Annotation.Words

/-!
# How many passes the aliases take

A walk over the chunks of a text from the left finds what the passes will
replace: every word that is an alias, and an asterisk that stands free once
what is left of it was replaced (`replacements`). Each pass takes the leftmost
of them away and brings none in (`replacements_of_substituteOnce?`), so a text
is settled after as many passes as the walk counts and not before
(`hasAlias_substitutePasses_iff`). With the bundled aliases every text is
settled in the end, but a fixed number of passes is not enough for all of them:
256 leave the last of 257 names.
-/

namespace Ambient.Annotation

open Text

variable {t : Table String} {s r x y name target after : List Char} {c : Char}
variable {free : Bool} {ps qs : List Chunk}

/-- Whether an alias may start behind the text; `free` says so for the empty
text. -/
def freeBehind (free : Bool) (s : List Char) : Bool :=
  (s.getLast?.map fun c => !isTokenChar c).getD free

/-- What takes the place of a chunk in a walk from the left: that of a word is
what it stands for, that of an asterisk too if it is `free` on the left and
nothing behind it continues it. -/
def Chunk.due? (t : Table String) (free : Bool) (behind : List Chunk) : Chunk → Option String
  | .word name opens => (Chunk.word name opens).target? t
  | .other c =>
    if free && endsAlias (behind.flatMap Chunk.text) then t.get? (String.ofList [c]) else none

/-- The number of chunks that a walk from the left replaces. -/
def replacements (t : Table String) : Bool → List Chunk → Nat
  | _, [] => 0
  | free, p :: rest =>
    match p.due? t free rest with
    | some target => replacements t (freeBehind free target.toList) rest + 1
    | none => replacements t (freeBehind free p.text) rest

/-- Aliases that settle words, each of which stands for a text that starts with a
character that continues a name. -/
structure SettlesPasses (t : Table String) : Prop extends SettlesWords t where
  heads : ∀ e ∈ t.entries, e.2.toList.head?.any isTokenChar

/-! ## The walk -/

theorem freeBehind_append (free : Bool) (x y : List Char) :
    freeBehind free (x ++ y) = freeBehind (freeBehind free x) y := by
  rw [freeBehind, List.getLast?_append]
  cases h : y.getLast? <;> simp [freeBehind, h]

/-- Nothing is replaced in the first chunks when the others follow. -/
def Idle (t : Table String) (free : Bool) (ps qs : List Chunk) : Prop :=
  ∀ a p b, ps = a ++ p :: b → p.due? t (freeBehind free (a.flatMap Chunk.text)) (b ++ qs) = none

/-- Where nothing is replaced, the walk goes on behind. -/
theorem replacements_append (h : Idle t free ps qs) :
    replacements t free (ps ++ qs) =
      replacements t (freeBehind free (ps.flatMap Chunk.text)) qs := by
  induction ps generalizing free with
  | nil => rfl
  | cons p ps ih =>
    have hhead : p.due? t free (ps ++ qs) = none := h [] p ps rfl
    have htail : Idle t (freeBehind free p.text) ps qs := by
      intro a q b hps
      have hq := h (p :: a) q b (by rw [hps]; rfl)
      rwa [List.flatMap_cons, freeBehind_append] at hq
    rw [List.cons_append, replacements, hhead]
    simp only
    rw [ih htail, List.flatMap_cons, freeBehind_append]

theorem mem_joinWord {opens : Bool} {p : Chunk} (h : p ∈ joinWord c opens ps) :
    p ∈ ps ∨ ∃ name opens', p = .word (c :: name) opens' := by
  cases ps with
  | nil => exact .inr ⟨[], opens, by simpa [joinWord] using h⟩
  | cons q ps =>
    cases q with
    | word n o =>
      rcases List.mem_cons.1 h with rfl | h
      · exact .inr ⟨n, o, rfl⟩
      · exact .inl (List.mem_cons_of_mem _ h)
    | other d =>
      rcases List.mem_cons.1 h with rfl | h
      · exact .inr ⟨[], opens, rfl⟩
      · exact .inl h

/-- A chunk is not empty, and one that is no word is no character of a word. -/
theorem of_mem_chunks {p : Chunk} (h : p ∈ chunks s) :
    p.text ≠ [] ∧ ∀ c, p = .other c → isTokenChar c = false := by
  induction s with
  | nil => cases h
  | cons d s ih =>
    by_cases hd : isTokenChar d
    · rw [chunks_cons hd] at h
      rcases mem_joinWord h with h | ⟨name, opens, rfl⟩
      · exact ih h
      · exact ⟨by simp [Chunk.text], fun c hc => nomatch hc⟩
    · rw [chunks_cons_other hd] at h
      rcases List.mem_cons.1 h with rfl | h
      · exact ⟨by simp [Chunk.text], fun c hc => by cases hc; simpa using hd⟩
      · exact ih h

/-- **What the walk replaces stands alone.** -/
theorem standsAlone_of_due? {a b : List Chunk} {p : Chunk} {target : String}
    (hs : chunks s = a ++ p :: b)
    (hdue : p.due? t (freeBehind true (a.flatMap Chunk.text)) b = some target) :
    ∃ before name after, s = before ++ name ++ after ∧ before = a.flatMap Chunk.text ∧
      StandsAlone (.ofTable t) before name target.toList after := by
  cases p with
  | word name opens =>
    obtain ⟨before, y, rfl, hlast, rfl, hy⟩ := exists_of_chunks_eq_append hs
    cases opens with
    | true => cases hdue
    | false =>
      obtain ⟨after, rfl, hends⟩ := exists_of_chunks_eq_word hy
      refine ⟨before, name, after, (List.append_assoc _ _ _).symm, (flatMap_text_chunks _).symm,
        ?_, hlast, hends⟩
      exact mem_ofTable_iff.2 (by simpa [Chunk.due?, Chunk.target?] using hdue)
  | other c =>
    simp only [Chunk.due?] at hdue
    split at hdue
    · rename_i hfree
      rw [Bool.and_eq_true] at hfree
      refine ⟨_, [c], b.flatMap Chunk.text, ?_, rfl, ?_, ?_, hfree.2⟩
      · rw [← flatMap_text_chunks s, hs]
        simp [Chunk.text]
      · exact mem_ofTable_iff.2 (by simpa using hdue)
      · intro d hd
        have hbehind := hfree.1
        rw [freeBehind, Option.mem_def.1 hd] at hbehind
        simpa using hbehind
    · cases hdue

/-- Without an alias nothing is replaced. -/
theorem replacements_eq_zero (h : ¬ HasAlias (.ofTable t) s) :
    replacements t true (chunks s) = 0 := by
  have hidle : Idle t true (chunks s) [] := by
    intro a p b hs
    rw [Option.eq_none_iff_forall_not_mem]
    intro target hdue
    rw [List.append_nil] at hdue
    obtain ⟨before, name, after, rfl, -, halone⟩ := standsAlone_of_due? hs hdue
    exact h ⟨before, name, target.toList, after, rfl, halone⟩
  have hwalk := replacements_append hidle
  rwa [List.append_nil] at hwalk

/-! ## One pass -/

/-- Nothing left of the leftmost alias is replaced. -/
theorem idle_of_standsFirst (h : StandsFirst (.ofTable t) x name target after) :
    Idle t true (chunks x) (chunks (name ++ after)) := by
  intro a p b hx
  rw [Option.eq_none_iff_forall_not_mem]
  intro target' hdue
  have hs : chunks (x ++ name ++ after) = a ++ p :: (b ++ chunks (name ++ after)) := by
    rw [List.append_assoc, chunks_append (.inl h.starts), hx]
    simp
  obtain ⟨before, name', after', heq, rfl, halone⟩ := standsAlone_of_due? hs hdue
  -- it would start further left, as the chunk itself lies between
  have hle : x.length ≤ (a.flatMap Chunk.text).length := h.first heq halone
  have hlength : x.length = (a.flatMap Chunk.text).length + (p.text.length +
      (b.flatMap Chunk.text).length) := by
    rw [← flatMap_text_chunks x, hx]
    simp
  have hp : 0 < p.text.length :=
    List.length_pos_iff.2 (of_mem_chunks (s := x) (by simp [hx])).1
  omega

/-- And that stays so when other chunks follow, if no asterisk may end before
them. -/
theorem Idle.of_not_endsAlias {qs' : List Chunk} (h : Idle t free ps qs)
    (hends : endsAlias (qs'.flatMap Chunk.text) = false) : Idle t free ps qs' := by
  intro a p b hps
  have hnone := h a p b hps
  cases p with
  | word name opens => exact hnone
  | other c =>
    cases hb : b.flatMap Chunk.text with
    | nil => simp [Chunk.due?, hb, hends]
    | cons d b' => simpa [Chunk.due?, hb, endsAlias] using hnone

/-- Of the characters that are no words only the asterisk can be an alias. -/
theorem eq_asterisk_of_get? (ht : SettlesWords t) {target : String} (hc : isTokenChar c = false)
    (h : t.get? (String.ofList [c]) = some target) : c = '*' := by
  rcases ht.names _ (Table.get?_eq_some_iff.1 h) with hname | ⟨-, hall⟩
  · have hlist : [c] = ['*'] := by simpa using congrArg String.toList hname
    exact List.singleton_inj.1 hlist
  · simp [hc] at hall

/-- What an alias stands for is left alone. -/
theorem idle_target (ht : SettlesWords t) (hcount : aliasCount t x = 0) (hstar : '*' ∉ x)
    (free : Bool) (qs : List Chunk) : Idle t free (chunks x) qs := by
  intro a p b hx
  have hp : p ∈ chunks x := by simp [hx]
  cases p with
  | word name opens =>
    have hnone := List.countP_eq_zero.1 hcount _ hp
    exact Option.not_isSome_iff_eq_none.1 hnone
  | other c =>
    have hget : t.get? (String.ofList [c]) = none := by
      rw [Option.eq_none_iff_forall_not_mem]
      intro target htarget
      obtain rfl := eq_asterisk_of_get? ht ((of_mem_chunks hp).2 c rfl) htarget
      refine hstar ?_
      rw [← flatMap_text_chunks x]
      exact List.mem_flatMap.2 ⟨_, hp, by simp [Chunk.text]⟩
    simp only [Chunk.due?, hget, ite_self]

/-- The walk replaces an alias that stands free and ends there. -/
theorem replacements_name (ht : SettlesWords t) (hmem : (name, target) ∈ Aliases.ofTable t)
    (hends : endsAlias after) :
    replacements t true (chunks (name ++ after)) =
      replacements t (freeBehind true target) (chunks after) + 1 := by
  have hget := mem_ofTable_iff.1 hmem
  have hchunks : ∃ p, chunks (name ++ after) = p :: chunks after ∧
      p.due? t true (chunks after) = some (String.ofList target) := by
    rcases ht.names _ (Table.get?_eq_some_iff.1 hget) with hstar | ⟨hne, hall⟩
    · obtain rfl : name = ['*'] := by simpa using congrArg String.toList hstar
      refine ⟨.other '*', chunks_cons_other (by decide), ?_⟩
      simp [Chunk.due?, flatMap_text_chunks, hends, hget]
    · rw [String.toList_ofList, List.all_eq_true] at hall
      have hne' : name ≠ [] := fun hnil => hne (by simp [hnil])
      refine ⟨.word name false, ?_, by simp [Chunk.due?, Chunk.target?, hget]⟩
      rw [chunks_append (.inr hends), chunks_of_isTokenChar hne' hall]
      rfl
  obtain ⟨p, hp, hdue⟩ := hchunks
  rw [hp, replacements, hdue]
  simp

/-- **A pass takes one replacement away.** -/
theorem replacements_of_substituteOnce? (ht : SettlesPasses t)
    (h : substituteOnce? (.ofTable t) s = some r) :
    replacements t true (chunks s) = replacements t true (chunks r) + 1 := by
  obtain ⟨before, name, target, after, rfl, rfl, hfirst⟩ := substituteOnce?_eq_some_first h
  have hmem := Table.get?_eq_some_iff.1 (mem_ofTable_iff.1 hfirst.mem)
  obtain ⟨hstar, hcount⟩ := ht.targets _ hmem
  obtain ⟨c, hc, htoken⟩ := (Option.any_eq_true _ _).1 (ht.heads _ hmem)
  rw [String.toList_ofList] at hstar hcount hc
  obtain ⟨u, rfl⟩ := List.head?_eq_some_iff.1 hc
  have hfree : freeBehind true before := by
    rw [freeBehind]
    cases hlast : before.getLast? with
    | none => rfl
    | some d => simp [hfirst.starts d hlast]
  have hidle := idle_of_standsFirst hfirst
  have hidle' : Idle t true (chunks before) (chunks (c :: u ++ after)) := by
    refine hidle.of_not_endsAlias ?_
    rw [flatMap_text_chunks, List.cons_append]
    simp [endsAlias, htoken]
  rw [List.append_assoc, List.append_assoc, chunks_append (.inl hfirst.starts),
    chunks_append (.inl hfirst.starts), replacements_append hidle, replacements_append hidle',
    flatMap_text_chunks, hfree, replacements_name ht.toSettlesWords hfirst.mem hfirst.ends,
    chunks_append (.inr hfirst.ends),
    replacements_append (idle_target ht.toSettlesWords hcount hstar _ _), flatMap_text_chunks]

/-! ## All passes -/

/-- **A text is settled after as many passes as the walk counts**, and not
before. -/
theorem hasAlias_substitutePasses_iff (ht : SettlesPasses t) (passes : Nat) (s : List Char) :
    HasAlias (.ofTable t) (substitutePasses (.ofTable t) passes s) ↔
      passes < replacements t true (chunks s) := by
  induction passes generalizing s with
  | zero =>
    rw [substitutePasses]
    constructor
    · intro h
      cases hr : substituteOnce? (.ofTable t) s with
      | none => exact absurd h (substituteOnce?_eq_none_iff.1 hr)
      | some r =>
        have hcount := replacements_of_substituteOnce? ht hr
        omega
    · intro hcount
      by_contra h
      have hzero := replacements_eq_zero h
      omega
  | succ passes ih =>
    rw [substitutePasses]
    cases hr : substituteOnce? (.ofTable t) s with
    | none =>
      have halias := substituteOnce?_eq_none_iff.1 hr
      have hzero := replacements_eq_zero halias
      simp only [halias, false_iff]
      omega
    | some r =>
      have hcount := replacements_of_substituteOnce? ht hr
      simp only [ih r]
      omega

/-! ## The count and the text -/

/-- Every word that is an alias counts. -/
theorem countP_le_replacements (t : Table String) (free : Bool) (ps : List Chunk) :
    (ps.countP fun p => (p.target? t).isSome) ≤ replacements t free ps := by
  induction ps generalizing free with
  | nil => exact Nat.zero_le _
  | cons p ps ih =>
    rw [List.countP_cons, replacements]
    cases hdue : p.due? t free ps with
    | some target =>
      have hrest := ih (freeBehind free target.toList)
      simp only
      split <;> omega
    | none =>
      have hp : p.target? t = none := by
        cases p with
        | word name opens => exact hdue
        | other c => rfl
      have hrest := ih (freeBehind free p.text)
      simp only [hp, Option.isSome_none, Bool.false_eq_true, if_false]
      omega

/-- And beside these words at most every asterisk. -/
theorem replacements_le (ht : SettlesWords t)
    (hps : ∀ c, Chunk.other c ∈ ps → isTokenChar c = false) :
    replacements t free ps ≤
      (ps.countP fun p => (p.target? t).isSome) + (ps.flatMap Chunk.text).count '*' := by
  induction ps generalizing free with
  | nil => exact Nat.zero_le _
  | cons p ps ih =>
    have hrest : ∀ free, replacements t free ps ≤ _ := fun free =>
      ih fun c hc => hps c (List.mem_cons_of_mem _ hc)
    rw [List.countP_cons, List.flatMap_cons, List.count_append, replacements]
    cases hdue : p.due? t free ps with
    | none =>
      have := hrest (freeBehind free p.text)
      simp only
      omega
    | some target =>
      have := hrest (freeBehind free target.toList)
      simp only
      cases p with
      | word name opens =>
        have hword : ((Chunk.word name opens).target? t).isSome := by
          rw [Chunk.due?] at hdue
          simp [hdue]
        rw [if_pos hword]
        omega
      | other c =>
        have hget : t.get? (String.ofList [c]) = some target := by
          rw [Chunk.due?] at hdue
          split at hdue
          · exact hdue
          · cases hdue
        obtain rfl := eq_asterisk_of_get? ht (hps c List.mem_cons_self) hget
        have hone : (Chunk.other '*').text.count '*' = 1 := by decide
        omega

/-! ## The bundled aliases -/

/-- The number of passes that a text takes. -/
def passesNeeded (t : Table String) (s : List Char) : Nat :=
  replacements t true (chunks s)

theorem settlesPasses_default : SettlesPasses Config.default.aliases := by
  refine ⟨⟨?_, ?_⟩, ?_⟩ <;> decide +kernel

/-- **The bundled aliases settle a text within the limit** exactly if it takes
no more than 256 passes. Any number of passes settles the texts that take no
more, so every text is settled in the end; and a text takes a pass for every
word that is an alias, and beside these at most one for every asterisk. -/
theorem settled_substitute_iff (s : List Char) :
    (¬ HasAlias bundledAliases (substitute bundledAliases s) ↔
      passesNeeded Config.default.aliases s ≤ 256) ∧
    (∀ passes, ¬ HasAlias bundledAliases (substitutePasses bundledAliases passes s) ↔
      passesNeeded Config.default.aliases s ≤ passes) ∧
    aliasCount Config.default.aliases s ≤ passesNeeded Config.default.aliases s ∧
    passesNeeded Config.default.aliases s ≤
      aliasCount Config.default.aliases s + s.count '*' := by
  have ht := settlesPasses_default
  have hpasses : ∀ passes, ¬ HasAlias bundledAliases (substitutePasses bundledAliases passes s) ↔
      passesNeeded Config.default.aliases s ≤ passes := by
    intro passes
    rw [bundledAliases, hasAlias_substitutePasses_iff ht, Nat.not_lt, passesNeeded]
  refine ⟨hpasses 256, hpasses, countP_le_replacements _ _ _, ?_⟩
  have hle : passesNeeded Config.default.aliases s ≤ aliasCount Config.default.aliases s +
      ((chunks s).flatMap Chunk.text).count '*' :=
    replacements_le ht.toSettlesWords fun c hc => (of_mem_chunks hc).2 c rfl
  rwa [flatMap_text_chunks] at hle

/-- One name after another, `n` of them before the last. -/
def repeatedName : Nat → List Char
  | 0 => "String".toList
  | n + 1 => "String|".toList ++ repeatedName n

theorem aliasCount_repeatedName (hname : aliasCount t "String".toList = 1)
    (hparted : aliasCount t "String|".toList = 1) (n : Nat) :
    aliasCount t (repeatedName n) = n + 1 := by
  induction n with
  | zero => exact hname
  | succ n ih =>
    have hbar : ∀ c ∈ "String|".toList.getLast?, isTokenChar c = false := by
      intro c hc
      obtain rfl : '|' = c := Option.some.inj hc
      decide
    calc aliasCount t (repeatedName (n + 1))
        = aliasCount t "String|".toList + aliasCount t (repeatedName n) := aliasCount_append (.inl hbar)
      _ = n + 1 + 1 := by rw [hparted, ih, Nat.add_comm]

/-- **The limit is reached with work left.** Of 257 names the last is left. -/
theorem hasAlias_substitute_repeatedName :
    HasAlias bundledAliases (substitute bundledAliases (repeatedName 256)) := by
  have hcount : aliasCount Config.default.aliases (repeatedName 256) = 256 + 1 :=
    aliasCount_repeatedName (by decide +kernel) (by decide +kernel) 256
  generalize repeatedName 256 = s at hcount
  have hwords := countP_le_replacements Config.default.aliases true (chunks s)
  rw [substitute, passLimit, bundledAliases, hasAlias_substitutePasses_iff settlesPasses_default]
  rw [aliasCount] at hcount
  omega

end Ambient.Annotation
