import Mathlib.Data.List.Basic
import Ambient.Proofs.Annotation.Alias

/-!
# Aliases are whole words

A text is taken apart into words, the longest runs of characters that
continue a name, and the characters between them (`chunks`). The passes find
one word at a time that is an alias and opens no bracket. When the aliases
are words themselves and stand for settled texts, a pass takes one such word
away and brings none in (`replaceWords_of_substituteOnce?`). So all passes
together replace the words of the text at once
(`substitute_eq_replaceWords`), and the order of the table does not show.
-/

namespace Ambient.Annotation

open Text

variable {t t' : Table String} {x y s r name after : List Char} {c : Char}

/-- A chunk of a text: a longest run of characters that continue a name, with
whether a bracket opens right behind it, or any other character. -/
inductive Chunk where
  | word (name : List Char) (opens : Bool)
  | other (c : Char)
  deriving DecidableEq, Repr

namespace Chunk

/-- The chunk as it is written. -/
def text : Chunk → List Char
  | .word name _ => name
  | .other c => [c]

/-- What the chunk stands for, when it is an alias that opens no bracket. -/
def target? (t : Table String) : Chunk → Option String
  | .word name false => t.get? (String.ofList name)
  | _ => none

/-- The chunk, or what it stands for. -/
def replaced (t : Table String) (p : Chunk) : List Char :=
  (p.target? t).elim p.text String.toList

end Chunk

/-- A character that continues a name joins the word behind it, or else is a
word of its own; `opens` says whether a bracket follows it. -/
def joinWord (c : Char) (opens : Bool) : List Chunk → List Chunk
  | .word name opens :: rest => .word (c :: name) opens :: rest
  | rest => .word [c] opens :: rest

/-- The chunks of a text. -/
def chunks : List Char → List Chunk
  | [] => []
  | c :: s =>
    if isTokenChar c then joinWord c (s.head? = some '<') (chunks s) else .other c :: chunks s

/-- The text with every word that is an alias replaced. -/
def replaceWords (t : Table String) (s : List Char) : List Char :=
  (chunks s).flatMap (·.replaced t)

/-- The number of words to be replaced. -/
def aliasCount (t : Table String) (s : List Char) : Nat :=
  (chunks s).countP fun p => (p.target? t).isSome

/-- The aliases are words or the asterisk, and none stands for a text that has
an asterisk or a word to be replaced. -/
structure SettlesWords (t : Table String) : Prop where
  names : ∀ e ∈ t.entries, e.1 = "*" ∨ e.1 ≠ "" ∧ e.1.toList.all isTokenChar
  targets : ∀ e ∈ t.entries, '*' ∉ e.2.toList ∧ aliasCount t e.2.toList = 0

/-! ## Taking a text apart -/

/-- Between two texts no word goes on. -/
def Parted (x y : List Char) : Prop :=
  (∀ c ∈ x.getLast?, isTokenChar c = false) ∨ endsAlias y

theorem Parted.tail (h : Parted (c :: x) y) : Parted x y := by
  refine h.imp_left fun hlast d hd => hlast d ?_
  cases x with
  | nil => cases hd
  | cons c' x => rwa [List.getLast?_cons_cons]

theorem chunks_cons (hc : isTokenChar c) :
    chunks (c :: s) = joinWord c (s.head? = some '<') (chunks s) :=
  if_pos hc

theorem chunks_cons_other (hc : ¬ isTokenChar c) : chunks (c :: s) = .other c :: chunks s :=
  if_neg hc

/-- What a character joins is a word that starts there, or it is a word of its
own before what is none. -/
theorem joinWord_eq_cons {opens opens' : Bool} {ps rest : List Chunk}
    (h : joinWord c opens ps = .word name opens' :: rest) :
    (∃ n, ps = .word n opens' :: rest ∧ name = c :: n) ∨
      (name = [c] ∧ opens' = opens ∧ rest = ps ∧ ∀ n o ps', ps ≠ .word n o :: ps') := by
  cases ps with
  | nil =>
    cases h
    exact .inr ⟨rfl, rfl, rfl, by simp⟩
  | cons p ps =>
    cases p with
    | word n o =>
      cases h
      exact .inl ⟨n, rfl, rfl⟩
    | other d =>
      cases h
      exact .inr ⟨rfl, rfl, rfl, by simp⟩

theorem joinWord_of_ne {ps : List Chunk} (h : ∀ n o rest, ps ≠ .word n o :: rest) (opens : Bool) :
    joinWord c opens ps = .word [c] opens :: ps := by
  cases ps with
  | nil => rfl
  | cons p ps =>
    cases p with
    | word n o => exact absurd rfl (h n o ps)
    | other d => rfl

theorem exists_joinWord_eq (c : Char) (opens : Bool) (ps : List Chunk) :
    ∃ name opens' rest, joinWord c opens ps = .word name opens' :: rest := by
  cases ps with
  | nil => exact ⟨_, _, _, rfl⟩
  | cons p ps => cases p <;> exact ⟨_, _, _, rfl⟩

theorem joinWord_append {ps : List Chunk} (hps : ps ≠ []) (opens : Bool) (qs : List Chunk) :
    joinWord c opens (ps ++ qs) = joinWord c opens ps ++ qs := by
  obtain ⟨p, ps, rfl⟩ := List.exists_cons_of_ne_nil hps
  cases p <;> rfl

theorem flatMap_text_joinWord (opens : Bool) (ps : List Chunk) :
    (joinWord c opens ps).flatMap Chunk.text = c :: ps.flatMap Chunk.text := by
  cases ps with
  | nil => rfl
  | cons p ps => cases p <;> rfl

/-- The chunks make up the text. -/
theorem flatMap_text_chunks (s : List Char) : (chunks s).flatMap Chunk.text = s := by
  induction s with
  | nil => rfl
  | cons c s ih =>
    rw [chunks]
    split
    · rw [flatMap_text_joinWord, ih]
    · rw [List.flatMap_cons, ih]
      rfl

theorem chunks_ne_nil (c : Char) (s : List Char) : chunks (c :: s) ≠ [] := by
  intro h
  have htext := flatMap_text_chunks (c :: s)
  rw [h] at htext
  cases htext

/-- A word at the end of a text ends before what ends an alias. -/
theorem chunks_cons_of_endsAlias (hc : isTokenChar c) (h : endsAlias y) :
    chunks (c :: y) = .word [c] false :: chunks y := by
  rw [chunks_cons hc]
  cases y with
  | nil => rfl
  | cons d y =>
    simp only [endsAlias, Bool.and_eq_true, Bool.not_eq_true', bne_iff_ne] at h
    rw [chunks_cons_other (by simp [h.1])]
    simp [joinWord, h.2]

/-- **Where no word goes on, a text is taken apart side by side.** -/
theorem chunks_append (h : Parted x y) : chunks (x ++ y) = chunks x ++ chunks y := by
  induction x with
  | nil => rfl
  | cons c x ih =>
    rw [List.cons_append]
    by_cases hc : isTokenChar c
    · cases x with
      | nil =>
        have hends : endsAlias y := h.resolve_left fun hlast => by simp [hlast c rfl] at hc
        rw [List.nil_append, chunks_cons_of_endsAlias hc hends, chunks_cons_of_endsAlias hc rfl]
        rfl
      | cons d x =>
        rw [chunks_cons hc, chunks_cons hc, ih h.tail, joinWord_append (chunks_ne_nil d x)]
        rfl
    · rw [chunks_cons_other hc, ih h.tail, chunks_cons_other hc, List.cons_append]

/-- A name that nothing in the text continues is a part of it. -/
theorem chunks_of_isTokenChar (hne : name ≠ []) (hname : ∀ c ∈ name, isTokenChar c) :
    chunks name = [.word name false] := by
  induction name with
  | nil => exact absurd rfl hne
  | cons c name ih =>
    have hc := hname c List.mem_cons_self
    cases name with
    | nil => exact chunks_cons_of_endsAlias hc rfl
    | cons d name =>
      have hlater := ih (by simp) fun c hc => hname c (List.mem_cons_of_mem _ hc)
      rw [chunks_cons hc, hlater]
      rfl

/-- A word at the head of a text that opens no bracket ends as an alias. -/
theorem exists_of_chunks_eq_word {rest : List Chunk} (h : chunks s = .word name false :: rest) :
    ∃ after, s = name ++ after ∧ endsAlias after := by
  induction s generalizing name with
  | nil => cases h
  | cons c s ih =>
    by_cases hc : isTokenChar c
    · rw [chunks_cons hc] at h
      rcases joinWord_eq_cons h with ⟨n, hn, rfl⟩ | ⟨rfl, hopens, -, hword⟩
      · obtain ⟨after, rfl, hends⟩ := ih hn
        exact ⟨after, rfl, hends⟩
      · refine ⟨s, rfl, ?_⟩
        cases s with
        | nil => rfl
        | cons d s =>
          -- the next character starts no word, and it is no bracket
          have hd : ¬ isTokenChar d := by
            intro hd
            obtain ⟨n, o, ps, heq⟩ := exists_joinWord_eq d (s.head? = some '<') (chunks s)
            exact hword n o ps (by rw [chunks_cons hd, heq])
          have hne : d ≠ '<' := by simpa using hopens
          simp [endsAlias, hd, hne]
    · rw [chunks_cons_other hc] at h
      cases h

/-- A text can be cut before each of its words. -/
theorem exists_of_chunks_eq_append {opens : Bool} {ps qs : List Chunk}
    (h : chunks s = ps ++ .word name opens :: qs) : ∃ x y, s = x ++ y ∧
      (∀ c ∈ x.getLast?, isTokenChar c = false) ∧ chunks x = ps ∧
        chunks y = .word name opens :: qs := by
  induction s generalizing ps with
  | nil => cases ps <;> cases h
  | cons c s ih =>
    cases ps with
    | nil => exact ⟨[], c :: s, rfl, by simp, rfl, h⟩
    | cons p ps =>
      by_cases hc : isTokenChar c
      · obtain ⟨n, o, rest, hword⟩ := exists_joinWord_eq c (s.head? = some '<') (chunks s)
        rw [chunks_cons hc, List.cons_append] at h
        obtain ⟨rfl, -⟩ := List.cons.inj (hword.symm.trans h)
        rcases joinWord_eq_cons h with ⟨n, hs, rfl⟩ | ⟨rfl, rfl, hs, hnone⟩
        · -- the character joins the first word of the cut-off part
          have hcut : chunks s = (.word n o :: ps) ++ .word name opens :: qs := hs
          obtain ⟨x, y, rfl, hlast, hx, hy⟩ := ih hcut
          cases x with
          | nil => cases hx
          | cons d x => exact ⟨c :: d :: x, y, rfl, by simpa using hlast,
              by rw [chunks_cons hc, hx]; rfl, hy⟩
        · obtain ⟨x, y, rfl, hlast, rfl, hy⟩ := ih hs.symm
          cases x with
          | nil => exact absurd hy (hnone _ _ _)
          | cons d x =>
            refine ⟨c :: d :: x, y, rfl, by simpa using hlast, ?_, hy⟩
            rw [chunks_cons hc, joinWord_of_ne fun n o rest heq =>
              hnone n o (rest ++ .word name opens :: qs) (by rw [← hs, heq]; rfl)]
            rfl
      · rw [chunks_cons_other hc, List.cons_append] at h
        obtain ⟨rfl, hs⟩ := List.cons.inj h
        obtain ⟨x, y, rfl, hlast, rfl, hy⟩ := ih hs
        refine ⟨c :: x, y, rfl, ?_, chunks_cons_other hc, hy⟩
        cases x with
        | nil => simpa using hc
        | cons d x => simpa using hlast

/-! ## One pass -/

theorem mem_ofTable_iff {target : List Char} : (name, target) ∈ Aliases.ofTable t ↔
    t.get? (String.ofList name) = some (String.ofList target) := by
  rw [Table.get?_eq_some_iff, Aliases.ofTable, List.mem_map]
  constructor
  · rintro ⟨⟨n, v⟩, hmem, heq⟩
    cases heq
    simpa using hmem
  · intro hmem
    exact ⟨_, hmem, by simp⟩

theorem hasAlias_of_aliasCount_ne_zero (h : aliasCount t s ≠ 0) : HasAlias (.ofTable t) s := by
  obtain ⟨p, hmem, htarget⟩ := List.countP_pos_iff.1 (Nat.pos_of_ne_zero h)
  obtain ⟨target, htarget⟩ := Option.isSome_iff_exists.1 htarget
  obtain ⟨ps, qs, hps⟩ := List.append_of_mem hmem
  match p, htarget with
  | .word name false, htarget =>
    obtain ⟨before, y, rfl, hlast, -, hy⟩ := exists_of_chunks_eq_append hps
    obtain ⟨after, rfl, hends⟩ := exists_of_chunks_eq_word hy
    refine ⟨before, name, target.toList, after, (List.append_assoc _ _ _).symm, ?_, hlast, hends⟩
    exact mem_ofTable_iff.2 (by simpa [Chunk.target?] using htarget)

theorem replaceWords_append (h : Parted x y) :
    replaceWords t (x ++ y) = replaceWords t x ++ replaceWords t y := by
  rw [replaceWords, chunks_append h, List.flatMap_append]
  rfl

theorem aliasCount_append (h : Parted x y) :
    aliasCount t (x ++ y) = aliasCount t x + aliasCount t y := by
  rw [aliasCount, chunks_append h, List.countP_append]
  rfl

/-- Without a word to be replaced nothing changes. -/
theorem replaceWords_eq_self (h : aliasCount t s = 0) : replaceWords t s = s := by
  have hpart : ∀ p ∈ chunks s, p.replaced t = p.text := by
    intro p hp
    have hnone := List.countP_eq_zero.1 h p hp
    rw [Chunk.replaced, Option.not_isSome_iff_eq_none.1 hnone]
    rfl
  calc replaceWords t s = (chunks s).flatMap Chunk.text := List.flatMap_congr hpart
    _ = s := flatMap_text_chunks s

/-- **A pass takes one word away.** What it leaves has one word fewer to be
replaced, and comes to the same text in the end. -/
theorem replaceWords_of_substituteOnce? (ht : SettlesWords t) (hs : '*' ∉ s)
    (h : substituteOnce? (.ofTable t) s = some r) :
    '*' ∉ r ∧ aliasCount t s = aliasCount t r + 1 ∧ replaceWords t s = replaceWords t r := by
  obtain ⟨before, name, target, after, rfl, rfl, halone⟩ := substituteOnce?_eq_some h
  have hget := mem_ofTable_iff.1 halone.mem
  have hmem := Table.get?_eq_some_iff.1 hget
  simp only [List.mem_append, not_or] at hs
  obtain ⟨hstar, htarget⟩ := ht.targets _ hmem
  have hname : name ≠ [] ∧ ∀ c ∈ name, isTokenChar c := by
    rcases ht.names _ hmem with hasterisk | ⟨hne, hall⟩
    · -- the asterisk does not occur
      have hname : name = ['*'] := by simpa using congrArg String.toList hasterisk
      exact absurd (by simp [hname]) hs.1.2
    · rw [String.toList_ofList, List.all_eq_true] at hall
      exact ⟨fun hnil => hne (by simp [hnil]), hall⟩
  have hafter : Parted (before ++ name) after := .inr halone.ends
  have hbefore : ∀ u, Parted before u := fun _ => .inl halone.starts
  have hword : chunks name = [.word name false] := chunks_of_isTokenChar hname.1 hname.2
  have hlast : Parted name after := .inr halone.ends
  have hcount : aliasCount t name = 1 := by
    simp [aliasCount, hword, Chunk.target?, hget]
  have hreplaced : replaceWords t name = target := by
    simp [replaceWords, hword, Chunk.replaced, Chunk.target?, hget]
  have htarget : aliasCount t target = 0 := by simpa using htarget
  have htail : Parted target after := .inr halone.ends
  refine ⟨?_, ?_, ?_⟩
  · simp only [List.mem_append, not_or]
    exact ⟨⟨hs.1.1, by simpa using hstar⟩, hs.2⟩
  · rw [List.append_assoc, List.append_assoc, aliasCount_append (hbefore _),
      aliasCount_append (hbefore _), aliasCount_append hlast, aliasCount_append htail, hcount,
      htarget]
    omega
  · rw [List.append_assoc, List.append_assoc, replaceWords_append (hbefore _),
      replaceWords_append (hbefore _), replaceWords_append hlast, replaceWords_append htail,
      hreplaced, replaceWords_eq_self htarget]

/-! ## All passes -/

/-- With a pass for every word the passes replace them all. -/
theorem substitutePasses_eq_replaceWords (ht : SettlesWords t) {passes : Nat} (hs : '*' ∉ s)
    (hpasses : aliasCount t s ≤ passes) :
    substitutePasses (.ofTable t) passes s = replaceWords t s := by
  induction passes generalizing s with
  | zero =>
    rw [substitutePasses, replaceWords_eq_self (Nat.le_zero.1 hpasses)]
  | succ passes ih =>
    rw [substitutePasses]
    split
    · rename_i r hr
      obtain ⟨hstar, hcount, hsame⟩ := replaceWords_of_substituteOnce? ht hs hr
      rw [ih hstar (by omega), hsame]
    · rename_i hnone
      have hzero : aliasCount t s = 0 := by
        by_contra hne
        exact substituteOnce?_eq_none_iff.1 hnone (hasAlias_of_aliasCount_ne_zero hne)
      rw [replaceWords_eq_self hzero]

/-- A table in another order takes the same words for aliases. -/
theorem target?_eq_of_perm (hperm : t'.entries.Perm t.entries) (p : Chunk) :
    p.target? t' = p.target? t := by
  unfold Chunk.target?
  rw [Table.get?_eq_of_perm hperm]

theorem aliasCount_eq_of_perm (hperm : t'.entries.Perm t.entries) (s : List Char) :
    aliasCount t' s = aliasCount t s := by
  simp only [aliasCount, target?_eq_of_perm hperm]

theorem replaceWords_eq_of_perm (hperm : t'.entries.Perm t.entries) (s : List Char) :
    replaceWords t' s = replaceWords t s := by
  simp only [replaceWords, Chunk.replaced, target?_eq_of_perm hperm]

theorem SettlesWords.of_perm (ht : SettlesWords t) (hperm : t'.entries.Perm t.entries) :
    SettlesWords t' where
  names e he := ht.names e (hperm.mem_iff.1 he)
  targets e he := by
    rw [aliasCount_eq_of_perm hperm]
    exact ht.targets e (hperm.mem_iff.1 he)

/-- **The passes replace the words of a text at once.** With aliases that are
words (or the asterisk) and stand for settled texts, a text without an
asterisk and with at most as many words to be replaced as there are passes
becomes the text in which each of these words is replaced and everything else
is kept, in whatever order the table lists its entries. -/
theorem substitute_eq_replaceWords (ht : SettlesWords t) (hs : '*' ∉ s)
    (hcount : aliasCount t s ≤ 256) (hperm : t'.entries.Perm t.entries) :
    substitute (.ofTable t') s = replaceWords t s := by
  rw [substitute, ← replaceWords_eq_of_perm hperm]
  refine substitutePasses_eq_replaceWords (ht.of_perm hperm) hs ?_
  rw [aliasCount_eq_of_perm hperm]
  exact hcount

/-- The bundled aliases from the last to the first. -/
def reversedAliases : Table String := .ofList defaultAliases.reverse

theorem substitute_reversedAliases :
    SettlesWords Config.default.aliases ∧
      '*' ∉ "Map|Map,qx.Map?(Event)|Object<String>".toList ∧
      aliasCount Config.default.aliases "Map|Map,qx.Map?(Event)|Object<String>".toList = 4 ∧
      reversedAliases.entries.Perm Config.default.aliases.entries ∧
      substitute (.ofTable reversedAliases) "Map|Map,qx.Map?(Event)|Object<String>".toList =
        "Record<string, any>|Record<string, any>,qx.Map?(qx.event.type.Event)|Object<string>".toList
    := by
  have ht : SettlesWords Config.default.aliases := by
    refine ⟨?_, ?_⟩ <;> decide +kernel
  have hcount : aliasCount Config.default.aliases
      "Map|Map,qx.Map?(Event)|Object<String>".toList = 4 := by decide +kernel
  have hperm : reversedAliases.entries.Perm Config.default.aliases.entries := by decide +kernel
  refine ⟨ht, by decide, hcount, hperm, ?_⟩
  rw [substitute_eq_replaceWords ht (by decide) (by omega) hperm]
  decide +kernel

end Ambient.Annotation
