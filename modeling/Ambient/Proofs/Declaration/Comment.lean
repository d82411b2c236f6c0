import Ambient.Proofs.Declaration.TypeExpression
import Mathlib.Data.List.Chain

/-!
# Documentation stays in its comment

A comment ends at the first asterisk with a slash behind it (`endMark`). The
documentation of a member is cut into lines, class names are put into its
links, type expressions are taken out of the middle of its lines, and the lines
are written into a comment. Wherever two parts that are kept come to stand side
by side, there is a brace, a dot, a bracket, a blank or a line end between them,
so that no asterisk gets a slash behind it (`enclosed_append_cons`). A comment
whose documentation held no end of its own is closed by its last line and
nowhere before (`block_declaredLines_ends_once`).
-/

namespace Ambient.Doc

open Text

variable {line part name s t a b x r : List Char} {ls : List (List Char)} {c : Char}
variable {className indent link : String} {lines entries : List String}

/-- What ends a comment. -/
def endMark : List Char := ['*', '/']

/-- A text that a comment may hold: no asterisk has a slash behind it. -/
def Enclosed (s : List Char) : Prop :=
  s.IsChain fun c d => ¬ (c = '*' ∧ d = '/')

instance : DecidablePred Enclosed := fun s =>
  inferInstanceAs (Decidable (s.IsChain fun c d => ¬ (c = '*' ∧ d = '/')))

/-- Such a text ends no comment. -/
theorem enclosed_iff : Enclosed s ↔ ¬ endMark <:+: s := by
  constructor
  · intro h hend
    have hmark : Enclosed endMark := List.IsChain.infix h hend
    exact List.rel_of_isChain_cons_cons hmark ⟨rfl, rfl⟩
  · intro h
    refine s.isChain_isInfix.imp ?_
    rintro c d hinfix ⟨rfl, rfl⟩
    exact h hinfix

/-! ## Parts of a text -/

theorem Enclosed.of_isInfix (h : Enclosed s) (hpart : part <:+: s) : Enclosed part :=
  List.IsChain.infix h hpart

/-- **Parts with another character between them form no end.** -/
theorem enclosed_append_cons (hasterisk : c ≠ '*') (hslash : c ≠ '/') :
    Enclosed (a ++ c :: b) ↔ Enclosed a ∧ Enclosed b := by
  rw [Enclosed, Enclosed, Enclosed, List.isChain_append, List.isChain_cons]
  constructor
  · rintro ⟨ha, ⟨-, hb⟩, -⟩
    exact ⟨ha, hb⟩
  · rintro ⟨ha, hb⟩
    refine ⟨ha, ⟨fun d _ h => hasterisk h.1, hb⟩, ?_⟩
    intro d _ e he h
    obtain rfl : c = e := Option.some.inj he
    exact hslash h.2

/-- Nor do blanks at the head of a text. -/
theorem enclosed_blanks_append (h : isBlankText t) : Enclosed (t ++ s) ↔ Enclosed s := by
  induction t with
  | nil => rfl
  | cons c t ih =>
    rw [isBlankText, List.all_cons, Bool.and_eq_true] at h
    have hasterisk : c ≠ '*' := by
      rintro rfl
      exact absurd h.1 (by decide)
    have hslash : c ≠ '/' := by
      rintro rfl
      exact absurd h.1 (by decide)
    have hhead := enclosed_append_cons (a := []) (b := t ++ s) hasterisk hslash
    rw [List.nil_append] at hhead
    rw [List.cons_append, hhead, ih h.2]
    exact and_iff_right List.isChain_nil

theorem enclosed_of_isBlankText (h : isBlankText t) : Enclosed t := by
  have hblanks := enclosed_blanks_append (s := []) h
  rw [List.append_nil] at hblanks
  exact hblanks.2 List.isChain_nil

/-- Lines are parted by their ends. -/
theorem enclosed_flatMap_append :
    Enclosed (ls.flatMap (· ++ ['\n']) ++ s) ↔ (∀ l ∈ ls, Enclosed l) ∧ Enclosed s := by
  induction ls with
  | nil => simp
  | cons l ls ih =>
    rw [List.flatMap_cons, List.append_assoc, List.append_assoc, List.singleton_append,
      enclosed_append_cons (by decide) (by decide), ih, List.forall_mem_cons, and_assoc]

/-- An end between two texts that have none is the only one. -/
theorem append_endMark_eq_iff (hx : Enclosed x) (hr : Enclosed ('/' :: r)) :
    x ++ (endMark ++ r) = a ++ (endMark ++ b) ↔ a = x ∧ b = r := by
  constructor
  · intro h
    rcases List.append_eq_append_iff.1 h with ⟨t, rfl, ht⟩ | ⟨t, rfl, ht⟩
    · cases t with
      | nil => simpa using ht.symm
      | cons d t =>
        -- a later end would lie behind the slash
        have hslash : '/' :: r = t ++ (endMark ++ b) := (List.cons.inj ht).2
        have hlater : endMark <:+: '/' :: r := ⟨t, b, by rw [hslash, List.append_assoc]⟩
        exact absurd hlater (enclosed_iff.1 hr)
    · cases t with
      | nil => simpa using ht
      | cons d t =>
        cases t with
        | nil => cases ht
        | cons e t =>
          have hearlier : endMark <:+: a ++ d :: e :: t := by
            obtain ⟨rfl, htail⟩ := List.cons.inj ht
            obtain ⟨rfl, -⟩ := List.cons.inj htail
            exact ⟨a, t, by simp [endMark]⟩
          exact absurd hearlier (enclosed_iff.1 hx)
  · rintro ⟨rfl, rfl⟩
    rfl

/-! ## What happens to a line -/

/-- What is put into a link stands between a blank and a dot. -/
theorem linkHit?_eq_some {hit : Hit} (h : linkHit? name s = some hit) :
    ∃ target rest, s = '\x7b' :: ("@link ".toList ++ '#' :: (target ++ '\x7d' :: rest)) ∧
      hit.size ≠ 0 ∧ s.drop hit.size = rest ∧ hit.replacement ++ rest =
        '\x7b' :: ("@link".toList ++ ' ' :: (name ++ '.' :: (target ++ '\x7d' :: rest))) := by
  obtain ⟨behind, hbehind, hhit⟩ := Option.bind_eq_some_iff.1 h
  obtain rfl := after?_eq_some_iff.1 hbehind
  rw [Option.ite_none_left_eq_some] at hhit
  obtain ⟨hclosed, hhit⟩ := hhit
  -- a target that runs to the end of the line is none
  have hmem : '\x7d' ∈ behind := by
    by_contra hnone
    have hall := takeWhile_ne_append hnone []
    rw [List.append_nil] at hall
    rw [hall] at hclosed
    simp at hclosed
  obtain ⟨target, rest, rfl, htarget⟩ := List.eq_append_cons_of_mem hmem
  rw [takeWhile_ne_append_cons htarget] at hhit
  obtain rfl := Option.some.inj hhit
  have hlength : (relativeLink ++ target ++ ['\x7d']).length =
      relativeLink.length + target.length + 1 := by
    rw [List.length_append, List.length_append, List.length_singleton]
  have heq : relativeLink ++ (target ++ '\x7d' :: rest) =
      (relativeLink ++ target ++ ['\x7d']) ++ rest := by simp
  refine ⟨target, rest, rfl, Nat.succ_ne_zero _, ?_, by simp⟩
  rw [heq, ← hlength, List.drop_left]

/-- A link holds no end with the name of the class in it. -/
theorem enclosed_qualifyLinks (hname : Enclosed name) (h : Enclosed line) :
    Enclosed (qualifyLinks name line) := by
  have hstart : Enclosed ([] ++ line.drop 0) := h
  refine replaceEach_induction ?_ hstart
  intro before c s hit hhit hbefore
  obtain ⟨target, rest, heq, hsize, hdrop, hreplaced⟩ := linkHit?_eq_some hhit
  obtain ⟨size, hsize⟩ := Nat.exists_eq_succ_of_ne_zero hsize
  rw [hsize, Nat.succ_eq_add_one, List.drop_succ_cons] at hdrop
  rw [heq] at hbefore
  rw [hsize, Nat.succ_eq_add_one, Nat.add_sub_cancel, hdrop, hreplaced]
  iterate 3 rw [enclosed_append_cons (by decide) (by decide)] at hbefore
  iterate 4 rw [enclosed_append_cons (by decide) (by decide)]
  obtain ⟨hbefore, -, htarget, hrest⟩ := hbefore
  have hlink : Enclosed "@link".toList := by decide
  exact ⟨hbefore, hlink, hname, htarget, hrest⟩

/-- The parts around a type expression come together at a blank. -/
theorem enclosed_stripTypeExpression (h : Enclosed line) : Enclosed (stripTypeExpression line) := by
  by_cases hfirst : ∃ before expression after, FirstTypeExpression line before expression after
  · obtain ⟨before, expression, after, hfirst⟩ := hfirst
    have hbefore : before <:+: line := ⟨[], expression ++ after, by simp [hfirst.line_eq]⟩
    have hafter : after <:+: line := ⟨before ++ expression, [], by simp [hfirst.line_eq]⟩
    rw [stripTypeExpression_of_first hfirst, enclosed_append_cons (by decide) (by decide)]
    exact ⟨h.of_isInfix ((trim_isInfix before).trans hbefore), h.of_isInfix ((trim_isInfix after).trans hafter)⟩
  · rwa [stripTypeExpression_eq_self hfirst]

theorem enclosed_declaredLine (hname : Enclosed name) (h : Enclosed line) :
    Enclosed (declaredLine name line) := by
  have hqualified : Enclosed (qualifyLinks name line) := enclosed_qualifyLinks hname h
  rw [declaredLine]
  split
  · exact (enclosed_stripTypeExpression hqualified).of_isInfix (trim_isInfix _)
  · exact hqualified.of_isInfix (trim_isInfix _)

/-- **The lines of a member end no comment.** -/
theorem enclosed_of_mem_declaredLines (hname : Enclosed className.toList)
    (hentries : ∀ e ∈ entries, Enclosed e.toList) {l : String}
    (hl : l ∈ declaredLines className entries) : Enclosed l.toList := by
  obtain ⟨line, hline, rfl⟩ := List.mem_map.1 hl
  obtain ⟨e, he, hmem⟩ := List.mem_flatMap.1 (List.mem_of_mem_filter hline)
  rw [String.toList_ofList]
  exact enclosed_declaredLine hname ((hentries e he).of_isInfix (of_mem_splitOn hmem).2)

/-! ## The comment -/

/-- The lines of a comment before the one that ends it. -/
def openLines (indent : String) (lines : List String) (link : String) : List (List Char) :=
  [indent.toList ++ "/**".toList] ++
    lines.map (fun line => indent.toList ++ ' ' :: line.toList) ++
    (if lines.isEmpty then [] else [indent.toList ++ " *".toList]) ++
    [indent.toList ++ (" * [source code]".toList ++ '(' :: (link.toList ++ [')']))]

/-- A comment is those lines and the one that ends it. -/
theorem toList_block (indent : String) (lines : List String) (link : String) :
    (block indent lines link).toList =
      (openLines indent lines link).flatMap (· ++ ['\n']) ++
        (indent.toList ++ ' ' :: (endMark ++ ['\n'])) := by
  have hlines : (String.join (lines.map fun line => indent ++ " " ++ line ++ "\n")).toList =
      (lines.map fun line => indent.toList ++ ' ' :: line.toList).flatMap (· ++ ['\n']) := by
    simp [String.toList_join, List.flatMap_def, Function.comp_def]
  rw [block, openLines]
  simp only [List.flatMap_append, ← hlines, String.toList_append]
  cases lines with
  | nil => simp [endMark]
  | cons line lines => simp [endMark]

/-- The last of them ends with a line end. -/
theorem getLast?_openLines (indent : String) (lines : List String) (link : String) :
    ((openLines indent lines link).flatMap (· ++ ['\n'])).getLast? = some '\n' := by
  rw [openLines, List.flatMap_append, List.flatMap_singleton, ← List.append_assoc,
    List.getLast?_concat]

/-- None of them ends the comment, whatever blanks stand before it. -/
theorem enclosed_of_mem_openLines (hindent : isBlankText indent.toList)
    (hlines : ∀ l ∈ lines, Enclosed l.toList) (hlink : Enclosed link.toList) {l : List Char}
    (hl : l ∈ openLines indent lines link) : Enclosed l := by
  simp only [openLines, List.mem_append, List.mem_singleton, List.mem_map] at hl
  rcases hl with ((rfl | ⟨line, hline, rfl⟩) | hl) | rfl
  · exact (enclosed_blanks_append hindent).2 (by decide)
  · exact (enclosed_append_cons (by decide) (by decide)).2
      ⟨enclosed_of_isBlankText hindent, hlines line hline⟩
  · split at hl
    · cases hl
    · rw [List.mem_singleton.1 hl]
      exact (enclosed_blanks_append hindent).2 (by decide)
  · rw [enclosed_blanks_append hindent, enclosed_append_cons (by decide) (by decide),
      enclosed_append_cons (by decide) (by decide)]
    exact ⟨by decide, hlink, List.isChain_nil⟩

/-- **A comment ends in its last line and nowhere before**, when none of its
lines ends it. -/
theorem block_eq_append_endMark_iff (hindent : isBlankText indent.toList)
    (hlines : ∀ l ∈ lines, Enclosed l.toList) (hlink : Enclosed link.toList) :
    (block indent lines link).toList = a ++ (endMark ++ b) ↔
      a = (openLines indent lines link).flatMap (· ++ ['\n']) ++ (indent.toList ++ [' ']) ∧
        b = ['\n'] := by
  have hfront : Enclosed ((openLines indent lines link).flatMap (· ++ ['\n']) ++
      (indent.toList ++ [' '])) := by
    rw [enclosed_flatMap_append, enclosed_append_cons (by decide) (by decide)]
    refine ⟨?_, enclosed_of_isBlankText hindent, List.isChain_nil⟩
    exact fun l hl => enclosed_of_mem_openLines hindent hlines hlink hl
  have hclosing : Enclosed ['/', '\n'] := by decide
  rw [← append_endMark_eq_iff hfront hclosing, toList_block]
  simp only [List.append_assoc, List.cons_append, List.nil_append]

/-- **Documentation stays inside its comment.** Nothing that is done to a line forms
the end of a comment: not cutting it, putting the name of the class into its
links, taking out its type expression or trimming it. So when no entry, nor the
name of the class, nor the link to the source holds such an end, no line that is
made of them does, and the comment has one end, in its last line: what stands
before that line ends with a line end, and nothing but the end of the line
follows. -/
theorem block_declaredLines_ends_once (hentries : ∀ e ∈ entries, ¬ endMark <:+: e.toList)
    (hclass : ¬ endMark <:+: className.toList) (hlink : ¬ endMark <:+: link.toList)
    (hindent : isBlankText indent.toList) :
    (∀ line, ¬ endMark <:+: line →
      (∀ part ∈ line.splitOn '\n', ¬ endMark <:+: part) ∧
      ¬ endMark <:+: qualifyLinks className.toList line ∧
      ¬ endMark <:+: stripTypeExpression line ∧
      ¬ endMark <:+: trim line) ∧
    (∀ line ∈ declaredLines className entries, ¬ endMark <:+: line.toList) ∧
    ∃ front, (block indent (declaredLines className entries) link).toList =
        front ++ (indent.toList ++ ' ' :: (endMark ++ ['\n'])) ∧
      front.getLast? = some '\n' ∧
      ∀ a b, (block indent (declaredLines className entries) link).toList = a ++ (endMark ++ b) ↔
        a = front ++ (indent.toList ++ [' ']) ∧ b = ['\n'] := by
  have hname : Enclosed className.toList := enclosed_iff.2 hclass
  have hlines : ∀ l ∈ declaredLines className entries, Enclosed l.toList := by
    intro l hl
    exact enclosed_of_mem_declaredLines hname (fun e he => enclosed_iff.2 (hentries e he)) hl
  refine ⟨?_, fun l hl => enclosed_iff.1 (hlines l hl), _, toList_block _ _ _,
    getLast?_openLines _ _ _, ?_⟩
  · intro line hline
    have hline : Enclosed line := enclosed_iff.2 hline
    refine ⟨?_, ?_, ?_, ?_⟩
    · intro part hpart
      exact enclosed_iff.1 (hline.of_isInfix (of_mem_splitOn hpart).2)
    · exact enclosed_iff.1 (enclosed_qualifyLinks hname hline)
    · exact enclosed_iff.1 (enclosed_stripTypeExpression hline)
    · exact enclosed_iff.1 (hline.of_isInfix (trim_isInfix line))
  · intro a b
    exact block_eq_append_endMark_iff hindent hlines (enclosed_iff.2 hlink)

/-- A type expression between an asterisk and a slash, an entry that ends with one
and one that starts with the other, a class and a source that do both. -/
theorem block_parted_ends_once :
    declaredLines "/a.B*" ["@param p *\x7bT\x7d/ p", "\x7b@link #/q\x7d*", "/"] =
        ["@param p * / p", "\x7b@link /a.B*./q\x7d*", "/"] ∧
      ∃ front, (block "  " (declaredLines "/a.B*"
          ["@param p *\x7bT\x7d/ p", "\x7b@link #/q\x7d*", "/"]) "/b*").toList =
          front ++ ("  ".toList ++ ' ' :: (endMark ++ ['\n'])) ∧
        ∀ a b, (block "  " (declaredLines "/a.B*"
            ["@param p *\x7bT\x7d/ p", "\x7b@link #/q\x7d*", "/"]) "/b*").toList =
            a ++ (endMark ++ b) ↔ a = front ++ ("  ".toList ++ [' ']) ∧ b = ['\n'] := by
  have hentries : ∀ e ∈ ["@param p *\x7bT\x7d/ p", "\x7b@link #/q\x7d*", "/"],
      Enclosed e.toList := by decide
  obtain ⟨-, -, front, hblock, -, honly⟩ := block_declaredLines_ends_once
    (fun e he => enclosed_iff.1 (hentries e he))
    (enclosed_iff.1 (show Enclosed "/a.B*".toList by decide))
    (enclosed_iff.1 (show Enclosed "/b*".toList by decide)) (show isBlankText "  ".toList by decide)
  exact ⟨by decide, front, hblock, honly⟩

end Ambient.Doc
