import HazardTrace.Json.Reader
import Mathlib.Data.List.Chain

/-!
# What removing comments leaves

A text is laid out in segments (`Layout`): string literals, comments, and runs of anything else. At
its end a literal or a comment may be left open (`Remainder`). A layout says nothing of how a text
is scanned. Of its runs it asks that no comment begins in them, nor with the last character and the
one behind (`Clear`); the well-formedness of the segments is part of the segments.

There are two main results.

* `stripComments_exact`: what removing comments leaves can be read off any layout of the text.
  Literals and runs are kept as they are, and of each comment the line ends. And every text has a
  layout, so this says what happens to every text.
* `stripComments_settles`: a second removal finds nothing to do, lines keep their numbers, and what
  is left cannot be laid out with a comment in it.

The first rests on `stripFrom_text`, which takes a layout segment by segment, and in each segment
the scan takes one character at a time (`stripFrom_run`, `stripFrom_glyphs`,
`stripFrom_lineComment`, `stripFrom_blockComment`). The scan looks one character ahead. That is why
these lemmas speak of the first character of the rest as well. That every text has a layout
(`laidOut`) is by induction along the scan itself: whatever has been begun at some point is the
segment that is being read there (`LaidOut`).

For the second, taking a comment out joins what stands on either side, and it has to be seen that
nothing new begins there. A slash that is kept is followed by the character that followed it in the
text, because that character does not begin a comment (`not_opens_stripFrom`). From this one fact
the scan of what is left stays in step with the scan of the text (`stripFrom_stripFrom`). That no
layout of the result has a comment is then a matter of length: a comment loses its slash at least
(`length_keep_add`), so a text that loses nothing has none.
-/

namespace HazardTrace

namespace Json

/-- The two characters open a comment. -/
def Opens (a b : Char) : Prop :=
  a = '/' ∧ (b = '/' ∨ b = '*')

/-- The two characters close a block comment. -/
def Closes (a b : Char) : Prop :=
  a = '*' ∧ b = '/'

/-- The line ends of a text. -/
def newlines (text : List Char) : List Char :=
  text.filter (· == '\n')

/-- A text on one line has no line ends. -/
theorem newlines_eq_nil {text : List Char} (h : '\n' ∉ text) : newlines text = [] := by
  refine List.filter_eq_nil_iff.2 fun c hc heq ↦ h ?_
  rwa [← beq_iff_eq.1 heq]

/-- What is left of a part of a text: the line ends of a comment, and all of anything else. -/
def keep (isComment : Bool) (text : List Char) : List Char :=
  if isComment then newlines text else text

/-! ### Layouts -/

/-- A character of a literal, with the backslash in front of it if it has one. -/
inductive Glyph where
  | plain (c : Char) (hquote : c ≠ '"') (hslash : c ≠ '\\')
  | escaped (c : Char)

/-- The characters of a glyph. -/
def Glyph.text : Glyph → List Char
  | .plain c _ _ => [c]
  | .escaped c => ['\\', c]

/-- A part of a text that is complete in itself. -/
inductive Segment where
  /-- A string literal. -/
  | literal (body : List Glyph)
  /-- A comment up to the end of its line. -/
  | lineComment (body : List Char) (h : '\n' ∉ body)
  /-- A comment up to the first `*/`. -/
  | blockComment (body : List Char) (h : body.IsChain (¬ Closes · ·))
  /-- Anything else. -/
  | run (body : List Char) (h : '"' ∉ body)

namespace Segment

/-- The characters of a segment. -/
def text : Segment → List Char
  | .literal body => '"' :: (body.flatMap Glyph.text ++ ['"'])
  | .lineComment body _ => '/' :: '/' :: (body ++ ['\n'])
  | .blockComment body _ => '/' :: '*' :: (body ++ ['*', '/'])
  | .run body _ => body

/-- Is the segment a comment? -/
def isComment : Segment → Bool
  | .lineComment .. | .blockComment .. => true
  | .literal _ | .run .. => false

/-- What is left of a segment. -/
def kept (x : Segment) : List Char :=
  keep x.isComment x.text

end Segment

/-- What a text may end with: a literal or a comment that is not closed. -/
inductive Remainder where
  | nothing
  /-- A literal may end in a backslash that takes no character with it. -/
  | literal (body : List Glyph) (slash : Bool)
  | lineComment (body : List Char) (h : '\n' ∉ body)
  | blockComment (body : List Char) (h : body.IsChain (¬ Closes · ·))

namespace Remainder

/-- The characters of a remainder. -/
def text : Remainder → List Char
  | .nothing => []
  | .literal body slash => '"' :: (body.flatMap Glyph.text ++ if slash then ['\\'] else [])
  | .lineComment body _ => '/' :: '/' :: body
  | .blockComment body _ => '/' :: '*' :: body

/-- Is the remainder a comment? -/
def isComment : Remainder → Bool
  | .lineComment .. | .blockComment .. => true
  | .nothing | .literal .. => false

/-- What is left of a remainder. -/
def kept (x : Remainder) : List Char :=
  keep x.isComment x.text

end Remainder

/-- The characters of some segments and a remainder. -/
def textOf (segments : List Segment) (last : Remainder) : List Char :=
  segments.flatMap Segment.text ++ last.text

/-- No run opens a comment, in itself or with the character behind it. -/
def Clear (segments : List Segment) (last : Remainder) : Prop :=
  ∀ before body h after, segments = before ++ .run body h :: after →
    (body ++ (textOf after last).take 1).IsChain (¬ Opens · ·)

/-- A text in segments. -/
structure Layout where
  segments : List Segment
  last : Remainder
  clear : Clear segments last

namespace Layout

/-- The text that is laid out. -/
def text (l : Layout) : List Char :=
  textOf l.segments l.last

/-- What is left of the text without its comments. -/
def kept (l : Layout) : List Char :=
  l.segments.flatMap Segment.kept ++ l.last.kept

/-- Is there no comment in the text? -/
def IsPlain (l : Layout) : Prop :=
  (∀ x ∈ l.segments, x.isComment = false) ∧ l.last.isComment = false

end Layout

/-! ### One character at a time -/

section Steps

variable {c : Char} {rest body : List Char}

/-- A scan looks one character ahead, at most into what follows the part that it reads. -/
theorem head?_append_take_one (body rest : List Char) :
    (body ++ rest.take 1).head? = (body ++ rest).head? := by
  cases body <;> cases rest <;> rfl

/-- A character is kept if it neither begins a literal nor, with the next one, a comment. -/
theorem stripFrom_code_cons (hquote : c ≠ '"') (h : ∀ d ∈ rest.head?, ¬ Opens c d) :
    stripFrom .code (c :: rest) = c :: stripFrom .code rest := by
  refine stripFrom.eq_5 c rest hquote ?_ ?_
  · rintro rest' rfl rfl
    exact h '/' rfl ⟨rfl, .inl rfl⟩
  · rintro rest' rfl rfl
    exact h '*' rfl ⟨rfl, .inr rfl⟩

/-- Inside a block comment only line ends are kept, as long as it is not closed. -/
theorem stripFrom_blockComment_cons (h : ∀ d ∈ rest.head?, ¬ Closes c d) :
    stripFrom .blockComment (c :: rest) = newlines [c] ++ stripFrom .blockComment rest := by
  by_cases hc : c = '\n'
  · subst hc
    rfl
  · have hnone : newlines [c] = [] := by simp [newlines, hc]
    rw [hnone]
    refine stripFrom.eq_13 c rest ?_ hc
    rintro rest' rfl rfl
    exact h '/' rfl ⟨rfl, rfl⟩

/-- A run is kept. -/
theorem stripFrom_run (hquote : '"' ∉ body) (h : (body ++ rest.take 1).IsChain (¬ Opens · ·)) :
    stripFrom .code (body ++ rest) = body ++ stripFrom .code rest := by
  induction body with
  | nil => rfl
  | cons c body ih =>
    obtain ⟨hc, hbody⟩ := List.ne_and_not_mem_of_not_mem_cons hquote
    rw [List.cons_append, List.isChain_cons, head?_append_take_one] at h
    obtain ⟨hhead, hchain⟩ := h
    rw [List.cons_append, stripFrom_code_cons (Ne.symm hc) hhead, ih hbody hchain]
    rfl

/-- The glyphs of a literal are kept. -/
theorem stripFrom_glyphs (body : List Glyph) (rest : List Char) :
    stripFrom .literal (body.flatMap Glyph.text ++ rest) =
      body.flatMap Glyph.text ++ stripFrom .literal rest := by
  induction body with
  | nil => rfl
  | cons x body ih =>
    rw [List.flatMap_cons, List.append_assoc, List.append_assoc, ← ih]
    cases x with
    | plain c hquote hslash =>
      exact stripFrom.eq_8 c _ (fun _ _ hc _ ↦ hslash hc) hquote
    | escaped c => rfl

/-- Of a line comment nothing is kept up to its line end. -/
theorem stripFrom_lineComment (h : '\n' ∉ body) (rest : List Char) :
    stripFrom .lineComment (body ++ rest) = stripFrom .lineComment rest := by
  induction body with
  | nil => rfl
  | cons c body ih =>
    obtain ⟨hc, hbody⟩ := List.ne_and_not_mem_of_not_mem_cons h
    exact (stripFrom.eq_10 c (body ++ rest) (Ne.symm hc)).trans (ih hbody)

/-- Of a block comment the line ends are kept. What follows the body must not close the comment
together with its last character. -/
theorem stripFrom_blockComment (h : (body ++ rest.take 1).IsChain (¬ Closes · ·)) :
    stripFrom .blockComment (body ++ rest) = newlines body ++ stripFrom .blockComment rest := by
  induction body with
  | nil => rfl
  | cons c body ih =>
    rw [List.cons_append, List.isChain_cons, head?_append_take_one] at h
    obtain ⟨hhead, hchain⟩ := h
    rw [List.cons_append, stripFrom_blockComment_cons hhead, ih hchain, ← List.append_assoc]
    exact congrArg (· ++ _) (List.filter_append [c] body).symm

end Steps

/-! ### One segment at a time -/

theorem clear_nil (last : Remainder) : Clear [] last := by
  intro before body h after heq
  cases before <;> cases heq

/-- A layout is clear if its first segment is, in view of what follows, and the rest is. -/
theorem clear_cons_iff {x : Segment} {xs : List Segment} {last : Remainder} :
    Clear (x :: xs) last ↔
      (∀ body h, x = .run body h → (body ++ (textOf xs last).take 1).IsChain (¬ Opens · ·)) ∧
        Clear xs last := by
  constructor
  · intro hclear
    refine ⟨fun body h hx ↦ hclear [] body h xs (by rw [hx]; rfl), ?_⟩
    intro before body h after hxs
    exact hclear (x :: before) body h after (by rw [hxs]; rfl)
  · rintro ⟨hx, hxs⟩ before body h after heq
    cases before with
    | nil =>
      obtain ⟨rfl, rfl⟩ := List.cons.inj heq
      exact hx body h rfl
    | cons y before => exact hxs before body h after (List.cons.inj heq).2

/-- A segment is scanned to its end, and what is kept of it is in front of the rest. -/
theorem stripFrom_segment (x : Segment) {rest : List Char}
    (hclear : ∀ body h, x = .run body h → (body ++ rest.take 1).IsChain (¬ Opens · ·)) :
    stripFrom .code (x.text ++ rest) = x.kept ++ stripFrom .code rest := by
  cases x with
  | literal body =>
    show '"' :: stripFrom .literal (body.flatMap Glyph.text ++ ['"'] ++ rest) =
      '"' :: (body.flatMap Glyph.text ++ ['"'] ++ stripFrom .code rest)
    rw [List.append_assoc, stripFrom_glyphs, List.append_assoc]
    rfl
  | lineComment body h =>
    show stripFrom .lineComment (body ++ ['\n'] ++ rest) =
      newlines (body ++ ['\n']) ++ stripFrom .code rest
    rw [List.append_assoc, stripFrom_lineComment h, newlines, List.filter_append, ← newlines,
      newlines_eq_nil h]
    rfl
  | blockComment body h =>
    have hstar : (body ++ ['*']).IsChain (¬ Closes · ·) := by
      refine List.isChain_append.2 ⟨h, .singleton _, ?_⟩
      rintro a - b hb ⟨-, rfl⟩
      cases hb
    show stripFrom .blockComment (body ++ ['*', '/'] ++ rest) =
      newlines (body ++ ['*', '/']) ++ stripFrom .code rest
    rw [List.append_assoc, stripFrom_blockComment hstar, newlines, newlines, List.filter_append,
      List.append_assoc]
    rfl
  | run body h => exact stripFrom_run h (hclear body h rfl)

/-- A literal or a comment that is left open is treated like one that is closed. -/
theorem stripFrom_remainder (last : Remainder) : stripFrom .code last.text = last.kept := by
  cases last with
  | nothing => rfl
  | literal body slash =>
    show '"' :: stripFrom .literal (body.flatMap Glyph.text ++ _) = '"' :: (_ ++ _)
    rw [stripFrom_glyphs]
    cases slash <;> rfl
  | lineComment body h =>
    show stripFrom .lineComment body = newlines body
    rw [← List.append_nil body, stripFrom_lineComment h, List.append_nil,
      newlines_eq_nil h]
    rfl
  | blockComment body h =>
    show stripFrom .blockComment body = newlines body
    have hbody : (body ++ List.take 1 []).IsChain (¬ Closes · ·) := by
      rwa [List.take_nil, List.append_nil]
    have hstrip := stripFrom_blockComment hbody
    rw [List.append_nil] at hstrip
    rw [hstrip]
    exact List.append_nil _

/-- **Comments are removed from a text in segments**, and nothing else. -/
theorem stripFrom_text (l : Layout) : stripFrom .code l.text = l.kept := by
  obtain ⟨segments, last, hclear⟩ := l
  show stripFrom .code (textOf segments last) = segments.flatMap Segment.kept ++ last.kept
  induction segments with
  | nil => exact stripFrom_remainder last
  | cons x xs ih =>
    obtain ⟨hx, hxs⟩ := clear_cons_iff.1 hclear
    have htext : textOf (x :: xs) last = x.text ++ textOf xs last := by
      rw [textOf, List.flatMap_cons, List.append_assoc]
      rfl
    rw [htext, stripFrom_segment x hx, ih hxs, List.flatMap_cons, List.append_assoc]

/-! ### Every text has a layout -/

/-- What can be said of a text whose first part has been read up to some point: whatever has been
begun there, the text has a layout. -/
def LaidOut : Within → List Char → Prop
  | .code, rest => ∃ l : Layout, l.text = rest
  | .literal, rest => ∀ body : List Glyph, ∃ l : Layout,
    l.text = '"' :: (body.flatMap Glyph.text ++ rest)
  | .lineComment, rest => ∀ body : List Char, '\n' ∉ body → ∃ l : Layout,
    l.text = '/' :: '/' :: (body ++ rest)
  | .blockComment, rest => ∀ body : List Char, (body ++ rest.take 1).IsChain (¬ Closes · ·) →
    ∃ l : Layout, l.text = '/' :: '*' :: (body ++ rest)

/-- A segment in front of a layout. A run must not open a comment. -/
theorem exists_layout_cons {x : Segment} {l : Layout}
    (hx : ∀ body h, x = .run body h → (body ++ l.text.take 1).IsChain (¬ Opens · ·)) :
    ∃ l' : Layout, l'.text = x.text ++ l.text := by
  refine ⟨⟨x :: l.segments, l.last, clear_cons_iff.2 ⟨hx, l.clear⟩⟩, ?_⟩
  rw [Layout.text, textOf, List.flatMap_cons, List.append_assoc]
  rfl

/-- What is left open at the end is a layout without segments. -/
theorem exists_layout_remainder (last : Remainder) : ∃ l : Layout, l.text = last.text :=
  ⟨⟨[], last, clear_nil last⟩, rfl⟩

/-- A run can be extended by a character that goes with the next one. -/
theorem isChain_concat_take {R : Char → Char → Prop} {c : Char} {body rest : List Char}
    (h : (body ++ [c]).IsChain R) (hnext : ∀ d ∈ rest.head?, R c d) :
    (body ++ [c] ++ rest.take 1).IsChain R := by
  refine List.isChain_append.2 ⟨h, by cases rest <;> simp, fun a ha d hd ↦ ?_⟩
  obtain rfl : c = a := by simpa using ha
  exact hnext d (by simpa [List.head?_take] using hd)

/-- Where a scan goes on without a comment, none is opened. -/
theorem not_opens_of_code {c : Char} {rest : List Char}
    (hline : ∀ rest', c = '/' → rest = '/' :: rest' → False)
    (hblock : ∀ rest', c = '/' → rest = '*' :: rest' → False) :
    ∀ d ∈ rest.head?, ¬ Opens c d := by
  rintro d hd ⟨rfl, hopens⟩
  obtain ⟨rest', rfl⟩ := List.head?_eq_some_iff.1 hd
  rcases hopens with rfl | rfl
  · exact hline rest' rfl rfl
  · exact hblock rest' rfl rfl

/-- **Every text has a layout**, whatever has been begun in front of it. -/
theorem laidOut (w : Within) (rest : List Char) : LaidOut w rest := by
  fun_induction stripFrom w rest with
  | case1 w =>
    -- what has been begun is left open
    cases w with
    | code => exact exists_layout_remainder .nothing
    | literal => exact fun body ↦ exists_layout_remainder (.literal body false)
    | lineComment =>
      intro body h
      rw [List.append_nil]
      exact exists_layout_remainder (.lineComment body h)
    | blockComment =>
      intro body h
      rw [List.take_nil, List.append_nil] at h
      rw [List.append_nil]
      exact exists_layout_remainder (.blockComment body h)
  | case2 rest ih => exact ih []
  | case3 rest ih => exact ih [] List.not_mem_nil
  | case4 rest ih => exact ih [] (by cases rest <;> simp)
  | case5 c rest hquote hline hblock ih =>
    obtain ⟨l, rfl⟩ := ih
    refine exists_layout_cons (x := .run [c] (by simpa using Ne.symm hquote)) ?_
    rintro body h ⟨⟩
    have hc : ([] ++ [c]).IsChain (¬ Opens · ·) := .singleton c
    exact isChain_concat_take hc (not_opens_of_code hline hblock)
  | case6 c rest ih =>
    intro body
    obtain ⟨l, hl⟩ := ih (body ++ [.escaped c])
    exact ⟨l, by simpa [Glyph.text] using hl⟩
  | case7 rest ih =>
    intro body
    obtain ⟨l, rfl⟩ := ih
    simpa [Segment.text] using exists_layout_cons (x := .literal body) (l := l) nofun
  | case8 c rest hslash hquote ih =>
    intro body
    by_cases hc : c = '\\'
    · -- a backslash that nothing follows
      subst hc
      cases rest with
      | nil => exact exists_layout_remainder (.literal body true)
      | cons d rest => exact absurd rfl (hslash d rest rfl)
    · obtain ⟨l, hl⟩ := ih (body ++ [.plain c hquote hc])
      exact ⟨l, by simpa [Glyph.text] using hl⟩
  | case9 rest ih =>
    intro body h
    obtain ⟨l, rfl⟩ := ih
    simpa [Segment.text] using exists_layout_cons (x := .lineComment body h) (l := l) nofun
  | case10 c rest hc ih =>
    intro body h
    simpa using ih (body ++ [c]) (by simp [h, Ne.symm hc])
  | case11 rest ih =>
    intro body h
    obtain ⟨l, rfl⟩ := ih
    -- the closing characters are not part of the body
    have hbody := (List.isChain_append.1 h).1
    simpa [Segment.text] using exists_layout_cons (x := .blockComment body hbody) (l := l) nofun
  | case12 rest ih =>
    intro body h
    have hnext : ∀ d ∈ rest.head?, ¬ Closes '\n' d := fun d _ hcloses ↦ by cases hcloses.1
    simpa using ih (body ++ ['\n']) (isChain_concat_take h hnext)
  | case13 c rest hclose hc ih =>
    intro body h
    have hnext : ∀ d ∈ rest.head?, ¬ Closes c d := by
      rintro d hd ⟨rfl, rfl⟩
      obtain ⟨rest', rfl⟩ := List.head?_eq_some_iff.1 hd
      exact hclose rest' rfl rfl
    simpa using ih (body ++ [c]) (isChain_concat_take h hnext)

/-- **Removing comments takes out exactly the comments.** However a text is laid out in segments,
with a literal or a comment that is left open at its end or without, literals and runs are kept as
they are, and of each comment the line ends are kept. Every text is laid out in this way. -/
theorem stripComments_exact :
    (∀ l : Layout, stripComments (.ofList l.text) = .ofList l.kept) ∧
      ∀ t : String, ∃ l : Layout, .ofList l.text = t := by
  refine ⟨fun l ↦ ?_, fun t ↦ ?_⟩
  · rw [stripComments, String.toList_ofList, stripFrom_text]
  · obtain ⟨l, hl⟩ := laidOut .code t.toList
    exact ⟨l, by rw [hl, String.ofList_toList]⟩

example : stripComments "[\"a//b\" /*/ \"\n**/, 1] // end" = "[\"a//b\" \n, 1] " := by
  decide +kernel

/-! ### Removing comments again -/

/-- A slash that is kept is followed by the character that followed it before. -/
theorem not_opens_stripFrom {c : Char} {rest : List Char} (h : ∀ d ∈ rest.head?, ¬ Opens c d) :
    ∀ d ∈ (stripFrom .code rest).head?, ¬ Opens c d := by
  rintro d hd ⟨rfl, hopens⟩
  cases rest with
  | nil => cases hd
  | cons e rest =>
    have he : ¬ Opens '/' e := h e rfl
    have hhead : (stripFrom .code (e :: rest)).head? = some e := by
      by_cases hquote : e = '"'
      · subst hquote
        rfl
      · rw [stripFrom_code_cons hquote fun _ _ hslash ↦ he ⟨rfl, .inl hslash.1⟩]
        rfl
    obtain rfl := Option.some.inj (hhead.symm.trans hd)
    exact he ⟨rfl, hopens⟩

/-- Where the scan of what is left stands, while the scan of the text stands at `w`. -/
def Within.left : Within → Within
  | .literal => .literal
  | .code | .lineComment | .blockComment => .code

/-- **What is left has no comments.** -/
theorem stripFrom_stripFrom (w : Within) (text : List Char) :
    stripFrom w.left (stripFrom w text) = stripFrom w text := by
  fun_induction stripFrom w text with
  | case1 w => exact stripFrom.eq_1 _
  | case2 rest ih => exact congrArg ('"' :: ·) ih
  | case3 rest ih => exact ih
  | case4 rest ih => exact ih
  -- the one case where a comment could begin
  | case5 c rest hquote hline hblock ih =>
    have hopens := not_opens_stripFrom (not_opens_of_code hline hblock)
    exact (stripFrom_code_cons hquote hopens).trans (congrArg (c :: ·) ih)
  | case6 c rest ih => exact congrArg ('\\' :: c :: ·) ih
  | case7 rest ih => exact congrArg ('"' :: ·) ih
  | case8 c rest hslash hquote ih =>
    refine (stripFrom.eq_8 c _ ?_ hquote).trans (congrArg (c :: ·) ih)
    rintro d rest' rfl hd
    cases rest with
    | nil => cases hd
    | cons e rest => exact hslash e rest rfl rfl
  | case9 rest ih => exact congrArg ('\n' :: ·) ih
  | case10 c rest hc ih => exact ih
  | case11 rest ih => exact ih
  | case12 rest ih => exact congrArg ('\n' :: ·) ih
  | case13 c rest hclose hc ih => exact ih

/-- Line ends are kept everywhere. -/
theorem count_newline_stripFrom (w : Within) (text : List Char) :
    (stripFrom w text).count '\n' = text.count '\n' := by
  fun_induction stripFrom w text
  all_goals simp_all [List.count_cons]

/-- A comment loses its slash at least. -/
theorem length_keep_add {isComment : Bool} {text : List Char}
    (h : isComment = true → '/' ∈ text) :
    (keep isComment text).length + (if isComment then 1 else 0) ≤ text.length := by
  cases isComment with
  | false => exact Nat.le_refl _
  | true => exact List.length_filter_lt_length_iff_exists.2 ⟨'/', h rfl, by decide⟩

/-- A segment gets shorter by one character at least if it is a comment. -/
theorem Segment.length_kept_add (x : Segment) :
    x.kept.length + (if x.isComment then 1 else 0) ≤ x.text.length := by
  refine length_keep_add fun h ↦ ?_
  cases x with
  | lineComment | blockComment => exact List.mem_cons_self
  | literal | run => cases h

/-- So does a comment that is left open. -/
theorem Remainder.length_kept_add (x : Remainder) :
    x.kept.length + (if x.isComment then 1 else 0) ≤ x.text.length := by
  refine length_keep_add fun h ↦ ?_
  cases x with
  | lineComment | blockComment => exact List.mem_cons_self
  | nothing | literal => cases h

/-- Some segments get shorter by as many characters as there are comments, at least. -/
theorem length_flatMap_kept_add (segments : List Segment) :
    (segments.flatMap Segment.kept).length + segments.countP Segment.isComment ≤
      (segments.flatMap Segment.text).length := by
  induction segments with
  | nil => exact Nat.le_refl _
  | cons x xs ih =>
    have hx := x.length_kept_add
    rw [List.flatMap_cons, List.flatMap_cons, List.length_append, List.length_append,
      List.countP_cons]
    omega

/-- A text that loses nothing has no comments, however it is laid out. -/
theorem Layout.isPlain_of_kept_eq {l : Layout} (h : l.kept = l.text) : l.IsPlain := by
  have hlength := congrArg List.length h
  rw [kept, text, textOf, List.length_append, List.length_append] at hlength
  have hsegments := length_flatMap_kept_add l.segments
  have hlast := l.last.length_kept_add
  have hnone : l.segments.countP Segment.isComment = 0 := by omega
  refine ⟨fun x hx ↦ Bool.of_not_eq_true (List.countP_eq_zero.1 hnone x hx), ?_⟩
  refine Bool.of_not_eq_true fun hcomment ↦ ?_
  rw [hcomment, if_pos rfl] at hlast
  omega

/-- **Comments are removed once and for all, and lines keep their numbers.** In any text, however
malformed, a second removal finds nothing to do, and there are as many line ends as before. The
result can be laid out in no way that has a comment. -/
theorem stripComments_settles (t : String) :
    stripComments (stripComments t) = stripComments t ∧
      (stripComments t).toList.count '\n' = t.toList.count '\n' ∧
      ∀ l : Layout, .ofList l.text = stripComments t → l.IsPlain := by
  have hagain : stripFrom .code (stripFrom .code t.toList) = stripFrom .code t.toList :=
    stripFrom_stripFrom .code t.toList
  refine ⟨?_, ?_, fun l hl ↦ Layout.isPlain_of_kept_eq ?_⟩
  · rw [stripComments, stripComments, String.toList_ofList, hagain]
  · rw [stripComments, String.toList_ofList, count_newline_stripFrom]
  · have htext : l.text = stripFrom .code t.toList := String.ofList_injective hl
    rw [← stripFrom_text, htext, hagain]

end Json

end HazardTrace
