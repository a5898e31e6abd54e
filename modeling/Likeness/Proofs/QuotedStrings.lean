import Likeness.Toml.Printer
import Likeness.Toml.Quoted
import Mathlib

/-!
# Quoted strings

Every string is read back from the way it is written, whatever characters it has.

* (characters) a character that is written without quotes, as it is or by an escape, is read back
  (`basicRest_charText`, `basicLinesRest_charText`).
* (runs of quotes) between three quotes, a quote stands for itself unless three of them are left to close the string.  So
  what matters is how many quotes the rest of the text starts with (`StartsWith`); the writer keeps runs so short that this is
  never in doubt (`exists_startsWith_basicBody`, `exists_startsWith_of_longestRun`).
* (forms) the two basic forms read back for all strings, the two literal ones for those that are written in them
  (`quoted?_stringText`).
-/

namespace Likeness.Toml

/-- What is read of a text that starts with a character is read after it as well, and the character put in front. -/
@[simp] theorem push_some (c : Char) (string rest : List Char) :
    push (some c) (some (string, rest)) = some (c :: string, rest) := rfl

/-! ### Characters -/

theorem isPlain_of_not_needsEscape {c : Char} (h : needsEscape c = false) (hne : c ≠ '\n') : isPlain c = true := by
  unfold needsEscape at h
  unfold isPlain
  by_cases htab : c = '\t'
  · simp [htab]
  · simp only [htab, hne, ne_eq, not_false_eq_true, decide_true, Bool.and_true, Bool.or_eq_false_iff,
      decide_eq_false_iff_not] at h
    simp only [htab, decide_false, Bool.false_or, Bool.and_eq_true, decide_eq_true_iff]
    omega

private theorem scalar?_hexDigit {c : Char} (h : needsEscape c = true) :
    scalar? ['0', '0', hexDigit (c.toNat / 16), hexDigit (c.toNat % 16)] = some c := by
  have hsmall : c.toNat < 128 := by
    simp only [needsEscape, Bool.or_eq_true, Bool.and_eq_true, decide_eq_true_iff] at h
    omega
  have hall : ∀ n < 128, scalar? ['0', '0', hexDigit (n / 16), hexDigit (n % 16)] = some (Char.ofNat n) := by decide +kernel
  rw [hall c.toNat hsmall, Char.ofNat_toNat]

/-- What a reader does with the text of a character other than a quote: it reads the character and goes on.  It is enough to
know this of the escapes and of the characters that stand for themselves. -/
private theorem read_charText {read : List Char → Option (List Char × List Char)} {lines : Bool}
    (hletter : ∀ c d text, simpleEscape? c = some d → c ≠ 'u' → read ('\\' :: c :: text) = push (some d) (read text))
    (hcode : ∀ c d text, read ('\\' :: 'u' :: '0' :: '0' :: c :: d :: text) = push (scalar? ['0', '0', c, d]) (read text))
    (hlineEnd : lines = true → ∀ text, read ('\n' :: text) = push (some '\n') (read text))
    (hplain : ∀ c text, isPlain c = true → c ≠ '"' → c ≠ '\\' → read (c :: text) = push (some c) (read text))
    {c : Char} (hquote : c ≠ '"') (text : List Char) : read (charText lines c ++ text) = push (some c) (read text) := by
  unfold charText
  split_ifs with hb ht hn hlines hf hr hbackslash hescape
  · rw [hb]
    exact hletter 'b' _ text rfl (by decide)
  · rw [ht]
    exact hletter 't' _ text rfl (by decide)
  · rw [hn]
    exact hlineEnd hlines text
  · rw [hn]
    exact hletter 'n' _ text rfl (by decide)
  · rw [hf]
    exact hletter 'f' _ text rfl (by decide)
  · rw [hr]
    exact hletter 'r' _ text rfl (by decide)
  · rw [hbackslash]
    exact hletter '\\' _ text rfl (by decide)
  · rw [← scalar?_hexDigit hescape]
    exact hcode _ _ text
  · exact hplain c text (isPlain_of_not_needsEscape (Bool.not_eq_true _ ▸ hescape) hn) hquote hbackslash

private theorem basicRest_letter {c d : Char} (text : List Char) (h : simpleEscape? c = some d) (hu : c ≠ 'u') :
    basicRest ('\\' :: c :: text) = push (some d) (basicRest text) := by
  have hU : c ≠ 'U' := by
    rintro rfl
    cases h
  rw [basicRest, h] <;> simp_all

private theorem basicRest_charText {c : Char} (h : c ≠ '"') (text : List Char) :
    basicRest (charText false c ++ text) = push (some c) (basicRest text) := by
  refine read_charText (fun c d text => basicRest_letter text) (fun _ _ _ => rfl) (by simp)
    (fun c text hc hquote hbackslash => ?_) h text
  rw [basicRest, if_pos hc] <;> simp_all

private theorem basicLinesRest_letter {c d : Char} (text : List Char) (h : simpleEscape? c = some d) (hu : c ≠ 'u') :
    basicLinesRest .text ('\\' :: c :: text) = push (some d) (basicLinesRest .text text) := by
  have hne : c ≠ 'U' ∧ c ≠ '\n' ∧ c ≠ '\r' ∧ c ≠ ' ' ∧ c ≠ '\t' := by
    refine ⟨?_, ?_, ?_, ?_, ?_⟩ <;> rintro rfl <;> cases h
  obtain ⟨hU, hn, hr, hspace, htab⟩ := hne
  rw [basicLinesRest, h] <;> simp_all

private theorem basicLinesRest_charText {c : Char} (h : c ≠ '"') (text : List Char) :
    basicLinesRest .text (charText true c ++ text) = push (some c) (basicLinesRest .text text) := by
  refine read_charText (fun c d text => basicLinesRest_letter text) (fun _ _ _ => rfl) (fun _ _ => rfl)
    (fun c text hc hquote hbackslash => ?_) h text
  have hne : c ≠ '\n' ∧ c ≠ '\r' := by
    constructor <;> rintro rfl <;> cases hc
  obtain ⟨hn, hr⟩ := hne
  rw [basicLinesRest, if_pos hc] <;> simp_all

/-- The text of a character starts with this character or a backslash. -/
private theorem exists_charText_eq (lines : Bool) (c : Char) :
    ∃ d more, charText lines c = d :: more ∧ (d = '\\' ∨ (d = c ∧ c ≠ '\r')) := by
  unfold charText
  split_ifs with _ _ hn _ _ hr
  all_goals try exact ⟨_, _, rfl, .inl rfl⟩
  -- what is not escaped is a line end over several lines, or a character that stands for itself
  · exact ⟨_, _, rfl, .inr ⟨hn.symm, hn ▸ by decide⟩⟩
  · exact ⟨_, _, rfl, .inr ⟨rfl, hr⟩⟩

/-! ### Bodies of basic strings -/

section

variable {lines : Bool} {quotes : Nat} (string : List Char)

private theorem basicBody_cons_of_ne {c : Char} (h : c ≠ '"') :
    basicBody lines quotes (c :: string) = charText lines c ++ basicBody lines 0 string := if_neg h

private theorem basicBody_quote_of_false :
    basicBody false quotes ('"' :: string) = '\\' :: '"' :: basicBody false 0 string := by
  simp [basicBody]

private theorem basicBody_quote_of_lt (h : quotes < 2) :
    basicBody true quotes ('"' :: string) = '"' :: basicBody true (quotes + 1) string := by
  simp [basicBody, h]

private theorem basicBody_quote_of_le (h : 2 ≤ quotes) :
    basicBody true quotes ('"' :: string) = '\\' :: '"' :: basicBody true 0 string := by
  simp [basicBody, Nat.not_lt.2 h]

end

/-! ### Strings on one line -/

private theorem basicRest_basicBody (quotes : Nat) (string rest : List Char) :
    basicRest (basicBody false quotes string ++ '"' :: rest) = some (string, rest) := by
  induction string generalizing quotes with
  | nil => rfl
  | cons c string ih =>
    by_cases hquote : c = '"'
    · rw [hquote, basicBody_quote_of_false, List.cons_append, List.cons_append, basicRest_letter _ rfl (by decide), ih,
        push_some]
    · rw [basicBody_cons_of_ne string hquote, List.append_assoc, basicRest_charText hquote, ih, push_some]

private theorem literalRest_append {string : List Char} (h : ∀ c ∈ string, isPlain c = true ∧ c ≠ '\'') (rest : List Char) :
    literalRest (string ++ '\'' :: rest) = some (string, rest) := by
  induction string with
  | nil => rfl
  | cons c string ih =>
    obtain ⟨hplain, hquote⟩ := h c List.mem_cons_self
    rw [List.cons_append, literalRest, if_pos hplain, ih fun d hd => h d (List.mem_cons_of_mem _ hd), push_some]
    exact hquote

/-! ### Runs of quotes -/

/-- A text starts with a number of copies of a character, and not with more. -/
def StartsWith (c : Char) (n : Nat) (text : List Char) : Prop :=
  ∃ rest, text = List.replicate n c ++ rest ∧ rest.head? ≠ some c

private theorem startsWith_zero {c : Char} {text : List Char} (h : text.head? ≠ some c) : StartsWith c 0 text :=
  ⟨text, rfl, h⟩

private theorem StartsWith.cons {c : Char} {n : Nat} {text : List Char} (h : StartsWith c n text) :
    StartsWith c (n + 1) (c :: text) := by
  obtain ⟨rest, rfl, hrest⟩ := h
  exact ⟨rest, rfl, hrest⟩

private theorem startsWith_closing {c : Char} {rest : List Char} (h : rest.head? ≠ some c) :
    StartsWith c 3 (c :: c :: c :: rest) :=
  ⟨rest, rfl, h⟩

/-- What may stand after a quote that belongs to a string between three quotes: no more than one other quote, or the three
that close the string and no more than one before them. -/
def GoesOn (n : Nat) : Prop :=
  n = 0 ∨ n = 1 ∨ n = 3 ∨ n = 4

/-- A reader that closes a string at the last three quotes of a run, and at no fewer than three, reads a quote by itself where
the string goes on after it. -/
private theorem read_quote {read : List Char → Option (List Char × List Char)} {c : Char}
    (hfive : ∀ rest, read (c :: c :: c :: c :: c :: rest) = some ([c, c], rest))
    (hfour : ∀ rest, rest.head? ≠ some c → read (c :: c :: c :: c :: rest) = some ([c], rest))
    (hthree : ∀ rest, rest.head? ≠ some c → read (c :: c :: c :: rest) = some ([], rest))
    (hfew : ∀ text, (∀ rest, text ≠ c :: c :: rest) → read (c :: text) = push (some c) (read text))
    {n : Nat} {text : List Char} (h : StartsWith c n text) (hn : GoesOn n) :
    read (c :: text) = push (some c) (read text) := by
  obtain ⟨rest, rfl, hrest⟩ := h
  rcases hn with rfl | rfl | rfl | rfl
  · refine hfew rest ?_
    rintro more rfl
    exact hrest rfl
  · refine hfew (c :: rest) fun more hsame => hrest ?_
    rw [(List.cons.inj hsame).2]
    rfl
  · exact (hfour rest hrest).trans (congrArg (push (some c)) (hthree rest hrest)).symm
  · exact (hfive rest).trans (congrArg (push (some c)) (hfour rest hrest)).symm

section

variable {rest : List Char}

private theorem basicLinesRest_four (h : rest.head? ≠ some '"') :
    basicLinesRest .text ('"' :: '"' :: '"' :: '"' :: rest) = some (['"'], rest) := by
  cases rest with
  | nil => rfl
  | cons c rest => rw [basicLinesRest] <;> simp_all

private theorem basicLinesRest_three (h : rest.head? ≠ some '"') :
    basicLinesRest .text ('"' :: '"' :: '"' :: rest) = some ([], rest) := by
  cases rest with
  | nil => rfl
  | cons c rest => rw [basicLinesRest] <;> simp_all

private theorem basicLinesRest_quote {n : Nat} {text : List Char} (h : StartsWith '"' n text) (hn : GoesOn n) :
    basicLinesRest .text ('"' :: text) = push (some '"') (basicLinesRest .text text) := by
  refine read_quote (fun _ => rfl) (fun _ => basicLinesRest_four) (fun _ => basicLinesRest_three)
    (fun text hfew => ?_) h hn
  rw [basicLinesRest, if_pos (by decide)] <;> simp_all

private theorem literalLinesRest_four (h : rest.head? ≠ some '\'') :
    literalLinesRest ('\'' :: '\'' :: '\'' :: '\'' :: rest) = some (['\''], rest) := by
  cases rest with
  | nil => rfl
  | cons c rest =>
    rw [literalLinesRest]
    exact fun _ hsame => h (congrArg List.head? hsame)

private theorem literalLinesRest_three (h : rest.head? ≠ some '\'') :
    literalLinesRest ('\'' :: '\'' :: '\'' :: rest) = some ([], rest) := by
  cases rest with
  | nil => rfl
  | cons c rest => rw [literalLinesRest] <;> simp_all

private theorem literalLinesRest_quote {n : Nat} {text : List Char} (h : StartsWith '\'' n text) (hn : GoesOn n) :
    literalLinesRest ('\'' :: text) = push (some '\'') (literalLinesRest text) := by
  refine read_quote (fun _ => rfl) (fun _ => literalLinesRest_four) (fun _ => literalLinesRest_three)
    (fun text hfew => ?_) h hn
  rw [literalLinesRest, if_pos (by decide)] <;> simp_all

end

/-! ### Strings over several lines -/

section

variable {rest : List Char}

/-- After some quotes of a string there are so few left that two are not passed, or they are followed by the closing ones. -/
private theorem exists_startsWith_basicBody (hrest : rest.head? ≠ some '"') (string : List Char) {quotes : Nat}
    (hquotes : quotes ≤ 2) :
    ∃ n, StartsWith '"' n (basicBody true quotes string ++ '"' :: '"' :: '"' :: rest) ∧
      (n + quotes ≤ 2 ∨ (3 ≤ n ∧ n + quotes ≤ 5)) := by
  induction string generalizing quotes with
  | nil => exact ⟨3, startsWith_closing hrest, .inr ⟨le_rfl, by omega⟩⟩
  | cons c string ih =>
    by_cases hquote : c = '"'
    · rcases Nat.lt_or_ge quotes 2 with hfew | hmany
      · obtain ⟨n, hstarts, hn⟩ := @ih (quotes + 1) (by omega)
        rw [hquote, basicBody_quote_of_lt string hfew]
        exact ⟨n + 1, hstarts.cons, by omega⟩
      · rw [hquote, basicBody_quote_of_le string hmany]
        exact ⟨0, startsWith_zero (by simp), .inl (by omega)⟩
    · obtain ⟨d, more, hcons, hd⟩ := exists_charText_eq true c
      have hne : d ≠ '"' := by
        rcases hd with rfl | ⟨rfl, _⟩
        · decide
        · exact hquote
      rw [basicBody_cons_of_ne string hquote, hcons]
      exact ⟨0, startsWith_zero (by simpa using hne), .inl (by omega)⟩

private theorem basicLinesRest_basicBody (hrest : rest.head? ≠ some '"') (string : List Char) {quotes : Nat}
    (hquotes : quotes ≤ 2) :
    basicLinesRest .text (basicBody true quotes string ++ '"' :: '"' :: '"' :: rest) = some (string, rest) := by
  induction string generalizing quotes with
  | nil => exact basicLinesRest_three hrest
  | cons c string ih =>
    by_cases hquote : c = '"'
    · rcases Nat.lt_or_ge quotes 2 with hfew | hmany
      · obtain ⟨n, hstarts, hn⟩ := @exists_startsWith_basicBody rest hrest string (quotes + 1) (by omega)
        have hgoesOn : GoesOn n := by
          unfold GoesOn
          omega
        rw [hquote, basicBody_quote_of_lt string hfew, List.cons_append, basicLinesRest_quote hstarts hgoesOn,
          ih (by omega), push_some]
      · rw [hquote, basicBody_quote_of_le string hmany, List.cons_append, List.cons_append,
          basicLinesRest_letter _ rfl (by decide), ih (by omega), push_some]
    · rw [basicBody_cons_of_ne string hquote, List.append_assoc, basicLinesRest_charText hquote, ih (by omega), push_some]

private theorem longestRun_cons_self (c : Char) (run : Nat) (text : List Char) :
    longestRun c run (c :: text) = longestRun c (run + 1) text := if_pos rfl

private theorem longestRun_cons_of_ne {c d : Char} (h : d ≠ c) (run : Nat) (text : List Char) :
    longestRun c run (d :: text) = max run (longestRun c 0 text) := if_neg h

private theorem le_longestRun (c : Char) (run : Nat) (text : List Char) : run ≤ longestRun c run text := by
  induction text generalizing run with
  | nil => exact le_rfl
  | cons d text ih =>
    by_cases h : d = c
    · rw [h, longestRun_cons_self]
      exact (Nat.le_succ run).trans (ih (run + 1))
    · rw [longestRun_cons_of_ne h]
      exact le_max_left _ _

private theorem exists_startsWith_of_longestRun {c : Char} (hrest : rest.head? ≠ some c) (string : List Char) {run : Nat}
    (h : longestRun c run string ≤ 2) :
    ∃ n, StartsWith c n (string ++ c :: c :: c :: rest) ∧ (n + run ≤ 2 ∨ (3 ≤ n ∧ n + run ≤ 5)) := by
  have hrun := (le_longestRun c run string).trans h
  induction string generalizing run with
  | nil => exact ⟨3, startsWith_closing hrest, .inr ⟨le_rfl, by omega⟩⟩
  | cons d string ih =>
    by_cases hd : d = c
    · rw [hd, longestRun_cons_self] at h
      obtain ⟨n, hstarts, hn⟩ := ih h ((le_longestRun c _ string).trans h)
      rw [hd]
      exact ⟨n + 1, hstarts.cons, by omega⟩
    · exact ⟨0, startsWith_zero (by simpa using hd), .inl (by omega)⟩

private theorem literalLinesRest_append (hrest : rest.head? ≠ some '\'') {string : List Char}
    (hplain : ∀ c ∈ string, needsEscape c = false) {run : Nat} (h : longestRun '\'' run string ≤ 2) :
    literalLinesRest (string ++ '\'' :: '\'' :: '\'' :: rest) = some (string, rest) := by
  induction string generalizing run with
  | nil => exact literalLinesRest_three hrest
  | cons c string ih =>
    have hmore : ∀ d ∈ string, needsEscape d = false := fun d hd => hplain d (List.mem_cons_of_mem _ hd)
    have hescape := hplain c List.mem_cons_self
    by_cases hquote : c = '\''
    · rw [hquote, longestRun_cons_self] at h
      obtain ⟨n, hstarts, hn⟩ := exists_startsWith_of_longestRun hrest string h
      have hgoesOn : GoesOn n := by
        unfold GoesOn
        omega
      rw [hquote, List.cons_append, literalLinesRest_quote hstarts hgoesOn, ih hmore h, push_some]
    · rw [longestRun_cons_of_ne hquote] at h
      have hread := ih hmore ((le_max_right _ _).trans h)
      by_cases hlineEnd : c = '\n'
      · rw [hlineEnd, List.cons_append, literalLinesRest, hread, push_some]
      · have hr : c ≠ '\r' := by
          rintro rfl
          cases hescape
        rw [List.cons_append, literalLinesRest, if_pos (isPlain_of_not_needsEscape hescape hlineEnd), hread, push_some] <;>
          simp_all

end

/-! ### Forms -/

private theorem not_needsEscape_of_mem {string : List Char} (h : string.any needsEscape = false) :
    ∀ c ∈ string, needsEscape c = false := by
  simpa using h

private theorem ne_of_longestRun {c : Char} {string : List Char} (h : longestRun c 0 string = 0) : ∀ d ∈ string, d ≠ c := by
  induction string with
  | nil => simp
  | cons d string ih =>
    by_cases hd : d = c
    · rw [hd, longestRun_cons_self] at h
      have := le_longestRun c (0 + 1) string
      omega
    · rw [longestRun_cons_of_ne hd] at h
      intro e he
      rcases List.mem_cons.1 he with rfl | he
      · exact hd
      · exact ih (by omega) e he

/-- What the form of a string says about it. -/
private theorem formOf_spec (string : List Char) :
    match formOf string with
    | .basic => True
    | .literal => ∀ c ∈ string, isPlain c = true ∧ c ≠ '\''
    | .basicLines => True
    | .literalLines => (∀ c ∈ string, needsEscape c = false) ∧ longestRun '\'' 0 string ≤ 2 := by
  unfold formOf
  dsimp only
  split_ifs with hbasic hliteral hbasicLines hliteralLines
  · trivial
  · obtain ⟨hescapes, hsingles, hlines⟩ := hliteral
    rw [Bool.not_eq_true'] at hescapes hlines
    intro c hc
    have hn : c ≠ '\n' := by
      rintro rfl
      rw [List.contains_eq_mem, decide_eq_false_iff_not] at hlines
      exact hlines hc
    exact ⟨isPlain_of_not_needsEscape (not_needsEscape_of_mem hescapes c hc) hn, ne_of_longestRun hsingles c hc⟩
  · trivial
  · obtain ⟨hescapes, hsingles⟩ := hliteralLines
    rw [Bool.not_eq_true'] at hescapes
    exact ⟨not_needsEscape_of_mem hescapes, hsingles⟩
  · trivial
  · trivial

private theorem dropLineEnd_eq {text : List Char} (hn : text.head? ≠ some '\n') (hr : text.head? ≠ some '\r') :
    dropLineEnd text = text := by
  rw [dropLineEnd]
  · rintro _ rfl
    exact hn rfl
  · rintro _ rfl
    exact hr rfl

/-- The line end that a string with line ends starts after is dropped, and nothing else is. -/
private theorem dropLineEnd_opening {string body : List Char}
    (h : '\n' ∉ string → body.head? ≠ some '\n' ∧ body.head? ≠ some '\r') :
    dropLineEnd ((if string.contains '\n' then ['\n'] else []) ++ body) = body := by
  by_cases hlines : '\n' ∈ string
  · rw [List.contains_eq_mem, decide_eq_true hlines]
    rfl
  · rw [List.contains_eq_mem, decide_eq_false hlines]
    exact dropLineEnd_eq (h hlines).1 (h hlines).2

section

variable {c : Char} {string : List Char} (rest : List Char)

private theorem quoted?_basic (hc : c ≠ '"') :
    quoted? ('"' :: (basicBody false 0 string ++ '"' :: c :: rest)) = some (string, c :: rest) := by
  have hread := basicRest_basicBody 0 string (c :: rest)
  rw [quoted?, quotedOnLine?, hread]
  · -- three quotes could only come from a body that starts with one
    intro text hsame
    have hbody := (List.cons.inj hsame).2
    cases string with
    | nil => exact hc (List.cons.inj (List.cons.inj hbody).2).1
    | cons d string =>
      by_cases hquote : d = '"'
      · rw [hquote, basicBody_quote_of_false] at hbody
        exact absurd (List.cons.inj hbody).1 (by decide)
      · obtain ⟨e, more, hcons, he⟩ := exists_charText_eq false d
        rw [basicBody_cons_of_ne string hquote, hcons] at hbody
        have hfirst : e = '"' := (List.cons.inj hbody).1
        rcases he with rfl | ⟨rfl, _⟩
        · exact absurd hfirst (by decide)
        · exact hquote hfirst
  · rintro _ ⟨⟩

private theorem quoted?_literal (hc : c ≠ '\'') (h : ∀ d ∈ string, isPlain d = true ∧ d ≠ '\'') :
    quoted? ('\'' :: (string ++ '\'' :: c :: rest)) = some (string, c :: rest) := by
  have hread := literalRest_append h (c :: rest)
  rw [quoted?, quotedOnLine?, hread]
  · rintro _ ⟨⟩
  · intro text hsame
    have hbody := (List.cons.inj hsame).2
    cases string with
    | nil => exact hc (List.cons.inj (List.cons.inj hbody).2).1
    | cons d string => exact (h d List.mem_cons_self).2 (List.cons.inj hbody).1

private theorem quoted?_basicLines (hc : c ≠ '"') :
    quoted? ('"' :: '"' :: '"' :: ((if string.contains '\n' then ['\n'] else []) ++
      (basicBody true 0 string ++ '"' :: '"' :: '"' :: c :: rest))) = some (string, c :: rest) := by
  have hrest : (c :: rest).head? ≠ some '"' := by simpa using hc
  have hread := @basicLinesRest_basicBody _ hrest string 0 (by decide)
  rw [quoted?, dropLineEnd_opening, hread]
  intro hlines
  cases string with
  | nil => exact ⟨by simp [basicBody], by simp [basicBody]⟩
  | cons d string =>
    have hd : d ≠ '\n' := fun hsame => hlines (hsame ▸ List.mem_cons_self)
    by_cases hquote : d = '"'
    · rw [hquote, basicBody_quote_of_lt string two_pos]
      exact ⟨by simp, by simp⟩
    · obtain ⟨e, more, hcons, he⟩ := exists_charText_eq true d
      rw [basicBody_cons_of_ne string hquote, hcons]
      rcases he with rfl | ⟨rfl, hr⟩
      · exact ⟨by simp, by simp⟩
      · exact ⟨by simpa using hd, by simpa using hr⟩

private theorem quoted?_literalLines (hc : c ≠ '\'') (hplain : ∀ d ∈ string, needsEscape d = false)
    (hrun : longestRun '\'' 0 string ≤ 2) :
    quoted? ('\'' :: '\'' :: '\'' :: ((if string.contains '\n' then ['\n'] else []) ++
      (string ++ '\'' :: '\'' :: '\'' :: c :: rest))) = some (string, c :: rest) := by
  have hrest : (c :: rest).head? ≠ some '\'' := by simpa using hc
  have hread := literalLinesRest_append hrest hplain hrun
  rw [quoted?, dropLineEnd_opening, hread]
  intro hlines
  cases string with
  | nil => exact ⟨by simp, by simp⟩
  | cons d string =>
    have hd : d ≠ '\n' := fun hsame => hlines (hsame ▸ List.mem_cons_self)
    have hr : d ≠ '\r' := by
      rintro rfl
      cases hplain '\r' List.mem_cons_self
    exact ⟨by simpa using hd, by simpa using hr⟩

/-- A string is read back from the way it is written, if no quote comes after it. -/
theorem quoted?_stringText (hdouble : c ≠ '"') (hsingle : c ≠ '\'') (string : List Char) :
    quoted? (stringText string ++ c :: rest) = some (string, c :: rest) := by
  have hspec := formOf_spec string
  unfold stringText
  cases hform : formOf string with
  | basic => simpa using quoted?_basic rest hdouble
  | literal =>
    rw [hform] at hspec
    simpa using quoted?_literal rest hsingle hspec
  | basicLines => simpa using quoted?_basicLines rest hdouble
  | literalLines =>
    rw [hform] at hspec
    simpa using quoted?_literalLines rest hsingle hspec.1 hspec.2

end

/-- The text of a string starts with a quote. -/
theorem exists_stringText_cons (string : List Char) : ∃ c text, stringText string = c :: text ∧ (c = '"' ∨ c = '\'') := by
  unfold stringText
  cases formOf string
  · exact ⟨_, _, rfl, .inl rfl⟩
  · exact ⟨_, _, rfl, .inr rfl⟩
  · exact ⟨_, _, rfl, .inl rfl⟩
  · exact ⟨_, _, rfl, .inr rfl⟩

end Likeness.Toml
