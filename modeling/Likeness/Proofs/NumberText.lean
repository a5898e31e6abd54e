import Likeness.Proofs.DecimalReading
import Likeness.Proofs.Signs
import Likeness.Toml.Printer
import Likeness.Toml.Scalar

/-!
# Numbers as text

A finite double that is written in a document is read back as the same double, to the last bit.

* (digits) the digits before and after the point are those of one whole number, which the reader gets back
  (`exists_splitDigits_eq`).
* (decimals) `written` is the decimal that is read for the one that was written; both have the same value
  (`nearestMagnitude_written`).
* (values) the text of a number is neither a string nor a date nor a time (`moment?_append`), so that the number is read back
  (`plainValue?_numberText`).
-/

namespace Likeness.Toml

/-! ### Digits -/

private theorem hexDigit?_of_isDigit {c : Char} (h : c.isDigit = true) : (hexDigit? c).getD 0 = c.toNat - '0'.toNat := by
  have hbounds : '0' ≤ c ∧ c ≤ '9' := by
    rw [Char.isDigit, Bool.and_eq_true, decide_eq_true_iff, decide_eq_true_iff] at h
    exact h
  rw [hexDigit?, if_pos hbounds, Option.getD_some]

private theorem valueOf_eq_ofDigitChars {digits : List Char} (h : ∀ c ∈ digits, c.isDigit = true) :
    valueOf 10 digits = Nat.ofDigitChars 10 digits 0 := by
  have hstep : ∀ start, digits.foldl (fun n c => 10 * n + (hexDigit? c).getD 0) start =
      digits.foldl (fun n c => 10 * n + (c.toNat - '0'.toNat)) start := by
    induction digits with
    | nil => exact fun _ => rfl
    | cons c digits ih =>
      intro start
      rw [List.foldl_cons, List.foldl_cons, hexDigit?_of_isDigit (h c List.mem_cons_self)]
      exact ih (fun d hd => h d (List.mem_cons_of_mem _ hd)) _
  exact hstep 0

theorem isDigit_of_mem_digitsOf {n : Nat} {c : Char} (h : c ∈ digitsOf n) : c.isDigit = true :=
  Nat.isDigit_of_mem_toDigits (by decide) (by decide) h

private theorem valueOf_leftpad (width n : Nat) : valueOf 10 ((digitsOf n).leftpad width '0') = n := by
  have hzeros : ∀ k, (List.replicate k '0').foldl (fun n c => 10 * n + (hexDigit? c).getD 0) 0 = 0 := fun k => by
    induction k with
    | zero => rfl
    | succ k ih => exact ih
  rw [List.leftpad, valueOf, List.foldl_append, hzeros]
  change valueOf 10 (digitsOf n) = n
  rw [valueOf_eq_ofDigitChars fun c => isDigit_of_mem_digitsOf]
  exact Nat.ofDigitChars_ten_toDigits

private theorem head_digitsOf_ne {n : Nat} (h : n ≠ 0) : (digitsOf n).head? ≠ some '0' := by
  induction n using Nat.strongRecOn with
  | ind n ih =>
    unfold digitsOf at ih ⊢
    by_cases hsmall : n < 10
    · rw [Nat.toDigits_of_lt_base hsmall]
      interval_cases n <;> first | exact absurd rfl h | decide
    · rw [Nat.toDigits_of_base_le (by decide) (by omega), List.head?_append_of_ne_nil _ Nat.toDigits_ne_nil]
      exact ih (n / 10) (by omega) (by omega)

/-- Some digits, and nothing else, as they stand after the point. -/
structure IsDigits (digits : List Char) : Prop where
  isDigit : ∀ c ∈ digits, c.isDigit = true
  ne_nil : digits ≠ []

/-- The digits before the point: the first is no zero unless it is the only one. -/
structure IsWhole (digits : List Char) : Prop extends IsDigits digits where
  zero : digits.head? = some '0' → digits = ['0']

private theorem isDigit_of_mem_leftpad {width n : Nat} {c : Char} (h : c ∈ (digitsOf n).leftpad width '0') :
    c.isDigit = true := by
  rw [List.leftpad, List.mem_append] at h
  rcases h with h | h
  · rw [List.eq_of_mem_replicate h]
    rfl
  · exact isDigit_of_mem_digitsOf h

/-- What stands before the last places of a number that has been filled up to one digit more than them. -/
private theorem isWhole_take {n places : Nat} {digits : List Char} (h : digits = (digitsOf n).leftpad (places + 1) '0') :
    IsWhole (digits.take (digits.length - places)) := by
  have hlength : digits.length = max (places + 1) (digitsOf n).length := by rw [h, List.length_leftpad]
  refine ⟨⟨fun c hc => isDigit_of_mem_leftpad (h ▸ List.mem_of_mem_take hc), ?_⟩, fun hhead => ?_⟩
  · refine List.ne_nil_of_length_pos ?_
    rw [List.length_take]
    omega
  · by_cases hlong : places + 1 < (digitsOf n).length
    · -- there is nothing to fill up, and the first digit is that of the number
      have hsame : digits = digitsOf n := by
        rw [h, List.leftpad, Nat.sub_eq_zero_of_le hlong.le]
        rfl
      have hne : n ≠ 0 := by
        rintro rfl
        exact absurd hlong (Nat.not_lt.2 (Nat.le_add_left 1 places))
      rw [List.head?_take, if_neg (by omega), hsame] at hhead
      exact absurd hhead (head_digitsOf_ne hne)
    · -- the digits are filled up, and only one stands before the places
      have hone : digits.length - places = 1 := by omega
      obtain ⟨c, rest, hcons⟩ := List.exists_cons_of_ne_nil (List.ne_nil_of_length_pos (by omega : 0 < digits.length))
      rw [hone, hcons] at hhead ⊢
      rw [List.take_succ_cons, List.head?_cons, Option.some.injEq] at hhead
      rw [hhead]
      rfl

/-- Cutting the digits of a number gives digits of the two kinds, which are those of the number. -/
theorem exists_splitDigits_eq (n places : Nat) : ∃ whole fraction, splitDigits n places = (whole, fraction) ∧
    IsWhole whole ∧ (∀ c ∈ fraction, c.isDigit = true) ∧ fraction.length = places ∧ valueOf 10 (whole ++ fraction) = n := by
  obtain ⟨digits, hdigits⟩ : ∃ digits, digits = (digitsOf n).leftpad (places + 1) '0' := ⟨_, rfl⟩
  refine ⟨digits.take (digits.length - places), digits.drop (digits.length - places), ?_, isWhole_take hdigits, ?_, ?_, ?_⟩
  · rw [splitDigits, ← hdigits]
    exact List.splitAt_eq
  · exact fun c hc => isDigit_of_mem_leftpad (hdigits ▸ List.mem_of_mem_drop hc)
  · have hlength : places + 1 ≤ digits.length := by
      rw [hdigits, List.length_leftpad]
      exact le_max_left _ _
    rw [List.length_drop]
    omega
  · rw [List.take_append_drop, hdigits, valueOf_leftpad]

/-! ### Reading digits -/

private theorem ne_of_isDigit {c d : Char} (hc : c.isDigit = true) (hd : d.isDigit = false) : c ≠ d := by
  rintro rfl
  rw [hc] at hd
  cases hd

private theorem moreDigits_append {digits : List Char} (h : ∀ c ∈ digits, c.isDigit = true) {c : Char}
    (hc : c.isDigit = false) (hne : c ≠ '_') (rest : List Char) :
    moreDigits Char.isDigit (digits ++ c :: rest) = (digits, c :: rest) := by
  induction digits with
  | nil =>
    rw [List.nil_append, moreDigits, if_neg (Bool.eq_false_iff.1 hc)]
    exact fun _ _ hsame _ => hne hsame
  | cons d digits ih =>
    have hd := h d List.mem_cons_self
    rw [List.cons_append, moreDigits, if_pos hd, ih fun c hc => h c (List.mem_cons_of_mem _ hc)]
    exact fun _ _ hsame _ => ne_of_isDigit hd rfl hsame

private theorem digits?_append {digits : List Char} (h : IsDigits digits) {c : Char} (hc : c.isDigit = false)
    (hne : c ≠ '_') (rest : List Char) : digits? Char.isDigit (digits ++ c :: rest) = some (digits, c :: rest) := by
  obtain ⟨d, more, rfl⟩ := List.exists_cons_of_ne_nil h.ne_nil
  rw [List.cons_append, digits?, if_pos (h.isDigit d List.mem_cons_self),
    moreDigits_append (fun c hc => h.isDigit c (List.mem_cons_of_mem _ hc)) hc hne]

private theorem wholeDigits?_append {digits : List Char} (h : IsWhole digits) {c : Char} (hc : c.isDigit = false)
    (hne : c ≠ '_') (rest : List Char) : wholeDigits? (digits ++ c :: rest) = some (digits, c :: rest) := by
  by_cases hzero : digits.head? = some '0'
  · rw [h.zero hzero]
    rfl
  · rw [wholeDigits?, digits?_append h.toIsDigits hc hne]
    intro text hsame
    obtain ⟨d, more, rfl⟩ := List.exists_cons_of_ne_nil h.ne_nil
    rw [List.cons_append, List.cons.injEq] at hsame
    exact hzero (congrArg some hsame.1)

/-- Digits, a point and more digits are read as the decimal that they write. -/
theorem decimal?_append (negative : Bool) {whole places : List Char} (hwhole : IsWhole whole) (hplaces : IsDigits places)
    (hfinite : (Decimal.mk (valueOf 10 (whole ++ places)) (-places.length)).nearestMagnitude ≠ Magnitude.infinity)
    (rest : List Char) :
    decimal? negative (whole ++ '.' :: (places ++ '\n' :: rest)) =
      some (.float (Decimal.toFloat negative ⟨valueOf 10 (whole ++ places), -places.length⟩), '\n' :: rest) := by
  have hexponent : exponent? ('\n' :: rest) = some (none, '\n' :: rest) := rfl
  rw [decimal?, wholeDigits?_append hwhole rfl (by decide)]
  simp only [Option.bind_eq_bind, Option.bind_some, fraction?, digits?_append hplaces (c := '\n') rfl (by decide),
    hexponent, hplaces.ne_nil, false_and, if_false, Option.getD_none, Int.zero_sub, hfinite]
  rfl

/-! ### Values -/

private theorem after?_append {c : Char} (hdigit : c.isDigit = false) (hpoint : c ≠ '.') {digits : List Char}
    (h : ∀ d ∈ digits, d.isDigit = true) (more : List Char) : after? c (digits ++ '.' :: more) = none := by
  cases digits with
  | nil => exact if_neg hpoint.symm
  | cons d digits => exact if_neg (ne_of_isDigit (h d List.mem_cons_self) hdigit)

private theorem twoDigits?_cons {c : Char} (h : c.isDigit = false) (text : List Char) : twoDigits? (c :: text) = none := by
  cases text with
  | nil => rfl
  | cons d text => simp [twoDigits?, h]

/-- Two digits are read off more digits and a point, unless there is only one digit. -/
private theorem twoDigits?_append {digits : List Char} (h : ∀ c ∈ digits, c.isDigit = true) (more : List Char) :
    twoDigits? (digits ++ '.' :: more) = none ∨
      ∃ n rest, (∀ c ∈ rest, c.isDigit = true) ∧ twoDigits? (digits ++ '.' :: more) = some (n, rest ++ '.' :: more) := by
  match digits with
  | [] => exact .inl (twoDigits?_cons rfl more)
  | [a] => exact .inl (if_neg fun hboth => absurd hboth.2 (by decide))
  | a :: b :: rest =>
    have ha := h a List.mem_cons_self
    have hb := h b (List.mem_cons_of_mem _ List.mem_cons_self)
    exact .inr ⟨_, rest, fun c hc => h c (List.mem_cons_of_mem _ (List.mem_cons_of_mem _ hc)), if_pos ⟨ha, hb⟩⟩

private theorem moment?_append {digits : List Char} (h : ∀ c ∈ digits, c.isDigit = true) (more : List Char) :
    moment? (digits ++ '.' :: more) = none := by
  have hdate : date? (digits ++ '.' :: more) = none := by
    unfold date?
    rcases twoDigits?_append h more with hnone | ⟨n, rest, hrest, hsome⟩
    · rw [hnone]
      rfl
    · rw [hsome, Option.bind_eq_bind, Option.bind_some]
      dsimp only
      rcases twoDigits?_append hrest more with hnone | ⟨n, rest, hrest, hsome⟩
      · rw [hnone]
        rfl
      · rw [hsome, Option.bind_eq_bind, Option.bind_some]
        dsimp only
        rw [after?_append rfl (by decide) hrest]
        rfl
  have htime : time? (digits ++ '.' :: more) = none := by
    unfold time?
    rcases twoDigits?_append h more with hnone | ⟨n, rest, hrest, hsome⟩
    · rw [hnone]
      rfl
    · rw [hsome, Option.bind_eq_bind, Option.bind_some]
      dsimp only
      rw [after?_append rfl (by decide) hrest]
      rfl
  rw [moment?, hdate, htime]

private theorem moment?_minus (text : List Char) : moment? ('-' :: text) = none := by
  rw [moment?, date?, time?, twoDigits?_cons rfl]
  rfl

/-- What starts like a number and is no date or time is read as a number. -/
private theorem plainValue?_of_number {c : Char} {text : List Char} (hc : c.isDigit = true ∨ c = '-')
    (hmoment : moment? (c :: text) = none) : plainValue? (c :: text) = number? (c :: text) := by
  have hne : ∀ {d : Char}, d.isDigit = false → d ≠ '-' → c ≠ d := fun hdigit hminus => by
    rcases hc with hc | rfl
    · exact ne_of_isDigit hc hdigit
    · exact hminus.symm
  have hquoted : quoted? (c :: text) = none := by
    rw [quoted?, quotedOnLine?]
    all_goals
      intro text hsame
      rw [List.cons.injEq] at hsame
      exact hne rfl (by decide) hsame.1
  rw [plainValue?, hquoted, hmoment]
  all_goals
    intro text hsame
    rw [List.cons.injEq] at hsame
    exact hne rfl (by decide) hsame.1

private theorem number?_append {digits : List Char} (h : IsDigits digits) (more : List Char) :
    number? (digits ++ '.' :: more) = decimal? false (digits ++ '.' :: more) ∧
      ∀ negative, unsignedNumber? negative (digits ++ '.' :: more) = decimal? negative (digits ++ '.' :: more) := by
  obtain ⟨c, digits, rfl⟩ := List.exists_cons_of_ne_nil h.ne_nil
  have hc := h.isDigit c List.mem_cons_self
  have hunsigned : ∀ negative, unsignedNumber? negative (c :: digits ++ '.' :: more) =
      decimal? negative (c :: digits ++ '.' :: more) := fun negative => by
    rw [unsignedNumber?]
    all_goals
      intro text hsame
      rw [List.cons_append, List.cons.injEq] at hsame
      exact ne_of_isDigit hc rfl hsame.1
  have hnext : ∀ {d : Char} {text : List Char}, d.isDigit = false → d ≠ '.' → digits ++ '.' :: more ≠ d :: text := by
    intro d text hdigit hpoint hsame
    cases digits with
    | nil => exact hpoint (List.cons.inj hsame).1.symm
    | cons e digits =>
      exact ne_of_isDigit (h.isDigit e (List.mem_cons_of_mem _ List.mem_cons_self)) hdigit (List.cons.inj hsame).1
  refine ⟨?_, hunsigned⟩
  -- the first character is no sign, and the second does not name a base
  rw [number?, hunsigned]
  · exact fun text hsame => ne_of_isDigit hc rfl (List.cons.inj hsame).1
  · exact fun text hsame => ne_of_isDigit hc rfl (List.cons.inj hsame).1
  · exact fun text hsame => hnext rfl (by decide) (List.cons.inj hsame).2
  · exact fun text hsame => hnext rfl (by decide) (List.cons.inj hsame).2
  · exact fun text hsame => hnext rfl (by decide) (List.cons.inj hsame).2

/-- A decimal as it is read after it has been written out in full: a whole number gets a place after the point. -/
def written (d : Decimal) : Decimal :=
  if 0 ≤ d.exponent then ⟨d.digits * 10 ^ d.exponent.toNat * 10, -1⟩ else d

/-- The place that a whole number gets does not change its value. -/
private theorem nearestMagnitude_written {d : Decimal} (h : d.nearestMagnitude ≠ Magnitude.infinity) :
    (written d).nearestMagnitude = d.nearestMagnitude := by
  unfold written
  split
  · next hexponent =>
    rcases eq_or_ne d.digits 0 with hzero | hne
    · have hzeros : d.digits * 10 ^ d.exponent.toNat * 10 = 0 := by rw [hzero, Nat.zero_mul, Nat.zero_mul]
      rw [Decimal.nearestMagnitude, Decimal.nearestMagnitude, if_pos hzero, if_pos hzeros]
    · have hlarge : d.exponent ≤ 400 := by
        by_contra hgt
        exact h (by rw [Decimal.nearestMagnitude, if_neg hne, if_pos (Int.not_le.1 hgt)])
      have hpos : 0 < d.digits * 10 ^ d.exponent.toNat :=
        Nat.mul_pos (Nat.pos_of_ne_zero hne) (Nat.pow_pos (by decide))
      have hwritten := @Decimal.nearestMagnitude_eq ⟨d.digits * 10 ^ d.exponent.toNat * 10, -1⟩
        (Nat.mul_pos hpos (by decide)).ne' (by dsimp only; omega) (by dsimp only; omega)
      have hten : Decimal.tenPow d.exponent = (10 ^ d.exponent.toNat, 1) := by
        rw [Decimal.tenPow, (by omega : (-d.exponent).toNat = 0)]
        rfl
      rw [hwritten, Decimal.nearestMagnitude_eq hne hlarge (by omega), hten]
      dsimp only [Decimal.tenPow]
      have hnum : Nat.pow 10 (-1 : Int).toNat = 1 := rfl
      have hden : Nat.pow 10 (-(-1) : Int).toNat = 10 := rfl
      rw [hnum, hden]
      exact Magnitude.nearest_congr (by omega) (by decide) (by omega) (by decide) (by omega)
  · rfl

private theorem exists_writePlain_eq (d : Decimal) : ∃ whole places, numberStyle.writePlain d = whole ++ '.' :: places ∧
    IsWhole whole ∧ IsDigits places ∧ Decimal.mk (valueOf 10 (whole ++ places)) (-places.length) = written d := by
  obtain ⟨whole, fraction, hsplit, hwhole, hfraction, hlength, hvalue⟩ :=
    exists_splitDigits_eq (d.digits * Nat.pow 10 d.exponent.toNat) (-d.exponent).toNat
  unfold NumberStyle.writePlain written
  rw [hsplit]
  dsimp only
  by_cases hexponent : 0 ≤ d.exponent
  · obtain rfl : fraction = [] := List.eq_nil_of_length_eq_zero (by omega)
    rw [List.append_nil] at hvalue
    have hten : valueOf 10 (whole ++ ['0']) = d.digits * 10 ^ d.exponent.toNat * 10 := by
      have hlast : valueOf 10 (whole ++ ['0']) = 10 * valueOf 10 whole := by
        rw [valueOf, List.foldl_append]
        rfl
      rw [hlast, hvalue, Nat.mul_comm]
      rfl
    refine ⟨whole, ['0'], rfl, hwhole, ⟨by simp, by simp⟩, ?_⟩
    rw [if_pos hexponent, hten]
    rfl
  · have hne : fraction ≠ [] := List.ne_nil_of_length_pos (by omega)
    have hdigits : valueOf 10 (whole ++ fraction) = d.digits := by
      rw [hvalue, (by omega : d.exponent.toNat = 0)]
      exact Nat.mul_one _
    refine ⟨whole, fraction, ?_, hwhole, ⟨hfraction, hne⟩, ?_⟩
    · rw [if_neg (by simpa using hne)]
    · rw [if_neg hexponent, hdigits, hlength, Int.toNat_of_nonneg (by omega), Int.neg_neg]

/-- The text of a finite double: a sign if it has one, digits, a point and digits, which write a decimal that reads back. -/
private theorem exists_numberText_eq {x : Float} (h : Magnitude.ofFloat x < Magnitude.infinity) :
    ∃ whole places, numberText x = (if isNegative x then ['-'] else []) ++ (whole ++ '.' :: places) ∧
      IsWhole whole ∧ IsDigits places ∧
      (Decimal.mk (valueOf 10 (whole ++ places)) (-places.length)).nearestMagnitude = Magnitude.ofFloat x := by
  obtain ⟨whole, places, hplain, hwhole, hplaces, hdecimal⟩ :=
    exists_writePlain_eq (Decimal.shortest numberStyle.tie (Magnitude.ofFloat x))
  refine ⟨whole, places, ?_, hwhole, hplaces, ?_⟩
  · rw [numberText, NumberStyle.write, if_neg (Nat.lt_asymm h), if_neg h.ne, NumberStyle.writeDecimal]
    exact congrArg _ hplain
  · have hshortest := Decimal.nearestMagnitude_shortest numberStyle.tie h
    have hne : (Decimal.shortest numberStyle.tie (Magnitude.ofFloat x)).nearestMagnitude ≠ Magnitude.infinity := by
      rw [hshortest]
      exact h.ne
    rw [hdecimal, nearestMagnitude_written hne, hshortest]

/-- A finite double is read back from its text, to the last bit. -/
theorem plainValue?_numberText {x : Float} (h : Magnitude.ofFloat x < Magnitude.infinity) (rest : List Char) :
    plainValue? (numberText x ++ '\n' :: rest) = some (.float x, '\n' :: rest) := by
  obtain ⟨whole, places, htext, hwhole, hplaces, hread⟩ := exists_numberText_eq h
  have hdecimal := decimal?_append (isNegative x) hwhole hplaces (hread ▸ h.ne) rest
  rw [Decimal.toFloat, hread, Magnitude.toFloat_ofFloat] at hdecimal
  obtain ⟨hnumber, hunsigned⟩ := number?_append hwhole.toIsDigits (places ++ '\n' :: rest)
  rw [htext]
  cases hsign : isNegative x with
  | false =>
    rw [hsign] at hdecimal
    have hmoment := moment?_append hwhole.isDigit (places ++ '\n' :: rest)
    obtain ⟨c, digits, rfl⟩ := List.exists_cons_of_ne_nil hwhole.ne_nil
    simp only [Bool.false_eq_true, if_false, List.nil_append, List.append_assoc, List.cons_append]
      at hdecimal hnumber hmoment ⊢
    rw [plainValue?_of_number (.inl (hwhole.isDigit c List.mem_cons_self)) hmoment, hnumber, hdecimal]
  | true =>
    rw [hsign] at hdecimal
    simp only [if_true, List.cons_append, List.nil_append, List.append_assoc]
    rw [plainValue?_of_number (.inr rfl) (moment?_minus _), number?, hunsigned, hdecimal]

/-- The text of a finite double starts with a digit or a minus sign. -/
theorem exists_numberText_cons {x : Float} (h : Magnitude.ofFloat x < Magnitude.infinity) :
    ∃ c text, numberText x = c :: text ∧ (c.isDigit = true ∨ c = '-') := by
  obtain ⟨whole, places, htext, hwhole, -, -⟩ := exists_numberText_eq h
  obtain ⟨c, digits, rfl⟩ := List.exists_cons_of_ne_nil hwhole.ne_nil
  cases hsign : isNegative x with
  | false =>
    rw [hsign] at htext
    exact ⟨c, _, htext, .inl (hwhole.isDigit c List.mem_cons_self)⟩
  | true =>
    rw [hsign] at htext
    exact ⟨'-', _, htext, .inr rfl⟩

end Likeness.Toml
