import ScriptLens.Proofs.Scan.Literal

/-!
# Numbers

A number is read as far as it goes: no number that begins at the same place is longer.
-/

set_option mvcgen.warning false

open Std.Do ScriptLens.Text

namespace ScriptLens.Scan

def Digits (t : Text) (base i j : Nat) : Prop :=
  i ≤ j ∧ ∀ n, i ≤ n → n < j → isDigitOf base (t.get n) = true

/-- A letter, a sign or none, and digits. -/
def IsExponent (t : Text) (i j : Nat) : Prop :=
  (t.get i = 101 ∨ t.get i = 69) ∧
    ∃ n, (n = i + 1 ∨ n = i + 2 ∧ (t.get (i + 1) = 43 ∨ t.get (i + 1) = 45)) ∧ n < j ∧ Digits t 10 n j

/-- Digits, a point with further digits or none, and an exponent or none.  After a zero that other
digits follow, one of them is an eight or a nine. -/
structure IsDecimal (t : Text) (i a b j : Nat) : Prop where
  whole : Digits t 10 i a
  leading : t.get i = 48 → i + 1 < a → ∃ n, i < n ∧ n < a ∧ (t.get n = 56 ∨ t.get n = 57)
  fraction : b = a ∨ t.get a = 46 ∧ Digits t 10 (a + 1) b
  exponent : j = b ∨ IsExponent t b j
  some : i < a ∨ a + 1 < b

/-- The letters that announce a base, after a zero. -/
abbrev bases : List (Nat × Nat) := [(120, 16), (88, 16), (111, 8), (79, 8), (98, 2), (66, 2)]

/-- A number stands between two positions: its base, and where its digits begin. -/
inductive Numeral (t : Text) (i j : Nat) : Nat → Nat → Prop
  | announced {base : Nat} : t.get i = 48 → (t.get (i + 1), base) ∈ bases → i + 2 < j → Digits t base (i + 2) j →
    Numeral t i j base (i + 2)
  | legacy : t.get i = 48 → i + 1 < j → Digits t 8 (i + 1) j → Numeral t i j 8 (i + 1)
  | decimal {a b : Nat} : IsDecimal t i a b j → Numeral t i j 10 i

/-- The scanner of a number has come to the end of the longest one. -/
def Longest (t : Text) (i j base k : Nat) : Prop :=
  Numeral t i j base k ∧ ∀ j' base' k', Numeral t i j' base' k' → j' ≤ j

attribute [local grind] Digits IsExponent IsDecimal
attribute [local grind =] isDigitOf_decimal isDigitOf_octal isDecimalDigit isOctalDigit Bool.and_eq_false_iff

theorem announced_longest {t : Text} {i j base : Nat} (zero : t.get i = 48) (listed : (t.get (i + 1), base) ∈ bases)
    (some : i + 2 < j) (digits : Digits t base (i + 2) j) (stop : isDigitOf base (t.get j) = false) :
  Longest t i j base (i + 2)
  := by
  refine ⟨.announced zero listed some digits, fun j' base' k' numeral => ?_⟩
  cases numeral with
  | announced _ listed' _ digits' =>
    have same : base' = base := by simp at listed listed'; omega
    subst same
    grind
  | legacy _ _ digits' =>
    have octal := digits'.2 (i + 1) le_rfl (by omega)
    simp at listed
    grind
  | decimal decimal =>
    simp at listed
    grind

theorem legacy_longest {t : Text} {i j : Nat} (zero : t.get i = 48) (some : i + 1 < j) (digits : Digits t 8 (i + 1) j)
    (stop : isDecimalDigit (t.get j) = false) : Longest t i j 8 (i + 1)
  := by
  refine ⟨.legacy zero some digits, fun j' base' k' numeral => ?_⟩
  cases numeral with
  | announced _ listed =>
    have octal := digits.2 (i + 1) le_rfl some
    simp at listed
    grind
  | legacy _ _ digits' => grind
  | decimal decimal => 
    obtain ⟨whole, leading, fraction, exponent, -⟩ := decimal
    grind

/-- The parts of a decimal number are as long as they can be. -/
structure Ended (t : Text) (a b j : Nat) : Prop where
  whole : isDecimalDigit (t.get a) = false
  fraction : b = a ∧ t.get a ≠ 46 ∨ a < b ∧ isDecimalDigit (t.get b) = false
  exponent : j = b ∧ t.get b ≠ 101 ∧ t.get b ≠ 69 ∨ b < j ∧ isDecimalDigit (t.get j) = false

attribute [local grind] Ended

theorem Digits.le {t : Text} {base i j j' : Nat} (digits : Digits t base i j') (after : i ≤ j)
    (stop : isDigitOf base (t.get j) = false) : j' ≤ j
  := by
  by_contra beyond
  exact absurd (digits.2 j after (not_le.1 beyond)) (by simp [stop])

theorem IsExponent.le {t : Text} {i j j' : Nat} (exponent : IsExponent t i j) (other : IsExponent t i j')
    (stop : isDecimalDigit (t.get j) = false) : j' ≤ j
  := by
  obtain ⟨-, n, sign, some, digits⟩ := exponent
  obtain ⟨-, n', sign', some', digits'⟩ := other
  have first := digits.2 n le_rfl some
  have first' := digits'.2 n' le_rfl some'
  have same : n' = n := by grind
  exact Digits.le (same ▸ digits') digits.1 (isDigitOf_decimal _ ▸ stop)

theorem decimal_longest {t : Text} {i a b j : Nat} (decimal : IsDecimal t i a b j) (ended : Ended t a b j)
    (unannounced : t.get i = 48 → ∀ base, (t.get (i + 1), base) ∉ bases) : Longest t i j 10 i
  := by
  refine ⟨.decimal decimal, fun j' base' k' numeral => ?_⟩
  cases numeral with
  | announced zero listed => exact absurd listed (unannounced zero _)
  | legacy _ _ digits => grind
  | @decimal a' b' other =>
    have before : a ≤ b ∧ b ≤ j := by grind
    obtain short | rfl := (other.whole.le decimal.whole.1 (by grind)).lt_or_eq
    · have digit := decimal.whole.2 a' other.whole.1 short
      obtain rfl | ⟨point, -⟩ := other.fraction
      · obtain rfl | ⟨letter, -⟩ := other.exponent
        · omega
        · grind
      · grind
    · have shorter : b' ≤ b := by
        obtain rfl | ⟨point, digits⟩ := other.fraction
        · exact before.1
        · exact digits.le (by grind) (by grind)
      obtain short | rfl := shorter.lt_or_eq
      · grind
      · obtain rfl | exponent := other.exponent
        · exact before.2
        · grind [IsExponent.le]

/-! ### The scanner -/

variable (s : Source) {k : Nat}

abbrev Goes {α : Type} (k : Nat) (x : Scan α) (Q : α → Nat → Prop) : Prop :=
  ⦃fun s' c => ⌜s' = s ∧ c.index = k⌝⦄ x
  ⦃post⟨fun r s' c => ⌜s' = s ∧ c.index ≤ s.text.length ∧ Q r c.index⌝, fun f _ => ⌜∃ d, f = .source d⌝⟩⦄

/-- What is taken of the digits in a base. -/
structure Run (t : Text) (base k : Nat) (r : List Nat) (j : Nat) : Prop where
  digits : Digits t base k j
  stop : isDigitOf base (t.get j) = false
  same : r = (t.extract k j).toList
  valid : r.all (isDigitOf base) = true
  none : r.isEmpty = true ↔ j = k

theorem takeRun_goes {base : Nat} {p : Nat → Bool} (same : isDigitOf base = p) (inside : k ≤ s.text.length) :
  Goes s k (takeRun p) (Run s.text base k)
  := by
  subst same
  have bounds := spanEnd_bounds (isDigitOf base) s.text k (s.text.length - k)
  have holds (n : Nat) := spanEnd_holds (p := isDigitOf base) (t := s.text) (i := k) (k := n)
    (n := s.text.length - k)
  have valid := all_of_spanEnd (p := isDigitOf base) (fun _ => id) s.text k (s.text.length - k)
  generalize ended : spanEnd (isDigitOf base) s.text k (s.text.length - k) = j at *
  have run : Run s.text base k (s.text.extract k j).toList j := by
    refine ⟨⟨bounds.1, holds⟩, ?_, rfl, valid, ?_⟩
    · by_contra digit
      have inside := lt_length_of (p := isDigitOf base) rfl (eq_true_of_ne_false digit)
      exact digit (bounds.2.2 (by omega))
    · rw [List.isEmpty_iff_length_eq_zero, extract, toList, Array.length_toList, Array.size_extract]
      change min j s.text.length - k = 0 ↔ j = k
      omega
  mvcgen [takeRun] with grind

attribute [local grind] Run
attribute [local grind →] lt_length

theorem exponentPart_goes (inside : k ≤ s.text.length) :
  Goes s k exponentPart fun _ j => j = k ∧ s.text.get k ≠ 101 ∧ s.text.get k ≠ 69 ∨
    IsExponent s.text k j ∧ isDecimalDigit (s.text.get j) = false
  := by
  by_cases sign : s.text.get (k + 1) = 43 ∨ s.text.get (k + 1) = 45
  · have run := takeRun_goes s (k := k + 2) (funext isDigitOf_decimal)
    mvcgen [exponentPart, run, digitsValue, fail] with grind
  · have run := takeRun_goes s (k := k + 1) (funext isDigitOf_decimal)
    mvcgen [exponentPart, run, digitsValue, fail] with grind

theorem fractionPart_goes (inside : k ≤ s.text.length) :
  Goes s k fractionPart fun r j => j = k ∧ s.text.get k ≠ 46 ∧ r.isEmpty = true ∨
    s.text.get k = 46 ∧ Run s.text 10 (k + 1) r j
  := by
  have run := takeRun_goes s (k := k + 1) (funext isDigitOf_decimal)
  mvcgen [fractionPart, run] with grind

variable {s} in
theorem Goes.bind {α β : Type} {x : Scan α} {f : α → Scan β} {Q : α → Nat → Prop} {R : β → Nat → Prop}
    (first : Goes s k x Q) (next : ∀ r j, j ≤ s.text.length → Q r j → Goes s j (f r) R) : Goes s k (x >>= f) R
  := by
  refine Triple.bind _ _ first fun r => triple_iff.2 ?_
  rintro s' c ⟨same, inside, holds⟩
  exact triple_iff.1 (next r c.index inside holds) ⟨same, rfl⟩

variable {s} in
theorem Run.leading {r : List Nat} {a : Nat} (run : Run s.text 10 k r a)
    (octals : isOctalDigit (s.text.get (k + 1)) = true →
      ∃ n, Digits s.text 8 (k + 1) n ∧ (s.text.get n = 56 ∨ s.text.get n = 57)) (several : k + 1 < a) :
  ∃ n, k < n ∧ n < a ∧ (s.text.get n = 56 ∨ s.text.get n = 57)
  := by
  have second := run.digits.2 (k + 1) (by omega) several
  by_cases octal : isOctalDigit (s.text.get (k + 1)) = true
  · obtain ⟨n, digits, other⟩ := octals octal
    have after : k + 1 ≤ n := digits.1
    refine ⟨n, after, ?_, other⟩
    by_contra beyond
    grind
  · exact ⟨k + 1, by omega, several, by grind⟩

theorem decimalLiteral_goes (start : Nat) (begins : BeginsNumber s.text k)
    (octals : s.text.get k = 48 → isOctalDigit (s.text.get (k + 1)) = true →
      ∃ n, Digits s.text 8 (k + 1) n ∧ (s.text.get n = 56 ∨ s.text.get n = 57)) :
  Goes s k (decimalLiteral start) fun _ j => (∃ a b, IsDecimal s.text k a b j ∧ Ended s.text a b j) ∧
    isIdentifierStart (s.text.get j) = false
  := by
  unfold decimalLiteral
  refine Goes.bind (takeRun_goes s (funext isDigitOf_decimal) ?_) fun whole a inside run => ?_
  · grind [BeginsNumber]
  refine Goes.bind (fractionPart_goes s inside) fun fraction b inside part => ?_
  refine Goes.bind (exponentPart_goes s inside) fun exponent j inside last => ?_
  have some : (whole.isEmpty && fraction.isEmpty) = false ∧ (k < a ∨ a + 1 < b) := by
    obtain digit | ⟨point, digit⟩ := begins
    · grind
    · obtain rfl : a = k := by grind
      grind
  have found : ∃ a b, IsDecimal s.text k a b j ∧ Ended s.text a b j :=
    ⟨a, b, ⟨run.digits, fun zero => run.leading (octals zero), by grind, by grind, some.2⟩,
      ⟨by grind, by grind, by grind⟩⟩
  clear run part last begins octals
  mvcgen [notFollowedBy, token, fail] with grind

abbrev ReadsDigits (base k : Nat) (x : Scan Token) : Prop :=
  Goes s k x fun t j => Digits s.text base k j ∧ k < j ∧ isDigitOf base (s.text.get j) = false ∧
    t.value = .int (positional base (s.text.extract k j).toList) ∧ isIdentifierStart (s.text.get j) = false ∧
    (base ≠ 16 → isDecimalDigit (s.text.get j) = false)

theorem hexLiteral_reads (start : Nat) (inside : k ≤ s.text.length) : ReadsDigits s 16 k (hexLiteral start)
  := by
  have run := takeRun_goes s (funext isDigitOf_hex) inside
  have value := foldl_eq_positional 16
  mvcgen [hexLiteral, run, notFollowedBy, digitsValue, token, fail] with grind

theorem binaryLiteral_reads (start : Nat) (inside : k ≤ s.text.length) : ReadsDigits s 2 k (binaryLiteral start)
  := by
  have run := takeRun_goes s (funext isDigitOf_binary) inside
  have value := foldl_eq_positional 2
  have last : s.text.get s.text.length = 0 := by_contra fun some => (lt_length some).false
  have zero : isIdentifierStart 0 = false := rfl
  mvcgen [binaryLiteral, run, notFollowedBy, digitsValue, token, fail] with grind

theorem octalLiteral_reads (legacy : Bool) (start : Nat) (inside : k ≤ s.text.length)
    (some : legacy = true → isOctalDigit (s.text.get k) = true) : ReadsDigits s 8 k (octalLiteral legacy start)
  := by
  have run := takeRun_goes s (funext isDigitOf_octal) inside
  have value := foldl_eq_positional 8
  mvcgen [octalLiteral, run, notFollowedBy, digitsValue, token, fail] with grind

theorem isLegacyOctal_goes (inside : k ≤ s.text.length) :
  Goes s k isLegacyOctal fun r j => j = k ∧ (r = false → isOctalDigit (s.text.get k) = true →
    ∃ n, Digits s.text 8 k n ∧ (s.text.get n = 56 ∨ s.text.get n = 57))
  := by
  have bounds := spanEnd_bounds isOctalDigit s.text (k + 1) (s.text.length - (k + 1))
  have holds (n : Nat) := spanEnd_holds (p := isOctalDigit) (t := s.text) (i := k + 1) (k := n)
    (n := s.text.length - (k + 1))
  have digits (octal : isOctalDigit (s.text.get k) = true) :
      Digits s.text 8 k (spanEnd isOctalDigit s.text (k + 1) (s.text.length - (k + 1))) := by grind
  mvcgen [isLegacyOctal] with grind

def Scanned (t : Text) (i : Nat) (r : Token) (j : Nat) : Prop :=
  ∃ base k, Longest t i j base k ∧ isIdentifierStart (t.get j) = false ∧
    (base = 2 ∨ base = 8 → isDecimalDigit (t.get j) = false) ∧
    (base ≠ 10 → r.value = .int (positional base (t.extract k j).toList))

abbrev Scans (i k : Nat) (x : Scan Token) : Prop := Goes s k x (Scanned s.text i)

theorem Goes.mono {α : Type} {x : Scan α} {Q R : α → Nat → Prop} (goes : Goes s k x Q)
    (weaker : ∀ r j, Q r j → R r j) : Goes s k x R
  := by
  refine triple_iff.2 ?_
  intro s' c pre
  obtain ⟨gives, fails⟩ := triple_iff.1 goes pre
  exact ⟨fun run => ⟨(gives run).1, (gives run).2.1, weaker _ _ (gives run).2.2⟩, fails⟩

theorem announced_scans {base : Nat} {x : Scan Token} (zero : s.text.get k = 48)
    (listed : (s.text.get (k + 1), base) ∈ bases) (reads : ReadsDigits s base (k + 2) x) : Scans s k (k + 2) x
  := by
  refine Goes.mono s reads ?_
  rintro t j ⟨digits, some, stop, value, apart, single⟩
  refine ⟨base, k + 2, announced_longest zero listed some digits stop, apart, ?_, fun _ => value⟩
  rintro (rfl | rfl) <;> exact single (by decide)

theorem legacy_scans (start : Nat) (inside : k + 1 ≤ s.text.length) (zero : s.text.get k = 48)
    (octal : isOctalDigit (s.text.get (k + 1)) = true) : Scans s k (k + 1) (octalLiteral true start)
  := by
  refine Goes.mono s (octalLiteral_reads s true start inside fun _ => octal) ?_
  rintro t j ⟨digits, some, stop, value, apart, single⟩
  exact ⟨8, k + 1, legacy_longest zero some digits (single (by decide)), apart, fun _ => single (by decide),
    fun _ => value⟩

theorem decimal_scans (start : Nat) (begins : BeginsNumber s.text k)
    (unannounced : s.text.get k = 48 → ∀ base, (s.text.get (k + 1), base) ∉ bases)
    (leading : s.text.get k = 48 → isOctalDigit (s.text.get (k + 1)) = true →
      ∃ n, Digits s.text 8 (k + 1) n ∧ (s.text.get n = 56 ∨ s.text.get n = 57)) :
  Scans s k k (decimalLiteral start)
  := by
  refine Goes.mono s (decimalLiteral_goes s start begins leading) ?_
  rintro t j ⟨⟨a, b, decimal, ended⟩, apart⟩
  exact ⟨10, k, decimal_longest decimal ended unannounced, apart, by simp, fun other => absurd rfl other⟩

theorem numeric_scans (begins : BeginsNumber s.text k) : Scans s k k numeric := by
  have inside : k < s.text.length := by grind [BeginsNumber]
  have hex (start : Nat) (zero : s.text.get k = 48) (listed : (s.text.get (k + 1), 16) ∈ bases) :=
    announced_scans s zero listed (hexLiteral_reads s start (by grind))
  have binary (start : Nat) (zero : s.text.get k = 48) (listed : (s.text.get (k + 1), 2) ∈ bases) :=
    announced_scans s zero listed (binaryLiteral_reads s start (by grind))
  have octal (start : Nat) (zero : s.text.get k = 48) (listed : (s.text.get (k + 1), 8) ∈ bases) :=
    announced_scans s zero listed (octalLiteral_reads s false start (by grind) (by simp))
  have legacy (start : Nat) := legacy_scans s (k := k) start inside
  have looks := isLegacyOctal_goes s (k := k + 1) inside
  have decimal (start : Nat) := decimal_scans s start begins
  mvcgen [numeric, hex, binary, octal, legacy, looks, decimal] with grind

/-- Where a number begins, the scanner reports a problem of the source or reads the longest number that
stands there, with nothing behind it that would go on with it; digits in another base than ten are
given their value. -/
theorem numeric_longest {s : Source} {c : Cursor} (begins : BeginsNumber s.text c.index) :
  (∃ d c', numeric s c = .error (.source d) c') ∨
  ∃ t c' base k, numeric s c = .ok t c' ∧ Numeral s.text c.index c'.index base k ∧
    (∀ j base' k', Numeral s.text c.index j base' k' → j ≤ c'.index) ∧
    Text.isIdentifierStart (s.text.get c'.index) = false ∧
    (base = 2 ∨ base = 8 → Text.isDecimalDigit (s.text.get c'.index) = false) ∧
    (base ≠ 10 → t.value = .int (positional base (s.text.extract k c'.index).toList))
  := by
  obtain ⟨gives, fails⟩ := triple_iff.1 (numeric_scans s begins) ⟨rfl, rfl⟩
  cases run : numeric s c with
  | error f c' =>
    obtain ⟨d, rfl⟩ := fails run
    exact .inl ⟨d, c', rfl⟩
  | ok t c' =>
    obtain ⟨-, -, base, k, ⟨numeral, longest⟩, apart, single, value⟩ := gives run
    exact .inr ⟨t, c', base, k, rfl, numeral, longest, apart, single, value⟩

theorem numeric_longest_octal :
  ∃ t c' base k, numeric { text := "017.5" } {} = .ok t c' ∧ Numeral "017.5" 0 c'.index base k ∧
    Text.isIdentifierStart (Text.get "017.5" c'.index) = false
  := by
  obtain ⟨d, c', run⟩ | ⟨t, c', base, k, run, numeral, -, apart, -⟩ :=
    numeric_longest (s := { text := "017.5" }) (c := {}) (.inl rfl)
  · cases run
  · exact ⟨t, c', base, k, run, numeral, apart⟩

end ScriptLens.Scan
