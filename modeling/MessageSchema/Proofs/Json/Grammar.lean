import Mathlib.Data.Rat.Defs
import Mathlib.Algebra.Field.Rat

/-! # The grammar of JSON texts

`JsonText.Spells` is the grammar of JSON texts, production by production, each with the value of
what it produces: white space around the structural characters only, numbers with fraction and
exponent, strings with all their escapes.  It is not a parser, and white space between two
structural characters can be ascribed to either of them.

Numbers and strings have one value each: a number ends where no character follows that could
continue it (`JsonText.Number.eq_of_append`), a string at its closing quote
(`JsonText.Body.unique`). -/

namespace MessageSchema

/-- What a JSON text stands for.  Numbers are decimal fractions, and strings are sequences of code
units of sixteen bits, since it is these that escapes name. -/
inductive JsonTree where
  | null
  | bool (b : Bool)
  | number (q : ℚ)
  | text (units : List Nat)
  | list (items : List JsonTree)
  | object (entries : List (List Nat × JsonTree))

namespace JsonText

/-! ### White space and structural characters -/

/-- The characters that do not count outside of strings. -/
def isSpace (c : Char) : Bool := c = ' ' || c = '\t' || c = '\n' || c = '\r'

/-- A text without the white space in front. -/
def strip (t : List Char) : List Char := t.dropWhile isSpace

/-- In front of `r` stands the structural character `c` with white space around it. -/
def Mark (c : Char) (t r : List Char) : Prop :=
  ∃ before after : List Char, (∀ x ∈ before, isSpace x) ∧ (∀ x ∈ after, isSpace x) ∧
    t = before ++ c :: (after ++ r)

/-! ### Numbers -/

/-- The number that decimal digits make. -/
def ofDigits (ds : List Char) : Nat := Nat.ofDigitChars 10 ds 0

/-- One or more decimal digits. -/
def Digits (ds : List Char) : Prop := ds ≠ [] ∧ ∀ c ∈ ds, c.isDigit

/-- The sign of a number, with the factor it stands for. -/
inductive Sign : List Char → ℚ → Prop
  | plus : Sign [] 1
  | minus : Sign ['-'] (-1)

/-- The digits in front of the decimal point: a lone zero, or digits without zeros in front. -/
inductive Whole : List Char → Prop
  | zero : Whole ['0']
  | digits {c : Char} {ds : List Char} (hc : c.isDigit) (hne : c ≠ '0')
      (hds : ∀ x ∈ ds, x.isDigit) : Whole (c :: ds)

/-- The part of a number after the decimal point. -/
inductive Fraction : List Char → ℚ → Prop
  | absent : Fraction [] 0
  | digits {ds : List Char} (h : Digits ds) : Fraction ('.' :: ds) (ofDigits ds / 10 ^ ds.length)

/-- The exponent of a number. -/
inductive Exponent : List Char → ℤ → Prop
  | absent : Exponent [] 0
  | bare {e : Char} {ds : List Char} (he : e = 'e' ∨ e = 'E') (h : Digits ds) :
      Exponent (e :: ds) (ofDigits ds)
  | plus {e : Char} {ds : List Char} (he : e = 'e' ∨ e = 'E') (h : Digits ds) :
      Exponent (e :: '+' :: ds) (ofDigits ds)
  | minus {e : Char} {ds : List Char} (he : e = 'e' ∨ e = 'E') (h : Digits ds) :
      Exponent (e :: '-' :: ds) (-(ofDigits ds : ℤ))

/-- A number and its value. -/
inductive Number : List Char → ℚ → Prop
  | mk {sign whole fraction exponent : List Char} {σ f : ℚ} {x : ℤ} (hsign : Sign sign σ)
      (hwhole : Whole whole) (hfraction : Fraction fraction f) (hexponent : Exponent exponent x) :
      Number (sign ++ (whole ++ (fraction ++ exponent))) (σ * (ofDigits whole + f) * 10 ^ x)

/-! ### Strings -/

/-- The code units of a character: one, or a pair of surrogates. -/
def units (c : Char) : List Nat :=
  if c.toNat < 0x10000 then [c.toNat]
  else [0xd800 + (c.toNat - 0x10000) / 0x400, 0xdc00 + (c.toNat - 0x10000) % 0x400]

/-- The code unit that a backslash with a character other than `u` stands for. -/
def escapedUnit? : Char → Option Nat
  | '"' => some 0x22
  | '\\' => some 0x5c
  | '/' => some 0x2f
  | 'b' => some 0x08
  | 'f' => some 0x0c
  | 'n' => some 0x0a
  | 'r' => some 0x0d
  | 't' => some 0x09
  | _ => none

/-- The value of a hexadecimal digit. -/
def hexValue? (c : Char) : Option Nat :=
  if c.isDigit then some (c.toNat - 48)
  else if 'a' ≤ c ∧ c ≤ 'f' then some (c.toNat - 87)
  else if 'A' ≤ c ∧ c ≤ 'F' then some (c.toNat - 55)
  else none

/-- After the quote that opens it, a string of the given code units stands in front of `r`. -/
inductive Body : List Nat → List Char → List Char → Prop
  | close (r : List Char) : Body [] ('"' :: r) r
  | plain {c : Char} {us : List Nat} {t r : List Char}
      (hc : 0x20 ≤ c.toNat ∧ c ≠ '"' ∧ c ≠ '\\') (h : Body us t r) : Body (units c ++ us) (c :: t) r
  | short {c : Char} {u : Nat} {us : List Nat} {t r : List Char} (hc : escapedUnit? c = some u)
      (h : Body us t r) : Body (u :: us) ('\\' :: c :: t) r
  | long {a b c d : Char} {i j k l : Nat} {us : List Nat} {t r : List Char}
      (ha : hexValue? a = some i) (hb : hexValue? b = some j) (hc : hexValue? c = some k)
      (hd : hexValue? d = some l) (h : Body us t r) :
      Body ((((i * 16 + j) * 16 + k) * 16 + l) :: us) ('\\' :: 'u' :: a :: b :: c :: d :: t) r

/-! ### Values -/

/-- The values that have a name. -/
inductive Literal : List Char → JsonTree → Prop
  | null : Literal ['n', 'u', 'l', 'l'] .null
  | true : Literal ['t', 'r', 'u', 'e'] (.bool true)
  | false : Literal ['f', 'a', 'l', 's', 'e'] (.bool false)

/-- What the grammar produces.  Items and entries are those after the first, with the closing
bracket. -/
inductive Phrase where
  | value (v : JsonTree)
  | items (vs : List JsonTree)
  | entry (key : List Nat) (v : JsonTree)
  | entries (es : List (List Nat × JsonTree))

/-- `Spells p t r`: the text `t` is one for `p` followed by `r`. -/
inductive Spells : Phrase → List Char → List Char → Prop
  | literal {l : List Char} {v : JsonTree} (h : Literal l v) (r : List Char) :
      Spells (.value v) (l ++ r) r
  | number {n : List Char} {q : ℚ} (h : Number n q) (r : List Char) :
      Spells (.value (.number q)) (n ++ r) r
  | text {us : List Nat} {t r : List Char} (h : Body us t r) :
      Spells (.value (.text us)) ('"' :: t) r
  | emptyList {t u r : List Char} (hopen : Mark '[' t u) (hclose : Mark ']' u r) :
      Spells (.value (.list [])) t r
  | list {v : JsonTree} {vs : List JsonTree} {t u w r : List Char} (hopen : Mark '[' t u)
      (hv : Spells (.value v) u w) (hvs : Spells (.items vs) w r) :
      Spells (.value (.list (v :: vs))) t r
  | noItems {t r : List Char} (hclose : Mark ']' t r) : Spells (.items []) t r
  | items {v : JsonTree} {vs : List JsonTree} {t u w r : List Char} (hcomma : Mark ',' t u)
      (hv : Spells (.value v) u w) (hvs : Spells (.items vs) w r) : Spells (.items (v :: vs)) t r
  | emptyObject {t u r : List Char} (hopen : Mark '\x7b' t u) (hclose : Mark '\x7d' u r) :
      Spells (.value (.object [])) t r
  | object {k : List Nat} {v : JsonTree} {es : List (List Nat × JsonTree)} {t u w r : List Char}
      (hopen : Mark '\x7b' t u) (he : Spells (.entry k v) u w) (hes : Spells (.entries es) w r) :
      Spells (.value (.object ((k, v) :: es))) t r
  | entry {k : List Nat} {v : JsonTree} {t u w r : List Char} (hk : Body k t u)
      (hcolon : Mark ':' u w) (hv : Spells (.value v) w r) : Spells (.entry k v) ('"' :: t) r
  | noEntries {t r : List Char} (hclose : Mark '\x7d' t r) : Spells (.entries []) t r
  | entries {k : List Nat} {v : JsonTree} {es : List (List Nat × JsonTree)} {t u w r : List Char}
      (hcomma : Mark ',' t u) (he : Spells (.entry k v) u w) (hes : Spells (.entries es) w r) :
      Spells (.entries ((k, v) :: es)) t r

/-- The text stands for `v`: white space, a value and white space. -/
def IsText (t : List Char) (v : JsonTree) : Prop :=
  ∃ before body after : List Char, (∀ x ∈ before, isSpace x) ∧ (∀ x ∈ after, isSpace x) ∧
    t = before ++ body ∧ Spells (.value v) body after

/-! ### White space in front -/

section strip
variable {c c' : Char} {t t' r r' before : List Char}

theorem strip_append (h : ∀ x ∈ before, isSpace x) (t : List Char) :
    strip (before ++ t) = strip t :=
  List.dropWhile_append_of_pos h

theorem strip_cons (h : isSpace c = false) (t : List Char) : strip (c :: t) = c :: t :=
  List.dropWhile_cons_of_neg (by simp [h])

theorem eq_of_strip_eq (h : strip (c :: t) = strip (c :: t')) (hc : isSpace c = false) :
    t = t' := by
  rw [strip_cons hc, strip_cons hc] at h
  exact (List.cons.inj h).2

theorem Mark.bare (c : Char) (r : List Char) : Mark c (c :: r) r :=
  ⟨[], [], by simp, by simp, rfl⟩

theorem Mark.exists_strip (h : Mark c t r) (hc : isSpace c = false) :
    ∃ u, strip t = c :: u ∧ strip u = strip r := by
  obtain ⟨before, after, hbefore, hafter, rfl⟩ := h
  refine ⟨after ++ r, ?_, strip_append hafter r⟩
  rw [strip_append hbefore, strip_cons hc]

/-- Texts that begin with structural characters begin with the same ones. -/
theorem Mark.unique (h : Mark c t r) (h' : Mark c' t' r') (ht : strip t = strip t')
    (hc : isSpace c = false) (hc' : isSpace c' = false) :
    c = c' ∧ strip r = strip r' := by
  obtain ⟨u, hu, hr⟩ := h.exists_strip hc
  obtain ⟨u', hu', hr'⟩ := h'.exists_strip hc'
  rw [hu, hu'] at ht
  obtain ⟨rfl, rfl⟩ := List.cons.inj ht
  exact ⟨rfl, hr.symm.trans hr'⟩

end strip

/-! ### Ends of numbers -/

/-- The characters of numbers. -/
def inNumber (c : Char) : Bool := c.isDigit || "+-.eE".toList.contains c

/-- No character follows that could continue a number. -/
def Ends (r : List Char) : Prop := ∀ c ∈ r.head?, inNumber c = false

theorem inNumber_of_isSpace {c : Char} (h : isSpace c) : inNumber c = false := by
  have hc : c = ' ' ∨ c = '\t' ∨ c = '\n' ∨ c = '\r' := by simpa [isSpace, or_assoc] using h
  rcases hc with rfl | rfl | rfl | rfl <;> decide

theorem ends_of_spaces {after : List Char} (h : ∀ x ∈ after, isSpace x) : Ends after :=
  fun c hc => inNumber_of_isSpace (h c (List.mem_of_head? hc))

theorem Mark.ends {c : Char} {t r : List Char} (h : Mark c t r) (hc : inNumber c = false) :
    Ends t := by
  obtain ⟨before, after, hbefore, -, rfl⟩ := h
  cases before with
  | nil =>
      intro x hx
      obtain rfl : c = x := by simpa using hx
      exact hc
  | cons b rest =>
      intro x hx
      obtain rfl : b = x := by simpa using hx
      exact inNumber_of_isSpace (hbefore b List.mem_cons_self)

theorem Spells.ends_items {vs : List JsonTree} {t r : List Char} (h : Spells (.items vs) t r) :
    Ends t := by
  cases h with
  | noItems hclose => exact hclose.ends rfl
  | items hcomma => exact hcomma.ends rfl

theorem Spells.ends_entries {es : List (List Nat × JsonTree)} {t r : List Char}
    (h : Spells (.entries es) t r) : Ends t := by
  cases h with
  | noEntries hclose => exact hclose.ends rfl
  | entries hcomma => exact hcomma.ends rfl

/-- The longest run of characters of a kind is determined. -/
theorem eq_of_append_eq {p : Char → Bool} {a a' r r' : List Char} (ha : ∀ c ∈ a, p c)
    (ha' : ∀ c ∈ a', p c) (hr : ∀ c ∈ r.head?, p c = false) (hr' : ∀ c ∈ r'.head?, p c = false)
    (h : a ++ r = a' ++ r') : a = a' ∧ r = r' := by
  have hrun : ∀ {s : List Char}, (∀ c ∈ s.head?, p c = false) → s.takeWhile p = [] := by
    intro s hs
    cases s with
    | nil => rfl
    | cons c rest => exact List.takeWhile_cons_of_neg (by simp [hs c rfl])
  have htake := congrArg (List.takeWhile p) h
  rw [List.takeWhile_append_of_pos ha, List.takeWhile_append_of_pos ha', hrun hr, hrun hr',
    List.append_nil, List.append_nil] at htake
  subst htake
  exact ⟨rfl, List.append_cancel_left h⟩

/-! ### Numbers have one value -/

section numbers
variable {t t' sign whole whole' fraction fraction' exponent exponent' : List Char}
variable {σ σ' f f' q q' : ℚ} {x x' : ℤ}

theorem Whole.digits_of (h : Whole whole) : ∀ c ∈ whole, c.isDigit := by
  cases h with
  | zero => simp
  | digits hc _ hds => exact List.forall_mem_cons.mpr ⟨hc, hds⟩

theorem Whole.exists_cons (h : Whole whole) : ∃ c ds, whole = c :: ds ∧ c.isDigit := by
  cases h with
  | zero => exact ⟨_, _, rfl, by decide⟩
  | digits hc => exact ⟨_, _, rfl, hc⟩

theorem Exponent.head (h : Exponent exponent x) : ∀ c ∈ exponent.head?, c = 'e' ∨ c = 'E' := by
  cases h <;> simp_all

theorem Fraction.head (hf : Fraction fraction f) (hx : Exponent exponent x) :
    ∀ c ∈ (fraction ++ exponent).head?, c.isDigit = false := by
  cases hf with
  | absent =>
      intro c hc
      rcases hx.head c hc with rfl | rfl <;> decide
  | digits h =>
      intro c hc
      obtain rfl : '.' = c := by simpa using hc
      decide

theorem Exponent.unique (h : Exponent exponent x) (h' : Exponent exponent x') : x = x' := by
  have hsign : ∀ {c : Char} {ds : List Char}, Digits (c :: ds) → c.isDigit :=
    fun hd => hd.2 _ List.mem_cons_self
  cases h with
  | absent => cases h'; rfl
  | bare he hd =>
      cases h' with
      | bare => rfl
      | plus | minus => exact absurd (hsign hd) (by decide)
  | plus he hd =>
      cases h' with
      | bare _ hd' => exact absurd (hsign hd') (by decide)
      | plus => rfl
  | minus he hd =>
      cases h' with
      | bare _ hd' => exact absurd (hsign hd') (by decide)
      | minus => rfl

theorem Fraction.unique (hf : Fraction fraction f) (hf' : Fraction fraction' f')
    (hx : Exponent exponent x) (hx' : Exponent exponent' x')
    (h : fraction ++ exponent = fraction' ++ exponent') :
    fraction = fraction' ∧ exponent = exponent' := by
  have hdot : ∀ {e : List Char} {y : ℤ} {ds : List Char}, Exponent e y → e ≠ '.' :: ds := by
    rintro e y ds he rfl
    simpa using he.head '.' rfl
  have hdigit : ∀ {e : List Char} {y : ℤ}, Exponent e y → ∀ c ∈ e.head?, c.isDigit = false := by
    intro e y he c hc
    rcases he.head c hc with rfl | rfl <;> decide
  cases hf with
  | absent =>
      cases hf' with
      | absent => exact ⟨rfl, h⟩
      | digits => exact absurd h (hdot hx)
  | digits hds =>
      cases hf' with
      | absent => exact absurd h.symm (hdot hx')
      | digits hds' =>
          obtain ⟨rfl, rfl⟩ :=
            eq_of_append_eq hds.2 hds'.2 (hdigit hx) (hdigit hx') (List.cons.inj h).2
          exact ⟨rfl, rfl⟩

theorem Fraction.value_unique (h : Fraction fraction f) (h' : Fraction fraction f') : f = f' := by
  cases h <;> cases h' <;> rfl

theorem Sign.unique (h : Sign sign σ) (h' : Sign sign σ') : σ = σ' := by
  cases h <;> cases h' <;> rfl

theorem Sign.eq_of_append (h : Sign sign σ) (h' : Sign sign' σ') (ht : ∀ c ∈ t.head?, c.isDigit)
    (ht' : ∀ c ∈ t'.head?, c.isDigit) (heq : sign ++ t = sign' ++ t') :
    sign = sign' ∧ t = t' := by
  have hall : ∀ {s : List Char} {y : ℚ}, Sign s y → ∀ c ∈ s, (c == '-') = true := by
    rintro s y (_ | _) <;> simp
  have hhead : ∀ {s : List Char}, (∀ c ∈ s.head?, c.isDigit) →
      ∀ c ∈ s.head?, (c == '-') = false := by
    intro s hs c hc
    have hd := hs c hc
    rw [beq_eq_false_iff_ne]
    rintro rfl
    exact absurd hd (by decide)
  exact eq_of_append_eq (hall h) (hall h') (hhead ht) (hhead ht') heq

theorem Whole.head_append (h : Whole whole) (t : List Char) :
    ∀ c ∈ (whole ++ t).head?, c.isDigit := by
  obtain ⟨c, ds, rfl, hc⟩ := h.exists_cons
  intro x hx
  obtain rfl : c = x := by simpa using hx
  exact hc

theorem Number.unique (h : Number t q) (h' : Number t' q') (ht : t = t') : q = q' := by
  obtain ⟨hs, hw, hf, hx⟩ := h
  obtain ⟨hs', hw', hf', hx'⟩ := h'
  obtain ⟨rfl, htail⟩ := hs.eq_of_append hs' (hw.head_append _) (hw'.head_append _) ht
  obtain ⟨rfl, hrest⟩ :=
    eq_of_append_eq hw.digits_of hw'.digits_of (hf.head hx) (hf'.head hx') htail
  obtain ⟨rfl, rfl⟩ := hf.unique hf' hx hx' hrest
  rw [hs.unique hs', hf.value_unique hf', hx.unique hx']

theorem inNumber_of_isDigit {c : Char} (h : c.isDigit) : inNumber c := by
  simp [inNumber, h]

theorem Number.inNumber_of_mem (h : Number t q) : ∀ c ∈ t, inNumber c := by
  have hdigits : ∀ {ds : List Char}, (∀ c ∈ ds, c.isDigit) → ∀ c ∈ ds, inNumber c :=
    fun hds c hc => inNumber_of_isDigit (hds c hc)
  obtain ⟨hs, hw, hf, hx⟩ := h
  simp only [List.forall_mem_append]
  refine ⟨?_, hdigits hw.digits_of, ?_, ?_⟩
  · cases hs <;> simp [inNumber]
  · cases hf with
    | absent => simp
    | digits h => exact List.forall_mem_cons.mpr ⟨by decide, hdigits h.2⟩
  · have hmark : ∀ {e : Char}, e = 'e' ∨ e = 'E' → inNumber e := by
      rintro e (rfl | rfl) <;> decide
    cases hx with
    | absent => simp
    | bare he h => exact List.forall_mem_cons.mpr ⟨hmark he, hdigits h.2⟩
    | plus he h | minus he h =>
        exact List.forall_mem_cons.mpr
          ⟨hmark he, List.forall_mem_cons.mpr ⟨by decide, hdigits h.2⟩⟩

/-- A number in front of a text that cannot continue it is determined. -/
theorem Number.eq_of_append {r r' : List Char} (h : Number t q) (h' : Number t' q') (hr : Ends r)
    (hr' : Ends r') (heq : t ++ r = t' ++ r') : q = q' ∧ r = r' := by
  obtain ⟨ht, hrest⟩ := eq_of_append_eq h.inNumber_of_mem h'.inNumber_of_mem hr hr' heq
  exact ⟨h.unique h' ht, hrest⟩

theorem Number.exists_cons (h : Number t q) : ∃ c u, t = c :: u ∧ (c = '-' ∨ c.isDigit) := by
  obtain ⟨hs, hw, -, -⟩ := h
  obtain ⟨c, ds, rfl, hc⟩ := hw.exists_cons
  cases hs with
  | plus => exact ⟨c, _, rfl, .inr hc⟩
  | minus => exact ⟨'-', _, rfl, .inl rfl⟩

end numbers

/-! ### Strings have one value -/

theorem Body.unique {us us' : List Nat} {t r r' : List Char} (h : Body us t r)
    (h' : Body us' t r') : us = us' ∧ r = r' := by
  induction h generalizing us' r' with
  | close r =>
      cases h' with
      | close => exact ⟨rfl, rfl⟩
      | plain hc => exact absurd rfl hc.2.1
  | plain hc _ ih =>
      cases h' with
      | close => exact absurd rfl hc.2.1
      | plain _ h' =>
          obtain ⟨rfl, rfl⟩ := ih h'
          exact ⟨rfl, rfl⟩
      | short | long => exact absurd rfl hc.2.2
  | short hc _ ih =>
      cases h' with
      | plain hc' => exact absurd rfl hc'.2.2
      | short hc' h' =>
          obtain ⟨rfl, rfl⟩ := ih h'
          rw [hc] at hc'
          cases hc'
          exact ⟨rfl, rfl⟩
      | long => cases hc
  | long ha hb hc hd _ ih =>
      cases h' with
      | plain hc' => exact absurd rfl hc'.2.2
      | short hc' => cases hc'
      | long ha' hb' hc' hd' h' =>
          obtain ⟨rfl, rfl⟩ := ih h'
          rw [ha] at ha'
          rw [hb] at hb'
          rw [hc] at hc'
          rw [hd] at hd'
          cases ha'
          cases hb'
          cases hc'
          cases hd'
          exact ⟨rfl, rfl⟩

end JsonText
end MessageSchema
