import MessageSchema.Proofs.Json.Grammar

/-! # A JSON text stands for one value

White space between two structural characters can be ascribed to either of them, so a text has many
derivations.  They differ in nothing else: derivations of texts that agree up to white space in
front are derivations of the same phrase, if what follows cannot continue a number
(`JsonText.Determined`).  One lemma for each production says so, given the same of its parts.

Main statement: a text stands for one value only (`JsonText.IsText.unique`). -/

namespace MessageSchema
namespace JsonText

/-! ### The first character of a value -/

/-- The productions of values. -/
inductive Production where
  | null
  | true
  | false
  | number
  | text
  | list
  | object

namespace Production

/-- The production of a value. -/
def ofTree : JsonTree → Production
  | .null => null
  | .bool .true => true
  | .bool .false => false
  | .number _ => number
  | .text _ => text
  | .list _ => list
  | .object _ => object

/-- The production of the values whose texts begin with `c`. -/
def ofChar? : Char → Option Production
  | 'n' => some null
  | 't' => some true
  | 'f' => some false
  | '"' => some text
  | '[' => some list
  | '\x7b' => some object
  | c => if c = '-' ∨ c.isDigit then some number else none

theorem ofChar?_of_isDigit {c : Char} (h : c.isDigit) : ofChar? c = some number := by
  unfold ofChar?
  split
  case h_7 => rw [if_pos (.inr h)]
  all_goals exact absurd h (by decide)

end Production

theorem isSpace_of_isDigit {c : Char} (h : c.isDigit) : isSpace c = false := by
  apply Bool.eq_false_iff.mpr
  intro hspace
  have hnumber := inNumber_of_isDigit h
  rw [inNumber_of_isSpace hspace] at hnumber
  cases hnumber

section production
variable {v v' : JsonTree} {p' : Phrase} {k : List Nat} {t t' r r' : List Char}

theorem Literal.strip_append {l : List Char} (h : Literal l v) (r : List Char) :
    strip (l ++ r) = l ++ r ∧ ∃ c u, l ++ r = c :: u ∧ Production.ofChar? c = some (.ofTree v) := by
  cases h <;> exact ⟨strip_cons rfl _, _, _, rfl, rfl⟩

theorem Number.strip_append {n : List Char} {q : ℚ} (h : Number n q) (r : List Char) :
    strip (n ++ r) = n ++ r ∧ ∃ c u, n ++ r = c :: u ∧ Production.ofChar? c = some .number := by
  obtain ⟨c, u, rfl, hc⟩ := h.exists_cons
  rcases hc with rfl | hc
  · exact ⟨strip_cons rfl _, '-', _, rfl, rfl⟩
  · exact ⟨strip_cons (isSpace_of_isDigit hc) _, c, _, rfl, Production.ofChar?_of_isDigit hc⟩

/-- The first character of a value decides about its production. -/
theorem Spells.production (h : Spells (.value v) t r) :
    ∃ c u, strip t = c :: u ∧ Production.ofChar? c = some (.ofTree v) := by
  cases h with
  | literal h r =>
      obtain ⟨hstrip, c, u, heq, hc⟩ := h.strip_append r
      exact ⟨c, u, hstrip.trans heq, hc⟩
  | number h r =>
      obtain ⟨hstrip, c, u, heq, hc⟩ := h.strip_append r
      exact ⟨c, u, hstrip.trans heq, hc⟩
  | text => exact ⟨_, _, strip_cons rfl _, rfl⟩
  | emptyList hopen | list hopen | emptyObject hopen | object hopen =>
      obtain ⟨u, hu, -⟩ := hopen.exists_strip rfl
      exact ⟨_, u, hu, rfl⟩

/-- A value does not begin with a closing bracket. -/
theorem Spells.value_ne_mark (h : Spells (.value v) t r) (h' : Mark ']' t' r') :
    strip t ≠ strip t' := by
  obtain ⟨c, u, hu, hc⟩ := h.production
  obtain ⟨u', hu', -⟩ := h'.exists_strip rfl
  rw [hu, hu']
  intro ht
  obtain ⟨rfl, -⟩ := List.cons.inj ht
  cases hc

/-- An entry does not begin with a closing bracket. -/
theorem Spells.entry_ne_mark (h : Spells (.entry k v) t r) (h' : Mark '\x7d' t' r') :
    strip t ≠ strip t' := by
  obtain ⟨u', hu', -⟩ := h'.exists_strip rfl
  cases h
  rw [strip_cons rfl, hu']
  intro ht
  cases (List.cons.inj ht).1

/-- The kind of a phrase. -/
def Phrase.kind : Phrase → Nat
  | .value _ => 0
  | .items _ => 1
  | .entry _ _ => 2
  | .entries _ => 3

/-- A phrase of the kind of values that begins as a value does is a value of the same
production. -/
theorem Spells.same_production (h : Spells (.value v) t r) (h' : Spells p' t' r')
    (hp : (Phrase.value v).kind = p'.kind) (ht : strip t = strip t') :
    ∃ v', p' = .value v' ∧ Production.ofTree v = .ofTree v' := by
  obtain ⟨v', rfl⟩ : ∃ v', p' = .value v' := by
    cases p' with
    | value v' => exact ⟨v', rfl⟩
    | _ => cases hp
  obtain ⟨c, u, hu, hc⟩ := h.production
  obtain ⟨c', u', hu', hc'⟩ := h'.production
  rw [hu, hu'] at ht
  obtain ⟨rfl, -⟩ := List.cons.inj ht
  exact ⟨v', rfl, Option.some.inj (hc.symm.trans hc')⟩

end production

/-! ### Productions whose parts are determined -/

/-- What begins as `t` does, up to white space in front, is a text for `p` or for nothing of its
kind, and is followed by the same. -/
def Determined (p : Phrase) (t r : List Char) : Prop :=
  ∀ ⦃p' : Phrase⦄ ⦃t' r' : List Char⦄, Spells p' t' r' → p.kind = p'.kind → strip t = strip t' →
    Ends r → Ends r' → p = p' ∧ strip r = strip r'

section determined
variable {v : JsonTree} {vs : List JsonTree} {k : List Nat} {es : List (List Nat × JsonTree)}
variable {t u w r : List Char}

/-- A value is determined together with the items after it, in front of which it ends. -/
theorem Determined.then_items {v' : JsonTree} {vs' : List JsonTree} {u' w' r' : List Char}
    (ihv : Determined (.value v) u w) (ihvs : Determined (.items vs) w r)
    (hvs : Spells (.items vs) w r) (hv' : Spells (.value v') u' w')
    (hvs' : Spells (.items vs') w' r') (hu : strip u = strip u') (hr : Ends r) (hr' : Ends r') :
    v = v' ∧ vs = vs' ∧ strip r = strip r' := by
  obtain ⟨heq, hw⟩ := ihv hv' rfl hu hvs.ends_items hvs'.ends_items
  obtain ⟨heqs, hrest⟩ := ihvs hvs' rfl hw hr hr'
  cases heq
  cases heqs
  exact ⟨rfl, rfl, hrest⟩

/-- An entry is determined together with the entries after it, in front of which it ends. -/
theorem Determined.then_entries {k' : List Nat} {v' : JsonTree}
    {es' : List (List Nat × JsonTree)} {u' w' r' : List Char} (ihe : Determined (.entry k v) u w)
    (ihes : Determined (.entries es) w r) (hes : Spells (.entries es) w r)
    (he' : Spells (.entry k' v') u' w') (hes' : Spells (.entries es') w' r')
    (hu : strip u = strip u') (hr : Ends r) (hr' : Ends r') :
    k = k' ∧ v = v' ∧ es = es' ∧ strip r = strip r' := by
  obtain ⟨heq, hw⟩ := ihe he' rfl hu hes.ends_entries hes'.ends_entries
  obtain ⟨heqs, hrest⟩ := ihes hes' rfl hw hr hr'
  cases heq
  cases heqs
  exact ⟨rfl, rfl, rfl, hrest⟩

theorem determined_literal {l : List Char} (h : Literal l v) (r : List Char) :
    Determined (.value v) (l ++ r) r := by
  intro p' t' r' h' hp ht _ _
  obtain ⟨v', rfl, hv⟩ := (Spells.literal h r).same_production h' hp ht
  cases h' with
  | literal h' r' =>
      rw [(h.strip_append r).1, (h'.strip_append r').1] at ht
      cases h <;> cases h' <;> cases hv <;> cases ht <;> exact ⟨rfl, rfl⟩
  | _ => cases h <;> cases hv

theorem determined_number {n : List Char} {q : ℚ} (hn : Number n q) (r : List Char) :
    Determined (.value (.number q)) (n ++ r) r := by
  intro p' t' r' h' hp ht hr hr'
  obtain ⟨v', rfl, hv⟩ := (Spells.number hn r).same_production h' hp ht
  cases h' with
  | literal h' => cases h' <;> cases hv
  | number hn' r' =>
      rw [(hn.strip_append r).1, (hn'.strip_append r').1] at ht
      obtain ⟨rfl, rfl⟩ := hn.eq_of_append hn' hr hr' ht
      exact ⟨rfl, rfl⟩
  | _ => cases hv

theorem determined_text {us : List Nat} (hb : Body us t r) :
    Determined (.value (.text us)) ('"' :: t) r := by
  intro p' t' r' h' hp ht _ _
  obtain ⟨v', rfl, hv⟩ := (Spells.text hb).same_production h' hp ht
  cases h' with
  | literal h' => cases h' <;> cases hv
  | text hb' =>
      obtain rfl := eq_of_strip_eq ht rfl
      obtain ⟨rfl, rfl⟩ := hb.unique hb'
      exact ⟨rfl, rfl⟩
  | _ => cases hv

theorem determined_emptyList (hopen : Mark '[' t u) (hclose : Mark ']' u r) :
    Determined (.value (.list [])) t r := by
  intro p' t' r' h' hp ht _ _
  obtain ⟨v', rfl, hv⟩ := (Spells.emptyList hopen hclose).same_production h' hp ht
  cases h' with
  | literal h' => cases h' <;> cases hv
  | emptyList hopen' hclose' =>
      have hu := (hopen.unique hopen' ht rfl rfl).2
      exact ⟨rfl, (hclose.unique hclose' hu rfl rfl).2⟩
  | list hopen' hv' =>
      have hu := (hopen.unique hopen' ht rfl rfl).2
      exact absurd hu.symm (hv'.value_ne_mark hclose)
  | _ => cases hv

theorem determined_list (hopen : Mark '[' t u) (hv : Spells (.value v) u w)
    (hvs : Spells (.items vs) w r) (ihv : Determined (.value v) u w)
    (ihvs : Determined (.items vs) w r) : Determined (.value (.list (v :: vs))) t r := by
  intro p' t' r' h' hp ht hr hr'
  obtain ⟨v', rfl, hprod⟩ := (Spells.list hopen hv hvs).same_production h' hp ht
  cases h' with
  | literal h' => cases h' <;> cases hprod
  | emptyList hopen' hclose' =>
      have hu := (hopen.unique hopen' ht rfl rfl).2
      exact absurd hu (hv.value_ne_mark hclose')
  | list hopen' hv' hvs' =>
      have hu := (hopen.unique hopen' ht rfl rfl).2
      obtain ⟨rfl, rfl, hrest⟩ := ihv.then_items ihvs hvs hv' hvs' hu hr hr'
      exact ⟨rfl, hrest⟩
  | _ => cases hprod

theorem determined_noItems (hclose : Mark ']' t r) : Determined (.items []) t r := by
  intro p' t' r' h' hp ht _ _
  cases h' with
  | noItems hclose' => exact ⟨rfl, (hclose.unique hclose' ht rfl rfl).2⟩
  | items hcomma' => exact absurd (hclose.unique hcomma' ht rfl rfl).1 (by decide)
  | _ => cases hp

theorem determined_items (hcomma : Mark ',' t u) (hvs : Spells (.items vs) w r)
    (ihv : Determined (.value v) u w) (ihvs : Determined (.items vs) w r) :
    Determined (.items (v :: vs)) t r := by
  intro p' t' r' h' hp ht hr hr'
  cases h' with
  | noItems hclose' => exact absurd (hcomma.unique hclose' ht rfl rfl).1 (by decide)
  | items hcomma' hv' hvs' =>
      have hu := (hcomma.unique hcomma' ht rfl rfl).2
      obtain ⟨rfl, rfl, hrest⟩ := ihv.then_items ihvs hvs hv' hvs' hu hr hr'
      exact ⟨rfl, hrest⟩
  | _ => cases hp

theorem determined_emptyObject (hopen : Mark '\x7b' t u) (hclose : Mark '\x7d' u r) :
    Determined (.value (.object [])) t r := by
  intro p' t' r' h' hp ht _ _
  obtain ⟨v', rfl, hv⟩ := (Spells.emptyObject hopen hclose).same_production h' hp ht
  cases h' with
  | literal h' => cases h' <;> cases hv
  | emptyObject hopen' hclose' =>
      have hu := (hopen.unique hopen' ht rfl rfl).2
      exact ⟨rfl, (hclose.unique hclose' hu rfl rfl).2⟩
  | object hopen' he' =>
      have hu := (hopen.unique hopen' ht rfl rfl).2
      exact absurd hu.symm (he'.entry_ne_mark hclose)
  | _ => cases hv

theorem determined_object (hopen : Mark '\x7b' t u) (he : Spells (.entry k v) u w)
    (hes : Spells (.entries es) w r) (ihe : Determined (.entry k v) u w)
    (ihes : Determined (.entries es) w r) : Determined (.value (.object ((k, v) :: es))) t r := by
  intro p' t' r' h' hp ht hr hr'
  obtain ⟨v', rfl, hprod⟩ := (Spells.object hopen he hes).same_production h' hp ht
  cases h' with
  | literal h' => cases h' <;> cases hprod
  | emptyObject hopen' hclose' =>
      have hu := (hopen.unique hopen' ht rfl rfl).2
      exact absurd hu (he.entry_ne_mark hclose')
  | object hopen' he' hes' =>
      have hu := (hopen.unique hopen' ht rfl rfl).2
      obtain ⟨rfl, rfl, rfl, hrest⟩ := ihe.then_entries ihes hes he' hes' hu hr hr'
      exact ⟨rfl, hrest⟩
  | _ => cases hprod

theorem determined_entry (hk : Body k t u) (hcolon : Mark ':' u w)
    (ihv : Determined (.value v) w r) : Determined (.entry k v) ('"' :: t) r := by
  intro p' t' r' h' hp ht hr hr'
  cases h' with
  | entry hk' hcolon' hv' =>
      obtain rfl := eq_of_strip_eq ht rfl
      obtain ⟨rfl, rfl⟩ := hk.unique hk'
      have hw := (hcolon.unique hcolon' rfl rfl rfl).2
      obtain ⟨heq, hrest⟩ := ihv hv' rfl hw hr hr'
      cases heq
      exact ⟨rfl, hrest⟩
  | _ => cases hp

theorem determined_noEntries (hclose : Mark '\x7d' t r) : Determined (.entries []) t r := by
  intro p' t' r' h' hp ht _ _
  cases h' with
  | noEntries hclose' => exact ⟨rfl, (hclose.unique hclose' ht rfl rfl).2⟩
  | entries hcomma' => exact absurd (hclose.unique hcomma' ht rfl rfl).1 (by decide)
  | _ => cases hp

theorem determined_entries (hcomma : Mark ',' t u) (hes : Spells (.entries es) w r)
    (ihe : Determined (.entry k v) u w) (ihes : Determined (.entries es) w r) :
    Determined (.entries ((k, v) :: es)) t r := by
  intro p' t' r' h' hp ht hr hr'
  cases h' with
  | noEntries hclose' =>
      exact absurd (hcomma.unique hclose' ht rfl rfl).1 (by decide)
  | entries hcomma' he' hes' =>
      have hu := (hcomma.unique hcomma' ht rfl rfl).2
      obtain ⟨rfl, rfl, rfl, hrest⟩ := ihe.then_entries ihes hes he' hes' hu hr hr'
      exact ⟨rfl, hrest⟩
  | _ => cases hp

end determined

/-! ### Texts -/

theorem Spells.determined {p : Phrase} {t r : List Char} (h : Spells p t r) :
    Determined p t r := by
  induction h with
  | literal h r => exact determined_literal h r
  | number h r => exact determined_number h r
  | text h => exact determined_text h
  | emptyList hopen hclose => exact determined_emptyList hopen hclose
  | list hopen hv hvs ihv ihvs => exact determined_list hopen hv hvs ihv ihvs
  | noItems hclose => exact determined_noItems hclose
  | items hcomma _ hvs ihv ihvs => exact determined_items hcomma hvs ihv ihvs
  | emptyObject hopen hclose => exact determined_emptyObject hopen hclose
  | object hopen he hes ihe ihes => exact determined_object hopen he hes ihe ihes
  | entry hk hcolon _ ihv => exact determined_entry hk hcolon ihv
  | noEntries hclose => exact determined_noEntries hclose
  | entries hcomma _ hes ihe ihes => exact determined_entries hcomma hes ihe ihes

/-- A text stands for one value only. -/
theorem IsText.unique {t : List Char} {v v' : JsonTree} (h : IsText t v) (h' : IsText t v') :
    v = v' := by
  obtain ⟨before, body, after, hbefore, hafter, rfl, hv⟩ := h
  obtain ⟨before', body', after', hbefore', hafter', heq, hv'⟩ := h'
  have ht : strip body = strip body' := by
    rw [← strip_append hbefore, heq, strip_append hbefore']
  obtain ⟨hvalue, -⟩ := hv.determined hv' rfl ht (ends_of_spaces hafter) (ends_of_spaces hafter')
  cases hvalue
  rfl

end JsonText
end MessageSchema
