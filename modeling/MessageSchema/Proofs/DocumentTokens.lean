import MessageSchema.Proofs.DocumentTexts

/-! # The tokens of a document

A document is laid out in lines, and the text of a node has no insignificant characters.  Both texts
are made of the same tokens: a scanner that deletes the blanks and line feeds outside of strings
(`JsonText.compacted`) makes the second layout out of the first (`Json.compacts_print`).  The
scanner takes a quote that is not escaped for the end of a string, and so finds the strings of the
grammar, which it keeps as they stand (`JsonText.compacted_body`).

Main statement: a document without these characters is the compact text of its schema with the entry
of the dialect after the opening brace, and no string in it is touched
(`Schema.compacted_documentText`). -/

namespace MessageSchema

namespace JsonText

/-! ### The scanner -/

/-- Where a character stands: outside of strings, in a string, or in a string right after the
backslash that escapes it. -/
inductive Position where
  | outside
  | inside
  | escaped
deriving DecidableEq, Repr

/-- The position after a character. -/
def Position.next : Position → Char → Position
  | outside, c => if c = '"' then inside else outside
  | inside, c => if c = '"' then outside else if c = '\\' then escaped else inside
  | escaped, _ => inside

/-- What is left of a text that begins at a position when the blanks and line feeds outside of
strings are deleted. -/
def compacted : Position → List Char → List Char
  | _, [] => []
  | p, c :: rest =>
      if p = .outside ∧ (c = ' ' ∨ c = '\n') then compacted p rest
      else c :: compacted (p.next c) rest

variable {t t' u u' r : List Char} {us : List Nat}

theorem compacted_outside {c : Char} (h : c ≠ ' ' ∧ c ≠ '\n') :
    compacted .outside (c :: r) = c :: compacted (Position.outside.next c) r :=
  if_neg fun hc => hc.2.elim h.1 h.2

theorem compacted_inside (c : Char) :
    compacted .inside (c :: r) = c :: compacted (Position.inside.next c) r :=
  if_neg fun hc => Position.noConfusion hc.1

theorem compacted_escaped (c : Char) : compacted .escaped (c :: r) = c :: compacted .inside r :=
  if_neg fun hc => Position.noConfusion hc.1

theorem compacted_inside_plain {c : Char} (h : c ≠ '"' ∧ c ≠ '\\') :
    compacted .inside (c :: r) = c :: compacted .inside r := by
  rw [compacted_inside, Position.next, if_neg h.1, if_neg h.2]

theorem compacted_inside_backslash (c : Char) :
    compacted .inside ('\\' :: c :: r) = '\\' :: c :: compacted .inside r := by
  rw [compacted_inside]
  exact congrArg _ (compacted_escaped c)

/-! ### Strings -/

theorem ne_of_hexValue? {c : Char} {n : Nat} (h : hexValue? c = some n) : c ≠ '"' ∧ c ≠ '\\' := by
  constructor
  · rintro rfl
    cases h
  · rintro rfl
    cases h

/-- A string is kept up to the quote that closes it, and what follows is outside of strings. -/
theorem compacted_body (h : Body us t r) :
    ∃ literal, t = literal ++ r ∧ compacted .inside t = literal ++ compacted .outside r := by
  induction h with
  | close r => exact ⟨['"'], rfl, compacted_inside '"'⟩
  | @plain c us t r hc _ ih =>
      obtain ⟨literal, ht, hcompacted⟩ := ih
      refine ⟨c :: literal, congrArg _ ht, ?_⟩
      rw [compacted_inside_plain hc.2, hcompacted, List.cons_append]
  | @short c u us t r hc _ ih =>
      obtain ⟨literal, ht, hcompacted⟩ := ih
      refine ⟨'\\' :: c :: literal, by rw [ht]; rfl, ?_⟩
      rw [compacted_inside_backslash, hcompacted, List.cons_append, List.cons_append]
  | @long a b c d i j k l us t r ha hb hc hd _ ih =>
      obtain ⟨literal, ht, hcompacted⟩ := ih
      refine ⟨'\\' :: 'u' :: a :: b :: c :: d :: literal, by rw [ht]; rfl, ?_⟩
      rw [compacted_inside_backslash, compacted_inside_plain (ne_of_hexValue? ha),
        compacted_inside_plain (ne_of_hexValue? hb), compacted_inside_plain (ne_of_hexValue? hc),
        compacted_inside_plain (ne_of_hexValue? hd), hcompacted]
      rfl

/-! ### Texts between strings -/

/-- Outside of strings `t` is compacted to `t'`, and what follows it is outside of strings too. -/
def Compacts (t t' : List Char) : Prop :=
  ∀ r, compacted .outside (t ++ r) = t' ++ compacted .outside r

theorem Compacts.append (h : Compacts t t') (hu : Compacts u u') :
    Compacts (t ++ u) (t' ++ u') := by
  intro r
  rw [List.append_assoc, h, hu, List.append_assoc]

/-- Characters other than blanks, line feeds and quotes are kept. -/
theorem compacts_plain (h : ∀ c ∈ t, c ≠ '"' ∧ c ≠ ' ' ∧ c ≠ '\n') : Compacts t t := by
  intro r
  induction t with
  | nil => rfl
  | cons c t ih =>
      obtain ⟨⟨hquote, hblank⟩, ht⟩ := List.forall_mem_cons.mp h
      rw [List.cons_append, compacted_outside hblank, Position.next, if_neg hquote, ih ht,
        List.cons_append]

/-- Blanks and line feeds are deleted. -/
theorem compacts_nil (h : ∀ c ∈ t, c = ' ' ∨ c = '\n') : Compacts t [] := by
  intro r
  induction t with
  | nil => rfl
  | cons c t ih =>
      obtain ⟨hc, ht⟩ := List.forall_mem_cons.mp h
      rw [List.cons_append, compacted, if_pos ⟨rfl, hc⟩, ih ht]

theorem compacts_quote (s : String) : Compacts (Json.quote s) (Json.quote s) := by
  intro r
  obtain ⟨literal, ht, hcompacted⟩ := compacted_body (body_quote s r)
  have hquote : Json.quote s ++ r = '"' :: (literal ++ r) := by
    rw [← ht]
    simp [Json.quote]
  have hliteral : Json.quote s = '"' :: literal := List.append_cancel_right hquote
  rw [hquote, ← ht, compacted_outside (by decide)]
  show '"' :: compacted .inside _ = _
  rw [hcompacted, hliteral, List.cons_append]

theorem compacts_decimal (n : Int) : Compacts (Json.decimal n) (Json.decimal n) := by
  apply compacts_plain
  intro c hc
  have hnumber := (number_decimal n).inNumber_of_mem c hc
  refine ⟨?_, ?_, ?_⟩ <;>
    · rintro rfl
      revert hnumber
      decide

end JsonText

/-! ### Layouts -/

namespace Json

open JsonText

/-- A layout adds nothing but blanks and line feeds. -/
structure Layout.Deletable (l : Layout) : Prop where
  line : ∀ d, ∀ c ∈ l.line d, c = ' ' ∨ c = '\n'
  gap : ∀ c ∈ l.gap, c = ' ' ∨ c = '\n'

theorem Layout.deletable_pretty : pretty.Deletable where
  line := fun d c hc => by
    rcases List.mem_cons.mp hc with rfl | hc
    · exact .inr rfl
    · exact .inl (List.eq_of_mem_replicate hc)
  gap := fun _ hc => .inl (List.mem_singleton.mp hc)

section print
variable {l : Layout} (hl : l.Deletable)
include hl

/-- A structural character in front of an entry, with the line that the entry begins. -/
theorem Layout.Deletable.compacts_mark {c : Char} (hc : c ≠ '"' ∧ c ≠ ' ' ∧ c ≠ '\n') (d : Nat) :
    Compacts (c :: l.line d) [c] :=
  (compacts_plain (t := [c]) (by simpa using hc)).append (compacts_nil (hl.line d))

theorem Layout.Deletable.compacts_close {c : Char} (hc : c ≠ '"' ∧ c ≠ ' ' ∧ c ≠ '\n') (d : Nat) :
    Compacts (l.line d ++ [c]) [c] :=
  (compacts_nil (hl.line d)).append (compacts_plain (by simpa using hc))

/-- The name of an entry with the colon after it. -/
theorem Layout.Deletable.compacts_name (name : String) :
    Compacts (quote name ++ ':' :: l.gap) (quote name ++ [':']) :=
  (compacts_quote name).append
    ((compacts_plain (t := [':']) (by simp)).append (compacts_nil hl.gap))

mutual

theorem compacts_print (d : Nat) :
    ∀ v : Json, Compacts (v.print l d) (v.print .compact d)
  | bool true => compacts_plain (t := ['t', 'r', 'u', 'e']) (by simp)
  | bool false => compacts_plain (t := ['f', 'a', 'l', 's', 'e']) (by simp)
  | number n => compacts_decimal n
  | text s => compacts_quote s
  | list [] => compacts_plain (t := ['[', ']']) (by simp)
  | list (item :: rest) => by
      have h := (hl.compacts_mark (c := '[') (by decide) (d + 1)).append
        ((compacts_print (d + 1) item).append (compacts_printItems d rest))
      simpa [print, Layout.compact] using h
  | object [] => compacts_plain (t := ['\x7b', '\x7d']) (by simp)
  | object ((name, value) :: rest) => by
      have h := (hl.compacts_mark (c := '\x7b') (by decide) (d + 1)).append
        ((hl.compacts_name name).append
          ((compacts_print (d + 1) value).append (compacts_printEntries d rest)))
      simpa [print, Layout.compact] using h

theorem compacts_printItems (d : Nat) :
    ∀ items : List Json, Compacts (printItems l d items) (printItems .compact d items)
  | [] => hl.compacts_close (by decide) d
  | item :: rest => by
      have h := (hl.compacts_mark (c := ',') (by decide) (d + 1)).append
        ((compacts_print (d + 1) item).append (compacts_printItems d rest))
      simpa [printItems, Layout.compact] using h

theorem compacts_printEntries (d : Nat) :
    ∀ entries : List (String × Json),
      Compacts (printEntries l d entries) (printEntries .compact d entries)
  | [] => hl.compacts_close (by decide) d
  | (name, value) :: rest => by
      have h := (hl.compacts_mark (c := ',') (by decide) (d + 1)).append
        ((hl.compacts_name name).append
          ((compacts_print (d + 1) value).append (compacts_printEntries d rest)))
      simpa [printEntries, Layout.compact] using h

end

theorem compacted_toText (v : Json) :
    compacted .outside (v.toText l).toList = (v.toText .compact).toList := by
  have h := compacts_print hl 0 v []
  simpa [toText, compacted] using h

end print

end Json

/-! ### Documents -/

namespace Schema

open JsonText

theorem entries_ne_nil (s : Schema) : s.entries ≠ [] := by
  intro hnil
  have hhead := s.head?_entries
  rw [hnil] at hhead
  cases hhead

/-- The compact text of a document is that of its schema with the dialect in front. -/
theorem toText_documentJson (s : Schema) :
    ∃ rest, s.compactText = "\x7b" ++ rest ∧
      s.documentJson.toText .compact =
        "\x7b\"$schema\":\"http://json-schema.org/draft-04/schema#\"," ++ rest := by
  obtain ⟨⟨name, value⟩, rest, hentries⟩ : ∃ first rest, s.entries = first :: rest :=
    List.exists_cons_of_ne_nil s.entries_ne_nil
  refine ⟨String.ofList (Json.quote name ++ ':' :: value.print .compact 1 ++
    Json.printEntries .compact 0 rest), ?_, ?_⟩
  · rw [compactText, toJson, hentries, Json.toText, ← String.toList_inj]
    simp [Json.print, Json.Layout.compact]
  · have hdialect : '\x7b' :: Json.quote "$schema" ++ ':' :: Json.quote dialect ++ [','] =
        "\x7b\"$schema\":\"http://json-schema.org/draft-04/schema#\",".toList := by
      simp [Json.quote, Json.escape, dialect]
    rw [documentJson, hentries, Json.toText, ← String.toList_inj, String.toList_append, ← hdialect]
    simp [Json.print, Json.printEntries, Json.Layout.compact]

/-- The text of a document without the blanks and line feeds outside of its strings is the compact
text of the schema, with the entry of the dialect after the opening brace.  What the deletion takes
for strings are the strings of the grammar, and it keeps each of them, whatever characters it
holds; so it keeps every name. -/
theorem compacted_documentText (s : Schema) :
    (∃ rest, s.compactText = "\x7b" ++ rest ∧
      String.ofList (compacted .outside s.documentText.toList) =
        "\x7b\"$schema\":\"http://json-schema.org/draft-04/schema#\"," ++ rest) ∧
    (∀ us t r, Body us t r → ∃ literal, t = literal ++ r ∧
      compacted .outside ('"' :: t) = '"' :: literal ++ compacted .outside r) ∧
    ∀ (name : String) (r : List Char),
      compacted .outside (Json.quote name ++ r) = Json.quote name ++ compacted .outside r := by
  refine ⟨?_, ?_, fun name => compacts_quote name⟩
  · obtain ⟨rest, hnode, hdocument⟩ := s.toText_documentJson
    refine ⟨rest, hnode, ?_⟩
    rw [documentText, Json.compacted_toText Json.Layout.deletable_pretty, String.ofList_toList,
      hdocument]
  · intro us t r h
    obtain ⟨literal, ht, hcompacted⟩ := compacted_body h
    refine ⟨literal, ht, ?_⟩
    rw [compacted_outside (by decide)]
    show '"' :: compacted .inside t = _
    rw [hcompacted, List.cons_append]

end Schema
end MessageSchema
