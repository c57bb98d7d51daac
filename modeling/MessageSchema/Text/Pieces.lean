/-! # Pieces of a text

A text cut at every occurrence of one character, and the inverse operation.  A text always has at
least one piece (`pieces_ne_nil`); consecutive separators leave empty pieces between them.  A text
without the separator is its own only piece (`pieces_of_not_mem`), joining undoes cutting
(`joined_pieces`), and cutting undoes joining when no part holds the separator
(`pieces_joined`).  No piece holds the separator (`not_mem_of_mem_pieces`).  Parts that are joined
stand beside a separator (`joined_cons`, `joined_append`), and a text is cut on both sides of a
separator (`pieces_append`). -/

namespace MessageSchema.Text

/-- The pieces of `s` between the occurrences of `sep`, empty ones included. -/
def pieces (sep : Char) (s : String) : List String :=
  (s.toList.splitOn sep).map String.ofList

/-- The texts `ps` in a row with `sep` between neighbours. -/
def joined (sep : Char) (ps : List String) : String :=
  String.ofList ([sep].intercalate (ps.map String.toList))

/-- `s` without its first character if that is `c`. -/
def dropLeading (c : Char) (s : String) : String :=
  match s.toList with
  | [] => s
  | d :: rest => if d = c then String.ofList rest else s

/-- Whether the first character of `s` is `c`. -/
def startsWith (c : Char) (s : String) : Bool :=
  s.toList.head? == some c

/-! ### Cutting and joining -/

theorem pieces_ne_nil (sep : Char) (s : String) : pieces sep s ≠ [] := by
  simp [pieces, List.splitOn_ne_nil]

theorem pieces_of_not_mem {sep : Char} {s : String} (h : sep ∉ s.toList) :
    pieces sep s = [s] := by
  simp [pieces, List.splitOn_eq_singleton h]

@[simp] theorem joined_pieces (sep : Char) (s : String) : joined sep (pieces sep s) = s := by
  simp [joined, pieces, Function.comp_def, List.intercalate_splitOn]

theorem pieces_joined {sep : Char} {ps : List String} (hne : ps ≠ [])
    (h : ∀ p ∈ ps, sep ∉ p.toList) : pieces sep (joined sep ps) = ps := by
  have hl : ∀ l ∈ ps.map String.toList, sep ∉ l := by simpa using h
  simp [pieces, joined, List.splitOn_intercalate sep hl (by simpa using hne), Function.comp_def]

theorem not_mem_of_mem_splitOn {sep : Char} {l part : List Char} (h : part ∈ l.splitOn sep) :
    sep ∉ part := by
  induction l generalizing part with
  | nil => simp_all
  | cons c l ih =>
      rw [List.splitOn_cons_eq_if_modifyHead] at h
      split at h
      · rcases List.mem_cons.mp h with rfl | h
        · simp
        · exact ih h
      next hc =>
        cases hs : l.splitOn sep with
        | nil => exact absurd hs (List.splitOn_ne_nil sep l)
        | cons first rest =>
            rw [hs, List.modifyHead_cons] at h
            rcases List.mem_cons.mp h with rfl | h
            · have hf : sep ∉ first := ih (hs ▸ List.mem_cons_self)
              have hne : ¬ sep = c := fun e => hc (by simp [e])
              simp [hf, hne]
            · exact ih (hs ▸ List.mem_cons_of_mem _ h)

theorem not_mem_of_mem_pieces {sep : Char} {s part : String} (h : part ∈ pieces sep s) :
    sep ∉ part.toList := by
  obtain ⟨l, hl, rfl⟩ := List.mem_map.mp h
  rw [String.toList_ofList]
  exact not_mem_of_mem_splitOn hl

@[simp] theorem joined_singleton (sep : Char) (s : String) : joined sep [s] = s := by
  simp [joined, List.intercalate]

theorem joined_cons {sep : Char} {ps : List String} (p : String) (h : ps ≠ []) :
    joined sep (p :: ps) = p ++ String.singleton sep ++ joined sep ps := by
  cases ps with
  | nil => exact absurd rfl h
  | cons q rest =>
      simp [joined, String.ofList_append, List.intercalate_cons_cons, ← String.toList_inj]

theorem joined_append {sep : Char} {ps qs : List String} (hp : ps ≠ []) (hq : qs ≠ []) :
    joined sep (ps ++ qs) = joined sep ps ++ String.singleton sep ++ joined sep qs := by
  induction ps with
  | nil => exact absurd rfl hp
  | cons p rest ih =>
      rw [List.cons_append, joined_cons p (by simp [hq])]
      cases rest with
      | nil => simp
      | cons r rest =>
          rw [ih (List.cons_ne_nil _ _), joined_cons p (List.cons_ne_nil _ _)]
          simp only [String.append_assoc]

theorem joined_concat {sep : Char} {ps : List String} (p : String) (h : ps ≠ []) :
    joined sep (ps ++ [p]) = joined sep ps ++ String.singleton sep ++ p := by
  rw [joined_append h (List.cons_ne_nil _ _), joined_singleton]

theorem pieces_append (sep : Char) (s t : String) :
    pieces sep (s ++ String.singleton sep ++ t) = pieces sep s ++ pieces sep t := by
  have hjoined : joined sep (pieces sep s ++ pieces sep t) = s ++ String.singleton sep ++ t := by
    rw [joined_append (pieces_ne_nil sep s) (pieces_ne_nil sep t), joined_pieces, joined_pieces]
  rw [← hjoined]
  apply pieces_joined (by simp [pieces_ne_nil])
  intro part hp
  rcases List.mem_append.mp hp with hp | hp
  · exact not_mem_of_mem_pieces hp
  · exact not_mem_of_mem_pieces hp

end MessageSchema.Text
